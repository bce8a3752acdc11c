/-
# HeavenFox.Rootfs.FatFile -- `f_read`

A file object has a buffer for one sector, and a transfer takes whole sectors past it.  `f_read` goes
on cluster by cluster: on the boundary of one it follows the chain, then it reads as many sectors of
the cluster as are asked for directly, and a part of a sector through the buffer.
-/
import HeavenFox.Common.ErrorTypes
import HeavenFox.Logic.Paged
import HeavenFox.Rootfs.FatData
import HeavenFox.Rootfs.FatMount

namespace HeavenFox.Rootfs

open HeavenFox.Common HeavenFox.Logic

/-! ## The file object -/

/-- The fields of `FIL` that opening the file sets; `fs` says whether `obj.fs` points to the
volume, and `read` is the bit `FA_READ` of `flag`. -/
structure FilMode where
  fs : Bool
  id : Nat
  read : Bool
  deriving DecidableEq, Repr

/-- `FIL`; `dirty` is the bit `FA_DIRTY` of `flag`. -/
structure Fil extends FilMode where
  sclust : Nat
  objsize : Nat
  dirty : Bool
  err : FResult
  fptr : Nat
  clust : Nat
  sect : Nat
  buf : Mem

/-- What a call works on. -/
structure Stream where
  fs : Fatfs
  fp : Fil

/-- A transfer: the buffer of the caller, how many bytes are done (`br`), and how many are left
(`btr`). -/
structure Transfer extends Stream where
  buff : Mem
  count : Nat
  left : Nat

/-- How a call ends early: with `ABORT`, or not at all. -/
inductive Break (σ : Type) where
  | abort (res : FResult) (s : σ)
  | stop (reason : Stop)

/-- `ABORT` -/
def Stream.abort {α : Type} (res : FResult) (s : Stream) : Except (Break Stream) α :=
  .error (.abort res { s with fp.err := res })

/-- A part of a transfer that does not look at the caller's buffer. -/
def Transfer.on (t : Transfer) : Except (Break Stream) Stream → Except (Break Transfer) Transfer
  | .ok s => .ok { t with toStream := s }
  | .error (.abort res s) => .error (.abort res { t with toStream := s })
  | .error (.stop reason) => .error (.stop reason)

/-- What a call returns, and what it leaves. -/
def returns {σ : Type} : Except (Break σ) σ → Except Stop (FResult × σ)
  | .ok s => .ok (.ok, s)
  | .error (.abort res s) => .ok (res, s)
  | .error (.stop reason) => .error reason

/-- `validate` for a volume with the mount ID `id`. -/
def validate (stat : DStatus) (id : Nat) (s : Stream) : FResult :=
  if s.fp.fs = false ∨ s.fs.fsType = .none ∨ id ≠ s.fp.id ∨ stat.noInit then .invalidObject
  else .ok

/-! ## The buffer of the file -/

/-- Write back the dirty sector cache. -/
def flush (s : Stream) : Except (Break Stream) Stream :=
  if s.fp.dirty then
    let (works, disk) := diskWrite s.fs.disk (fun _ => s.fp.buf) s.fp.sect 1
    let s := { s with fs.disk := disk }
    if works then .ok { s with fp.dirty := false } else s.abort .diskErr
  else .ok s

/-- Fill the sector cache. -/
def fill (sect : Nat) (s : Stream) : Except (Break Stream) Stream :=
  let (works, buf, disk) := diskRead s.fs.disk sect
  let s := { s with fs.disk := disk, fp.buf := buf 0 }
  if works then .ok s else s.abort .diskErr

/-- `csect`: the sector offset in the cluster. -/
def sectorOffset (s : Stream) : Nat := s.fp.fptr / ss &&& (s.fs.csize - 1)

/-- `cc`, clipped at the cluster boundary. -/
def clipped (csize csect cc : Nat) : Nat := if csize < csect + cc then csize - csect else cc

/-! ## `f_read` -/

/-- Behind each pass of the loop of `f_read`. -/
def Transfer.skip (t : Transfer) (rcnt : Nat) : Transfer :=
  { t with fp.fptr := add32 t.fp.fptr rcnt, count := t.count + rcnt, left := t.left - rcnt }

/-- On the cluster boundary `f_read` takes the first cluster or follows the chain. -/
def readCluster (s : Stream) : Except (Break Stream) Stream :=
  if sectorOffset s = 0 then
    let (clst, fs) := if s.fp.fptr = 0 then (s.fp.sclust, s.fs) else getFat s.fs s.fp.clust
    let s := { s with fs }
    if clst < 2 then s.abort .intErr
    else if clst = diskError then s.abort .diskErr
    else .ok { s with fp.clust := clst }
  else .ok s

/-- `f_read` reads `cc` contiguous sectors directly; if the cache holds one of them that has been
changed, it replaces that one. -/
def readRow (sect cc : Nat) (t : Transfer) : Except (Break Transfer) Transfer :=
  let (works, row, disk) := diskRead t.fs.disk sect
  let t : Transfer :=
    { t with
      fs.disk := disk
      buff := splice t.buff t.count (cc * ss) fun k => row (k / ss) (k % ss) }
  if works then
    let first := sub32 t.fp.sect sect
    let t :=
      if t.fp.dirty ∧ first < cc then
        { t with buff := splice t.buff (t.count + first * ss) ss t.fp.buf }
      else t
    .ok (t.skip (cc * ss))
  else t.on (t.toStream.abort .diskErr)

/-- Load the data sector if it is not in the cache. -/
def readSector (sect : Nat) (s : Stream) : Except (Break Stream) Stream :=
  if s.fp.sect ≠ sect then do
    let s ← fill sect (← flush s)
    .ok { s with fp.sect := sect }
  else .ok s

/-- Extract a partial sector. -/
def readPart (t : Transfer) : Transfer :=
  let rcnt := min (ss - t.fp.fptr % ss) t.left
  let t := { t with buff := splice t.buff t.count rcnt fun k => t.fp.buf (t.fp.fptr % ss + k) }
  t.skip rcnt

/-- A pass from a sector boundary on, once the cluster is known: whole sectors, or a part of one. -/
def readFrom (csect : Nat) (t : Transfer) : Except (Break Transfer) Transfer :=
  let sect := clust2sect t.fs t.fp.clust
  if sect = 0 then t.on (t.toStream.abort .intErr)
  else
    let sect := add32 sect csect
    let cc := t.left / ss
    if cc ≠ 0 then readRow sect (clipped t.fs.csize csect cc) t
    else do
      let t ← t.on (readSector sect t.toStream)
      .ok (readPart t)

/-- One pass of the loop of `f_read`. -/
def readRound (t : Transfer) : Except (Break Transfer) Transfer :=
  if t.fp.fptr % ss = 0 then
    -- the offset in the cluster is taken before the cluster is
    t.on (readCluster t.toStream) >>= readFrom (sectorOffset t.toStream)
  else .ok (readPart t)

/-- The loop of `f_read`. -/
def readLoop : Nat → Transfer → Except (Break Transfer) Transfer
  | rounds, t =>
    if t.left = 0 then .ok t
    else
      match rounds with
      | 0 => .error (.stop .spins)
      | rounds + 1 => readRound t >>= readLoop rounds

/-- `f_read`: the result, and the transfer with what has been read. -/
def fRead (stat : DStatus) (id : Nat) (s : Stream) (buff : Mem) (btr : Nat) :
    Except Stop (FResult × Transfer) :=
  let t : Transfer := ⟨s, buff, 0, btr⟩
  if validate stat id s ≠ .ok then .ok (.invalidObject, t)
  else if s.fp.err ≠ .ok then .ok (s.fp.err, t)
  else if s.fp.read = false then .ok (.denied, t)
  else
    let remain := sub32 s.fp.objsize s.fp.fptr
    returns (readLoop btr { t with left := min btr remain })

end HeavenFox.Rootfs
