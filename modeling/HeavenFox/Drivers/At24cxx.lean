/-
# HeavenFox.Drivers.At24cxx -- transfers of `at24cxx.c`

A request of a user is cut at the pages of the EEPROM: what is left of the first page, whole pages,
and the beginning of the last page.  `__at24cxx_driver_write` and `__at24cxx_driver_read` do this in
the same way, and their pointer into the user's buffer goes astray in it.  It is moved by `idx` pages
in front of page `idx`, so the third page is looked for in the wrong place.  A request inside one
page has no first part, and its last part is counted from the start of the page.  A request up to
the very end of the device is refused.  Apart from these requests each transfer is right
(`eeprom_tiles_iff`).
-/
import HeavenFox.Drivers.ImxI2cAdapter
import HeavenFox.Logic.Tiling

namespace HeavenFox.Drivers

open HeavenFox.Common HeavenFox.Logic

/-! ## The device and the request -/

/-- `struct at24cxx_drv_info`: what a transfer uses of it.  `addr` is that of the client. -/
structure At24cxxDrvInfo where
  addr : UInt16
  pageSize : Nat
  totalSize : Nat
  deriving DecidableEq, Repr

/-- `struct fwk_eeprom` -/
structure FwkEeprom where
  addr : Nat
  buf : Nat
  size : Nat
  deriving DecidableEq, Repr

/-- The two calls. -/
inductive EepromDir where
  | write
  | read
  deriving DecidableEq, Repr

/-- One transaction: its messages, the byte in front of the driver's buffer, and the bytes of the
user's buffer that the rest is copied from or to. -/
structure EepromXfer where
  msgs : List FwkI2cMsg
  head : UInt8
  user : Nat
  copied : Nat
  deriving DecidableEq, Repr

/-- What the driver calls: the allocator and `fwk_i2c_transfer`, whose result may depend on all
transactions so far.  `stale` is what the stack holds where the second message gets its flags. -/
structure EepromEnv where
  kmalloc : Nat → Nat
  transfer : List EepromXfer → Int
  stale : List EepromXfer → UInt16

/-! ## The calls -/

/-- The message of `at24cxx_write_eeprom`. -/
def at24cxxWriteEeprom (info : At24cxxDrvInfo) (buffer size : Nat) : List FwkI2cMsg :=
  [{ addr := info.addr, flags := 0, len := UInt16.ofNat size, ptrBuf := buffer }]

/-- The messages of `at24cxx_read_eeprom`.  The flags of the second are only added to. -/
def at24cxxReadEeprom (info : At24cxxDrvInfo) (stale : UInt16) (buffer size : Nat) :
    List FwkI2cMsg :=
  [{ addr := info.addr, flags := 0, len := 1, ptrBuf := buffer },
   { addr := info.addr, flags := stale ||| fwkI2cMRd, len := UInt16.ofNat (size - 1),
     ptrBuf := buffer + 1 }]

/-- How far the pointer into the user's buffer has moved, and the transactions. -/
structure EepromState where
  ptr : Nat
  log : List EepromXfer

section Call

variable (dir : EepromDir) (env : EepromEnv) (info : At24cxxDrvInfo) (eep : FwkEeprom) (buffer : Nat)

/-- The transaction of `count` bytes at the pointer. -/
def eepromXfer (stale : UInt16) (ptr count : Nat) : EepromXfer where
  msgs := match dir with
    | .write => at24cxxWriteEeprom info buffer (count + 1)
    | .read => at24cxxReadEeprom info stale buffer (count + 1)
  head := UInt8.ofNat eep.addr + UInt8.ofNat ptr
  user := ptr
  copied := count

/-- One transfer of `count` bytes; `goto END` is an error with the result. -/
def eepromChunk (count : Nat) (s : EepromState) : Except (Int × List EepromXfer) EepromState :=
  let log := s.log ++ [eepromXfer dir info eep buffer (env.stale s.log) s.ptr count]
  let retval := env.transfer log
  if retval ≠ 0 then .error (retval, log) else .ok { s with log }

/-- The pages that a request touches, and its bytes in the first and in the last of them. -/
structure EepromPages where
  pages : Nat
  firstLeft : Nat
  lastLeft : Nat
  deriving DecidableEq, Repr

/-- `AT24CXX_PAGE_OFFSET` -/
def at24cxxPageOffset (addr size : Nat) : Nat := addr / size

def eepromPages (pageSize addr endAddr : Nat) : EepromPages :=
  let lastPage := at24cxxPageOffset endAddr pageSize
  let firstPage := at24cxxPageOffset addr pageSize
  { lastLeft := endAddr - lastPage * pageSize
    firstLeft :=
      if firstPage ≠ lastPage then sub32 (add32 firstPage 1 * pageSize % 2 ^ 32) addr else 0
    pages := if lastPage > add32 firstPage 1 then lastPage - firstPage - 1 else 0 }

/-- One round of the loop over the whole pages. -/
def eepromPage (s : EepromState) (idx : Nat) : Except (Int × List EepromXfer) EepromState :=
  eepromChunk dir env info eep buffer info.pageSize { s with ptr := s.ptr + idx * info.pageSize }

/-- The part of the first page. -/
def eepromFirst (firstLeft : Nat) (s : EepromState) :
    Except (Int × List EepromXfer) EepromState :=
  if firstLeft ≠ 0 then do
    let s ← eepromChunk dir env info eep buffer firstLeft s
    return { s with ptr := s.ptr + firstLeft }
  else .ok s

/-- The part of the last page. -/
def eepromLast (lastLeft : Nat) (s : EepromState) : Except (Int × List EepromXfer) EepromState :=
  if lastLeft ≠ 0 then eepromChunk dir env info eep buffer lastLeft s else .ok s

/-- The transfers of a request. -/
def eepromTransfers (p : EepromPages) (s : EepromState) :
    Except (Int × List EepromXfer) EepromState := do
  let s ← eepromFirst dir env info eep buffer p.firstLeft s
  let s ← (List.range p.pages).foldlM (eepromPage dir env info eep buffer) s
  eepromLast dir env info eep buffer p.lastLeft { s with ptr := s.ptr + p.pages * info.pageSize }

/-- The body that both calls share. -/
def at24cxxDriverRw : Int × List EepromXfer :=
  if eep.buf = 0 ∨ eep.size = 0 then (-erEmpty, [])
  else
    let endAddr := add32 eep.addr eep.size
    if endAddr ≥ info.totalSize then (-erMore, [])
    else
      let buffer := env.kmalloc (add32 eep.size 1)
      if isValid buffer = false then (-erNomem, [])
      else
        match eepromTransfers dir env info eep buffer
          (eepromPages info.pageSize eep.addr endAddr) ⟨0, []⟩ with
        | .error result => result
        | .ok s => (asInt32 eep.size, s.log)

end Call

/-- `__at24cxx_driver_write` -/
def at24cxxDriverWrite := at24cxxDriverRw .write

/-- `__at24cxx_driver_read` -/
def at24cxxDriverRead := at24cxxDriverRw .read

/-! ## What a transfer is to be -/

/-- The bytes of the device and of the user's buffer that a transaction is about. -/
def EepromXfer.piece (x : EepromXfer) : Piece := ⟨x.head.toNat, x.user, x.copied⟩

/-- The messages move as many bytes as are copied, in the direction of the call, behind the byte
that names the place. -/
def EepromXfer.Moves (dir : EepromDir) (x : EepromXfer) : Prop :=
  match dir, x.msgs with
  | .write, [data] => data.flags = 0 ∧ data.len.toNat = x.copied + 1
  | .read, [place, data] => place.flags = 0 ∧ place.len = 1 ∧ data.flags &&& fwkI2cMRd ≠ 0 ∧
      data.ptrBuf = place.ptrBuf + 1 ∧ data.len.toNat = x.copied
  | _, _ => False

/-- The call moves each byte of the request once, between its place and its place in the buffer of
the user, no transaction leaves its page, and the size is returned. -/
structure EepromTiled (dir : EepromDir) (info : At24cxxDrvInfo) (eep : FwkEeprom)
    (result : Int × List EepromXfer) : Prop where
  returns : result.1 = eep.size
  moves : ∀ x ∈ result.2, x.Moves dir
  covers : Covers 1 (result.2.map EepromXfer.piece) ⟨eep.addr, 0, eep.size⟩
  onePage : ∀ x ∈ result.2, ∀ c ∈ x.piece.cells 1,
    c.1 / info.pageSize = x.piece.place / info.pageSize

/-- A request that lies on the device. -/
structure FwkEeprom.OnDevice (info : At24cxxDrvInfo) (eep : FwkEeprom) : Prop where
  page_pos : 0 < info.pageSize
  whole_pages : info.pageSize ∣ info.totalSize
  total_le : info.totalSize ≤ 256
  buf_ne : eep.buf ≠ 0
  size_pos : 0 < eep.size
  fits : eep.addr + eep.size ≤ info.totalSize

/-! ## The transactions of a call -/

/-- How far the loop has moved the pointer in front of page `k`. -/
def stepped (pageSize : Nat) : Nat → Nat
  | 0 => 0
  | k + 1 => stepped pageSize k + (k + 1) * pageSize

theorem stepped_le_one {pageSize k : Nat} (h : k ≤ 1) : stepped pageSize k = pageSize * k := by
  rcases Nat.le_one_iff_eq_zero_or_eq_one.mp h with rfl | rfl
  · rfl
  · show 0 + (0 + 1) * pageSize = pageSize * 1
    omega

/-- The third page is looked for at the fourth or behind it. -/
theorem le_stepped (pageSize : Nat) {k : Nat} (h : 2 ≤ k) : 3 * pageSize ≤ stepped pageSize k := by
  induction k, h using Nat.le_induction with
  | base =>
    show 3 * pageSize ≤ 0 + (0 + 1) * pageSize + (1 + 1) * pageSize
    omega
  | succ k hk ih => exact Nat.le_add_right_of_le ih

/-- The piece of a transaction. -/
def eepromPiece (addr ptr count : Nat) : Piece :=
  ⟨(UInt8.ofNat addr + UInt8.ofNat ptr).toNat, ptr, count⟩

/-- The pieces of a request. -/
def eepromCut (pageSize addr : Nat) (p : EepromPages) : List Piece :=
  (if p.firstLeft ≠ 0 then [eepromPiece addr 0 p.firstLeft] else []) ++
    ((List.range p.pages).map fun i =>
      eepromPiece addr (p.firstLeft + stepped pageSize i) pageSize) ++
    if p.lastLeft ≠ 0 then [eepromPiece addr (p.firstLeft + stepped pageSize p.pages) p.lastLeft]
    else []

/-- The transactions so far have moved the pieces. -/
structure EepromState.Did (dir : EepromDir) (s : EepromState) (ps : List Piece) : Prop where
  pieces : s.log.map EepromXfer.piece = ps
  moves : ∀ x ∈ s.log, x.Moves dir

section Transfers

variable (dir : EepromDir) {env : EepromEnv} (info : At24cxxDrvInfo) (eep : FwkEeprom)
  (buffer : Nat)

theorem eepromXfer_moves (stale : UInt16) (ptr : Nat) {count : Nat} (h : count < 2 ^ 16 - 1) :
    (eepromXfer dir info eep buffer stale ptr count).Moves dir := by
  cases dir with
  | write => exact ⟨rfl, UInt16.toNat_ofNat_of_lt' (by show count + 1 < 2 ^ 16; omega)⟩
  | read =>
    have hflag : (stale ||| fwkI2cMRd) &&& fwkI2cMRd = fwkI2cMRd := by
      apply UInt16.toBitVec_inj.mp
      ext i
      simp only [UInt16.toBitVec_and, UInt16.toBitVec_or, BitVec.getElem_and, BitVec.getElem_or]
      cases stale.toBitVec[i] <;> cases fwkI2cMRd.toBitVec[i] <;> rfl
    refine ⟨rfl, rfl, ?_, rfl, UInt16.toNat_ofNat_of_lt' (by show count < 2 ^ 16; omega)⟩
    show (stale ||| fwkI2cMRd) &&& fwkI2cMRd ≠ 0
    rw [hflag]
    decide

/-- A transfer that succeeds adds its piece. -/
theorem eepromChunk_did (hbus : ∀ log, env.transfer log = 0) {s : EepromState} {ps : List Piece}
    (hdid : s.Did dir ps) {count : Nat} (h : count < 2 ^ 16 - 1) :
    ∃ s', eepromChunk dir env info eep buffer count s = .ok s' ∧ s'.ptr = s.ptr ∧
      s'.Did dir (ps ++ [eepromPiece eep.addr s.ptr count]) := by
  refine ⟨_, if_neg (not_not_intro (hbus _)), rfl, ?_, ?_⟩
  · rw [List.map_append, hdid.pieces]
    rfl
  · intro x hx
    rcases List.mem_append.mp hx with hx | hx
    · exact hdid.moves x hx
    · rw [List.mem_singleton.mp hx]
      exact eepromXfer_moves _ _ _ _ _ _ h

/-- The loop over the whole pages, with the pointer that it leaves behind. -/
theorem eepromPages_did (hbus : ∀ log, env.transfer log = 0) {s : EepromState} {ps : List Piece}
    (hdid : s.Did dir ps) (hpage : info.pageSize < 2 ^ 16 - 1) (k : Nat) :
    ∃ s', (List.range k).foldlM (eepromPage dir env info eep buffer) s = .ok s' ∧
      s'.ptr + k * info.pageSize = s.ptr + stepped info.pageSize k ∧
      s'.Did dir (ps ++ (List.range k).map fun i =>
        eepromPiece eep.addr (s.ptr + stepped info.pageSize i) info.pageSize) := by
  induction k with
  | zero =>
    refine ⟨s, rfl, ?_, ?_⟩
    · rw [Nat.zero_mul]
      rfl
    · rwa [List.range_zero, List.map_nil, List.append_nil]
  | succ k ih =>
    obtain ⟨s₁, hrun, hptr, hdid₁⟩ := ih
    obtain ⟨s₂, hchunk, hptr₂, hdid₂⟩ := eepromChunk_did dir info eep buffer
      (s := { s₁ with ptr := s₁.ptr + k * info.pageSize }) hbus
      ⟨hdid₁.pieces, hdid₁.moves⟩ hpage
    refine ⟨s₂, ?_, ?_, ?_⟩
    · rw [List.range_succ, List.foldlM_append, hrun]
      show List.foldlM (eepromPage dir env info eep buffer) s₁ [k] = _
      rw [List.foldlM_cons, eepromPage, hchunk]
      rfl
    · rw [hptr₂]
      show s₁.ptr + k * info.pageSize + (k + 1) * info.pageSize = _
      rw [hptr, Nat.add_assoc]
      rfl
    · rw [List.range_succ, List.map_append, ← List.append_assoc]
      rw [hptr] at hdid₂
      exact hdid₂

theorem eepromFirst_did (hbus : ∀ log, env.transfer log = 0) {firstLeft : Nat}
    (h : firstLeft < 2 ^ 16 - 1) :
    ∃ s, eepromFirst dir env info eep buffer firstLeft ⟨0, []⟩ = .ok s ∧ s.ptr = firstLeft ∧
      s.Did dir (if firstLeft ≠ 0 then [eepromPiece eep.addr 0 firstLeft] else []) := by
  have hnone : (EepromState.mk 0 []).Did dir [] := ⟨rfl, fun x hx => absurd hx List.not_mem_nil⟩
  by_cases hzero : firstLeft ≠ 0
  · obtain ⟨s, hchunk, hptr, hdid⟩ := eepromChunk_did dir info eep buffer hbus hnone h
    refine ⟨{ s with ptr := s.ptr + firstLeft }, ?_, ?_, ?_⟩
    · rw [eepromFirst, if_pos hzero, hchunk]
      rfl
    · show s.ptr + firstLeft = firstLeft
      rw [hptr]
      exact Nat.zero_add _
    · rw [if_pos hzero]
      exact ⟨hdid.pieces, hdid.moves⟩
  · refine ⟨⟨0, []⟩, if_neg hzero, (not_not.mp hzero).symm, ?_⟩
    rwa [if_neg hzero]

theorem eepromLast_did (hbus : ∀ log, env.transfer log = 0) {s : EepromState} {ps : List Piece}
    (hdid : s.Did dir ps) {lastLeft : Nat} (h : lastLeft < 2 ^ 16 - 1) :
    ∃ s', eepromLast dir env info eep buffer lastLeft s = .ok s' ∧
      s'.Did dir (ps ++ if lastLeft ≠ 0 then [eepromPiece eep.addr s.ptr lastLeft] else []) := by
  by_cases hzero : lastLeft ≠ 0
  · obtain ⟨s', hchunk, -, hdid'⟩ := eepromChunk_did dir info eep buffer hbus hdid h
    refine ⟨s', (if_pos hzero).trans hchunk, ?_⟩
    rwa [if_pos hzero]
  · refine ⟨s, if_neg hzero, ?_⟩
    rwa [if_neg hzero, List.append_nil]

/-- If every transfer succeeds, the call moves the pieces of the request. -/
theorem eepromTransfers_did (hbus : ∀ log, env.transfer log = 0) {p : EepromPages}
    (hpage : info.pageSize < 2 ^ 16 - 1) (hfirst : p.firstLeft < 2 ^ 16 - 1)
    (hlast : p.lastLeft < 2 ^ 16 - 1) :
    ∃ s, eepromTransfers dir env info eep buffer p ⟨0, []⟩ = .ok s ∧
      s.Did dir (eepromCut info.pageSize eep.addr p) := by
  obtain ⟨s₁, hrun₁, hptr₁, hdid₁⟩ := eepromFirst_did dir info eep buffer hbus hfirst
  obtain ⟨s₂, hrun₂, hptr₂, hdid₂⟩ := eepromPages_did dir info eep buffer hbus hdid₁ hpage p.pages
  rw [hptr₁] at hptr₂ hdid₂
  obtain ⟨s₃, hrun₃, hdid₃⟩ := eepromLast_did dir info eep buffer
    (s := { s₂ with ptr := s₂.ptr + p.pages * info.pageSize }) hbus ⟨hdid₂.pieces, hdid₂.moves⟩
    hlast
  rw [hptr₂] at hdid₃
  refine ⟨s₃, ?_, hdid₃⟩
  rw [eepromTransfers, hrun₁]
  show (List.range p.pages).foldlM (eepromPage dir env info eep buffer) s₁ >>= _ = _
  rw [hrun₂]
  exact hrun₃

end Transfers

/-! ## Which requests are tiled -/

section Requests

variable {dir : EepromDir} {env : EepromEnv} {info : At24cxxDrvInfo} {eep : FwkEeprom}

/-- A request that is not refused, cut at the pages. -/
structure FwkEeprom.CutAt (info : At24cxxDrvInfo) (eep : FwkEeprom) (p : EepromPages) : Prop where
  last : p.lastLeft = (eep.addr + eep.size) % info.pageSize
  pages : p.pages = (eep.addr + eep.size) / info.pageSize - eep.addr / info.pageSize - 1
  onePage : eep.addr / info.pageSize = (eep.addr + eep.size) / info.pageSize →
    p.firstLeft = 0 ∧ eep.addr % info.pageSize + eep.size = p.lastLeft
  morePages : eep.addr / info.pageSize ≠ (eep.addr + eep.size) / info.pageSize →
    0 < p.firstLeft ∧ p.firstLeft ≤ info.pageSize ∧ info.pageSize ∣ eep.addr + p.firstLeft ∧
      eep.size = p.firstLeft + info.pageSize * p.pages + p.lastLeft

theorem eepromPages_last :
    (eepromPages info.pageSize eep.addr (eep.addr + eep.size)).lastLeft =
      (eep.addr + eep.size) % info.pageSize := by
  have hend := Nat.div_add_mod (eep.addr + eep.size) info.pageSize
  show eep.addr + eep.size - (eep.addr + eep.size) / info.pageSize * info.pageSize = _
  rw [Nat.mul_comm]
  omega

section Pages

variable (hon : eep.OnDevice info)
include hon

/-- The number of the next page does not wrap. -/
theorem nextPage_eq : add32 (eep.addr / info.pageSize) 1 = eep.addr / info.pageSize + 1 := by
  have htotal := hon.total_le
  have hfits := hon.fits
  have hquot : eep.addr / info.pageSize ≤ eep.addr := Nat.div_le_self _ _
  exact add32_of_lt (by omega)

theorem eepromPages_pages :
    (eepromPages info.pageSize eep.addr (eep.addr + eep.size)).pages =
      (eep.addr + eep.size) / info.pageSize - eep.addr / info.pageSize - 1 := by
  show (if (eep.addr + eep.size) / info.pageSize > add32 (eep.addr / info.pageSize) 1 then
    (eep.addr + eep.size) / info.pageSize - eep.addr / info.pageSize - 1 else 0) = _
  rw [nextPage_eq hon]
  split <;> omega

/-- The rest of the first page, where the request goes beyond it. -/
theorem eepromPages_first
    (hne : eep.addr / info.pageSize ≠ (eep.addr + eep.size) / info.pageSize) :
    (eepromPages info.pageSize eep.addr (eep.addr + eep.size)).firstLeft =
      info.pageSize - eep.addr % info.pageSize := by
  have htotal := hon.total_le
  have hfits := hon.fits
  have haddr := Nat.div_add_mod eep.addr info.pageSize
  have hend := Nat.div_add_mod (eep.addr + eep.size) info.pageSize
  have hrest := Nat.mod_lt eep.addr hon.page_pos
  have hround : (eep.addr / info.pageSize + 1) * info.pageSize =
      info.pageSize * (eep.addr / info.pageSize) + info.pageSize := by
    rw [Nat.mul_comm, Nat.mul_succ]
  have hover : (eep.addr / info.pageSize + 1) * info.pageSize ≤ eep.addr + eep.size := by
    have hle : eep.addr / info.pageSize ≤ (eep.addr + eep.size) / info.pageSize :=
      Nat.div_le_div_right (Nat.le_add_right _ _)
    calc
      (eep.addr / info.pageSize + 1) * info.pageSize ≤
          (eep.addr + eep.size) / info.pageSize * info.pageSize :=
        Nat.mul_le_mul_right _ (Nat.lt_of_le_of_ne hle hne)
      _ ≤ eep.addr + eep.size := Nat.div_mul_le_self _ _
  refine (if_pos hne).trans ?_
  show sub32 (add32 (eep.addr / info.pageSize) 1 * info.pageSize % 2 ^ 32) eep.addr = _
  rw [nextPage_eq hon, Nat.mod_eq_of_lt (by omega), sub32_of_le (by omega) (by omega)]
  omega

theorem eepromPages_cutAt :
    eep.CutAt info (eepromPages info.pageSize eep.addr (eep.addr + eep.size)) := by
  have haddr := Nat.div_add_mod eep.addr info.pageSize
  have hend := Nat.div_add_mod (eep.addr + eep.size) info.pageSize
  have hrest := Nat.mod_lt eep.addr hon.page_pos
  have hle : eep.addr / info.pageSize ≤ (eep.addr + eep.size) / info.pageSize :=
    Nat.div_le_div_right (Nat.le_add_right _ _)
  refine ⟨eepromPages_last, eepromPages_pages hon, fun hsame => ?_, fun hne => ?_⟩
  · refine ⟨if_neg (not_not_intro hsame), ?_⟩
    rw [eepromPages_last]
    rw [hsame] at haddr
    omega
  · -- the request goes over `k` whole pages
    obtain ⟨k, hk⟩ := Nat.exists_eq_add_of_le (Nat.succ_le_of_lt (Nat.lt_of_le_of_ne hle hne))
    have hover : info.pageSize * ((eep.addr + eep.size) / info.pageSize) =
        info.pageSize * (eep.addr / info.pageSize) + info.pageSize + info.pageSize * k := by
      rw [hk, Nat.mul_add, Nat.mul_succ]
    have hwhole : (eep.addr + eep.size) / info.pageSize - eep.addr / info.pageSize - 1 = k := by
      omega
    rw [eepromPages_first hon hne, eepromPages_pages hon, hwhole, eepromPages_last]
    refine ⟨by omega, by omega, ?_, by omega⟩
    have hbound : eep.addr + (info.pageSize - eep.addr % info.pageSize) =
        info.pageSize * (eep.addr / info.pageSize + 1) := by
      rw [Nat.mul_succ]
      omega
    rw [hbound]
    exact Nat.dvd_mul_right _ _

end Pages

/-- The place of a piece, for all addresses that one byte can name. -/
theorem eepromPiece_eq {addr ptr count : Nat} (h : addr + ptr < 256) :
    eepromPiece addr ptr count = ⟨addr + ptr, ptr, count⟩ := by
  have hplace : (UInt8.ofNat addr + UInt8.ofNat ptr).toNat = addr + ptr := by
    rw [UInt8.toNat_add, UInt8.toNat_ofNat', UInt8.toNat_ofNat', ← Nat.add_mod]
    exact Nat.mod_eq_of_lt h
  rw [eepromPiece, hplace]

/-- The request stays clear of what goes wrong: if it lies in one page it starts there, and it goes
over one whole page at most, or over two and ends with the second. -/
structure FwkEeprom.Clear (info : At24cxxDrvInfo) (eep : FwkEeprom) : Prop where
  before_end : eep.addr + eep.size < info.totalSize
  one_page : eep.addr / info.pageSize = (eep.addr + eep.size) / info.pageSize →
    info.pageSize ∣ eep.addr
  two_pages : (eep.addr + eep.size) / info.pageSize - eep.addr / info.pageSize - 1 ≤ 1 ∨
    (eep.addr + eep.size) / info.pageSize - eep.addr / info.pageSize - 1 = 2 ∧
      info.pageSize ∣ eep.addr + eep.size

/-- The pieces of a request cut at the pages as it should be. -/
def evenCut (pageSize addr : Nat) (p : EepromPages) : List Piece :=
  ⟨addr, 0, p.firstLeft⟩ :: (((List.range p.pages).map fun i =>
      ⟨addr + p.firstLeft + pageSize * i, p.firstLeft + pageSize * i, pageSize⟩) ++
    if p.lastLeft ≠ 0 then
      [⟨addr + p.firstLeft + pageSize * p.pages, p.firstLeft + pageSize * p.pages, p.lastLeft⟩]
    else [])

theorem evenCut_tiles (pageSize addr : Nat) (p : EepromPages) :
    Tiles 1 (evenCut pageSize addr p)
      ⟨addr, 0, p.firstLeft + (pageSize * p.pages + p.lastLeft)⟩ := by
  have hpages := tiles_pieces 1 (addr + p.firstLeft) p.firstLeft pageSize p.pages
  simp only [Nat.one_mul] at hpages
  refine Tiles.cons ?_
  rw [Nat.one_mul, Nat.zero_add]
  refine hpages.append ?_
  rw [Nat.one_mul]
  by_cases h : p.lastLeft = 0
  · rw [if_neg (not_not_intro h), h]
    exact tiles_nil
  · rw [if_pos h]
    exact tiles_one

/-- All of a run of bytes that does not reach the next page is in one page. -/
theorem same_page {pageSize m place j : Nat} (hlow : pageSize * m ≤ place)
    (hhigh : place + j < pageSize * (m + 1)) : (place + j) / pageSize = place / pageSize := by
  rw [Nat.mul_comm] at hlow hhigh
  rw [Nat.div_eq_of_lt_le (by omega : m * pageSize ≤ place + j) hhigh,
    Nat.div_eq_of_lt_le hlow (by omega)]

theorem evenCut_onePage {p : EepromPages} (hcut : eep.CutAt info p) (hon : eep.OnDevice info)
    (hmore : eep.addr / info.pageSize ≠ (eep.addr + eep.size) / info.pageSize) :
    ∀ q ∈ evenCut info.pageSize eep.addr p, ∀ c ∈ q.cells 1,
      c.1 / info.pageSize = q.place / info.pageSize := by
  obtain ⟨hpos, hle, ⟨m, hm⟩, -⟩ := hcut.morePages hmore
  have hlast : p.lastLeft < info.pageSize := hcut.last ▸ Nat.mod_lt _ hon.page_pos
  intro q hq c hc
  obtain ⟨j, hj, rfl⟩ := mem_cells.mp hc
  rcases List.mem_cons.mp hq with rfl | hq
  · obtain ⟨m, rfl⟩ : ∃ n, m = n + 1 := Nat.exists_eq_succ_of_ne_zero fun h => by
      rw [h, Nat.mul_zero] at hm
      omega
    have hm' := hm
    have hj' : j < p.firstLeft := hj
    rw [Nat.mul_succ] at hm'
    exact same_page (m := m) (by show _ ≤ eep.addr; omega) (by show eep.addr + j < _; omega)
  rcases List.mem_append.mp hq with hq | hq
  · obtain ⟨i, -, rfl⟩ := List.mem_map.mp hq
    have hplace : eep.addr + p.firstLeft + info.pageSize * i = info.pageSize * (m + i) := by
      rw [hm, Nat.mul_add]
    refine same_page (m := m + i) hplace.ge ?_
    show eep.addr + p.firstLeft + info.pageSize * i + j < _
    rw [hplace, Nat.mul_succ]
    exact Nat.add_lt_add_left hj _
  · by_cases h : p.lastLeft = 0
    · rw [if_neg (not_not_intro h)] at hq
      exact absurd hq List.not_mem_nil
    · rw [if_pos h] at hq
      obtain rfl := List.mem_singleton.mp hq
      have hplace : eep.addr + p.firstLeft + info.pageSize * p.pages =
          info.pageSize * (m + p.pages) := by
        rw [hm, Nat.mul_add]
      refine same_page (m := m + p.pages) hplace.ge ?_
      show eep.addr + p.firstLeft + info.pageSize * p.pages + j < _
      rw [hplace, Nat.mul_succ]
      exact Nat.add_lt_add_left (Nat.lt_trans hj hlast) _

/-- A clear request over several pages is cut as it should be. -/
theorem eepromCut_clear {p : EepromPages} (hcut : eep.CutAt info p) (hon : eep.OnDevice info)
    (hclear : eep.Clear info)
    (hmore : eep.addr / info.pageSize ≠ (eep.addr + eep.size) / info.pageSize) :
    eepromCut info.pageSize eep.addr p = evenCut info.pageSize eep.addr p := by
  obtain ⟨hpos, -, -, hsize⟩ := hcut.morePages hmore
  have hbefore := hclear.before_end
  have htotal := hon.total_le
  have htwo := hclear.two_pages
  rw [← hcut.pages] at htwo
  have hstart : eepromPiece eep.addr 0 p.firstLeft = ⟨eep.addr, 0, p.firstLeft⟩ :=
    eepromPiece_eq (by omega)
  have hmid : ∀ i ∈ List.range p.pages,
      eepromPiece eep.addr (p.firstLeft + stepped info.pageSize i) info.pageSize =
        ⟨eep.addr + p.firstLeft + info.pageSize * i, p.firstLeft + info.pageSize * i,
          info.pageSize⟩ := by
    intro i hi
    have hi' := List.mem_range.mp hi
    have hle : info.pageSize * i ≤ info.pageSize * p.pages := Nat.mul_le_mul_left _ hi'.le
    rw [stepped_le_one (by omega), eepromPiece_eq (by omega), Nat.add_assoc]
  rw [eepromCut, evenCut, if_pos (Nat.ne_of_gt hpos), hstart, List.map_congr_left hmid]
  by_cases hlast : p.lastLeft = 0
  · rw [if_neg (not_not_intro hlast), if_neg (not_not_intro hlast)]
    rfl
  · have hone : p.pages ≤ 1 := by
      rcases htwo with h | ⟨-, hend⟩
      · exact h
      · exact absurd (hcut.last.trans (Nat.mod_eq_zero_of_dvd hend)) hlast
    rw [if_pos hlast, if_pos hlast, stepped_le_one hone, eepromPiece_eq (by omega), ← Nat.add_assoc]
    rfl

/-- A clear request in one page is not cut at all. -/
theorem eepromCut_one {p : EepromPages} (hcut : eep.CutAt info p) (hon : eep.OnDevice info)
    (hclear : eep.Clear info)
    (hsame : eep.addr / info.pageSize = (eep.addr + eep.size) / info.pageSize) :
    eepromCut info.pageSize eep.addr p = [⟨eep.addr, 0, eep.size⟩] := by
  obtain ⟨hfirst, hlast⟩ := hcut.onePage hsame
  have hbefore := hclear.before_end
  have htotal := hon.total_le
  have hpages : p.pages = 0 := by
    rw [hcut.pages, hsame]
    omega
  rw [Nat.mod_eq_zero_of_dvd (hclear.one_page hsame), Nat.zero_add] at hlast
  rw [eepromCut, hfirst, hpages, ← hlast, if_neg (not_not_intro rfl),
    if_pos (Nat.ne_of_gt hon.size_pos)]
  show [eepromPiece eep.addr 0 eep.size] = _
  rw [eepromPiece_eq (by omega)]
  rfl

/-- The pieces of a clear request tile it, and none of them leaves its page. -/
theorem eepromCut_tiles {p : EepromPages} (hcut : eep.CutAt info p) (hon : eep.OnDevice info)
    (hclear : eep.Clear info) :
    Tiles 1 (eepromCut info.pageSize eep.addr p) ⟨eep.addr, 0, eep.size⟩ ∧
      ∀ q ∈ eepromCut info.pageSize eep.addr p, ∀ c ∈ q.cells 1,
        c.1 / info.pageSize = q.place / info.pageSize := by
  by_cases hsame : eep.addr / info.pageSize = (eep.addr + eep.size) / info.pageSize
  · rw [eepromCut_one hcut hon hclear hsame]
    refine ⟨tiles_one, ?_⟩
    intro q hq c hc
    obtain rfl := List.mem_singleton.mp hq
    obtain ⟨j, hj, rfl⟩ := mem_cells.mp hc
    have hup : (eep.addr + j) / info.pageSize ≤ (eep.addr + eep.size) / info.pageSize :=
      Nat.div_le_div_right (Nat.add_le_add_left hj.le _)
    exact le_antisymm (hup.trans hsame.ge) (Nat.div_le_div_right (Nat.le_add_right _ _))
  · obtain ⟨-, -, -, hsize⟩ := hcut.morePages hsame
    rw [eepromCut_clear hcut hon hclear hsame]
    refine ⟨?_, evenCut_onePage hcut hon hsame⟩
    rw [hsize, Nat.add_assoc]
    exact evenCut_tiles _ _ _

/-- The third page, and what follows on the second, is left out. -/
theorem not_mem_eepromCut {p : EepromPages} {q : Piece} {place : Nat}
    (hq : q ∈ eepromCut info.pageSize eep.addr p) (hpages : 2 ≤ p.pages)
    (hpage : 0 < info.pageSize) :
    (place, p.firstLeft + 2 * info.pageSize) ∉ q.cells 1 := by
  intro hc
  obtain ⟨j, hj, heq⟩ := mem_cells.mp hc
  have hsource : p.firstLeft + 2 * info.pageSize = q.source + 1 * j := congrArg Prod.snd heq
  rcases List.mem_append.mp hq with hq | hq
  · rcases List.mem_append.mp hq with hq | hq
    · split at hq
      · obtain rfl := List.mem_singleton.mp hq
        have hj' : j < p.firstLeft := hj
        have hsource' : p.firstLeft + 2 * info.pageSize = 0 + 1 * j := hsource
        omega
      · exact absurd hq List.not_mem_nil
    · obtain ⟨i, -, rfl⟩ := List.mem_map.mp hq
      have hj' : j < info.pageSize := hj
      have hsource' : p.firstLeft + 2 * info.pageSize =
          p.firstLeft + stepped info.pageSize i + 1 * j := hsource
      rcases Nat.lt_or_ge i 2 with hi | hi
      · have hle : info.pageSize * i ≤ info.pageSize * 1 := Nat.mul_le_mul_left _ (by omega)
        rw [stepped_le_one (by omega)] at hsource'
        omega
      · have hge := le_stepped info.pageSize hi
        omega
  · split at hq
    · obtain rfl := List.mem_singleton.mp hq
      have hge := le_stepped info.pageSize hpages
      have hsource' : p.firstLeft + 2 * info.pageSize =
          p.firstLeft + stepped info.pageSize p.pages + 1 * j := hsource
      omega
    · exact absurd hq List.not_mem_nil

/-- Only a clear request is covered. -/
theorem clear_of_covers {p : EepromPages} (hcut : eep.CutAt info p) (hon : eep.OnDevice info)
    (hbefore : eep.addr + eep.size < info.totalSize)
    (hcovers : Covers 1 (eepromCut info.pageSize eep.addr p) ⟨eep.addr, 0, eep.size⟩) :
    eep.Clear info := by
  refine ⟨hbefore, fun hsame => ?_, ?_⟩
  · obtain ⟨hfirst, hlast⟩ := hcut.onePage hsame
    have hpages : p.pages = 0 := by
      rw [hcut.pages, hsame]
      omega
    have hsize_pos := hon.size_pos
    have hsum := hcovers.sum_counts
    rw [eepromCut, hfirst, hpages, if_neg (not_not_intro rfl), if_pos (by omega)] at hsum
    have hcount : p.lastLeft + 0 = eep.size := hsum
    exact Nat.dvd_of_mod_eq_zero (by omega)
  · by_contra hmany
    rw [← hcut.pages] at hmany
    have hsame : eep.addr / info.pageSize ≠ (eep.addr + eep.size) / info.pageSize := by
      intro hsame
      have hpages := hcut.pages
      omega
    obtain ⟨-, -, -, hsize⟩ := hcut.morePages hsame
    have hin : p.firstLeft + 2 * info.pageSize < eep.size := by
      rcases Nat.lt_or_ge 2 p.pages with h | h
      · have hle : info.pageSize * 3 ≤ info.pageSize * p.pages := Nat.mul_le_mul_left _ h
        have hpos := hon.page_pos
        omega
      · have htwo : p.pages = 2 := by omega
        have hlast : p.lastLeft ≠ 0 := by
          intro hzero
          exact hmany (Or.inr ⟨htwo, Nat.dvd_of_mod_eq_zero (hcut.last.symm.trans hzero)⟩)
        rw [htwo] at hsize
        omega
    have hcell : (eep.addr + (p.firstLeft + 2 * info.pageSize), p.firstLeft + 2 * info.pageSize) ∈
        (Piece.mk eep.addr 0 eep.size).cells 1 :=
      mem_cells.mpr ⟨_, hin, by rw [Nat.one_mul, Nat.zero_add]⟩
    obtain ⟨q, hq, hc⟩ := hcovers.mem_iff.mpr hcell
    exact not_mem_eepromCut hq (by omega) hon.page_pos hc

/-- What the calls return. -/
theorem at24cxxDriverRw_eq (dir : EepromDir) (hbus : ∀ log, env.transfer log = 0) (hon : eep.OnDevice info)
    (hbefore : eep.addr + eep.size < info.totalSize)
    (hbuffer : isValid (env.kmalloc (eep.size + 1)) = true) :
    ∃ s : EepromState, at24cxxDriverRw dir env info eep = ((eep.size : Int), s.log) ∧
      s.Did dir (eepromCut info.pageSize eep.addr
        (eepromPages info.pageSize eep.addr (eep.addr + eep.size))) := by
  have htotal := hon.total_le
  have hsize_pos := hon.size_pos
  have hcut := eepromPages_cutAt hon
  have hpage : info.pageSize ≤ 256 :=
    (Nat.le_of_dvd (by omega) hon.whole_pages).trans htotal
  have hfirst : (eepromPages info.pageSize eep.addr (eep.addr + eep.size)).firstLeft ≤ 256 := by
    by_cases h : eep.addr / info.pageSize = (eep.addr + eep.size) / info.pageSize
    · rw [(hcut.onePage h).1]
      exact Nat.zero_le _
    · exact (hcut.morePages h).2.1.trans hpage
  have hlast : (eepromPages info.pageSize eep.addr (eep.addr + eep.size)).lastLeft ≤ 256 := by
    rw [hcut.last]
    exact (Nat.mod_lt _ hon.page_pos).le.trans hpage
  obtain ⟨s, hrun, hdid⟩ := eepromTransfers_did dir info eep (env.kmalloc (eep.size + 1)) hbus
    (p := eepromPages info.pageSize eep.addr (eep.addr + eep.size)) (by omega) (by omega) (by omega)
  refine ⟨s, ?_, hdid⟩
  have hend : add32 eep.addr eep.size = eep.addr + eep.size := add32_of_lt (by omega)
  have hblock : add32 eep.size 1 = eep.size + 1 := add32_of_lt (by omega)
  have hasked : ¬ (eep.buf = 0 ∨ eep.size = 0) := not_or.mpr ⟨hon.buf_ne, Nat.ne_of_gt hsize_pos⟩
  rw [at24cxxDriverRw, if_neg hasked]
  simp only [hend, hblock, hrun, if_neg (Nat.not_le_of_lt hbefore), hbuffer, Bool.true_eq_false,
    if_false]
  rw [asInt32_of_lt (by omega)]

/-- A request that is refused returns an error. -/
theorem at24cxxDriverRw_refused (hon : eep.OnDevice info)
    (h : ¬ (isValid (env.kmalloc (eep.size + 1)) = true ∧ eep.addr + eep.size < info.totalSize)) :
    (at24cxxDriverRw dir env info eep).1 < 0 := by
  have htotal := hon.total_le
  have hfits := hon.fits
  have hend : add32 eep.addr eep.size = eep.addr + eep.size := add32_of_lt (by omega)
  have hblock : add32 eep.size 1 = eep.size + 1 := add32_of_lt (by omega)
  have hasked : ¬ (eep.buf = 0 ∨ eep.size = 0) :=
    not_or.mpr ⟨hon.buf_ne, Nat.ne_of_gt hon.size_pos⟩
  rw [at24cxxDriverRw, if_neg hasked]
  simp only [hend, hblock]
  by_cases hbefore : eep.addr + eep.size < info.totalSize
  · have hbuffer : isValid (env.kmalloc (eep.size + 1)) = false := by
      rw [← Bool.not_eq_true]
      exact fun hvalid => h ⟨hvalid, hbefore⟩
    rw [if_neg (Nat.not_le_of_lt hbefore), if_pos hbuffer]
    decide
  · rw [if_pos (Nat.le_of_not_lt hbefore)]
    decide

/-- One of the two calls. -/
theorem eepromTiled_iff (dir : EepromDir) (hbus : ∀ log, env.transfer log = 0) (hon : eep.OnDevice info) :
    EepromTiled dir info eep (at24cxxDriverRw dir env info eep) ↔
      isValid (env.kmalloc (eep.size + 1)) = true ∧ eep.Clear info := by
  have hcut := eepromPages_cutAt hon
  constructor
  · intro h
    have hreturns : ¬ (at24cxxDriverRw dir env info eep).1 < 0 := by
      rw [h.returns]
      omega
    obtain ⟨hbuffer, hbefore⟩ := not_not.mp (mt (at24cxxDriverRw_refused hon) hreturns)
    obtain ⟨s, heq, hdid⟩ := at24cxxDriverRw_eq dir hbus hon hbefore hbuffer
    have hcovers := h.covers
    rw [heq] at hcovers
    exact ⟨hbuffer, clear_of_covers hcut hon hbefore (hdid.pieces ▸ hcovers)⟩
  · rintro ⟨hbuffer, hclear⟩
    obtain ⟨s, heq, hdid⟩ := at24cxxDriverRw_eq dir hbus hon hclear.before_end hbuffer
    obtain ⟨htiles, hpages⟩ := eepromCut_tiles hcut hon hclear
    rw [heq]
    refine ⟨rfl, hdid.moves, ?_, ?_⟩
    · show Covers 1 (s.log.map EepromXfer.piece) _
      rw [hdid.pieces]
      exact htiles.covers
    · intro x hx
      apply hpages
      rw [← hdid.pieces]
      exact List.mem_map_of_mem hx

end Requests

/-- **Transfers tile the request** if there is memory for the buffer of the driver and the request is
clear of the three kinds that go wrong. -/
theorem eeprom_tiles_iff (env : EepromEnv) (info : At24cxxDrvInfo) (eep : FwkEeprom)
    (hbus : ∀ log, env.transfer log = 0) (hon : eep.OnDevice info) :
    (EepromTiled .write info eep (at24cxxDriverWrite env info eep) ∧
      EepromTiled .read info eep (at24cxxDriverRead env info eep)) ↔
      isValid (env.kmalloc (eep.size + 1)) = true ∧ eep.Clear info := by
  have hwrite := eepromTiled_iff .write hbus hon
  have hread := eepromTiled_iff .read hbus hon
  constructor
  · intro h
    exact hwrite.mp h.1
  · intro h
    exact ⟨hwrite.mpr h, hread.mpr h⟩

/-- The EEPROM of the default sizes, `AT24C01_PAGE_SIZE` times `AT24C01_PAGE_COUNT`. -/
def at24c01 : At24cxxDrvInfo := { addr := 0x50, pageSize := 8, totalSize := 8 * 16 }

/-- A bus on which every transfer succeeds. -/
def goodBus : EepromEnv :=
  { kmalloc := fun _ => 0x80000000, transfer := fun _ => 0, stale := fun _ => 0 }

/-- A request that starts inside a page and ends inside the third one. -/
theorem eeprom_tiles_iff_three_pages :
    EepromTiled .write at24c01 ⟨5, 0x1000, 14⟩
        (at24cxxDriverWrite goodBus at24c01 ⟨5, 0x1000, 14⟩) ∧
      EepromTiled .read at24c01 ⟨5, 0x1000, 14⟩
        (at24cxxDriverRead goodBus at24c01 ⟨5, 0x1000, 14⟩) :=
  (eeprom_tiles_iff goodBus at24c01 ⟨5, 0x1000, 14⟩ (fun _ => rfl)
    ⟨by decide, by decide, by decide, by decide, by decide, by decide⟩).mpr
    ⟨by decide, by decide, by decide, by decide⟩

/-- Four pages from the start of one: the bytes behind the buffer go to the page behind the request,
and the fourth page is left out. -/
theorem fourth_page_is_left_out :
    ¬ EepromTiled .write at24c01 ⟨0, 0x1000, 32⟩
        (at24cxxDriverWrite goodBus at24c01 ⟨0, 0x1000, 32⟩) ∧
      (at24cxxDriverWrite goodBus at24c01 ⟨0, 0x1000, 32⟩).2.map EepromXfer.piece =
        [⟨0, 0, 8⟩, ⟨8, 8, 8⟩, ⟨16, 16, 8⟩, ⟨32, 32, 8⟩] := by
  have hpieces : (at24cxxDriverWrite goodBus at24c01 ⟨0, 0x1000, 32⟩).2.map EepromXfer.piece =
      [⟨0, 0, 8⟩, ⟨8, 8, 8⟩, ⟨16, 16, 8⟩, ⟨32, 32, 8⟩] := by decide
  refine ⟨fun h => ?_, hpieces⟩
  have hcell : (24, 24) ∈ (Piece.mk 0 0 32).cells 1 := by decide
  obtain ⟨q, hq, hc⟩ := h.covers.mem_iff.mpr hcell
  rw [hpieces] at hq
  revert q
  decide

end HeavenFox.Drivers
