/-
# HeavenFox.Platform.FcntlCalls -- failing opens, and descriptors that are not open

The calls of `fwk_fcntl.c` from every table that opens and closes lead to, where a close may be
one of any number.

While the array has a free slot, an open that fails leaves the table as it was
(`failed_open_restores`): whether the high-water mark was raised or a hole was taken, giving the
descriptor back undoes just that.

A number that is not that of an open descriptor is refused in the array and below it.  Above it
the extension is indexed as if it were there and had no end, with what the allocator left in it
(`closed_refused_iff`).
-/
import HeavenFox.Platform.FcntlOpens

namespace HeavenFox.Platform

open HeavenFox.Common HeavenFox.Logic

/-! ## Reading and writing -/

/-- A `struct fwk_vm_area`. -/
structure FwkVmArea where
  virtAddr : Nat
  size : Nat

/-- The `struct fwk_file_oprts` of a device, as far as it is called here: the operations it has, with
what they return. -/
structure FwkFileOprts where
  write : Option (Nat → Nat → Int)
  read : Option (Nat → Nat → Int)
  unlockedIoctl : Option (Nat → Nat → Int)
  mmap : Option (FwkVmArea → Int × FwkVmArea)

/-- A `struct fwk_file`. -/
structure FwkFile where
  mode : Nat
  sprtFoprts : Option FwkFileOprts

/-- `O_RDONLY`. -/
abbrev oRdonly : Nat := 1

/-- `O_WRONLY`. -/
abbrev oWronly : Nat := 2

/-- `sprt_file->sprt_foprts->...`. -/
def FwkFile.oprts (file : FwkFile) : Except Stop FwkFileOprts :=
  match file.sprtFoprts with
  | none => .error .fault
  | some oprts => .ok oprts

/-- What all of them begin with: a negative number and one without a file are refused. -/
def withFile {α : Type} (t : FwkFileTable) (fd : Int) (refusal : α) (body : Nat → Except Stop α) :
    Except Stop α :=
  if fd < 0 then .ok refusal
  else do
    let file ← fwkFdToFile t fd
    if !isValid file then .ok refusal else body file

section Calls

variable (files : Nat → FwkFile) (t : FwkFileTable)

/-- `fwk_do_write`; `files` are the files in memory. -/
def fwkDoWrite (fd : Int) (buf size : Nat) : Except Stop Int :=
  withFile t fd (-erError) fun file =>
    if (files file).mode &&& oWronly ≠ oWronly then .ok (-erForbid)
    else do
      match (← (files file).oprts).write with
      | none => .ok (-erError)
      | some write => .ok (if write buf size = 0 then asInt32 size else -erError)

/-- `fwk_do_read`. -/
def fwkDoRead (fd : Int) (buf size : Nat) : Except Stop Int :=
  withFile t fd (-erError) fun file =>
    if (files file).mode &&& oRdonly ≠ oRdonly then .ok (-erForbid)
    else do
      match (← (files file).oprts).read with
      | none => .ok (-erError)
      | some read =>
        .ok (if read buf size = 0 then asInt32 size
          else if read buf size > 0 then read buf size else -erError)

/-- `fwk_do_ioctl`. -/
def fwkDoIoctl (fd : Int) (request args : Nat) : Except Stop Int :=
  withFile t fd (-erError) fun file => do
    match (← (files file).oprts).unlockedIoctl with
    | none => .ok (-erError)
    | some unlockedIoctl => .ok (if unlockedIoctl request args = 0 then erNormal else -erError)

/-- `fwk_do_mmap`; `sgrtVm` is what happens to be in the local variable. -/
def fwkDoMmap (sgrtVm : FwkVmArea) (addr length : Nat) (fd : Int) (offset : Nat) : Except Stop Nat :=
  withFile t fd 0 fun file => do
    let (retval, sgrtVm) :=
      match (← (files file).oprts).mmap with
      | none => (0, sgrtVm)
      | some mmap => mmap sgrtVm
    if retval ≠ 0 then .ok 0
    else if add32 offset length > sgrtVm.size then .ok 0
    else .ok (if !isValid addr then sgrtVm.virtAddr else 0)

/-- `virt_write`. -/
def virtWrite (fd : Int) (buf size : Nat) : Except Stop Int := fwkDoWrite files t fd buf size

/-- `virt_read`. -/
def virtRead (fd : Int) (buf size : Nat) : Except Stop Int := fwkDoRead files t fd buf size

/-- `virt_ioctl`. -/
def virtIoctl (fd : Int) (request args : Nat) : Except Stop Int := fwkDoIoctl files t fd request args

/-- `virt_mmap`; `prot` and `flags` are not looked at. -/
def virtMmap (sgrtVm : FwkVmArea) (addr length : Nat) (fd : Int) (offset : Nat) : Except Stop Nat :=
  fwkDoMmap files t sgrtVm addr length fd offset

end Calls

/-! ## Any sequence of opens and closes -/

/-- An open, or a close of any number. -/
inductive TableCall where
  | open (kcalloc : Option (Nat → Nat)) (file : Nat)
  | close (fd : Int)

/-- One call. -/
def tableStep (s : FdRun) : TableCall → Option FdRun
  | .open kcalloc file => fdStep s (.open kcalloc file)
  | .close fd =>
    match virtClose s.table fd with
    | .error _ => none
    | .ok t => some ⟨t, fun x => if (x : Int) = fd then none else s.opened x⟩

/-- Besides, a slot of the array that is not open is empty. -/
structure FdRun.Exact (s : FdRun) : Prop extends s.Based where
  empty : ∀ fd, deviceMajorBase ≤ fd → fd < fileDescNumMax → s.opened fd = none →
    s.table.fdArray fd = 0

theorem FdRun.start_exact (stdio : Fin deviceMajorBase → ObjPtr) : (FdRun.start stdio).Exact where
  toBased := FdRun.start_based stdio
  empty := fun _ hbase _ _ => dif_neg (Nat.not_lt.mpr hbase)

namespace FwkFileTable

variable {t t' : FwkFileTable}

/-- A close that comes back has read the slot. -/
theorem readable_of_close {fd : Int} (h : virtClose t fd = .ok t') :
    ∃ file, fwkFdToFile t fd = .ok file := by
  rcases hread : fwkFdToFile t fd with e | file
  · rw [virtClose, fwkDoClose, hread] at h
    cases h
  · exact ⟨file, rfl⟩

/-- The slot of any number: none below the array, one of it, or one of the extension. -/
theorem fdToFile_cases {fd : Int} {file : Nat} (hsize : t.maxFdarr = fileDescNumMax)
    (h : fwkFdToFile t fd = .ok file) :
    file = 0 ∨ ∃ n : Nat, fd = n ∧ deviceMajorBase ≤ n ∧ (n < fileDescNumMax → file = t.fdArray n) := by
  by_cases hlow : fd < deviceMajorBase
  · have hover : fileDescOverBase fd = true := decide_eq_true hlow
    rw [fwkFdToFile, hover, if_pos rfl] at h
    exact .inl (Except.ok.inj h).symm
  · obtain ⟨n, rfl⟩ : ∃ n : Nat, fd = n := ⟨fd.toNat, by omega⟩
    refine .inr ⟨n, rfl, by omega, fun hlt => ?_⟩
    have hslot := fdToFile_of_slot (t := t) hsize (show deviceMajorBase ≤ n by omega)
      (slot_array hlt)
    exact Except.ok.inj (h.symm.trans hslot)

/-- **A close of any number.**  Nothing happens when there is no file in its slot, else the slot is
cleared and no other one of the array changes. -/
theorem close_cases (h : t.Sound []) {fd : Int} (hclose : virtClose t fd = .ok t') :
    t'.Sound [] ∧
      (t' = t ∧ (∀ n : Nat, fd = n → deviceMajorBase ≤ n → n < fileDescNumMax →
          isValid (t.fdArray n) = false) ∨
        ∃ n : Nat, fd = n ∧ (∀ m, m ≠ n → t'.fdArray m = t.fdArray m) ∧
          (n < fileDescNumMax → t'.fdArray n = 0)) := by
  obtain ⟨file, hread⟩ := readable_of_close hclose
  by_cases hvalid : isValid file = true
  · rcases fdToFile_cases h.size hread with rfl | ⟨n, rfl, hbase, -⟩
    · exact absurd hvalid (by decide)
    obtain ⟨t'', hclose', ht, hcase⟩ := h.virtClose hbase hread hvalid
    obtain rfl : t'' = t' := Except.ok.inj (hclose'.symm.trans hclose)
    refine ⟨ht, .inr ⟨n, rfl, ?_⟩⟩
    rcases hcase with ⟨-, harray, -⟩ | ⟨i, fds, rfl, -, -, harray, -⟩
    · refine ⟨fun m hm => ?_, fun _ => ?_⟩
      · rw [harray, Function.update_of_ne hm]
      · rw [harray, Function.update_self]
    · exact ⟨fun m _ => by rw [harray], fun hlt => absurd hlt (Nat.not_lt.mpr (Nat.le_add_right _ i))⟩
  · simp only [virtClose, fwkDoClose, hread, hvalid, bind, Except.bind] at hclose
    obtain rfl : t = t' := Except.ok.inj hclose
    refine ⟨h, .inl ⟨rfl, ?_⟩⟩
    rintro n rfl hbase hlt
    have hslot := fdToFile_of_slot (t := t) h.size hbase (slot_array hlt)
    obtain rfl : file = t.fdArray n := Except.ok.inj (hread.symm.trans hslot)
    exact Bool.not_eq_true _ ▸ hvalid

end FwkFileTable

/-- **One call.** -/
theorem tableStep_exact (s : FdRun) (call : TableCall) (s' : FdRun) (hs : s.Exact)
    (h : tableStep s call = some s') : s'.Exact := by
  match call with
  | .open kcalloc file =>
    refine ⟨fdStep_based s (.open kcalloc file) s' hs.toBased h, fun fd hbase hlt hclosed => ?_⟩
    obtain ⟨r, t, hopen, -, heffect⟩ := hs.sound.virtOpen kcalloc file
    rw [tableStep, fdStep, hopen] at h
    obtain rfl := Option.some.inj h
    dsimp only at hclosed ⊢
    -- only a descriptor of the array changes a slot of it, and it is open then
    rcases heffect with ⟨hr, harray, -⟩ | ⟨-, -, -, -, harray, -⟩ | ⟨hr, harray, -⟩ |
      ⟨hr, -, -, -, -, harray, -⟩ | ⟨-, -, -, -, -, harray, -⟩
    · rw [if_neg (by omega)] at hclosed
      rw [harray]
      exact hs.empty fd hbase hlt hclosed
    · rw [if_pos (by omega), Int.toNat_natCast] at hclosed
      have hne : fd ≠ _ := fun heq => by
        rw [heq, Function.update_self] at hclosed
        exact Option.some_ne_none _ hclosed
      rw [Function.update_of_ne hne] at hclosed
      rw [harray, Function.update_of_ne hne]
      exact hs.empty fd hbase hlt hclosed
    · rw [if_neg (by omega)] at hclosed
      rw [harray]
      exact hs.empty fd hbase hlt hclosed
    · rw [if_neg (by omega)] at hclosed
      rw [harray]
      exact hs.empty fd hbase hlt hclosed
    · rw [if_pos (by omega), Int.toNat_natCast, Function.update_of_ne (by omega)] at hclosed
      rw [harray]
      exact hs.empty fd hbase hlt hclosed
  | .close fd =>
    rw [tableStep] at h
    rcases hclose : virtClose s.table fd with e | t
    · simp [hclose] at h
    rw [hclose] at h
    obtain rfl := Option.some.inj h
    obtain ⟨ht, hcase⟩ := FwkFileTable.close_cases hs.sound hclose
    have hleft : ∀ (x : Nat) (file : Nat), (if (x : Int) = fd then none else s.opened x) = some file →
        (x : Int) ≠ fd ∧ s.opened x = some file := by
      intro x file hopen
      by_cases hx : (x : Int) = fd
      · rw [if_pos hx] at hopen
        exact absurd hopen.symm (Option.some_ne_none file)
      · exact ⟨hx, by rwa [if_neg hx] at hopen⟩
    have hkeep : ∀ x : Nat, (x : Int) ≠ fd → t.fdArray x = s.table.fdArray x := by
      intro x hx
      rcases hcase with ⟨rfl, -⟩ | ⟨n, rfl, hother, -⟩
      · rfl
      · exact hother x fun heq => hx (heq ▸ rfl)
    refine ⟨⟨ht, fun x file hopen => ?_⟩, fun x hbase hlt hclosed => ?_⟩
    · obtain ⟨hx, hopen⟩ := hleft x file hopen
      show _ ∧ _ ∧ (_ → t.fdArray x = file)
      rw [hkeep x hx]
      exact hs.files x file hopen
    · show t.fdArray x = 0
      change (if (x : Int) = fd then none else s.opened x) = none at hclosed
      by_cases hx : (x : Int) = fd
      swap
      · rw [if_neg hx] at hclosed
        rw [hkeep x hx]
        exact hs.empty x hbase hlt hclosed
      rcases hcase with ⟨rfl, hinvalid⟩ | ⟨n, rfl, -, hzero⟩
      · -- without a valid file the descriptor was not open before
        refine hs.empty x hbase hlt (Option.eq_none_iff_forall_ne_some.mpr fun file hopen => ?_)
        obtain ⟨hvalid, -, hslot⟩ := hs.files x file hopen
        rw [← hslot hlt, hinvalid x hx.symm hbase hlt] at hvalid
        exact Bool.false_ne_true hvalid
      · obtain rfl : x = n := by omega
        exact hzero hlt

theorem exact_of_exec {stdio : Fin deviceMajorBase → ObjPtr} {calls : List TableCall} {s : FdRun}
    (h : exec tableStep (.start stdio) calls = some s) : s.Exact :=
  invariant_of_exec tableStep_exact (FdRun.start_exact stdio) h

/-! ## Opens that fail -/

namespace FwkFileTable

variable {t : FwkFileTable}

/-- The descriptor that is chosen while the array has a free slot: the one behind the high-water mark,
which is raised, or a hole below it. -/
theorem getUnused_cases (h : t.Sound []) (kcalloc : Option (Nat → Nat))
    (hfree : t.refFdarr < t.maxFdarr) :
    fwkGetUnusedFdFlags kcalloc t = .ok (-erMore, t) ∨
      ∃ (i : Nat) (maxFdset : Int), i < fileDescNumMax ∧ deviceMajorBase ≤ i ∧ t.fdArray i = 0 ∧
        fwkGetUnusedFdFlags kcalloc t = .ok (i, fwkFdtableGet { t with maxFdset := maxFdset }) ∧
        (if maxFdset > i then maxFdset else (i : Int) - 1) = t.maxFdset := by
  have hsize := h.size
  have htwo := h.two_le
  have hcount := h.count
  have hbase : ∀ i : Nat, t.fdArray i = 0 → deviceMajorBase ≤ i := by
    intro i hempty
    by_contra hlt
    exact h.stdio i (Nat.lt_of_not_le hlt) hempty
  have havail : ¬ fwkGetFdAvailable t < 0 := by
    rw [fwkGetFdAvailable, if_pos hfree]
    omega
  rw [fwkGetUnusedFdFlags, if_neg havail]
  dsimp only
  by_cases hnext : t.maxFdset + 1 < t.maxFdarr
  · obtain ⟨i, hi⟩ : ∃ i : Nat, t.maxFdset + 1 = i := ⟨(t.maxFdset + 1).toNat, by omega⟩
    have hempty : t.fdArray i = 0 := by
      by_contra htaken
      have htop := h.top i (by omega) htaken
      omega
    rw [if_pos hnext, if_pos (by omega), hi]
    refine .inr ⟨i, i, by omega, hbase i hempty, hempty, rfl, ?_⟩
    rw [if_neg (by omega)]
    omega
  · have hfree' : taken t.fdArray fileDescNumMax + ([] : List Nat).length < fileDescNumMax := by
      omega
    obtain ⟨j, hj, hjempty, -⟩ := exists_free hfree'
    obtain ⟨r, hr, hfirst⟩ := scanSlots_returns t.fdArray fileDescNumMax t.maxFdset.toNat 0
      (.inr ⟨j, hj, Nat.zero_le j, hjempty⟩)
    rw [if_neg hnext, if_neg (by decide), hr]
    rcases r with _ | i
    · exact .inl rfl
    · obtain ⟨hlt, hbound, hempty, -⟩ := hfirst i rfl
      exact .inr ⟨i, t.maxFdset, hlt, hbase i hempty, hempty, rfl, if_pos (by omega)⟩

/-- **An open that fails**, while the array has a free slot. -/
theorem open_restores (h : t.Sound []) (kcalloc : Option (Nat → Nat)) {file : Nat}
    (hfree : t.refFdarr < t.maxFdarr) (hfile : isValid file = false) :
    ∃ r, virtOpen kcalloc file t = .ok (r, t) ∧ r < 0 := by
  refine ⟨-erFault, ?_, by decide⟩
  rcases getUnused_cases h kcalloc hfree with hget | ⟨i, maxFdset, hlt, hbase, hempty, hget, hput⟩
  · rw [virtOpen, fwkDoOpen, hget]
    rfl
  have hcount := h.count
  have hthree := base_le_taken h.stdio
  have hcleared : (fwkFdtableGet { t with maxFdset := maxFdset }).cleared i = t := by
    have hsame : Function.update t.fdArray i 0 = t.fdArray := by
      rw [← hempty, Function.update_eq_self]
    have href : (if t.refFdarr + 1 > deviceMajorBase then t.refFdarr + 1 - 1
        else (deviceMajorBase : Int)) = t.refFdarr := by
      rw [if_pos (by omega)]
      omega
    simp only [cleared, fwkFdtableGet, fwkFdtablePut, if_pos hfree, hput, hsame, href]
  rw [virtOpen, fwkDoOpen, hget]
  simp only [bind, Except.bind, hfile, if_neg (show ¬ ((i : Int) < 0) by omega)]
  rw [put_array (t := fwkFdtableGet { t with maxFdset := maxFdset }) h.size hbase hlt, hcleared]
  rfl

end FwkFileTable

/-- **A failing open restores the table**, from every table that opens and closes lead to and that has
a free slot in the array. -/
theorem failed_open_restores (stdio : Fin deviceMajorBase → ObjPtr) (calls : List TableCall)
    (s : FdRun) (hreach : exec tableStep (.start stdio) calls = some s)
    (kcalloc : Option (Nat → Nat)) (file : Nat) (hfree : s.table.refFdarr < s.table.maxFdarr)
    (hfile : isValid file = false) :
    ∃ r, virtOpen kcalloc file s.table = .ok (r, s.table) ∧ r < 0 :=
  FwkFileTable.open_restores (exact_of_exec hreach).sound kcalloc hfree hfile

/-- Three files are opened and the second one is closed, and closed again. -/
def exampleFdCalls : List TableCall :=
  List.replicate 3 (.open none 0x74000) ++ [.close 4, .close 4]

def exampleFdTable : FdRun :=
  (exec tableStep (.start exampleStdio) exampleFdCalls).getD (.start exampleStdio)

theorem failed_open_restores_example :
    ∃ r, virtOpen none 0 exampleFdTable.table = .ok (r, exampleFdTable.table) ∧ r < 0 :=
  failed_open_restores exampleStdio exampleFdCalls exampleFdTable rfl none 0 (by decide) (by decide)

/-! ## Descriptors that are not open -/

/-- Every call with this number comes back with an error, or does nothing. -/
structure FwkFileTable.Refuses (t : FwkFileTable) (fd : Int) : Prop where
  write : ∀ files buf size, ∃ e, virtWrite files t fd buf size = .ok e ∧ e < 0
  read : ∀ files buf size, ∃ e, virtRead files t fd buf size = .ok e ∧ e < 0
  ioctl : ∀ files request args, ∃ e, virtIoctl files t fd request args = .ok e ∧ e < 0
  mmap : ∀ files sgrtVm addr length offset, virtMmap files t sgrtVm addr length fd offset = .ok 0
  close : virtClose t fd = .ok t

/-- The slot of the number is one of the extension that is there, without a file in it. -/
def FwkFileTable.EmptyAbove (t : FwkFileTable) (fd : Int) : Prop :=
  ∃ fds, t.fds = some fds ∧ fd < fileDescNumMax + fileDescExpNum ∧
    isValid (fds (fd - fileDescNumMax).toNat) = false

namespace FwkFileTable

variable {t : FwkFileTable} {fd : Int}

/-- Without a file in its slot a number is refused. -/
theorem refuses_of_invalid {file : Nat} (hread : fwkFdToFile t fd = .ok file)
    (hfile : isValid file = false) : t.Refuses fd := by
  have hwith : ∀ {α : Type} (refusal : α) body, withFile t fd refusal body = .ok refusal := by
    intro α refusal body
    rw [withFile, hread]
    simp [bind, Except.bind, hfile]
  refine ⟨fun files buf size => ⟨_, hwith _ _, by decide⟩,
    fun files buf size => ⟨_, hwith _ _, by decide⟩,
    fun files request args => ⟨_, hwith _ _, by decide⟩,
    fun files sgrtVm addr length offset => hwith _ _,
    ?_⟩
  simp [virtClose, fwkDoClose, hread, bind, Except.bind, hfile]

/-- A number above the array is one of an index in the extension. -/
theorem fdToFile_expand (hsize : t.maxFdarr = fileDescNumMax) (i : Nat) :
    fwkFdToFile t (fileDescNumMax + i) =
      match t.fds with
      | none => .error .fault
      | some fds => if i < fileDescExpNum then .ok (fds i) else .error .fault := by
  rw [fwkFdToFile, fileDescOverBase_expand, if_neg Bool.false_ne_true, readFdt, if_pos (by omega)]
  have hsub : (fileDescNumMax : Int) + i - t.maxFdarr = i := by omega
  rcases t.fds with _ | fds
  · rfl
  · dsimp only
    rw [hsub, readSlot, Int.toNat_natCast]
    by_cases hi : i < fileDescExpNum
    · rw [if_pos hi, if_pos (by omega)]
    · rw [if_neg hi, if_neg (by omega)]

/-- Above the array a number is refused only in an empty slot of the extension. -/
theorem refuses_above_iff (h : t.Sound []) (hge : fileDescNumMax ≤ fd) :
    t.Refuses fd ↔ t.EmptyAbove fd := by
  obtain ⟨i, rfl⟩ : ∃ i : Nat, fd = fileDescNumMax + i := ⟨(fd - fileDescNumMax).toNat, by omega⟩
  have hindex : ((fileDescNumMax : Int) + i - fileDescNumMax).toNat = i := by omega
  have hread := fdToFile_expand h.size i
  constructor
  · intro hrefuses
    have hclose := hrefuses.close
    obtain ⟨file, hfile⟩ := readable_of_close hclose
    rcases hfds : t.fds with _ | fds
    · rw [hfds] at hread
      cases hread.symm.trans hfile
    rw [hfds] at hread
    dsimp only at hread
    by_cases hi : i < fileDescExpNum
    swap
    · rw [if_neg hi] at hread
      cases hread.symm.trans hfile
    refine ⟨fds, hfds, by omega, ?_⟩
    rw [hindex]
    by_contra hvalid
    -- a close would clear the slot
    obtain ⟨t', hput, -, -, hfds'⟩ := h.put_expand hfds hi
    rw [if_pos hi] at hread
    have hclose' : virtClose t (fileDescNumMax + i) = .ok t' := by
      simp only [virtClose, fwkDoClose, hread, bind, Except.bind, Bool.not_eq_false _ ▸ hvalid]
      exact hput
    obtain rfl : t' = t := Except.ok.inj (hclose'.symm.trans hclose)
    rw [hfds] at hfds'
    split at hfds'
    next => exact Option.some_ne_none fds hfds'
    next =>
      have hzero : fds i = 0 := by
        rw [Option.some.inj hfds', Function.update_self]
      exact hvalid (by rw [hzero]; rfl)
  · rintro ⟨fds, hfds, hlt, hfile⟩
    rw [hindex] at hfile
    rw [hfds] at hread
    dsimp only at hread
    rw [if_pos (by omega)] at hread
    exact refuses_of_invalid hread hfile

end FwkFileTable

/-- **Which closed descriptors are refused.**  From every table that opens and closes lead to, the
calls with a number that is not an open descriptor are refused if and only if it is below 32 or
that of an empty slot of the extension. -/
theorem closed_refused_iff (stdio : Fin deviceMajorBase → ObjPtr) (calls : List TableCall)
    (s : FdRun) (hreach : exec tableStep (.start stdio) calls = some s) (fd : Int)
    (hclosed : ∀ n : Nat, fd = n → s.opened n = none) :
    s.table.Refuses fd ↔ fd < fileDescNumMax ∨ s.table.EmptyAbove fd := by
  have hexact := exact_of_exec hreach
  by_cases hlt : fd < fileDescNumMax
  swap
  · rw [or_iff_right hlt]
    exact FwkFileTable.refuses_above_iff hexact.sound (Int.not_lt.mp hlt)
  refine iff_of_true ?_ (.inl hlt)
  by_cases hlow : fd < deviceMajorBase
  · have hover : fileDescOverBase fd = true := decide_eq_true hlow
    have hread : fwkFdToFile s.table fd = .ok 0 := by
      rw [fwkFdToFile, hover, if_pos rfl]
    exact FwkFileTable.refuses_of_invalid hread rfl
  · obtain ⟨n, rfl⟩ : ∃ n : Nat, fd = n := ⟨fd.toNat, by omega⟩
    have hempty := hexact.empty n (by omega) (by omega) (hclosed n rfl)
    have hread : fwkFdToFile s.table n = .ok 0 :=
      FwkFileTable.fdToFile_of_slot hexact.sound.size (by omega)
        (by rw [FwkFileTable.slot_array (by omega), hempty])
    exact FwkFileTable.refuses_of_invalid hread rfl

/-- Descriptors 3 to 34 are opened, the last three in the extension, and 4 and 33 are closed. -/
def crowdedFdCalls : List TableCall :=
  (List.range 32).map (fun i => .open (some fun _ => 0) (0x74000 + 16 * i)) ++ [.close 4, .close 33]

def crowdedFdTable : FdRun :=
  (exec tableStep (.start exampleStdio) crowdedFdCalls).get (by decide +kernel)

theorem crowdedFdTable_reached :
    exec tableStep (.start exampleStdio) crowdedFdCalls = some crowdedFdTable :=
  (Option.some_get _).symm

theorem crowdedFdTable_closed :
    crowdedFdTable.opened 33 = none ∧ crowdedFdTable.opened 1000 = none := by
  decide +kernel

/-- The slot of 33 is empty, and the extension has none for 1000. -/
theorem closed_refused_iff_example :
    (crowdedFdTable.table.Refuses 33 ↔
      (33 : Int) < fileDescNumMax ∨ crowdedFdTable.table.EmptyAbove 33) ∧
    (crowdedFdTable.table.Refuses 1000 ↔
      (1000 : Int) < fileDescNumMax ∨ crowdedFdTable.table.EmptyAbove 1000) := by
  obtain ⟨hempty, hbeyond⟩ := crowdedFdTable_closed
  constructor
  · refine closed_refused_iff exampleStdio _ _ crowdedFdTable_reached 33 fun n hn => ?_
    obtain rfl : n = 33 := by omega
    exact hempty
  · refine closed_refused_iff exampleStdio _ _ crowdedFdTable_reached 1000 fun n hn => ?_
    obtain rfl : n = 1000 := by omega
    exact hbeyond

/-- Nothing was opened, and the extension that is not there is read. -/
theorem missing_extension_is_read :
    (∀ n : Nat, (FdRun.start exampleStdio).opened n = none) ∧
      (FdRun.start exampleStdio).table.fds = none ∧
      (∀ files buf size, virtRead files (FdRun.start exampleStdio).table 32 buf size = .error .fault) ∧
      virtClose (FdRun.start exampleStdio).table 32 = .error .fault ∧
      ¬ (FdRun.start exampleStdio).table.Refuses 32 := by
  refine ⟨fun _ => rfl, rfl, fun _ _ _ => rfl, rfl, fun h => ?_⟩
  obtain ⟨file, hread⟩ := FwkFileTable.readable_of_close h.close
  have hfault : fwkFdToFile (FdRun.start exampleStdio).table 32 = .error .fault := rfl
  cases hfault.symm.trans hread

end HeavenFox.Platform
