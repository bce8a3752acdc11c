/-
# HeavenFox.Platform.FcntlRuns -- opening and closing files

Any sequence of `virt_open` and `virt_close`, one at a time.  The descriptors of the array
are kept whatever is done.  Those of the extension are lost when its first one, 32, is
closed before the others: the extension is then taken for empty and freed.
`descriptors_kept_iff` says that this is the only way to lose one.
-/
import HeavenFox.Logic.Run
import HeavenFox.Platform.Fcntl

namespace HeavenFox.Platform

open HeavenFox.Common HeavenFox.Logic

/-! ## The machine -/

/-- The table, and the file every open descriptor was opened for. -/
structure FdRun where
  table : FwkFileTable
  opened : Nat → Option Nat

/-- After `fwk_file_system_init`. -/
def FdRun.start (stdio : Fin deviceMajorBase → ObjPtr) : FdRun where
  table := (fwkFileSystemInit stdio sgrtFwkFileTable).2
  opened := fun _ => none

/-- A call, with what the allocator and the device give it. -/
inductive FdCall where
  | open (kcalloc : Option (Nat → Nat)) (file : Nat)
  | close (fd : Nat)

/-- One call.  Only open descriptors are closed. -/
def fdStep (s : FdRun) : FdCall → Option FdRun
  | .open kcalloc file =>
    match virtOpen kcalloc file s.table with
    | .error _ => none
    | .ok r =>
      some ⟨r.2, if 0 ≤ r.1 then Function.update s.opened r.1.toNat (some file) else s.opened⟩
  | .close fd =>
    if s.opened fd = none then none
    else
      match virtClose s.table fd with
      | .error _ => none
      | .ok t => some ⟨t, Function.update s.opened fd none⟩

/-- What is promised of every state: an open comes back, with an error or with a descriptor that is
not open; an open descriptor resolves to its file, and can be closed. -/
structure FdRun.Good (s : FdRun) : Prop where
  opens : ∀ kcalloc file, ∃ r t, virtOpen kcalloc file s.table = .ok (r, t) ∧
    (r < 0 ∨ ∃ fd : Nat, r = fd ∧ deviceMajorBase ≤ fd ∧ s.opened fd = none)
  resolves : ∀ fd file, s.opened fd = some file → fwkFdToFile s.table fd = .ok file
  closes : ∀ fd, s.opened fd ≠ none → ∃ t, virtClose s.table fd = .ok t

/-- The first descriptor of the extension is not closed before the others. -/
def FdCall.Spares (s : FdRun) : FdCall → Prop
  | .open _ _ => True
  | .close fd => fd = fileDescNumMax → ∀ fd', fileDescNumMax < fd' → s.opened fd' = none

/-! ## What every call keeps -/

/-- What is in the slot of a descriptor, if it has one. -/
def FwkFileTable.slot (t : FwkFileTable) (fd : Nat) : Option Nat :=
  if fd < fileDescNumMax then some (t.fdArray fd)
  else if fd < fileDescNumMax + fileDescExpNum then t.fds.map fun fds => fds (fd - fileDescNumMax)
  else none

namespace FwkFileTable

variable {t t' : FwkFileTable}

theorem slot_array {fd : Nat} (h : fd < fileDescNumMax) : t.slot fd = some (t.fdArray fd) := if_pos h

theorem slot_expand {i : Nat} (h : i < fileDescExpNum) :
    t.slot (fileDescNumMax + i) = t.fds.map fun fds => fds i := by
  rw [slot, if_neg (Nat.not_lt.mpr (Nat.le_add_right _ _)), if_pos (Nat.add_lt_add_left h _),
    Nat.add_sub_cancel_left]

/-- A descriptor is one of the array or one of the extension. -/
theorem slot_cases {fd file : Nat} (h : t.slot fd = some file) :
    fd < fileDescNumMax ∧ t.fdArray fd = file ∨
      ∃ i fds, fd = fileDescNumMax + i ∧ i < fileDescExpNum ∧ t.fds = some fds ∧ fds i = file := by
  by_cases harray : fd < fileDescNumMax
  · rw [slot_array harray] at h
    exact .inl ⟨harray, Option.some.inj h⟩
  · obtain ⟨i, rfl⟩ : ∃ i, fd = fileDescNumMax + i := ⟨fd - fileDescNumMax, by omega⟩
    by_cases hi : i < fileDescExpNum
    · rw [slot_expand hi] at h
      obtain ⟨fds, hfds, hfile⟩ := Option.map_eq_some_iff.mp h
      exact .inr ⟨i, fds, rfl, hi, hfds, hfile⟩
    · rw [slot, if_neg harray, if_neg fun hlt => hi (Nat.lt_of_add_lt_add_left hlt)] at h
      cases h

/-- The slot is what `fwk_fd_to_file` reads. -/
theorem fdToFile_of_slot {fd file : Nat} (hsize : t.maxFdarr = fileDescNumMax)
    (hbase : deviceMajorBase ≤ fd) (h : t.slot fd = some file) : fwkFdToFile t fd = .ok file := by
  have hover : fileDescOverBase fd = false := by
    simpa [fileDescOverBase] using hbase
  rw [fwkFdToFile, hover, if_neg Bool.false_ne_true]
  rcases slot_cases h with ⟨hlt, rfl⟩ | ⟨i, fds, rfl, hi, hfds, rfl⟩
  · rw [readFdt, if_neg (by omega), readSlot_nat hlt]
  · rw [Int.natCast_add, readFdt_expand hsize hfds hi]

theorem slot_eq (harray : t'.fdArray = t.fdArray) (hfds : t'.fds = t.fds) (fd : Nat) :
    t'.slot fd = t.slot fd := by
  rw [slot, slot, harray, hfds]

end FwkFileTable

/-- The slots of open descriptors hold their files, and while one of the extension is open its first
slot is taken. -/
structure FdRun.Kept (s : FdRun) : Prop where
  sound : s.table.Sound []
  files : ∀ fd file, s.opened fd = some file →
    isValid file = true ∧ deviceMajorBase ≤ fd ∧ s.table.slot fd = some file
  first : ∀ fds, s.table.fds = some fds → fds 0 = 0 → ∀ fd, fileDescNumMax ≤ fd → s.opened fd = none

namespace FdRun

variable {s : FdRun}

theorem start_kept (stdio : Fin deviceMajorBase → ObjPtr) : (start stdio).Kept where
  sound := FwkFileTable.sound_init stdio
  files := fun fd file h => by cases h
  first := fun _ _ _ _ _ => rfl

/-- A descriptor whose slot is empty is not open. -/
theorem Kept.closed_of_slot (h : s.Kept) (fd : Nat) (hslot : s.table.slot fd = some 0) :
    s.opened fd = none := by
  cases hopen : s.opened fd with
  | none => rfl
  | some file =>
    obtain ⟨hvalid, -, hfile⟩ := h.files fd file hopen
    rw [hslot] at hfile
    cases hfile
    exact absurd hvalid (by decide)

/-- Without an extension none of its descriptors is open. -/
theorem Kept.closed_of_none (h : s.Kept) (hfds : s.table.fds = none) {fd : Nat}
    (hfd : fileDescNumMax ≤ fd) : s.opened fd = none := by
  cases hopen : s.opened fd with
  | none => rfl
  | some file =>
    obtain ⟨-, -, hfile⟩ := h.files fd file hopen
    rcases FwkFileTable.slot_cases hfile with ⟨hlt, -⟩ | ⟨i, fds, -, -, hsome, -⟩
    · omega
    · rw [hfds] at hsome
      cases hsome

/-- The extension may have been allocated. -/
theorem Kept.expand (h : s.Kept) {t : FwkFileTable} {kcalloc : Option (Nat → Nat)}
    (ht : t.Sound []) (harray : t.fdArray = s.table.fdArray)
    (hfds : t.fds = (s.table.fds <|> kcalloc)) : Kept ⟨t, s.opened⟩ := by
  cases hold : s.table.fds with
  | some fds =>
    rw [hold] at hfds
    have hslot := FwkFileTable.slot_eq harray (hfds.trans hold.symm)
    refine ⟨ht, fun fd file hopen => ?_, fun fds' hfds' => h.first fds' ?_⟩
    · rw [hslot]
      exact h.files fd file hopen
    · exact hold.trans (hfds.symm.trans hfds')
  | none =>
    have hclosed : ∀ fd, fileDescNumMax ≤ fd → s.opened fd = none := fun fd =>
      h.closed_of_none hold
    refine ⟨ht, fun fd file hopen => ?_, fun _ _ _ => hclosed⟩
    obtain ⟨hvalid, hbase, hfile⟩ := h.files fd file hopen
    refine ⟨hvalid, hbase, ?_⟩
    by_cases hlt : fd < fileDescNumMax
    · rwa [FwkFileTable.slot_array hlt, harray, ← FwkFileTable.slot_array hlt]
    · rw [hclosed fd (Nat.le_of_not_lt hlt)] at hopen
      cases hopen

/-- One descriptor is opened or closed, and the slots of the others stay as they are. -/
theorem Kept.set (h : s.Kept) {t : FwkFileTable} {fd : Nat} {value : Option Nat} (ht : t.Sound [])
    (hself : ∀ file, value = some file →
      isValid file = true ∧ deviceMajorBase ≤ fd ∧ t.slot fd = some file)
    (hother : ∀ fd', fd' ≠ fd → t.slot fd' = s.table.slot fd')
    (hfirst : ∀ fds, t.fds = some fds → fds 0 = 0 →
      ∀ fd', fileDescNumMax ≤ fd' → Function.update s.opened fd value fd' = none) :
    Kept ⟨t, Function.update s.opened fd value⟩ := by
  refine ⟨ht, fun fd' file hopen => ?_, hfirst⟩
  change Function.update s.opened fd value fd' = some file at hopen
  by_cases hfd : fd' = fd
  · subst hfd
    rw [Function.update_self] at hopen
    exact hself file hopen
  · rw [Function.update_of_ne hfd] at hopen
    obtain ⟨hvalid, hbase, hslot⟩ := h.files fd' file hopen
    exact ⟨hvalid, hbase, (hother fd' hfd).trans hslot⟩

/-- A descriptor of the array leaves those of the extension as they are. -/
theorem Kept.set_array (h : s.Kept) {t : FwkFileTable} {i file : Nat} {value : Option Nat}
    (ht : t.Sound []) (hlt : i < fileDescNumMax)
    (harray : t.fdArray = Function.update s.table.fdArray i file) (hfds : t.fds = s.table.fds)
    (hself : ∀ file', value = some file' →
      isValid file' = true ∧ deviceMajorBase ≤ i ∧ file = file') :
    Kept ⟨t, Function.update s.opened i value⟩ := by
  refine h.set ht (fun file' hvalue => ?_) (fun fd hfd => ?_) fun fds hsome hzero fd hfd => ?_
  · obtain ⟨hvalid, hbase, rfl⟩ := hself file' hvalue
    exact ⟨hvalid, hbase, by rw [FwkFileTable.slot_array hlt, harray, Function.update_self]⟩
  · by_cases hfdlt : fd < fileDescNumMax
    · rw [FwkFileTable.slot_array hfdlt, FwkFileTable.slot_array hfdlt, harray,
        Function.update_of_ne hfd]
    · rw [FwkFileTable.slot, FwkFileTable.slot, if_neg hfdlt, if_neg hfdlt, hfds]
  · rw [Function.update_of_ne (by omega)]
    exact h.first fds (hfds ▸ hsome) hzero fd hfd

/-- A descriptor of the extension leaves the others as they are. -/
theorem Kept.set_expand (h : s.Kept) {t : FwkFileTable} {i file : Nat} {value : Option Nat}
    {fds : Nat → Nat} (ht : t.Sound []) (hlt : i < fileDescExpNum)
    (harray : t.fdArray = s.table.fdArray) (hold : s.table.fds = some fds)
    (hfds : t.fds = some (Function.update fds i file))
    (hself : ∀ file', value = some file' → isValid file' = true ∧ file = file')
    (hfirst : Function.update fds i file 0 = 0 →
      ∀ fd, fileDescNumMax ≤ fd → Function.update s.opened (fileDescNumMax + i) value fd = none) :
    Kept ⟨t, Function.update s.opened (fileDescNumMax + i) value⟩ := by
  refine h.set ht (fun file' hvalue => ?_) (fun fd hfd => ?_) fun fds' hsome hzero => ?_
  · obtain ⟨hvalid, rfl⟩ := hself file' hvalue
    refine ⟨hvalid, Nat.le_trans (by decide) (Nat.le_add_right _ i), ?_⟩
    rw [FwkFileTable.slot_expand hlt, hfds, Option.map_some, Function.update_self]
  · by_cases hfdlt : fd < fileDescNumMax
    · rw [FwkFileTable.slot_array hfdlt, FwkFileTable.slot_array hfdlt, harray]
    · have hne : fd - fileDescNumMax ≠ i := by omega
      rw [FwkFileTable.slot, FwkFileTable.slot, if_neg hfdlt, if_neg hfdlt, hfds, hold,
        Option.map_some, Option.map_some, Function.update_of_ne hne]
  · obtain rfl : Function.update fds i file = fds' := Option.some.inj (hfds.symm.trans hsome)
    exact hfirst hzero

/-- The extension goes with its first descriptor, if no other one is open. -/
theorem Kept.drop_expand (h : s.Kept) {t : FwkFileTable} (ht : t.Sound [])
    (harray : t.fdArray = s.table.fdArray) (hfds : t.fds = none)
    (hothers : ∀ fd, fileDescNumMax < fd → s.opened fd = none) :
    Kept ⟨t, Function.update s.opened fileDescNumMax none⟩ := by
  refine ⟨ht, fun fd file hopen => ?_, fun fds hsome => by cases hfds.symm.trans hsome⟩
  change Function.update s.opened fileDescNumMax none fd = some file at hopen
  by_cases hfd : fd = fileDescNumMax
  · subst hfd
    rw [Function.update_self] at hopen
    cases hopen
  · rw [Function.update_of_ne hfd] at hopen
    obtain ⟨hvalid, hbase, hslot⟩ := h.files fd file hopen
    have hlt : fd < fileDescNumMax := by
      by_contra hge
      rw [hothers fd (by omega)] at hopen
      cases hopen
    refine ⟨hvalid, hbase, ?_⟩
    rwa [FwkFileTable.slot_array hlt, harray, ← FwkFileTable.slot_array hlt]

/-! ## Opening -/

/-- **An open.**  It gives an error, or a descriptor that is not open. -/
theorem Kept.open (h : s.Kept) (kcalloc : Option (Nat → Nat)) (file : Nat) :
    ∃ r t, virtOpen kcalloc file s.table = .ok (r, t) ∧ (r < 0 ∧ Kept ⟨t, s.opened⟩ ∨
      ∃ fd : Nat, r = fd ∧ deviceMajorBase ≤ fd ∧ s.opened fd = none ∧
        Kept ⟨t, Function.update s.opened fd (some file)⟩) := by
  obtain ⟨r, t, hopen, ht, heffect⟩ := h.sound.virtOpen kcalloc file
  refine ⟨r, t, hopen, ?_⟩
  -- the extension may have been allocated before its slot was chosen
  have hexpand : Kept ⟨{ s.table with fds := s.table.fds <|> kcalloc }, s.opened⟩ :=
    h.expand (h.sound.setFds _) rfl rfl
  cases heffect with
  | refused hr harray hfds =>
    have hslot := FwkFileTable.slot_eq harray hfds
    refine .inl ⟨hr, ht, fun fd file hfd => ?_, fun fds hsome => h.first fds (hfds ▸ hsome)⟩
    rw [hslot]
    exact h.files fd file hfd
  | @array i _ hbase hlt hempty hfile harray hfds =>
    have hclosed := h.closed_of_slot i (by rw [FwkFileTable.slot_array hlt, hempty])
    refine .inr ⟨i, rfl, hbase, hclosed, h.set_array ht hlt harray hfds ?_⟩
    rintro file' ⟨⟩
    exact ⟨hfile, hbase, rfl⟩
  | expanded hr harray hfds => exact .inl ⟨hr, h.expand ht harray hfds⟩
  | @givenBack _ _ i fds hr hlt hold hempty hbelow harray hfds =>
    have hclosed := hexpand.closed_of_slot (fileDescNumMax + i)
      (by rw [FwkFileTable.slot_expand hlt]; simp [hold, hempty])
    have hkept : Kept ⟨t, Function.update s.opened (fileDescNumMax + i) none⟩ := by
      by_cases hi : i = 0
      · -- the extension goes, and none of its descriptors is open
        subst hi
        exact hexpand.drop_expand ht harray hfds fun fd hfd =>
          hexpand.first fds hold hempty fd (Nat.le_of_lt hfd)
      · rw [if_neg hi] at hfds
        refine hexpand.set_expand ht hlt harray hold hfds (by simp) fun hzero => ?_
        rw [Function.update_of_ne (Ne.symm hi)] at hzero
        exact absurd hzero (hbelow 0 (Nat.pos_of_ne_zero hi))
    rw [← hclosed, Function.update_eq_self] at hkept
    exact .inl ⟨hr, hkept⟩
  | @expand _ i fds hlt hold hempty hbelow hfile harray hfds =>
    have hclosed := hexpand.closed_of_slot (fileDescNumMax + i)
      (by rw [FwkFileTable.slot_expand hlt]; simp [hold, hempty])
    have hbase : deviceMajorBase ≤ fileDescNumMax + i :=
      Nat.le_trans (by decide) (Nat.le_add_right _ i)
    refine .inr ⟨fileDescNumMax + i, rfl, hbase, hclosed,
      hexpand.set_expand ht hlt harray hold hfds ?_ fun hzero => ?_⟩
    · rintro file' ⟨⟩
      exact ⟨hfile, rfl⟩
    · -- the first slot is the new one, or was taken before
      by_cases hi : i = 0
      · subst hi
        rw [Function.update_self] at hzero
        exact absurd hzero (isValid_iff.mp hfile).1.ne'
      · rw [Function.update_of_ne (Ne.symm hi)] at hzero
        exact absurd hzero (hbelow 0 (Nat.pos_of_ne_zero hi))

/-! ## Closing -/

/-- **A close.**  It keeps the others, unless it is that of descriptor 32: then the extension is
gone. -/
theorem Kept.close (h : s.Kept) {fd file : Nat} (hopen : s.opened fd = some file) :
    ∃ t, virtClose s.table fd = .ok t ∧ t.Sound [] ∧
      (FdCall.Spares s (.close fd) → Kept ⟨t, Function.update s.opened fd none⟩) ∧
      (fd = fileDescNumMax → t.fds = none) := by
  obtain ⟨hvalid, hbase, hslot⟩ := h.files fd file hopen
  have hfile := FwkFileTable.fdToFile_of_slot h.sound.size hbase hslot
  obtain ⟨t, hclose, ht, hcase⟩ := h.sound.virtClose hbase hfile hvalid
  refine ⟨t, hclose, ht, ?_⟩
  rcases hcase with ⟨hlt, harray, hfds⟩ | ⟨i, fds, rfl, hi, hfds, harray, htfds⟩
  · exact ⟨fun _ => h.set_array ht hlt harray hfds (by simp), by omega⟩
  · refine ⟨fun hspares => ?_, fun heq => ?_⟩
    · by_cases hi0 : i = 0
      · subst hi0
        exact h.drop_expand ht harray htfds (hspares rfl)
      · rw [if_neg hi0] at htfds
        refine h.set_expand ht hi harray hfds htfds (by simp) fun hzero fd hfd => ?_
        rw [Function.update_of_ne (Ne.symm hi0)] at hzero
        by_cases hfdi : fd = fileDescNumMax + i
        · rw [hfdi, Function.update_self]
        · rw [Function.update_of_ne hfdi]
          exact h.first fds hfds hzero fd hfd
    · rw [htfds, if_pos (by omega)]

end FdRun

/-! ## Any sequence of calls -/

theorem FdRun.Kept.good {s : FdRun} (h : s.Kept) : s.Good where
  opens := by
    intro kcalloc file
    obtain ⟨r, t, hopen, hcase⟩ := h.open kcalloc file
    refine ⟨r, t, hopen, ?_⟩
    rcases hcase with ⟨hneg, -⟩ | ⟨fd, hr, hbase, hclosed, -⟩
    · exact .inl hneg
    · exact .inr ⟨fd, hr, hbase, hclosed⟩
  resolves := by
    intro fd file hopen
    obtain ⟨-, hbase, hslot⟩ := h.files fd file hopen
    exact FwkFileTable.fdToFile_of_slot h.sound.size hbase hslot
  closes := by
    intro fd hopen
    obtain ⟨file, hfile⟩ := Option.ne_none_iff_exists'.mp hopen
    obtain ⟨t, hclose, -⟩ := h.close hfile
    exact ⟨t, hclose⟩

/-- **One call.** -/
theorem fdStep_kept (s : FdRun) (call : FdCall) (s' : FdRun) (hs : s.Kept) (hspares : call.Spares s)
    (h : fdStep s call = some s') : s'.Kept := by
  cases call with
  | «open» kcalloc file =>
    obtain ⟨r, t, hopen, hcase⟩ := hs.open kcalloc file
    rw [fdStep, hopen] at h
    obtain rfl := Option.some.inj h
    rcases hcase with ⟨hneg, hkept⟩ | ⟨fd, rfl, -, -, hkept⟩
    · dsimp only
      rwa [if_neg (by omega)]
    · dsimp only
      rwa [if_pos (by omega), Int.toNat_natCast]
  | close fd =>
    cases hopen : s.opened fd with
    | none => simp [fdStep, hopen] at h
    | some file =>
      obtain ⟨t, hclose, -, hkept, -⟩ := hs.close hopen
      rw [fdStep, if_neg (by simp [hopen]), hclose] at h
      obtain rfl := Option.some.inj h
      exact hkept hspares

/-- Closing descriptor 32 before the others loses them. -/
theorem fdStep_loses (s : FdRun) (call : FdCall) (s' : FdRun) (hs : s.Kept)
    (hspares : ¬ call.Spares s) (h : fdStep s call = some s') : ¬ s'.Good := by
  cases call with
  | «open» kcalloc file => exact absurd trivial hspares
  | close fd =>
    obtain ⟨rfl, fd', hfd', hother⟩ : fd = fileDescNumMax ∧
        ∃ fd', fileDescNumMax < fd' ∧ s.opened fd' ≠ none := by
      simpa [FdCall.Spares] using hspares
    cases hopen : s.opened fileDescNumMax with
    | none => simp [fdStep, hopen] at h
    | some file =>
      obtain ⟨t, hclose, ht, -, hgone⟩ := hs.close hopen
      rw [fdStep, if_neg (by simp [hopen]), hclose] at h
      obtain rfl := Option.some.inj h
      obtain ⟨file', hfile'⟩ := Option.ne_none_iff_exists'.mp hother
      intro hgood
      have hopened : Function.update s.opened fileDescNumMax none fd' = some file' := by
        rw [Function.update_of_ne (by omega), hfile']
      have hresolves : fwkFdToFile t fd' = .ok file' := hgood.resolves fd' file' hopened
      have hsize := ht.size
      have hbase := (hs.files fd' file' hfile').2.1
      have hover : fileDescOverBase fd' = false := by
        simpa [fileDescOverBase] using hbase
      rw [fwkFdToFile, hover, if_neg Bool.false_ne_true, readFdt, if_pos (by omega), hgone rfl]
        at hresolves
      cases hresolves

/-- Every such run goes on. -/
theorem fdStep_returns {s : FdRun} (hs : s.Kept) (call : FdCall)
    (hclose : ∀ fd, call = .close fd → s.opened fd ≠ none) : ∃ s', fdStep s call = some s' := by
  cases call with
  | «open» kcalloc file =>
    obtain ⟨r, t, hopen, -⟩ := hs.open kcalloc file
    exact ⟨_, by rw [fdStep, hopen]⟩
  | close fd =>
    obtain ⟨file, hfile⟩ := Option.ne_none_iff_exists'.mp (hclose fd rfl)
    obtain ⟨t, hput, -⟩ := hs.close hfile
    exact ⟨_, by rw [fdStep, if_neg (by simp [hfile]), hput]⟩

/-- **Which descriptors are kept.**  Along a run of opens and closes of open descriptors every open
gives an error or a descriptor that is not open, and every open descriptor keeps its file, if and
only if descriptor 32 is never closed while another one of the extension is open. -/
theorem descriptors_kept_iff (stdio : Fin deviceMajorBase → ObjPtr) (calls : List FdCall) (s : FdRun)
    (h : exec fdStep (.start stdio) calls = some s) :
    Always fdStep FdRun.Good (.start stdio) calls ↔
      Meets fdStep (fun s call => call.Spares s) (.start stdio) calls :=
  always_iff_meets fdStep_kept (fun _ hs => hs.good) fdStep_loses (FdRun.start_kept stdio) h

def exampleStdio (i : Fin deviceMajorBase) : ObjPtr :=
  ⟨0x73000 + 16 * i, isValid_iff.mpr (by have hi : (i : Nat) < 3 := i.2; omega)⟩

/-- Descriptors 3 to 33 are opened, the last two in the extension.  33 and 32 are closed in this
order, and the next two files are given 32 again, the second in a new extension. -/
def spareCalls : List FdCall :=
  (List.range 31).map (fun i => .open (some fun _ => 0) (0x74000 + 16 * i)) ++
    [.close 33, .close 32, .open (some fun _ => 0) 0x75000, .close 32,
      .open (some fun _ => 0) 0x76000]

theorem descriptors_kept_iff_example :
    Always fdStep FdRun.Good (.start exampleStdio) spareCalls ↔
      Meets fdStep (fun s call => call.Spares s) (.start exampleStdio) spareCalls :=
  descriptors_kept_iff exampleStdio spareCalls _ rfl

/-- Descriptors 3 to 33 are opened, and 32 is closed. -/
def exampleCalls : List FdCall :=
  List.replicate 31 (.open (some fun _ => 0) 0x74000) ++ [.close 32]

/-- Descriptor 33 is open and has no slot any more. -/
theorem closing_32_loses_33 : (∃ s, exec fdStep (.start exampleStdio) exampleCalls = some s) ∧
    ¬ Always fdStep FdRun.Good (.start exampleStdio) exampleCalls := by
  have hrun : ∃ s, exec fdStep (.start exampleStdio) exampleCalls = some s ∧
      s.opened 33 = some 0x74000 ∧ fwkFdToFile s.table 33 = .error .fault := ⟨_, rfl, rfl, rfl⟩
  obtain ⟨s, hexec, hopen, hlost⟩ := hrun
  refine ⟨⟨s, hexec⟩, fun halways => ?_⟩
  have hgood := (always_last halways hexec).resolves 33 _ hopen
  cases hlost.symm.trans hgood

end HeavenFox.Platform
