/-
# HeavenFox.Platform.FcntlOpens -- two opens at once

An open chooses its descriptor in one step, opens the device in a second one and fills the
slot in a third one, or gives the descriptor back; two threads take these steps in any
order, and other descriptors are closed in between.

Nothing marks a slot that is chosen and not filled yet.  The high-water mark is raised by
the choice of a slot behind it, but once it is at the end of the array the first empty slot
is taken, and that may be the one the other thread has just chosen.  The thread that comes
second then fails and clears the slot of the first (`second_open_clears_first`);
`opens_apart` says that this choice is the only thing that can go wrong.
-/
import HeavenFox.Platform.FcntlRuns

namespace HeavenFox.Platform

open HeavenFox.Common HeavenFox.Logic

/-! ## The machine -/

/-- Where a thread is in `fwk_do_open`. -/
inductive OpenPhase where
  /-- Before `fwk_get_unused_fd_flags`. -/
  | idle
  /-- Before `fwk_do_filp_open`. -/
  | chosen (fd : Nat)
  /-- Before `fwk_fd_install`. -/
  | filed (fd file : Nat)
  /-- Before `fwk_put_used_fd_flags`. -/
  | failing (fd : Nat)
  | done (retval : Int)
  deriving DecidableEq

/-- The descriptor of an open that is under way. -/
def OpenPhase.pending : OpenPhase → List Nat
  | .chosen fd => [fd]
  | .filed fd _ => [fd]
  | .failing fd => [fd]
  | _ => []

/-- The table, the files of the open descriptors, and the two threads. -/
structure OpenRun where
  table : FwkFileTable
  opened : Nat → Option Nat
  phase : Bool → OpenPhase

/-- Two opens begin. -/
def OpenRun.start (s : FdRun) : OpenRun where
  table := s.table
  opened := s.opened
  phase := fun _ => .idle

/-- The descriptors under way. -/
def pendingOf (phase : Bool → OpenPhase) : List Nat := (phase false).pending ++ (phase true).pending

/-- How many descriptors of the array are in use. -/
def OpenRun.inUse (s : OpenRun) : Nat := taken s.table.fdArray fileDescNumMax + (pendingOf s.phase).length

/-- The descriptor is that of one of the two opens. -/
def OpenRun.Owns (s : OpenRun) (fd : Nat) : Prop :=
  s.phase false = .done fd ∨ s.phase true = .done fd

instance (s : OpenRun) (fd : Nat) : Decidable (s.Owns fd) := inferInstanceAs (Decidable (_ ∨ _))

/-- The next step of a thread, with what the allocator and the device give it, or the close of
another descriptor. -/
inductive OpenMove where
  | thread (i : Bool) (kcalloc : Option (Nat → Nat)) (file : Nat)
  | close (fd : Nat)

/-- `fwk_get_unused_fd_flags` is only called while fewer than 32 descriptors are in use, and only
open descriptors are closed, not those of the two opens. -/
def openStep (s : OpenRun) : OpenMove → Option OpenRun
  | .thread i kcalloc file =>
    match s.phase i with
    | .idle =>
      if s.inUse < fileDescNumMax then
        match fwkGetUnusedFdFlags kcalloc s.table with
        | .error _ => none
        | .ok r =>
          some
            { s with
              table := r.2
              phase := Function.update s.phase i
                (if r.1 < 0 then .done (-erFault) else .chosen r.1.toNat) }
      else none
    | .chosen fd =>
      some
        { s with
          phase := Function.update s.phase i
            (if isValid file then .filed fd file else .failing fd) }
    | .filed fd file =>
      match fwkFdInstall s.table fd file with
      | .error _ => none
      | .ok r =>
        if r.1 ≠ 0 then
          some { s with table := r.2, phase := Function.update s.phase i (.failing fd) }
        else
          some
            { table := r.2
              opened := Function.update s.opened fd (some file)
              phase := Function.update s.phase i (.done fd) }
    | .failing fd =>
      match fwkPutUsedFdFlags s.table fd with
      | .error _ => none
      | .ok t => some { s with table := t, phase := Function.update s.phase i (.done (-erFault)) }
    | .done _ => none
  | .close fd =>
    if s.opened fd = none ∨ s.Owns fd then none
    else
      match virtClose s.table fd with
      | .error _ => none
      | .ok t => some { s with table := t, opened := Function.update s.opened fd none }

/-- The two opens have different descriptors, and each keeps its own. -/
structure OpenRun.Good (s : OpenRun) : Prop where
  distinct : ∀ fd : Nat, s.phase false = .done fd → s.phase true ≠ .done fd
  kept : ∀ (i : Bool) (fd : Nat), s.phase i = .done fd →
    ∃ file, s.opened fd = some file ∧ fwkFdToFile s.table fd = .ok file

/-- A thread that chooses while the high-water mark is at the end of the array does not find the slot
that the other one has chosen: an empty slot comes before that, or that is not below the mark. -/
def OpenMove.Apart (s : OpenRun) : OpenMove → Prop
  | .thread i _ _ =>
    s.phase i = .idle → s.table.maxFdset + 1 < s.table.maxFdarr ∨
      ∀ fd ∈ (s.phase !i).pending, (fd : Int) < s.table.maxFdset → ∃ j < fd, s.table.fdArray j = 0
  | .close _ => True

instance (s : OpenRun) : (move : OpenMove) → Decidable (move.Apart s)
  | .thread _ _ _ => inferInstanceAs (Decidable (_ → _ ∨ ∀ fd ∈ _, _ → ∃ j < fd, _))
  | .close _ => isTrue trivial

/-! ## Slots and files -/

/-- The slots of the array that are open hold their files. -/
def HoldsFiles (a : Nat → Nat) (opened : Nat → Option Nat) : Prop :=
  ∀ fd file, opened fd = some file → isValid file = true ∧ deviceMajorBase ≤ fd ∧
    (fd < fileDescNumMax → a fd = file)

namespace HoldsFiles

variable {a : Nat → Nat} {opened : Nat → Option Nat} {fd file : Nat}

theorem ne_zero (h : HoldsFiles a opened) (hopen : opened fd = some file) : file ≠ 0 :=
  (isValid_iff.mp (h fd file hopen).1).1.ne'

/-- A file is opened. -/
theorem set (h : HoldsFiles a opened) {a' : Nat → Nat} (hfile : isValid file = true)
    (hbase : deviceMajorBase ≤ fd) (hself : fd < fileDescNumMax → a' fd = file)
    (hother : ∀ fd', fd' ≠ fd → a' fd' = a fd') :
    HoldsFiles a' (Function.update opened fd (some file)) := by
  intro fd' file' hopen
  by_cases hfd : fd' = fd
  · subst hfd
    rw [Function.update_self] at hopen
    cases hopen
    exact ⟨hfile, hbase, hself⟩
  · rw [Function.update_of_ne hfd] at hopen
    rw [hother fd' hfd]
    exact h fd' file' hopen

/-- A descriptor is closed. -/
theorem drop (h : HoldsFiles a opened) {a' : Nat → Nat} (hother : ∀ fd', fd' ≠ fd → a' fd' = a fd') :
    HoldsFiles a' (Function.update opened fd none) := by
  intro fd' file' hopen
  by_cases hfd : fd' = fd
  · subst hfd
    rw [Function.update_self] at hopen
    cases hopen
  · rw [Function.update_of_ne hfd] at hopen
    rw [hother fd' hfd]
    exact h fd' file' hopen

/-- `fwk_fd_to_file` gives the file. -/
theorem fdToFile {t : FwkFileTable} (h : HoldsFiles t.fdArray opened)
    (hsize : t.maxFdarr = fileDescNumMax) (hopen : opened fd = some file)
    (hlt : fd < fileDescNumMax) : fwkFdToFile t fd = .ok file := by
  obtain ⟨-, hbase, hslot⟩ := h fd file hopen
  exact FwkFileTable.fdToFile_of_slot hsize hbase
    (by rw [FwkFileTable.slot_array hlt, hslot hlt])

/-- A close clears its own slot. -/
theorem close {t t' : FwkFileTable} {reserved : List Nat} (h : HoldsFiles t.fdArray opened)
    (ht : t.Sound reserved) (hopen : opened fd = some file) (hclose : virtClose t fd = .ok t') :
    t'.Sound reserved ∧ ∀ fd', fd' ≠ fd → t'.fdArray fd' = t.fdArray fd' := by
  have hbase := (h fd file hopen).2.1
  cases hread : fwkFdToFile t fd with
  | error e => simp [virtClose, fwkDoClose, hread, bind, Except.bind] at hclose
  | ok file' =>
    by_cases hvalid : isValid file' = true
    · obtain ⟨t'', hclose', ht', hcase⟩ := ht.virtClose hbase hread hvalid
      obtain rfl : t'' = t' := Except.ok.inj (hclose'.symm.trans hclose)
      refine ⟨ht', fun fd' hfd => ?_⟩
      rcases hcase with ⟨-, harray, -⟩ | ⟨i, fds, -, -, -, harray, -⟩
      · rw [harray, Function.update_of_ne hfd]
      · rw [harray]
    · simp only [virtClose, fwkDoClose, hread, bind, Except.bind, hvalid] at hclose
      obtain rfl : t = t' := Except.ok.inj hclose
      exact ⟨ht, fun _ _ => rfl⟩

end HoldsFiles

/-! ## Before the two opens -/

/-- What any sequence of opens and closes keeps. -/
structure FdRun.Based (s : FdRun) : Prop where
  sound : s.table.Sound []
  files : HoldsFiles s.table.fdArray s.opened

theorem FdRun.start_based (stdio : Fin deviceMajorBase → ObjPtr) : (FdRun.start stdio).Based where
  sound := FwkFileTable.sound_init stdio
  files := fun fd file h => by cases h

theorem fdStep_based (s : FdRun) (call : FdCall) (s' : FdRun) (hs : s.Based)
    (h : fdStep s call = some s') : s'.Based := by
  cases call with
  | «open» kcalloc file =>
    obtain ⟨r, t, hopen, ht, heffect⟩ := hs.sound.virtOpen kcalloc file
    rw [fdStep, hopen] at h
    obtain rfl := Option.some.inj h
    refine ⟨ht, ?_⟩
    dsimp only
    cases heffect with
    | refused hr harray _ =>
      rw [if_neg (by omega), harray]
      exact hs.files
    | expanded hr harray _ =>
      rw [if_neg (by omega), harray]
      exact hs.files
    | givenBack hr _ _ _ _ harray _ =>
      rw [if_neg (by omega), harray]
      exact hs.files
    | array hbase hlt _ hfile harray _ =>
      rw [if_pos (by omega), Int.toNat_natCast, harray]
      exact hs.files.set hfile hbase (fun _ => Function.update_self _ _ _)
        fun fd' hfd => Function.update_of_ne hfd _ _
    | expand hlt _ _ _ hfile harray _ =>
      rw [if_pos (by omega), Int.toNat_natCast, harray]
      exact hs.files.set hfile (Nat.le_trans (by decide) (Nat.le_add_right _ _))
        (fun hlt => absurd hlt (Nat.not_lt.mpr (Nat.le_add_right _ _))) fun _ _ => rfl
  | close fd =>
    cases hopen : s.opened fd with
    | none => simp [fdStep, hopen] at h
    | some file =>
      rw [fdStep, if_neg (by simp [hopen])] at h
      cases hclose : virtClose s.table fd with
      | error e => simp [hclose] at h
      | ok t =>
        rw [hclose] at h
        obtain rfl := Option.some.inj h
        obtain ⟨ht, hother⟩ := hs.files.close hs.sound hopen hclose
        exact ⟨ht, hs.files.drop hother⟩

/-! ## What every step keeps -/

/-- The descriptors that are under way are free and different; the two that are done are open and
different. -/
structure OpenRun.Kept (s : OpenRun) : Prop where
  sound : s.table.Sound (pendingOf s.phase)
  files : HoldsFiles s.table.fdArray s.opened
  filed : ∀ i fd file, s.phase i = .filed fd file → isValid file = true
  done : ∀ (i : Bool) (fd : Nat), s.phase i = .done fd → fd < fileDescNumMax ∧ s.opened fd ≠ none
  distinct : ∀ fd : Nat, s.phase false = .done fd → s.phase true ≠ .done fd

/-- The descriptor of one thread and that of the other. -/
theorem pendingOf_perm (phase : Bool → OpenPhase) (i : Bool) :
    (pendingOf phase).Perm ((phase i).pending ++ (phase !i).pending) := by
  cases i
  · exact List.Perm.refl _
  · exact List.perm_append_comm

theorem pendingOf_update (phase : Bool → OpenPhase) (i : Bool) (p : OpenPhase) :
    (pendingOf (Function.update phase i p)).Perm (p.pending ++ (phase !i).pending) := by
  have hperm := pendingOf_perm (Function.update phase i p) i
  rwa [Function.update_self, Function.update_of_ne (Bool.not_ne_self i)] at hperm

namespace OpenRun

variable {s : OpenRun}

theorem start_kept {r : FdRun} (h : r.Based) : (start r).Kept where
  sound := h.sound
  files := h.files
  filed := fun _ _ _ hphase => by cases hphase
  done := fun _ _ hphase => by cases hphase
  distinct := fun _ hphase => by cases hphase

/-- A step of a thread that does not come to an end with a descriptor. -/
theorem Kept.advance (h : s.Kept) {i : Bool} {t : FwkFileTable} {p : OpenPhase}
    (ht : t.Sound (p.pending ++ (s.phase !i).pending)) (harray : t.fdArray = s.table.fdArray)
    (hp : ∀ fd : Nat, p ≠ .done fd) (hfiled : ∀ fd file, p = .filed fd file → isValid file = true) :
    Kept { s with table := t, phase := Function.update s.phase i p } := by
  have hdone : ∀ (j : Bool) (fd : Nat),
      Function.update s.phase i p j = .done fd → s.phase j = .done fd := by
    intro j fd hphase
    by_cases hj : j = i
    · subst hj
      rw [Function.update_self] at hphase
      exact absurd hphase (hp fd)
    · rwa [Function.update_of_ne hj] at hphase
  refine ⟨ht.perm (pendingOf_update _ _ _).symm, ?_, fun j fd file hphase => ?_,
    fun j fd hphase => h.done j fd (hdone j fd hphase),
    fun fd hphase hphase' => h.distinct fd (hdone _ fd hphase) (hdone _ fd hphase')⟩
  · show HoldsFiles t.fdArray s.opened
    rw [harray]
    exact h.files
  · change Function.update s.phase i p j = .filed fd file at hphase
    by_cases hj : j = i
    · subst hj
      rw [Function.update_self] at hphase
      exact hfiled fd file hphase
    · rw [Function.update_of_ne hj] at hphase
      exact h.filed j fd file hphase

/-- The descriptor of a thread, in front of that of the other. -/
theorem Kept.sound_cons (h : s.Kept) {i : Bool} (fd : Nat) (hphase : (s.phase i).pending = [fd]) :
    s.table.Sound (fd :: (s.phase !i).pending) := by
  have hperm := pendingOf_perm s.phase i
  rw [hphase] at hperm
  exact h.sound.perm hperm

/-- **Choosing.** -/
theorem Kept.choose (h : s.Kept) {i : Bool} (hphase : s.phase i = .idle)
    (kcalloc : Option (Nat → Nat)) (hfree : s.inUse < fileDescNumMax)
    (hapart : s.table.maxFdset + 1 < s.table.maxFdarr ∨
      ∀ fd ∈ (s.phase !i).pending, (fd : Int) < s.table.maxFdset → ∃ j < fd, s.table.fdArray j = 0) :
    ∃ r t, fwkGetUnusedFdFlags kcalloc s.table = .ok (r, t) ∧
      Kept
        { s with
          table := t
          phase := Function.update s.phase i
            (if r < 0 then .done (-erFault) else .chosen r.toNat) } := by
  have hperm := pendingOf_perm s.phase i
  rw [hphase] at hperm
  have hsound : s.table.Sound (s.phase !i).pending := h.sound.perm hperm
  have hlength : (pendingOf s.phase).length = (s.phase !i).pending.length := hperm.length_eq
  unfold inUse at hfree
  rw [hlength] at hfree
  rw [hsound.size] at hapart
  obtain ⟨r, t, hget, harray, -, hcase⟩ := hsound.getUnused kcalloc hfree hapart
  refine ⟨r, t, hget, ?_⟩
  rcases hcase with ⟨rfl, rfl⟩ | ⟨fd, rfl, hlt, hnew, ht⟩
  · rw [if_pos (by decide)]
    refine h.advance hsound rfl (fun fd hdone => ?_) fun fd file hfiled => by cases hfiled
    have hneg : -erFault = (fd : Int) := OpenPhase.done.inj hdone
    unfold erFault at hneg
    omega
  · rw [if_neg (by omega), Int.toNat_natCast]
    exact h.advance ht harray (fun fd hdone => by cases hdone) fun fd file hfiled => by cases hfiled

/-- **Filling the slot.** -/
theorem Kept.install (h : s.Kept) {i : Bool} {fd file : Nat} (hphase : s.phase i = .filed fd file) :
    ∃ t, fwkFdInstall s.table fd file = .ok (erNormal, t) ∧
      Kept
        { table := t
          opened := Function.update s.opened fd (some file)
          phase := Function.update s.phase i (.done fd) } := by
  have hsound := h.sound_cons (i := i) fd (by rw [hphase]; rfl)
  have hfile := h.filed i fd file hphase
  have hbase := hsound.reserved_ge List.mem_cons_self
  obtain ⟨hlt, hempty, -⟩ := hsound.empty fd List.mem_cons_self
  -- the other thread has another descriptor, since its slot is taken
  have hother : ∀ j : Bool, s.phase j ≠ .done fd := by
    intro j hdone
    obtain ⟨file', hopen⟩ := Option.ne_none_iff_exists'.mp (h.done j fd hdone).2
    have hslot := (h.files fd file' hopen).2.2 hlt
    exact h.files.ne_zero hopen (hslot.symm.trans hempty)
  have hdone : ∀ (j : Bool) (fd' : Nat), Function.update s.phase i (.done fd) j = .done fd' →
      j = i ∧ fd' = fd ∨ s.phase j = .done fd' ∧ fd' ≠ fd := by
    intro j fd' hj
    by_cases hji : j = i
    · subst hji
      rw [Function.update_self] at hj
      have heq : (fd : Int) = fd' := OpenPhase.done.inj hj
      exact .inl ⟨rfl, by omega⟩
    · rw [Function.update_of_ne hji] at hj
      exact .inr ⟨hj, fun heq => hother j (heq ▸ hj)⟩
  refine ⟨_, FwkFileTable.install_array hsound.size hbase hlt hempty hfile, ?_, ?_, ?_, ?_, ?_⟩
  · exact (hsound.fill (isValid_iff.mp hfile).1.ne').perm (pendingOf_update s.phase i (.done fd)).symm
  · exact h.files.set hfile hbase (fun _ => Function.update_self _ _ _)
      fun fd' hfd => Function.update_of_ne hfd _ _
  · intro j fd' file' hj
    change Function.update s.phase i (.done fd) j = .filed fd' file' at hj
    by_cases hji : j = i
    · subst hji
      rw [Function.update_self] at hj
      cases hj
    · rw [Function.update_of_ne hji] at hj
      exact h.filed j fd' file' hj
  · intro j fd' hj
    show fd' < fileDescNumMax ∧ Function.update s.opened fd (some file) fd' ≠ none
    rcases hdone j fd' hj with ⟨-, rfl⟩ | ⟨hj, hne⟩
    · exact ⟨hlt, by rw [Function.update_self]; exact Option.some_ne_none _⟩
    · rw [Function.update_of_ne hne]
      exact h.done j fd' hj
  · intro fd' hfalse htrue
    rcases hdone _ fd' hfalse with ⟨hi, rfl⟩ | ⟨hfalse, hne⟩
    · rcases hdone _ fd' htrue with ⟨hi', -⟩ | ⟨-, hne⟩
      · exact absurd (hi.trans hi'.symm) Bool.false_ne_true
      · exact hne rfl
    · rcases hdone _ fd' htrue with ⟨-, rfl⟩ | ⟨htrue, -⟩
      · exact hne rfl
      · exact h.distinct fd' hfalse htrue

/-- **Giving the descriptor back.** -/
theorem Kept.giveBack (h : s.Kept) {i : Bool} {fd : Nat} (hphase : s.phase i = .failing fd) :
    ∃ t, fwkPutUsedFdFlags s.table fd = .ok t ∧
      Kept { s with table := t, phase := Function.update s.phase i (.done (-erFault)) } := by
  have hsound := h.sound_cons (i := i) fd (by rw [hphase]; rfl)
  have hbase := hsound.reserved_ge List.mem_cons_self
  obtain ⟨hlt, hempty, -⟩ := hsound.empty fd List.mem_cons_self
  refine ⟨_, FwkFileTable.put_array hsound.size hbase hlt,
    h.advance hsound.cancel ?_ (fun fd' hdone => ?_) fun fd file hfiled => by cases hfiled⟩
  · show Function.update s.table.fdArray fd 0 = s.table.fdArray
    rw [← hempty, Function.update_eq_self]
  · have hneg : -erFault = (fd' : Int) := OpenPhase.done.inj hdone
    unfold erFault at hneg
    omega

/-- **Closing another descriptor.** -/
theorem Kept.close (h : s.Kept) {fd : Nat} {t : FwkFileTable} (hopen : s.opened fd ≠ none)
    (howns : ¬ s.Owns fd) (hclose : virtClose s.table fd = .ok t) :
    Kept { s with table := t, opened := Function.update s.opened fd none } := by
  obtain ⟨file, hfile⟩ := Option.ne_none_iff_exists'.mp hopen
  obtain ⟨ht, hother⟩ := h.files.close h.sound hfile hclose
  refine ⟨ht, h.files.drop hother, h.filed, fun i fd' hdone => ?_, h.distinct⟩
  have hne : fd' ≠ fd := by
    rintro rfl
    cases i
    · exact howns (.inl hdone)
    · exact howns (.inr hdone)
  show fd' < fileDescNumMax ∧ Function.update s.opened fd none fd' ≠ none
  rw [Function.update_of_ne hne]
  exact h.done i fd' hdone

theorem Kept.good (h : s.Kept) : s.Good where
  distinct := h.distinct
  kept := by
    intro i fd hdone
    obtain ⟨hlt, hopen⟩ := h.done i fd hdone
    obtain ⟨file, hfile⟩ := Option.ne_none_iff_exists'.mp hopen
    exact ⟨file, hfile, h.files.fdToFile h.sound.size hfile hlt⟩

end OpenRun

/-- **One step.** -/
theorem openStep_kept (s : OpenRun) (move : OpenMove) (s' : OpenRun) (hs : s.Kept)
    (hapart : move.Apart s) (h : openStep s move = some s') : s'.Kept := by
  cases move with
  | thread i kcalloc file =>
    cases hphase : s.phase i with
    | idle =>
      simp only [openStep, hphase] at h
      by_cases hfree : s.inUse < fileDescNumMax
      · obtain ⟨r, t, hget, hkept⟩ := hs.choose hphase kcalloc hfree (hapart hphase)
        rw [if_pos hfree, hget] at h
        obtain rfl := Option.some.inj h
        exact hkept
      · rw [if_neg hfree] at h
        cases h
    | chosen fd =>
      simp only [openStep, hphase] at h
      obtain rfl := Option.some.inj h
      have hsound := hs.sound_cons (i := i) fd (by rw [hphase]; rfl)
      by_cases hfile : isValid file = true
      · rw [if_pos hfile]
        refine hs.advance hsound rfl (fun fd' hdone => by cases hdone) ?_
        rintro _ _ ⟨⟩
        exact hfile
      · rw [if_neg hfile]
        exact hs.advance hsound rfl (fun fd' hdone => by cases hdone)
          fun _ _ hfiled => by cases hfiled
    | filed fd file' =>
      obtain ⟨t, hinstall, hkept⟩ := hs.install hphase
      simp only [openStep, hphase, hinstall] at h
      obtain rfl := Option.some.inj h
      exact hkept
    | failing fd =>
      obtain ⟨t, hput, hkept⟩ := hs.giveBack hphase
      simp only [openStep, hphase, hput] at h
      obtain rfl := Option.some.inj h
      exact hkept
    | done retval => simp [openStep, hphase] at h
  | close fd =>
    by_cases hskip : s.opened fd = none ∨ s.Owns fd
    · simp [openStep, hskip] at h
    · cases hclose : virtClose s.table fd with
      | error e => simp [openStep, hskip, hclose] at h
      | ok t =>
        simp only [openStep, if_neg hskip, hclose] at h
        obtain rfl := Option.some.inj h
        exact hs.close (fun hnone => hskip (.inl hnone)) (fun howns => hskip (.inr howns)) hclose

/-- The steps of a thread that is not interrupted are those of `virt_open`. -/
theorem open_alone {s : OpenRun} {i : Bool} {kcalloc : Option (Nat → Nat)} {file : Nat} {r : Int}
    {t : FwkFileTable} (hphase : s.phase i = .idle) (hfree : s.inUse < fileDescNumMax)
    (h : virtOpen kcalloc file s.table = .ok (r, t)) :
    ∃ n s', exec openStep s (List.replicate n (.thread i kcalloc file)) = some s' ∧
      s'.table = t ∧ s'.phase i = .done r := by
  cases hget : fwkGetUnusedFdFlags kcalloc s.table with
  | error e => simp [virtOpen, fwkDoOpen, hget, bind, Except.bind] at h
  | ok q =>
    have hchoose : openStep s (.thread i kcalloc file) = some
        { s with
          table := q.2
          phase := Function.update s.phase i
            (if q.1 < 0 then .done (-erFault) else .chosen q.1.toNat) } := by
      simp only [openStep, hphase, if_pos hfree, hget]
    simp only [virtOpen, fwkDoOpen, hget, bind, Except.bind] at h
    by_cases hneg : q.1 < 0
    · rw [if_pos hneg] at h
      cases h
      rw [if_pos hneg] at hchoose
      exact ⟨1, _, exec_step hchoose, rfl, Function.update_self _ _ _⟩
    rw [if_neg hneg] at h hchoose
    obtain ⟨fd, hfd⟩ : ∃ fd : Nat, q.1 = fd := ⟨q.1.toNat, by omega⟩
    rw [hfd, Int.toNat_natCast] at hchoose
    rw [hfd] at h
    by_cases hfile : isValid file = true
    · simp only [hfile] at h
      cases hinstall : fwkFdInstall q.2 fd file with
      | error e => simp [hinstall] at h
      | ok q' =>
        rw [hinstall] at h
        dsimp only at h
        by_cases hfail : q'.1 = 0
        · simp only [hfail] at h
          cases h
          refine ⟨3, ⟨q'.2, Function.update s.opened fd (some file),
            Function.update s.phase i (.done fd)⟩, (exec_step hchoose).trans ?_, rfl, ?_⟩
          · simp [exec, openStep, hfile, hinstall, hfail]
          · exact Function.update_self _ _ _
        · rw [if_pos hfail] at h
          cases hput : fwkPutUsedFdFlags q'.2 fd with
          | error e => simp [hput] at h
          | ok t' =>
            rw [hput] at h
            cases h
            refine ⟨4, ⟨t, s.opened, Function.update s.phase i (.done (-erFault))⟩,
              (exec_step hchoose).trans ?_, rfl, Function.update_self _ _ _⟩
            simp [exec, openStep, hfile, hinstall, hfail, hput]
    · simp only [hfile] at h
      cases hput : fwkPutUsedFdFlags q.2 fd with
      | error e => simp [hput] at h
      | ok t' =>
        rw [hput] at h
        cases h
        refine ⟨3, ⟨t, s.opened, Function.update s.phase i (.done (-erFault))⟩,
          (exec_step hchoose).trans ?_, rfl, Function.update_self _ _ _⟩
        simp [exec, openStep, hfile, hput]

/-- **Two opens at once.**  From any state that opens and closes lead to, and in any order of the
steps of two opens and of closes of other descriptors, with fewer than 32 descriptors in use, the
two opens have different descriptors and each keeps its own, as long as neither chooses the slot
that the other one has chosen. -/
theorem opens_apart (stdio : Fin deviceMajorBase → ObjPtr) (calls : List FdCall) (s : FdRun)
    (hreach : exec fdStep (.start stdio) calls = some s) (moves : List OpenMove)
    (h : Meets openStep (fun s move => move.Apart s) (.start s) moves) :
    Always openStep OpenRun.Good (.start s) moves := by
  have hbased : s.Based := always_last
    (always_of_meets (c := fun _ _ => True) (fun s call s' hs _ => fdStep_based s call s' hs)
      (FdRun.start_based stdio) (meets_of_forall fun _ _ => trivial)) hreach
  exact Always.imp (fun _ hs => hs.good)
    (always_of_meets openStep_kept (OpenRun.start_kept hbased) h)

/-- Twenty-nine files are opened, and 5 and 7 are closed again. -/
def exampleBefore : List FdCall :=
  List.replicate 29 (.open none 0x74000) ++ [.close 5, .close 7]

def exampleState : FdRun :=
  (exec fdStep (.start exampleStdio) exampleBefore).getD (.start exampleStdio)

/-- The second thread chooses when the first one has filled its slot, and 9 is closed. -/
theorem opens_apart_example :
    Always openStep OpenRun.Good (.start exampleState)
      [.thread false none 0, .thread false none 0x75000, .thread false none 0,
        .thread true none 0, .close 9, .thread true none 0x76000, .thread true none 0] :=
  opens_apart exampleStdio exampleBefore exampleState rfl _ (by decide)

/-- Both threads choose 5 and both devices open; the first thread fills the slot, and the second one
cannot, fails and clears it. -/
def exampleMoves : List OpenMove :=
  [.thread false none 0, .thread true none 0, .thread false none 0x75000,
    .thread true none 0x76000, .thread false none 0, .thread true none 0, .thread true none 0]

theorem second_open_clears_first :
    exec fdStep (.start exampleStdio) exampleBefore = some exampleState ∧
    (∃ s, exec openStep (.start exampleState) exampleMoves = some s ∧
      s.phase false = .done 5 ∧ s.phase true = .done (-erFault) ∧
      fwkFdToFile s.table 5 = .ok 0) ∧
    ¬ Always openStep OpenRun.Good (.start exampleState) exampleMoves := by
  have hrun : ∃ s, exec openStep (.start exampleState) exampleMoves = some s ∧
      s.phase false = .done 5 ∧ s.phase true = .done (-erFault) ∧
      fwkFdToFile s.table 5 = .ok 0 ∧ s.opened 5 = some 0x75000 :=
    ⟨_, rfl, rfl, rfl, rfl, rfl⟩
  obtain ⟨s, hexec, hfirst, hsecond, hcleared, hopen⟩ := hrun
  refine ⟨rfl, ⟨s, hexec, hfirst, hsecond, hcleared⟩, fun halways => ?_⟩
  obtain ⟨file, hfile, hread⟩ := (always_last halways hexec).kept false 5 hfirst
  obtain rfl : 0x75000 = file := Option.some.inj (hopen.symm.trans hfile)
  cases hcleared.symm.trans hread

end HeavenFox.Platform
