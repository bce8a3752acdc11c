/-
# HeavenFox.Kernel.ThreadFailure -- a creation that fails

`__real_thread_create` fails for want of a tid or of memory; the registration itself does
not fail.  What it has allocated it frees, and it has not touched the table.  But the label
`fail3` destroys the attribute object whoever owns it: the stack of a creator's attributes
is freed and they are cleared (`create_clean_iff`).
-/
import HeavenFox.Kernel.Thread

-- the source's own leading underscores are kept
set_option linter.style.nameCheck false

namespace HeavenFox.Kernel

open HeavenFox.Common HeavenFox.Logic

/-! ## The registration does not fail -/

section Registration

variable {configRollPoll : Bool} {rounds : Nat} {s s' : SchedulerTable} {list : StatusList}
  {p tid : Nat} {retval : Int}

theorem unusedTidFrom_free {i count : Nat} {tid : Int} (h : unusedTidFrom s i count = tid)
    (hret : ¬ tid < 0) : s.sprtTidArray tid.toNat = none := by
  induction count generalizing i with
  | zero =>
    rw [← h, unusedTidFrom] at hret
    exact absurd (by decide) hret
  | succ count ih =>
    rw [unusedTidFrom] at h
    split at h
    · rename_i hfree
      rw [← h, Int.toNat_natCast]
      exact Option.isNone_iff_eq_none.mp hfree
    · exact ih h

theorem addStatusList_retval (h : __scheduleAddStatusList configRollPoll rounds s p list =
    .ok (retval, s')) : retval = erNormal := by
  unfold __scheduleAddStatusList at h
  split at h
  · cases h
    rfl
  · obtain ⟨found, -, h⟩ := except_bind.mp h
    split at h
    · cases h
      rfl
    · split at h
      · cases h
        rfl
      · obtain ⟨place, -, h⟩ := except_bind.mp h
        cases h
        rfl

/-- **`register_new_thread`** succeeds for a new thread with a stack, under a tid that is free. -/
theorem registerNewThread_retval (h : registerNewThread configRollPoll rounds s p tid =
    .ok (retval, s')) (hfree : s.sprtTidArray tid = none)
    (hstack : (s.threads p).sprtAttr.stackAddr ≠ 0) (hnew : (s.threads p).status = .none) :
    retval = erNormal := by
  have htaken : ¬ (s.sprtTidArray tid).isSome = true := by simp [hfree]
  rw [registerNewThread, if_neg htaken, if_neg hstack] at h
  obtain ⟨⟨added, s₁⟩, hadd, h⟩ := except_bind.mp h
  have hnormal : added = erNormal := by
    have hstatus : ¬ (s.threads p).status = StatusList.ready.status := by
      rw [hnew]
      decide
    simp only [scheduleAddReadyList, addToList, Function.update_self, if_neg hstatus] at hadd
    exact addStatusList_retval hadd
  dsimp only at h
  rw [hnormal, if_neg (by decide)] at h
  obtain ⟨s₂, -, h⟩ := except_bind.mp h
  cases h
  rfl

end Registration

/-! ## Stacks -/

section Stacks

variable {stack : Nat} {attr : ThreadAttr}

/-- A stack of the default size has a top. -/
theorem stackTop_ne_zero (h : isValid stack = true) :
    ThreadAttr.stackTop stack realThreadStackDefault ≠ 0 := by
  have hlt := (isValid_iff.mp h).2
  have hsum : add32 stack realThreadStackDefault = stack + 2056 := by
    rw [realThreadStackDefault, add32_of_lt (by omega)]
  have hroom : sub32 (stack + 2056) 16 &&& not32 7 = (stack + 2040) / 8 * 8 := by
    rw [sub32_of_le (by omega) (by omega), and_not32_seven (by omega)]
    rfl
  have hregs : sub32 ((stack + 2040) / 8 * 8) schedulerContextRegsSize =
      (stack + 2040) / 8 * 8 - 72 := by
    rw [schedulerContextRegsSize, sub32_of_le (by omega) (by omega)]
  rw [ThreadAttr.stackTop, hsum, hroom, hregs, and_not32_seven (by omega)]
  omega

theorem setStack_default (h : isValid stack = true) (attr : ThreadAttr) :
    (attr.setStack stack stack realThreadStackDefault).2 =
      { attr with
        ptrStackStart := stack
        stackAddr := ThreadAttr.stackTop stack realThreadStackDefault
        stacksize := realThreadStackDefault } := by
  have hsize : ¬ realThreadStackDefault < realThreadStackMin := by decide
  simp [ThreadAttr.setStack, h, hsize]

/-- `real_thread_attr_init` fails exactly if there is no memory for a stack, and else it is the
stack that is freed later. -/
theorem init_spec (stack : Nat) :
    ((ThreadAttr.init stack).1 = 0 ↔ isValid stack = false) ∧
      (isValid stack = true → (ThreadAttr.init stack).2.ptrStackStart = stack ∧
        (ThreadAttr.init stack).2.stackAddr ≠ 0) := by
  cases h : isValid stack with
  | false => simp [ThreadAttr.init, h]
  | true =>
    have htop := stackTop_ne_zero h
    have hset := setStack_default h
    generalize ThreadAttr.stackTop stack realThreadStackDefault = top at htop hset
    have hprio := ThreadAttr.setPriority_of_lt (p := realThreadProtyDefault) (by decide)
    simp only [ThreadAttr.init, h, hset, hprio, ThreadAttr.setTimeSlice]
    exact ⟨by simpa using htop, fun _ => ⟨rfl, htop⟩⟩

/-- The attributes when `real_thread_attr_revise` looks at their stack. -/
theorem revise_before (attr : ThreadAttr) : ∃ mid : ThreadAttr,
    mid.stackAddr = attr.stackAddr ∧ mid.ptrStackStart = attr.ptrStackStart ∧
      ∀ stack, attr.revise stack =
        if mid.stackAddr = 0 then
          if isValid stack = false then (0, mid)
          else
            let attr := (mid.setStack stack stack realThreadStackDefault).2
            (attr.stackAddr, attr)
        else (mid.stackAddr, mid) := by
  have hprio : ∀ z : ThreadAttr, (z.setPriority realThreadProtyDefault).stackAddr = z.stackAddr ∧
      (z.setPriority realThreadProtyDefault).ptrStackStart = z.ptrStackStart := by
    intro z
    rw [ThreadAttr.setPriority_of_lt (by decide)]
    exact ⟨rfl, rfl⟩
  have hslice : ∀ z : ThreadAttr, (z.setTimeSlice realThreadTimeDefualt).stackAddr = z.stackAddr ∧
      (z.setTimeSlice realThreadTimeDefualt).ptrStackStart = z.ptrStackStart := fun _ => ⟨rfl, rfl⟩
  refine ⟨_, ?_, ?_, fun stack => rfl⟩
  all_goals
    split
    all_goals split
    all_goals simp only [hslice, hprio]

/-- Attributes that have a stack keep it. -/
theorem revise_stack (h : attr.stackAddr ≠ 0) (stack : Nat) :
    (attr.revise stack).2.ptrStackStart = attr.ptrStackStart ∧
      (attr.revise stack).2.stackAddr ≠ 0 := by
  obtain ⟨mid, haddr, hstart, heq⟩ := revise_before attr
  rw [heq, if_neg (by rw [haddr]; exact h)]
  exact ⟨hstart, by rw [haddr]; exact h⟩

/-- Attributes without a stack get one, if there is memory for it. -/
theorem revise_noStack (h : attr.stackAddr = 0) (stack : Nat) :
    (attr.revise stack).2.ptrStackStart = (if isValid stack then stack else attr.ptrStackStart) ∧
      ((attr.revise stack).1 ≠ 0 → (attr.revise stack).2.stackAddr ≠ 0) := by
  obtain ⟨mid, haddr, hstart, heq⟩ := revise_before attr
  rw [heq, if_pos (haddr.trans h)]
  cases hvalid : isValid stack with
  | false => exact ⟨hstart, fun hne => absurd rfl hne⟩
  | true =>
    rw [setStack_default hvalid]
    exact ⟨rfl, id⟩

/-- `real_thread_attr_revise` has a stack to return, or fails. -/
theorem revise_addr (h : (attr.revise stack).1 ≠ 0) : (attr.revise stack).2.stackAddr ≠ 0 := by
  by_cases hstack : attr.stackAddr = 0
  · exact (revise_noStack hstack stack).2 h
  · exact (revise_stack hstack stack).2

end Stacks

/-! ## What a failed creation leaves -/

section Creation

variable {configRollPoll : Bool} {rounds : Nat} {k : Kzalloc} {w w' : Threads}
  {ptrId sprtAttr : Option Nat} {base : Int} {tid a startRoutine ptrArgs flags : Nat} {retval : Int}

/-- A creation fails with the attribute object `a` before it has a thread object, and goes to the
label `fail3`. -/
theorem createWith_failed (h : createWith configRollPoll rounds k w ptrId sprtAttr tid a startRoutine
      ptrArgs = .ok (retval, w')) (hret : retval < 0) (hfree : w.table.sprtTidArray tid = none) :
    w' = (createFail3
      ((w.reviseStack a k.stack).setAttr a ((w.attr a).revise k.stack).2) sprtAttr a).2 := by
  unfold createWith at h
  generalize hrevise : (w.attr a).revise k.stack = revised at h
  obtain ⟨stackAddr, attr⟩ := revised
  dsimp only at h
  split at h
  · exact congrArg Prod.snd (Except.ok.inj h).symm
  rename_i hstack
  split at h
  · exact congrArg Prod.snd (Except.ok.inj h).symm
  -- the registration would have to fail
  obtain ⟨⟨code, table⟩, hregister, h⟩ := except_bind.mp h
  have hself : Function.update w.attr a attr a = attr := Function.update_self ..
  have haddr : attr.stackAddr ≠ 0 := by
    have hne : ((w.attr a).revise k.stack).1 ≠ 0 := by
      rw [hrevise]
      exact hstack
    have hset := revise_addr hne
    rwa [hrevise] at hset
  have hcode : code = erNormal := by
    refine registerNewThread_retval hregister hfree ?_ ?_
    · simpa [newThread, Threads.kzalloc, Threads.setAttr] using haddr
    · simp [newThread]
  have hnotneg : ¬ code < 0 := by
    rw [hcode]
    decide
  dsimp only at h
  rw [if_neg hnotneg] at h
  cases ptrId with
  | none =>
    cases h
    exact absurd hret (by decide)
  | some id =>
    cases h
    exact absurd hret (by decide)

/-- The attribute object is cleared at `fail3`, and the stack it names is freed. -/
theorem createFail3_spec (w : Threads) (sprtAttr : Option Nat) (a : Nat) :
    (createFail3 w sprtAttr a).2.table = w.table ∧
      (createFail3 w sprtAttr a).2.attr = Function.update w.attr a .zero ∧
      (createFail3 w sprtAttr a).2.blocks =
        (let blocks := if (w.attr a).ptrStackStart ≠ 0 then w.blocks.erase (w.attr a).ptrStackStart
          else w.blocks
        if sprtAttr.any isValid then blocks else blocks.erase a) := by
  simp only [createFail3, createFail2, Threads.attrDestroy]
  refine ⟨?_, ?_, ?_⟩
  all_goals
    split
    all_goals split
    all_goals rfl

/-- There is no tid left for the thread. -/
def NoTid (s : SchedulerTable) (base : Int) (flags : Nat) : Prop :=
  getUnusedTidFromScheduler s (tidRange base flags).1 (tidRange base flags).2 < 0

instance (s : SchedulerTable) (base : Int) (flags : Nat) : Decidable (NoTid s base flags) :=
  inferInstanceAs (Decidable (_ < _))

/-- The tid that is found. -/
def foundTid (s : SchedulerTable) (base : Int) (flags : Nat) : Nat :=
  (getUnusedTidFromScheduler s (tidRange base flags).1 (tidRange base flags).2).toNat

theorem foundTid_free {s : SchedulerTable} (h : ¬ NoTid s base flags) :
    s.sprtTidArray (foundTid s base flags) = none := unusedTidFrom_free rfl h

theorem create_noTid (h : NoTid w.table base flags) :
    __realThreadCreate configRollPoll rounds k w ptrId base sprtAttr startRoutine ptrArgs flags =
      .ok (-erFault, w) := if_pos h

theorem create_some (h : ¬ NoTid w.table base flags) :
    __realThreadCreate configRollPoll rounds k w ptrId base (some a) startRoutine ptrArgs flags =
      createWith configRollPoll rounds k w ptrId (some a) (foundTid w.table base flags) a startRoutine
        ptrArgs := if_neg h

/-- The state in which `real_thread_attr_init` leaves things. -/
def afterInit (k : Kzalloc) (w : Threads) : Threads :=
  ((w.kzalloc k.attr).kzalloc k.stack).setAttr k.attr (ThreadAttr.init k.stack).2

theorem create_none (h : ¬ NoTid w.table base flags) :
    __realThreadCreate configRollPoll rounds k w ptrId base none startRoutine ptrArgs flags =
      if isValid k.attr = false then .ok (-erFault, w)
      else if (ThreadAttr.init k.stack).1 = 0 then .ok (createFail2 (afterInit k w) none k.attr)
      else createWith configRollPoll rounds k (afterInit k w) ptrId none (foundTid w.table base flags)
        k.attr startRoutine ptrArgs := if_neg h

/-- A creation that fails leaves the table as it was, has freed every block it has allocated and no
other, and has not written to the attribute object of its caller. -/
structure LeavesClean (w w' : Threads) (sprtAttr : Option Nat) : Prop where
  table : w'.table = w.table
  blocks : w'.blocks = w.blocks
  attr : ∀ a, sprtAttr = some a → w'.attr a = w.attr a

/-- Without attributes of the caller, everything is undone. -/
theorem create_own (h : __realThreadCreate configRollPoll rounds k w ptrId base none startRoutine
      ptrArgs flags = .ok (retval, w')) (hret : retval < 0) (htid : ¬ NoTid w.table base flags) :
    LeavesClean w w' none := by
  rw [create_none htid] at h
  split at h
  · cases h
    exact ⟨rfl, rfl, nofun⟩
  rename_i hattr
  have hvalid : isValid k.attr = true := by simpa using hattr
  obtain ⟨hfails, hgood⟩ := init_spec k.stack
  split at h
  · -- no memory for a stack: the label `fail2`
    rename_i hnostack
    cases h
    have hnone := hfails.mp hnostack
    refine ⟨rfl, ?_, nofun⟩
    simp [afterInit, Threads.kzalloc, Threads.kfree, Threads.setAttr, hnone, hvalid]
  · -- no memory for a thread: the label `fail3`
    rename_i hstack
    have hvalidStack : isValid k.stack = true := by
      rw [← Bool.not_eq_false, ← hfails]
      exact hstack
    obtain ⟨hstart, haddr⟩ := hgood hvalidStack
    have hne : k.stack ≠ 0 := by
      have := (isValid_iff.mp hvalidStack).1
      omega
    have hself : (afterInit k w).attr k.attr = (ThreadAttr.init k.stack).2 :=
      Function.update_self ..
    have hblocks₁ : (afterInit k w).blocks = k.stack :: k.attr :: w.blocks := by
      simp [afterInit, Threads.kzalloc, Threads.setAttr, hvalid, hvalidStack]
    obtain ⟨hkeeps, -⟩ := revise_stack haddr k.stack
    obtain rfl := createWith_failed h hret (foundTid_free htid)
    obtain ⟨htable, -, hblocks⟩ := createFail3_spec
      (((afterInit k w).reviseStack k.attr k.stack).setAttr k.attr
        (((afterInit k w).attr k.attr).revise k.stack).2) none k.attr
    refine ⟨htable, ?_, nofun⟩
    rw [hblocks]
    simp [Threads.reviseStack, Threads.setAttr, hself, hkeeps, hstart, haddr, hne, hblocks₁]

/-- With attributes of the caller, the attribute object ends up cleared. -/
theorem create_given (h : __realThreadCreate configRollPoll rounds k w ptrId base (some a)
      startRoutine ptrArgs flags = .ok (retval, w')) (hret : retval < 0) (hvalid : isValid a = true)
    (htid : ¬ NoTid w.table base flags) :
    w'.table = w.table ∧ w'.attr a = .zero ∧ (w.attr a = .zero → w'.blocks = w.blocks) := by
  rw [create_some htid] at h
  obtain rfl := createWith_failed h hret (foundTid_free htid)
  obtain ⟨htable, hattr, hblocks⟩ := createFail3_spec
    ((w.reviseStack a k.stack).setAttr a ((w.attr a).revise k.stack).2) (some a) a
  refine ⟨htable, by rw [hattr, Function.update_self], fun hzero => ?_⟩
  have hnone : (ThreadAttr.zero).stackAddr = 0 := rfl
  obtain ⟨hstart, -⟩ := revise_noStack hnone k.stack
  rw [hblocks]
  -- the stack that has been allocated is the one that is freed
  cases hstack : isValid k.stack with
  | false =>
    have hstart' : (ThreadAttr.zero.revise k.stack).2.ptrStackStart = 0 := by
      rw [hstart, hstack]
      rfl
    simp [Threads.reviseStack, Threads.setAttr, Threads.kzalloc, hzero, hstart', hnone, hstack,
      hvalid]
  | true =>
    have hne : k.stack ≠ 0 := by
      have := (isValid_iff.mp hstack).1
      omega
    have hstart' : (ThreadAttr.zero.revise k.stack).2.ptrStackStart = k.stack := by
      rw [hstart, hstack]
      rfl
    simp [Threads.reviseStack, Threads.setAttr, Threads.kzalloc, hzero, hstart', hnone, hstack, hne,
      hvalid]

/-- **A creation that fails leaves things clean** exactly if its caller has given no attributes, or
there is no tid left, or the attributes are all zero. -/
theorem create_clean_iff (configRollPoll : Bool) (rounds : Nat) (k : Kzalloc) (w w' : Threads)
    (ptrId sprtAttr : Option Nat) (base : Int) (startRoutine ptrArgs flags : Nat) (retval : Int)
    (hvalid : ∀ a, sprtAttr = some a → isValid a = true)
    (hcall : __realThreadCreate configRollPoll rounds k w ptrId base sprtAttr startRoutine ptrArgs
      flags = .ok (retval, w')) (hret : retval < 0) :
    LeavesClean w w' sprtAttr ↔
      ∀ a, sprtAttr = some a → NoTid w.table base flags ∨ w.attr a = .zero := by
  by_cases htid : NoTid w.table base flags
  · rw [create_noTid htid] at hcall
    cases hcall
    exact iff_of_true ⟨rfl, rfl, fun _ _ => rfl⟩ fun _ _ => .inl htid
  · cases sprtAttr with
    | none => exact iff_of_true (create_own hcall hret htid) nofun
    | some a =>
      obtain ⟨htable, hattr, hblocks⟩ := create_given hcall hret (hvalid a rfl) htid
      constructor
      · rintro hclean a' heq
        cases heq
        exact .inr ((hclean.attr a rfl).symm.trans hattr)
      · intro h
        have hzero := (h a rfl).resolve_left htid
        refine ⟨htable, hblocks hzero, fun a' heq => ?_⟩
        cases heq
        rw [hattr, hzero]

end Creation

/-- A table without threads, and attributes at `0x8a000`, which have been allocated with the blocks
`blocks`. -/
def givenAttr (attr : ThreadAttr) (blocks : List Nat) : Threads where
  table := sgrtRealThreadTabs
  attr := fun _ => attr
  creation := fun _ => ⟨0, 0, 0⟩
  ids := fun _ => 0
  blocks

/-- Memory for a stack but none for a thread object, and attributes that are all zero. -/
theorem create_clean_iff_zero :
    ∃ w', __realThreadCreate false 200 ⟨0, 0x8c000, 0⟩ (givenAttr .zero [0x8a000]) none 1
        (some 0x8a000) 0x100 0 0 = .ok (-erFault, w') ∧
      (LeavesClean (givenAttr .zero [0x8a000]) w' (some 0x8a000) ↔
        ∀ a, some 0x8a000 = some a → NoTid (givenAttr .zero [0x8a000]).table 1 0 ∨
          (givenAttr .zero [0x8a000]).attr a = .zero) :=
  ⟨_, rfl, create_clean_iff false 200 ⟨0, 0x8c000, 0⟩ (givenAttr .zero [0x8a000]) _ none
    (some 0x8a000) 1 0x100 0 0 (-erFault) (by rintro a ⟨⟩; decide) rfl (by decide)⟩

/-- Attributes of priority 5 with a stack that their creator has allocated. -/
def ownStackAttr : ThreadAttr := (ThreadAttr.zero.setStack 0x20000 0x20000 4096).2.setPriority 5

/-- Without memory for a thread object, the creator's attributes are cleared and its stack is
freed. -/
theorem creator_stack_freed :
    ∃ w', __realThreadCreate false 200 ⟨0, 0, 0⟩ (givenAttr ownStackAttr [0x8a000, 0x20000]) none 1
        (some 0x8a000) 0x100 0 0 = .ok (-erFault, w') ∧ w'.blocks = [0x8a000] ∧
      w'.attr 0x8a000 = .zero ∧
      ¬ LeavesClean (givenAttr ownStackAttr [0x8a000, 0x20000]) w' (some 0x8a000) := by
  refine ⟨_, rfl, by decide, by decide, fun hclean => ?_⟩
  exact absurd hclean.blocks (by decide)

end HeavenFox.Kernel
