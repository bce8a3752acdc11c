/-
# HeavenFox.Kernel.Spinlock -- spin locks that save the interrupt state

`spinlock.c` on one core.  A spin lock holds a counter, zero while the lock is free,
and a word `flag`, in which `spin_lock_irqsave` and `spin_try_lock_irqsave` keep the
CPSR they find.  Bit I of the CPSR masks interrupts while it is set.  Taking a lock
raises `g_sched_preempt_cnt`, releasing it lowers it again.

`spin_unlock_irqrestore` does not write the saved bit back: it enables interrupts
when the saved bit says that they were masked, and leaves them as they are when it
says that they were not.  So no sequence of locks and unlocks keeps the interrupt
state (`interrupt_state_kept_iff`), while the preemption counter comes back to where
it was (`preempt_cnt_restored`).
-/
import HeavenFox.Common.AtomicTypes
import HeavenFox.Common.ErrorTypes
import HeavenFox.Logic.Run
import Mathlib.Logic.Function.Basic

-- the source's own leading underscores are kept
set_option linter.style.nameCheck false

namespace HeavenFox.Kernel

open HeavenFox.Common HeavenFox.Logic

/-! ## Data -/

/-- `struct spin_lock`. -/
structure SpinLock where
  sgrtAtc : Nat
  flag : BitVec 32
  deriving DecidableEq, Repr

/-- The core: its status register, `g_sched_preempt_cnt`, and the locks by their addresses. -/
structure CpuState where
  cpsr : BitVec 32
  schedPreemptCnt : Nat
  locks : Nat → SpinLock

/-- `CPSR_BIT_I`: interrupts are masked while it is set. -/
def cpsrBitI : BitVec 32 := 1 <<< 7

/-- Whether a status word masks interrupts. -/
def irqMasked (cpsr : BitVec 32) : Bool := decide (cpsr &&& cpsrBitI ≠ 0)

/-! ## The processor and the preemption counter -/

/-- `__get_cpsr`. -/
def __getCpsr (s : CpuState) : BitVec 32 := s.cpsr

/-- `mrt_enable_cpu_irq`, `cpsie i`. -/
def mrtEnableCpuIrq (s : CpuState) : CpuState := { s with cpsr := s.cpsr &&& ~~~cpsrBitI }

/-- `mrt_disable_cpu_irq`, `cpsid i`. -/
def mrtDisableCpuIrq (s : CpuState) : CpuState := { s with cpsr := s.cpsr ||| cpsrBitI }

/-- `mrt_preempt_disable`; `CONFIG_PREEMPT_NESTING` is defined nowhere. -/
def mrtPreemptDisable (s : CpuState) : CpuState :=
  { s with schedPreemptCnt := add32 s.schedPreemptCnt 1 }

/-- `mrt_preempt_enable`: `COUNT_DEC` stops at zero. -/
def mrtPreemptEnable (s : CpuState) : CpuState :=
  { s with schedPreemptCnt := if s.schedPreemptCnt ≠ 0 then sub32 s.schedPreemptCnt 1 else 0 }

/-! ## Locks -/

/-- Write to a lock. -/
def CpuState.setLock (s : CpuState) (lock : Nat) (v : SpinLock) : CpuState :=
  { s with locks := Function.update s.locks lock v }

/-- `spin_is_locked`. -/
def spinIsLocked (s : CpuState) (lock : Nat) : Bool := decide (atomicRead (s.locks lock).sgrtAtc ≠ 0)

/-- `spin_lock`.  With one core nobody releases the lock while this call waits for it. -/
def spinLock (s : CpuState) (lock : Nat) : Except Stop CpuState :=
  if spinIsLocked s lock then .error .spins
  else
    let s := mrtPreemptDisable s
    .ok (s.setLock lock { s.locks lock with sgrtAtc := atomicInc (s.locks lock).sgrtAtc })

/-- `spin_unlock`. -/
def spinUnlock (s : CpuState) (lock : Nat) : CpuState :=
  if !spinIsLocked s lock then s
  else
    let s := s.setLock lock { s.locks lock with sgrtAtc := atomicDec (s.locks lock).sgrtAtc }
    mrtPreemptEnable s

/-- `spin_try_lock`. -/
def spinTryLock (s : CpuState) (lock : Nat) : Int × CpuState :=
  if spinIsLocked s lock then (-erLocked, s)
  else
    let s := mrtPreemptDisable s
    (erNormal, s.setLock lock { s.locks lock with sgrtAtc := atomicInc (s.locks lock).sgrtAtc })

/-- `spin_lock_irqsave`: the whole status word is saved. -/
def spinLockIrqsave (s : CpuState) (lock : Nat) : Except Stop CpuState := do
  let s ← spinLock s lock
  let s := s.setLock lock { s.locks lock with flag := __getCpsr s }
  pure (mrtDisableCpuIrq s)

/-- `spin_try_lock_irqsave`: only bit I of the status word is saved. -/
def spinTryLockIrqsave (s : CpuState) (lock : Nat) : Int × CpuState :=
  let (retval, s) := spinTryLock s lock
  if retval ≠ 0 then (-erLocked, s)
  else
    let s := s.setLock lock { s.locks lock with flag := __getCpsr s }
    let s := s.setLock lock { s.locks lock with flag := (s.locks lock).flag &&& cpsrBitI }
    (erNormal, mrtDisableCpuIrq s)

/-- `spin_unlock_irqrestore`. -/
def spinUnlockIrqrestore (s : CpuState) (lock : Nat) : CpuState :=
  if !spinIsLocked s lock then s
  else
    let s := spinUnlock s lock
    let s := if irqMasked (s.locks lock).flag then mrtEnableCpuIrq s else s
    s.setLock lock { s.locks lock with flag := 0 }

/-! ## Calls and sections -/

/-- The calls that save or restore the interrupt state. -/
inductive IrqCall where
  | lockIrqsave (lock : Nat)
  | tryLockIrqsave (lock : Nat)
  | unlockIrqrestore (lock : Nat)
  deriving DecidableEq, Repr

/-- One call.  A `spin_try_lock_irqsave` that does not get the lock is no step. -/
def irqStep (s : CpuState) : IrqCall → Option CpuState
  | .lockIrqsave lock =>
    match spinLockIrqsave s lock with
    | .ok s' => some s'
    | .error _ => none
  | .tryLockIrqsave lock =>
    match spinTryLockIrqsave s lock with
    | (retval, s') => if retval = erNormal then some s' else none
  | .unlockIrqrestore lock => some (spinUnlockIrqrestore s lock)

/-- Critical sections one after another, each with the sections inside it. -/
inductive Sections where
  | none
  | critical (attempt : Bool) (lock : Nat) (inner rest : Sections)
  deriving DecidableEq, Repr

/-- The call that starts a section. -/
def takeCall (attempt : Bool) (lock : Nat) : IrqCall :=
  if attempt then .tryLockIrqsave lock else .lockIrqsave lock

namespace Sections

/-- The properly nested sequence of calls: the lock taken last is released first. -/
def calls : Sections → List IrqCall
  | .none => []
  | .critical attempt lock inner rest =>
    takeCall attempt lock :: (inner.calls ++ .unlockIrqrestore lock :: rest.calls)

/-- The locks of the sections. -/
def locks : Sections → List Nat
  | .none => []
  | .critical _ lock inner rest => lock :: (inner.locks ++ rest.locks)

/-- How deep the sections are nested. -/
def depth : Sections → Nat
  | .none => 0
  | .critical _ _ inner rest => max (inner.depth + 1) rest.depth

end Sections

/-- By how much a call changes the number of locks held. -/
def IrqCall.delta : IrqCall → Int
  | .lockIrqsave _ => 1
  | .tryLockIrqsave _ => 1
  | .unlockIrqrestore _ => -1

/-- The number of locks held after some calls. -/
def held (calls : List IrqCall) : Int := (calls.map IrqCall.delta).sum

/-- **What callers rely on**: after every call of the sequence, interrupts are masked if a lock is
held, and else bit I and the preemption counter are what they were before the first call. -/
def InterruptStateKept (s : CpuState) (calls : List IrqCall) : Prop :=
  ∀ done t, done <+: calls → exec irqStep s done = some t →
    if held done = 0 then
      irqMasked t.cpsr = irqMasked s.cpsr ∧ t.schedPreemptCnt = s.schedPreemptCnt
    else irqMasked t.cpsr = true

/-! ## Bit I -/

theorem irqMasked_eq (cpsr : BitVec 32) : irqMasked cpsr = cpsr.getLsbD 7 := by
  have hbit : cpsrBitI = BitVec.twoPow 32 7 := by decide
  rw [irqMasked, hbit, BitVec.and_twoPow]
  cases cpsr.getLsbD 7 <;> decide

@[simp] theorem irqMasked_or (cpsr : BitVec 32) : irqMasked (cpsr ||| cpsrBitI) = true := by
  have hbit : cpsrBitI.getLsbD 7 = true := by decide
  rw [irqMasked_eq, BitVec.getLsbD_or, hbit, Bool.or_true]

@[simp] theorem irqMasked_and_not (cpsr : BitVec 32) :
    irqMasked (cpsr &&& ~~~cpsrBitI) = false := by
  have hbit : (~~~cpsrBitI).getLsbD 7 = false := by decide
  rw [irqMasked_eq, BitVec.getLsbD_and, hbit, Bool.and_false]

@[simp] theorem irqMasked_and (cpsr : BitVec 32) :
    irqMasked (cpsr &&& cpsrBitI) = irqMasked cpsr := by
  have hbit : cpsrBitI.getLsbD 7 = true := by decide
  rw [irqMasked_eq, irqMasked_eq, BitVec.getLsbD_and, hbit, Bool.and_true]

/-! ## One call -/

/-- What the two ways of taking a lock save of the status word. -/
def savedFlag (attempt : Bool) (cpsr : BitVec 32) : BitVec 32 :=
  if attempt then cpsr &&& cpsrBitI else cpsr

@[simp] theorem irqMasked_savedFlag (attempt : Bool) (cpsr : BitVec 32) :
    irqMasked (savedFlag attempt cpsr) = irqMasked cpsr := by
  cases attempt with
  | false => rfl
  | true => exact irqMasked_and cpsr

/-- The core after a free lock has been taken. -/
def CpuState.taken (s : CpuState) (attempt : Bool) (lock : Nat) : CpuState where
  cpsr := s.cpsr ||| cpsrBitI
  schedPreemptCnt := add32 s.schedPreemptCnt 1
  locks := Function.update s.locks lock ⟨1, savedFlag attempt s.cpsr⟩

/-- The core after a lock has been released: the saved bit decides whether interrupts are enabled. -/
def CpuState.released (s : CpuState) (lock : Nat) : CpuState where
  cpsr := if irqMasked (s.locks lock).flag then s.cpsr &&& ~~~cpsrBitI else s.cpsr
  schedPreemptCnt := if s.schedPreemptCnt ≠ 0 then sub32 s.schedPreemptCnt 1 else 0
  locks := Function.update s.locks lock ⟨0, 0⟩

variable {s t : CpuState} {attempt : Bool} {lock l : Nat} {inner rest secs : Sections}

@[simp] theorem taken_locks_self :
    (s.taken attempt lock).locks lock = ⟨1, savedFlag attempt s.cpsr⟩ := Function.update_self ..

theorem taken_locks_of_ne (h : l ≠ lock) : (s.taken attempt lock).locks l = s.locks l :=
  Function.update_of_ne h ..

theorem released_locks_of_ne (h : l ≠ lock) : (s.released lock).locks l = s.locks l :=
  Function.update_of_ne h ..

@[simp] theorem taken_irqMasked : irqMasked (s.taken attempt lock).cpsr = true :=
  irqMasked_or s.cpsr

/-- Releasing a lock at once leaves bit I the opposite of what it was. -/
theorem released_taken_irqMasked :
    irqMasked ((s.taken attempt lock).released lock).cpsr = !irqMasked s.cpsr := by
  cases hmasked : irqMasked s.cpsr <;> simp [CpuState.released, hmasked]

theorem irqStep_take (attempt : Bool) (hfree : (s.locks lock).sgrtAtc = 0) :
    irqStep s (takeCall attempt lock) = some (s.taken attempt lock) := by
  have hinc : atomicInc 0 = 1 := by decide
  cases attempt with
  | false =>
    simp [takeCall, irqStep, spinLockIrqsave, spinLock, spinIsLocked, atomicRead, hfree, hinc,
      mrtDisableCpuIrq, mrtPreemptDisable, CpuState.setLock, __getCpsr, CpuState.taken, savedFlag,
      bind, Except.bind, pure, Except.pure]
  | true =>
    simp [takeCall, irqStep, spinTryLockIrqsave, spinTryLock, spinIsLocked, atomicRead, hfree, hinc,
      mrtDisableCpuIrq, mrtPreemptDisable, CpuState.setLock, __getCpsr, CpuState.taken, savedFlag]

theorem irqStep_unlock (htaken : (s.locks lock).sgrtAtc = 1) :
    irqStep s (.unlockIrqrestore lock) = some (s.released lock) := by
  have hdec : atomicDec 1 = 0 := by decide
  cases hflag : irqMasked (s.locks lock).flag with
  | false =>
    simp [irqStep, spinUnlockIrqrestore, spinUnlock, spinIsLocked, atomicRead, htaken, hdec, hflag,
      mrtPreemptEnable, CpuState.setLock, CpuState.released]
  | true =>
    simp [irqStep, spinUnlockIrqrestore, spinUnlock, spinIsLocked, atomicRead, htaken, hdec, hflag,
      mrtEnableCpuIrq, mrtPreemptEnable, CpuState.setLock, CpuState.released]

/-- A section with none inside it. -/
theorem exec_section (attempt : Bool) (hfree : (s.locks lock).sgrtAtc = 0) :
    exec irqStep s [takeCall attempt lock, .unlockIrqrestore lock] =
      some ((s.taken attempt lock).released lock) := by
  have hunlock : irqStep (s.taken attempt lock) (.unlockIrqrestore lock) =
      some ((s.taken attempt lock).released lock) := irqStep_unlock (by rw [taken_locks_self])
  rw [exec_step (irqStep_take attempt hfree), exec_step hunlock]
  rfl

/-! ## Whole sequences -/

/-- The locks of the sections are pairwise different and free. -/
structure Unlocked (s : CpuState) (secs : Sections) : Prop where
  nodup : secs.locks.Nodup
  free : ∀ l ∈ secs.locks, (s.locks l).sgrtAtc = 0

namespace Unlocked

theorem head (h : Unlocked s (.critical attempt lock inner rest)) :
    (s.locks lock).sgrtAtc = 0 := h.free lock List.mem_cons_self

theorem parts (h : Unlocked s (.critical attempt lock inner rest)) :
    lock ∉ inner.locks ∧ lock ∉ rest.locks ∧ ∀ l ∈ inner.locks, l ∉ rest.locks := by
  have hnodup := h.nodup
  simp only [Sections.locks, List.nodup_cons, List.mem_append, not_or, List.nodup_append] at hnodup
  obtain ⟨⟨hinner, hrest⟩, -, -, hapart⟩ := hnodup
  exact ⟨hinner, hrest, fun l hl hl' => hapart l hl l hl' rfl⟩

/-- Once the lock is taken, the sections inside find theirs free. -/
theorem inside (h : Unlocked s (.critical attempt lock inner rest)) :
    Unlocked (s.taken attempt lock) inner := by
  have hnodup := h.nodup
  simp only [Sections.locks, List.nodup_cons, List.nodup_append] at hnodup
  refine ⟨hnodup.2.1, fun l hl => ?_⟩
  have hne : l ≠ lock := fun heq => h.parts.1 (heq ▸ hl)
  rw [taken_locks_of_ne hne]
  exact h.free l (List.mem_cons_of_mem _ (List.mem_append_left _ hl))

/-- The sections behind find theirs free in any state in which these locks are unchanged. -/
theorem behind (h : Unlocked s (.critical attempt lock inner rest))
    (hsame : ∀ l, l ∈ rest.locks → t.locks l = s.locks l) : Unlocked t rest := by
  have hnodup := h.nodup
  simp only [Sections.locks, List.nodup_cons, List.nodup_append] at hnodup
  refine ⟨hnodup.2.2.1, fun l hl => ?_⟩
  rw [hsame l hl]
  exact h.free l (List.mem_cons_of_mem _ (List.mem_append_right _ hl))

end Unlocked

/-- What a sequence with the sections `secs` leaves: the other locks are as they were, and so is the
preemption counter, if it did not wrap on the way. -/
structure Unwound (s t : CpuState) (secs : Sections) : Prop where
  locks : ∀ l, l ∉ secs.locks → t.locks l = s.locks l
  preemptCnt : s.schedPreemptCnt + secs.depth < 2 ^ 32 → t.schedPreemptCnt = s.schedPreemptCnt

theorem Unwound.section (hinner : Unwound (s.taken attempt lock) t inner)
    (hroom : s.schedPreemptCnt + (inner.depth + 1) < 2 ^ 32) :
    (t.released lock).schedPreemptCnt = s.schedPreemptCnt := by
  have hup : (s.taken attempt lock).schedPreemptCnt = s.schedPreemptCnt + 1 :=
    add32_of_lt (by omega)
  have hcnt : t.schedPreemptCnt = s.schedPreemptCnt + 1 := by
    rw [hinner.preemptCnt (by rw [hup]; omega), hup]
  show (if t.schedPreemptCnt ≠ 0 then sub32 t.schedPreemptCnt 1 else 0) = _
  rw [hcnt, if_pos (by omega), sub32_of_le (by omega) (by omega)]
  omega

/-- **Every call of a properly nested sequence returns.**  By induction on the sections: the lock is
taken, the sections inside run, the lock is released, and the sections behind run. -/
theorem sections_run (h : Unlocked s secs) :
    ∃ t, exec irqStep s secs.calls = some t ∧ Unwound s t secs := by
  induction secs generalizing s with
  | none => exact ⟨s, rfl, fun _ _ => rfl, fun _ => rfl⟩
  | critical attempt lock inner rest ihInner ihRest =>
    obtain ⟨hlockInner, hlockRest, hapart⟩ := h.parts
    obtain ⟨s₂, hrunInner, hinner⟩ := ihInner h.inside
    have hheld : (s₂.locks lock).sgrtAtc = 1 := by
      rw [hinner.locks lock hlockInner, taken_locks_self]
    have hother : ∀ l, l ≠ lock → l ∉ inner.locks → (s₂.released lock).locks l = s.locks l := by
      intro l hl hli
      rw [released_locks_of_ne hl, hinner.locks l hli, taken_locks_of_ne hl]
    have hrestFree : Unlocked (s₂.released lock) rest := by
      apply h.behind
      intro l hl
      have hne : l ≠ lock := fun heq => hlockRest (heq ▸ hl)
      exact hother l hne fun hli => hapart l hli hl
    obtain ⟨t, hrunRest, hrest⟩ := ihRest hrestFree
    refine ⟨t, ?_, ?_, ?_⟩
    · rw [Sections.calls, exec_step (irqStep_take attempt h.head), exec_append _ hrunInner,
        exec_step (irqStep_unlock hheld)]
      exact hrunRest
    · intro l hl
      simp only [Sections.locks, List.mem_cons, List.mem_append, not_or] at hl
      rw [hrest.locks l hl.2.2, hother l hl.1 hl.2.1]
    · intro hroom
      simp only [Sections.depth] at hroom
      have hdown : (s₂.released lock).schedPreemptCnt = s.schedPreemptCnt :=
        hinner.section (by omega)
      rw [hrest.preemptCnt (by rw [hdown]; omega), hdown]

/-- **The preemption counter is restored** by every properly nested sequence. -/
theorem preempt_cnt_restored (h : Unlocked s secs)
    (hroom : s.schedPreemptCnt + secs.depth < 2 ^ 32) (hrun : exec irqStep s secs.calls = some t) :
    t.schedPreemptCnt = s.schedPreemptCnt := by
  obtain ⟨t', hrun', hunwound⟩ := sections_run h
  obtain rfl : t' = t := Option.some.inj (hrun'.symm.trans hrun)
  exact hunwound.preemptCnt hroom

/-! ## The interrupt state -/

@[simp] theorem held_take (attempt : Bool) (lock : Nat) (calls : List IrqCall) :
    held (takeCall attempt lock :: calls) = 1 + held calls := by
  cases attempt <;> simp [held, takeCall, IrqCall.delta]

theorem held_section (attempt : Bool) (lock : Nat) :
    held [takeCall attempt lock, .unlockIrqrestore lock] = 0 := by
  rw [held_take]
  rfl

/-- Calls inside a section are a beginning of the whole sequence. -/
theorem prefix_inner {done : List IrqCall} (h : done <+: inner.calls) :
    takeCall attempt lock :: done <+: (Sections.critical attempt lock inner rest).calls :=
  List.cons_prefix_cons.mpr ⟨rfl, h.trans (List.prefix_append _ _)⟩

/-- With interrupts masked, the first release of a sequence enables them: its lock was taken with
bit I set. -/
theorem first_release_enables (h : Unlocked s secs) (hne : secs ≠ .none)
    (hmasked : irqMasked s.cpsr = true) :
    ∃ done t, done <+: secs.calls ∧ exec irqStep s done = some t ∧ 0 ≤ held done ∧
      irqMasked t.cpsr = false := by
  induction secs generalizing s with
  | none => exact absurd rfl hne
  | critical attempt lock inner rest ih _ =>
    by_cases hinner : inner = .none
    · subst hinner
      refine ⟨_, _, ⟨rest.calls, rfl⟩, exec_section attempt h.head, ?_, ?_⟩
      · rw [held_section]
      · rw [released_taken_irqMasked, hmasked]
        rfl
    · obtain ⟨done, t, hprefix, hrun, hheld, hon⟩ := ih h.inside hinner taken_irqMasked
      refine ⟨takeCall attempt lock :: done, t, prefix_inner hprefix, ?_, ?_, hon⟩
      · rw [exec_step (irqStep_take attempt h.head)]
        exact hrun
      · rw [held_take]
        omega

/-- **A sequence that takes a lock never keeps the interrupt state.**  A section with another one
inside it goes on with interrupts enabled after the first release; one with none inside leaves bit I
the opposite of what it found. -/
theorem interrupt_state_lost (h : Unlocked s (.critical attempt lock inner rest)) :
    ¬ InterruptStateKept s (Sections.critical attempt lock inner rest).calls := by
  intro hkept
  by_cases hinner : inner = .none
  · subst hinner
    have hafter := hkept _ _ ⟨rest.calls, rfl⟩ (exec_section attempt h.head)
    rw [if_pos (held_section attempt lock), released_taken_irqMasked] at hafter
    exact absurd hafter.1 (by simp)
  · obtain ⟨done, t, hprefix, hrun, hheld, hon⟩ :=
      first_release_enables h.inside hinner taken_irqMasked
    have hafter := hkept _ t (prefix_inner hprefix)
      (by
        rw [exec_step (irqStep_take attempt h.head)]
        exact hrun)
    rw [held_take, if_neg (by omega), hon] at hafter
    cases hafter

/-- **No properly nested sequence keeps the interrupt state**, except the empty one; every call of
it returns. -/
theorem interrupt_state_kept_iff (s : CpuState) (secs : Sections) (hnodup : secs.locks.Nodup)
    (hfree : ∀ l ∈ secs.locks, (s.locks l).sgrtAtc = 0) :
    (∃ t, exec irqStep s secs.calls = some t) ∧
      (InterruptStateKept s secs.calls ↔ secs.calls = []) := by
  have h : Unlocked s secs := ⟨hnodup, hfree⟩
  obtain ⟨t, hrun, -⟩ := sections_run h
  refine ⟨⟨t, hrun⟩, ?_⟩
  cases secs with
  | critical attempt lock inner rest =>
    constructor
    · intro hkept
      exact absurd hkept (interrupt_state_lost h)
    · intro hnil
      cases hnil
  | none =>
    constructor
    · intro _
      rfl
    · intro _ done t hprefix hdone
      obtain rfl : done = [] := List.prefix_nil.mp hprefix
      cases hdone
      exact ⟨rfl, rfl⟩

/-- A core in supervisor mode with interrupts enabled and all locks free. -/
def freshCpu : CpuState := ⟨0x13, 0, fun _ => ⟨0, 0⟩⟩

/-- Two locks, one inside the other. -/
def twoLocks : Sections := .critical false 0x89000 (.critical true 0x89008 .none .none) .none

theorem interrupt_state_kept_iff_two :
    (∃ t, exec irqStep freshCpu twoLocks.calls = some t) ∧
      (InterruptStateKept freshCpu twoLocks.calls ↔ twoLocks.calls = []) :=
  interrupt_state_kept_iff freshCpu twoLocks (by decide) (by decide)

/-- A lock taken and released with interrupts enabled: they stay masked. -/
theorem interrupts_stay_masked :
    (irqMasked freshCpu.cpsr = false ∧
      (exec irqStep freshCpu [.lockIrqsave 0x89000, .unlockIrqrestore 0x89000]).map
        (fun t => irqMasked t.cpsr) = some true) ∧
    ¬ InterruptStateKept freshCpu [.lockIrqsave 0x89000, .unlockIrqrestore 0x89000] := by
  have hfree : Unlocked freshCpu (.critical false 0x89000 .none .none) := ⟨by decide, by decide⟩
  exact ⟨by decide, interrupt_state_lost hfree⟩

end HeavenFox.Kernel
