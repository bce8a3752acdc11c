/-
# HeavenFox.Kernel.Mutex -- mutual exclusion locks

`mutex.c`: the counter is zero while the lock is free.  `mutex_lock` and
`mutex_try_lock` test it and increment it in a second step, `mutex_unlock` tests
it and decrements it, and the tick may switch threads between any two of these
steps.  The machine of `Logic.GuardedCounter` runs the calls for any number of
threads.

A thread holds the lock from the increment of its lock call to the return of its
unlock call.  `one_holder` says for which interleavings at most one thread ever
does: those in which no increment meets a counter that is not zero any more.
-/
import HeavenFox.Common.AtomicTypes
import HeavenFox.Common.ErrorTypes
import HeavenFox.Logic.GuardedCounter
import HeavenFox.Logic.Run

namespace HeavenFox.Kernel

open HeavenFox.Common HeavenFox.Logic

/-! ## The calls -/

/-- `mutex_is_locked`. -/
def mutexIsLocked (counter : Nat) : Bool := decide (atomicRead counter ≠ 0)

/-- `mutex_lock`: wait while the lock is taken, then take it. -/
def mutexLock : Guarded where
  forbid := none
  stop := mutexIsLocked
  onStop := .again
  change := atomicInc
  retval := none

/-- `mutex_try_lock`: take the lock, or report that it is taken. -/
def mutexTryLock : Guarded where
  forbid := some (-erForbid)
  stop := mutexIsLocked
  onStop := .leave (some (-erBusy))
  change := atomicInc
  retval := some erNormal

/-- `mutex_unlock`: return at once if the lock is free, else release it. -/
def mutexUnlock : Guarded where
  forbid := none
  stop := fun counter => !mutexIsLocked counter
  onStop := .leave none
  change := atomicDec
  retval := none

/-- The functions of `mutex.c` a thread can call. -/
inductive MutexCall where
  | lock
  | tryLock
  | unlock
  deriving DecidableEq, Repr

namespace MutexCall

/-- The code of a call. -/
def code : MutexCall → Guarded
  | .lock => mutexLock
  | .tryLock => mutexTryLock
  | .unlock => mutexUnlock

/-- What a call is for. -/
def kind : MutexCall → Kind
  | .lock => .take
  | .tryLock => .take
  | .unlock => .give

end MutexCall

/-! ## Runs -/

variable {τ : Type} [DecidableEq τ]

/-- A lock and the threads that use it. -/
abbrev MutexState (τ : Type) := GState τ MutexCall

/-- `mutex_init`: the lock is free, before any thread uses it. -/
def mutexInit : MutexState τ := .start (atomicSet 0)

/-- One step of one thread.  Only a holder starts to unlock. -/
def mutexStep : MutexState τ → Move τ MutexCall → Option (MutexState τ) :=
  GState.step MutexCall.code MutexCall.kind

/-- At most one thread is between its lock and its unlock, and the counter is at most 1. -/
def Exclusive (s : MutexState τ) : Prop :=
  (∀ t ∈ s.held, ∀ u ∈ s.held, t = u) ∧ s.counter ≤ 1

/-- A step in which no thread increments a counter that is not zero. -/
def MutexStepFits (s : MutexState τ) : Move τ MutexCall → Prop
  | .call _ _ => True
  | .next t => s.pc t = .change .lock ∨ s.pc t = .change .tryLock → s.counter = 0

instance : DecidablePred (Exclusive : MutexState τ → Prop) :=
  fun _ => inferInstanceAs (Decidable (_ ∧ _))

instance (s : MutexState τ) : ∀ i, Decidable (MutexStepFits s i)
  | .call _ _ => isTrue trivial
  | .next _ => inferInstanceAs (Decidable (_ → _))

/-! ## Calls that nobody interrupts -/

theorem mutexLock_alone_zero : mutexLock.alone 0 = some (1, none) := by decide

theorem mutexUnlock_alone_one : mutexUnlock.alone 1 = some (0, none) := by decide

/-- A thread that finds the lock free and is not interrupted has it after its call. -/
theorem mutexLock_uninterrupted {s : MutexState τ} {t : τ} (hout : s.pc t = .out)
    (hfree : s.counter = 0) :
    ∃ moves s', exec mutexStep s (.call (some t) .lock :: moves) = some s' ∧
      s'.counter = 1 ∧ s'.pc t = .out := by
  have halone : MutexCall.lock.code.alone s.counter = some (1, none) := by
    rw [hfree]
    exact mutexLock_alone_zero
  obtain ⟨moves, s', hrun, hcounter, hpc, -⟩ := GState.exec_alone hout
    (fun hk => absurd hk (by decide : MutexCall.lock.kind ≠ .give)) halone
  exact ⟨moves, s', hrun, hcounter, hpc⟩

/-- A holder that is not interrupted frees the lock. -/
theorem mutexUnlock_uninterrupted {s : MutexState τ} {t : τ} (hout : s.pc t = .out)
    (hheld : t ∈ s.held) (htaken : s.counter = 1) :
    ∃ moves s', exec mutexStep s (.call (some t) .unlock :: moves) = some s' ∧
      s'.counter = 0 ∧ s'.pc t = .out := by
  have halone : MutexCall.unlock.code.alone s.counter = some (0, none) := by
    rw [htaken]
    exact mutexUnlock_alone_one
  obtain ⟨moves, s', hrun, hcounter, hpc, -⟩ := GState.exec_alone hout (fun _ => hheld) halone
  exact ⟨moves, s', hrun, hcounter, hpc⟩

/-! ## Mutual exclusion -/

theorem mutexIsLocked_iff {counter : Nat} : mutexIsLocked counter = true ↔ counter ≠ 0 :=
  decide_eq_true_iff

theorem MutexCall.stop_of_take {f : MutexCall} (hk : f.kind = .take) (counter : Nat) :
    f.code.stop counter = mutexIsLocked counter := by
  cases f with
  | lock => rfl
  | tryLock => rfl
  | unlock => cases hk

theorem MutexCall.change_of_take {f : MutexCall} (hk : f.kind = .take) :
    f.code.change = atomicInc := by
  cases f with
  | lock => rfl
  | tryLock => rfl
  | unlock => cases hk

theorem MutexCall.eq_unlock {f : MutexCall} (hk : f.kind = .give) : f = .unlock := by
  cases f with
  | lock => cases hk
  | tryLock => cases hk
  | unlock => rfl

/-- The counter stands at the number of holders, and there is at most one. -/
theorem mutex_lawful : GState.Lawful MutexCall.code MutexCall.kind (fun n => n) 1 where
  full := by
    intro f n hk hn
    rw [MutexCall.stop_of_take hk, mutexIsLocked_iff]
    omega
  take := by
    intro f n hk hn
    rw [MutexCall.change_of_take hk, atomicInc_of_lt (by omega)]
  give := by
    intro f n hk hn
    rw [MutexCall.eq_unlock hk]
    show atomicDec (n + 1) = n
    rw [atomicDec_of_pos (by omega) (by omega)]
    omega

/-- The lock's counter is the number of its holders. -/
abbrev MutexInStep (s : MutexState τ) : Prop :=
  GState.InStep MutexCall.kind (fun n => n) 1 s

omit [DecidableEq τ] in
/-- The test of `mutex_unlock` never stops a holder, so only increments can miss. -/
theorem fits_of_mutexStepFits {s : MutexState τ} {i : Move τ MutexCall} (hs : MutexInStep s)
    (h : MutexStepFits s i) : GState.Fits MutexCall.code MutexCall.kind s i := by
  rintro t rfl
  refine ⟨fun f hpc hk => ?_, fun f hpc hk => ?_⟩
  · rw [MutexCall.stop_of_take hk, Bool.eq_false_iff, Ne, mutexIsLocked_iff, not_not]
    cases f with
    | lock => exact h (Or.inl hpc)
    | tryLock => exact h (Or.inr hpc)
    | unlock => cases hk
  · have hmem : t ∈ s.held := hs.holds t f (Or.inl hpc) hk
    have hpos : 0 < s.held.length := List.length_pos_of_mem hmem
    have hcounter : s.counter ≠ 0 := by
      rw [hs.shown]
      omega
    obtain rfl := MutexCall.eq_unlock hk
    simp [MutexCall.code, mutexUnlock, mutexIsLocked_iff, hcounter]

omit [DecidableEq τ] in
theorem exclusive_of_inStep {s : MutexState τ} (hs : MutexInStep s) : Exclusive s := by
  have hbound := hs.bound
  refine ⟨fun t ht u hu => ?_, by rw [hs.shown]; exact hbound⟩
  match hheld : s.held with
  | [] => simp [hheld] at ht
  | [v] =>
    rw [hheld, List.mem_singleton] at ht hu
    rw [ht, hu]
  | _ :: _ :: _ => simp [hheld] at hbound

/-- An increment that comes too late counts a second holder. -/
theorem not_exclusive_of_miss {s s' : MutexState τ} {i : Move τ MutexCall} (hs : MutexInStep s)
    (hmiss : ¬ MutexStepFits s i) (h : mutexStep s i = some s') : ¬ Exclusive s' := by
  cases i with
  | call current f => exact absurd trivial hmiss
  | next t =>
    obtain ⟨hpc, hcounter⟩ := Classical.not_imp.mp hmiss
    obtain ⟨f, hpc, hk⟩ : ∃ f, s.pc t = .change f ∧ f.kind = .take := by
      rcases hpc with hpc | hpc
      · exact ⟨_, hpc, rfl⟩
      · exact ⟨_, hpc, rfl⟩
    have hstop : f.code.stop s.counter = true := by
      rw [MutexCall.stop_of_take hk, mutexIsLocked_iff]
      exact hcounter
    obtain ⟨htwo, -⟩ := GState.take_miss mutex_lawful hs hpc hk hstop h
    rw [MutexCall.change_of_take hk, atomicInc_of_lt (by decide)] at htwo
    rintro ⟨-, hone⟩
    omega

/-- **Mutual exclusion, exactly.**  For any number of threads and every interleaving of their
steps in which only holders unlock: at most one thread is between its lock and its unlock, and the
counter is at most 1, in every state of the run if and only if every increment in it is made while
the counter is zero. -/
theorem one_holder {s : MutexState τ} {moves : List (Move τ MutexCall)}
    (hrun : exec mutexStep mutexInit moves = some s) :
    Always mutexStep Exclusive mutexInit moves ↔
      Meets mutexStep MutexStepFits mutexInit moves := by
  have hstart : MutexInStep (mutexInit : MutexState τ) := GState.inStep_start rfl
  have hpres : ∀ (a : MutexState τ) i b, MutexInStep a → MutexStepFits a i →
      mutexStep a i = some b → MutexInStep b :=
    fun a i b ha hfit hstep => ha.step mutex_lawful (fits_of_mutexStepFits ha hfit) hstep
  refine always_iff_meets hpres ?_ ?_ hstart hrun
  · intro a ha
    exact exclusive_of_inStep ha
  · intro a i b ha hmiss hstep
    exact not_exclusive_of_miss ha hmiss hstep

/-- The second thread is still at its test when the first unlocks. -/
theorem one_holder_handover :
    (exec mutexStep mutexInit [.call (some true) .lock, .next true, .next true,
        .call (some false) .lock, .next false, .call (some true) .unlock, .next true, .next true,
        .next false, .next false]).isSome = true ∧
      Always mutexStep Exclusive mutexInit [.call (some true) .lock, .next true, .next true,
        .call (some false) .lock, .next false, .call (some true) .unlock, .next true, .next true,
        .next false, .next false] := by
  have hrun : (exec mutexStep mutexInit [.call (some true) .lock, .next true, .next true,
      .call (some false) .lock, .next false, .call (some true) .unlock, .next true, .next true,
      .next false, .next false]).isSome = true := by decide +kernel
  obtain ⟨s, hs⟩ := Option.isSome_iff_exists.mp hrun
  exact ⟨hrun, (one_holder hs).mpr (by decide +kernel)⟩

/-- Both threads pass the test before either increments. -/
theorem two_holders :
    ∃ s : MutexState Bool, exec mutexStep mutexInit [.call (some true) .lock, .next true,
      .call (some false) .lock, .next false, .next true, .next false] = some s ∧
      s.held = [false, true] ∧ s.counter = 2 ∧ ¬ Exclusive s :=
  ⟨_, rfl, by decide +kernel, by decide +kernel, by decide +kernel⟩

end HeavenFox.Kernel
