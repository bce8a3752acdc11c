/-
# HeavenFox.Kernel.Semaphore -- counting semaphores

`semaphore.c`: the counter is the number of free units.  The three calls test
the counter in one step and change it in another, so they are `Guarded` calls,
and the machine of `Logic.GuardedCounter` runs them for any number of threads
with a preemption possible before every step.

The law of a counting semaphore is that the counter and the units held always
add up to the initial value.  `counter_shows_units` says for which runs the code
keeps it: those in which no `atomic_dec` meets a counter that another thread has
brought to zero since the test, and in which `sema_up` is only ever called while
no unit is free.  (`sema_up` carries the guard of `mutex_unlock`; for a
semaphore, "not locked" means that units are free, not that nobody holds one.)
-/
import HeavenFox.Common.AtomicTypes
import HeavenFox.Common.ErrorTypes
import HeavenFox.Logic.GuardedCounter
import HeavenFox.Logic.Run

namespace HeavenFox.Kernel

open HeavenFox.Common HeavenFox.Logic

/-! ## The calls -/

/-- `sema_is_locked`: no unit is free. -/
def semaIsLocked (counter : Nat) : Bool := decide (0 = atomicRead counter)

/-- `sema_down`: wait while no unit is free, then take one. -/
def semaDown : Guarded where
  forbid := none
  stop := semaIsLocked
  onStop := .again
  change := atomicDec
  retval := none

/-- `sema_down_try_lock`: take a unit, or report that none is free. -/
def semaDownTryLock : Guarded where
  forbid := some (-erForbid)
  stop := semaIsLocked
  onStop := .leave (some (-erBusy))
  change := atomicDec
  retval := some erNormal

/-- `sema_up`: return at once if the semaphore is not locked, else add a unit. -/
def semaUp : Guarded where
  forbid := none
  stop := fun counter => !semaIsLocked counter
  onStop := .leave none
  change := atomicInc
  retval := none

/-- The functions of `semaphore.c` a thread can call. -/
inductive SemaCall where
  | down
  | downTryLock
  | up
  deriving DecidableEq, Repr

namespace SemaCall

/-- The code of a call. -/
def code : SemaCall → Guarded
  | .down => semaDown
  | .downTryLock => semaDownTryLock
  | .up => semaUp

/-- What a call is for. -/
def kind : SemaCall → Kind
  | .down => .take
  | .downTryLock => .take
  | .up => .give

end SemaCall

/-! ## Runs -/

variable {τ : Type} [DecidableEq τ]

/-- A semaphore and the threads that use it. -/
abbrev SemaState (τ : Type) := GState τ SemaCall

/-- `sema_init`: the semaphore starts with `val` free units, before any thread uses it. -/
def semaInit (val : Nat) : SemaState τ := .start (atomicSet val)

/-- One step of one thread. -/
def semaStep : SemaState τ → Move τ SemaCall → Option (SemaState τ) :=
  GState.step SemaCall.code SemaCall.kind

/-- The counter and the units held add up to the initial value. -/
def UnitsAddUp (val : Nat) (s : SemaState τ) : Prop := s.counter + s.held.length = val

/-- A `sema_up` that returns has made one more unit free. -/
def ReleaseFreesOne (s : SemaState τ) (i : Move τ SemaCall) : Prop :=
  ∀ t s', i = .next t → s.Inside t .up → semaStep s i = some s' → s'.pc t = .out →
    s'.counter = s.counter + 1

/-- A step in which no thread decrements a counter that is zero, and no thread finds units free
when it comes to give its own back. -/
def SemaStepFits (s : SemaState τ) : Move τ SemaCall → Prop
  | .call _ _ => True
  | .next t =>
    (s.pc t = .change .down ∨ s.pc t = .change .downTryLock → s.counter ≠ 0) ∧
    (s.pc t = .test .up → s.counter = 0)

instance (val : Nat) : DecidablePred (UnitsAddUp val : SemaState τ → Prop) :=
  fun s => inferInstanceAs (Decidable (s.counter + s.held.length = val))

instance (s : SemaState τ) : ∀ i, Decidable (SemaStepFits s i)
  | .call _ _ => isTrue trivial
  | .next _ => inferInstanceAs (Decidable (_ ∧ _))

/-! ## The counting law -/

theorem semaIsLocked_iff {counter : Nat} : semaIsLocked counter = true ↔ counter = 0 := by
  simp [semaIsLocked, atomicRead, eq_comm]

theorem SemaCall.stop_of_take {f : SemaCall} (hk : f.kind = .take) (counter : Nat) :
    f.code.stop counter = semaIsLocked counter := by
  cases f with
  | down => rfl
  | downTryLock => rfl
  | up => cases hk

theorem SemaCall.change_of_take {f : SemaCall} (hk : f.kind = .take) :
    f.code.change = atomicDec := by
  cases f with
  | down => rfl
  | downTryLock => rfl
  | up => cases hk

theorem SemaCall.eq_up {f : SemaCall} (hk : f.kind = .give) : f = .up := by
  cases f with
  | down => cases hk
  | downTryLock => cases hk
  | up => rfl

/-- The counter stands at the initial value less the units taken. -/
theorem sema_lawful {val : Nat} (h32 : val < 2 ^ 32) :
    GState.Lawful SemaCall.code SemaCall.kind (fun n => val - n) val where
  full := by
    intro f n hk hn
    rw [SemaCall.stop_of_take hk, semaIsLocked_iff]
    omega
  take := by
    intro f n hk hn
    rw [SemaCall.change_of_take hk, atomicDec_of_pos (by omega) (by omega)]
    omega
  give := by
    intro f n hk hn
    rw [SemaCall.eq_up hk]
    show atomicInc (val - (n + 1)) = val - n
    rw [atomicInc_of_lt (by omega)]
    omega

/-- The semaphore's counter shows its account. -/
abbrev SemaInStep (val : Nat) (s : SemaState τ) : Prop :=
  GState.InStep SemaCall.kind (fun n => val - n) val s

omit [DecidableEq τ] in
theorem fits_of_semaStepFits {s : SemaState τ} {i : Move τ SemaCall} (h : SemaStepFits s i) :
    GState.Fits SemaCall.code SemaCall.kind s i := by
  rintro t rfl
  obtain ⟨hdec, hup⟩ := h
  refine ⟨fun f hpc hk => ?_, fun f hpc hk => ?_⟩
  · rw [SemaCall.stop_of_take hk, Bool.eq_false_iff, Ne, semaIsLocked_iff]
    cases f with
    | down => exact hdec (Or.inl hpc)
    | downTryLock => exact hdec (Or.inr hpc)
    | up => cases hk
  · obtain rfl := SemaCall.eq_up hk
    simp [SemaCall.code, semaUp, semaIsLocked_iff, hup hpc]

/-- A step that does not fit breaks the sum: a late decrement wraps the counter around, and a
release that finds units free does not count. -/
theorem units_off_of_miss {val : Nat} {s s' : SemaState τ} {i : Move τ SemaCall}
    (h32 : val < 2 ^ 32) (hs : SemaInStep val s) (hmiss : ¬ SemaStepFits s i)
    (h : semaStep s i = some s') : ¬ UnitsAddUp val s' := by
  cases i with
  | call current f => exact absurd trivial hmiss
  | next t =>
    rcases not_and_or.mp hmiss with hdec | hup
    · obtain ⟨hpc, hzero⟩ := Classical.not_imp.mp hdec
      obtain ⟨f, hpc, hk⟩ : ∃ f, s.pc t = .change f ∧ f.kind = .take := by
        rcases hpc with hpc | hpc
        · exact ⟨_, hpc, rfl⟩
        · exact ⟨_, hpc, rfl⟩
      have hstop : f.code.stop s.counter = true := by
        rw [SemaCall.stop_of_take hk, semaIsLocked_iff]
        exact not_ne_iff.mp hzero
      obtain ⟨hcounter, hheld⟩ := GState.take_miss (sema_lawful h32) hs hpc hk hstop h
      rw [SemaCall.change_of_take hk, Nat.sub_self, atomicDec_zero] at hcounter
      unfold UnitsAddUp
      omega
    · obtain ⟨hpc, hfree⟩ := Classical.not_imp.mp hup
      have hstop : (SemaCall.code .up).stop s.counter = true := by
        simp [SemaCall.code, semaUp, Bool.eq_false_iff, semaIsLocked_iff, hfree]
      obtain ⟨hcounter, hheld⟩ := GState.give_miss hs hpc rfl hstop rfl h
      have hbound := hs.bound
      unfold UnitsAddUp
      omega

theorem releaseFreesOne_of_fits {val : Nat} {s : SemaState τ} {i : Move τ SemaCall}
    (h32 : val < 2 ^ 32) (hs : SemaInStep val s) (hfit : SemaStepFits s i) :
    ReleaseFreesOne s i := by
  rintro t s' rfl hin h hout
  rcases hin with hpc | hpc
  · -- the test lets the call pass, so it has not returned yet
    have hgo : (SemaCall.code .up).stop s.counter = false :=
      ((fits_of_semaStepFits hfit) t rfl).2 .up hpc rfl
    simp only [semaStep, GState.step, hpc, hgo, Bool.false_eq_true, if_false] at h
    cases h
    simp [GState.pass] at hout
  · have hmem : t ∈ s.held := hs.holds t .up (Or.inr hpc) rfl
    have hpos : 0 < s.held.length := List.length_pos_of_mem hmem
    have hbound := hs.bound
    have hshown := hs.shown
    simp only [semaStep, GState.step, hpc] at h
    cases h
    exact atomicInc_of_lt (by omega)

/-- **The counting law, exactly.**  For every initial value, any number of threads and every
interleaving of their steps: the counter and the units held add up to the initial value in every
state of the run, and every `sema_up` in it makes exactly one unit free, if and only if every step
of it fits. -/
theorem counter_shows_units {val : Nat} {s : SemaState τ} {moves : List (Move τ SemaCall)}
    (h32 : val < 2 ^ 32) (hrun : exec semaStep (semaInit val) moves = some s) :
    (Always semaStep (UnitsAddUp val) (semaInit val) moves ∧
        Meets semaStep ReleaseFreesOne (semaInit val) moves) ↔
      Meets semaStep SemaStepFits (semaInit val) moves := by
  have hstart : SemaInStep val (semaInit val : SemaState τ) :=
    GState.inStep_start (Nat.mod_eq_of_lt h32)
  have hpres : ∀ (a : SemaState τ) i b, SemaInStep val a → SemaStepFits a i →
      semaStep a i = some b → SemaInStep val b :=
    fun a i b ha hfit hstep => ha.step (sema_lawful h32) (fits_of_semaStepFits hfit) hstep
  have hlaw : Always semaStep (UnitsAddUp val) (semaInit val) moves ↔
      Meets semaStep SemaStepFits (semaInit val) moves := by
    refine always_iff_meets hpres ?_ ?_ hstart hrun
    · intro a ha
      have hbound := ha.bound
      have hshown := ha.shown
      unfold UnitsAddUp
      omega
    · intro a i b ha hmiss hstep
      exact units_off_of_miss h32 ha hmiss hstep
  constructor
  · rintro ⟨hsum, -⟩
    exact hlaw.mp hsum
  · intro hfits
    refine ⟨hlaw.mpr hfits, Meets.imp ?_ (meets_with_invariant hpres hstart hfits)⟩
    rintro a i ⟨ha, hfit⟩
    exact releaseFreesOne_of_fits h32 ha hfit

/-- Two threads take the only unit one after the other. -/
theorem counter_shows_units_handover :
    (1 < 2 ^ 32 ∧ (exec semaStep (semaInit 1) [.call (some true) .down, .next true, .next true,
        .call (some true) .up, .next true, .next true, .call (some false) .downTryLock,
        .next false, .next false]).isSome = true) ∧
      Always semaStep (UnitsAddUp 1) (semaInit 1) [.call (some true) .down, .next true,
        .next true, .call (some true) .up, .next true, .next true,
        .call (some false) .downTryLock, .next false, .next false] := by
  have hrun : (exec semaStep (semaInit 1) [.call (some true) .down, .next true, .next true,
      .call (some true) .up, .next true, .next true, .call (some false) .downTryLock,
      .next false, .next false]).isSome = true := by decide +kernel
  obtain ⟨s, hs⟩ := Option.isSome_iff_exists.mp hrun
  exact ⟨⟨by decide, hrun⟩, ((counter_shows_units (by decide) hs).mpr (by decide +kernel)).1⟩

/-- Two units, one thread: it takes one and gives it back, and one unit is gone. -/
theorem counter_loses_unit :
    ∃ s : SemaState Bool, exec semaStep (semaInit 2) [.call (some true) .down, .next true,
      .next true, .call (some true) .up, .next true] = some s ∧
      s.held = [] ∧ s.counter = 1 ∧ ¬ UnitsAddUp 2 s :=
  ⟨_, rfl, by decide +kernel, by decide +kernel, by decide +kernel⟩

end HeavenFox.Kernel
