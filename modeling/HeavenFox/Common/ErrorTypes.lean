/-
# HeavenFox.Common.ErrorTypes -- error codes and error pointers

The codes of `enum __ERT_ERROR_CODE` (used with a minus sign by every function
that fails), the test for pointers that carry such a code, and the two ways in
which a call can fail to return at all.
-/
import HeavenFox.Logic.Memory32
import Mathlib.Order.Interval.Finset.Nat

namespace HeavenFox.Common

/-! ## Error codes -/

abbrev erNormal : Int := 0
abbrev erError : Int := 1
abbrev erPermit : Int := 3
abbrev erNomem : Int := 4
abbrev erUnvalid : Int := 5
abbrev erEmpty : Int := 6
abbrev erNullptr : Int := 7
abbrev erWildptr : Int := 8
abbrev erFault : Int := 9
abbrev erMore : Int := 10
abbrev erExisted : Int := 12
abbrev erNotfound : Int := 13
abbrev erUsed : Int := 14
abbrev erLocked : Int := 15
abbrev erForbid : Int := 16
abbrev erIoerr : Int := 17
abbrev erNready : Int := 19
abbrev erFaild : Int := 20
abbrev erTimeout : Int := 21
abbrev erNodev : Int := 22
abbrev erBusy : Int := 23
abbrev erCheckerr : Int := 24
abbrev erTrxerr : Int := 25
abbrev erSdataFaild : Int := 30
abbrev erRdataFaild : Int := 31
abbrev erStopFaild : Int := 32

/-! ## Pointers that carry a code

Addresses are 32 bits wide and the null pointer is address 0. -/

/-- The highest 4 KB (`0xfffff000` to `0xffffffff`) is kept for error codes. -/
def isErr (ptr : Nat) : Bool := decide (2 ^ 32 - 4 * 2 ^ 10 ≤ ptr)

/-- Neither null nor an error code. -/
def isValid (ptr : Nat) : Bool := decide (ptr ≠ 0) && !isErr ptr

theorem isValid_iff {ptr : Nat} : isValid ptr = true ↔ 0 < ptr ∧ ptr < 0xfffff000 := by
  simp only [isValid, isErr, Bool.and_eq_true, decide_eq_true_eq, Bool.not_eq_true',
    decide_eq_false_iff_not]
  omega

/-- The address of an object. -/
abbrev ObjPtr := { ptr : Nat // isValid ptr = true }

/-- There are fewer valid pointers than addresses. -/
theorem length_of_nodup_isValid {ptrs : List Nat} (h : ptrs.Nodup)
    (hvalid : ∀ p ∈ ptrs, isValid p = true) : ptrs.length < 2 ^ 32 - 4096 := by
  have hsub : ptrs.toFinset ⊆ Finset.Ico 1 0xfffff000 := by
    intro p hp
    have hp' := isValid_iff.mp (hvalid p (List.mem_toFinset.mp hp))
    exact Finset.mem_Ico.mpr ⟨hp'.1, hp'.2⟩
  have hcard := Finset.card_le_card hsub
  rw [List.toFinset_card_of_nodup h, Nat.card_Ico] at hcard
  omega

/-- There are fewer objects than addresses. -/
theorem ObjPtr.length_of_nodup {xs : List ObjPtr} (h : xs.Nodup) : xs.length < 2 ^ 32 - 4096 := by
  have hlen := length_of_nodup_isValid (h.map Subtype.val_injective) (by
    intro p hp
    obtain ⟨x, -, rfl⟩ := List.mem_map.mp hp
    exact x.2)
  rwa [List.length_map] at hlen

/-- `PTR_ERR`: the null pointer reads as out of memory. -/
def ptrErr (ptr : Nat) : Int := if ptr ≠ 0 then (ptr : Int).bmod (2 ^ 32) else -erNomem

/-! ## Calls that do not return -/

/-- Why a call does not return: it dereferences a pointer that names no object, or one of its loops
is not over after the number of rounds it was given. -/
inductive Stop where
  | fault
  | spins
  deriving DecidableEq, Repr

/-- A call that does not return has no result. -/
theorem not_returns {α : Type} {stop : Stop} : ¬ ∃ a : α, (.error stop : Except Stop α) = .ok a := by
  rintro ⟨a, ha⟩
  cases ha

/-- Given rounds enough for its loops, the call returns, with `b`. -/
def TerminatesWith {β : Type} (call : Nat → Except Stop β) (b : β) : Prop :=
  ∃ rounds₀, ∀ rounds ≥ rounds₀, call rounds = .ok b

theorem TerminatesWith.unique {β : Type} {call : Nat → Except Stop β} {b b' : β} (h : TerminatesWith call b)
    (h' : TerminatesWith call b') : b = b' := by
  obtain ⟨m, hm⟩ := h
  obtain ⟨n, hn⟩ := h'
  have heq := (hm (max m n) (Nat.le_max_left m n)).symm.trans (hn (max m n) (Nat.le_max_right m n))
  exact Except.ok.inj heq

/-- A call that makes one call and returns what `f` reads off its result. -/
theorem TerminatesWith.map {β γ : Type} {call : Nat → Except Stop β} {b : β} (f : β → γ)
    (h : TerminatesWith call b) :
    TerminatesWith (fun rounds => do
      let b ← call rounds
      .ok (f b)) (f b) := by
  obtain ⟨n, hn⟩ := h
  refine ⟨n, fun rounds hrounds => ?_⟩
  show (call rounds >>= fun b => .ok (f b)) = _
  rw [hn rounds hrounds]
  rfl

/-- A call that returns has returned from each call it made. -/
theorem except_bind {α β : Type} {x : Except Stop α} {f : α → Except Stop β} {b : β} :
    (x >>= f) = .ok b ↔ ∃ a, x = .ok a ∧ f a = .ok b := by
  cases x <;> simp [bind, Except.bind]

/-- Rounds given to a loop that only follows pointers.  Such a loop writes nothing, so one that has
not met its end after as many rounds as there are addresses has come back to an address it has been
at before, and never ends. -/
def walkRounds : Nat := 2 ^ 32

end HeavenFox.Common
