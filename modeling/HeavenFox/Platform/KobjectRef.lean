/-
# HeavenFox.Platform.KobjectRef -- the references to a kobject

`fwk_kobj.h` and `fwk_kobject.c`: an atomic counter in every kobject, which is incremented by
`fwk_kobject_get` and, unless it is 0, decremented by `fwk_kobject_put`.

The counter is the number of references, as long as that is a word (`kobjectRef_counts`).  But
`fwk_kref_is_zero` tells whether it is not zero, and `fwk_kobject_is_referrd` negates that; so an
object counts as used exactly if nobody refers to it (`kobjectRef_inverted`).
-/
import HeavenFox.Common.AtomicTypes
import HeavenFox.Platform.Kobject

namespace HeavenFox.Platform

open HeavenFox.Common HeavenFox.Logic

/-! ## The counter -/

/-- `fwk_kref_init`. -/
def fwkKrefInit : Nat := atomicSet 0

/-- `fwk_kref_get`. -/
def fwkKrefGet (kref : Nat) : Nat := atomicInc kref

/-- `fwk_kref_put`. -/
def fwkKrefPut (kref : Nat) : Nat := if atomicRead kref ≠ 0 then atomicDec kref else kref

/-- `fwk_kref_is_zero`: the counter, made a truth value by `!!`. -/
def fwkKrefIsZero (kref : Nat) : Bool := !!decide (atomicRead kref ≠ 0)

/-- A kobject with its counter `sgrt_ref`. -/
structure CountedKobject extends FwkKobject where
  sgrtRef : Nat
  deriving DecidableEq, Repr

/-- `fwk_kobject_init`; the link and the lock are left out. -/
def fwkKobjectInit (obj : CountedKobject) : CountedKobject :=
  { obj with sgrtRef := fwkKrefInit, isDir := false, sprtKset := none }

/-- `fwk_kobject_get`. -/
def fwkKobjectGet (obj : CountedKobject) : CountedKobject :=
  { obj with sgrtRef := fwkKrefGet obj.sgrtRef }

/-- `fwk_kobject_put`. -/
def fwkKobjectPut (obj : CountedKobject) : CountedKobject :=
  { obj with sgrtRef := fwkKrefPut obj.sgrtRef }

/-- `fwk_kobject_is_referrd`. -/
def fwkKobjectIsReferrd (obj : CountedKobject) : Bool := !fwkKrefIsZero obj.sgrtRef

/-! ## Runs -/

/-- A call that takes a reference or gives one back. -/
inductive RefCall where
  | get
  | put
  deriving DecidableEq, Repr

/-- A kobject, and how many calls of `get` no `put` has matched so far. -/
structure RefState where
  obj : CountedKobject
  held : Nat

/-- One call.  A `put` matches a `get` if there is one left. -/
def RefState.step (s : RefState) : RefCall → Option RefState
  | .get => some ⟨fwkKobjectGet s.obj, s.held + 1⟩
  | .put => some ⟨fwkKobjectPut s.obj, s.held - 1⟩

/-- After `fwk_kobject_init`. -/
def RefState.init (obj : CountedKobject) : RefState := ⟨fwkKobjectInit obj, 0⟩

/-- What is expected of the counter and of the query. -/
structure RefState.Expected (s : RefState) : Prop where
  counter : s.obj.sgrtRef = s.held
  referrd : fwkKobjectIsReferrd s.obj = true ↔ 0 < s.held

/-- The counter is the number of references, which is a word. -/
def RefState.Counts (s : RefState) : Prop := s.obj.sgrtRef = s.held ∧ s.held < 2 ^ 32

section Runs

variable {s t : RefState}

/-- **One call** keeps the count, unless it is a `get` that the word has no room for. -/
theorem RefState.step_counts {call : RefCall} (h : s.Counts)
    (hroom : call = .get → s.held + 1 < 2 ^ 32) (hstep : s.step call = some t) : t.Counts := by
  obtain ⟨hcounter, hword⟩ := h
  cases call with
  | get =>
    cases hstep
    have hlt := hroom rfl
    refine ⟨?_, hlt⟩
    show atomicInc s.obj.sgrtRef = s.held + 1
    rw [hcounter, atomicInc_of_lt hlt]
  | put =>
    cases hstep
    refine ⟨?_, Nat.lt_of_le_of_lt (Nat.sub_le _ _) hword⟩
    show (if s.obj.sgrtRef ≠ 0 then atomicDec s.obj.sgrtRef else s.obj.sgrtRef) = s.held - 1
    rw [hcounter]
    -- a put at zero changes nothing
    by_cases hzero : s.held = 0
    · rw [if_neg (not_not_intro hzero), hzero]
    · rw [if_pos hzero, atomicDec_of_pos (Nat.pos_of_ne_zero hzero) hword]

/-- **The counter** is the number of references in every state of a run in which no more than
`2 ^ 32 - 1` of them are held at once; so it never underflows. -/
theorem kobjectRef_counts (obj : CountedKobject) {calls : List RefCall}
    (hroom : Meets RefState.step (fun s call => call = .get → s.held + 1 < 2 ^ 32)
      (RefState.init obj) calls) :
    Always RefState.step RefState.Counts (RefState.init obj) calls :=
  always_of_meets (fun _ _ _ hs hc hstep => RefState.step_counts hs hc hstep)
    ⟨rfl, Nat.two_pow_pos 32⟩ hroom

theorem fwkKobjectIsReferrd_iff (obj : CountedKobject) :
    fwkKobjectIsReferrd obj = true ↔ obj.sgrtRef = 0 := by
  rw [fwkKobjectIsReferrd, fwkKrefIsZero, Bool.not_not, Bool.not_eq_true', decide_eq_false_iff_not,
    not_not]
  rfl

/-- A counter that is right makes the query wrong. -/
theorem RefState.not_expected (s : RefState) : ¬ s.Expected := by
  intro h
  have hreferrd := h.referrd
  rw [fwkKobjectIsReferrd_iff, h.counter] at hreferrd
  omega

/-- **The query** is true exactly for a counter of 0, so in no state of any run are the counter and
the query what is expected of them. -/
theorem kobjectRef_inverted (obj : CountedKobject) (calls : List RefCall) :
    (∃ s, exec RefState.step (RefState.init obj) calls = some s) ∧
      Always RefState.step
        (fun s => (fwkKobjectIsReferrd s.obj = true ↔ s.obj.sgrtRef = 0) ∧ ¬ s.Expected)
        (RefState.init obj) calls := by
  have hall : ∀ s : RefState,
      (fwkKobjectIsReferrd s.obj = true ↔ s.obj.sgrtRef = 0) ∧ ¬ s.Expected :=
    fun s => ⟨fwkKobjectIsReferrd_iff s.obj, s.not_expected⟩
  apply run_of_total
  · intro s call _
    cases call with
    | get => exact ⟨_, rfl, hall _⟩
    | put => exact ⟨_, rfl, hall _⟩
  · exact hall _

/-- A new object counts as used, and as unused when someone has taken a reference. -/
theorem kobjectRef_inverted_new :
    let obj := fwkKobjectInit ⟨⟨none, false, none, none⟩, 0⟩
    (fwkKobjectIsReferrd obj = true ∧ fwkKobjectIsReferrd (fwkKobjectGet obj) = false) ∧
      ¬ (RefState.init ⟨⟨none, false, none, none⟩, 0⟩).Expected :=
  ⟨by decide, RefState.not_expected _⟩

end Runs

end HeavenFox.Platform
