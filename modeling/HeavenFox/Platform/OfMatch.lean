/-
# HeavenFox.Platform.OfMatch -- which nodes a driver is for

A node is available unless its status says otherwise, and a driver has a table of the
compatible strings it knows, each with some data.  `fwk_of_match_node` returns the first entry
that is one of the node's own strings.

`ReadableTree` is a tree whose compatible strings and states are strings.  On such a tree the
functions return (`fwkOfDeviceIsAvaliable_eq`, `fwkOfMatchNode_eq`), and what they return is a
matter of lists of strings.
-/
import HeavenFox.Platform.OfStrings

namespace HeavenFox.Platform

open HeavenFox.Logic HeavenFox.Common

/-! ## The functions -/

/-- `fwk_of_device_is_avaliable`. -/
def DeviceTree.fwkOfDeviceIsAvaliable (t : DeviceTree) (sprtNode : Option ObjPtr) : Except Stop Bool :=
  match (fwkOfGetProperty t sprtNode (cstring "status")).1 with
  | none => .ok true
  | some prop => do
    if ← prop.strcmp prop.value (cstring "ok") then pure true
    else if ← prop.strcmp prop.value (cstring "okay") then pure true
    else
      -- whatever else it says, it is not available
      let _ ← prop.strcmp prop.value (cstring "disabled")
      pure false

/-- A `struct fwk_of_device_id` whose `compatible` is a string. -/
structure OfDeviceId (δ : Type) where
  compatible : List UInt8
  data : Option δ
  zero : 0 ∉ compatible

variable {δ : Type}

/-- `fwk_of_match_node`.  The table ends at an entry without a string, so the list has those before
it; it is empty for no table. -/
def DeviceTree.fwkOfMatchNode (t : DeviceTree) (sprtNode : Option ObjPtr) :
    List (OfDeviceId δ) → Except Stop (Option (OfDeviceId δ))
  | [] => .ok none
  | sprtMatch :: rest => do
    if ← t.fwkOfDeviceIsCompatible sprtNode sprtMatch.compatible then pure (some sprtMatch)
    else t.fwkOfMatchNode sprtNode rest

/-- `fwk_of_node_try_matches`: what it returns, and `*sprt_match`.  Its loop is that of
`fwk_of_match_node`. -/
def DeviceTree.fwkOfNodeTryMatches (t : DeviceTree) (sprtNode : Option ObjPtr)
    (sprtMatches : List (OfDeviceId δ)) : Except Stop (Option ObjPtr × Option (OfDeviceId δ)) :=
  if sprtNode.isNone then .ok (none, none)
  else do
    match ← t.fwkOfMatchNode sprtNode sprtMatches with
    | none => pure (none, none)
    | some sprtMatch => pure (sprtNode, some sprtMatch)

/-! ## Trees with strings -/

/-- The compatible strings of every node are strings, and its status is one. -/
structure ReadableTree extends DeviceTree where
  compatible : ∀ n ∈ allNodes, ∀ prop,
    toDeviceTree.prop (some n) (cstring "compatible") = some prop → ∃ ss, prop.Strings ss
  status : ∀ n ∈ allNodes, ∀ prop,
    toDeviceTree.prop (some n) (cstring "status") = some prop → ∃ s, prop.Strings [s]

namespace DeviceTree

/-- The strings of a property. -/
def strings (t : DeviceTree) (n : ObjPtr) (name : List UInt8) : List (List UInt8) :=
  (t.prop (some n) name).elim [] fun prop => stringsIn prop.bytes

/-- The node says nothing of its state, or that it is good. -/
def available (t : DeviceTree) (n : ObjPtr) : Bool :=
  (t.strings n (cstring "status")).all fun s => s = cstring "ok" ∨ s = cstring "okay"

/-- The first entry of the table that the node is compatible with. -/
def matchOf (t : DeviceTree) (sprtMatches : List (OfDeviceId δ)) (n : ObjPtr) :
    Option (OfDeviceId δ) :=
  sprtMatches.find? fun sprtMatch => sprtMatch.compatible ∈ t.strings n (cstring "compatible")

theorem strings_eq {t : DeviceTree} {n : ObjPtr} {name : List UInt8} {prop : OfProperty}
    {ss : List (List UInt8)} (hprop : t.prop (some n) name = some prop) (h : prop.Strings ss) :
    t.strings n name = ss := by
  rw [strings, hprop, Option.elim_some, h.bytes, stringsIn_stringList h.zero]

theorem strings_none {t : DeviceTree} {n : ObjPtr} {name : List UInt8}
    (hprop : t.prop (some n) name = none) : t.strings n name = [] := by
  rw [strings, hprop, Option.elim_none]

end DeviceTree

variable {n : ObjPtr} {s : List UInt8}

/-- A node without the property is compatible with nothing. -/
theorem fwkOfDeviceIsCompatible_none {t : DeviceTree}
    (hprop : t.prop (some n) (cstring "compatible") = none) :
    t.fwkOfDeviceIsCompatible (some n) s = .ok false := by
  obtain ⟨rounds, hrounds⟩ : ∃ rounds, walkRounds = rounds + 1 := ⟨walkRounds - 1, rfl⟩
  have hfind : (fwkOfFindProperty t (some n) (cstring "compatible")).1 = none := hprop
  rw [DeviceTree.fwkOfDeviceIsCompatible, hrounds, compatibleLoop, fwkOfPropertyReadStringIndex,
    hfind]
  rfl

namespace ReadableTree

variable (t : ReadableTree)

/-- **`fwk_of_device_is_compatible`** looks the string up. -/
theorem fwkOfDeviceIsCompatible_eq (hn : n ∈ t.allNodes) (hs : 0 ∉ s) :
    t.fwkOfDeviceIsCompatible (some n) s =
      .ok (decide (s ∈ t.strings n (cstring "compatible"))) := by
  cases hprop : t.prop (some n) (cstring "compatible") with
  | none =>
    rw [fwkOfDeviceIsCompatible_none hprop, DeviceTree.strings_none hprop]
    rfl
  | some prop =>
    obtain ⟨ss, hss⟩ := t.compatible n hn prop hprop
    rw [Platform.fwkOfDeviceIsCompatible_eq hprop hss hs, DeviceTree.strings_eq hprop hss]

/-- **`fwk_of_match_node`** finds the first entry. -/
theorem fwkOfMatchNode_eq (hn : n ∈ t.allNodes) (sprtMatches : List (OfDeviceId δ)) :
    t.fwkOfMatchNode (some n) sprtMatches = .ok (t.matchOf sprtMatches n) := by
  induction sprtMatches with
  | nil => rfl
  | cons sprtMatch rest ih =>
    rw [DeviceTree.fwkOfMatchNode, t.fwkOfDeviceIsCompatible_eq hn sprtMatch.zero, DeviceTree.matchOf,
      List.find?_cons]
    by_cases hin : sprtMatch.compatible ∈ t.strings n (cstring "compatible")
    · simp only [hin, decide_true]
      rfl
    · simp only [hin, decide_false]
      exact ih

theorem fwkOfNodeTryMatches_eq (hn : n ∈ t.allNodes) (sprtMatches : List (OfDeviceId δ)) :
    t.fwkOfNodeTryMatches (some n) sprtMatches =
      .ok ((t.matchOf sprtMatches n).map fun _ => n, t.matchOf sprtMatches n) := by
  rw [DeviceTree.fwkOfNodeTryMatches, t.fwkOfMatchNode_eq hn]
  cases t.matchOf sprtMatches n with
  | none => rfl
  | some sprtMatch => rfl

/-- **`fwk_of_device_is_avaliable`** looks for the two good states. -/
theorem fwkOfDeviceIsAvaliable_eq (hn : n ∈ t.allNodes) :
    t.fwkOfDeviceIsAvaliable (some n) = .ok (t.available n) := by
  rw [DeviceTree.fwkOfDeviceIsAvaliable, fwkOfGetProperty]
  cases hprop : t.prop (some n) (cstring "status") with
  | none =>
    have hfind : (fwkOfFindProperty t.toDeviceTree (some n) (cstring "status")).1 = none := hprop
    rw [hfind, DeviceTree.available, DeviceTree.strings_none hprop]
    rfl
  | some prop =>
    have hfind : (fwkOfFindProperty t.toDeviceTree (some n) (cstring "status")).1 = some prop :=
      hprop
    obtain ⟨s, hs⟩ := t.status n hn prop hprop
    have hcmp : ∀ s', 0 ∉ s' → prop.strcmp prop.value s' = .ok (decide (s = s')) := by
      intro s' hs'
      have h := hs.strcmp (k := 0) rfl hs'
      rwa [stringOffset_zero, Nat.add_zero] at h
    rw [hfind, DeviceTree.available, DeviceTree.strings_eq hprop hs]
    simp only [hcmp (cstring "ok") (by decide), hcmp (cstring "okay") (by decide),
      hcmp (cstring "disabled") (by decide), bind, Except.bind, pure, Except.pure]
    by_cases hok : s = cstring "ok"
    · simp [hok]
    · by_cases hokay : s = cstring "okay"
      · simp [hokay]
      · simp [hok, hokay]

end ReadableTree

end HeavenFox.Platform
