/-
# HeavenFox.Drivers.ImxIomuxcProbe -- what the parse of the pins leaves

The parse comes to arrays and pins in the order of the device tree, and each of them may make it
fail.  `walk` says what comes of these steps, and the loops do what it says, one level above the
other: the pins of a group, the groups of a function, the functions.  What was built until then
owns every block that was handed out, so that taking it down releases each once.

The test of a pin number lets `npins` itself through, and there is no entry for it.
`pins_parsed_iff` says that nothing else goes out of bounds, but for a group whose pins need 32
bits of bytes or more.
-/
import HeavenFox.Drivers.ImxIomuxc

namespace HeavenFox.Drivers

open HeavenFox.Common HeavenFox.Logic HeavenFox.Platform

/-! ## What there is to parse -/

namespace IomuxcTree

/-- The cells of `fsl,pins`, six for each pin; none if their number is not divisible by six. -/
def pinCells (t : IomuxcTree) (n : ObjPtr) : List (List Nat) :=
  match t.prop (some n) (cstring "fsl,pins") with
  | none => []
  | some prop =>
    if prop.words.length % imx6ulMuxConfSize = 0 then
      (List.range (prop.words.length / imx6ulMuxConfSize)).map fun idx =>
        (prop.words.drop (idx * imx6ulMuxConfSize)).take imx6ulMuxConfSize
    else []

end IomuxcTree

/-- The number of a pin: its register offset divided by 4. -/
def pinNumber (cells : List Nat) : Nat := cells.getD 0 0 >>> 2

/-- What the parse makes of the cells. -/
def pinEntry (cells : List Nat) : ImxIomuxcPin := ⟨pinNumber cells, pinConf HalImxPin.zero cells⟩

/-- How many pins the block for `n` of them has room for. -/
def pinRoom (n : Nat) : Nat := n * pinBytes % 2 ^ 32 / pinBytes

/-- An array is asked for, or pin `idx` of `n` is parsed. -/
inductive ParseStep where
  | table
  | pin (idx n number : Nat)

/-- The pins from `idx` on. -/
def pinSteps (n : Nat) : Nat → List (List Nat) → List ParseStep
  | _, [] => []
  | idx, cells :: rest => .pin idx n (pinNumber cells) :: pinSteps n (idx + 1) rest

section Steps

variable (t : IomuxcTree)

def groupSteps (sprtGrp : ObjPtr) : List ParseStep :=
  if t.pinCells sprtGrp = [] then []
  else .table :: pinSteps (t.pinCells sprtGrp).length 0 (t.pinCells sprtGrp)

def funcSteps (sprtFunc : ObjPtr) : List ParseStep :=
  if t.childrenOf sprtFunc = [] then []
  else .table :: (t.childrenOf sprtFunc).flatMap (groupSteps t)

/-- All that the parse comes to if nothing fails. -/
def parseSteps (sprtNode : ObjPtr) : List ParseStep :=
  if t.childrenOf sprtNode = [] then []
  else .table :: (t.childrenOf sprtNode).flatMap (funcSteps t)

end Steps

section Walk

variable (granted : Nat → Bool) (npins : Nat)

/-- What comes of the steps: nothing if one of them is out of bounds. -/
def walk : List ParseStep → BlockLog → Verdict
  | [], log => some (true, log)
  | .table :: rest, log =>
    if granted log.count then walk rest log.handOut else some (false, log)
  | .pin idx n number :: rest, log =>
    if pinRoom n ≤ idx then none
    else if npins < number then some (false, log)
    else if number = npins then none
    else walk rest log

/-- Up to the first array that is refused, or the first pin number that is greater than `npins`:
the pin has room in the block of its group, and its number is not `npins`. -/
def StaysInside : List ParseStep → Nat → Prop
  | [], _ => True
  | .table :: rest, k => granted k = true → StaysInside rest (k + 1)
  | .pin idx n number :: rest, k =>
    idx < pinRoom n ∧ (number ≤ npins → number < npins ∧ StaysInside rest k)

variable {granted npins}

theorem walk_append (l l' : List ParseStep) (log : BlockLog) :
    walk granted npins (l ++ l') log =
      match walk granted npins l log with
      | some (true, log) => walk granted npins l' log
      | stopped => stopped := by
  induction l generalizing log with
  | nil => rfl
  | cons step l ih =>
    cases step with
    | table =>
      simp only [List.cons_append, walk]
      split
      · exact ih _
      · rfl
    | pin idx n number =>
      simp only [List.cons_append, walk]
      split
      · rfl
      split
      · rfl
      split
      · rfl
      · exact ih _

/-- The steps of some nodes are those of one after another. -/
theorem walk_flatMap (steps : ObjPtr → List ParseStep) (nodes : List ObjPtr) (log : BlockLog) :
    walk granted npins (nodes.flatMap steps) log =
      verdictAll (fun n => walk granted npins (steps n)) nodes log := by
  induction nodes generalizing log with
  | nil => rfl
  | cons n nodes ih =>
    rw [List.flatMap_cons, walk_append, verdictAll]
    rcases walk granted npins (steps n) log with _ | ⟨_ | _, k⟩
    · rfl
    · rfl
    · exact ih k

/-- Nothing is released on the way. -/
theorem walk_freed {steps : List ParseStep} {log log' : BlockLog} {on : Bool}
    (h : walk granted npins steps log = some (on, log')) : log'.freed = log.freed := by
  induction steps generalizing log with
  | nil =>
    cases h
    rfl
  | cons step steps ih =>
    cases step with
    | table =>
      rw [walk] at h
      split at h
      · have hrest := ih h
        exact hrest
      · cases h
        rfl
    | pin idx n number =>
      rw [walk] at h
      split at h
      · cases h
      split at h
      · cases h
        rfl
      split at h
      · cases h
      · exact ih h

theorem walk_ne_none_iff (steps : List ParseStep) (log : BlockLog) :
    walk granted npins steps log ≠ none ↔ StaysInside granted npins steps log.count := by
  induction steps generalizing log with
  | nil => exact iff_of_true (by simp [walk]) trivial
  | cons step steps ih =>
    cases step with
    | table =>
      rw [walk, StaysInside]
      by_cases hgranted : granted log.count = true
      · rw [if_pos hgranted, ih]
        exact ⟨fun h _ => h, fun h => h hgranted⟩
      · rw [if_neg hgranted]
        exact iff_of_true (by simp) fun h => absurd h hgranted
    | pin idx n number =>
      rw [walk, StaysInside]
      by_cases hroom : pinRoom n ≤ idx
      · rw [if_pos hroom]
        exact iff_of_false (by simp) fun h => absurd h.1 (Nat.not_lt.mpr hroom)
      rw [if_neg hroom, and_iff_right (Nat.lt_of_not_le hroom)]
      by_cases hmore : npins < number
      · rw [if_pos hmore]
        exact iff_of_true (by simp) fun h => absurd h (Nat.not_le.mpr hmore)
      rw [if_neg hmore]
      by_cases heq : number = npins
      · rw [if_pos heq]
        refine iff_of_false (by simp) fun h => ?_
        exact absurd (h (Nat.le_of_eq heq)).1 (Nat.not_lt.mpr (Nat.le_of_eq heq.symm))
      · rw [if_neg heq, ih]
        exact ⟨fun h hle => ⟨Nat.lt_of_le_of_ne hle heq, h⟩,
          fun h => (h (Nat.le_of_not_lt hmore)).2⟩

end Walk

/-! ## Pins -/

section Pins

variable {t : IomuxcTree} {granted : Nat → Bool} {npins : Nat} {n : ObjPtr}

theorem pinRoom_le (n : Nat) : pinRoom n ≤ n := by
  unfold pinRoom pinBytes
  omega

/-- A group has no pins, or as many as there are six words for; each has its six. -/
theorem pinCells_cases (t : IomuxcTree) (n : ObjPtr) :
    (t.pinCells n = [] ∧ ∀ prop, t.prop (some n) (cstring "fsl,pins") = some prop →
        prop.words.length = 0 ∨ prop.words.length % imx6ulMuxConfSize ≠ 0) ∨
      ∃ prop, t.prop (some n) (cstring "fsl,pins") = some prop ∧
        prop.words.length = (t.pinCells n).length * imx6ulMuxConfSize ∧ t.pinCells n ≠ [] ∧
        ∀ idx cells, (t.pinCells n)[idx]? = some cells →
          cells = (prop.words.drop (idx * imx6ulMuxConfSize)).take imx6ulMuxConfSize := by
  unfold IomuxcTree.pinCells
  cases hprop : t.prop (some n) (cstring "fsl,pins") with
  | none => exact Or.inl ⟨rfl, fun prop h => by cases h⟩
  | some prop =>
    dsimp only
    by_cases hsix : prop.words.length % imx6ulMuxConfSize = 0
    · rw [if_pos hsix]
      by_cases hempty : prop.words.length = 0
      · refine Or.inl ⟨?_, fun prop' h => ?_⟩
        · rw [hempty]
          rfl
        · cases h
          exact Or.inl hempty
      · refine Or.inr ⟨prop, rfl, ?_, ?_, ?_⟩
        · rw [List.length_map, List.length_range]
          exact (Nat.div_mul_cancel (Nat.dvd_of_mod_eq_zero hsix)).symm
        · intro hnil
          rw [List.map_eq_nil_iff, List.range_eq_nil] at hnil
          have hall := Nat.div_add_mod prop.words.length imx6ulMuxConfSize
          rw [hnil, hsix] at hall
          exact hempty hall.symm
        · intro idx cells hcells
          obtain ⟨hlt, rfl⟩ := List.getElem?_eq_some_iff.mp hcells
          rw [List.getElem_map, List.getElem_range]
    · rw [if_neg hsix]
      refine Or.inl ⟨rfl, fun prop' h => ?_⟩
      cases h
      exact Or.inr hsix

variable {idx : Nat} {cells : List Nat}

/-- The cells of a pin are read: there are so few that nothing wraps. -/
theorem pinCells_read (hcells : (t.pinCells n)[idx]? = some cells) :
    fwkOfPropertyReadU32ArrayIndex t.toDeviceTree (some n) (cstring "fsl,pins")
        (idx * imx6ulMuxConfSize % 2 ^ 32) imx6ulMuxConfSize = .ok (erNormal, cells) ∧
      cells.getD 0 0 < 2 ^ 32 := by
  obtain ⟨hlt, -⟩ := List.getElem?_eq_some_iff.mp hcells
  rcases pinCells_cases t n with ⟨hnil, -⟩ | ⟨prop, hprop, hlength, -, hall⟩
  · rw [hnil] at hlt
    exact absurd hlt (Nat.not_lt_zero _)
  have hplace := prop.words_place
  have hnext : (idx + 1) * imx6ulMuxConfSize ≤ prop.words.length := by
    rw [hlength]
    exact Nat.mul_le_mul_right _ hlt
  have hin : idx * imx6ulMuxConfSize + imx6ulMuxConfSize ≤ prop.words.length := by
    rwa [Nat.add_one_mul] at hnext
  have hsmall : idx * imx6ulMuxConfSize % 2 ^ 32 = idx * imx6ulMuxConfSize :=
    Nat.mod_eq_of_lt (by omega)
  constructor
  · rw [hsmall, fwkOfPropertyReadU32ArrayIndex_words hprop (by decide) hin, hall idx cells hcells]
  · rw [hall idx cells hcells, List.getD_eq_getElem?_getD]
    cases hword : ((prop.words.drop (idx * imx6ulMuxConfSize)).take imx6ulMuxConfSize)[0]? with
    | none => decide
    | some w =>
      exact beWords_lt (List.mem_of_mem_drop (List.mem_of_mem_take (List.mem_of_getElem? hword)))

theorem pinConf_muxBase {value : List Nat} (conf : HalImxPin) (hvalue : value.getD 0 0 < 2 ^ 32) :
    (pinConf conf value).muxBase = value.getD 0 0 := by
  have hadd : add32 0 (value.getD 0 0) = value.getD 0 0 := by
    rw [add32_of_lt (by rwa [Nat.zero_add]), Nat.zero_add]
  rw [pinConf]
  split
  · -- the sixth cell is changed, the first is not
    rw [halImxPinAutoInit, if_neg (by decide)]
    show add32 0 ((value.set 5 _).getD 0 0) = _
    rw [List.getD_eq_getElem?_getD, List.getElem?_set_ne (by decide),
      ← List.getD_eq_getElem?_getD, hadd]
  · rw [halImxPinAutoInit, if_neg (by decide)]
    exact hadd

/-- One pin, of which the entry is missing. -/
theorem pinLoop_behind (done : List (List Nat)) {rest : List (List Nat)}
    (hcells : t.pinCells n = done ++ cells :: rest) (mem : IomuxcMem npins) :
    pinLoop t n (rest.length + 1) done.length (done.map pinEntry) mem = .error .fault := by
  have hget : (t.pinCells n)[done.length]? = some cells := by
    rw [hcells, List.getElem?_append_right (Nat.le_refl _), Nat.sub_self]
    rfl
  have hdone : (done.map pinEntry).length = done.length := List.length_map _
  rw [pinLoop, (pinCells_read hget).1, ← hdone]
  simp only [bind, Except.bind, ne_eq, not_true_eq_false, if_false, getAt_end]

/-- One pin: a number that is too great stops the loop, and `npins` is out of bounds. -/
theorem pinLoop_step (done : List (List Nat)) {rest : List (List Nat)}
    (hcells : t.pinCells n = done ++ cells :: rest) (blank : List ImxIomuxcPin)
    (mem : IomuxcMem npins) :
    let run := pinLoop t n (rest.length + 1) done.length
      (done.map pinEntry ++ ImxIomuxcPin.zero :: blank) mem
    (npins < pinNumber cells → ∃ entries, run = .ok (false, entries, mem)) ∧
      (pinNumber cells = npins → run = .error .fault) ∧
      (pinNumber cells < npins → ∃ mem', mem'.log = mem.log ∧
        run = pinLoop t n rest.length (done.length + 1)
          (done.map pinEntry ++ pinEntry cells :: blank) mem') := by
  have hget : (t.pinCells n)[done.length]? = some cells := by
    rw [hcells, List.getElem?_append_right (Nat.le_refl _), Nat.sub_self]
    rfl
  obtain ⟨hread, hword⟩ := pinCells_read hget
  have hnumber : (pinConf ImxIomuxcPin.zero.sgrtPin cells).muxBase >>> 2 = pinNumber cells := by
    rw [pinConf_muxBase _ hword]
    rfl
  have hpin : (⟨(pinConf ImxIomuxcPin.zero.sgrtPin cells).muxBase >>> 2,
      pinConf ImxIomuxcPin.zero.sgrtPin cells⟩ : ImxIomuxcPin) = pinEntry cells := by
    rw [hnumber]
    rfl
  -- the entry at the cursor
  have hdone : (done.map pinEntry).length = done.length := List.length_map _
  have hentry : getAt Stop.fault (done.map pinEntry ++ ImxIomuxcPin.zero :: blank) done.length =
      .ok ImxIomuxcPin.zero := by
    rw [← hdone]
    exact getAt_append _ _ _ _
  have hput : ∀ a b : ImxIomuxcPin, putAt Stop.fault (done.map pinEntry ++ a :: blank)
      done.length b = .ok (done.map pinEntry ++ b :: blank) := by
    intro a b
    rw [← hdone]
    exact putAt_append _ _ _ _ _
  intro run
  generalize hrun : run = result
  rw [show run = pinLoop _ _ _ _ _ _ from rfl, pinLoop, hread] at hrun
  simp only [bind, Except.bind, ne_eq, not_true_eq_false, if_false, hentry, hput, hpin] at hrun
  rw [← hrun]
  refine ⟨fun hmore => ⟨_, if_pos (hnumber.symm ▸ hmore)⟩, fun heq => ?_, fun hlt => ?_⟩
  · rw [if_neg (by rw [hnumber, heq]; exact Nat.lt_irrefl _),
      dif_neg (by rw [hnumber, heq]; exact Nat.lt_irrefl _)]
  · rw [if_neg (by rw [hnumber]; exact Nat.lt_asymm hlt), dif_pos (hnumber.symm ▸ hlt)]
    refine ⟨_, ?_, rfl⟩
    rfl

/-- **The pins of a group.**  The pins before the cursor are parsed, the entries from it on are
blank. -/
theorem pinLoop_follows (done rest : List (List Nat)) (hcells : t.pinCells n = done ++ rest)
    (mem : IomuxcMem npins) :
    Follows .fault IomuxcMem.log
      (walk granted npins (pinSteps (t.pinCells n).length done.length rest) mem.log)
      (pinLoop t n rest.length done.length (done.map pinEntry ++
        List.replicate (pinRoom (t.pinCells n).length - done.length) ImxIomuxcPin.zero) mem)
      fun on log entries => log = mem.log ∧
        (on = true → entries = (t.pinCells n).map pinEntry ∧
          ∀ cells ∈ rest, pinNumber cells < npins) := by
  induction rest generalizing done mem with
  | nil =>
    rw [List.append_nil] at hcells
    have hfull : pinRoom (t.pinCells n).length - done.length = 0 := by
      rw [hcells]
      exact Nat.sub_eq_zero_of_le (pinRoom_le _)
    refine ⟨_, mem, rfl, rfl, rfl, fun _ => ⟨?_, fun cells hmem => by cases hmem⟩⟩
    rw [hfull, List.replicate_zero, List.append_nil, hcells]
  | cons cells rest ih =>
    rw [List.length_cons, pinSteps, walk]
    by_cases hroom : pinRoom (t.pinCells n).length ≤ done.length
    · -- the block has ended
      rw [if_pos hroom, Nat.sub_eq_zero_of_le hroom, List.replicate_zero, List.append_nil]
      exact pinLoop_behind done hcells mem
    obtain ⟨blank, hblank⟩ : ∃ blank, pinRoom (t.pinCells n).length - done.length = blank + 1 :=
      ⟨pinRoom (t.pinCells n).length - done.length - 1, by omega⟩
    rw [if_neg hroom, hblank, List.replicate_succ]
    obtain ⟨htoo, hbehind, hnext⟩ := pinLoop_step done hcells
      (List.replicate blank ImxIomuxcPin.zero) mem
    by_cases hmore : npins < pinNumber cells
    · obtain ⟨entries, hrun⟩ := htoo hmore
      rw [if_pos hmore, hrun]
      exact ⟨entries, mem, rfl, rfl, rfl, fun h => by cases h⟩
    rw [if_neg hmore]
    by_cases heq : pinNumber cells = npins
    · rw [if_pos heq, hbehind heq]
      rfl
    have hlt : pinNumber cells < npins := Nat.lt_of_le_of_ne (Nat.le_of_not_lt hmore) heq
    obtain ⟨mem', hlog, hrun⟩ := hnext hlt
    have hrest := ih (done ++ [cells]) (by rw [hcells, List.append_assoc]; rfl) mem'
    rw [List.length_append, List.length_singleton, ← Nat.sub_sub, hblank, Nat.add_sub_cancel,
      List.map_append, List.map_singleton, List.append_assoc, List.singleton_append] at hrest
    rw [if_neg heq, hrun, ← hlog]
    refine hrest.mono fun on log entries hpost => ⟨hpost.1, fun hon => ?_⟩
    obtain ⟨hentries, hnumbers⟩ := hpost.2 hon
    exact ⟨hentries, fun c hc => (List.mem_cons.mp hc).elim (fun h => h ▸ hlt) (hnumbers c)⟩

end Pins

/-! ## What a parse builds -/

abbrev ImxIomuxcPinGrp.pins (sprtPingrp : ImxIomuxcPinGrp) : List ImxIomuxcPin :=
  sprtPingrp.sprtPin.elim [] HeapTable.entries

abbrev ImxIomuxcPinFunc.pingrps (sprtPinfunc : ImxIomuxcPinFunc) : List ImxIomuxcPinGrp :=
  sprtPinfunc.sprtPingrps.elim [] HeapTable.entries

/-- The block of the pins of a group. -/
def ImxIomuxcPinGrp.blocks (sprtPingrp : ImxIomuxcPinGrp) : List Nat :=
  sprtPingrp.sprtPin.elim [] fun table => [table.block]

/-- The blocks of the groups of a function, and that of their array. -/
def ImxIomuxcPinFunc.blocks (sprtPinfunc : ImxIomuxcPinFunc) : List Nat :=
  sprtPinfunc.sprtPingrps.elim [] fun table =>
    table.entries.flatMap ImxIomuxcPinGrp.blocks ++ [table.block]

/-- There are as many groups as `ngrps` says. -/
abbrev ImxIomuxcPinFunc.Counted (sprtPinfunc : ImxIomuxcPinFunc) : Prop :=
  sprtPinfunc.ngrps = sprtPinfunc.pingrps.length

section Filled

variable (t : IomuxcTree) (npins : Nat)

/-- The group of a node: one entry for six cells, and its number is the index of a resource. -/
structure GroupFilled (n : ObjPtr) (sprtPingrp : ImxIomuxcPinGrp) : Prop where
  name : sprtPingrp.name = some n
  count : sprtPingrp.npins = (t.pinCells n).length
  pins : sprtPingrp.pins = (t.pinCells n).map pinEntry
  inside : ∀ cells ∈ t.pinCells n, pinNumber cells < npins

/-- The function of a node: its groups are those of the children. -/
structure FuncFilled (n : ObjPtr) (sprtPinfunc : ImxIomuxcPinFunc) : Prop where
  name : sprtPinfunc.name = some n
  count : sprtPinfunc.Counted
  groups : List.Forall₂ (GroupFilled t npins) (t.childrenOf n) sprtPinfunc.pingrps

/-- The driver data: its functions are those of the children of the node. -/
structure Filled (sprtNode : ObjPtr) (data : ImxIomuxcData npins) : Prop where
  count : data.nfuncs = (data.sprtPinfuncs.elim [] HeapTable.entries).length
  funcs : List.Forall₂ (FuncFilled t npins) (t.childrenOf sprtNode)
    (data.sprtPinfuncs.elim [] HeapTable.entries)

end Filled

section Groups

variable {t : IomuxcTree} {granted : Nat → Bool} {npins : Nat} {n : ObjPtr}

/-- **One group.** -/
theorem parseGroup_follows (mem : IomuxcMem npins) :
    Follows .fault IomuxcMem.log (walk granted npins (groupSteps t n) mem.log)
      (parseGroup t granted n ImxIomuxcPinGrp.zero mem) fun on log sprtPingrp =>
        True ∧ Owns sprtPingrp.blocks mem.log.count log.count ∧
          (on = true → GroupFilled t npins n sprtPingrp) := by
  have hskipped : t.pinCells n = [] →
      GroupFilled t npins n { ImxIomuxcPinGrp.zero with name := some n } := by
    intro hnil
    refine ⟨rfl, ?_, ?_, fun cells hcells => ?_⟩
    · rw [hnil]
      rfl
    · rw [hnil]
      rfl
    · rw [hnil] at hcells
      cases hcells
  unfold parseGroup
  rcases pinCells_cases t n with ⟨hnil, hskip⟩ | ⟨prop, hprop, hlength, hne, -⟩
  · -- no pins, or words that are not six for each
    rw [groupSteps, if_pos hnil]
    refine ⟨{ ImxIomuxcPinGrp.zero with name := some n }, mem, ?_, rfl, trivial, owns_nil _,
      fun _ => hskipped hnil⟩
    cases hprop : t.prop (some n) (cstring "fsl,pins") with
    | none =>
      rw [fwkOfFindProperty_none hprop]
      exact if_pos (Or.inl rfl)
    | some prop =>
      have hlen : prop.words.length = prop.bytes.length / 4 := beWords_length prop.bytes
      have hshift : prop.bytes.length >>> 2 = prop.words.length := by
        rw [hlen]
        exact Nat.shiftRight_eq_div_pow _ 2
      rw [fwkOfFindProperty_some hprop]
      dsimp only
      rw [hshift]
      exact if_pos ((hskip prop hprop).imp id Or.inr)
  · have hlen : prop.words.length = prop.bytes.length / 4 := beWords_length prop.bytes
    have hshift : prop.bytes.length >>> 2 = (t.pinCells n).length * imx6ulMuxConfSize := by
      rw [← hlength, hlen]
      exact Nat.shiftRight_eq_div_pow _ 2
    have hsome : (t.pinCells n).length * imx6ulMuxConfSize ≠ 0 :=
      Nat.mul_ne_zero (fun h => hne (List.length_eq_zero_iff.mp h)) (by decide)
    have hparse : ¬((t.pinCells n).length * imx6ulMuxConfSize = 0 ∨ (some prop).isNone = true ∨
        (t.pinCells n).length * imx6ulMuxConfSize % imx6ulMuxConfSize ≠ 0) := by
      rintro (h | h | h)
      · exact hsome h
      · cases h
      · exact h (Nat.mul_mod_left _ _)
    rw [groupSteps, if_neg hne, walk, fwkOfFindProperty_some hprop]
    dsimp only
    rw [hshift, if_neg hparse, Nat.mul_div_cancel _ (by decide), kzallocTable]
    by_cases hgranted : granted mem.log.count = true
    · rw [if_pos hgranted, if_pos hgranted]
      have hpins : Follows Stop.fault IomuxcMem.log (walk granted npins _ _) _ _ :=
        pinLoop_follows [] (t.pinCells n) rfl { mem with log := mem.log.handOut }
      refine hpins.map (f := fun entries =>
        (⟨some n, some ⟨mem.log.count, entries⟩, (t.pinCells n).length⟩ : ImxIomuxcPinGrp))
        fun on log entries hpost => ?_
      obtain ⟨rfl, hfilled⟩ := hpost
      refine ⟨trivial, owns_one _, fun hon => ?_⟩
      obtain ⟨hentries, hinside⟩ := hfilled hon
      exact ⟨rfl, rfl, hentries, hinside⟩
    · rw [if_neg hgranted, if_neg hgranted]
      exact ⟨_, mem, rfl, rfl, trivial, owns_nil _, fun h => by cases h⟩

end Groups

/-! ## Children -/

section Children

variable {t : IomuxcTree} {n : ObjPtr}

/-- There are few children, each being an object. -/
theorem childrenOf_length (n : ObjPtr) :
    (t.childrenOf n).length * grpBytes < 2 ^ 32 ∧ (t.childrenOf n).length < walkRounds := by
  have hle : (t.childrenOf n).length ≤ t.allNodes.length := List.length_filter_le _ _
  have hroom := t.room
  unfold walkRounds grpBytes at *
  omega

theorem childCountLoop_eq {nodes : List ObjPtr} {first : Option ObjPtr} {rounds num : Nat}
    (hlink : Siblings t.sibling first nodes) (hrounds : nodes.length < rounds)
    (hnum : num + nodes.length < 2 ^ 32) :
    childCountLoop t rounds first num = .ok (num + nodes.length) := by
  revert num
  refine Siblings.loop (motive := fun rounds first nodes => ∀ {num : Nat},
    num + nodes.length < 2 ^ 32 →
      childCountLoop t rounds first num = .ok (num + nodes.length)) ?_ ?_ hlink hrounds
  · intro rounds num _
    rfl
  · intro rounds n nodes ih num hnum
    rw [List.length_cons] at hnum
    rw [childCountLoop, add32_of_lt (by omega), ih (by omega), List.length_cons]
    apply congrArg
    omega

/-- **`fwk_of_get_child_count`** is the number of children. -/
theorem fwkOfGetChildCount_eq (hn : n ∈ t.allNodes) :
    fwkOfGetChildCount t n = .ok (t.childrenOf n).length := by
  have hlength := childrenOf_length (t := t) n
  rw [fwkOfGetChildCount, childCountLoop_eq (t.linked n hn) hlength.2 ?_, Nat.zero_add]
  unfold grpBytes at hlength
  omega

/-- A loop over the children fills an array from their list. -/
theorem fillChildren_eq {α σ : Type} {body : ObjPtr → α → σ → Except Stop (Bool × α × σ)}
    {nodes : List ObjPtr} {first : Option ObjPtr} {rounds : Nat}
    (hlink : Siblings t.sibling first nodes) (hrounds : nodes.length < rounds) (i : Nat)
    (table : List α) (s : σ) :
    fillChildren t body rounds first i table s = fillFrom .fault body nodes i table s := by
  revert i table s
  apply Siblings.loop (motive := fun rounds first nodes => ∀ i table s,
    fillChildren t body rounds first i table s = fillFrom .fault body nodes i table s)
    _ _ hlink hrounds
  · intro rounds i table s
    rfl
  · intro rounds n nodes ih i table s
    rw [fillChildren, fillFrom]
    simp only [ih]

/-- The array for the children has one entry for each of them. -/
theorem kzallocTable_children {α : Type} (granted : Nat → Bool) (n : ObjPtr) (zero : α)
    (log : BlockLog) :
    kzallocTable granted (t.childrenOf n).length grpBytes zero log =
      if granted log.count then
        some (⟨log.count, List.replicate (t.childrenOf n).length zero⟩, log.handOut)
      else none := by
  rw [kzallocTable, Nat.mod_eq_of_lt (childrenOf_length n).1, Nat.mul_div_cancel _ (by decide)]

variable {granted : Nat → Bool} {npins : Nat}

/-- **An array for the children** is filled as the steps of one child after another say. -/
theorem fillChildren_follows {α : Type} {body : ObjPtr → α → IomuxcMem npins →
      Except Stop (Bool × α × IomuxcMem npins)} {steps : ObjPtr → List ParseStep}
    {blocks : α → List Nat} {Inv : α → Prop} {Good : ObjPtr → α → Prop} {blank : α}
    (hn : n ∈ t.allNodes) (hblank : blocks blank = []) (hinv : Inv blank)
    (hbody : ∀ m ∈ t.childrenOf n, ∀ mem, Follows .fault IomuxcMem.log
      (walk granted npins (steps m) mem.log) (body m blank mem) fun on log a =>
        Inv a ∧ Owns (blocks a) mem.log.count log.count ∧ (on = true → Good m a))
    (mem : IomuxcMem npins) :
    Follows .fault IomuxcMem.log (walk granted npins ((t.childrenOf n).flatMap steps) mem.log)
      (fillChildren t body walkRounds (t.child n) 0
        (List.replicate (t.childrenOf n).length blank) mem)
      fun on log entries => entries.length = (t.childrenOf n).length ∧ (∀ a ∈ entries, Inv a) ∧
        Owns (entries.flatMap blocks) mem.log.count log.count ∧
        (on = true → List.Forall₂ Good (t.childrenOf n) entries) := by
  rw [fillChildren_eq (t.linked n hn) (childrenOf_length n).2, walk_flatMap]
  refine (fillFrom_follows hblank hinv (t.childrenOf n) hbody [] mem).mono
    fun on log entries hpost => ?_
  obtain ⟨rest, rfl, hpost⟩ := hpost
  exact hpost

/-- **One function.** -/
theorem parseFunc_follows (hn : n ∈ t.allNodes) (mem : IomuxcMem npins) :
    Follows .fault IomuxcMem.log (walk granted npins (funcSteps t n) mem.log)
      (parseFunc t granted n ImxIomuxcPinFunc.zero mem) fun on log sprtPinfunc =>
        sprtPinfunc.Counted ∧ Owns sprtPinfunc.blocks mem.log.count log.count ∧
          (on = true → FuncFilled t npins n sprtPinfunc) := by
  rw [parseFunc, fwkOfGetChildCount_eq hn, funcSteps]
  simp only [bind, Except.bind, List.length_eq_zero_iff]
  by_cases hnil : t.childrenOf n = []
  · rw [if_pos hnil, if_pos hnil]
    refine ⟨_, mem, rfl, rfl, rfl, owns_nil _, fun _ => ⟨rfl, rfl, ?_⟩⟩
    rw [hnil]
    exact List.Forall₂.nil
  rw [if_neg hnil, if_neg hnil, walk, kzallocTable_children]
  by_cases hgranted : granted mem.log.count = true
  · rw [if_pos hgranted, if_pos hgranted]
    have hgroups : Follows Stop.fault IomuxcMem.log (walk granted npins _ _) _ _ :=
      fillChildren_follows hn rfl trivial (fun m _ mem => parseGroup_follows (t := t) (n := m) mem)
        { mem with log := mem.log.handOut }
    refine hgroups.map (f := fun entries => (⟨some n, some ⟨mem.log.count, entries⟩,
      (t.childrenOf n).length⟩ : ImxIomuxcPinFunc)) fun on log entries hpost => ?_
    obtain ⟨hlength, -, howns, hfilled⟩ := hpost
    refine ⟨hlength.symm, ?_, fun hon => ⟨rfl, hlength.symm, hfilled hon⟩⟩
    -- the array was handed out before what is in it
    exact ((owns_one _).append howns).perm (List.perm_append_comm)
  · rw [if_neg hgranted, if_neg hgranted]
    exact ⟨_, mem, rfl, rfl, rfl, owns_nil _, fun h => by cases h⟩

end Children

/-! ## Taking it down -/

section Remove

variable {npins : Nat}

/-- What a group owns is released. -/
theorem removeGroup_eq (sprtPingrp : ImxIomuxcPinGrp) (log : BlockLog) :
    removeGroup sprtPingrp log = .ok (log.release sprtPingrp.blocks) := by
  rw [removeGroup, ImxIomuxcPinGrp.blocks]
  cases sprtPingrp.sprtPin with
  | none => rw [Option.elim_none, log.release_nil]
  | some table => rfl

/-- What a function owns is released. -/
theorem removeFunc_eq {sprtPinfunc : ImxIomuxcPinFunc}
    (hcount : sprtPinfunc.Counted) (log : BlockLog) :
    removeFunc sprtPinfunc log = .ok (log.release sprtPinfunc.blocks) := by
  rw [removeFunc, ImxIomuxcPinFunc.blocks, hcount]
  cases hgrps : sprtPinfunc.sprtPingrps with
  | none => rw [Option.elim_none, log.release_nil]
  | some table =>
    have hgroups : eachEntry Stop.fault removeGroup table.entries table.entries.length 0 log =
        .ok (log.release (table.entries.flatMap ImxIomuxcPinGrp.blocks)) :=
      eachEntry_release [] table.entries (fun a _ => removeGroup_eq a) log
    rw [Option.elim_some, log.release_append]
    show (eachEntry _ _ table.entries (sprtPinfunc.sprtPingrps.elim [] _).length 0 log >>= _) = _
    rw [hgrps]
    exact congrArg (· >>= _) hgroups

/-- **`imx_iomuxc_driver_remove_dt`** releases what was built. -/
theorem imxIomuxcDriverRemoveDt_eq (table : HeapTable ImxIomuxcPinFunc)
    (hcount : ∀ sprtPinfunc ∈ table.entries, sprtPinfunc.Counted)
    (mem : IomuxcMem npins) :
    imxIomuxcDriverRemoveDt ⟨some table, table.entries.length, mem⟩ =
      .ok { sprtPinfuncs := none
            nfuncs := 0
            mem := ⟨fun _ => ⟨0, 0⟩, mem.log.release
              (table.entries.flatMap ImxIomuxcPinFunc.blocks ++ [table.block])⟩ } := by
  have hfuncs : eachEntry Stop.fault removeFunc table.entries table.entries.length 0 mem.log =
      .ok (mem.log.release (table.entries.flatMap ImxIomuxcPinFunc.blocks)) :=
    eachEntry_release [] table.entries (fun a ha => removeFunc_eq (hcount a ha)) mem.log
  rw [mem.log.release_append]
  show (eachEntry _ _ table.entries table.entries.length 0 mem.log >>= _) = _
  exact congrArg (· >>= _) hfuncs

end Remove

/-! ## Mapping a group -/

section Map

variable {t : IomuxcTree} {npins : Nat} {n : ObjPtr}

/-- A group with a name whose pins all have descriptors. -/
structure ImxIomuxcPinGrp.Inside (npins : Nat) (sprtPingrp : ImxIomuxcPinGrp) : Prop where
  name : ∃ n, sprtPingrp.name = some n
  count : sprtPingrp.npins = sprtPingrp.pins.length
  pins : ∀ sprtPin ∈ sprtPingrp.pins, sprtPin.pin < npins

theorem GroupFilled.described {sprtPingrp : ImxIomuxcPinGrp}
    (h : GroupFilled t npins n sprtPingrp) : sprtPingrp.Inside npins := by
  refine ⟨⟨n, h.name⟩, ?_, fun sprtPin hpin => ?_⟩
  · rw [h.count, h.pins, List.length_map]
  · rw [h.pins] at hpin
    obtain ⟨cells, hcells, rfl⟩ := List.mem_map.mp hpin
    exact h.inside cells hcells

theorem testFunc_returns {sprtPinfunc : ImxIomuxcPinFunc} (h : FuncFilled t npins n sprtPinfunc)
    (name : List UInt8) :
    ∃ found, testFunc t name sprtPinfunc = .ok found ∧
      ∀ sprtPingrp ∈ found, sprtPingrp.Inside npins := by
  have hgroups := forall_mem_of_forall₂ h.groups fun _ _ => GroupFilled.described
  rw [testFunc, h.count]
  refine findEntry_returns [] sprtPinfunc.pingrps fun sprtPingrp hmem => ?_
  obtain ⟨m, hname⟩ := (hgroups sprtPingrp hmem).name
  rw [testGroup, hname]
  by_cases hfound : t.name m = name
  · refine ⟨some sprtPingrp, congrArg Except.ok (if_pos hfound), fun b hb => ?_⟩
    cases hb
    exact hgroups sprtPingrp hmem
  · refine ⟨none, congrArg Except.ok (if_neg hfound), fun b hb => ?_⟩
    cases hb

/-- **`imx_iomuxc_get_group_by_name`** finds a group whose pins all have descriptors. -/
theorem getGroupByName_returns {data : ImxIomuxcData npins} (h : Filled t npins n data)
    (name : List UInt8) :
    ∃ found, imxIomuxcGetGroupByName t data name = .ok found ∧
      ∀ sprtPingrp ∈ found, sprtPingrp.Inside npins := by
  have hfuncs := forall_mem_of_forall₂ h.funcs fun _ _ hfunc => testFunc_returns hfunc name
  rw [imxIomuxcGetGroupByName, h.count]
  exact findEntry_returns [] _ hfuncs

theorem mapLoop_returns {sprtPingrp : ImxIomuxcPinGrp} (done rest : List ImxIomuxcPin)
    (hpins : sprtPingrp.pins = done ++ rest) (hinside : ∀ sprtPin ∈ rest, sprtPin.pin < npins)
    (sprtMap : List FwkPinctrlMap) :
    ∃ result, mapLoop npins sprtPingrp rest.length done.length sprtMap = .ok result := by
  induction rest generalizing done sprtMap with
  | nil => exact ⟨sprtMap, rfl⟩
  | cons sprtPin rest ih =>
    have hget : getAt Stop.fault sprtPingrp.pins done.length = .ok sprtPin := by
      rw [hpins, getAt_append]
    have hrest := ih (done ++ [sprtPin]) (by rw [hpins, List.append_assoc]; rfl)
      fun sprtPin' hmem => hinside sprtPin' (List.mem_cons_of_mem _ hmem)
    rw [List.length_append, List.length_singleton] at hrest
    rw [List.length_cons, mapLoop, hget]
    simp only [bind, Except.bind, if_pos (hinside sprtPin List.mem_cons_self)]
    exact hrest _

/-- **`imx_iomuxc_dt_node_to_map`** stays inside if the group that is found does. -/
theorem dtNodeToMap_returns {data : ImxIomuxcData npins} {found : Option ImxIomuxcPinGrp}
    (hfound : imxIomuxcGetGroupByName t data (t.name n) = .ok found)
    (hinside : ∀ sprtPingrp ∈ found, sprtPingrp.Inside npins)
    (hparent : (t.node n).parent ≠ none) (kzalloc : Bool) :
    ∃ result, imxIomuxcDtNodeToMap t kzalloc data n = .ok result := by
  rw [imxIomuxcDtNodeToMap, hfound]
  cases found with
  | none => exact ⟨_, rfl⟩
  | some sprtPingrp =>
    obtain ⟨-, hcount, hpins⟩ := hinside sprtPingrp rfl
    obtain ⟨p, hp⟩ := Option.ne_none_iff_exists'.mp hparent
    obtain ⟨result, hmap⟩ := mapLoop_returns [] sprtPingrp.pins rfl hpins [.mux p n]
    rw [← hcount] at hmap
    simp only [bind, Except.bind, hp]
    cases kzalloc with
    | false => exact ⟨_, rfl⟩
    | true =>
      refine ⟨(erNormal, result), ?_⟩
      show (mapLoop npins sprtPingrp sprtPingrp.npins 0 [.mux p n] >>= _) = _
      exact congrArg (· >>= _) hmap

end Map

/-! ## The whole parse -/

section Probe

variable {t : IomuxcTree} {granted : Nat → Bool} {npins : Nat} {sprtNode : ObjPtr}

/-- What a parse leaves: the functions, or nothing, each block being released once.  Mapping a group
returns afterwards. -/
structure ParsedPins (t : IomuxcTree) (npins : Nat) (sprtNode : ObjPtr) (retval : Int)
    (data : ImxIomuxcData npins) : Prop where
  filled : retval = erNormal → Filled t npins sprtNode data
  undone : retval ≠ erNormal → data.sprtPinfuncs = none ∧ data.mem.log.FreedOnce
  mapped : ∀ kzalloc n, (t.node n).parent ≠ none →
    ∃ result, imxIomuxcDtNodeToMap t kzalloc data n = .ok result

/-- The parse returns, and leaves what it should. -/
def PinsParsed (t : IomuxcTree) (granted : Nat → Bool) (npins : Nat) (sprtNode : ObjPtr) : Prop :=
  ∃ retval data, imxIomuxcDriverProbeDt t granted sprtNode (ImxIomuxcData.fresh npins) =
    .ok (retval, data) ∧ ParsedPins t npins sprtNode retval data

theorem ParsedPins.of_filled {data : ImxIomuxcData npins} (h : Filled t npins sprtNode data) :
    ParsedPins t npins sprtNode erNormal data := by
  refine ⟨fun _ => h, fun hne => absurd rfl hne, fun kzalloc n hparent => ?_⟩
  obtain ⟨found, hfound, hinside⟩ := getGroupByName_returns h (t.name n)
  exact dtNodeToMap_returns hfound hinside hparent kzalloc

/-- With no functions there is no group to be found. -/
theorem ParsedPins.of_undone {retval : Int} {mem : IomuxcMem npins} (hretval : retval ≠ erNormal)
    (hfreed : mem.log.FreedOnce) : ParsedPins t npins sprtNode retval ⟨none, 0, mem⟩ :=
  ⟨fun h => absurd h hretval, fun _ => ⟨rfl, hfreed⟩, fun kzalloc _ hparent =>
    dtNodeToMap_returns rfl (fun _ h => by cases h) hparent kzalloc⟩

/-- What is done with the functions that were parsed. -/
theorem imxIomuxcDriverProbeDt_eq (hn : sprtNode ∈ t.allNodes) (hsome : t.childrenOf sprtNode ≠ [])
    (hgranted : granted BlockLog.start.count = true) :
    imxIomuxcDriverProbeDt t granted sprtNode (ImxIomuxcData.fresh npins) =
      fillChildren t (parseFunc t granted) walkRounds (t.child sprtNode) 0
          (List.replicate (t.childrenOf sprtNode).length ImxIomuxcPinFunc.zero)
          ⟨fun _ => ⟨0, 0⟩, BlockLog.start.handOut⟩ >>= fun (on, entries, mem) =>
        let data := ⟨some ⟨0, entries⟩, (t.childrenOf sprtNode).length, mem⟩
        if on then pure (erNormal, data)
        else imxIomuxcDriverRemoveDt data >>= fun data => pure (-erError, data) := by
  have hlog : (ImxIomuxcData.fresh npins).mem.log = BlockLog.start := rfl
  rw [imxIomuxcDriverProbeDt, fwkOfGetChildCount_eq hn]
  simp only [bind, Except.bind, List.length_eq_zero_iff]
  rw [if_neg hsome, kzallocTable_children, hlog, if_pos hgranted]
  rfl

/-- Where there is nothing to parse, or no memory for it. -/
theorem imxIomuxcDriverProbeDt_nothing (hn : sprtNode ∈ t.allNodes)
    (h : t.childrenOf sprtNode = [] ∨ granted BlockLog.start.count ≠ true) :
    ∃ retval, retval ≠ erNormal ∧
      imxIomuxcDriverProbeDt t granted sprtNode (ImxIomuxcData.fresh npins) =
        .ok (retval, ImxIomuxcData.fresh npins) := by
  have hlog : (ImxIomuxcData.fresh npins).mem.log = BlockLog.start := rfl
  rw [imxIomuxcDriverProbeDt, fwkOfGetChildCount_eq hn]
  simp only [bind, Except.bind, List.length_eq_zero_iff]
  by_cases hnil : t.childrenOf sprtNode = []
  · rw [if_pos hnil]
    exact ⟨-erEmpty, by decide, rfl⟩
  · rw [if_neg hnil, kzallocTable_children, hlog, if_neg (h.resolve_left hnil)]
    exact ⟨-erNomem, by decide, rfl⟩

/-- **`imx_iomuxc_driver_probe_dt`** leaves what it should, unless a step is out of bounds. -/
theorem imxIomuxcDriverProbeDt_follows (granted : Nat → Bool) (npins : Nat)
    (hn : sprtNode ∈ t.allNodes) :
    match walk granted npins (parseSteps t sprtNode) BlockLog.start with
    | none =>
      imxIomuxcDriverProbeDt t granted sprtNode (ImxIomuxcData.fresh npins) = .error .fault
    | some _ => PinsParsed t granted npins sprtNode := by
  have hidle : (t.childrenOf sprtNode = [] ∨ granted BlockLog.start.count ≠ true) →
      PinsParsed t granted npins sprtNode := fun h => by
    obtain ⟨retval, hretval, hrun⟩ := imxIomuxcDriverProbeDt_nothing hn h
    exact ⟨retval, _, hrun, ParsedPins.of_undone hretval (owns_nil 0).freedOnce⟩
  rw [parseSteps]
  by_cases hnil : t.childrenOf sprtNode = []
  · rw [if_pos hnil]
    exact hidle (Or.inl hnil)
  rw [if_neg hnil, walk]
  by_cases hgranted : granted BlockLog.start.count = true
  · have hprobe : imxIomuxcDriverProbeDt t granted sprtNode (ImxIomuxcData.fresh npins) = _ :=
      imxIomuxcDriverProbeDt_eq hn hnil hgranted
    have hblank : ImxIomuxcPinFunc.zero.Counted := rfl
    have hfuncs : Follows Stop.fault IomuxcMem.log (walk granted npins _ _) _ _ :=
      fillChildren_follows hn rfl hblank
        (fun m hm mem => parseFunc_follows (t := t) (t.mem_childrenOf.mp hm).1 mem)
        ⟨fun _ => ⟨0, 0⟩, BlockLog.start.handOut⟩
    rw [if_pos hgranted]
    rcases hwalk : walk granted npins ((t.childrenOf sprtNode).flatMap (funcSteps t))
      BlockLog.start.handOut with _ | ⟨_ | _, log⟩
    · rw [hwalk] at hfuncs
      rw [hprobe, show fillChildren _ _ _ _ _ _ _ = _ from hfuncs]
      rfl
    · -- what was built is taken down
      rw [hwalk] at hfuncs
      obtain ⟨entries, mem, hrun, rfl, hlength, hcount, howns, -⟩ := hfuncs
      have hblocks : mem.log = ⟨mem.log.count, []⟩ := by
        rw [← show mem.log.freed = [] from walk_freed hwalk]
      have hall : Owns (entries.flatMap ImxIomuxcPinFunc.blocks ++ [0]) 0 mem.log.count :=
        ((owns_one 0).append howns).perm List.perm_append_comm
      have hfreed : (mem.log.release
          (entries.flatMap ImxIomuxcPinFunc.blocks ++ [0])).FreedOnce := by
        rw [hblocks]
        exact hall.freedOnce
      have hundone : ParsedPins t npins sprtNode (-erError) ⟨none, 0, ⟨fun _ => ⟨0, 0⟩,
          mem.log.release (entries.flatMap ImxIomuxcPinFunc.blocks ++ [0])⟩⟩ :=
        ParsedPins.of_undone (by decide) hfreed
      refine ⟨-erError, _, ?_, hundone⟩
      rw [hprobe, hrun, ← hlength]
      show (imxIomuxcDriverRemoveDt ⟨some ⟨0, entries⟩, entries.length, mem⟩ >>= _) = _
      rw [imxIomuxcDriverRemoveDt_eq ⟨0, entries⟩ hcount mem]
      rfl
    · rw [hwalk] at hfuncs
      obtain ⟨entries, mem, hrun, rfl, hlength, -, -, hfilled⟩ := hfuncs
      have hdata : Filled t npins sprtNode
          ⟨some ⟨0, entries⟩, (t.childrenOf sprtNode).length, mem⟩ := ⟨hlength.symm, hfilled rfl⟩
      refine ⟨erNormal, _, ?_, ParsedPins.of_filled hdata⟩
      rw [hprobe, hrun]
      rfl
  · rw [if_neg hgranted]
    exact hidle (Or.inr hgranted)

/-- **Pins are parsed** inside all arrays, and taken down if something is wrong, exactly if no
number is equal to `npins` and no pin is behind the block of its group. -/
theorem pins_parsed_iff (hn : sprtNode ∈ t.allNodes) :
    PinsParsed t granted npins sprtNode ↔
      StaysInside granted npins (parseSteps t sprtNode) BlockLog.start.count := by
  have hfollows := imxIomuxcDriverProbeDt_follows granted npins hn
  rw [← walk_ne_none_iff]
  cases hwalk : walk granted npins (parseSteps t sprtNode) BlockLog.start with
  | none =>
    rw [hwalk] at hfollows
    refine iff_of_false ?_ fun h => h rfl
    rintro ⟨retval, data, hrun, -⟩
    rw [show imxIomuxcDriverProbeDt t granted sprtNode _ = _ from hfollows] at hrun
    cases hrun
  | some verdict =>
    rw [hwalk] at hfollows
    exact iff_of_true hfollows (Option.some_ne_none verdict)

end Probe

/-- A function with a group of one pin, whose register is at the offset. -/
def snvsTree (offset : Nat) : IomuxcTree where
  allNodes := [⟨0xa0000, by decide⟩, ⟨0xa1000, by decide⟩, ⟨0xa2000, by decide⟩]
  node := fun n =>
    if n.1 = 0xa0000 then
      { fullName := cstring "/iomuxc-snvs", phandle := 1, parent := none, properties := [] }
    else if n.1 = 0xa1000 then
      { fullName := cstring "/iomuxc-snvs/evk", phandle := 2,
        parent := some ⟨0xa0000, by decide⟩, properties := [] }
    else
      { fullName := cstring "/iomuxc-snvs/evk/hoggrp-1", phandle := 3,
        parent := some ⟨0xa1000, by decide⟩,
        properties := [⟨cstring "fsl,pins", 0x3000,
          [offset, offset + 0x44, 0, 5, 0, 0x17059].flatMap beBytes, by simp, by simp⟩] }
  nodup := by decide
  above := by
    intro n hn p hp
    rcases List.mem_cons.mp hn with rfl | hn
    · cases hp
    rcases List.mem_pair.mp hn with rfl | rfl
    · cases hp
      decide
    · cases hp
      decide
  child := fun n =>
    if n.1 = 0xa0000 then some ⟨0xa1000, by decide⟩
    else if n.1 = 0xa1000 then some ⟨0xa2000, by decide⟩
    else none
  sibling := fun _ => none
  name := fun n =>
    if n.1 = 0xa0000 then cstring "iomuxc-snvs"
    else if n.1 = 0xa1000 then cstring "evk"
    else cstring "hoggrp-1"
  linked := by
    intro n hn
    rcases List.mem_cons.mp hn with rfl | hn
    · exact ⟨rfl, rfl⟩
    rcases List.mem_pair.mp hn with rfl | rfl
    · exact ⟨rfl, rfl⟩
    · exact rfl
  room := by decide

/-- Of 12 pins the last one has the offset 0x2c. -/
theorem pins_parsed_last :
    PinsParsed (snvsTree 0x2c) (fun _ => true) 12 ⟨0xa0000, by decide⟩ :=
  (pins_parsed_iff (by decide)).mpr fun _ _ _ => ⟨by decide, fun _ => ⟨by decide, trivial⟩⟩

/-- The offset 0x30 is that of no pin. -/
theorem offset_behind_last_pin :
    ¬ PinsParsed (snvsTree 0x30) (fun _ => true) 12 ⟨0xa0000, by decide⟩ := by
  rintro ⟨retval, data, hrun, -⟩
  have hwalk : walk (fun _ => true) 12 (parseSteps (snvsTree 0x30) ⟨0xa0000, by decide⟩)
      BlockLog.start = none := by decide
  have hmem : (⟨0xa0000, by decide⟩ : ObjPtr) ∈ (snvsTree 0x30).allNodes := by decide
  have hfollows := imxIomuxcDriverProbeDt_follows (fun _ => true) 12 hmem
  rw [hwalk] at hfollows
  rw [show imxIomuxcDriverProbeDt _ _ _ _ = _ from hfollows] at hrun
  cases hrun

end HeavenFox.Drivers
