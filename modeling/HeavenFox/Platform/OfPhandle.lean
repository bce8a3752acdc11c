/-
# HeavenFox.Platform.OfPhandle -- lists of phandles with arguments

A property such as `gpios` or `clocks` is a list of entries: the phandle of a provider, and after
it as many words as a property of that provider says.  `fwk_of_parse_phandle_with_args` walks over
the entries before the one that is asked for and copies the arguments of that one.

On a list that is made of entries it does what it is for (`phandle_list_entries`).  On any list,
it compares the end of each entry with the end of the property, but not the number of arguments
with the places for them, nor the addition to the pointer with the size of an address;
`phandle_args_iff` says what follows from that.
-/
import HeavenFox.Platform.OfIrq

namespace HeavenFox.Platform

open HeavenFox.Logic HeavenFox.Common
open IrqMaps (FwkOfPhandleArgs)

/-! ## The function -/

/-- The node of an entry and how many arguments come after its phandle, or an error. -/
def phandleProvider (t : DeviceTree) (cellsName : Option (List UInt8)) (cellCount phandle : Nat) :
    Except Stop (Int ⊕ ObjPtr × Nat) :=
  match fwkOfFindNodeByPhandle t none phandle with
  | none => .ok (.inl (-erNotfound))
  | some sprtNp => do
    let (retval, cells) ← match cellsName with
      | some cellsName => do
        let (retval, value) ← fwkOfPropertyReadU32 t (some sprtNp) cellsName
        pure (retval, value.headD 0)
      | none => pure (erNormal, cellCount)
    -- `cells` is read only if it has been written
    if retval ≠ 0 then pure (.inl (-erEmpty))
    else if cells = 0 then pure (.inl (-erCheckerr))
    else pure (.inr (sprtNp, cells))

/-- The loop that copies the arguments, with the rounds that are left; `args` has 16 places. -/
def phandleArgsLoop (prop : OfProperty) : Nat → Nat → Nat → Except Stop (List Nat)
  | 0, _, _ => .ok []
  | rounds + 1, i, ptrValue => do
    let value ← prop.load ptrValue
    if fwkOfMaxPhandleArgs ≤ i then .error .fault
    else do
      let args ← phandleArgsLoop prop rounds (i + 1) (add32 ptrValue 4)
      pure (value :: args)

/-- The loop of `fwk_of_parse_phandle_with_args`. -/
def parsePhandleLoop (t : DeviceTree) (prop : OfProperty) (cellsName : Option (List UInt8))
    (cellCount : Nat) (index : Int) (ptrEnd : Nat) :
    Nat → Nat → Nat → Except Stop (Int × Option FwkOfPhandleArgs)
  | 0, _, _ => .error .spins
  | rounds + 1, ptrValue, curIndex =>
    if ptrValue < ptrEnd then do
      let phandle ← prop.load ptrValue
      let ptrValue := add32 ptrValue 4
      match ← phandleProvider t cellsName cellCount phandle with
      | .inl retval => pure (retval, none)
      | .inr (sprtNp, cells) =>
        -- the sum is a pointer, so it wraps; nothing compares `cells` with the room in `args`
        if ptrEnd < add32 ptrValue (4 * cells) then pure (-erMore, none)
        else if curIndex = index then do
          let args ← phandleArgsLoop prop cells 0 ptrValue
          pure (erNormal, some ⟨some sprtNp, args⟩)
        else
          parsePhandleLoop t prop cellsName cellCount index ptrEnd rounds
            (add32 ptrValue (4 * cells)) (add32 curIndex 1)
    else .ok (-erError, none)

/-- `fwk_of_parse_phandle_with_args`: what it returns, and what is in `*sprt_args` after it if that
is no error. -/
def fwkOfParsePhandleWithArgs (t : DeviceTree) (sprtNode : Option ObjPtr) (listName : List UInt8)
    (cellsName : Option (List UInt8)) (cellCount : Nat) (index : Int)
    (sprtArgs : Option ObjPtr) : Except Stop (Int × Option FwkOfPhandleArgs) :=
  if sprtNode.isNone ∨ index < 0 ∨ sprtArgs.isNone then .ok (-erNodev, none)
  else
    match fwkOfGetProperty t sprtNode listName with
    | (none, _) => .ok (-erNotfound, none)
    | (some prop, size) =>
      if size = 0 then .ok (-erNotfound, none)
      else
        let count := size / 4
        let ptrEnd := add32 prop.value (4 * count)
        parsePhandleLoop t prop cellsName cellCount index ptrEnd walkRounds prop.value 0

/-! ## One entry -/

namespace DeviceTree

/-- The node of an entry and how many arguments it has, if it may have any. -/
def provider (t : DeviceTree) (cellsName : Option (List UInt8)) (cellCount phandle : Nat) :
    Option (ObjPtr × Nat) :=
  (fwkOfFindNodeByPhandle t none phandle).bind fun sprtNp =>
    ((cellsName.elim (some cellCount) fun name => t.cell (some sprtNp) name 0).filter
      (· ≠ 0)).map (sprtNp, ·)

end DeviceTree

variable {t : DeviceTree} {prop : OfProperty} {cellsName : Option (List UInt8)}
  {cellCount phandle : Nat} {n : ObjPtr}

/-- What is found at the phandle of an entry. -/
theorem phandleProvider_spec (t : DeviceTree) (cellsName : Option (List UInt8))
    (cellCount phandle : Nat) :
    ∃ retval : Int, retval < 0 ∧ phandleProvider t cellsName cellCount phandle =
      .ok ((t.provider cellsName cellCount phandle).elim (.inl retval) .inr) := by
  simp only [phandleProvider, DeviceTree.provider]
  cases fwkOfFindNodeByPhandle t none phandle with
  | none => exact ⟨-erNotfound, by decide, rfl⟩
  | some sprtNp =>
    cases cellsName with
    | none =>
      refine ⟨-erCheckerr, by decide, ?_⟩
      by_cases h0 : cellCount = 0
      · simp [h0, Option.filter, bind, Except.bind, pure, Except.pure]
      · simp [h0, Option.filter, bind, Except.bind, pure, Except.pure]
    | some name =>
      simp only [fwkOfPropertyReadU32_eq, bind, Except.bind, pure, Except.pure, Option.bind_some,
        Option.elim_some]
      cases t.cell (some sprtNp) name 0 with
      | none => exact ⟨-erEmpty, by decide, rfl⟩
      | some cells =>
        refine ⟨-erCheckerr, by decide, ?_⟩
        by_cases h0 : cells = 0
        · simp [h0, Option.filter]
        · simp [h0, Option.filter]

/-! ## Copying the arguments -/

theorem load_cases (prop : OfProperty) (ptr : Nat) :
    (∃ w, prop.load ptr = .ok w) ∨ prop.load ptr = .error .fault := by
  unfold OfProperty.load
  split
  · split
    · exact Or.inr rfl
    · exact Or.inl ⟨_, rfl⟩
  · exact Or.inr rfl

/-- Arguments that are there, and for which there is room, are copied. -/
theorem phandleArgsLoop_ok {rounds i k : Nat} (hroom : i + rounds ≤ fwkOfMaxPhandleArgs)
    (hin : k + rounds ≤ prop.words.length) :
    phandleArgsLoop prop rounds i (prop.value + 4 * k) =
      .ok ((prop.words.drop k).take rounds) := by
  have hplace := prop.words_place
  induction rounds generalizing i k with
  | zero => simp [phandleArgsLoop]
  | succ rounds ih =>
    have hk : k < prop.words.length := by omega
    have hptr : add32 (prop.value + 4 * k) 4 = prop.value + 4 * (k + 1) := add32_of_lt (by omega)
    rw [phandleArgsLoop, prop.load_eq, List.getElem?_eq_getElem hk, hptr]
    simp only [Option.elim_some, bind, Except.bind, pure, Except.pure]
    rw [if_neg (by omega), ih (by omega) (by omega), List.drop_eq_getElem_cons hk,
      List.take_succ_cons]

/-- More arguments than there is room for are not copied in any value. -/
theorem phandleArgsLoop_fault {rounds i : Nat} (ptr : Nat) (hi : i ≤ fwkOfMaxPhandleArgs)
    (hmany : fwkOfMaxPhandleArgs < i + rounds) :
    phandleArgsLoop prop rounds i ptr = .error .fault := by
  induction rounds generalizing i ptr with
  | zero => omega
  | succ rounds ih =>
    rw [phandleArgsLoop]
    -- a word that is not in the value is a fault already
    rcases load_cases prop ptr with ⟨w, hw⟩ | hw
    · simp only [hw, bind, Except.bind]
      by_cases hfull : fwkOfMaxPhandleArgs ≤ i
      · rw [if_pos hfull]
      · rw [if_neg hfull, ih _ (by omega) (by omega)]
    · simp only [hw, bind, Except.bind]

/-! ## Walking over the entries -/

/-- Where the words of the value end. -/
def OfProperty.wordsEnd (prop : OfProperty) : Nat := prop.value + 4 * prop.words.length

/-- Where the entry at the word `k` ends, as a 32-bit pointer. -/
def OfProperty.entryEnd (prop : OfProperty) (k cells : Nat) : Nat :=
  add32 (prop.value + 4 * (k + 1)) (4 * cells)

/-- The entry at the word `k`, if it names a provider with arguments and the pointer to its end is
not behind the value. -/
def DeviceTree.entry (t : DeviceTree) (prop : OfProperty) (cellsName : Option (List UInt8))
    (cellCount k : Nat) : Option (ObjPtr × Nat) :=
  (prop.words[k]?.bind (t.provider cellsName cellCount)).filter fun (_, cells) =>
    prop.entryEnd k cells ≤ prop.wordsEnd

/-- One round of the loop. -/
theorem parsePhandleLoop_step (t : DeviceTree) (prop : OfProperty)
    (cellsName : Option (List UInt8)) (cellCount : Nat) (index : Int) (rounds k curIndex : Nat)
    (hk : k ≤ prop.words.length) :
    ∃ retval : Int, retval < 0 ∧
      parsePhandleLoop t prop cellsName cellCount index prop.wordsEnd (rounds + 1)
          (prop.value + 4 * k) curIndex =
        match t.entry prop cellsName cellCount k with
        | none => .ok (retval, none)
        | some (sprtNp, cells) =>
          if curIndex = index then
            (phandleArgsLoop prop cells 0 (prop.value + 4 * (k + 1))).map fun args =>
              (erNormal, some ⟨some sprtNp, args⟩)
          else
            parsePhandleLoop t prop cellsName cellCount index prop.wordsEnd rounds
              (prop.entryEnd k cells) (add32 curIndex 1) := by
  have hplace := prop.words_place
  rw [parsePhandleLoop, DeviceTree.entry]
  by_cases hmore : k < prop.words.length
  · have hptr : add32 (prop.value + 4 * k) 4 = prop.value + 4 * (k + 1) := add32_of_lt (by omega)
    have hend : ∀ cells, add32 (prop.value + 4 * (k + 1)) (4 * cells) = prop.entryEnd k cells :=
      fun _ => rfl
    obtain ⟨retval, hneg, hprovider⟩ :=
      phandleProvider_spec t cellsName cellCount prop.words[k]
    rw [if_pos (by unfold OfProperty.wordsEnd; omega), prop.load_eq,
      List.getElem?_eq_getElem hmore]
    simp only [Option.elim_some, hptr, hprovider, Option.bind_some, bind, Except.bind, pure,
      Except.pure, Except.map, hend]
    rcases Option.eq_none_or_eq_some (t.provider cellsName cellCount prop.words[k]) with
      hnone | ⟨⟨sprtNp, cells⟩, hsome⟩
    · rw [hnone]
      exact ⟨retval, hneg, rfl⟩
    · rw [hsome]
      refine ⟨-erMore, by decide, ?_⟩
      by_cases hin : prop.entryEnd k cells ≤ prop.wordsEnd
      · simp [hin, Option.filter]
      · simp [hin, Option.filter, Nat.lt_of_not_le hin]
  · -- behind the last word
    refine ⟨-erError, by decide, ?_⟩
    rw [if_neg (by unfold OfProperty.wordsEnd; omega), List.getElem?_eq_none (by omega)]
    rfl

/-- A call that finds the property and may write the arguments. -/
theorem fwkOfParsePhandleWithArgs_eq {sprtNode : Option ObjPtr} {listName : List UInt8}
    (hprop : t.prop sprtNode listName = some prop) {index : Int} (hindex : 0 ≤ index)
    (cellsName : Option (List UInt8)) (cellCount : Nat) (sprtArgs : ObjPtr) :
    fwkOfParsePhandleWithArgs t sprtNode listName cellsName cellCount index (some sprtArgs) =
      if prop.bytes.length = 0 then .ok (-erNotfound, none)
      else parsePhandleLoop t prop cellsName cellCount index prop.wordsEnd walkRounds
        prop.value 0 := by
  have hlen : prop.words.length = prop.bytes.length / 4 := beWords_length prop.bytes
  have hplace := prop.words_place
  have hfind : fwkOfGetProperty t sprtNode listName = (some prop, prop.bytes.length) :=
    fwkOfFindProperty_some hprop
  have hgo : ¬ (sprtNode.isNone = true ∨ index < 0 ∨ (some sprtArgs).isNone = true) := by
    rintro (hnull | hneg | hnull)
    · rw [Option.isNone_iff_eq_none.mp hnull] at hprop
      cases hprop
    · omega
    · cases hnull
  have hend : add32 prop.value (4 * (prop.bytes.length / 4)) = prop.wordsEnd := by
    rw [OfProperty.wordsEnd, hlen, add32_of_lt (by omega)]
  rw [fwkOfParsePhandleWithArgs, if_neg hgo]
  simp only [hfind, hend]

/-! ## Lists that are made of entries -/

/-- An entry of a list: the provider, its phandle and the arguments. -/
structure PhandleEntry where
  sprtNode : ObjPtr
  phandle : Nat
  args : List Nat

/-- The words of an entry. -/
def PhandleEntry.words (e : PhandleEntry) : List Nat := e.phandle :: e.args

/-- The words of the value are the entries, one behind the other; each names its provider, which
has as many cells as there are arguments. -/
structure OfProperty.Phandles (t : DeviceTree) (cellsName : List UInt8) (prop : OfProperty)
    (entries : List PhandleEntry) : Prop where
  words : prop.words = entries.flatMap PhandleEntry.words
  names : ∀ e ∈ entries, t.Names e.phandle e.sprtNode
  cells : ∀ e ∈ entries, t.cell (some e.sprtNode) cellsName 0 = some e.args.length
  room : ∀ e ∈ entries, 0 < e.args.length ∧ e.args.length ≤ fwkOfMaxPhandleArgs

variable {name listName : List UInt8} {entries rest : List PhandleEntry} {e : PhandleEntry}
  {k : Nat}

theorem length_le_words (entries : List PhandleEntry) :
    entries.length ≤ (entries.flatMap PhandleEntry.words).length := by
  induction entries with
  | nil => exact Nat.le_refl 0
  | cons e rest ih =>
    simp only [List.flatMap_cons, List.length_append, List.length_cons, PhandleEntry.words]
    omega

/-- An entry is seen where its words are. -/
theorem OfProperty.Phandles.entry (h : prop.Phandles t name entries) (cellCount : Nat)
    (he : e ∈ entries) (hk : prop.words.drop k = e.words ++ rest.flatMap PhandleEntry.words) :
    t.entry prop (some name) cellCount k = some (e.sprtNode, e.args.length) ∧
      prop.entryEnd k e.args.length = prop.value + 4 * (k + e.words.length) ∧
      k + e.words.length ≤ prop.words.length ∧
      (prop.words.drop (k + 1)).take e.args.length = e.args ∧
      prop.words.drop (k + e.words.length) = rest.flatMap PhandleEntry.words := by
  have hplace := prop.words_place
  have hwords : e.words.length = e.args.length + 1 := rfl
  obtain ⟨hpos, -⟩ := h.room e he
  have hin : k + e.words.length ≤ prop.words.length := by
    have hle := congrArg List.length hk
    rw [List.length_drop, List.length_append] at hle
    omega
  have hget : prop.words[k]? = some e.phandle := by
    rw [← List.head?_drop, hk]
    rfl
  have hargs : prop.words.drop (k + 1) = e.args ++ rest.flatMap PhandleEntry.words := by
    rw [← List.drop_drop, hk]
    rfl
  have hprovider : t.provider (some name) cellCount e.phandle =
      some (e.sprtNode, e.args.length) := by
    rw [DeviceTree.provider, fwkOfFindNodeByPhandle_iff.mpr (h.names e he)]
    simp [h.cells e he, Option.filter, hpos.ne']
  have hend : prop.entryEnd k e.args.length = prop.value + 4 * (k + e.words.length) := by
    rw [OfProperty.entryEnd, add32_of_lt (by omega)]
    omega
  refine ⟨?_, hend, hin, ?_, ?_⟩
  · have hle : prop.entryEnd k e.args.length ≤ prop.wordsEnd := by
      rw [hend, OfProperty.wordsEnd]
      omega
    rw [DeviceTree.entry, hget, Option.bind_some, hprovider]
    simp [Option.filter, hle]
  · rw [hargs, List.take_left]
  · rw [← List.drop_drop, hk, List.drop_left]

/-- The loop stands at the first of the entries that are left. -/
theorem parsePhandleLoop_entries (h : prop.Phandles t name entries) (cellCount index : Nat)
    {rounds curIndex : Nat} (hrest : ∀ e ∈ rest, e ∈ entries) (hk : k ≤ prop.words.length)
    (hwords : prop.words.drop k = rest.flatMap PhandleEntry.words) (hcur : curIndex ≤ index)
    (hwrap : curIndex + rest.length < 2 ^ 32) (hrounds : rest.length < rounds) :
    ∃ retval : Int, retval < 0 ∧
      parsePhandleLoop t prop (some name) cellCount index prop.wordsEnd rounds
          (prop.value + 4 * k) curIndex =
        .ok (rest[index - curIndex]?.elim (retval, none) fun e =>
          (erNormal, some ⟨some e.sprtNode, e.args⟩)) := by
  induction rest generalizing k curIndex rounds with
  | nil =>
    obtain ⟨rounds, rfl⟩ : ∃ r, rounds = r + 1 := ⟨rounds - 1, by omega⟩
    obtain ⟨retval, hneg, hstep⟩ :=
      parsePhandleLoop_step t prop (some name) cellCount index rounds k curIndex hk
    have hout : prop.words[k]? = none := List.getElem?_eq_none (List.drop_eq_nil_iff.mp hwords)
    refine ⟨retval, hneg, ?_⟩
    rw [hstep, DeviceTree.entry, hout]
    rfl
  | cons e rest ih =>
    obtain ⟨rounds, rfl⟩ : ∃ r, rounds = r + 1 := ⟨rounds - 1, by omega⟩
    obtain ⟨he, hrest'⟩ := List.forall_mem_cons.mp hrest
    obtain ⟨hentry, hend, hin, hargs, hdrop⟩ := h.entry cellCount he hwords
    obtain ⟨retval, hneg, hstep⟩ :=
      parsePhandleLoop_step t prop (some name) cellCount index rounds k curIndex hk
    rw [hstep, hentry]
    simp only [List.length_cons] at hwrap hrounds
    by_cases hthis : curIndex = index
    · -- the entry that is asked for
      have hroom := (h.room e he).2
      have hlen : e.words.length = e.args.length + 1 := rfl
      refine ⟨retval, hneg, ?_⟩
      simp only [hthis, if_true, Nat.sub_self, List.getElem?_cons_zero, Option.elim_some]
      rw [phandleArgsLoop_ok (by omega) (by omega), hargs]
      rfl
    · -- an entry before it
      have hnext : add32 curIndex 1 = curIndex + 1 := add32_of_lt (by omega)
      have hsub : index - curIndex = index - (curIndex + 1) + 1 := by omega
      simp only [Int.ofNat_inj, hthis, if_false, hend, hnext, hsub, List.getElem?_cons_succ]
      exact ih hrest' hin hdrop (by omega) (by omega) (by omega)

/-- What is returned for a list that is made of entries. -/
theorem fwkOfParsePhandleWithArgs_entries {sprtNode : Option ObjPtr}
    (hprop : t.prop sprtNode listName = some prop) (h : prop.Phandles t name entries)
    (cellCount index : Nat) (sprtArgs : ObjPtr) :
    ∃ retval : Int, retval < 0 ∧
      fwkOfParsePhandleWithArgs t sprtNode listName (some name) cellCount index (some sprtArgs) =
        .ok (entries[index]?.elim (retval, none) fun e =>
          (erNormal, some ⟨some e.sprtNode, e.args⟩)) := by
  have hlen : prop.words.length = prop.bytes.length / 4 := beWords_length prop.bytes
  have hplace := prop.words_place
  have hmany : entries.length ≤ prop.words.length := by
    rw [h.words]
    exact length_le_words entries
  have hrounds : entries.length < walkRounds := by
    unfold walkRounds
    omega
  rw [fwkOfParsePhandleWithArgs_eq hprop (Int.natCast_nonneg index)]
  by_cases hempty : prop.bytes.length = 0
  · have hnone : entries = [] := List.length_eq_zero_iff.mp (by omega)
    refine ⟨-erNotfound, by decide, ?_⟩
    rw [if_pos hempty, hnone]
    rfl
  · rw [if_neg hempty]
    exact parsePhandleLoop_entries h cellCount index (k := 0) (fun e he => he) (Nat.zero_le _)
      h.words (Nat.zero_le _) (by omega) hrounds

/-- **Phandle lists.**  On a list that is made of entries, asking for one of them gives its node and
exactly its arguments, and asking for more than there are is an error. -/
theorem phandle_list_entries {sprtNode : Option ObjPtr}
    (hprop : t.prop sprtNode listName = some prop) (h : prop.Phandles t name entries)
    (cellCount index : Nat) (sprtArgs : ObjPtr) :
    (∀ e, entries[index]? = some e →
      fwkOfParsePhandleWithArgs t sprtNode listName (some name) cellCount index (some sprtArgs) =
        .ok (erNormal, some ⟨some e.sprtNode, e.args⟩)) ∧
    (entries.length ≤ index → ∃ retval : Int, retval < 0 ∧
      fwkOfParsePhandleWithArgs t sprtNode listName (some name) cellCount index (some sprtArgs) =
        .ok (retval, none)) := by
  obtain ⟨retval, hneg, hrun⟩ :=
    fwkOfParsePhandleWithArgs_entries hprop h cellCount index sprtArgs
  constructor
  · intro e he
    rw [hrun, he]
    rfl
  · intro hindex
    refine ⟨retval, hneg, ?_⟩
    rw [hrun, List.getElem?_eq_none hindex]
    rfl

/-! ## Any list -/

/-- The word at which the `j`-th entry after the one at the word `k` begins: where the pointer to
the end of the one before it points. -/
def DeviceTree.entryWord (t : DeviceTree) (prop : OfProperty) (cellsName : Option (List UInt8))
    (cellCount : Nat) : Nat → Nat → Option Nat
  | 0, k => some k
  | j + 1, k => (t.entry prop cellsName cellCount k).bind fun (_, cells) =>
    t.entryWord prop cellsName cellCount j ((prop.entryEnd k cells - prop.value) / 4)

/-- The entry that is asked for, `j` after the one at the word `k`, has no more arguments than there
is room for; and no end of an entry before it has wrapped to below the value. -/
def EntriesFit (t : DeviceTree) (prop : OfProperty) (cellsName : Option (List UInt8))
    (cellCount index k : Nat) : Prop :=
  ∀ j, j ≤ index → ∀ k' n cells, t.entryWord prop cellsName cellCount j k = some k' →
    t.entry prop cellsName cellCount k' = some (n, cells) →
    if j = index then cells ≤ fwkOfMaxPhandleArgs else prop.value ≤ prop.entryEnd k' cells

variable {cells index : Nat}

theorem entriesFit_none (h : t.entry prop cellsName cellCount k = none) :
    EntriesFit t prop cellsName cellCount index k := by
  intro j hj k' n cells hword hentry
  cases j with
  | zero =>
    cases hword
    rw [h] at hentry
    cases hentry
  | succ j =>
    rw [DeviceTree.entryWord, h] at hword
    cases hword

theorem entriesFit_zero (h : t.entry prop cellsName cellCount k = some (n, cells)) :
    EntriesFit t prop cellsName cellCount 0 k ↔ cells ≤ fwkOfMaxPhandleArgs := by
  constructor
  · intro hfit
    simpa using hfit 0 (Nat.le_refl 0) k n cells rfl h
  · intro hle j hj k' n' cells' hword hentry
    obtain rfl : j = 0 := Nat.le_zero.mp hj
    cases hword
    rw [h] at hentry
    cases hentry
    simpa using hle

theorem entriesFit_succ (h : t.entry prop cellsName cellCount k = some (n, cells)) :
    EntriesFit t prop cellsName cellCount (index + 1) k ↔
      prop.value ≤ prop.entryEnd k cells ∧
        EntriesFit t prop cellsName cellCount index ((prop.entryEnd k cells - prop.value) / 4) := by
  have hword : ∀ j, t.entryWord prop cellsName cellCount (j + 1) k =
      t.entryWord prop cellsName cellCount j ((prop.entryEnd k cells - prop.value) / 4) := by
    intro j
    rw [DeviceTree.entryWord, h]
    rfl
  constructor
  · intro hfit
    refine ⟨by simpa using hfit 0 (Nat.zero_le _) k n cells rfl h, ?_⟩
    intro j hj k' n' cells' hk' hentry
    have hlater := hfit (j + 1) (by omega) k' n' cells' ((hword j).trans hk') hentry
    simpa only [Nat.add_right_cancel_iff] using hlater
  · rintro ⟨hend, hfit⟩ j hj k' n' cells' hk' hentry
    cases j with
    | zero =>
      cases hk'
      rw [h] at hentry
      cases hentry
      simpa using hend
    | succ j =>
      -- the entries behind this one are those from its end on
      have hlater := hfit j (by omega) k' n' cells' ((hword j).symm.trans hk') hentry
      simpa only [Nat.add_right_cancel_iff] using hlater

/-- The end of an entry that has not wrapped to below the value is at a word of it, or at its end. -/
theorem entryEnd_eq (h : t.entry prop cellsName cellCount k = some (n, cells))
    (hle : prop.value ≤ prop.entryEnd k cells) :
    prop.entryEnd k cells = prop.value + 4 * ((prop.entryEnd k cells - prop.value) / 4) ∧
      (prop.entryEnd k cells - prop.value) / 4 ≤ prop.words.length := by
  obtain ⟨-, hin⟩ := Option.filter_eq_some_iff.mp h
  have hend : prop.entryEnd k cells ≤ prop.wordsEnd := by simpa using hin
  unfold OfProperty.wordsEnd at hend
  refine ⟨?_, by omega⟩
  -- a multiple of four is added, and addresses wrap at one
  unfold OfProperty.entryEnd add32 at hle ⊢
  omega

/-- An entry for which there is room is in the value as a whole. -/
theorem entry_room (h : t.entry prop cellsName cellCount k = some (n, cells))
    (hroom : cells ≤ fwkOfMaxPhandleArgs) : k + 1 + cells ≤ prop.words.length := by
  have hplace := prop.words_place
  obtain ⟨hfound, hin⟩ := Option.filter_eq_some_iff.mp h
  obtain ⟨phandle, hget, -⟩ := Option.bind_eq_some_iff.mp hfound
  obtain ⟨hk, -⟩ := List.getElem?_eq_some_iff.mp hget
  have hend : prop.entryEnd k cells ≤ prop.wordsEnd := by simpa using hin
  unfold fwkOfMaxPhandleArgs at hroom
  rw [OfProperty.entryEnd, add32_of_lt (by omega), OfProperty.wordsEnd] at hend
  omega

/-- A loop that stands below the value reads there. -/
theorem parsePhandleLoop_below {index : Int} {rounds ptr curIndex : Nat} (h : ptr < prop.value) :
    parsePhandleLoop t prop cellsName cellCount index prop.wordsEnd (rounds + 1) ptr curIndex =
      .error .fault := by
  have hlt : ptr < prop.wordsEnd := by
    unfold OfProperty.wordsEnd
    omega
  rw [parsePhandleLoop, if_pos hlt, prop.load_below h]
  rfl

/-- The loop returns if the entries fit that are still before it. -/
theorem parsePhandleLoop_ok_iff (t : DeviceTree) (cellsName : Option (List UInt8))
    (cellCount index rounds curIndex : Nat) (hk : k ≤ prop.words.length)
    (hwrap : curIndex + index < 2 ^ 32) (hrounds : index < rounds) :
    (∃ result, parsePhandleLoop t prop cellsName cellCount (curIndex + index : Nat) prop.wordsEnd
        rounds (prop.value + 4 * k) curIndex = .ok result) ↔
      EntriesFit t prop cellsName cellCount index k := by
  induction index generalizing k curIndex rounds with
  | zero =>
    obtain ⟨rounds, rfl⟩ : ∃ r, rounds = r + 1 := ⟨rounds - 1, by omega⟩
    obtain ⟨retval, -, hstep⟩ := parsePhandleLoop_step t prop cellsName cellCount
      (curIndex + 0 : Nat) rounds k curIndex hk
    rw [hstep]
    rcases Option.eq_none_or_eq_some (t.entry prop cellsName cellCount k) with
      hnone | ⟨⟨n, cells⟩, hentry⟩
    · simp [hnone, entriesFit_none hnone]
    · rw [entriesFit_zero hentry, hentry]
      -- the entry that is asked for
      simp only [Nat.add_zero, if_true]
      by_cases hroom : cells ≤ fwkOfMaxPhandleArgs
      · rw [phandleArgsLoop_ok (by omega) (entry_room hentry hroom)]
        exact iff_of_true ⟨_, rfl⟩ hroom
      · rw [phandleArgsLoop_fault _ (Nat.zero_le _) (by omega)]
        refine iff_of_false ?_ hroom
        rintro ⟨result, hrun⟩
        cases hrun
  | succ index ih =>
    obtain ⟨rounds, rfl⟩ : ∃ r, rounds = r + 1 := ⟨rounds - 1, by omega⟩
    obtain ⟨retval, -, hstep⟩ := parsePhandleLoop_step t prop cellsName cellCount
      (curIndex + (index + 1) : Nat) rounds k curIndex hk
    rw [hstep]
    rcases Option.eq_none_or_eq_some (t.entry prop cellsName cellCount k) with
      hnone | ⟨⟨n, cells⟩, hentry⟩
    · simp [hnone, entriesFit_none hnone]
    · rw [entriesFit_succ hentry, hentry]
      have hother : (curIndex : Int) ≠ (curIndex + (index + 1) : Nat) := by omega
      have hnext : add32 curIndex 1 = curIndex + 1 := add32_of_lt (by omega)
      have hsum : curIndex + (index + 1) = curIndex + 1 + index := by omega
      -- an entry before it: the loop goes on at a word of the value, or below all of them
      simp only [if_neg hother]
      rw [hnext, hsum]
      by_cases hle : prop.value ≤ prop.entryEnd k cells
      · obtain ⟨hend, hk'⟩ := entryEnd_eq hentry hle
        have hlater := ih rounds (curIndex + 1) hk' (by omega) (by omega)
        rw [and_iff_right hle, ← hlater, ← hend]
      · obtain ⟨rounds, rfl⟩ : ∃ r, rounds = r + 1 := ⟨rounds - 1, by omega⟩
        rw [parsePhandleLoop_below (Nat.lt_of_not_le hle)]
        refine iff_of_false ?_ fun hfit => hle hfit.1
        rintro ⟨result, hrun⟩
        cases hrun

/-- The call reads no byte outside the value and writes no more arguments than there is room for:
it returns. -/
def ParsesInside (t : DeviceTree) (sprtNode : Option ObjPtr) (listName : List UInt8)
    (cellsName : Option (List UInt8)) (cellCount : Nat) (index : Int32)
    (sprtArgs : Option ObjPtr) : Prop :=
  ∃ result, fwkOfParsePhandleWithArgs t sprtNode listName cellsName cellCount index.toInt sprtArgs =
    .ok result

/-- A call that finds the property and may write the arguments. -/
theorem parsesInside_iff {sprtNode : Option ObjPtr} (hprop : t.prop sprtNode listName = some prop)
    {index : Int32} (h0 : 0 ≤ index.toInt) (cellsName : Option (List UInt8)) (cellCount : Nat)
    (sprtArgs : ObjPtr) :
    ParsesInside t sprtNode listName cellsName cellCount index (some sprtArgs) ↔
      EntriesFit t prop cellsName cellCount index.toInt.toNat 0 := by
  have hindex := index.toInt_lt
  rw [ParsesInside, fwkOfParsePhandleWithArgs_eq hprop h0]
  by_cases hempty : prop.bytes.length = 0
  · have hnil : prop.words = [] := beWords_nil (by omega)
    have hnone : t.entry prop cellsName cellCount 0 = none := by simp [DeviceTree.entry, hnil]
    rw [if_pos hempty]
    exact iff_of_true ⟨_, rfl⟩ (entriesFit_none hnone)
  · have hrun := parsePhandleLoop_ok_iff t cellsName cellCount index.toInt.toNat walkRounds 0
      (Nat.zero_le prop.words.length) (by omega) (by unfold walkRounds; omega)
    rw [Nat.zero_add, Int.toNat_of_nonneg h0] at hrun
    rw [if_neg hempty]
    exact hrun

/-- **Any list of phandles.**  For every tree and every index, the call keeps to the value and to
the room for the arguments exactly if the entries fit that it comes to. -/
theorem phandle_args_iff (t : DeviceTree) (sprtNode : Option ObjPtr) (listName : List UInt8)
    (cellsName : Option (List UInt8)) (cellCount : Nat) (index : Int32)
    (sprtArgs : Option ObjPtr) :
    ParsesInside t sprtNode listName cellsName cellCount index sprtArgs ↔
      (sprtArgs.isSome = true → 0 ≤ index.toInt →
        ∀ prop, t.prop sprtNode listName = some prop →
          EntriesFit t prop cellsName cellCount index.toInt.toNat 0) := by
  by_cases hrefused : sprtNode.isNone = true ∨ index.toInt < 0 ∨ sprtArgs.isNone = true
  · -- nothing is read
    refine iff_of_true ⟨_, if_pos hrefused⟩ fun hargs h0 prop hprop => ?_
    rcases hrefused with hnull | hneg | hnull
    · rw [Option.isNone_iff_eq_none.mp hnull] at hprop
      cases hprop
    · omega
    · rw [Option.isNone_iff_eq_none.mp hnull] at hargs
      cases hargs
  obtain ⟨-, h0, hargs⟩ : sprtNode.isNone ≠ true ∧ 0 ≤ index.toInt ∧ sprtArgs.isSome = true := by
    simpa [Option.isSome_iff_ne_none] using hrefused
  obtain ⟨ptr, rfl⟩ := Option.isSome_iff_exists.mp hargs
  simp only [hargs, h0, true_imp_iff]
  rcases Option.eq_none_or_eq_some (t.prop sprtNode listName) with hnone | ⟨prop, hprop⟩
  · have hfind : fwkOfGetProperty t sprtNode listName = (none, 0) := fwkOfFindProperty_none hnone
    refine iff_of_true ⟨(-erNotfound, none), ?_⟩ fun prop hprop => ?_
    · rw [fwkOfParsePhandleWithArgs, if_neg hrefused]
      simp only [hfind]
    · rw [hnone] at hprop
      cases hprop
  · simp only [parsesInside_iff hprop h0, hprop, Option.some.injEq, forall_eq']

/-! ## Two lists -/

/-- A property of these words. -/
def gpiosProp (words : List Nat) (h : words.length ≤ 1024) : OfProperty where
  name := cstring "gpios"
  value := 0x4000
  bytes := words.flatMap beBytes
  place := by
    have hlen : (words.flatMap beBytes).length = 4 * words.length := by
      simp [List.length_flatMap, Nat.mul_comm]
    omega
  short := by
    have hlen : (words.flatMap beBytes).length = 4 * words.length := by
      simp [List.length_flatMap, Nat.mul_comm]
    omega

/-- A root that provides something with so many cells, and a child with a list of phandles. -/
def phandleTree (cells : Nat) (gpios : OfProperty) : DeviceTree where
  allNodes := [⟨0x64000, by decide⟩, ⟨0x65000, by decide⟩]
  node := fun n =>
    if n.1 = 0x64000 then
      { fullName := cstring "/", phandle := 1, parent := none,
        properties := [⟨cstring "#gpio-cells", 0x3000, beBytes cells, by simp, beBytes_short cells⟩] }
    else
      { fullName := cstring "/led", phandle := 2, parent := some ⟨0x64000, by decide⟩,
        properties := [gpios] }
  nodup := by decide
  above := by
    intro n hn p hp
    rcases List.mem_pair.mp hn with rfl | rfl
    · cases hp
    · cases hp
      decide

/-- Two entries of two cells: the second is found. -/
theorem phandle_list_entries_second :
    fwkOfParsePhandleWithArgs (phandleTree 2 (gpiosProp [1, 7, 0, 1, 9, 3] (by decide)))
        (some ⟨0x65000, by decide⟩) (cstring "gpios") (some (cstring "#gpio-cells")) 0 (1 : Nat)
        (some ⟨0x66000, by decide⟩) =
      .ok (erNormal, some ⟨some ⟨0x64000, by decide⟩, [9, 3]⟩) := by
  let gpios := gpiosProp [1, 7, 0, 1, 9, 3] (by decide)
  have hnames : (phandleTree 2 gpios).Names 1 ⟨0x64000, by decide⟩ :=
    fwkOfFindNodeByPhandle_iff.mp (by rfl)
  have hlist : gpios.Phandles (phandleTree 2 gpios) (cstring "#gpio-cells")
      [⟨⟨0x64000, by decide⟩, 1, [7, 0]⟩, ⟨⟨0x64000, by decide⟩, 1, [9, 3]⟩] := by
    refine ⟨by rfl, ?_, ?_, by decide⟩
    · simpa using hnames
    · simp
      rfl
  exact (phandle_list_entries (by rfl) hlist 0 1 ⟨0x66000, by decide⟩).1 _ rfl

/-- Seventeen cells are one more than there is room for. -/
theorem phandle_args_overflow :
    ¬ ParsesInside (phandleTree 17 (gpiosProp (List.replicate 18 1) (by decide)))
      (some ⟨0x65000, by decide⟩) (cstring "gpios") (some (cstring "#gpio-cells")) 0 0
      (some ⟨0x66000, by decide⟩) := by
  let gpios := gpiosProp (List.replicate 18 1) (by decide)
  have hprop : (phandleTree 17 gpios).prop (some ⟨0x65000, by decide⟩) (cstring "gpios") =
      some gpios := by
    rfl
  have hentry : (phandleTree 17 gpios).entry gpios (some (cstring "#gpio-cells")) 0 0 =
      some (⟨0x64000, by decide⟩, 17) := by
    decide
  rw [parsesInside_iff hprop (by decide)]
  intro hfit
  exact absurd ((entriesFit_zero hentry).mp hfit) (by decide)

end HeavenFox.Platform
