/-
# HeavenFox.Platform.FwkClkLookup -- from the name of a clock to a handle

`fwk_clk_get` finds the number of a name in `clock-names`, reads the entry of that number in
`clocks`, and asks the provider of the entry for the clock.  A provider of
`fwk_of_clk_src_onecell_get` has an array, and the cell of the entry is the index.

Neither the size of the array nor whether anything was registered at the index is looked at on the
way.  `clock_lookup_iff` says which entries are safe.
-/
import HeavenFox.Platform.FwkClkRuns
import HeavenFox.Platform.OfPhandle
import HeavenFox.Platform.OfStrings

namespace HeavenFox.Platform

open HeavenFox.Common HeavenFox.Logic

/-! ## The call -/

/-- The first half of `fwk_clk_get`: what the entry of the name reads as.  `sgrtArgs` is the address
of its local variable. -/
def clockSpec (t : DeviceTree) (sprtNode : Option ObjPtr) (name : Option (List UInt8))
    (sgrtArgs : ObjPtr) : Except Stop (Option OfPhandleArgs) := do
  let index ← match name with
    | some name => fwkOfPropertyMatchString t sprtNode (cstring "clock-names") name
    | none => pure 0
  if index < 0 then pure none
  else
    let (retval, args) ← fwkOfParsePhandleWithArgs t sprtNode (cstring "clocks")
      (some (cstring "#clock-cells")) 0 index (some sgrtArgs)
    if retval ≠ 0 then pure none
    else pure (args.map fun args => ⟨args.sprtNode.elim 0 Subtype.val, args.args⟩)

/-- The characters of a name. -/
def nameChars (name : List UInt8) : List Char := name.map fun c => Char.ofNat c.toNat

/-- `fwk_clk_get` of a device with this node. -/
def fwkClkGetByName (s : Clks) (t : DeviceTree) (sprtNode : Option ObjPtr) (devName : List Char)
    (name : Option (List UInt8)) (sgrtArgs : ObjPtr) (junk kzalloc : Nat) :
    Except Stop (Nat × Clks) := do
  let spec ← clockSpec t sprtNode name sgrtArgs
  fwkClkGet s devName spec (name.map nameChars) junk kzalloc

/-! ## Tables of clocks -/

/-- Clocks as they are kept: a core names itself, and the arrays of the providers are in memory. -/
structure ClkTables extends Clks where
  ownCore : ∀ a found, core a = some found → found.sprtHw.sprtCore = a
  inMemory : ∀ provider ∈ providers, provider.data.sprtClks ≠ 0 →
    provider.data.sprtClks + fwkClkSize * provider.data.clksSize ≤ 0xfffff000

/-- The provider of a specifier. -/
def Clks.providerOf (s : Clks) (spec : OfPhandleArgs) : Option FwkOfClkProvider :=
  s.providers.find? fun provider => provider.sprtNode = spec.sprtNode

/-- The clock at an index of an array. -/
def FwkClkOneCell.entry (data : FwkClkOneCell) (index : Nat) : Nat :=
  data.sprtClks + fwkClkSize * index

/-- Of all specifiers that are looked up in an array: the array and the index. -/
def Indexes (s : Clks) (spec : OfPhandleArgs) (junk : Nat) (data : FwkClkOneCell) (index : Nat) :
    Prop :=
  ∃ provider, s.providerOf spec = some provider ∧ provider.data = data ∧ data.sprtClks ≠ 0 ∧
    index = spec.args.getD 0 junk

/-- A clock was registered at the index. -/
def HasClk (s : Clks) (data : FwkClkOneCell) (index : Nat) : Prop :=
  ∃ core, s.coreOf (data.entry index) = .ok core

/-- `handle` has been made for the clock at the index, and every other clock is as it was. -/
structure NewHandle (s s' : Clks) (handle : Nat) (data : FwkClkOneCell) (index : Nat) : Prop where
  registered : index < data.clksSize ∧ HasClk s data index
  sameCore : ∃ clk made, s.clk (data.entry index) = some clk ∧ s'.clk handle = some made ∧
    made.sprtCore = clk.sprtCore
  others : ∀ a, a ≠ handle → s'.clk a = s.clk a

variable {s s' : Clks} {spec : OfPhandleArgs} {junk index kzalloc : Nat} {data : FwkClkOneCell}

theorem lookUp_none (h : s.providerOf spec = none) : fwkClkProviderLookUp s spec junk = 0 := by
  have hfind : (s.providers.find? fun provider => provider.sprtNode = spec.sprtNode) = none := h
  rw [fwkClkProviderLookUp, hfind]

theorem lookUp_some {provider : FwkOfClkProvider} (h : s.providerOf spec = some provider) :
    fwkClkProviderLookUp s spec junk = fwkOfClkSrcOnecellGet spec provider.data junk := by
  have hfind : (s.providers.find? fun provider => provider.sprtNode = spec.sprtNode) =
      some provider := h
  rw [fwkClkProviderLookUp, hfind]

/-- A specifier that is looked up in no array finds nothing. -/
theorem lookUp_of_not_indexes (h : ∀ data index, ¬ Indexes s spec junk data index) :
    fwkClkProviderLookUp s spec junk = 0 := by
  cases hfound : s.providerOf spec with
  | none => exact lookUp_none hfound
  | some provider =>
    have hnull : provider.data.sprtClks = 0 := by
      by_contra hne
      exact h _ _ ⟨provider, hfound, rfl, hne, rfl⟩
    rw [lookUp_some hfound, fwkOfClkSrcOnecellGet, if_pos hnull]

/-- An index inside the array gives the entry, at a valid address. -/
theorem lookUp_of_indexes (s : ClkTables) (h : Indexes s.toClks spec junk data index)
    (hlt : index < data.clksSize) :
    fwkClkProviderLookUp s.toClks spec junk = data.entry index ∧
      isValid (data.entry index) = true := by
  obtain ⟨provider, hfound, rfl, hne, rfl⟩ := h
  have hplace := s.inMemory provider (List.mem_of_find?_eq_some hfound) hne
  unfold fwkClkSize at hplace
  rw [isValid_iff, lookUp_some hfound, fwkOfClkSrcOnecellGet, if_neg hne]
  unfold FwkClkOneCell.entry fwkClkSize
  refine ⟨add32_of_lt (by omega), by omega, by omega⟩

/-- **A handle** is made for the clock of the core, or the memory is short. -/
theorem fwkCreateClk_spec (s : Clks) (hw : FwkClkGate) (devId conId : Option (List Char))
    (kzalloc : Nat) :
    ∃ handle s', fwkCreateClk s hw devId conId kzalloc = .ok (handle, s') ∧
      (handle = 0 ∨ (∃ made, s'.clk handle = some made ∧ made.sprtCore = hw.sprtCore) ∧
        ∀ a, a ≠ handle → s'.clk a = s.clk a) := by
  unfold fwkCreateClk
  by_cases hvalid : isValid kzalloc = true
  · rw [if_neg (by simp [hvalid])]
    simp only [fwkClkConfig, Function.update_self, bind, Except.bind]
    refine ⟨kzalloc, _, rfl, Or.inr ⟨?_, fun a ha => ?_⟩⟩
    · simp only [Clks.setDynamic, Function.update_self, Option.map_some]
      exact ⟨_, rfl, rfl⟩
    · simp only [Clks.setDynamic, Function.update_of_ne ha]
  · rw [if_pos (by simp [hvalid])]
    exact ⟨0, s, rfl, Or.inl rfl⟩

theorem Indexes.unique {data' : FwkClkOneCell} {index' : Nat} (h : Indexes s spec junk data index)
    (h' : Indexes s spec junk data' index') : data' = data ∧ index' = index := by
  obtain ⟨provider, hfound, rfl, -, rfl⟩ := h
  obtain ⟨provider', hfound', rfl, -, rfl⟩ := h'
  rw [hfound] at hfound'
  cases hfound'
  exact ⟨rfl, rfl⟩

/-- **`fwk_clk_get`** of a specifier that is looked up in no array. -/
theorem fwkClkGet_none (h : ∀ data index, ¬ Indexes s spec junk data index) (devName : List Char)
    (name : Option (List Char)) (kzalloc : Nat) :
    fwkClkGet s devName (some spec) name junk kzalloc = .ok (0, s) := by
  simp only [fwkClkGet, lookUp_of_not_indexes h]
  rfl

/-- **`fwk_clk_get`** of an index inside the array returns just if a clock is registered there, and
then it is right. -/
theorem fwkClkGet_inside (s : ClkTables) (h : Indexes s.toClks spec junk data index)
    (hlt : index < data.clksSize) (devName : List Char) (name : Option (List Char))
    (kzalloc : Nat) :
    (HasClk s.toClks data index → ∃ handle s',
      fwkClkGet s.toClks devName (some spec) name junk kzalloc = .ok (handle, s') ∧
        (handle = 0 ∨ NewHandle s.toClks s' handle data index)) ∧
    (¬ HasClk s.toClks data index → ∀ result,
      fwkClkGet s.toClks devName (some spec) name junk kzalloc ≠ .ok result) := by
  obtain ⟨hlook, hvalid⟩ := lookUp_of_indexes s h hlt
  have hcall : fwkClkGet s.toClks devName (some spec) name junk kzalloc = (do
      let core ← s.coreOf (data.entry index)
      fwkCreateClk s.toClks core.sprtHw (some devName) name kzalloc) := by
    simp only [fwkClkGet, hlook, hvalid, Bool.not_true, Bool.false_eq_true, if_false, fwkClkToHw]
    cases s.coreOf (data.entry index) <;> rfl
  constructor
  · rintro ⟨core, hcore⟩
    obtain ⟨handle, s', hcreate, hmade⟩ :=
      fwkCreateClk_spec s.toClks core.sprtHw (some devName) name kzalloc
    refine ⟨handle, s', ?_, hmade.imp id ?_⟩
    · rw [hcall, hcore]
      exact hcreate
    · rintro ⟨⟨made, hat, hsame⟩, hothers⟩
      obtain ⟨clk, hclk, hown⟩ := coreOf_ok.mp hcore
      -- the core of the gate is the core of the clock
      have hself := s.ownCore clk.sprtCore core hown
      exact ⟨⟨hlt, core, hcore⟩, ⟨clk, made, hclk, hat, hsame.trans hself⟩, hothers⟩
  · -- a hole of the array is taken for a clock
    intro hhole result hrun
    rw [hcall] at hrun
    obtain ⟨core, hcore, -⟩ := except_bind.mp hrun
    exact hhole ⟨core, hcore⟩

/-! ## Which lookups are safe -/

/-- The array of the provider is indexed inside its size; and the call returns, null or a new handle
on the clock that is registered at the cell. -/
structure LookupSafe (s : Clks) (t : DeviceTree) (sprtNode : Option ObjPtr) (devName : List Char)
    (name : Option (List UInt8)) (sgrtArgs : ObjPtr) (junk kzalloc : Nat) : Prop where
  inside : ∀ spec data index, clockSpec t sprtNode name sgrtArgs = .ok (some spec) →
    Indexes s spec junk data index → index < data.clksSize
  returns : ∃ handle s',
    fwkClkGetByName s t sprtNode devName name sgrtArgs junk kzalloc = .ok (handle, s') ∧
      (handle = 0 ∨ ∃ spec data index, clockSpec t sprtNode name sgrtArgs = .ok (some spec) ∧
        Indexes s spec junk data index ∧ NewHandle s s' handle data index)

/-- **When the lookup is safe.**  For every tree, device and name: the two properties can be read,
and if the entry of the name is looked up in the array of a provider, then the cell is below the
size of the array and a clock was registered there. -/
theorem clock_lookup_iff (s : ClkTables) (t : DeviceTree) (sprtNode : Option ObjPtr)
    (devName : List Char) (name : Option (List UInt8)) (sgrtArgs : ObjPtr) (junk kzalloc : Nat) :
    LookupSafe s.toClks t sprtNode devName name sgrtArgs junk kzalloc ↔
      ∃ spec, clockSpec t sprtNode name sgrtArgs = .ok spec ∧
        ∀ found data index, spec = some found → Indexes s.toClks found junk data index →
          index < data.clksSize ∧ HasClk s.toClks data index := by
  constructor
  · rintro ⟨hinside, handle, s', hrun, -⟩
    obtain ⟨spec, hspec, hget⟩ := except_bind.mp hrun
    refine ⟨spec, hspec, ?_⟩
    rintro found data index rfl hindexes
    have hlt := hinside found data index hspec hindexes
    refine ⟨hlt, ?_⟩
    by_contra hhole
    exact (fwkClkGet_inside s hindexes hlt devName _ kzalloc).2 hhole _ hget
  · rintro ⟨spec, hspec, hsafe⟩
    have hcall : fwkClkGetByName s.toClks t sprtNode devName name sgrtArgs junk kzalloc =
        fwkClkGet s.toClks devName spec (name.map nameChars) junk kzalloc := by
      rw [fwkClkGetByName, hspec]
      rfl
    constructor
    · intro found data index hfound hindexes
      rw [hspec] at hfound
      exact (hsafe found data index (Except.ok.inj hfound) hindexes).1
    · rw [hcall]
      cases spec with
      | none => exact ⟨0, s.toClks, rfl, Or.inl rfl⟩
      | some found =>
        by_cases hany : ∃ data index, Indexes s.toClks found junk data index
        · obtain ⟨data, index, hindexes⟩ := hany
          obtain ⟨hlt, hregistered⟩ := hsafe found data index rfl hindexes
          obtain ⟨handle, s', hget, hmade⟩ :=
            (fwkClkGet_inside s hindexes hlt devName (name.map nameChars) kzalloc).1 hregistered
          exact ⟨handle, s', hget,
            hmade.imp id fun hnew => ⟨found, data, index, hspec, hindexes, hnew⟩⟩
        · have hnone : ∀ data index, ¬ Indexes s.toClks found junk data index :=
            fun data index hindexes => hany ⟨data, index, hindexes⟩
          exact ⟨0, s.toClks, fwkClkGet_none hnone devName _ kzalloc, Or.inl rfl⟩

/-- The clocks of `uartClks`: four places, and one clock that is registered, at the index 1. -/
def uartTables : ClkTables where
  toClks := ClkSystem.uartClks fun _ => 0#32
  ownCore := by
    intro a found h
    simp only [ClkSystem.uartClks, Function.update_apply] at h
    split at h
    · cases h
      symm
      assumption
    · cases h
  inMemory := by
    intro provider hprovider _
    rw [List.mem_singleton.mp hprovider]
    decide

/-- A provider with one cell, and a device whose only clock has this cell. -/
def clockTree (cell : Nat) : DeviceTree where
  allNodes := [⟨0x94000, by decide⟩, ⟨0x95000, by decide⟩]
  node := fun n =>
    if n.1 = 0x94000 then
      { fullName := cstring "/ccm", phandle := 1, parent := none,
        properties := [⟨cstring "#clock-cells", 0x3000, beBytes 1, by simp, beBytes_short 1⟩] }
    else
      { fullName := cstring "/serial", phandle := 2, parent := some ⟨0x94000, by decide⟩,
        properties := [⟨cstring "clocks", 0x4000, beBytes 1 ++ beBytes cell, by simp, by simp⟩] }
  nodup := by decide
  above := by
    intro n hn p hp
    rcases List.mem_pair.mp hn with rfl | rfl
    · cases hp
    · cases hp
      decide

/-- The cell 4 is behind the array, and at the cell 2 there is a hole. -/
theorem cell_is_not_checked :
    ¬ LookupSafe uartTables.toClks (clockTree 4) (some ⟨0x95000, by decide⟩) [] none
        ⟨0x96000, by decide⟩ 0 0xa0000 ∧
      ¬ LookupSafe uartTables.toClks (clockTree 2) (some ⟨0x95000, by decide⟩) [] none
        ⟨0x96000, by decide⟩ 0 0xa0000 := by
  constructor
  · intro h
    have hlt := h.inside ⟨0x94000, [4]⟩ ClkSystem.uartCell 4 (by rfl) ⟨_, rfl, rfl, by decide, rfl⟩
    exact absurd hlt (by decide)
  · rintro ⟨-, handle, s', hrun, -⟩
    have hspec : clockSpec (clockTree 2) (some ⟨0x95000, by decide⟩) none ⟨0x96000, by decide⟩ =
        .ok (some ⟨0x94000, [2]⟩) := by rfl
    obtain ⟨spec, hread, hget⟩ := except_bind.mp hrun
    rw [hspec] at hread
    cases hread
    obtain ⟨hw, hcore, -⟩ := except_bind.mp hget
    cases hcore

end HeavenFox.Platform
