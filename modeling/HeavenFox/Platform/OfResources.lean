/-
# HeavenFox.Platform.OfResources -- the resources of a device node

A platform device has a table of resources: the addresses of its `reg` property, and behind them
the numbers of its interrupts.  An interrupt is mapped when its resource is made, and the table is
left as it is behind the first one that cannot be mapped.

On a tree whose lists of names are lists of strings the addresses are read without more ado.  What
can go wrong is the interrupts and the size of the table: `pdataResources_returns_iff`.
-/
import HeavenFox.Platform.IrqDomainSound
import HeavenFox.Platform.OfIrq
import HeavenFox.Platform.OfMatch

namespace HeavenFox.Platform

open HeavenFox.Logic HeavenFox.Common
open IrqMaps (DescAlloc FwkOfPhandleArgs Mappable Sound)

/-! ## The cells of an address -/

/-- The loop of `fwk_of_n_size_cells` and of `fwk_of_n_addr_cells`. -/
def nCellsLoop (t : DeviceTree) (ptrName : List UInt8) : Nat → Option ObjPtr → Except Stop Nat
  | 0, _ => .error .spins
  | _ + 1, none => .ok 0
  | rounds + 1, some sprtNp => do
    let (retval, value) ← fwkOfPropertyReadU32 t (some sprtNp) ptrName
    if retval = 0 then pure (value.headD 0)
    else nCellsLoop t ptrName rounds (t.node sprtNp).parent

/-- `fwk_of_n_size_cells`. -/
def fwkOfNSizeCells (t : DeviceTree) (sprtNode : Option ObjPtr) : Except Stop Nat :=
  nCellsLoop t (cstring "#size-cells") walkRounds sprtNode

/-- `fwk_of_n_addr_cells`. -/
def fwkOfNAddrCells (t : DeviceTree) (sprtNode : Option ObjPtr) : Except Stop Nat :=
  nCellsLoop t (cstring "#address-cells") walkRounds sprtNode

/-! ## Resources -/

/-- The name of a resource: a string of a property, or the `full_name` of the node. -/
inductive ResourceName where
  | ptrString (ptr : Nat)
  | fullName (sprtNode : ObjPtr)
  deriving DecidableEq

/-- A `struct fwk_resources`. -/
structure FwkResources where
  name : Option ResourceName
  start : Nat
  endAddr : Nat
  type : Nat
  deriving DecidableEq

/-- What `kzalloc` makes of a resource. -/
def FwkResources.zero : FwkResources := ⟨none, 0, 0, 0⟩

/-- The size of a `struct fwk_resources`. -/
def resourceBytes : Nat := 16

/-- `NR_DEVICE_RESOURCE_MEM`. -/
def nrDeviceResourceMem : Nat := 0x200

/-- `NR_DEVICE_RESOURCE_IRQ`. -/
def nrDeviceResourceIrq : Nat := 0x400

/-- A resource is written to the table, which keeps the bits of the type that it has. -/
def putResource (table : List FwkResources) (i : Nat) (res : FwkResources) :
    Except Stop (List FwkResources) :=
  match table[i]? with
  | none => .error .fault
  | some old => .ok (table.set i { res with type := old.type ||| res.type })

/-- `regName` of both functions below. -/
def regName (t : DeviceTree) (sprtNode : ObjPtr) (ptrName : List UInt8) (index : Nat) :
    Except Stop ResourceName := do
  let (retval, ptrString) ← fwkOfPropertyReadStringIndex t (some sprtNode) ptrName index 0
  pure (if retval ≠ 0 then .fullName sprtNode else .ptrString ptrString)

/-- `fwk_of_address_to_resource`: what it returns, and what it assigns if that is no error. -/
def fwkOfAddressToResource (t : DeviceTree) (sprtNode : ObjPtr) (index : Nat) :
    Except Stop (Int × Option FwkResources) := do
  let cellsOfAddr ← fwkOfNAddrCells t (some sprtNode)
  let cellsOfSize ← fwkOfNSizeCells t (some sprtNode)
  if 1 < cellsOfAddr ∨ 1 < cellsOfSize then pure (-erUnvalid, none)
  else do
    let first := (index <<< 1) % 2 ^ 32
    let (retval, address) ← fwkOfPropertyReadU32Index t (some sprtNode) (cstring "reg") first
    if retval ≠ 0 then pure (-erFault, none)
    else do
      let (retval, size) ←
        fwkOfPropertyReadU32Index t (some sprtNode) (cstring "reg") (add32 first 1)
      if retval ≠ 0 then pure (-erFault, none)
      else do
        let name ← regName t sprtNode (cstring "reg-names") index
        pure (erNormal, some ⟨some name, address.headD 0,
          sub32 (add32 (address.headD 0) (size.headD 0)) 1, nrDeviceResourceMem⟩)

/-- `fwk_irq_of_parse_and_map`. -/
def fwkIrqOfParseAndMap (t : DeviceTree) (sprtNode : ObjPtr) (index : Nat)
    (alloc : DescAlloc × Option ObjPtr) (maps : IrqMaps) : Except Stop (Int × IrqMaps) := do
  let (retval, sgrtOld) ← fwkOfIrqParseOne t (some sprtNode) index
  if retval < 0 then pure (-erFaild, maps)
  else maps.fwkIrqCreateOfMapping sgrtOld alloc.1 alloc.2

/-- The loop of `fwk_of_irq_to_resource_table`, which begins at the resource `numRes` of the
table; `allocs` is what the memory gives for each interrupt. -/
def irqTableLoop (t : DeviceTree) (sprtNode : ObjPtr) (allocs : Nat → DescAlloc × Option ObjPtr)
    (numRes : Nat) : Nat → Nat → List FwkResources → IrqMaps →
      Except Stop (Int × List FwkResources × IrqMaps)
  | 0, _, table, maps => .ok (erNormal, table, maps)
  | rounds + 1, index, table, maps => do
    let (virq, maps) ← fwkIrqOfParseAndMap t sprtNode index (allocs index) maps
    if virq < 0 then pure (-erFaild, table, maps)
    else do
      let name ← regName t sprtNode (cstring "interrupt-names") index
      let table ← putResource table (numRes + index)
        ⟨some name, asUint32 virq, asUint32 virq, nrDeviceResourceIrq⟩
      irqTableLoop t sprtNode allocs numRes rounds (index + 1) table maps

/-- `fwk_of_irq_to_resource_table`. -/
def fwkOfIrqToResourceTable (t : DeviceTree) (sprtNode : ObjPtr)
    (allocs : Nat → DescAlloc × Option ObjPtr) (numRes nrIrqs : Nat) (table : List FwkResources)
    (maps : IrqMaps) : Except Stop (Int × List FwkResources × IrqMaps) :=
  irqTableLoop t sprtNode allocs numRes nrIrqs 0 table maps

/-! ## The table of a device -/

/-- The loop of `fwk_of_platform_device_create_pdata` that counts the addresses. -/
def numResLoop (t : DeviceTree) (sprtNode : ObjPtr) : Nat → Nat → Except Stop Nat
  | 0, _ => .error .spins
  | rounds + 1, numRes => do
    let (retval, _) ← fwkOfAddressToResource t sprtNode numRes
    if retval ≠ 0 then pure numRes else numResLoop t sprtNode rounds (add32 numRes 1)

/-- The loop of `fwk_of_platform_device_create_pdata` that fills the table. -/
def fillLoop (t : DeviceTree) (sprtNode : ObjPtr) :
    Nat → Nat → List FwkResources → Except Stop (List FwkResources)
  | 0, _, table => .ok table
  | rounds + 1, i, table => do
    let (_, res) ← fwkOfAddressToResource t sprtNode i
    let table ← res.elim (pure table) (putResource table i)
    fillLoop t sprtNode rounds (i + 1) table

/-- How many resources there is room for in a block for `num` of them: the size is a word. -/
def tableRoom (num : Nat) : Nat := num * resourceBytes % 2 ^ 32 / resourceBytes

/-- The part of `fwk_of_platform_device_create_pdata` that makes the table: `num_resources` and
`sprt_resources`.  Without a block the table is at a null pointer. -/
def pdataResources (t : DeviceTree) (sprtNode : ObjPtr) (granted : Bool)
    (allocs : Nat → DescAlloc × Option ObjPtr) (maps : IrqMaps) :
    Except Stop (Nat × List FwkResources × IrqMaps) := do
  let numRes ← numResLoop t sprtNode walkRounds 0
  let numIrq ← fwkOfIrqCount t (some sprtNode)
  let num := add32 numRes numIrq
  if num > 0 then do
    let table := List.replicate (if granted then tableRoom num else 0) FwkResources.zero
    let table ← fillLoop t sprtNode numRes 0 table
    -- an error can be permitted
    let (_, table, maps) ← fwkOfIrqToResourceTable t sprtNode allocs numRes numIrq table maps
    pure (num, table, maps)
  else pure (0, [], maps)

/-! ## Reading the addresses -/

/-- A tree whose names of addresses and interrupts are strings. -/
structure NamedTree extends ReadableTree where
  regNames : ∀ n ∈ allNodes, ∀ prop,
    toDeviceTree.prop (some n) (cstring "reg-names") = some prop → ∃ ss, prop.Strings ss
  interruptNames : ∀ n ∈ allNodes, ∀ prop,
    toDeviceTree.prop (some n) (cstring "interrupt-names") = some prop → ∃ ss, prop.Strings ss

variable {t : DeviceTree} {n : ObjPtr} {table : List FwkResources} {maps maps' : IrqMaps}
  {numRes rounds i : Nat} {allocs : Nat → DescAlloc × Option ObjPtr}

/-- The way up to the root ends. -/
theorem nCellsLoop_ok (ptrName : List UInt8) (hn : n ∈ t.allNodes)
    (hrounds : t.allNodes.idxOf n + 2 ≤ rounds) :
    ∃ cells, nCellsLoop t ptrName rounds (some n) = .ok cells := by
  induction rounds generalizing n with
  | zero => omega
  | succ rounds ih =>
    simp only [nCellsLoop, fwkOfPropertyReadU32_eq, bind, Except.bind, pure, Except.pure]
    cases t.cell (some n) ptrName 0 with
    | some cells => exact ⟨cells, rfl⟩
    | none =>
      show ∃ cells, nCellsLoop t ptrName rounds (t.node n).parent = .ok cells
      cases hp : (t.node n).parent with
      | none =>
        obtain ⟨left, rfl⟩ : ∃ left, rounds = left + 1 := ⟨rounds - 1, by omega⟩
        exact ⟨0, rfl⟩
      | some p =>
        have habove := t.above n hn p hp
        exact ih (t.parent_mem hn hp) (by omega)

theorem nCells_ok (ptrName : List UInt8) (hn : n ∈ t.allNodes) :
    ∃ cells, nCellsLoop t ptrName walkRounds (some n) = .ok cells := by
  apply nCellsLoop_ok ptrName hn
  have hlen := ObjPtr.length_of_nodup t.nodup
  have hidx := List.idxOf_lt_length_of_mem hn
  unfold walkRounds
  omega

/-- A name is read from a list of strings. -/
theorem regName_ok {ptrName : List UInt8}
    (hstrings : ∀ prop, t.prop (some n) ptrName = some prop → ∃ ss, prop.Strings ss)
    (index : Nat) : ∃ name, regName t n ptrName index = .ok name := by
  rw [regName]
  cases hprop : t.prop (some n) ptrName with
  | none =>
    have hfind : (fwkOfFindProperty t (some n) ptrName).1 = none := hprop
    rw [fwkOfPropertyReadStringIndex, hfind]
    exact ⟨_, rfl⟩
  | some prop =>
    obtain ⟨ss, hss⟩ := hstrings prop hprop
    rw [fwkOfPropertyReadStringIndex_eq hprop hss]
    exact ⟨_, rfl⟩

theorem cell_index_lt {sprtNode : Option ObjPtr} {ptrName : List UInt8} {index w : Nat}
    (h : t.cell sprtNode ptrName index = some w) : index < 2 ^ 30 := by
  obtain ⟨prop, -, hw⟩ := Option.bind_eq_some_iff.mp h
  obtain ⟨hlt, -⟩ := List.getElem?_eq_some_iff.mp hw
  have hplace := prop.words_place
  omega

/-- An address that is assigned. -/
def Assigns (t : DeviceTree) (n : ObjPtr) (i : Nat) : Prop :=
  ∃ res, fwkOfAddressToResource t n i = .ok (erNormal, some res)

namespace NamedTree

variable {t : NamedTree}

/-- **`fwk_of_address_to_resource`** returns, and assigns if it says so; then both words are there. -/
theorem fwkOfAddressToResource_ok (hn : n ∈ t.allNodes) (index : Nat) :
    ∃ retval res, fwkOfAddressToResource t.toDeviceTree n index = .ok (retval, res) ∧
      (retval = 0 → res.isSome = true ∧ (index <<< 1) % 2 ^ 32 < 2 ^ 30) := by
  obtain ⟨cellsOfAddr, haddr⟩ := nCells_ok (t := t.toDeviceTree) (cstring "#address-cells") hn
  obtain ⟨cellsOfSize, hsize⟩ := nCells_ok (t := t.toDeviceTree) (cstring "#size-cells") hn
  obtain ⟨name, hname⟩ := regName_ok (t.regNames n hn) index
  simp only [fwkOfAddressToResource, fwkOfNAddrCells, fwkOfNSizeCells, haddr, hsize, hname,
    fwkOfPropertyReadU32Index_eq, bind, Except.bind, pure, Except.pure]
  by_cases hcells : 1 < cellsOfAddr ∨ 1 < cellsOfSize
  · rw [if_pos hcells]
    exact ⟨_, _, rfl, fun h => absurd h (by decide)⟩
  rw [if_neg hcells]
  cases hfirst : t.cell (some n) (cstring "reg") ((index <<< 1) % 2 ^ 32) with
  | none => exact ⟨_, _, rfl, fun h => absurd h (by decide)⟩
  | some address =>
    have hlt := cell_index_lt hfirst
    cases t.cell (some n) (cstring "reg") (add32 ((index <<< 1) % 2 ^ 32) 1) with
    | none => exact ⟨_, _, rfl, fun h => absurd h (by decide)⟩
    | some size => exact ⟨_, _, rfl, fun _ => ⟨rfl, hlt⟩⟩

/-- The loop counts addresses, and there are not so many that the count wraps. -/
theorem numResLoop_ok (hn : n ∈ t.allNodes) (hbefore : ∀ i < numRes, Assigns t.toDeviceTree n i)
    (hle : numRes ≤ 2 ^ 29) (hrounds : 2 ^ 29 < numRes + rounds) :
    ∃ count, numResLoop t.toDeviceTree n rounds numRes = .ok count ∧ count ≤ 2 ^ 29 ∧
      ∀ i < count, Assigns t.toDeviceTree n i := by
  induction rounds generalizing numRes with
  | zero => omega
  | succ rounds ih =>
    obtain ⟨retval, res, hread, hassign⟩ := t.fwkOfAddressToResource_ok hn numRes
    simp only [numResLoop, hread, bind, Except.bind, pure, Except.pure]
    by_cases hretval : retval = 0
    · obtain ⟨hsome, hlt⟩ := hassign hretval
      obtain ⟨res, rfl⟩ := Option.isSome_iff_exists.mp hsome
      subst hretval
      -- the number of the first word is below 2^30, and it has not wrapped
      rw [Nat.shiftLeft_eq, Nat.mod_eq_of_lt (by omega)] at hlt
      rw [if_neg (by decide), add32_of_lt (by omega)]
      refine ih (fun i hi => ?_) (by omega) (by omega)
      rcases Nat.lt_succ_iff_lt_or_eq.mp hi with hlt | rfl
      · exact hbefore i hlt
      · exact ⟨res, hread⟩
    · rw [if_pos hretval]
      exact ⟨numRes, rfl, hle, hbefore⟩

end NamedTree

/-! ## Filling the table -/

theorem putResource_ok (res : FwkResources) (hi : i < table.length) :
    ∃ table', putResource table i res = .ok table' ∧ table'.length = table.length := by
  rw [putResource, List.getElem?_eq_getElem hi]
  exact ⟨_, rfl, List.length_set⟩

theorem putResource_fault {res : FwkResources} (hi : table.length ≤ i) :
    putResource table i res = .error .fault := by
  rw [putResource, List.getElem?_eq_none hi]

/-- Addresses are written as far as there is room for them. -/
theorem fillLoop_returns_iff (hassign : ∀ j, i ≤ j → j < i + rounds → Assigns t n j)
    (hi : i ≤ table.length) :
    (∃ table', fillLoop t n rounds i table = .ok table') ↔ i + rounds ≤ table.length := by
  induction rounds generalizing i table with
  | zero => exact iff_of_true ⟨table, rfl⟩ hi
  | succ rounds ih =>
    obtain ⟨res, hres⟩ := hassign i (Nat.le_refl i) (by omega)
    simp only [fillLoop, hres, bind, Except.bind, Option.elim_some]
    rcases Nat.lt_or_ge i table.length with hlt | hge
    · obtain ⟨table', hput, hlen⟩ := putResource_ok res hlt
      simp only [hput]
      rw [ih (fun j hj hj' => hassign j (by omega) (by omega)) (by omega), hlen, Nat.add_right_comm,
        Nat.add_assoc]
    · simp only [putResource_fault hge]
      exact iff_of_false not_returns (by omega)

theorem fillLoop_length {table' : List FwkResources}
    (hrun : fillLoop t n rounds i table = .ok table') : table'.length = table.length := by
  induction rounds generalizing i table with
  | zero =>
    cases hrun
    rfl
  | succ rounds ih =>
    obtain ⟨⟨retval, res⟩, -, hrest⟩ := except_bind.mp hrun
    obtain ⟨table₁, hput, hloop⟩ := except_bind.mp hrest
    rw [ih hloop]
    cases res with
    | none =>
      cases hput
      rfl
    | some res =>
      rcases Nat.lt_or_ge i table.length with hlt | hge
      · obtain ⟨table₂, hput', hlen⟩ := putResource_ok res hlt
        obtain rfl : table₂ = table₁ := Except.ok.inj (hput'.symm.trans hput)
        exact hlen
      · rw [Option.elim_some, putResource_fault hge] at hput
        cases hput

/-! ## Mapping the interrupts -/

/-- From `index` on the interrupts are mapped, and each has a place in a table of `room` resources,
up to the first that cannot be parsed or mapped. -/
def IrqsRead (t : DeviceTree) (n : ObjPtr) (allocs : Nat → DescAlloc × Option ObjPtr)
    (room numRes : Nat) : Nat → Nat → IrqMaps → Prop
  | 0, _, _ => True
  | rounds + 1, index, maps =>
    ∀ irq, fwkOfIrqParseOne t (some n) index = .ok (erNormal, some irq) →
      maps.Mappable irq ∧ ∀ virq maps',
        maps.fwkIrqCreateOfMapping (some irq) (allocs index).1 (allocs index).2 =
          .ok (virq, maps') → 0 ≤ virq →
        numRes + index < room ∧ IrqsRead t n allocs room numRes rounds (index + 1) maps'

variable {index : Nat} {owner : Nat → Option ObjPtr}

section IrqsRead

variable {irq : FwkOfPhandleArgs} {room : Nat} {virq : Int}

theorem irqsRead_unparsed (hparse : fwkOfIrqParseOne t (some n) index = .ok (-erFault, none)) :
    IrqsRead t n allocs room numRes (rounds + 1) index maps := by
  intro irq hirq
  rw [hparse] at hirq
  cases hirq

theorem IrqsRead.mappable (h : IrqsRead t n allocs room numRes (rounds + 1) index maps)
    (hparse : fwkOfIrqParseOne t (some n) index = .ok (erNormal, some irq)) :
    maps.Mappable irq :=
  (h irq hparse).1

/-- An interrupt that is parsed, and mapped or not. -/
theorem irqsRead_mapped (hparse : fwkOfIrqParseOne t (some n) index = .ok (erNormal, some irq))
    (hmap : maps.Mappable irq)
    (hcall : maps.fwkIrqCreateOfMapping (some irq) (allocs index).1 (allocs index).2 =
      .ok (virq, maps')) :
    IrqsRead t n allocs room numRes (rounds + 1) index maps ↔
      (0 ≤ virq → numRes + index < room ∧
        IrqsRead t n allocs room numRes rounds (index + 1) maps') := by
  constructor
  · intro h
    exact (h irq hparse).2 virq maps' hcall
  · intro hone irq' hparse'
    rw [hparse] at hparse'
    cases hparse'
    refine ⟨hmap, fun virq' maps'' hcall' => ?_⟩
    rw [hcall] at hcall'
    cases hcall'
    exact hone

end IrqsRead

/-- **`fwk_of_irq_to_resource_table`** returns if each of the interrupts can be read. -/
theorem irqTableLoop_returns_iff (h : maps.Sound owner) {sprtNp : Option ObjPtr}
    (hparent : fwkOfIrqParent t (some n) = .ok sprtNp)
    (hnames : ∀ index, ∃ name, regName t n (cstring "interrupt-names") index = .ok name) :
    (∃ result, irqTableLoop t n allocs numRes rounds index table maps = .ok result) ↔
      IrqsRead t n allocs table.length numRes rounds index maps := by
  induction rounds generalizing index table maps owner with
  | zero => exact iff_of_true ⟨_, rfl⟩ trivial
  | succ rounds ih =>
    have hparse := fwkOfIrqParseOne_eq hparent index
    rw [irqTableLoop, fwkIrqOfParseAndMap]
    split at hparse
    swap
    · -- it cannot be parsed, and the table is left as it is
      rw [hparse]
      exact iff_of_true ⟨_, rfl⟩ (irqsRead_unparsed hparse)
    rename_i hfits
    generalize (⟨sprtNp, _⟩ : FwkOfPhandleArgs) = irq at hparse
    have hreturns := h.create_returns_iff irq (allocs index).1 (allocs index).2
    rw [hparse]
    simp only [bind, Except.bind, show ¬ erNormal < 0 by decide, if_false]
    cases hcall : maps.fwkIrqCreateOfMapping (some irq) (allocs index).1 (allocs index).2 with
    | error stop =>
      rw [hcall] at hreturns
      refine iff_of_false not_returns fun hread => ?_
      obtain ⟨r, s', hrun⟩ := hreturns.mpr (hread.mappable hparse)
      cases hrun
    | ok mapped =>
      obtain ⟨virq, maps'⟩ := mapped
      obtain ⟨owner', h'⟩ := h.create_keeps hcall
      rw [irqsRead_mapped hparse (hreturns.mp ⟨virq, maps', hcall⟩) hcall]
      simp only
      by_cases hneg : virq < 0
      · rw [if_pos hneg]
        exact iff_of_true ⟨_, rfl⟩ fun hpos => absurd hpos (Int.not_le.mpr hneg)
      obtain ⟨name, hname⟩ := hnames index
      rw [if_neg hneg, hname, imp_iff_right (Int.not_lt.mp hneg)]
      simp only
      rcases Nat.lt_or_ge (numRes + index) table.length with hlt | hge
      · obtain ⟨table', hput, hlen⟩ := putResource_ok _ hlt
        rw [hput, and_iff_right hlt, ← hlen]
        exact ih h'
      · rw [putResource_fault hge]
        exact iff_of_false not_returns fun hin => Nat.not_lt.mpr hge hin.1

theorem irqTableLoop_keeps (h : maps.Sound owner) {result : Int × List FwkResources × IrqMaps}
    (hrun : irqTableLoop t n allocs numRes rounds index table maps = .ok result) :
    ∃ owner', result.2.2.Sound owner' := by
  induction rounds generalizing index table maps owner with
  | zero =>
    cases hrun
    exact ⟨owner, h⟩
  | succ rounds ih =>
    obtain ⟨⟨virq, maps₁⟩, hmap, hrest⟩ := except_bind.mp hrun
    obtain ⟨⟨retval, sgrtOld⟩, -, hcall⟩ := except_bind.mp hmap
    have h₁ : ∃ owner', maps₁.Sound owner' := by
      simp only at hcall
      split at hcall
      · cases hcall
        exact ⟨owner, h⟩
      · exact h.create_keeps hcall
    obtain ⟨owner₁, h₁⟩ := h₁
    simp only at hrest
    split at hrest
    · cases hrest
      exact ⟨owner₁, h₁⟩
    · obtain ⟨name, -, hput⟩ := except_bind.mp hrest
      obtain ⟨table₁, -, hloop⟩ := except_bind.mp hput
      exact ih h₁ hloop

/-! ## Making the table -/

/-- The interrupt parent of the node is found, the table has room for its addresses, and its
interrupts can be read. -/
structure NodeReads (t : DeviceTree) (n : ObjPtr) (allocs : Nat → DescAlloc × Option ObjPtr)
    (maps : IrqMaps) : Prop where
  parent : ∃ sprtNp, fwkOfIrqParent t (some n) = .ok sprtNp
  table : ∀ numRes numIrq, numResLoop t n walkRounds 0 = .ok numRes →
    fwkOfIrqCount t (some n) = .ok numIrq →
    numRes ≤ tableRoom (numRes + numIrq) ∧
      IrqsRead t n allocs (tableRoom (numRes + numIrq)) numRes numIrq 0 maps

/-- Counting the interrupts needs their parent. -/
theorem fwkOfIrqCount_parent {count : Nat} (hrun : fwkOfIrqCount t (some n) = .ok count) :
    ∃ sprtNp, fwkOfIrqParent t (some n) = .ok sprtNp := by
  obtain ⟨cells, hcells, -⟩ := except_bind.mp hrun
  obtain ⟨sprtNp, hparent, -⟩ := except_bind.mp hcells
  exact ⟨sprtNp, hparent⟩

theorem fwkOfIrqCount_le {count : Nat} (hrun : fwkOfIrqCount t (some n) = .ok count) :
    count ≤ 2 ^ 30 := by
  obtain ⟨sprtNp, hparent⟩ := fwkOfIrqCount_parent hrun
  obtain ⟨count', hrun', hcount⟩ := fwkOfIrqCount_spec hparent
  obtain rfl : count = count' := Except.ok.inj (hrun.symm.trans hrun')
  have hlen := t.irqWords_length n
  by_contra hmany
  obtain ⟨hpos, hlt⟩ := (hcount (2 ^ 30)).mp (by omega)
  have hle : 2 ^ 30 ≤ 2 ^ 30 * t.irqCells sprtNp := Nat.le_mul_of_pos_right _ hpos
  omega

/-- A node without interrupts can be read, if the table has room for its addresses. -/
theorem nodeReads_of_no_irqs (hcount : fwkOfIrqCount t (some n) = .ok 0)
    (hnum : numResLoop t n walkRounds 0 = .ok numRes) (hroom : numRes ≤ tableRoom numRes)
    (maps : IrqMaps) : NodeReads t n allocs maps where
  parent := fwkOfIrqCount_parent hcount
  table := by
    intro numRes' numIrq hnum' hcount'
    obtain rfl : numRes = numRes' := Except.ok.inj (hnum.symm.trans hnum')
    obtain rfl : 0 = numIrq := Except.ok.inj (hcount.symm.trans hcount')
    exact ⟨hroom, trivial⟩

namespace NamedTree

variable {t : NamedTree}

/-- **The table of a device** is made if its interrupts are. -/
theorem pdataResources_returns_iff (h : maps.Sound owner) (hn : n ∈ t.allNodes)
    (allocs : Nat → DescAlloc × Option ObjPtr) :
    (∃ result, pdataResources t.toDeviceTree n true allocs maps = .ok result) ↔
      NodeReads t.toDeviceTree n allocs maps := by
  have hbefore : ∀ i < 0, Assigns t.toDeviceTree n i := fun i hi => absurd hi (Nat.not_lt_zero i)
  obtain ⟨numRes, hnum, hfew, hassign⟩ := t.numResLoop_ok hn hbefore (Nat.zero_le _)
    (show 2 ^ 29 < 0 + walkRounds by decide)
  rw [pdataResources, hnum]
  simp only [bind, Except.bind]
  cases hcount : fwkOfIrqCount t.toDeviceTree (some n) with
  | error stop =>
    refine iff_of_false not_returns fun hreads => ?_
    obtain ⟨sprtNp, hparent⟩ := hreads.parent
    obtain ⟨count, hrun, -⟩ := fwkOfIrqCount_spec hparent
    rw [hcount] at hrun
    cases hrun
  | ok numIrq =>
    obtain ⟨sprtNp, hparent⟩ := fwkOfIrqCount_parent hcount
    have hle := fwkOfIrqCount_le hcount
    have hadd : add32 numRes numIrq = numRes + numIrq := add32_of_lt (by omega)
    have hreads : NodeReads t.toDeviceTree n allocs maps ↔ numRes ≤ tableRoom (numRes + numIrq) ∧
        IrqsRead t.toDeviceTree n allocs (tableRoom (numRes + numIrq)) numRes numIrq 0 maps := by
      constructor
      · intro hreads
        exact hreads.table numRes numIrq hnum hcount
      · refine fun hboth => ⟨⟨sprtNp, hparent⟩, fun numRes' numIrq' hnum' hcount' => ?_⟩
        obtain rfl : numRes = numRes' := Except.ok.inj (hnum.symm.trans hnum')
        obtain rfl : numIrq = numIrq' := Except.ok.inj (hcount.symm.trans hcount')
        exact hboth
    rw [hreads]
    simp only [hadd]
    rcases Nat.eq_zero_or_pos (numRes + numIrq) with hnone | hsome
    · -- neither addresses nor interrupts
      obtain ⟨rfl, rfl⟩ := Nat.add_eq_zero_iff.mp hnone
      exact iff_of_true ⟨_, rfl⟩ ⟨Nat.zero_le _, trivial⟩
    rw [if_pos hsome, if_pos trivial]
    have hfill : (∃ table', fillLoop t.toDeviceTree n numRes 0
        (List.replicate (tableRoom (numRes + numIrq)) FwkResources.zero) = .ok table') ↔
          0 + numRes ≤ (List.replicate (tableRoom (numRes + numIrq)) FwkResources.zero).length :=
      fillLoop_returns_iff (fun j _ hj => hassign j (by omega)) (Nat.zero_le _)
    rw [Nat.zero_add, List.length_replicate] at hfill
    cases htable : fillLoop t.toDeviceTree n numRes 0
        (List.replicate (tableRoom (numRes + numIrq)) FwkResources.zero) with
    | error stop =>
      rw [htable] at hfill
      exact iff_of_false not_returns fun hboth => not_returns (hfill.mpr hboth.1)
    | ok table =>
      have hlen := fillLoop_length htable
      rw [List.length_replicate] at hlen
      have hirqs : (∃ result, irqTableLoop t.toDeviceTree n allocs numRes numIrq 0 table maps =
          .ok result) ↔ IrqsRead t.toDeviceTree n allocs table.length numRes numIrq 0 maps :=
        irqTableLoop_returns_iff h hparent fun index => regName_ok (t.interruptNames n hn) index
      rw [and_iff_right (hfill.mp ⟨table, htable⟩), ← hlen, ← hirqs]
      simp only [fwkOfIrqToResourceTable]
      cases irqTableLoop t.toDeviceTree n allocs numRes numIrq 0 table maps with
      | error stop => exact iff_of_false not_returns not_returns
      | ok result => exact iff_of_true ⟨_, rfl⟩ ⟨_, rfl⟩

end NamedTree

theorem pdataResources_keeps (h : maps.Sound owner) {granted : Bool}
    {result : Nat × List FwkResources × IrqMaps}
    (hrun : pdataResources t n granted allocs maps = .ok result) :
    ∃ owner', result.2.2.Sound owner' := by
  obtain ⟨numRes, -, hrest⟩ := except_bind.mp hrun
  obtain ⟨numIrq, -, htable⟩ := except_bind.mp hrest
  simp only at htable
  split at htable
  · obtain ⟨table, -, hirqs⟩ := except_bind.mp htable
    obtain ⟨⟨retval, table', maps'⟩, hloop, hlast⟩ := except_bind.mp hirqs
    cases hlast
    exact irqTableLoop_keeps h hloop
  · cases htable
    exact ⟨owner, h⟩

end HeavenFox.Platform
