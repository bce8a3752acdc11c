/-
# HeavenFox.Platform.OfProperty -- the properties of a node

What the loop of `fwk_fdt_populate_node` over the properties does in a blob that
holds a tree.  The sizing pass writes nothing.  The filling pass writes the
records from the memory pointer on, links them one behind the other, and writes
nowhere else but into the name, the type and the phandle of the node.
-/
import HeavenFox.Platform.OfTree

namespace HeavenFox.Platform

open HeavenFox.Logic HeavenFox.Common

/-! ## Positions -/

namespace Fdt

variable (d : Fdt)

theorem valueAt_bounds (len p : Nat) : p ≤ d.valueAt len p ∧ d.valueAt len p < p + 8 := by
  unfold valueAt alignUp
  split
  · split <;> omega
  · omega

theorem itemEnd_ge (p : Nat) (item : OfItem) : p + 4 ≤ d.itemEnd p item := by
  cases item with
  | nop => exact Nat.le_refl _
  | prop name value =>
    have hvalue := d.valueAt_bounds value.length (p + 12)
    have halign := le_alignUp (d.valueAt value.length (p + 12) + value.length)
    rw [itemEnd]
    omega

theorem le_itemsEnd (items : List OfItem) (p : Nat) : p ≤ d.itemsEnd p items := by
  induction items generalizing p with
  | nil => exact Nat.le_refl p
  | cons item items ih =>
    have hitem := d.itemEnd_ge p item
    have hrest := ih (d.itemEnd p item)
    rw [itemsEnd]
    omega

theorem itemsAt_ge (p : Nat) (name : List UInt8) : p + 4 + (name.length + 1) ≤ itemsAt p name :=
  le_alignUp _

theorem le_forestEnd (f : OfForest) (p : Nat) : p ≤ d.forestEnd p f := by
  induction f generalizing p with
  | nil => exact Nat.le_refl p
  | node name items children nops siblings ihc ihs =>
    have hname := itemsAt_ge p name
    have hitems := d.le_itemsEnd items (itemsAt p name)
    have hchildren := ihc (d.itemsEnd (itemsAt p name) items)
    have hsiblings := ihs (d.forestEnd (d.itemsEnd (itemsAt p name) items) children + 4 + 4 * nops)
    rw [forestEnd]
    omega

end Fdt

/-! ## What stays as it is -/

/-- The bytes of the blob and of the literal `"name"`. -/
def OfImage.Const (img : OfImage) (d : Fdt) (x : Nat) : Prop :=
  (d.base ≤ x ∧ x < d.base + d.len) ∨ (img.strName ≤ x ∧ x < img.strName + 5)

/-- The kernel with its variable and its literal, and the blob, are in the memory.  What is constant
of them has the bytes it was loaded with. -/
structure Loaded (img : OfImage) (d : Fdt) (s : Ram) : Prop where
  blob : ⟨d.base, d.len⟩ ∈ s.fixed
  strName : ⟨img.strName, 5⟩ ∈ s.fixed
  allNodes : ⟨img.allNodes, 4⟩ ∈ s.fixed
  const : ∀ x, img.Const d x → s.bytes x = d.bytes x
  place : 0 < d.base ∧ d.base + d.len ≤ 0xfffff000
  header : 40 ≤ d.len
  name : 0 < img.strName ∧ img.strName + 5 ≤ 0xfffff000 ∧
    CStrAt d.bytes img.strName (cstring "name")
  head : isValid img.allNodes = true ∧ img.allNodes % 4 = 0 ∧
    ∀ x, img.allNodes ≤ x → x < img.allNodes + 4 → ¬ img.Const d x

namespace Loaded

variable {img : OfImage} {d : Fdt} {s : Ram}

/-- Stores that miss what is constant. -/
theorem put (hs : Loaded img d s) {m : Mem} {W : Nat → Prop} (hm : ChangedIn W s.bytes m)
    (hW : ∀ x, img.Const d x → ¬ W x) : Loaded img d (s.put m) where
  blob := hs.blob
  strName := hs.strName
  allNodes := hs.allNodes
  const := fun x hx => (hm x (hW x hx)).trans (hs.const x hx)
  place := hs.place
  header := hs.header
  name := hs.name
  head := hs.head

theorem agreeOn (hs : Loaded img d s) {lo hi : Nat} (hlo : d.base ≤ lo) (hhi : hi ≤ d.base + d.len) :
    AgreeOn d.bytes s.bytes lo hi :=
  fun x hx hx' => hs.const x (.inl ⟨by omega, by omega⟩)

theorem live (hs : Loaded img d s) {a n : Nat} (hlo : d.base ≤ a) (hhi : a + n ≤ d.base + d.len) :
    s.Live a n :=
  (Ram.Live.of_fixed hs.blob).mono hlo hhi

/-- A word of the blob. -/
theorem be32 (hs : Loaded img d s) {a : Nat} (hlo : d.base ≤ a) (hhi : a + 4 ≤ d.base + d.len) :
    be32ToCpup a s = .ok (loadBe32 d.bytes a, s) := by
  rw [be32ToCpup_run (hs.live hlo hhi), (hs.agreeOn hlo hhi).loadBe32 (Nat.le_refl a) (Nat.le_refl _)]

/-- A string of the blob. -/
theorem cstr (hs : Loaded img d s) {a : Nat} {l : List UInt8} (h : CStrAt d.bytes a l)
    (hlo : d.base ≤ a) (hhi : a + (l.length + 1) ≤ d.base + d.len) : CStrAt s.bytes a l :=
  h.congr (hs.agreeOn hlo (by omega))

theorem strcmp (hs : Loaded img d s) {a : Nat} {l l' : List UInt8} (h : CStrAt d.bytes a l)
    (hlo : d.base ≤ a) (hhi : a + (l.length + 1) ≤ d.base + d.len) (hl' : 0 ∉ l') :
    strcmp l' a s = .ok (decide (l' = l), s) :=
  strcmp_run (hs.cstr h hlo hhi) (hs.live hlo hhi) hl'

/-- The literal `"name"`. -/
theorem literal (hs : Loaded img d s) : CStrAt s.bytes img.strName (cstring "name") :=
  hs.name.2.2.congr fun x hlo hhi => hs.const x (.inr ⟨hlo, hhi⟩)

end Loaded

variable {img : OfImage} {d : Fdt} {s : Ram} {alloc : Kzalloc}

/-! ## Properties -/

/-- The words of the property at `q`. -/
structure PropWords (m : Mem) (q name length value next : Nat) : Prop where
  name : load32 m q = name
  length : load32 m (q + 4) = length
  value : load32 m (q + 8) = value
  next : load32 m (q + 12) = next

/-- The phandle of the node so far, behind the item at `p`. -/
def itemPhandle (d : Fdt) (p phandle : Nat) : OfItem → Nat
  | .nop => phandle
  | .prop name value =>
    if cstring "phandle" = name then loadBe32 d.bytes (d.valueAt value.length (p + 12)) else phandle

theorem fillNodeInfo_run {node ptrName ptrValue : Nat} {name : List UInt8} (hs : Loaded img d s)
    (hname : CStrAt d.bytes ptrName name) (hlo : d.base ≤ ptrName)
    (hhi : ptrName + (name.length + 1) ≤ d.base + d.len) (hvlo : d.base ≤ ptrValue)
    (hvhi : ptrValue + 4 ≤ d.base + d.len) (hnode : s.Live node 12) :
    ∃ m, fillNodeInfo node ptrName ptrValue s = .ok ((), s.put m) ∧
      ChangedIn (fun x => node ≤ x ∧ x < node + 12) s.bytes m ∧
      load32 m (node + 8) =
        if cstring "phandle" = name then loadBe32 d.bytes ptrValue
        else load32 s.bytes (node + 8) := by
  have hisName : strcmp (cstring "name") ptrName s = _ := hs.strcmp hname hlo hhi (by decide)
  have hisType : strcmp (cstring "device_type") ptrName s = _ :=
    hs.strcmp hname hlo hhi (by decide)
  have hisPhandle : strcmp (cstring "phandle") ptrName s = _ := hs.strcmp hname hlo hhi (by decide)
  unfold fillNodeInfo nodeName nodeType nodePhandle
  rw [RamM.bind_ok hisName]
  by_cases h1 : cstring "name" = name
  · have hne : cstring "phandle" ≠ name := h1 ▸ by decide
    rw [if_pos (decide_eq_true h1), putWord_run (hnode.mono (by omega) (by omega)), if_neg hne]
    refine ⟨_, rfl, (changedIn_store32 _ _ _).mono fun x hx => by omega, ?_⟩
    exact load32_store32_of_disjoint (by omega)
  rw [if_neg (by simpa using h1), RamM.bind_ok hisType]
  by_cases h2 : cstring "device_type" = name
  · have hne : cstring "phandle" ≠ name := h2 ▸ by decide
    rw [if_pos (decide_eq_true h2), putWord_run (hnode.mono (by omega) (by omega)), if_neg hne]
    refine ⟨_, rfl, (changedIn_store32 _ _ _).mono fun x hx => by omega, ?_⟩
    exact load32_store32_of_disjoint (by omega)
  rw [if_neg (by simpa using h2), RamM.bind_ok hisPhandle]
  by_cases h3 : cstring "phandle" = name
  · rw [if_pos (decide_eq_true h3), RamM.bind_ok (hs.be32 hvlo hvhi),
      putWord_run (hnode.mono (by omega) (by omega)), if_pos h3]
    refine ⟨_, rfl, (changedIn_store32 _ _ _).mono fun x hx => by omega, ?_⟩
    rw [load32_store32_same, Nat.mod_eq_of_lt (loadBe32_lt _ _)]
  · rw [if_neg (by simpa using h3), if_neg h3]
    exact ⟨s.bytes, rfl, ChangedIn.refl _ _, rfl⟩

theorem storeProp_words (m : Mem) (q : Nat) {name length value : Nat} (hname : name < 2 ^ 32)
    (hlength : length < 2 ^ 32) (hvalue : value < 2 ^ 32) :
    PropWords
      (store32 (store32 (store32 (store32 m q name) (q + 4) length) (q + 8) value) (q + 12) 0)
      q name length value 0 where
  name := by
    rw [load32_store32_of_disjoint (by omega), load32_store32_of_disjoint (by omega),
      load32_store32_of_disjoint (by omega), load32_store32_same, Nat.mod_eq_of_lt hname]
  length := by
    rw [load32_store32_of_disjoint (by omega), load32_store32_of_disjoint (by omega),
      load32_store32_same, Nat.mod_eq_of_lt hlength]
  value := by
    rw [load32_store32_of_disjoint (by omega), load32_store32_same, Nat.mod_eq_of_lt hvalue]
  next := load32_store32_same _ _ _

theorem storeProp_changedIn (m : Mem) (q name length value : Nat) :
    ChangedIn (fun x => q ≤ x ∧ x < q + 16) m
      (store32 (store32 (store32 (store32 m q name) (q + 4) length) (q + 8) value) (q + 12) 0) := by
  intro x hx
  rw [store32_of_outside (by omega), store32_of_outside (by omega), store32_of_outside (by omega),
    store32_of_outside (by omega)]

theorem PropWords.frame {m m' : Mem} {W : Nat → Prop} {q name length value next : Nat}
    (h : PropWords m q name length value next) (hm : ChangedIn W m m')
    (hW : ∀ x, q ≤ x → x < q + 16 → ¬ W x) : PropWords m' q name length value next where
  name := (hm.load32 fun x hlo hhi => hW x (by omega) (by omega)).trans h.name
  length := (hm.load32 fun x hlo hhi => hW x (by omega) (by omega)).trans h.length
  value := (hm.load32 fun x hlo hhi => hW x (by omega) (by omega)).trans h.value
  next := (hm.load32 fun x hlo hhi => hW x (by omega) (by omega)).trans h.next

/-- **The record of a property** is written into the `16` bytes at `q`; of the node only its name,
its type and its phandle may change. -/
theorem fillProperty_run {node q ptrName length ptrValue : Nat} {name : List UInt8}
    (hs : Loaded img d s) (hname : CStrAt d.bytes ptrName name) (hlo : d.base ≤ ptrName)
    (hhi : ptrName + (name.length + 1) ≤ d.base + d.len) (hvlo : d.base ≤ ptrValue)
    (hvhi : ptrValue + 4 ≤ d.base + d.len) (hlength : length < 2 ^ 32) (hnode : s.Live node 12)
    (hq : s.Live q 16) (hapart : node + 12 ≤ q)
    (hconst : ∀ x, q ≤ x → x < q + 16 → ¬ img.Const d x) :
    ∃ m, fillProperty node q ptrName length ptrValue s = .ok ((), s.put m) ∧
      ChangedIn (fun x => (q ≤ x ∧ x < q + 16) ∨ (node ≤ x ∧ x < node + 12)) s.bytes m ∧
      PropWords m q ptrName length ptrValue 0 ∧
      load32 m (node + 8) =
        if cstring "phandle" = name then loadBe32 d.bytes ptrValue
        else load32 s.bytes (node + 8) := by
  have hplace := hs.place
  have hwords := storeProp_words s.bytes q (show ptrName < 2 ^ 32 by omega) hlength
    (show ptrValue < 2 ^ 32 by omega)
  have hchanged := storeProp_changedIn s.bytes q ptrName length ptrValue
  have hs' := hs.put hchanged fun x hx hW => hconst x hW.1 hW.2 hx
  obtain ⟨m, hrun, hm, hphandle⟩ := fillNodeInfo_run hs' hname hlo hhi hvlo hvhi
    (show Ram.Live _ node 12 by simpa using hnode)
  have hold : load32 (store32 (store32 (store32 (store32 s.bytes q ptrName) (q + 4) length) (q + 8)
      ptrValue) (q + 12) 0) (node + 8) = load32 s.bytes (node + 8) :=
    hchanged.load32 fun x _ _ => by omega
  refine ⟨m, ?_, ?_, hwords.frame hm fun x _ _ => by omega, ?_⟩
  · unfold fillProperty propName propLength propValue propNext
    rw [Nat.add_zero, RamM.bind_ok (putWord_run (hq.mono (by omega) (by omega))),
      RamM.bind_ok (putWord_run (by simpa using hq.mono (by omega) (by omega))),
      RamM.bind_ok (putWord_run (by simpa using hq.mono (by omega) (by omega))),
      RamM.bind_ok (putWord_run (by simpa using hq.mono (by omega) (by omega)))]
    exact hrun
  · exact (hchanged.mono fun x hx => .inl hx).trans (hm.mono fun x hx => .inr hx)
  · rw [hphandle, Ram.put_bytes, hold]

theorem valueStart_eq {length p : Nat} (h : p + 7 < 2 ^ 32) :
    valueStart d.version length p = d.valueAt length p := by
  unfold valueStart Fdt.valueAt
  split
  · split
    · exact mrtAlign_eight h
    · exact mrtAlign_four (by omega)
  · rfl

theorem memoryCalculate_eq {mem size : Nat} (h : mem + size + 3 < 2 ^ 32) :
    fwkFdtMemoryCalculate mem size ofAlign = (alignUp 4 mem, alignUp 4 mem + size) := by
  have hlt := alignUp_lt mem
  unfold fwkFdtMemoryCalculate ofAlign
  rw [mrtAlign_four (by omega), add32_of_lt (by omega)]

/-- A tag that is no property is left to the caller. -/
theorem populateProperties_other {p mem node next : Nat} {named : Bool} (hs : Loaded img d s)
    (hlo : d.base ≤ p) (hhi : p + 4 ≤ d.base + d.len) (htag : loadBe32 d.bytes p ≠ fdtNodeProp) :
    fwkFdtPopulateProperties d.base p mem node next named s = .ok (⟨0, p, mem, named⟩, s) := by
  rw [fwkFdtPopulateProperties, RamM.bind_ok (hs.be32 hlo hhi), if_pos htag]
  rfl

section Property

variable {p mem node : Nat} {named : Bool} {name value : List UInt8} (hs : Loaded img d s)
  (hlo : d.base ≤ p) (hitem : d.HoldsItem p (.prop name value))
  (hend : d.itemEnd p (.prop name value) + 4 ≤ d.base + d.len)

include hitem hend in
omit hs hlo in
/-- Where the value of a property and the words before it stand. -/
theorem propBounds : d.base ≤ d.nameAt p ∧ d.nameAt p + (name.length + 1) ≤ d.base + d.len ∧
    p + 12 ≤ d.valueAt value.length (p + 12) ∧
    d.valueAt value.length (p + 12) + value.length ≤ d.itemEnd p (.prop name value) ∧
    p + 12 + 4 ≤ d.base + d.len ∧ d.valueAt value.length (p + 12) + 4 ≤ d.base + d.len := by
  obtain ⟨-, -, -, hname, -⟩ := hitem
  have hvalue := d.valueAt_bounds value.length (p + 12)
  have halign := le_alignUp (d.valueAt value.length (p + 12) + value.length)
  have hbase : d.base ≤ d.nameAt p := by
    unfold Fdt.nameAt
    omega
  rw [Fdt.itemEnd] at hend ⊢
  exact ⟨hbase, hname, by omega, by omega, by omega, by omega⟩

include hs hitem hend hlo

/-- What the two passes read of a property before they part. -/
theorem populateProperties_read {next : Nat} (hmem : mem + 16 + 3 < 2 ^ 32) :
    fwkFdtPopulateProperties d.base p mem node next named s =
      (do
        let _ ← (if isValid next then fillProperty node (alignUp 4 mem) (d.nameAt p) value.length
            (d.valueAt value.length (p + 12))
          else pure ())
        let _ ← be32ToCpup (d.itemEnd p (.prop name value))
        pure ⟨alignUp 4 mem, d.itemEnd p (.prop name value), alignUp 4 mem + 16,
          decide (cstring "name" = name) || named⟩ : RamM PropertyAt) s := by
  have hplace := hs.place
  have hheader := hs.header
  obtain ⟨hnlo, hnhi, hvlo, hvhi, hwords, hvalue⟩ := propBounds hitem hend
  obtain ⟨htag, hlen, hname, -, -⟩ := hitem
  have hisName : strcmp (cstring "name") (d.nameAt p) s = _ :=
    hs.strcmp hname hnlo hnhi (by decide)
  have hnameAt : d.nameAt p = d.base + d.offDtStrings + loadBe32 d.bytes (p + 8) := rfl
  have hstrings : add32 (add32 d.base d.offDtStrings) (loadBe32 d.bytes (p + 8)) = d.nameAt p := by
    have hsum : add32 d.base d.offDtStrings = d.base + d.offDtStrings := add32_of_lt (by omega)
    rw [hsum, add32_of_lt (by omega), hnameAt]
  have hnext : mrtAlign (add32 (d.valueAt value.length (p + 12)) value.length) 4 =
      d.itemEnd p (.prop name value) := by
    rw [add32_of_lt (by omega), mrtAlign_four (by omega), Fdt.itemEnd]
  have hoff : loadBe32 d.bytes (d.base + 12) = d.offDtStrings := rfl
  have hversion : loadBe32 d.bytes (d.base + 20) = d.version := rfl
  have hvalueStart := @valueStart_eq d value.length (p + 12) (by omega)
  have hmove4 : add32 p 4 = p + 4 := add32_of_lt (by omega)
  have hmove8 : add32 p 8 = p + 8 := add32_of_lt (by omega)
  have hmove12 : add32 p 12 = p + 12 := add32_of_lt (by omega)
  unfold fwkFdtPopulateProperties fdtVersion fdtOffDtStrings propSize
  rw [RamM.bind_ok (hs.be32 hlo (by omega)), if_neg (by simp [htag]), hmove4,
    RamM.bind_ok (hs.be32 (by omega) (by omega)), hlen, hmove8,
    RamM.bind_ok (hs.be32 (by omega) (by omega)), RamM.bind_ok (hs.be32 (by omega) (by omega)),
    RamM.bind_ok (hs.be32 (by omega) (by omega)), hmove12]
  simp only [hoff, hversion, hstrings, hvalueStart, hnext, memoryCalculate_eq hmem]
  rw [RamM.bind_ok hisName]

/-- **A property in the sizing pass**: only its size is counted. -/
theorem populateProperties_size (hmem : mem + 16 + 3 < 2 ^ 32) :
    fwkFdtPopulateProperties d.base p mem node 0 named s =
      .ok (⟨alignUp 4 mem, d.itemEnd p (.prop name value), alignUp 4 mem + 16,
        decide (cstring "name" = name) || named⟩, s) := by
  have hnull : isValid 0 = false := by decide
  have hlo' := d.itemEnd_ge p (.prop name value)
  rw [populateProperties_read hs hlo hitem hend hmem, hnull, if_neg (by decide),
    RamM.bind_ok (RamM.pure_run () s), RamM.bind_ok (hs.be32 (by omega) hend)]
  rfl

variable (named) in
/-- **A property in the filling pass.** -/
theorem populateProperties_fill {next : Nat} (hnext : isValid next = true)
    (hmem : mem + 16 + 3 < 2 ^ 32) (hnode : s.Live node 12) (hq : s.Live (alignUp 4 mem) 16)
    (hapart : node + 12 ≤ alignUp 4 mem)
    (hconst : ∀ x, node ≤ x → x < alignUp 4 mem + 16 → ¬ img.Const d x) :
    ∃ m, fwkFdtPopulateProperties d.base p mem node next named s =
        .ok (⟨alignUp 4 mem, d.itemEnd p (.prop name value), alignUp 4 mem + 16,
          decide (cstring "name" = name) || named⟩, s.put m) ∧
      ChangedIn (fun x => (alignUp 4 mem ≤ x ∧ x < alignUp 4 mem + 16) ∨
        (node ≤ x ∧ x < node + 12)) s.bytes m ∧
      PropWords m (alignUp 4 mem) (d.nameAt p) value.length (d.valueAt value.length (p + 12)) 0 ∧
      load32 m (node + 8) = itemPhandle d p (load32 s.bytes (node + 8)) (.prop name value) := by
  have hplace := hs.place
  have hlo' := d.itemEnd_ge p (.prop name value)
  obtain ⟨hnlo, hnhi, hvlo, hvhi, -, hvalue⟩ := propBounds hitem hend
  obtain ⟨m, hrun, hm, hwords, hphandle⟩ := fillProperty_run hs hitem.2.2.1 hnlo hnhi
    (show d.base ≤ d.valueAt value.length (p + 12) by omega) hvalue
    (show value.length < 2 ^ 32 by omega) hnode hq hapart
    fun x hxlo hxhi => hconst x (by omega) hxhi
  have hs' : Loaded img d (s.put m) := hs.put hm fun x hx hW => by
    rcases hW with hW | hW
    · exact hconst x (by omega) hW.2 hx
    · exact hconst x hW.1 (by omega) hx
  refine ⟨m, ?_, hm, hwords, hphandle⟩
  rw [populateProperties_read hs hlo hitem hend hmem, hnext, if_pos rfl, RamM.bind_ok hrun,
    RamM.bind_ok (hs'.be32 (by omega) hend)]
  rfl

end Property

/-! ## The properties of a node -/

/-- The tags of the items at `p`. -/
def itemTokens (d : Fdt) : Nat → List OfItem → List Nat
  | _, [] => []
  | p, item :: items => p :: itemTokens d (d.itemEnd p item) items

/-- The phandle of the node behind the items at `p`. -/
def itemsPhandle (d : Fdt) : Nat → Nat → List OfItem → Nat
  | _, phandle, [] => phandle
  | p, phandle, item :: items =>
    itemsPhandle d (d.itemEnd p item) (itemPhandle d p phandle item) items

/-- The properties `props` are linked from `q` on, up to where the pointer is `r`. -/
def PropSeg (m : Mem) (r : Nat) : Nat → List (List UInt8 × List UInt8) → Prop
  | q, [] => q = r
  | q, (name, value) :: props =>
    q ≠ 0 ∧ CStrAt m (load32 m q) name ∧ load32 m (q + 4) = value.length ∧
      BytesAt m (load32 m (q + 8)) value ∧ PropSeg m r (load32 m (q + 12)) props

/-- The tags behind the items are neither NOPs nor properties. -/
structure ItemsHeld (d : Fdt) (p : Nat) (items : List OfItem) : Prop where
  lo : d.base ≤ p
  holds : d.HoldsItems p items
  nop : loadBe32 d.bytes (d.itemsEnd p items) ≠ fdtNodeNop
  prop : loadBe32 d.bytes (d.itemsEnd p items) ≠ fdtNodeProp
  hi : d.itemsEnd p items + 4 ≤ d.base + d.len

theorem ItemsHeld.tail {p : Nat} {item : OfItem} {items : List OfItem}
    (h : ItemsHeld d p (item :: items)) : ItemsHeld d (d.itemEnd p item) items where
  lo := Nat.le_trans h.lo (Nat.le_trans (Nat.le_add_right p 4) (d.itemEnd_ge p item))
  holds := h.holds.2
  nop := h.nop
  prop := h.prop
  hi := h.hi

theorem ItemsHeld.head {p : Nat} {item : OfItem} {items : List OfItem}
    (h : ItemsHeld d p (item :: items)) : d.itemEnd p item + 4 ≤ d.base + d.len := by
  have hle := d.le_itemsEnd items (d.itemEnd p item)
  have hhi := h.hi
  rw [Fdt.itemsEnd] at hhi
  omega

theorem ItemsHeld.tag {p : Nat} {item : OfItem} {items : List OfItem}
    (h : ItemsHeld d p (item :: items)) : p + 4 ≤ d.base + d.len := by
  have hge := d.itemEnd_ge p item
  have hhead := h.head
  omega

theorem Fdt.HoldsItem.notNop {p : Nat} {name value : List UInt8}
    (h : d.HoldsItem p (.prop name value)) : loadBe32 d.bytes p ≠ fdtNodeNop := by
  rw [h.1]
  decide

/-- Every item takes a round, and four bytes. -/
theorem ItemsHeld.rounds {p : Nat} {items : List OfItem} (h : ItemsHeld d p items) :
    p + 4 * items.length ≤ d.itemsEnd p items := by
  induction items generalizing p with
  | nil => exact Nat.le_refl p
  | cons item items ih =>
    have hstep := d.itemEnd_ge p item
    have hrest := ih h.tail
    rw [Fdt.itemsEnd, List.length_cons]
    omega

theorem ofNamed_cons (name value : List UInt8) (items : List OfItem) :
    ofNamed (.prop name value :: items) = (decide (cstring "name" = name) || ofNamed items) := by
  simp [ofNamed, ofProps, eq_comm]

section Loop

variable {node prev : Nat}

/-- The loop leaves at a tag that is neither a NOP nor a property. -/
theorem propertyLoop_leave {p mem next rounds : Nat} {named : Bool} {toks : List Nat}
    (hs : Loaded img d s) (h : ItemsHeld d p []) :
    propertyLoop d.base node next (rounds + 1) ⟨p, mem, prev, named, toks⟩ s =
      .ok (⟨p, mem, prev, named, toks⟩, s) := by
  have hother : fwkFdtPopulateProperties d.base p mem node next named s = _ :=
    populateProperties_other hs h.lo h.hi h.prop
  have hnop : loadBe32 d.bytes p ≠ fdtNodeNop := h.nop
  rw [propertyLoop, RamM.bind_ok (hs.be32 h.lo h.hi), if_neg hnop, RamM.bind_ok hother]
  rfl

theorem propertyLoop_nop {p mem next rounds : Nat} {named : Bool} {toks : List Nat}
    {items : List OfItem} (hs : Loaded img d s) (h : ItemsHeld d p (.nop :: items)) :
    propertyLoop d.base node next (rounds + 1) ⟨p, mem, prev, named, toks⟩ s =
      propertyLoop d.base node next rounds
        ⟨d.itemEnd p .nop, mem, prev, named, toks ++ [p]⟩ s := by
  have hplace := hs.place
  have hhead : p + 4 + 4 ≤ d.base + d.len := h.head
  have htag : loadBe32 d.bytes p = fdtNodeNop := h.holds.1
  have hmove : add32 p 4 = d.itemEnd p .nop := add32_of_lt (by omega)
  rw [propertyLoop, RamM.bind_ok (hs.be32 h.lo (by omega)), if_pos htag]
  simp only [hmove]

/-- **The properties in the sizing pass**: nothing is written. -/
theorem propertyLoop_size {items : List OfItem} {p mem rounds : Nat} {named : Bool}
    {toks : List Nat} (hs : Loaded img d s) (h : ItemsHeld d p items)
    (hmem : itemsMem mem items ≤ 0xfffff000) (hpos : 0 < mem) (hrounds : items.length < rounds) :
    propertyLoop d.base node 0 rounds ⟨p, mem, prev, named, toks⟩ s =
      .ok (⟨d.itemsEnd p items, itemsMem mem items, prev, named || ofNamed items,
        toks ++ itemTokens d p items⟩, s) := by
  induction items generalizing p mem rounds named toks with
  | nil =>
    obtain ⟨rounds, rfl⟩ : ∃ r, rounds = r + 1 := ⟨rounds - 1, by simp at hrounds; omega⟩
    rw [propertyLoop_leave hs h]
    simp [Fdt.itemsEnd, itemsMem, itemTokens, ofNamed, ofProps]
  | cons item items ih =>
    obtain ⟨rounds, rfl⟩ : ∃ r, rounds = r + 1 := ⟨rounds - 1, by simp at hrounds; omega⟩
    rw [List.length_cons] at hrounds
    cases item with
    | nop =>
      rw [propertyLoop_nop hs h, ih h.tail hmem hpos (by omega)]
      simp [Fdt.itemsEnd, itemsMem, itemTokens, ofNamed, ofProps]
    | prop name value =>
      have hle := le_itemsMem items (alignUp 4 mem + propSize)
      have halign := le_alignUp mem
      rw [itemsMem] at hmem
      unfold propSize at hmem hle
      have hvalid : isValid (alignUp 4 mem) = true := isValid_iff.mpr ⟨by omega, by omega⟩
      have hpop : fwkFdtPopulateProperties d.base p mem node 0 named s = _ :=
        populateProperties_size hs h.lo h.holds.1 h.head (by omega)
      have hnotNop : loadBe32 d.bytes p ≠ fdtNodeNop := h.holds.1.notNop
      have hnull : isValid 0 = false := by decide
      have hhead := h.tag
      rw [propertyLoop, RamM.bind_ok (hs.be32 h.lo hhead), if_neg hnotNop,
        RamM.bind_ok hpop, if_pos hvalid, hnull, if_neg (by decide),
        RamM.bind_ok (RamM.pure_run prev s), ih h.tail hmem (by omega) (by omega), ofNamed_cons]
      simp [Fdt.itemsEnd, itemsMem, itemTokens, propSize, Bool.or_left_comm, Bool.or_assoc]

end Loop

/-- What the filling pass has made of the memory `m` behind the properties of a node: `m'`.  Their
records are in the memory from `mem` on, and linked from the word at `prev`; the chain rests on that
word and on the records, but for the last link, which is at `prev'`. -/
structure PropsFilled (img : OfImage) (d : Fdt) (p node mem prev prev' : Nat) (items : List OfItem)
    (m m' : Mem) : Prop where
  changed : ChangedIn (fun x => (mem ≤ x ∧ x < itemsMem mem items) ∨ (node ≤ x ∧ x < node + 12) ∨
    (prev ≤ x ∧ x < prev + 4)) m m'
  link : prev' = prev ∨ mem ≤ prev'
  room : prev' + 4 ≤ itemsMem mem items
  last : load32 m prev = 0 → load32 m' prev' = 0
  phandle : load32 m' (node + 8) = itemsPhandle d p (load32 m (node + 8)) items
  chain : RestsOn (fun x => img.Const d x ∨ (¬ (prev' ≤ x ∧ x < prev' + 4) ∧
      ((mem ≤ x ∧ x < itemsMem mem items) ∨ (prev ≤ x ∧ x < prev + 4)))) m'
    (fun m => PropSeg m (load32 m prev') (load32 m prev) (ofProps items))

theorem PropsFilled.nil {p node mem prev : Nat} {m : Mem} (h : prev + 4 ≤ mem) :
    PropsFilled img d p node mem prev prev [] m m where
  changed := ChangedIn.refl _ _
  link := .inl rfl
  room := h
  last := id
  phandle := rfl
  chain := fun _ _ => rfl

theorem PropsFilled.nop {p node mem prev prev' : Nat} {items : List OfItem} {m m' : Mem}
    (h : PropsFilled img d (d.itemEnd p .nop) node mem prev prev' items m m') :
    PropsFilled img d p node mem prev prev' (.nop :: items) m m' :=
  ⟨h.changed, h.link, h.room, h.last, h.phandle, h.chain⟩

/-- One record before the others. -/
theorem PropsFilled.cons {p node mem prev prev' : Nat} {name value : List UInt8}
    {items : List OfItem} {m m₁ m' : Mem} (hlo : d.base ≤ p)
    (hitem : d.HoldsItem p (.prop name value))
    (hend : d.itemEnd p (.prop name value) + 4 ≤ d.base + d.len) (hplace : alignUp 4 mem < 2 ^ 32)
    (hprev : node + 12 ≤ prev) (hroom : prev + 4 ≤ mem)
    (hconst : ∀ x, img.Const d x → m' x = d.bytes x)
    (hm₁ : ChangedIn (fun x => (alignUp 4 mem ≤ x ∧ x < alignUp 4 mem + 16) ∨
      (node ≤ x ∧ x < node + 12)) m m₁)
    (hwords : PropWords m₁ (alignUp 4 mem) (d.nameAt p) value.length
      (d.valueAt value.length (p + 12)) 0)
    (hphandle : load32 m₁ (node + 8) = itemPhandle d p (load32 m (node + 8)) (.prop name value))
    (hrest : PropsFilled img d (d.itemEnd p (.prop name value)) node (alignUp 4 mem + 16)
      (alignUp 4 mem + 12) prev' items (store32 m₁ prev (alignUp 4 mem)) m') :
    PropsFilled img d p node mem prev prev' (.prop name value :: items) m m' := by
  have halign := le_alignUp mem
  have hmem := le_itemsMem items (alignUp 4 mem + propSize)
  have hroom' := hrest.room
  have hlink := hrest.link
  unfold propSize at hmem
  have hmem' : itemsMem mem (.prop name value :: items) = itemsMem (alignUp 4 mem + 16) items := rfl
  have hwords₂ : PropWords (store32 m₁ prev (alignUp 4 mem)) (alignUp 4 mem) (d.nameAt p)
      value.length (d.valueAt value.length (p + 12)) 0 :=
    hwords.frame (changedIn_store32 _ _ _) fun x hlo hhi => by omega
  -- neither the link to the record nor the first words of it are written again
  have hprevWord : load32 m' prev = alignUp 4 mem := by
    rw [hrest.changed.load32 fun x hlo hhi => by omega, load32_store32_same,
      Nat.mod_eq_of_lt hplace]
  have hfirst : ∀ k, k + 4 ≤ 12 → load32 m' (alignUp 4 mem + k) =
      load32 (store32 m₁ prev (alignUp 4 mem)) (alignUp 4 mem + k) :=
    fun k hk => hrest.changed.load32 fun x hlo hhi => by omega
  refine ⟨?_, ?_, ?_, ?_, ?_, ?_⟩
  · rw [hmem']
    refine ((hm₁.mono fun x hx => ?_).trans ((changedIn_store32 _ _ _).mono fun x hx => ?_)).trans
      (hrest.changed.mono fun x hx => ?_)
    all_goals omega
  · omega
  · rw [hmem']
    exact hroom'
  · exact fun _ => hrest.last hwords₂.next
  · rw [hrest.phandle, load32_store32_of_disjoint (by omega), hphandle]
    rfl
  · intro M hM
    have hM' : ∀ x, prev ≤ x → x < prev + 4 ∨ (alignUp 4 mem ≤ x ∧ x < alignUp 4 mem + 12) →
        M x = m' x := fun x hlo hx => hM x (.inr ⟨by omega, by omega⟩)
    have hMword : ∀ k, k + 4 ≤ 12 → load32 M (alignUp 4 mem + k) = load32 m' (alignUp 4 mem + k) :=
      fun k hk => load32_congr fun x hlo hhi => hM' x (by omega) (by omega)
    have hMprev : load32 M prev = alignUp 4 mem :=
      (load32_congr fun x hlo hhi => hM' x hlo (by omega)).trans hprevWord
    have hMconst : ∀ x, img.Const d x → M x = d.bytes x :=
      fun x hx => (hM x (.inl hx)).trans (hconst x hx)
    obtain ⟨hnlo, hnhi, hvlo, hvhi, -, hvalue⟩ := propBounds hitem hend
    obtain ⟨-, -, hname, -, hbytes⟩ := hitem
    rw [hMprev]
    refine ⟨by omega, ?_, ?_, ?_, ?_⟩
    · have hword := (hMword 0 (by omega)).trans ((hfirst 0 (by omega)).trans hwords₂.name)
      rw [Nat.add_zero] at hword
      rw [hword]
      exact hname.congr fun x hlo hhi => hMconst x (.inl ⟨by omega, by omega⟩)
    · exact (hMword 4 (by omega)).trans ((hfirst 4 (by omega)).trans hwords₂.length)
    · rw [hMword 8 (by omega), hfirst 8 (by omega), hwords₂.value]
      exact hbytes.congr fun x hlo hhi => hMconst x (.inl ⟨by omega, by omega⟩)
    · refine hrest.chain M fun x hx => hM x ?_
      rcases hx with hx | hx
      · exact .inl hx
      · refine .inr ⟨hx.1, .inl ?_⟩
        rw [hmem']
        omega

/-- **The properties in the filling pass.** -/
theorem propertyLoop_fill {items : List OfItem} {p node mem prev rounds next base top : Nat}
    (named : Bool) (toks : List Nat) (hs : Loaded img d s) (h : ItemsHeld d p items)
    (hnext : isValid next = true) (hlive : s.Live base (top - base)) (hbase : base ≤ node)
    (htop : itemsMem mem items ≤ top) (hplace : top ≤ 0xfffff000)
    (hconst : ∀ x, base ≤ x → x < top → ¬ img.Const d x) (hprev : node + 12 ≤ prev)
    (hroom : prev + 4 ≤ mem) (hrounds : items.length < rounds) :
    ∃ m prev', propertyLoop d.base node next rounds ⟨p, mem, prev, named, toks⟩ s =
        .ok (⟨d.itemsEnd p items, itemsMem mem items, prev', named || ofNamed items,
          toks ++ itemTokens d p items⟩, s.put m) ∧
      PropsFilled img d p node mem prev prev' items s.bytes m := by
  induction items generalizing s p mem prev rounds named toks with
  | nil =>
    obtain ⟨rounds, rfl⟩ : ∃ r, rounds = r + 1 := ⟨rounds - 1, by simp at hrounds; omega⟩
    refine ⟨s.bytes, prev, ?_, PropsFilled.nil hroom⟩
    rw [propertyLoop_leave hs h]
    simp [Fdt.itemsEnd, itemsMem, itemTokens, ofNamed, ofProps]
  | cons item items ih =>
    obtain ⟨rounds, rfl⟩ : ∃ r, rounds = r + 1 := ⟨rounds - 1, by simp at hrounds; omega⟩
    rw [List.length_cons] at hrounds
    cases item with
    | nop =>
      obtain ⟨m, prev', hrun, hfilled⟩ := ih named (toks ++ [p]) hs h.tail hlive htop hprev hroom
        (show items.length < rounds by omega)
      refine ⟨m, prev', ?_, hfilled.nop⟩
      rw [propertyLoop_nop hs h, hrun]
      simp [Fdt.itemsEnd, itemsMem, itemTokens, ofNamed, ofProps]
    | prop name value =>
      have hle := le_itemsMem items (alignUp 4 mem + propSize)
      have halign := le_alignUp mem
      rw [itemsMem] at htop
      unfold propSize at htop hle
      have hvalid : isValid (alignUp 4 mem) = true := isValid_iff.mpr ⟨by omega, by omega⟩
      obtain ⟨m₁, hpop, hm₁, hwords, hphandle⟩ := populateProperties_fill named hs h.lo h.holds.1
        h.head hnext (show mem + 16 + 3 < 2 ^ 32 by omega)
        (hlive.mono hbase (by omega)) (hlive.mono (by omega) (by omega)) (by omega)
        fun x hlo hhi => hconst x (by omega) (by omega)
      have hchanged : ChangedIn (fun x => base ≤ x ∧ x < top) s.bytes
          (store32 m₁ prev (alignUp 4 mem)) :=
        (hm₁.mono fun x hx => by omega).trans ((changedIn_store32 _ _ _).mono fun x hx => by omega)
      have hs₁ : Loaded img d (s.put (store32 m₁ prev (alignUp 4 mem))) :=
        hs.put hchanged fun x hx hW => hconst x hW.1 hW.2 hx
      obtain ⟨m, prev', hrun, hfilled⟩ := ih (decide (cstring "name" = name) || named) (toks ++ [p])
        hs₁ h.tail (by simpa using hlive) htop (show node + 12 ≤ alignUp 4 mem + 12 by omega)
        (by omega) (show items.length < rounds by omega)
      have hconst' : ∀ x, img.Const d x → m x = d.bytes x := by
        intro x hx
        have hout : ¬ (base ≤ x ∧ x < top) := fun hin => hconst x hin.1 hin.2 hx
        rw [hfilled.changed x (by omega)]
        exact hs₁.const x hx
      have hlink : (do
          let _ ← putWord prev (alignUp 4 mem)
          pure (alignUp 4 mem + propNext) : RamM Nat) (s.put m₁) =
          .ok (alignUp 4 mem + 12, s.put (store32 m₁ prev (alignUp 4 mem))) := by
        rw [RamM.bind_ok (putWord_run (by simpa using hlive.mono (by omega) (by omega)))]
        rfl
      refine ⟨m, prev', ?_, .cons h.lo h.holds.1 h.head (by omega) hprev hroom hconst' hm₁ hwords
        hphandle hfilled⟩
      rw [propertyLoop, RamM.bind_ok (hs.be32 h.lo h.tag), if_neg h.holds.1.notNop,
        RamM.bind_ok hpop, if_pos hvalid, hnext, if_pos rfl, RamM.bind_ok hlink, hrun, ofNamed_cons]
      simp [Fdt.itemsEnd, itemsMem, itemTokens, propSize, Bool.or_left_comm, Bool.or_assoc]

end HeavenFox.Platform
