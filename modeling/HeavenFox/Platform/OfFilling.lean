/-
# HeavenFox.Platform.OfFilling -- the filling pass

The second pass over the structure block, which builds the nodes in one zeroed
block.  Three words are still open while it is under way: where the next node is
linked into the list of all nodes, where the next child of the current node is
linked, and its last child.  `fill_forest` goes over a forest and says what has
been built from the two links on; that rests on the bytes of the forest, but for
the links that are open behind it.
-/
import HeavenFox.Platform.OfSizing

namespace HeavenFox.Platform

open HeavenFox.Logic HeavenFox.Common

variable {img : OfImage} {d : Fdt} {s t : Ram} {alloc : Kzalloc}

/-! ## What is built -/

/-- The nodes of the forest at `p` are linked from `a` on as children of `parent`, up to where the
pointer is `r`, with their path names below `top`; `xs` lists them, each before its children and
these before its siblings. -/
def ForestBuilt (d : Fdt) (top : Nat) (m : Mem) :
    Nat → Option OfParent → Nat → OfForest → Nat → Nat → List Nat → Prop
  | _, _, _, .nil, a, r, xs => a = r ∧ xs = []
  | parent, par, p, .node name items children nops siblings, a, r, xs =>
    a ≠ 0 ∧ a + (52 + ((fullName par name).length + 1)) ≤ top ∧
      NodeBuilt m a parent (fullName par name) (nodeProps (fullName par name) items)
        (nodePhandleOf d p name items) ∧
      ∃ xs₁ xs₂, xs = a :: xs₁ ++ xs₂ ∧
        ForestBuilt d top m a (some (asParent par name))
          (d.itemsEnd (Fdt.itemsAt p name) items) children (load32 m (a + 28)) 0 xs₁ ∧
        ForestBuilt d top m parent par
          (d.forestEnd (d.itemsEnd (Fdt.itemsAt p name) items) children + 4 + 4 * nops) siblings
          (load32 m (a + 32)) r xs₂

/-- The nodes `xs` are linked one behind the other into the list of all nodes, from the word at
`slot` up to the word at `slot'`. -/
def NextChain (m : Mem) (slot' : Nat) : Nat → List Nat → Prop
  | slot, [] => slot = slot'
  | slot, x :: xs => load32 m slot = x ∧ NextChain m slot' (x + 40) xs

theorem NextChain.append {m : Mem} {slot slot' slot'' : Nat} {xs ys : List Nat}
    (h : NextChain m slot' slot xs) (h' : NextChain m slot'' slot' ys) :
    NextChain m slot'' slot (xs ++ ys) := by
  induction xs generalizing slot with
  | nil =>
    have hslot : slot = slot' := h
    rw [hslot]
    exact h'
  | cons x xs ih => exact ⟨h.1, ih h.2⟩

/-- Before a forest: the parent is open, the two links for its next child are null and lie in the
memory that is built, and the memory behind is zeroed. -/
structure FillReady (s : Ram) (base len mem node next : Nat) (par : OfParent) : Prop where
  opened : OpenNode s node par
  lo : base ≤ node
  hi : node + (52 + (par.path.length + 1)) ≤ mem
  slot : childSlot s.bytes node = node + 28 ∨
    node + (52 + (par.path.length + 1)) ≤ childSlot s.bytes node
  slotHi : childSlot s.bytes node + 4 ≤ mem
  slotNull : load32 s.bytes (childSlot s.bytes node) = 0
  link : next = node + 40 ∨ node + (52 + (par.path.length + 1)) ≤ next
  linkHi : next + 4 ≤ mem
  linkNull : load32 s.bytes next = 0
  apart : next + 4 ≤ childSlot s.bytes node ∨ childSlot s.bytes node + 4 ≤ next
  zero : ∀ x, mem ≤ x → x < base + len → s.bytes x = 0

/-- What the pass over a forest has made of the memory `m`: `m'`, with the links that are open
behind it. -/
structure ForestFilled (img : OfImage) (d : Fdt) (top p mem stop node next next' : Nat)
    (par : OfParent) (f : OfForest) (xs : List Nat) (m m' : Mem) : Prop where
  changed : ChangedIn (fun x => (mem ≤ x ∧ x < stop) ∨ (next ≤ x ∧ x < next + 4) ∨
    (childSlot m node ≤ x ∧ x < childSlot m node + 4) ∨ (node + 36 ≤ x ∧ x < node + 40)) m m'
  slot : childSlot m' node = childSlot m node ∨ mem ≤ childSlot m' node
  slotHi : childSlot m' node + 4 ≤ stop
  slotNull : load32 m' (childSlot m' node) = 0
  link : next' = next ∨ mem ≤ next'
  linkHi : next' + 4 ≤ stop
  linkNull : load32 m' next' = 0
  apart : next' + 4 ≤ childSlot m' node ∨ childSlot m' node + 4 ≤ next'
  nodes : ∀ x ∈ xs, mem ≤ x ∧ x + 52 ≤ stop
  sorted : xs.Pairwise (· < ·)
  built : RestsOn (fun x => img.Const d x ∨ (¬ (next' ≤ x ∧ x < next' + 4) ∧
      ¬ (childSlot m' node ≤ x ∧ x < childSlot m' node + 4) ∧
      ((mem ≤ x ∧ x < stop) ∨ (next ≤ x ∧ x < next + 4) ∨
        (childSlot m node ≤ x ∧ x < childSlot m node + 4)))) m'
    fun M => ForestBuilt d top M node (some par) p f (load32 M (childSlot m node))
      (load32 M (childSlot m' node)) xs ∧ NextChain M next' next xs

theorem ForestFilled.nil {p top base len mem node next : Nat} {par : OfParent}
    (h : FillReady s base len mem node next par) :
    ForestFilled img d top p mem mem node next next par .nil [] s.bytes s.bytes where
  changed := ChangedIn.refl _ _
  slot := .inl rfl
  slotHi := h.slotHi
  slotNull := h.slotNull
  link := .inl rfl
  linkHi := h.linkHi
  linkNull := h.linkNull
  apart := h.apart
  nodes := fun _ hx => absurd hx List.not_mem_nil
  sorted := List.Pairwise.nil
  built := fun _ _ => ⟨⟨rfl, rfl⟩, rfl⟩

/-! ## A child -/

/-- A new node has no children yet. -/
theorem NodeFilled.childSlot_eq {a mem stop node phandle : Nat} {path : List UInt8}
    {items : List OfItem} {W : Nat → Prop} {m m' : Mem}
    (h : NodeFilled img d a mem stop node path items phandle W m m') :
    childSlot m' a = a + 28 := by
  have hzero : load32 m' (a + 36) = 0 :=
    load32_zero fun x hxlo hxhi => h.links x (by omega) (by omega)
  rw [childSlot, hzero]
  rfl

/-- A new node is ready for children. -/
theorem NodeFilled.ready {mem node phandle base len : Nat} {parent : Option OfParent}
    {name : List UInt8} {items : List OfItem} {W : Nat → Prop} {m : Mem}
    (h : NodeFilled img d (alignUp 4 mem) mem (nodeMem parent mem name items) node
      (fullName parent name) items phandle W s.bytes m)
    (harena : Arena img d s base len) (hroot : parent = none → name = [] ∨ name.head? = some slash)
    (hvalid : isValid node = parent.isSome) (hbase : base ≤ mem)
    (htop : nodeMem parent mem name items ≤ base + len)
    (hzero : ∀ x, nodeMem parent mem name items ≤ x → x < base + len → m x = 0) :
    FillReady (s.put m) base len (nodeMem parent mem name items) (alignUp 4 mem)
      (alignUp 4 mem + 40) (asParent parent name) := by
  obtain ⟨halign, hnode⟩ := nodeMem_room parent mem name items
  have hneed : (fullName parent name).length + 1 ≤ lenthNeed parent name := lenthNeed_ge hroot
  have hplace := harena.place
  have hlinks := h.links
  have hslot := h.childSlot_eq
  refine ⟨⟨?_, ?_, h.word, h.pathStr, ?_⟩, by omega, ?_, .inl hslot, ?_, ?_, .inl rfl, by omega, ?_,
    ?_, hzero⟩
  · exact isValid_iff.mpr ⟨by omega, by omega⟩
  · simpa using harena.live.mono (by omega) (by dsimp only [asParent]; omega)
  · rw [Ram.put_bytes, h.parent, hvalid]
    rfl
  · dsimp only [asParent]
    omega
  · rw [Ram.put_bytes, hslot]
    omega
  · rw [Ram.put_bytes, hslot]
    exact load32_zero fun x hxlo hxhi => hlinks x (by omega) (by omega)
  · exact load32_zero fun x hxlo hxhi => hlinks x (by omega) (by omega)
  · rw [Ram.put_bytes, hslot]
    omega

theorem Arena.outside {base len : Nat} (h : Arena img d s base len) {x : Nat}
    (hx : img.Const d x) : x < base ∨ base + len ≤ x := by
  by_contra hin
  exact h.const x (by omega) (by omega) hx

/-- A child has been built, and linked to its parent and into the list of all nodes. -/
structure ChildFilled (img : OfImage) (d : Fdt) (p mem node next : Nat) (par : OfParent)
    (name : List UInt8) (items : List OfItem) (m m' : Mem) : Prop where
  filled : NodeFilled img d (alignUp 4 mem) mem (nodeMem (some par) mem name items) node
    (fullName (some par) name) items (nodePhandleOf d p name items)
    (fun x => (next ≤ x ∧ x < next + 4) ∨ (childSlot m node ≤ x ∧ x < childSlot m node + 4) ∨
      (node + 36 ≤ x ∧ x < node + 40)) m m'
  link : load32 m' next = alignUp 4 mem
  slot : load32 m' (childSlot m node) = alignUp 4 mem
  last : load32 m' (node + 36) = alignUp 4 mem

section Child

variable {p mem node next base len : Nat} {par : OfParent} {name : List UInt8}
  {items : List OfItem} (hready : FillReady s base len mem node next par)
  (harena : Arena img d s base len)

include hready harena

/-- A forest is built in the block, so what is constant stays. -/
theorem FillReady.loaded {m : Mem} {stop : Nat} (hs : Loaded img d s)
    (hm : ChangedIn (fun x => (mem ≤ x ∧ x < stop) ∨ (next ≤ x ∧ x < next + 4) ∨
      (childSlot s.bytes node ≤ x ∧ x < childSlot s.bytes node + 4) ∨
      (node + 36 ≤ x ∧ x < node + 40)) s.bytes m)
    (hlo : mem ≤ stop) (hhi : stop ≤ base + len) : Loaded img d (s.put m) := by
  have hbase := hready.lo
  have hmem := hready.hi
  have hslot := hready.slot
  have hslotHi := hready.slotHi
  have hlink := hready.link
  have hlinkHi := hready.linkHi
  refine hs.put hm fun x hx hW => ?_
  have hout := harena.outside hx
  omega

variable (alloc) in
/-- **A child is built.** -/
theorem fill_child (hs : Loaded img d s) (h : NodeHeld d p name items)
    (htop : nodeMem (some par) mem name items ≤ base + len) :
    ∃ m, fwkFdtPopulateNode img alloc d.base p mem node next s =
        .ok (⟨alignUp 4 mem, d.itemsEnd (Fdt.itemsAt p name) items,
          nodeMem (some par) mem name items, alignUp 4 mem + 40,
          itemTokens d (Fdt.itemsAt p name) items⟩, s.put m) ∧
      ChildFilled img d p mem node next par name items s.bytes m := by
  obtain ⟨halign, hnode⟩ := nodeMem_room (some par) mem name items
  have hplace := harena.place
  have hlo := hready.lo
  have hhi := hready.hi
  have hslotHi := hready.slotHi
  have hlinkHi := hready.linkHi
  have hslot := hready.slot
  have hlink := hready.link
  have hapart := hready.apart
  have hopen := hready.opened
  have hlive : ∀ x k, base ≤ x → x + k ≤ base + len → s.Live x k :=
    fun x k hxlo hxhi => harena.live.mono hxlo hxhi
  have hvalid : isValid next = true := isValid_iff.mpr ⟨by omega, by omega⟩
  obtain ⟨m, hrun, hfilled, hword, hwords⟩ := populateNode_fill alloc
    (L := fun x => (childSlot s.bytes node ≤ x ∧ x < childSlot s.bytes node + 4) ∨
      (node + 36 ≤ x ∧ x < node + 40))
    (Q := fun m => load32 m (childSlot s.bytes node) = alignUp 4 mem ∧
      load32 m (node + 36) = alignUp 4 mem)
    hs h (show IsParent s node (some par) from hopen)
    (fun hnone => absurd hnone (Option.some_ne_none _)) harena (by omega) htop hready.zero hvalid
    (hlive next 4 (by omega) (by omega)) (by omega)
    (fun x hxlo hxhi => harena.const x (by omega) (by omega))
    (hopen.put (changedIn_store32 s.bytes next _) fun x hx => by omega)
    (show node + (52 + (par.path.length + 1)) ≤ mem ∨ base + len ≤ node by omega)
    (fun x hx => ⟨harena.const x (by omega) (by omega), by omega, by omega⟩)
    (fun m hm => by
      have hlast : childSlot m node = childSlot s.bytes node := by
        rw [childSlot, childSlot, hm.load32 fun x _ _ => by omega]
      obtain ⟨m', hrun, hparent, hphandle, hchild, hnext, hchanged⟩ := linkParent_child
        (s := s.put m) (a := alignUp 4 mem)
        (by simpa using hlive (alignUp 4 mem) 52 (by omega) (by omega)) hopen.valid
        (show isValid (alignUp 4 mem + 40) = true from isValid_iff.mpr ⟨by omega, by omega⟩)
        (by simpa using hlive (node + 36) 4 (by omega) (by omega))
        (by rw [Ram.put_bytes, hlast]; simpa using hlive _ 4 (by omega) (by omega)) (by omega)
        (by omega) (by rw [Ram.put_bytes, hlast]; omega) (by rw [Ram.put_bytes, hlast]; omega)
      rw [Ram.put_bytes, hlast] at hchild hchanged
      refine ⟨m', hrun, hparent, hphandle, hchanged, fun M hM => ⟨?_, ?_⟩⟩
      · exact (load32_congr fun x hxlo hxhi => hM x (.inl ⟨hxlo, hxhi⟩)).trans hchild
      · exact (load32_congr fun x hxlo hxhi => hM x (.inr ⟨hxlo, hxhi⟩)).trans hnext)
  exact ⟨m, hrun, hfilled, hword, hwords.1, hwords.2⟩

variable {m : Mem} (hchild : ChildFilled img d p mem node next par name items s.bytes m)

include hchild

/-- The new child is ready for children of its own. -/
theorem ChildFilled.ready (htop : nodeMem (some par) mem name items ≤ base + len) :
    FillReady (s.put m) base len (nodeMem (some par) mem name items) (alignUp 4 mem)
      (alignUp 4 mem + 40) (asParent (some par) name) := by
  obtain ⟨halign, hnode⟩ := nodeMem_room (some par) mem name items
  have hlo := hready.lo
  have hhi := hready.hi
  have hslotHi := hready.slotHi
  have hlinkHi := hready.linkHi
  refine hchild.filled.ready harena (fun hnone => absurd hnone (Option.some_ne_none _))
    hready.opened.valid (by omega) htop fun x hxlo hxhi => ?_
  rw [hchild.filled.changed x (by omega), hready.zero x (by omega) (by omega)]

/-! ### Its children -/

variable {next' : Nat} {children : OfForest} {xs : List Nat} {m' : Mem}
  (hbelow : ForestFilled img d (base + len) (d.itemsEnd (Fdt.itemsAt p name) items)
    (nodeMem (some par) mem name items)
    (forestMem (some (asParent (some par) name)) (nodeMem (some par) mem name items) children)
    (alignUp 4 mem) (alignUp 4 mem + 40) next' (asParent (some par) name) children xs m m')

include hbelow

omit hready harena in
/-- What the child and its children have changed. -/
theorem ChildFilled.changed : ChangedIn (fun x => (mem ≤ x ∧ x < forestMem
      (some (asParent (some par) name)) (nodeMem (some par) mem name items) children) ∨
    (next ≤ x ∧ x < next + 4) ∨ (childSlot s.bytes node ≤ x ∧ x < childSlot s.bytes node + 4) ∨
    (node + 36 ≤ x ∧ x < node + 40)) s.bytes m' := by
  obtain ⟨halign, hnode, hmem⟩ := childMem_room par mem name items children
  have hslot := hchild.filled.childSlot_eq
  have hchanged := hchild.filled.changed
  exact (hchanged.mono fun x hx => by omega).trans (hbelow.changed.mono fun x hx => by omega)

omit harena in
/-- The links to the child are not written again. -/
theorem ChildFilled.kept : load32 m' next = alignUp 4 mem ∧
    load32 m' (childSlot s.bytes node) = alignUp 4 mem ∧
    load32 m' (node + 36) = alignUp 4 mem := by
  obtain ⟨halign, hnode⟩ := nodeMem_room (some par) mem name items
  have hhi := hready.hi
  have hslotHi := hready.slotHi
  have hlinkHi := hready.linkHi
  have hslot := hchild.filled.childSlot_eq
  refine ⟨?_, ?_, ?_⟩
  · exact (hbelow.changed.load32 fun x _ _ => by omega).trans hchild.link
  · exact (hbelow.changed.load32 fun x _ _ => by omega).trans hchild.slot
  · exact (hbelow.changed.load32 fun x _ _ => by omega).trans hchild.last

/-- Behind the child, its parent has it as the last one. -/
theorem ChildFilled.nextSlot
    (hstop : forestMem (some (asParent (some par) name)) (nodeMem (some par) mem name items)
      children ≤ base + len) : childSlot m' node = alignUp 4 mem + 32 := by
  have hlo := hready.lo
  have hhi := hready.hi
  obtain ⟨halign, hnode, hmem⟩ := childMem_room par mem name items children
  have hplace := harena.place
  obtain ⟨-, -, hlast⟩ := hchild.kept hready hbelow
  have hvalid : isValid (alignUp 4 mem) = true := isValid_iff.mpr ⟨by omega, by omega⟩
  rw [childSlot, hlast, if_pos hvalid]

/-- Behind the child, its parent is ready for the next one. -/
theorem ChildFilled.behind
    (hstop : forestMem (some (asParent (some par) name)) (nodeMem (some par) mem name items)
      children ≤ base + len) : FillReady (s.put m') base len
    (forestMem (some (asParent (some par) name)) (nodeMem (some par) mem name items) children)
    node next' par := by
  obtain ⟨halign, hnode, hmem⟩ := childMem_room par mem name items children
  have hplace := harena.place
  have hlo := hready.lo
  have hhi := hready.hi
  have hslot := hready.slot
  have hslotHi := hready.slotHi
  have hlink := hready.link
  have hlinkHi := hready.linkHi
  have hslot₁ := hchild.filled.childSlot_eq
  have hslot' := hchild.nextSlot hready harena hbelow hstop
  have hchanged := hchild.changed hbelow
  have hlink' := hbelow.link
  have hzero : load32 m' (alignUp 4 mem + 32) = 0 := by
    rw [hbelow.changed.load32 fun x _ _ => by omega]
    exact load32_zero fun x hxlo hxhi => hchild.filled.links x (by omega) (by omega)
  refine ⟨hready.opened.put hchanged fun x hx => by omega, hlo, by omega, .inr ?_, ?_, ?_,
    .inr (by omega), hbelow.linkHi, hbelow.linkNull, ?_, fun x hxlo hxhi => ?_⟩
  · rw [Ram.put_bytes, hslot']
    omega
  · rw [Ram.put_bytes, hslot']
    omega
  · rw [Ram.put_bytes, hslot']
    exact hzero
  · rw [Ram.put_bytes, hslot']
    omega
  · rw [Ram.put_bytes, hchanged x (by omega), hready.zero x (by omega) (by omega)]

/-- What the child has is not written again. -/
theorem ChildFilled.built
    (hstop : forestMem (some (asParent (some par) name)) (nodeMem (some par) mem name items)
      children ≤ base + len) :
    RestsOn (fun x => img.Const d x ∨ (alignUp 4 mem ≤ x ∧ x < alignUp 4 mem + 28) ∨
        (alignUp 4 mem + 44 ≤ x ∧ x < nodeMem (some par) mem name items)) m'
      fun M => NodeBuilt M (alignUp 4 mem) node (fullName (some par) name)
        (nodeProps (fullName (some par) name) items) (nodePhandleOf d p name items) := by
  have hlo := hready.lo
  have hhi := hready.hi
  obtain ⟨halign, hnode, hmem⟩ := childMem_room par mem name items children
  have hslot := hchild.filled.childSlot_eq
  refine hchild.filled.built.frame hbelow.changed fun x hx => ?_
  rcases hx with hx | hx | hx
  · have hout := harena.outside hx
    omega
  · omega
  · omega

/-! ### Its siblings -/

variable {nops stop next'' : Nat} {siblings : OfForest} {ys : List Nat} {m'' M : Mem}
  (hbehind : ForestFilled img d (base + len)
    (d.forestEnd (d.itemsEnd (Fdt.itemsAt p name) items) children + 4 + 4 * nops)
    (forestMem (some (asParent (some par) name)) (nodeMem (some par) mem name items) children)
    stop node next' next'' par siblings ys m' m'')
  (hend : stop ≤ base + len)
  (hle : forestMem (some (asParent (some par) name)) (nodeMem (some par) mem name items)
    children ≤ stop)
  (hM : ∀ x, (img.Const d x ∨ (¬ (next'' ≤ x ∧ x < next'' + 4) ∧
    ¬ (childSlot m'' node ≤ x ∧ x < childSlot m'' node + 4) ∧
    ((mem ≤ x ∧ x < stop) ∨ (next ≤ x ∧ x < next + 4) ∨
      (childSlot s.bytes node ≤ x ∧ x < childSlot s.bytes node + 4)))) → M x = m'' x)

include hbehind hend hle hM

/-- The links to the child are not written again. -/
theorem ChildFilled.links : load32 M next = alignUp 4 mem ∧
    load32 M (childSlot s.bytes node) = alignUp 4 mem := by
  have hhi := hready.hi
  have hslot := hready.slot
  have hslotHi := hready.slotHi
  have hlink := hready.link
  have hlinkHi := hready.linkHi
  obtain ⟨halign, hnode, hmem⟩ := childMem_room par mem name items children
  have hslot₂ := hchild.nextSlot hready harena hbelow (by omega)
  obtain ⟨hkeptLink, hkeptSlot, -⟩ := hchild.kept hready hbelow
  have hlink' : mem ≤ next' := by
    have hcases := hbelow.link
    omega
  have hlink'' : mem ≤ next'' := by
    have hcases := hbehind.link
    omega
  have hslot'' : mem ≤ childSlot m'' node := by
    have hcases := hbehind.slot
    omega
  have hchanged := hbehind.changed
  refine ⟨?_, ?_⟩
  · rw [load32_congr fun x _ _ => hM x (.inr (by omega)), hchanged.load32 fun x _ _ => by omega,
      hkeptLink]
  · rw [load32_congr fun x _ _ => hM x (.inr (by omega)), hchanged.load32 fun x _ _ => by omega,
      hkeptSlot]

/-- The child is as it was built. -/
theorem ChildFilled.own : NodeBuilt M (alignUp 4 mem) node (fullName (some par) name)
    (nodeProps (fullName (some par) name) items) (nodePhandleOf d p name items) := by
  have hlo := hready.lo
  have hhi := hready.hi
  obtain ⟨halign, hnode, hmem⟩ := childMem_room par mem name items children
  have hslot₂ := hchild.nextSlot hready harena hbelow (by omega)
  have hlink' := hbelow.link
  have hlinkHi' := hbelow.linkHi
  have hlink'' : next'' = alignUp 4 mem + 40 ∨ nodeMem (some par) mem name items ≤ next'' := by
    have hcases := hbehind.link
    omega
  have hslot'' : childSlot m'' node = alignUp 4 mem + 32 ∨
      nodeMem (some par) mem name items ≤ childSlot m'' node := by
    have hcases := hbehind.slot
    omega
  have hown := (hchild.built hready harena hbelow (by omega)).frame hbehind.changed fun x hx => by
    rcases hx with hx | hx | hx
    · have hout := harena.outside hx
      omega
    · omega
    · omega
  refine hown M fun x hx => ?_
  rcases hx with hx | hx | hx
  · exact hM x (.inl hx)
  · exact hM x (.inr (by omega))
  · exact hM x (.inr (by omega))

/-- Its children are as they were built. -/
theorem ChildFilled.below :
    ForestBuilt d (base + len) M (alignUp 4 mem) (some (asParent (some par) name))
        (d.itemsEnd (Fdt.itemsAt p name) items) children (load32 M (alignUp 4 mem + 28)) 0 xs ∧
      NextChain M next' (alignUp 4 mem + 40) xs := by
  have hlo := hready.lo
  have hhi := hready.hi
  obtain ⟨halign, hnode, hmem⟩ := childMem_room par mem name items children
  have hslot₁ := hchild.filled.childSlot_eq
  have hslot₂ := hchild.nextSlot hready harena hbelow (by omega)
  have hlink' : alignUp 4 mem + 40 ≤ next' := by
    have hcases := hbelow.link
    omega
  have hlinkHi' := hbelow.linkHi
  have hslot' : alignUp 4 mem + 28 ≤ childSlot m' (alignUp 4 mem) ∧
      (childSlot m' (alignUp 4 mem) + 4 ≤ alignUp 4 mem + 32 ∨
        alignUp 4 mem + 36 ≤ childSlot m' (alignUp 4 mem)) := by
    have hcases := hbelow.slot
    omega
  have hslotHi' := hbelow.slotHi
  have hapart' := hbelow.apart
  have hlink'' := hbehind.link
  have hslot'' := hbehind.slot
  rw [hslot₂] at hslot''
  have hchanged := hbehind.changed
  rw [hslot₂] at hchanged
  obtain ⟨hchildren, hchain⟩ := (hbelow.built.frame hchanged fun x hx => by
    rcases hx with hx | hx
    · have hout := harena.outside hx
      omega
    · omega) M fun x hx => by
      rcases hx with hx | hx
      · exact hM x (.inl hx)
      · exact hM x (.inr (by omega))
  have hnull : load32 M (childSlot m' (alignUp 4 mem)) = 0 := by
    rw [load32_congr fun x _ _ => hM x (.inr (by omega)), hchanged.load32 fun x _ _ => by omega,
      hbelow.slotNull]
  rw [hslot₁, hnull] at hchildren
  exact ⟨hchildren, hchain⟩

/-- Its siblings are as they were built. -/
theorem ChildFilled.rest :
    ForestBuilt d (base + len) M node (some par)
        (d.forestEnd (d.itemsEnd (Fdt.itemsAt p name) items) children + 4 + 4 * nops) siblings
        (load32 M (alignUp 4 mem + 32)) (load32 M (childSlot m'' node)) ys ∧
      NextChain M next'' next' ys := by
  obtain ⟨halign, hnode, hmem⟩ := childMem_room par mem name items children
  have hslot₂ := hchild.nextSlot hready harena hbelow (by omega)
  have hlink' := hbelow.link
  have hlinkHi' := hbelow.linkHi
  obtain ⟨hsiblings, hchain⟩ := hbehind.built M fun x hx => by
    rcases hx with hx | hx
    · exact hM x (.inl hx)
    · exact hM x (.inr (by omega))
  rw [hslot₂] at hsiblings
  exact ⟨hsiblings, hchain⟩

omit hM in
/-- **A child, its children and its later siblings** make up a forest. -/
theorem ChildFilled.cons : ForestFilled img d (base + len) p mem stop node next next'' par
    (.node name items children nops siblings) (alignUp 4 mem :: xs ++ ys) s.bytes m'' := by
  have hhi := hready.hi
  obtain ⟨halign, hnode, hmem⟩ := childMem_room par mem name items children
  have hplace := harena.place
  have hlo := hready.lo
  have hslot₂ := hchild.nextSlot hready harena hbelow (by omega)
  have hlink' := hbelow.link
  have hlinkHi' := hbelow.linkHi
  have hlink'' := hbehind.link
  have hslot'' := hbehind.slot
  have hchanged := hchild.changed hbelow
  have hchanged' := hbehind.changed
  refine ⟨?_, .inr (by omega), hbehind.slotHi, hbehind.slotNull, .inr (by omega), hbehind.linkHi,
    hbehind.linkNull, hbehind.apart, ?_, ?_, fun M hM => ?_⟩
  · exact (hchanged.mono fun x hx => by omega).trans (hchanged'.mono fun x hx => by omega)
  · intro x hx
    rw [List.cons_append, List.mem_cons, List.mem_append] at hx
    rcases hx with rfl | hx | hx
    · exact ⟨halign, by omega⟩
    · have hx' := hbelow.nodes x hx
      omega
    · have hx' := hbehind.nodes x hx
      omega
  · rw [List.cons_append, List.pairwise_cons, List.pairwise_append]
    refine ⟨fun x hx => ?_, hbelow.sorted, hbehind.sorted, fun x hx y hy => ?_⟩
    · rcases List.mem_append.mp hx with hx | hx
      · have hx' := hbelow.nodes x hx
        omega
      · have hx' := hbehind.nodes x hx
        omega
    · have hx' := hbelow.nodes x hx
      have hy' := hbehind.nodes y hy
      omega
  · obtain ⟨hlinkM, hslotM⟩ := hchild.links hready harena hbelow hbehind hend hle hM
    obtain ⟨hbelowM, hchain⟩ := hchild.below hready harena hbelow hbehind hend hle hM
    obtain ⟨hrestM, hchain'⟩ := hchild.rest hready harena hbelow hbehind hend hle hM
    refine ⟨?_, hlinkM, hchain.append hchain'⟩
    have hneed : (fullName (some par) name).length + 1 ≤ lenthNeed (some par) name :=
      lenthNeed_ge fun hnone => absurd hnone (Option.some_ne_none _)
    rw [hslotM]
    exact ⟨by omega, by omega, hchild.own hready harena hbelow hbehind hend hle hM, xs, ys, rfl,
      hbelowM, hrestM⟩

end Child

/-! ## The pass -/

/-- **An open node is left**, and stays where it is. -/
theorem leaveNode_fill {node next : Nat} (hvalid : isValid node = true)
    (hnext : isValid next = true) (hlive : s.Live (node + 24) 4) :
    leaveNode node next s = .ok (load32 s.bytes (node + 24), s) := by
  unfold leaveNode nodeParent
  rw [if_pos hvalid, RamM.bind_ok (loadWord_run hlive), hnext, if_pos rfl]
  rfl

variable (alloc) in
/-- **The filling pass over a forest** of children. -/
theorem fill_forest {f : OfForest} {p mem node next base len : Nat} {par : OfParent}
    (toks : List Nat) (hs : Loaded img d s) (h : ForestHeld d p f)
    (hready : FillReady s base len mem node next par) (harena : Arena img d s base len)
    (htop : forestMem (some par) mem f ≤ base + len) :
    ∃ n m next' xs, p + 4 * n ≤ d.forestEnd p f ∧
      Leads (passLoop img alloc d.base) n (⟨p, mem, node, next, toks⟩, s)
        (⟨d.forestEnd p f, forestMem (some par) mem f, node, next', toks ++ forestTokens d p f⟩,
          s.put m) ∧
      ForestFilled img d (base + len) p mem (forestMem (some par) mem f) node next next' par f xs
        s.bytes m := by
  induction f generalizing s p mem node next par toks with
  | nil =>
    refine ⟨0, s.bytes, next, [], Nat.le_refl p, ?_, ForestFilled.nil hready⟩
    rw [forestTokens, List.append_nil]
    exact Leads.refl _
  | node name items children nops siblings ihc ihs =>
    obtain ⟨hname, hitems, hchildren, hsiblings⟩ :=
      forestPlaces d p nops name items children siblings
    have hplace := harena.place
    have hlo := h.lo
    have hhi := h.hi
    have hbase := hready.lo
    have hmem := hready.hi
    obtain ⟨halign, hnode, hmem₁⟩ := childMem_room par mem name items children
    have hmem₂ := le_forestMem siblings (some par)
      (forestMem (some (asParent (some par) name)) (nodeMem (some par) mem name items) children)
    rw [forestMem] at htop ⊢
    -- the node
    obtain ⟨m₁, hpop, hchild⟩ :=
      fill_child alloc hready harena hs h.node (by omega)
    have hvalid : isValid (alignUp 4 mem) = true := isValid_iff.mpr ⟨by omega, by omega⟩
    have hready₁ := hchild.ready hready harena (by omega)
    have hstart : Leads (passLoop img alloc d.base) 1 (⟨p, mem, node, next, toks⟩, s)
        (⟨d.itemsEnd (Fdt.itemsAt p name) items, nodeMem (some par) mem name items,
          alignUp 4 mem, alignUp 4 mem + 40,
          toks ++ p :: itemTokens d (Fdt.itemsAt p name) items⟩, s.put m₁) := by
      intro k
      rw [pass_start hs hlo (by omega) h.node.tag, RamM.bind_ok hpop]
      dsimp only
      rw [if_neg (by simp [hvalid])]
      rfl
    have hs₁ := hready.loaded harena hs hchild.filled.changed (by omega) (by omega)
    -- its children
    obtain ⟨n₂, m₂, next₂, xs, hn₂, hlead₂, hbelow⟩ := ihc
      (toks ++ p :: itemTokens d (Fdt.itemsAt p name) items) hs₁ h.ofChildren hready₁
      (harena.put m₁) (by omega)
    rw [Ram.put_put] at hlead₂
    rw [Ram.put_bytes] at hbelow
    -- its end
    have hchanged := hchild.changed hbelow
    have hs₂ := hready.loaded harena hs hchanged (by omega) (by omega)
    have hready₂ := hchild.behind hready harena hbelow (by omega)
    have hlink₂ := hbelow.link
    have hlinkHi₂ := hbelow.linkHi
    have hword₂ : load32 m₂ (alignUp 4 mem + 24) = node :=
      (hchild.built hready harena hbelow (by omega)).holds.parent
    have hleave : leaveNode (alignUp 4 mem) next₂ (s.put m₂) = .ok (node, s.put m₂) := by
      rw [leaveNode_fill hvalid (isValid_iff.mpr ⟨by omega, by omega⟩)
        (by simpa using harena.live.mono (by omega) (by omega)), Ram.put_bytes, hword₂]
    obtain ⟨-, -, -, -, hend, hnops, -⟩ := h.holds
    have hover := ((hstart.trans hlead₂).trans
      (pass_end hs₂ (by omega) (by omega) hend hleave)).trans
      (pass_nops hs₂ (by omega) hnops (by omega))
    -- its siblings
    obtain ⟨n₄, m₄, next₄, ys, hn₄, hlead₄, hbehind⟩ := ihs
      (toks ++ p :: itemTokens d (Fdt.itemsAt p name) items ++
        forestTokens d (d.itemsEnd (Fdt.itemsAt p name) items) children ++
        [d.forestEnd (d.itemsEnd (Fdt.itemsAt p name) items) children] ++
        nopTokens (d.forestEnd (d.itemsEnd (Fdt.itemsAt p name) items) children + 4) nops)
      hs₂ h.ofSiblings hready₂ (harena.put m₂) htop
    rw [Ram.put_put] at hlead₄
    rw [Ram.put_bytes] at hbehind
    have hall := hover.trans hlead₄
    rw [forestTokens_node] at hall
    refine ⟨_, m₄, next₄, alignUp 4 mem :: xs ++ ys, ?_, hall,
      hchild.cons hready harena hbelow hbehind htop (by omega)⟩
    rw [Fdt.forestEnd]
    omega

/-! ## The whole tree -/

variable {tree : OfTree}

/-- The tree is in the memory: the list of all nodes is in the order of the tokens. -/
structure TreeBuilt (img : OfImage) (d : Fdt) (tree : OfTree) (base : Nat) (xs : List Nat)
    (m : Mem) : Prop where
  root : load32 m img.allNodes = base
  built : ForestBuilt d (base + tree.size) m 0 none (d.base + d.offDtStruct) tree.forest base 0 xs
  chain : ∃ next, NextChain m next img.allNodes xs ∧ load32 m next = 0
  nodes : ∀ x ∈ xs, base ≤ x ∧ x + 52 ≤ base + tree.size
  sorted : xs.Pairwise (· < ·)

/-- Where the memory of a tree ends, by the children of its root. -/
theorem OfTree.size_below (tree : OfTree) {base : Nat} (h : base % 4 = 0) :
    base + tree.size = forestMem (some (asParent none tree.name))
      (nodeMem none base tree.name tree.items) tree.children := by
  rw [OfTree.size, ← forestMem_add h, Nat.add_zero]
  rfl

/-- What the filling pass has made of the memory `m` at the root, which is at `base`: `m'`. -/
structure RootFilled (img : OfImage) (d : Fdt) (tree : OfTree) (base : Nat) (m m' : Mem) :
    Prop where
  filled : NodeFilled img d base base (nodeMem none base tree.name tree.items) 0
    (fullName none tree.name) tree.items
    (nodePhandleOf d (d.base + d.offDtStruct) tree.name tree.items)
    (fun x => img.allNodes ≤ x ∧ x < img.allNodes + 4) m m'
  head : load32 m' img.allNodes = base

variable (alloc) in
/-- The root is placed, and ready for its children. -/
theorem fill_root {base : Nat} (h : d.Holds tree) (hs : Loaded img d s)
    (harena : Arena img d s base tree.size)
    (hzero : ∀ x, base ≤ x → x < base + tree.size → s.bytes x = 0) :
    ∃ m, fwkFdtPopulateNode img alloc d.base (d.base + d.offDtStruct) base 0 img.allNodes s =
        .ok (⟨base, d.itemsEnd (Fdt.itemsAt (d.base + d.offDtStruct) tree.name) tree.items,
          nodeMem none base tree.name tree.items, base + 40,
          itemTokens d (Fdt.itemsAt (d.base + d.offDtStruct) tree.name) tree.items⟩, s.put m) ∧
      RootFilled img d tree base s.bytes m ∧ Loaded img d (s.put m) ∧
      FillReady (s.put m) base tree.size (nodeMem none base tree.name tree.items) base (base + 40)
        (asParent none tree.name) := by
  have hplace := harena.place
  have halign := alignUp_of_mod harena.aligned
  have hsize := tree.size_below harena.aligned
  have hmem := le_forestMem tree.children (some (asParent none tree.name))
    (nodeMem none base tree.name tree.items)
  obtain ⟨-, hnode⟩ := nodeMem_room none base tree.name tree.items
  have hhead := harena.head
  obtain ⟨m, hpop, hfilled, hword, -⟩ := populateNode_fill alloc (L := fun _ => False)
    (Q := fun _ => True) hs h.held.node (show IsParent s 0 none from rfl) (fun _ => h.root) harena
    (Nat.le_refl base) (by omega) hzero hs.head.1 (Ram.Live.of_fixed hs.allNodes) (by omega)
    hs.head.2.2 (show IsParent _ 0 none from rfl) trivial (fun _ hx => hx.elim)
    (fun m hm => by
      obtain ⟨m', hrun, hparent, hphandle, hchanged⟩ := linkParent_own (s := s.put m)
        (a := alignUp 4 base) (by simpa using harena.live.mono (by omega) (by omega))
        (show 0 < 2 ^ 32 by decide)
        (show (isValid 0 && isValid (alignUp 4 base + 40)) = false by simp [isValid])
      refine ⟨m', hrun, hparent, hphandle, hchanged.mono fun x hx => ?_, fun _ _ => trivial⟩
      exact hx.imp_right .inl)
  have hchanged : ChangedIn (fun x => (base ≤ x ∧ x < nodeMem none base tree.name tree.items) ∨
      (img.allNodes ≤ x ∧ x < img.allNodes + 4)) s.bytes m :=
    hfilled.changed.mono fun x hx => hx.imp_right fun hW => hW.resolve_right id
  have hready : FillReady (s.put m) base tree.size _ _ _ _ :=
    hfilled.ready harena (fun _ => h.root) rfl (Nat.le_refl base) (by omega) fun x hxlo hxhi => by
      rw [hchanged x (by omega), hzero x (by omega) hxhi]
  rw [halign] at hpop hfilled hword hready
  refine ⟨m, hpop, ⟨{ hfilled with changed := hchanged }, hword⟩, hs.put hchanged ?_, hready⟩
  intro x hx hW
  have hout := harena.outside hx
  rcases hW with hW | hW
  · omega
  · exact hs.head.2.2 x hW.1 hW.2 hx

section Tree

variable {base next' : Nat} {xs : List Nat} {m m' : Mem}
  (hroot : RootFilled img d tree base s.bytes m)
  (hbelow : ForestFilled img d (base + tree.size)
    (d.itemsEnd (Fdt.itemsAt (d.base + d.offDtStruct) tree.name) tree.items)
    (nodeMem none base tree.name tree.items) (base + tree.size) base (base + 40) next'
    (asParent none tree.name) tree.children xs m m')

include hroot hbelow

/-- The bytes that the pass has changed. -/
theorem RootFilled.changed (harena : Arena img d s base tree.size) :
    ChangedIn (fun x => (base ≤ x ∧ x < base + tree.size) ∨
      (img.allNodes ≤ x ∧ x < img.allNodes + 4)) s.bytes m' := by
  have hmem := le_forestMem tree.children (some (asParent none tree.name))
    (nodeMem none base tree.name tree.items)
  have hsize := tree.size_below harena.aligned
  obtain ⟨halign, hnode⟩ := nodeMem_room none base tree.name tree.items
  have hchanged := hbelow.changed
  rw [hroot.filled.childSlot_eq] at hchanged
  exact (hroot.filled.changed.mono fun x hx => by omega).trans
    (hchanged.mono fun x hx => by omega)

/-- The tree is built. -/
theorem RootFilled.treeBuilt (harena : Arena img d s base tree.size) (h : d.Holds tree) :
    TreeBuilt img d tree base (base :: xs) m' := by
  have hmem := le_forestMem tree.children (some (asParent none tree.name))
    (nodeMem none base tree.name tree.items)
  have hsize := tree.size_below harena.aligned
  obtain ⟨-, hnode⟩ := nodeMem_room none base tree.name tree.items
  have halign := alignUp_of_mod harena.aligned
  have hhead := harena.head
  have hplace := harena.place
  have hslot := hroot.filled.childSlot_eq
  have hchanged := hbelow.changed
  rw [hslot] at hchanged
  have hown := (hroot.filled.built.frame hchanged fun x hx => by
    rcases hx with hx | hx
    · have hout := harena.outside hx
      omega
    · omega).holds
  obtain ⟨hbuilt, hchain⟩ := hbelow.built.holds
  have hsibling : load32 m' (base + 32) = 0 := by
    rw [hchanged.load32 fun x _ _ => by omega]
    exact load32_zero fun x hxlo hxhi => hroot.filled.links x (by omega) (by omega)
  have hfirst : load32 m' img.allNodes = base :=
    (hchanged.load32 fun x _ _ => by omega).trans hroot.head
  have hneed : (fullName none tree.name).length + 1 ≤ lenthNeed none tree.name :=
    lenthNeed_ge fun _ => h.root
  rw [hslot, hbelow.slotNull] at hbuilt
  refine ⟨hfirst, ?_, ⟨next', ⟨hfirst, hchain⟩, hbelow.linkNull⟩, ?_, ?_⟩
  · exact ⟨by omega, by omega, hown, xs, [], (List.append_nil _).symm, hbuilt, hsibling, rfl⟩
  · intro x hx
    rcases List.mem_cons.mp hx with rfl | hx
    · omega
    · have hx' := hbelow.nodes x hx
      omega
  · refine List.pairwise_cons.mpr ⟨fun x hx => ?_, hbelow.sorted⟩
    have hx' := hbelow.nodes x hx
    omega

end Tree

variable (alloc) in
/-- **The filling pass over a tree** ends where the sizing pass says, and has built the tree. -/
theorem fill_tree {base : Nat} (h : d.Holds tree) (hs : Loaded img d s)
    (harena : Arena img d s base tree.size)
    (hzero : ∀ x, base ≤ x → x < base + tree.size → s.bytes x = 0) :
    ∃ m xs, fwkUnflattenDtNodes img alloc d.base base (d.base + d.offDtStruct) img.allNodes s =
        .ok ((base + tree.size, treeTokens d tree), s.put m) ∧
      ChangedIn (fun x => (base ≤ x ∧ x < base + tree.size) ∨
        (img.allNodes ≤ x ∧ x < img.allNodes + 4)) s.bytes m ∧
      TreeBuilt img d tree base xs m := by
  have hplace := harena.place
  have hheld := h.held
  obtain ⟨hname, hitems, hchildren, -⟩ := forestPlaces d (d.base + d.offDtStruct) tree.nops
    tree.name tree.items tree.children .nil
  have hover : d.forestEnd (d.base + d.offDtStruct) tree.forest = d.forestEnd
      (d.itemsEnd (Fdt.itemsAt (d.base + d.offDtStruct) tree.name) tree.items) tree.children + 4 +
      4 * tree.nops := rfl
  have hsize := tree.size_below harena.aligned
  have hmem := le_forestMem tree.children (some (asParent none tree.name))
    (nodeMem none base tree.name tree.items)
  obtain ⟨halign, hnode⟩ := nodeMem_room none base tree.name tree.items
  have hplaceBlob := hs.place
  have hinside := h.inside
  -- the root
  obtain ⟨m₁, hpop, hroot, hs₁, hready⟩ := fill_root alloc h hs harena hzero
  have hvalid : isValid base = true := isValid_iff.mpr ⟨by omega, by omega⟩
  have hstart : Leads (passLoop img alloc d.base) 1
      (⟨d.base + d.offDtStruct, base, 0, img.allNodes, []⟩, s)
      (⟨d.itemsEnd (Fdt.itemsAt (d.base + d.offDtStruct) tree.name) tree.items,
        nodeMem none base tree.name tree.items, base, base + 40,
        (d.base + d.offDtStruct) ::
          itemTokens d (Fdt.itemsAt (d.base + d.offDtStruct) tree.name) tree.items⟩, s.put m₁) := by
    intro k
    rw [pass_start hs hheld.lo h.start hheld.node.tag, RamM.bind_ok hpop]
    dsimp only
    rw [if_neg (by simp [hvalid])]
    rfl
  -- its children
  obtain ⟨n₂, m₂, next₂, xs, hn₂, hlead₂, hbelow⟩ := fill_forest alloc
    ((d.base + d.offDtStruct) ::
      itemTokens d (Fdt.itemsAt (d.base + d.offDtStruct) tree.name) tree.items)
    hs₁ hheld.ofChildren hready (harena.put m₁) (by omega)
  rw [Ram.put_put, ← hsize] at hlead₂
  rw [Ram.put_bytes, ← hsize] at hbelow
  have hchanged := hroot.changed hbelow harena
  have hs₂ : Loaded img d (s.put m₂) := hs.put hchanged fun x hx hW => by
    have hout := harena.outside hx
    rcases hW with hW | hW
    · omega
    · exact hs.head.2.2 x hW.1 hW.2 hx
  -- the end
  have hlink := hbelow.link
  have hlinkHi := hbelow.linkHi
  have hchanged₂ := hbelow.changed
  rw [hroot.filled.childSlot_eq] at hchanged₂
  have hword₂ : load32 m₂ (base + 24) = 0 :=
    (hchanged₂.load32 fun x _ _ => by omega).trans hroot.filled.parent
  have hleave : leaveNode base next₂ (s.put m₂) = .ok (0, s.put m₂) := by
    rw [leaveNode_fill hvalid (isValid_iff.mpr ⟨by omega, by omega⟩)
      (by simpa using harena.live.mono (by omega) (by omega)), Ram.put_bytes, hword₂]
  obtain ⟨-, -, -, -, hend, hnops, -⟩ := hheld.holds
  have hall := ((hstart.trans hlead₂).trans
    (pass_end hs₂ (by omega) (by omega) hend hleave)).trans
    (pass_nops hs₂ (by omega) hnops (by omega))
  have hends := hall.ends (pass_allEnd hs₂ (by omega) (by omega) h.allEnd)
  have hrounds := tokenRounds_ge
  refine ⟨m₂, base :: xs, ?_, hchanged, hroot.treeBuilt hbelow harena h⟩
  have htoks : treeTokens d tree = (d.base + d.offDtStruct) ::
      itemTokens d (Fdt.itemsAt (d.base + d.offDtStruct) tree.name) tree.items ++
      forestTokens d (d.itemsEnd (Fdt.itemsAt (d.base + d.offDtStruct) tree.name) tree.items)
        tree.children ++
      [d.forestEnd (d.itemsEnd (Fdt.itemsAt (d.base + d.offDtStruct) tree.name) tree.items)
        tree.children] ++
      nopTokens (d.forestEnd (d.itemsEnd (Fdt.itemsAt (d.base + d.offDtStruct) tree.name)
        tree.items) tree.children + 4) tree.nops ++
      [d.forestEnd (d.base + d.offDtStruct) tree.forest] := by
    simp [treeTokens, OfTree.forest, forestTokens]
  rw [unflatten_start h hs, htoks]
  exact hends.run (by omega)

end HeavenFox.Platform
