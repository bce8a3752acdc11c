/-
# HeavenFox.Platform.OfPopulate -- the two ways to populate a node

`fwk_fdt_populate_node` as a whole, in the sizing pass and in the filling pass.
In the first a node is a block of its own, which has the path name and the parent
and nothing else, or the allocation is refused and nothing has changed.  In the
second it is the next piece of the one block for all nodes, and the lemma says
what the piece holds and which words outside of it are written.
-/
import HeavenFox.Platform.OfNode

namespace HeavenFox.Platform

open HeavenFox.Logic HeavenFox.Common

variable {img : OfImage} {d : Fdt} {s t : Ram} {alloc : Kzalloc}

/-! ## States that keep what is used -/

theorem Loaded.keeps (hs : Loaded img d s) (h : s.Keeps t) : Loaded img d t where
  blob := h.fixed ▸ hs.blob
  strName := h.fixed ▸ hs.strName
  allNodes := h.fixed ▸ hs.allNodes
  const := by
    intro x hx
    refine (h.bytes x ?_).trans (hs.const x hx)
    rcases hx with hx | hx
    · exact (Ram.Live.of_fixed hs.blob).mono hx.1 (by dsimp only; omega)
    · exact (Ram.Live.of_fixed hs.strName).mono hx.1 (by dsimp only; omega)
  place := hs.place
  header := hs.header
  name := hs.name
  head := hs.head

/-- Nothing that is constant is in a block that is given. -/
theorem Loaded.fresh (hs : Loaded img d s) {n : Nat} (h : alloc.give s n ≠ 0) {x : Nat}
    (hlo : alloc.give s n ≤ x) (hhi : x < alloc.give s n + n) : ¬ img.Const d x := by
  have hblob := alloc.apart h (Ram.Live.of_fixed hs.blob)
  have hstr := alloc.apart h (Ram.Live.of_fixed hs.strName)
  dsimp only at hblob hstr
  rintro (hx | hx) <;> omega

theorem OpenNode.keeps {node : Nat} {par : OfParent} (hopen : OpenNode s node par) (h : s.Keeps t)
    (hlive : t.Live node (52 + (par.path.length + 1))) : OpenNode t node par where
  valid := hopen.valid
  live := hlive
  fullName := ((h.agreeOn hopen.live).load32 (by omega) (by omega)).trans hopen.fullName
  path := hopen.path.congr ((h.agreeOn hopen.live).mono (by omega) (by omega))
  above := by
    rw [(h.agreeOn hopen.live).load32 (by omega) (by omega)]
    exact hopen.above

theorem IsParent.grow {node n : Nat} {parent : Option OfParent} (hparent : IsParent s node parent)
    (h : alloc.give s n ≠ 0) : IsParent (s.grow (alloc.give s n) n) node parent := by
  cases parent with
  | none => exact hparent
  | some par =>
    have hopen : OpenNode s node par := hparent
    exact hopen.keeps (alloc.keeps h) (hopen.live.grow _ _)

theorem IsParent.fresh {node n : Nat} {parent : Option OfParent} (hparent : IsParent s node parent)
    (h : alloc.give s n ≠ 0) :
    ApartFrom node (alloc.give s n) (alloc.give s n + n) parent := by
  cases parent with
  | none => trivial
  | some par =>
    have hopen : OpenNode s node par := hparent
    exact alloc.apart h hopen.live

theorem ApartFrom.mono {node lo hi lo' hi' : Nat} {parent : Option OfParent}
    (h : ApartFrom node lo hi parent) (hlo : lo ≤ lo') (hhi : hi' ≤ hi) :
    ApartFrom node lo' hi' parent := by
  cases parent with
  | none => trivial
  | some par =>
    have hcases : node + (52 + (par.path.length + 1)) ≤ lo ∨ hi ≤ node := h
    have hgoal : node + (52 + (par.path.length + 1)) ≤ lo' ∨ hi' ≤ node := by omega
    exact hgoal

/-! ## A node in the blob -/

/-- A node stands at `p`, and behind its items neither a NOP nor a property. -/
structure NodeHeld (d : Fdt) (p : Nat) (name : List UInt8) (items : List OfItem) : Prop where
  lo : d.base ≤ p
  tag : loadBe32 d.bytes p = fdtNodeStart
  str : CStrAt d.bytes (p + 4) name
  items : ItemsHeld d (Fdt.itemsAt p name) items

theorem NodeHeld.bounds {p : Nat} {name : List UInt8} {items : List OfItem}
    (h : NodeHeld d p name items) : p + 4 + (name.length + 1) ≤ Fdt.itemsAt p name ∧
      Fdt.itemsAt p name + 4 * items.length ≤ d.itemsEnd (Fdt.itemsAt p name) items ∧
      d.itemsEnd (Fdt.itemsAt p name) items + 4 ≤ d.base + d.len :=
  ⟨Fdt.itemsAt_ge p name, h.items.rounds, h.items.hi⟩

theorem tokenRounds_ge : 2 ^ 32 ≤ tokenRounds := by decide

/-- What stands before the node gets its memory. -/
theorem populateNode_read {p mem node next : Nat} {name : List UInt8} {items : List OfItem}
    {parent : Option OfParent} (hs : Loaded img d s) (h : NodeHeld d p name items)
    (hparent : IsParent s node parent)
    (hroot : parent = none → name = [] ∨ name.head? = some slash)
    (hneed : lenthNeed parent name < 2 ^ 32) :
    fwkFdtPopulateNode img alloc d.base p mem node next s =
      (do
        let place ← placeNode alloc mem (lenthNeed parent name) next
        if !isValid next && !isValid place.sprtNode then pure ⟨0, p, mem, place.ptrAllNext, []⟩
        else do
          let _ ← writeFullName place.sprtNode node (p + 4) (name.length + 1)
            (!decide (name.head? = some slash))
          let _ ← linkParent place.sprtNode node place.ptrAllNext
          let st ← propertyLoop d.base place.sprtNode place.ptrAllNext tokenRounds
            ⟨Fdt.itemsAt p name, place.ptrMem, place.sprtNode + 16, false, []⟩
          let ptrMem ← closeNode img place.sprtNode place.ptrAllNext st
          pure ⟨place.sprtNode, st.ptrMove, ptrMem, place.ptrAllNext, st.tokens⟩ : RamM NodeAt)
        s := by
  have hplace := hs.place
  obtain ⟨hname, hrounds, hend⟩ := h.bounds
  have hlo := h.lo
  have hmove : add32 p 4 = p + 4 := add32_of_lt (by omega)
  have hlen := pathLenth_run hs h.str (by omega) (by omega) hparent hroot hneed
  have hitems : mrtAlign (add32 (p + 4) (name.length + 1)) 4 = Fdt.itemsAt p name := by
    rw [add32_of_lt (by omega), mrtAlign_four (by omega), Fdt.itemsAt]
  have htag : ¬ loadBe32 d.bytes p ≠ fdtNodeStart := fun hne => hne h.tag
  unfold fwkFdtPopulateNode nodeProperties
  rw [RamM.bind_ok (hs.be32 hlo (by omega)), if_neg htag, hmove, RamM.bind_ok hlen, hitems]

/-! ## The sizing pass -/

/-- The memory is only counted, and a block is asked for. -/
theorem placeNode_size {mem need : Nat} (hmem : alignUp 4 mem + (52 + need) ≤ 0xfffff000) :
    placeNode alloc mem need 0 s =
      if alloc.give s (52 + need) = 0 then
        .ok (⟨0, alignUp 4 mem + (52 + need), 0⟩, s.refuse)
      else
        .ok (⟨alloc.give s (52 + need), alignUp 4 mem + (52 + need), 0⟩,
          s.grow (alloc.give s (52 + need)) (52 + need)) := by
  have hle := le_alignUp mem
  have hnull : isValid 0 = false := by decide
  have hsum : add32 52 need = 52 + need := add32_of_lt (by omega)
  unfold placeNode nodeSize
  rw [hnull, if_neg (by decide), hsum, memoryCalculate_eq (by omega)]
  dsimp only
  by_cases hgive : alloc.give s (52 + need) = 0
  · have halloc : RamM.kzalloc alloc (52 + need) s = .ok (0, s.refuse) := if_pos hgive
    rw [RamM.bind_ok halloc, if_pos hgive]
    rfl
  · have halloc : RamM.kzalloc alloc (52 + need) s =
      .ok (alloc.give s (52 + need), s.grow (alloc.give s (52 + need)) (52 + need)) := if_neg hgive
    rw [RamM.bind_ok halloc, if_neg hgive]
    rfl

variable (alloc) in
/-- **A node in the sizing pass.**  Either its allocation is refused, or it is a new block that has
the path name and the parent; nothing else that is in use has changed. -/
theorem populateNode_size {p mem node : Nat} {name : List UInt8} {items : List OfItem}
    {parent : Option OfParent} (hs : Loaded img d s) (h : NodeHeld d p name items)
    (hparent : IsParent s node parent)
    (hroot : parent = none → name = [] ∨ name.head? = some slash)
    (hmem : nodeMem parent mem name items ≤ 0xfffff000) :
    fwkFdtPopulateNode img alloc d.base p mem node 0 s = .ok (⟨0, p, mem, 0, []⟩, s.refuse) ∨
    ∃ a t, fwkFdtPopulateNode img alloc d.base p mem node 0 s =
        .ok (⟨a, d.itemsEnd (Fdt.itemsAt p name) items, nodeMem parent mem name items, 0,
          itemTokens d (Fdt.itemsAt p name) items⟩, t) ∧
      s.Keeps t ∧ t.heap = ⟨a, 52 + lenthNeed parent name⟩ :: s.heap ∧ t.refused = s.refused ∧
      OpenNode t a (asParent parent name) ∧ load32 t.bytes (a + 24) = node := by
  obtain ⟨-, hnode⟩ := nodeMem_room parent mem name items
  have hread : fwkFdtPopulateNode img alloc d.base p mem node 0 s = _ :=
    populateNode_read hs h hparent hroot (by omega)
  have hplace := @placeNode_size s alloc mem (lenthNeed parent name) (by omega)
  obtain ⟨hname, hrounds, hend⟩ := h.bounds
  have hlo := h.lo
  have hbase := hs.place
  rw [hread]
  by_cases hgive : alloc.give s (52 + lenthNeed parent name) = 0
  · left
    rw [if_pos hgive] at hplace
    rw [RamM.bind_ok hplace]
    dsimp only
    rw [if_pos (by decide)]
    rfl
  right
  rw [if_neg hgive] at hplace
  obtain ⟨-, hroom, -⟩ := alloc.fresh s _ hgive
  have hneed := lenthNeed_ge hroot
  have hkeeps := alloc.keeps hgive
  have hconst := fun x => hs.fresh hgive (x := x)
  have hparent₀ := hparent.grow hgive
  have hapart := hparent.fresh hgive
  set a := alloc.give s (52 + lenthNeed parent name) with ha
  set s₀ := s.grow a (52 + lenthNeed parent name) with hs₀def
  have hs₀ : Loaded img d s₀ := hs.keeps hkeeps
  have hlive : s₀.Live a (52 + lenthNeed parent name) := Ram.live_grow_new _ _ _
  have hvalid : isValid a = true := isValid_iff.mpr ⟨by omega, by omega⟩
  -- the path name
  obtain ⟨m₁, hrun₁, hm₁, hword₁, hpath₁⟩ := writeFullName_run hs₀ h.str (by omega) (by omega)
    hparent₀ (hlive.mono (Nat.le_refl a) (by omega)) (by omega)
    (fun x hxlo hxhi => hconst x hxlo (by omega)) (hapart.mono (Nat.le_refl a) (by omega))
  -- the parent
  have hnodeLt : node < 2 ^ 32 := by
    cases parent with
    | none =>
      have hzero : node = 0 := hparent
      omega
    | some par =>
      have hopen : OpenNode s node par := hparent
      have hlt := (isValid_iff.mp hopen.valid).2
      omega
  have hnull : (isValid node && isValid 0) = false := by simp [isValid]
  obtain ⟨m₂, hrun₂, hparent₂, -, hm₂⟩ := linkParent_own (s := s₀.put m₁)
    (by simpa using hlive.mono (Nat.le_refl a) (by omega)) hnodeLt hnull
  have hm : ChangedIn (fun x => a ≤ x ∧ x < a + (52 + lenthNeed parent name)) s₀.bytes m₂ :=
    (hm₁.mono fun x hx => by omega).trans (hm₂.mono fun x hx => by omega)
  have hs₂ : Loaded img d (s₀.put m₂) := hs₀.put hm fun x hx hW => hconst x hW.1 hW.2 hx
  have hword₂ : load32 m₂ (a + 12) = a + 52 :=
    (hm₂.load32 fun x _ _ => by omega).trans hword₁
  have hpath₂ : CStrAt m₂ (a + 52) (fullName parent name) :=
    hpath₁.congr (hm₂.agreeOn fun x _ _ => by omega)
  -- the properties
  have hrounds' := tokenRounds_ge
  have hitems := le_itemsMem items (alignUp 4 mem + (52 + lenthNeed parent name))
  have hclosed : nameMem (fullName parent name) (ofNamed items)
      (itemsMem (alignUp 4 mem + (52 + lenthNeed parent name)) items) =
      nodeMem parent mem name items := rfl
  have hle := le_nameMem (fullName parent name) (ofNamed items)
    (itemsMem (alignUp 4 mem + (52 + lenthNeed parent name)) items)
  have hloop : propertyLoop d.base a 0 tokenRounds
      ⟨Fdt.itemsAt p name, alignUp 4 mem + (52 + lenthNeed parent name), a + 16, false, []⟩
      (s₀.put m₂) = _ :=
    propertyLoop_size hs₂ h.items (by omega) (by omega) (by omega)
  rw [Bool.false_or, List.nil_append] at hloop
  have hclose : closeNode img a 0 ⟨d.itemsEnd (Fdt.itemsAt p name) items,
      itemsMem (alignUp 4 mem + (52 + lenthNeed parent name)) items, a + 16, ofNamed items,
      itemTokens d (Fdt.itemsAt p name) items⟩ (s₀.put m₂) = _ :=
    closeNode_size hs₂ hword₂ hpath₂ (by simpa using hlive.mono (Nat.le_refl a) (by omega))
      (by omega) (by omega)
  refine ⟨a, s₀.put m₂, ?_, ⟨rfl, fun x hx => ?_⟩, rfl, rfl, ?_, hparent₂⟩
  · rw [RamM.bind_ok hplace, if_neg (by simp [hvalid]), RamM.bind_ok hrun₁, RamM.bind_ok hrun₂,
      Ram.put_put, RamM.bind_ok hloop, RamM.bind_ok hclose, hclosed]
    rfl
  · have hout := alloc.apart hgive hx
    exact (hm x (by omega)).trans (hkeeps.bytes x hx)
  · refine ⟨hvalid, by simpa using hlive.mono (Nat.le_refl a) (by dsimp only [asParent]; omega),
      hword₂, hpath₂, ?_⟩
    rw [Ram.put_bytes, hparent₂, isValid_parent hparent]
    rfl

/-! ## The filling pass -/

/-- The block for all nodes: `len` bytes from `base` on, apart from what is constant and from the
variable that heads the list. -/
structure Arena (img : OfImage) (d : Fdt) (s : Ram) (base len : Nat) : Prop where
  live : s.Live base len
  place : 0 < base ∧ base + len ≤ 0xfffff000
  aligned : base % 4 = 0
  const : ∀ x, base ≤ x → x < base + len → ¬ img.Const d x
  head : img.allNodes + 4 ≤ base ∨ base + len ≤ img.allNodes

theorem Arena.put {base len : Nat} (h : Arena img d s base len) (m : Mem) :
    Arena img d (s.put m) base len where
  live := by simpa using h.live
  place := h.place
  aligned := h.aligned
  const := h.const
  head := h.head

/-- What the node at `a` holds, its links to other nodes but for the parent left out. -/
structure NodeBuilt (m : Mem) (a parent : Nat) (path : List UInt8)
    (props : List (List UInt8 × List UInt8)) (phandle : Nat) : Prop where
  fullName : load32 m (a + 12) = a + 52
  pathStr : CStrAt m (a + 52) path
  parent : load32 m (a + 24) = parent
  props : PropSeg m 0 (load32 m (a + 16)) props
  phandle : load32 m (a + 8) = phandle

/-- What the filling pass has made of the memory `m` at a node: `m'`.  The node is at `a`, its
memory ends at `stop`; it rests on its own bytes but for the four links, which are still null. -/
structure NodeFilled (img : OfImage) (d : Fdt) (a mem stop node : Nat) (path : List UInt8)
    (items : List OfItem) (phandle : Nat) (W : Nat → Prop) (m m' : Mem) : Prop where
  changed : ChangedIn (fun x => (mem ≤ x ∧ x < stop) ∨ W x) m m'
  word : load32 m' (a + 12) = a + 52
  pathStr : CStrAt m' (a + 52) path
  parent : load32 m' (a + 24) = node
  links : ∀ x, a + 28 ≤ x → x < a + 44 → m' x = 0
  built : RestsOn (fun x => img.Const d x ∨ (a ≤ x ∧ x < a + 28) ∨ (a + 44 ≤ x ∧ x < stop)) m'
    fun m => NodeBuilt m a node path (nodeProps path items) phandle

/-- The phandle of a node, in its word. -/
def nodePhandleOf (d : Fdt) (p : Nat) (name : List UInt8) (items : List OfItem) : Nat :=
  itemsPhandle d (Fdt.itemsAt p name) (2 ^ 32 - 1) items

/-- The word at `next` is taken for the new node. -/
theorem placeNode_fill {mem need next : Nat} (hnext : isValid next = true) (hlive : s.Live next 4)
    (hmem : alignUp 4 mem + (52 + need) ≤ 0xfffff000) :
    placeNode alloc mem need next s = .ok (⟨alignUp 4 mem, alignUp 4 mem + (52 + need),
      alignUp 4 mem + 40⟩, s.put (store32 s.bytes next (alignUp 4 mem))) := by
  have hle := le_alignUp mem
  have hsum : add32 52 need = 52 + need := add32_of_lt (by omega)
  unfold placeNode nodeSize nodeAllnext
  rw [hnext, if_pos rfl, hsum, memoryCalculate_eq (by omega)]
  dsimp only
  rw [RamM.bind_ok (putWord_run hlive)]
  rfl

/-- The properties of a node whose path name is in place, and the end of the node. -/
theorem nodeItems_fill {p a mem base len : Nat} {path : List UInt8} {items : List OfItem}
    (hs : Loaded img d s) (h : ItemsHeld d p items) (harena : Arena img d s base len)
    (hbase : base ≤ a) (hmem : a + (52 + (path.length + 1)) ≤ mem)
    (htop : nameMem path (ofNamed items) (itemsMem mem items) ≤ base + len)
    (hword : load32 s.bytes (a + 12) = a + 52) (hpath : CStrAt s.bytes (a + 52) path)
    (hfirst : load32 s.bytes (a + 16) = 0) :
    ∃ m, (do
        let st ← propertyLoop d.base a (a + 40) tokenRounds ⟨p, mem, a + 16, false, []⟩
        let ptrMem ← closeNode img a (a + 40) st
        pure ⟨a, st.ptrMove, ptrMem, a + 40, st.tokens⟩ : RamM NodeAt) s =
          .ok (⟨a, d.itemsEnd p items, nameMem path (ofNamed items) (itemsMem mem items), a + 40,
            itemTokens d p items⟩, s.put m) ∧
      ChangedIn (fun x =>
        (mem ≤ x ∧ x < nameMem path (ofNamed items) (itemsMem mem items)) ∨
          (a ≤ x ∧ x < a + 12) ∨ (a + 16 ≤ x ∧ x < a + 20)) s.bytes m ∧
      load32 m (a + 8) = itemsPhandle d p (load32 s.bytes (a + 8)) items ∧
      RestsOn (fun x => img.Const d x ∨
        (mem ≤ x ∧ x < nameMem path (ofNamed items) (itemsMem mem items)) ∨
          (a + 16 ≤ x ∧ x < a + 20)) m
        (fun m => PropSeg m 0 (load32 m (a + 16)) (nodeProps path items)) := by
  have hplace := harena.place
  have hrounds := h.rounds
  have hhi := h.hi
  have hlo := h.lo
  have hbound := hs.place
  have htokens := tokenRounds_ge
  have hitems := le_itemsMem items mem
  have hle := le_nameMem path (ofNamed items) (itemsMem mem items)
  have hvalid : isValid (a + 40) = true := isValid_iff.mpr ⟨by omega, by omega⟩
  have hlive : ∀ x k, base ≤ x → x + k ≤ base + len → s.Live x k :=
    fun x k hxlo hxhi => harena.live.mono hxlo hxhi
  obtain ⟨m₁, prev', hrun₁, hfilled⟩ := @propertyLoop_fill img d s items p a mem (a + 16)
    tokenRounds (a + 40) base (base + len) false [] hs h hvalid (hlive base _ (by omega) (by omega))
    hbase (by omega) hplace.2 harena.const (by omega) (by omega) (by omega)
  rw [Bool.false_or, List.nil_append] at hrun₁
  have hchanged := hfilled.changed
  have hs₁ : Loaded img d (s.put m₁) :=
    hs.put hchanged fun x hx hW => harena.const x (by omega) (by omega) hx
  have hword₁ : load32 m₁ (a + 12) = a + 52 := (hchanged.load32 fun x _ _ => by omega).trans hword
  have hpath₁ : CStrAt m₁ (a + 52) path := hpath.congr (hchanged.agreeOn fun x _ _ => by omega)
  have hlink := hfilled.link
  have hroom := hfilled.room
  obtain ⟨m, hrun, hm, hprops⟩ := @closeNode_fill img d (s.put m₁) a (d.itemsEnd p items)
    (itemsMem mem items) mem (a + 16) prev' (a + 40) path items (itemTokens d p items) hs₁ hvalid
    hword₁ hpath₁ (by simpa using hlive a _ (by omega) (by omega)) hmem hitems (by omega)
    (fun x hxlo hxhi => harena.const x (by omega) (by omega)) (by omega) (by omega) hlink hroom
    (hfilled.last hfirst) hfilled.chain
  refine ⟨m, ?_, (hchanged.mono fun x hx => by omega).trans (hm.mono fun x hx => by omega), ?_,
    hprops⟩
  · rw [RamM.bind_ok hrun₁, RamM.bind_ok hrun, Ram.put_put]
    rfl
  · rw [hm.load32 fun x _ _ => by omega]
    exact hfilled.phandle

variable (alloc) in
/-- **A node in the filling pass**, whatever is linked to its parent: the words in `L`, of which `Q`
holds then. -/
theorem populateNode_fill {p mem node next base len : Nat} {name : List UInt8}
    {items : List OfItem} {parent : Option OfParent} {L : Nat → Prop} {Q : Mem → Prop}
    (hs : Loaded img d s) (h : NodeHeld d p name items) (hparent : IsParent s node parent)
    (hroot : parent = none → name = [] ∨ name.head? = some slash)
    (harena : Arena img d s base len) (hbase : base ≤ mem)
    (htop : nodeMem parent mem name items ≤ base + len)
    (hzero : ∀ x, mem ≤ x → x < base + len → s.bytes x = 0) (hnext : isValid next = true)
    (hslot : s.Live next 4) (hslotOut : next + 4 ≤ mem ∨ base + len ≤ next)
    (hslotConst : ∀ x, next ≤ x → x < next + 4 → ¬ img.Const d x)
    (hparent' : IsParent (s.put (store32 s.bytes next (alignUp 4 mem))) node parent)
    (hapart : ApartFrom node mem (base + len) parent)
    (hL : ∀ x, L x → ¬ img.Const d x ∧ ¬ (mem ≤ x ∧ x < base + len) ∧
      ¬ (next ≤ x ∧ x < next + 4))
    (hlink : ∀ m, ChangedIn (fun x => (mem ≤ x ∧ x < base + len) ∨ (next ≤ x ∧ x < next + 4))
        s.bytes m →
      ∃ m', linkParent (alignUp 4 mem) node (alignUp 4 mem + 40) (s.put m) = .ok ((), s.put m') ∧
        load32 m' (alignUp 4 mem + 24) = node ∧ load32 m' (alignUp 4 mem + 8) = 2 ^ 32 - 1 ∧
        ChangedIn (fun x => (alignUp 4 mem + 8 ≤ x ∧ x < alignUp 4 mem + 12) ∨
          (alignUp 4 mem + 24 ≤ x ∧ x < alignUp 4 mem + 28) ∨ L x) m m' ∧ RestsOn L m' Q) :
    ∃ m, fwkFdtPopulateNode img alloc d.base p mem node next s =
        .ok (⟨alignUp 4 mem, d.itemsEnd (Fdt.itemsAt p name) items,
          nodeMem parent mem name items, alignUp 4 mem + 40,
          itemTokens d (Fdt.itemsAt p name) items⟩, s.put m) ∧
      NodeFilled img d (alignUp 4 mem) mem (nodeMem parent mem name items) node
        (fullName parent name) items (nodePhandleOf d p name items)
        (fun x => (next ≤ x ∧ x < next + 4) ∨ L x) s.bytes m ∧
      load32 m next = alignUp 4 mem ∧ Q m := by
  obtain ⟨halign, hnode⟩ := nodeMem_room parent mem name items
  have hplace := harena.place
  have hneed := lenthNeed_ge hroot
  have hread : fwkFdtPopulateNode img alloc d.base p mem node next s = _ :=
    populateNode_read hs h hparent hroot (by omega)
  have hput := @placeNode_fill s alloc mem (lenthNeed parent name) next hnext hslot (by omega)
  obtain ⟨hname, hrounds, hend⟩ := h.bounds
  have hlo := h.lo
  have hbound := hs.place
  set a := alignUp 4 mem with ha
  have hlive : ∀ x k, base ≤ x → x + k ≤ base + len → s.Live x k :=
    fun x k hxlo hxhi => harena.live.mono hxlo hxhi
  -- the list of all nodes
  have hm₀ := changedIn_store32 s.bytes next a
  have hs₀ : Loaded img d (s.put (store32 s.bytes next a)) :=
    hs.put hm₀ fun x hx hW => hslotConst x hW.1 hW.2 hx
  -- the path name
  obtain ⟨m₁, hrun₁, hm₁, hword₁, hpath₁⟩ := writeFullName_run hs₀ h.str (by omega) (by omega)
    hparent' (by simpa using hlive a _ (by omega) (by omega)) (by omega)
    (fun x hxlo hxhi => harena.const x (by omega) (by omega)) (hapart.mono (by omega) (by omega))
  have hold₁ : ChangedIn (fun x => (mem ≤ x ∧ x < base + len) ∨ (next ≤ x ∧ x < next + 4))
      s.bytes m₁ := (hm₀.mono fun x hx => .inr hx).trans (hm₁.mono fun x hx => by omega)
  -- the parent
  obtain ⟨m₂, hrun₂, hparent₂, hphandle₂, hm₂, hQ⟩ := hlink m₁ hold₁
  have hzero₂ : ∀ x, (a + 16 ≤ x ∧ x < a + 24) ∨ (a + 28 ≤ x ∧ x < a + 52) → m₂ x = 0 := by
    intro x hx
    have hout : ¬ L x := fun hl => (hL x hl).2.1 ⟨by omega, by omega⟩
    rw [hm₂ x (by rintro (hw | hw | hw); exacts [by omega, by omega, hout hw]), hm₁ x (by omega),
      Ram.put_bytes, hm₀ x (by omega), hzero x (by omega) (by omega)]
  have hold₂ : ChangedIn (fun x => (mem ≤ x ∧ x < a + (52 + lenthNeed parent name)) ∨
      (next ≤ x ∧ x < next + 4) ∨ L x) s.bytes m₂ := by
    have hname₁ : ChangedIn (fun x => mem ≤ x ∧ x < a + (52 + lenthNeed parent name))
        (store32 s.bytes next a) m₁ := hm₁.mono fun x hx => by omega
    refine ((hm₀.mono fun x hx => .inr (.inl hx)).trans (hname₁.mono fun x hx => .inl hx)).trans
      (hm₂.mono fun x hx => ?_)
    rcases hx with hx | hx | hx
    · exact .inl (by omega)
    · exact .inl (by omega)
    · exact .inr (.inr hx)
  have hs₂ : Loaded img d (s.put m₂) := by
    refine hs.put hold₂ fun x hx hW => ?_
    rcases hW with hW | hW | hW
    · exact harena.const x (by omega) (by omega) hx
    · exact hslotConst x hW.1 hW.2 hx
    · exact (hL x hW).1 hx
  have hword₂ : load32 m₂ (a + 12) = a + 52 := by
    refine (hm₂.load32 fun x hxlo hxhi => ?_).trans hword₁
    rintro (hw | hw | hw)
    exacts [by omega, by omega, (hL x hw).2.1 ⟨by omega, by omega⟩]
  have hpath₂ : CStrAt m₂ (a + 52) (fullName parent name) := by
    refine hpath₁.congr (hm₂.agreeOn fun x hxlo hxhi => ?_)
    rintro (hw | hw | hw)
    exacts [by omega, by omega, (hL x hw).2.1 ⟨by omega, by omega⟩]
  -- the properties
  obtain ⟨m, hrun, hlast, hphandle, hprops⟩ := @nodeItems_fill img d (s.put m₂)
    (Fdt.itemsAt p name) a (a + (52 + lenthNeed parent name)) base len (fullName parent name) items
    hs₂ h.items (harena.put m₂) (by omega) (by omega) htop hword₂ hpath₂
    (load32_zero fun x _ _ => hzero₂ x (by omega))
  have hclosed : nameMem (fullName parent name) (ofNamed items)
      (itemsMem (a + (52 + lenthNeed parent name)) items) = nodeMem parent mem name items := rfl
  rw [hclosed] at hrun hlast hprops
  rw [Ram.put_bytes] at hlast hphandle
  have hparent₄ : load32 m (a + 24) = node :=
    (hlast.load32 fun x _ _ => by omega).trans hparent₂
  have hword₄ : load32 m (a + 12) = a + 52 :=
    (hlast.load32 fun x _ _ => by omega).trans hword₂
  have hpath₄ : CStrAt m (a + 52) (fullName parent name) :=
    hpath₂.congr (hlast.agreeOn fun x _ _ => by omega)
  have hphandle₄ : load32 m (a + 8) = nodePhandleOf d p name items := by
    rw [hphandle, hphandle₂]
    rfl
  refine ⟨m, ?_, ⟨?_, hword₄, hpath₄, hparent₄, ?_, ?_⟩, ?_, ?_⟩
  · rw [hread, RamM.bind_ok hput]
    dsimp only
    rw [hnext, if_neg (by simp), RamM.bind_ok hrun₁, Ram.put_put, RamM.bind_ok hrun₂]
    exact hrun
  · exact (hold₂.mono fun x hx => hx.imp_left fun hin => by omega).trans
      (hlast.mono fun x hx => .inl (by omega))
  · intro x hxlo hxhi
    rw [hlast x (by omega), hzero₂ x (by omega)]
  · intro M hM
    have hkept : ∀ x, (a ≤ x ∧ x < a + 28) ∨
        (a + 44 ≤ x ∧ x < nodeMem parent mem name items) → M x = m x :=
      fun x hx => hM x (.inr hx)
    have hfull : load32 M (a + 12) = a + 52 :=
      (load32_congr fun x _ _ => hkept x (by omega)).trans hword₄
    refine ⟨hfull, hpath₄.congr fun x _ _ => hkept x (by omega), ?_, ?_, ?_⟩
    · exact (load32_congr fun x _ _ => hkept x (by omega)).trans hparent₄
    · refine hprops M fun x hx => hM x ?_
      rcases hx with hx | hx | hx
      · exact .inl hx
      · exact .inr (.inr (by omega))
      · exact .inr (.inl (by omega))
    · exact (load32_congr fun x _ _ => hkept x (by omega)).trans hphandle₄
  · have hword : load32 (store32 s.bytes next a) next = a := by
      rw [load32_store32_same, Nat.mod_eq_of_lt (by omega)]
    rw [hlast.load32 fun x _ _ => by omega]
    refine (hm₂.load32 fun x hxlo hxhi => ?_).trans
      ((hm₁.load32 fun x _ _ => by omega).trans hword)
    rintro (hw | hw | hw)
    exacts [by omega, by omega, (hL x hw).2.2 ⟨hxlo, hxhi⟩]
  · refine hQ m fun x hx => hlast x ?_
    have hout := (hL x hx).2.1
    omega

end HeavenFox.Platform
