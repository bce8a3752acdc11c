/-
# HeavenFox.Platform.OfSizing -- the sizing pass

The first pass over the structure block, with no memory.  The nodes that are open
are a chain of blocks, one for each node from the current one up to the root;
`size_forest` goes over a forest with the chain of its parent as it is before and
after, so every block that was made for a node of the forest has been freed.  When
an allocation is refused the chain is freed as well, and the pass returns 0.
-/
import HeavenFox.Platform.OfPopulate
import HeavenFox.Logic.Loop

namespace HeavenFox.Platform

open HeavenFox.Logic HeavenFox.Common

variable {img : OfImage} {d : Fdt} {s t : Ram} {alloc : Kzalloc}

/-! ## A forest in the blob -/

def nopTokens : Nat → Nat → List Nat
  | _, 0 => []
  | p, n + 1 => p :: nopTokens (p + 4) n

/-- The tags of a forest at `p`. -/
def forestTokens (d : Fdt) : Nat → OfForest → List Nat
  | _, .nil => []
  | p, .node name items children nops siblings =>
    p :: itemTokens d (Fdt.itemsAt p name) items ++
      forestTokens d (d.itemsEnd (Fdt.itemsAt p name) items) children ++
      d.forestEnd (d.itemsEnd (Fdt.itemsAt p name) items) children ::
      nopTokens (d.forestEnd (d.itemsEnd (Fdt.itemsAt p name) items) children + 4) nops ++
      forestTokens d (d.forestEnd (d.itemsEnd (Fdt.itemsAt p name) items) children + 4 + 4 * nops)
        siblings

theorem forestTokens_node (d : Fdt) (p nops : Nat) (name : List UInt8) (items : List OfItem)
    (children siblings : OfForest) (toks : List Nat) :
    toks ++ p :: itemTokens d (Fdt.itemsAt p name) items ++
        forestTokens d (d.itemsEnd (Fdt.itemsAt p name) items) children ++
        [d.forestEnd (d.itemsEnd (Fdt.itemsAt p name) items) children] ++
        nopTokens (d.forestEnd (d.itemsEnd (Fdt.itemsAt p name) items) children + 4) nops ++
        forestTokens d (d.forestEnd (d.itemsEnd (Fdt.itemsAt p name) items) children + 4 +
          4 * nops) siblings =
      toks ++ forestTokens d p (.node name items children nops siblings) := by
  simp [forestTokens]

/-- A forest stands at `p`, and a tag behind it. -/
structure ForestHeld (d : Fdt) (p : Nat) (f : OfForest) : Prop where
  lo : d.base ≤ p
  holds : d.HoldsForest p f
  hi : d.forestEnd p f + 4 ≤ d.base + d.len

/-- Behind the items of a node stands its first child, or its end. -/
theorem holdsForest_tag {p : Nat} {f : OfForest} (h : d.HoldsForest p f)
    (hend : loadBe32 d.bytes (d.forestEnd p f) = fdtNodeEnd) :
    loadBe32 d.bytes p = fdtNodeStart ∨ loadBe32 d.bytes p = fdtNodeEnd := by
  cases f with
  | nil => exact .inr hend
  | node name items children nops siblings => exact .inl h.1

/-- The places of a node follow one another. -/
theorem forestPlaces (d : Fdt) (p nops : Nat) (name : List UInt8) (items : List OfItem)
    (children siblings : OfForest) :
    p + 4 + (name.length + 1) ≤ Fdt.itemsAt p name ∧
    Fdt.itemsAt p name ≤ d.itemsEnd (Fdt.itemsAt p name) items ∧
    d.itemsEnd (Fdt.itemsAt p name) items ≤
      d.forestEnd (d.itemsEnd (Fdt.itemsAt p name) items) children ∧
    d.forestEnd (d.itemsEnd (Fdt.itemsAt p name) items) children + 4 + 4 * nops ≤
      d.forestEnd p (.node name items children nops siblings) :=
  ⟨Fdt.itemsAt_ge p name, d.le_itemsEnd _ _, d.le_forestEnd _ _, d.le_forestEnd siblings _⟩

section Node

variable {p nops : Nat} {name : List UInt8} {items : List OfItem} {children siblings : OfForest}
  (h : ForestHeld d p (.node name items children nops siblings))

include h

theorem ForestHeld.node : NodeHeld d p name items := by
  obtain ⟨hname, hitems, hchildren, hsiblings⟩ :=
    forestPlaces d p nops name items children siblings
  have hlo := h.lo
  have hhi := h.hi
  obtain ⟨htag, hstr, hholds, hforest, hend, -, -⟩ := h.holds
  have hnext := holdsForest_tag hforest hend
  refine ⟨hlo, htag, hstr, ⟨by omega, hholds, ?_, ?_, by omega⟩⟩
  · rcases hnext with hnext | hnext <;> rw [hnext] <;> decide
  · rcases hnext with hnext | hnext <;> rw [hnext] <;> decide

theorem ForestHeld.ofChildren :
    ForestHeld d (d.itemsEnd (Fdt.itemsAt p name) items) children := by
  obtain ⟨hname, hitems, hchildren, hsiblings⟩ :=
    forestPlaces d p nops name items children siblings
  have hlo := h.lo
  have hhi := h.hi
  exact ⟨by omega, h.holds.2.2.2.1, by omega⟩

theorem ForestHeld.ofSiblings :
    ForestHeld d (d.forestEnd (d.itemsEnd (Fdt.itemsAt p name) items) children + 4 + 4 * nops)
      siblings := by
  obtain ⟨hname, hitems, hchildren, hsiblings⟩ :=
    forestPlaces d p nops name items children siblings
  have hlo := h.lo
  exact ⟨by omega, h.holds.2.2.2.2.2.2, h.hi⟩

end Node

/-! ## Rounds of the loop -/

/-- The loop of `fwk_unflatten_dt_nodes` over its variables and the memory. -/
def passLoop (img : OfImage) (alloc : Kzalloc) (ptrBlob rounds : Nat) (x : UnflattenLoop × Ram) :
    Except Stop ((Nat × List Nat) × Ram) :=
  unflattenLoop img alloc ptrBlob rounds x.1 x.2

variable {p mem node next : Nat} {toks : List Nat}

theorem pass_nops {n : Nat} (hs : Loaded img d s) (hlo : d.base ≤ p) (h : d.HoldsNops p n)
    (hhi : p + 4 * n + 4 ≤ d.base + d.len) :
    Leads (passLoop img alloc d.base) n (⟨p, mem, node, next, toks⟩, s)
      (⟨p + 4 * n, mem, node, next, toks ++ nopTokens p n⟩, s) := by
  induction n generalizing p toks with
  | zero =>
    rw [nopTokens, List.append_nil]
    exact Leads.refl _
  | succ n ih =>
    have hplace := hs.place
    have hmove : add32 p 4 = p + 4 := add32_of_lt (by omega)
    intro k
    have hrest := @ih (p + 4) (toks ++ [p]) (by omega) h.2 (by omega) k
    have hend : p + 4 + 4 * n = p + 4 * (n + 1) := by omega
    rw [hend, List.append_assoc, List.singleton_append] at hrest
    rw [nopTokens, ← hrest, ← Nat.add_assoc]
    unfold passLoop
    rw [unflattenLoop, RamM.bind_ok (hs.be32 hlo (by omega)), if_pos h.1]
    simp only [hmove]

/-- The end of a node, when `leaveNode` does its part. -/
theorem pass_end {parent : Nat} (hs : Loaded img d s) (hlo : d.base ≤ p)
    (hhi : p + 4 + 4 ≤ d.base + d.len) (htag : loadBe32 d.bytes p = fdtNodeEnd)
    (hleave : leaveNode node next s = .ok (parent, t)) :
    Leads (passLoop img alloc d.base) 1 (⟨p, mem, node, next, toks⟩, s)
      (⟨p + 4, mem, parent, next, toks ++ [p]⟩, t) := by
  have hplace := hs.place
  have hmove : add32 p 4 = p + 4 := add32_of_lt (by omega)
  have hnop : ¬ loadBe32 d.bytes p = fdtNodeNop := by
    rw [htag]
    decide
  intro k
  unfold passLoop
  rw [unflattenLoop, RamM.bind_ok (hs.be32 hlo (by omega)), if_neg hnop, if_pos htag,
    RamM.bind_ok hleave]
  simp only [hmove]

/-- The first tag of a node. -/
theorem pass_start {k : Nat} (hs : Loaded img d s) (hlo : d.base ≤ p)
    (hhi : p + 4 ≤ d.base + d.len) (htag : loadBe32 d.bytes p = fdtNodeStart) :
    passLoop img alloc d.base (k + 1) (⟨p, mem, node, next, toks⟩, s) =
      (do
        let new ← fwkFdtPopulateNode img alloc d.base p mem node next
        if !isValid new.sprtNode && !isValid new.ptrAllNext then do
          let _ ← freeParents walkRounds node
          pure (0, toks)
        else
          unflattenLoop img alloc d.base k ⟨new.ptrMove, new.ptrMem, new.sprtNode, new.ptrAllNext,
            toks ++ p :: new.tokens⟩ : RamM (Nat × List Nat)) s := by
  have hnop : ¬ loadBe32 d.bytes p = fdtNodeNop := by
    rw [htag]
    decide
  have hend : ¬ loadBe32 d.bytes p = fdtNodeEnd := by
    rw [htag]
    decide
  have hall : ¬ loadBe32 d.bytes p = fdtAllNodeEnd := by
    rw [htag]
    decide
  unfold passLoop
  rw [unflattenLoop, RamM.bind_ok (hs.be32 hlo hhi), if_neg hnop, if_neg hend, if_neg hall]

/-- The tag behind the root. -/
theorem pass_allEnd (hs : Loaded img d s) (hlo : d.base ≤ p) (hhi : p + 4 ≤ d.base + d.len)
    (htag : loadBe32 d.bytes p = fdtAllNodeEnd) :
    Ends (passLoop img alloc d.base) 1 (⟨p, mem, node, next, toks⟩, s)
      (.ok ((mem, toks ++ [p]), s)) := by
  have hnop : ¬ loadBe32 d.bytes p = fdtNodeNop := by
    rw [htag]
    decide
  have hend : ¬ loadBe32 d.bytes p = fdtNodeEnd := by
    rw [htag]
    decide
  intro k
  unfold passLoop
  rw [unflattenLoop, RamM.bind_ok (hs.be32 hlo hhi), if_neg hnop, if_neg hend, if_pos htag]
  rfl

/-! ## The blocks of the open nodes -/

/-- The blocks are those of the open nodes, from `node` up to the root. -/
def OpenChain (m : Mem) : Nat → List Block → Prop
  | node, [] => node = 0
  | node, b :: bs =>
    b.base = node ∧ isValid node = true ∧ 28 ≤ b.len ∧ OpenChain m (load32 m (node + 24)) bs

theorem OpenChain.congr {m m' : Mem} {bs : List Block} (h : OpenChain m node bs)
    (hm : ∀ b ∈ bs, AgreeOn m m' b.base (b.base + b.len)) : OpenChain m' node bs := by
  induction bs generalizing node with
  | nil => exact h
  | cons b bs ih =>
    obtain ⟨hbase, hvalid, hlen, hrest⟩ := h
    have hword : load32 m' (node + 24) = load32 m (node + 24) :=
      (hm b List.mem_cons_self).load32 (by omega) (by omega)
    refine ⟨hbase, hvalid, hlen, ?_⟩
    rw [hword]
    exact ih hrest fun b' hb' => hm b' (List.mem_cons_of_mem b hb')

/-- The blocks of an open chain may be accessed, so what keeps the state keeps the chain. -/
theorem OpenChain.keeps {bs heap : List Block} (h : OpenChain s.bytes node bs)
    (hheap : s.heap = bs ++ heap) (hk : s.Keeps t) : OpenChain t.bytes node bs := by
  refine h.congr fun b hb => hk.agreeOn (Ram.Live.of_heap ?_)
  rw [hheap]
  exact List.mem_append_left heap hb

/-- **The chain is freed** when there is no memory for another node. -/
theorem freeParents_run {bs heap : List Block} {rounds : Nat} (h : OpenChain s.bytes node bs)
    (hheap : s.heap = bs ++ heap) (hrounds : bs.length < rounds) :
    freeParents rounds node s = .ok ((), { s with heap := heap }) := by
  induction bs generalizing s node rounds with
  | nil =>
    obtain ⟨rounds, rfl⟩ : ∃ r, rounds = r + 1 := ⟨rounds - 1, by simp at hrounds; omega⟩
    have hnode : node = 0 := h
    rw [List.nil_append] at hheap
    rw [freeParents, hnode, if_neg (by decide), ← hheap]
    rfl
  | cons b bs ih =>
    obtain ⟨rounds, rfl⟩ : ∃ r, rounds = r + 1 := ⟨rounds - 1, by simp at hrounds; omega⟩
    rw [List.length_cons] at hrounds
    obtain ⟨hbase, hvalid, hlen, hrest⟩ := h
    rw [List.cons_append] at hheap
    have hlive : s.Live (node + 24) 4 := by
      have hmem : b ∈ s.heap := by
        rw [hheap]
        exact List.mem_cons_self
      exact (Ram.Live.of_heap hmem).mono (by omega) (by omega)
    have hdrop : s.drop.heap = bs ++ heap := by
      rw [Ram.drop, hheap, List.tail_cons]
    have hfree := kfree_first hheap
    rw [hbase] at hfree
    unfold freeParents nodeParent
    rw [if_pos hvalid, RamM.bind_ok (loadWord_run hlive), RamM.bind_ok hfree,
      ih (s := s.drop) hrest hdrop (by omega)]
    rfl

/-- **An open node is left**, and its block freed. -/
theorem leaveNode_size {b : Block} {heap : List Block} (hbase : b.base = node)
    (hvalid : isValid node = true) (hlen : 28 ≤ b.len) (hheap : s.heap = b :: heap) :
    leaveNode node 0 s = .ok (load32 s.bytes (node + 24), s.drop) := by
  have hlive : s.Live (node + 24) 4 := by
    have hmem : b ∈ s.heap := by
      rw [hheap]
      exact List.mem_cons_self
    exact (Ram.Live.of_heap hmem).mono (by omega) (by omega)
  have hfree := kfree_first hheap
  rw [hbase] at hfree
  have hnull : isValid 0 = false := by decide
  unfold leaveNode nodeParent
  rw [if_pos hvalid, RamM.bind_ok (loadWord_run hlive), hnull, if_neg (by decide),
    RamM.bind_ok hfree]
  rfl

/-! ## The pass -/

/-- The nodes without a parent have an empty name, or a path of their own. -/
def RootNames : OfForest → Prop
  | .nil => True
  | .node name _ _ _ siblings => (name = [] ∨ name.head? = some slash) ∧ RootNames siblings

/-- The loop goes over the forest at `p` and has its size; what is in use has not changed. -/
def Sized (img : OfImage) (alloc : Kzalloc) (d : Fdt) (parent : Option OfParent) (p mem node : Nat)
    (toks : List Nat) (f : OfForest) (s : Ram) : Prop :=
  ∃ n t, p + 4 * n ≤ d.forestEnd p f ∧
    Leads (passLoop img alloc d.base) n (⟨p, mem, node, 0, toks⟩, s)
      (⟨d.forestEnd p f, forestMem parent mem f, node, 0, toks ++ forestTokens d p f⟩, t) ∧
    s.Keeps t ∧ t.heap = s.heap ∧ t.refused = s.refused

/-- The loop is over in the forest at `p`, because an allocation was refused; all open nodes have
been freed. -/
def SizeRefused (img : OfImage) (alloc : Kzalloc) (d : Fdt) (p mem node : Nat) (toks : List Nat)
    (f : OfForest) (heap : List Block) (s : Ram) : Prop :=
  ∃ n t toks', p + 4 * n ≤ d.forestEnd p f ∧
    Ends (passLoop img alloc d.base) n (⟨p, mem, node, 0, toks⟩, s) (.ok ((0, toks'), t)) ∧
    t.fixed = s.fixed ∧ t.heap = heap ∧ t.refused = s.refused + 1

theorem IsParent.keeps {parent : Option OfParent} (h : IsParent s node parent) (hk : s.Keeps t)
    (hheap : t.heap = s.heap) : IsParent t node parent := by
  cases parent with
  | none => exact h
  | some par =>
    have hopen : OpenNode s node par := h
    exact hopen.keeps hk ((Ram.live_congr hk.fixed hheap).mpr hopen.live)

variable (alloc) in
/-- **The sizing pass over a forest.** -/
theorem size_forest {f : OfForest} {parent : Option OfParent} {bs heap : List Block}
    (mem : Nat) (toks : List Nat) (hs : Loaded img d s) (h : ForestHeld d p f)
    (hparent : IsParent s node parent) (hroot : parent = none → RootNames f)
    (hmem : forestMem parent mem f ≤ 0xfffff000)
    (hchain : OpenChain s.bytes node bs) (hheap : s.heap = bs ++ heap) (hdepth : 4 * bs.length ≤ p) :
    Sized img alloc d parent p mem node toks f s ∨
      SizeRefused img alloc d p mem node toks f heap s := by
  induction f generalizing s parent p mem node toks bs heap with
  | nil =>
    left
    refine ⟨0, s, Nat.le_refl p, ?_, Ram.Keeps.refl s, rfl, rfl⟩
    rw [forestTokens, List.append_nil]
    exact Leads.refl _
  | node name items children nops siblings ihc ihs =>
    obtain ⟨hname, hitems, hchildren, hsiblings⟩ :=
      forestPlaces d p nops name items children siblings
    have hplace := hs.place
    have hlo := h.lo
    have hhi := h.hi
    have hnode := nodeMem_ge parent mem name items
    have hmem₁ := le_forestMem children (some (asParent parent name)) (nodeMem parent mem name items)
    have hmem₂ := le_forestMem siblings parent
      (forestMem (some (asParent parent name)) (nodeMem parent mem name items) children)
    rw [forestMem] at hmem
    rcases populateNode_size alloc hs h.node hparent (fun hnone => (hroot hnone).1)
      (show nodeMem parent mem name items ≤ 0xfffff000 by omega) with
      hpop | ⟨a, s₁, hpop, hk₁, hheap₁, hrefused₁, hopen₁, hword₁⟩
    · -- there is no memory for the node
      right
      refine ⟨1, { s.refuse with heap := heap }, toks, by omega, fun k => ?_, rfl, rfl, rfl⟩
      have hfree := freeParents_run (s := s.refuse) hchain hheap
        (show bs.length < walkRounds by unfold walkRounds; omega)
      rw [pass_start hs hlo (by omega) h.node.tag, RamM.bind_ok hpop]
      dsimp only
      rw [if_pos (by decide), RamM.bind_ok hfree]
      rfl
    · -- the node
      have hvalid := hopen₁.valid
      have hgrow : ∀ x k, s.Live x k → s₁.Live x k := fun x k hx => hx.cons hk₁.fixed hheap₁
      have hs₁ := hs.keeps hk₁
      have hchain₁ : OpenChain s₁.bytes a (⟨a, 52 + lenthNeed parent name⟩ :: bs) := by
        refine ⟨rfl, hvalid, by dsimp only; omega, ?_⟩
        rw [hword₁]
        exact hchain.keeps hheap hk₁
      have hheap₁' : s₁.heap = (⟨a, 52 + lenthNeed parent name⟩ :: bs) ++ heap := by
        rw [hheap₁, hheap, List.cons_append]
      have hstart : Leads (passLoop img alloc d.base) 1 (⟨p, mem, node, 0, toks⟩, s)
          (⟨d.itemsEnd (Fdt.itemsAt p name) items, nodeMem parent mem name items, a, 0,
            toks ++ p :: itemTokens d (Fdt.itemsAt p name) items⟩, s₁) := by
        intro k
        rw [pass_start hs hlo (by omega) h.node.tag, RamM.bind_ok hpop]
        dsimp only
        rw [if_neg (by simp [hvalid])]
        rfl
      -- its children
      have hparent₁ : IsParent s₁ a (some (asParent parent name)) := hopen₁
      have hbelow := ihc (nodeMem parent mem name items)
        (toks ++ p :: itemTokens d (Fdt.itemsAt p name) items) hs₁ h.ofChildren hparent₁
        (fun hnone => absurd hnone (Option.some_ne_none _)) (by omega) hchain₁ hheap₁'
        (by rw [List.length_cons]; omega)
      rcases hbelow with ⟨n₂, s₂, hn₂, hlead₂, hk₂, hheap₂, hrefused₂⟩ |
        ⟨n₂, s₂, toks', hn₂, hends₂, hfixed₂, hheap₂, hrefused₂⟩
      · -- its end
        have hs₂ := hs₁.keeps hk₂
        have hword₂ : load32 s₂.bytes (a + 24) = node := by
          rw [(hk₂.agreeOn hopen₁.live).load32 (by omega) (by omega), hword₁]
        have hleave : leaveNode a 0 s₂ = .ok (node, s₂.drop) := by
          rw [leaveNode_size (b := ⟨a, 52 + lenthNeed parent name⟩) rfl hvalid
            (by dsimp only; omega) (hheap₂.trans hheap₁), hword₂]
        have hheap₃ : s₂.drop.heap = s.heap := by
          rw [Ram.drop, hheap₂, hheap₁, List.tail_cons]
        have hk₃ : s.Keeps s₂.drop := by
          refine ⟨hk₂.fixed.trans hk₁.fixed, fun x hx => ?_⟩
          exact (hk₂.bytes x (hgrow x 1 hx)).trans (hk₁.bytes x hx)
        have hs₃ := hs.keeps hk₃
        obtain ⟨-, -, -, -, hend, hnops, -⟩ := h.holds
        have hdown := (hstart.trans hlead₂).trans
          (pass_end hs₂ (by omega) (by omega) hend hleave)
        have hover := hdown.trans (pass_nops hs₃ (by omega) hnops (by omega))
        -- its siblings
        have hchain₃ : OpenChain s₂.drop.bytes node bs := hchain.keeps hheap hk₃
        have hbehind := ihs
          (forestMem (some (asParent parent name)) (nodeMem parent mem name items) children)
          (toks ++ p :: itemTokens d (Fdt.itemsAt p name) items ++
            forestTokens d (d.itemsEnd (Fdt.itemsAt p name) items) children ++
            [d.forestEnd (d.itemsEnd (Fdt.itemsAt p name) items) children] ++
            nopTokens (d.forestEnd (d.itemsEnd (Fdt.itemsAt p name) items) children + 4) nops)
          hs₃ h.ofSiblings (hparent.keeps hk₃ hheap₃) (fun hnone => (hroot hnone).2) hmem hchain₃
          (hheap₃.trans hheap) (by omega)
        rcases hbehind with ⟨n₄, s₄, hn₄, hlead₄, hk₄, hheap₄, hrefused₄⟩ |
          ⟨n₄, s₄, toks', hn₄, hends₄, hfixed₄, hheap₄, hrefused₄⟩
        · left
          have hall := hover.trans hlead₄
          rw [forestTokens_node] at hall
          refine ⟨_, s₄, ?_, hall, ⟨hk₄.fixed.trans hk₃.fixed, fun x hx => ?_⟩,
            hheap₄.trans hheap₃, ?_⟩
          · rw [Fdt.forestEnd]
            omega
          · exact (hk₄.bytes x ((Ram.live_congr hk₃.fixed hheap₃).mpr hx)).trans (hk₃.bytes x hx)
          · rw [hrefused₄, ← hrefused₁, ← hrefused₂]
            rfl
        · right
          refine ⟨_, s₄, toks', ?_, hover.ends hends₄, hfixed₄.trans hk₃.fixed, hheap₄, ?_⟩
          · rw [Fdt.forestEnd]
            omega
          · rw [hrefused₄, ← hrefused₁, ← hrefused₂]
            rfl
      · right
        exact ⟨1 + n₂, s₂, toks', by omega, hstart.ends hends₂, hfixed₂.trans hk₁.fixed, hheap₂,
          by rw [hrefused₂, hrefused₁]⟩

/-! ## The whole tree -/

/-- The tags of a blob that holds the tree. -/
def treeTokens (d : Fdt) (tree : OfTree) : List Nat :=
  forestTokens d (d.base + d.offDtStruct) tree.forest ++
    [d.forestEnd (d.base + d.offDtStruct) tree.forest]

variable {tree : OfTree}

theorem Fdt.Holds.held (h : d.Holds tree) :
    ForestHeld d (d.base + d.offDtStruct) tree.forest :=
  ⟨Nat.le_add_right _ _, h.tokens, h.inside⟩

theorem Fdt.Holds.start (h : d.Holds tree) : d.base + d.offDtStruct + 4 ≤ d.base + d.len := by
  have hle := d.le_forestEnd tree.forest (d.base + d.offDtStruct)
  have hinside := h.inside
  omega

/-- The pass begins at the root. -/
theorem unflatten_start (h : d.Holds tree) (hs : Loaded img d s) :
    fwkUnflattenDtNodes img alloc d.base mem (d.base + d.offDtStruct) next s =
      passLoop img alloc d.base tokenRounds (⟨d.base + d.offDtStruct, mem, 0, next, []⟩, s) := by
  have hplace := hs.place
  have hheader := hs.header
  have hvalid : isValid d.base = true := isValid_iff.mpr ⟨hplace.1, by omega⟩
  have htag : ¬ loadBe32 d.bytes (d.base + d.offDtStruct) ≠ fdtNodeStart :=
    fun hne => hne h.tokens.1
  rw [fwkUnflattenDtNodes, if_pos hvalid,
    RamM.bind_ok (hs.be32 (Nat.le_add_right _ _) h.start), if_neg htag]
  rfl

/-- **The sizing pass over a tree** gives its size and leaves every block as it was; or an
allocation was refused, and it gives 0. -/
theorem size_tree (h : d.Holds tree) (hs : Loaded img d s) (hsize : tree.size ≤ 0xfffff000) :
    (∃ t, fwkUnflattenDtNodes img alloc d.base 0 (d.base + d.offDtStruct) 0 s =
        .ok ((tree.size, treeTokens d tree), t) ∧
      s.Keeps t ∧ t.heap = s.heap ∧ t.refused = s.refused) ∨
    (∃ toks t, fwkUnflattenDtNodes img alloc d.base 0 (d.base + d.offDtStruct) 0 s =
        .ok ((0, toks), t) ∧
      t.fixed = s.fixed ∧ t.heap = s.heap ∧ t.refused = s.refused + 1) := by
  have hplace := hs.place
  have hinside := h.inside
  have hrounds := tokenRounds_ge
  have hroot : IsParent s 0 none := rfl
  have hnames : RootNames tree.forest := ⟨h.root, trivial⟩
  rcases size_forest alloc 0 [] hs h.held hroot (fun _ => hnames) hsize
    (show OpenChain s.bytes 0 [] from rfl) (List.nil_append _).symm (Nat.zero_le _) with
    ⟨n, t, hn, hlead, hk, hheap, hrefused⟩ | ⟨n, t, toks, hn, hends, hfixed, hheap, hrefused⟩
  · left
    have hle := d.le_forestEnd tree.forest (d.base + d.offDtStruct)
    have hends := hlead.ends (pass_allEnd (hs.keeps hk) (by omega) hinside h.allEnd)
    refine ⟨t, ?_, hk, hheap, hrefused⟩
    rw [unflatten_start h hs]
    exact hends.run (by omega)
  · right
    refine ⟨toks, t, ?_, hfixed, hheap, hrefused⟩
    rw [unflatten_start h hs]
    exact hends.run (by omega)

end HeavenFox.Platform
