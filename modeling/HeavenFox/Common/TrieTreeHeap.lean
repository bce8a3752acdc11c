/-
# HeavenFox.Common.TrieTreeHeap -- the trie in the heap

The same plan as for the radix tree, with one level of pointers more: a node owns its array
of branches, so `TrieTree.Owned` says that the arrays of the nodes are allocated and that no
two nodes have the same one.  The tree that the nodes show does not change when an empty
array comes or goes.

There is one lemma for each edit of a sound tree that the calls make: writing a link, hanging
in a new node, taking a leaf off and releasing a node.
-/
import HeavenFox.Common.TrieTree

namespace HeavenFox.Common

open HeavenFox.Logic

/-! ## The tree in the heap -/

/-- The branch of a node, through its array. -/
def TrieTree.child (s : TrieTree) (n : TriePtr) (k : Fin maxTrieChar) : Option TriePtr :=
  (s.node n).bind fun node => node.sprtBranches.bind fun a => (s.branches a).bind (· k)

/-- The tree as the nodes show it. -/
def TrieTree.view (s : TrieTree) : LinkedTrie TriePtr (Fin maxTrieChar) ObjPtr where
  child := s.child
  parent := fun n => (s.node n).bind (·.sprtParent)
  value := fun n => (s.node n).bind (·.sprtLink)

/-- What is found under a path. -/
abbrev TrieTree.find (s : TrieTree) (path : List (Fin maxTrieChar)) : Option ObjPtr :=
  s.view.lookUp .sgrtNode path

/-- The arrays of the nodes are allocated, and every node has its own. -/
structure TrieTree.Owned (s : TrieTree) : Prop where
  array : ∀ n node a, s.node n = some node → node.sprtBranches = some a →
    (s.branches a).isSome = true
  apart : ∀ n n' node node' a, s.node n = some node → s.node n' = some node' →
    node.sprtBranches = some a → node'.sprtBranches = some a → n = n'

/-- The nodes that can be reached are allocated and make a tree. -/
structure TrieTree.Sound (s : TrieTree) : Prop where
  owned : s.Owned
  tree : s.view.Sound .sgrtNode
  live : ∀ n, s.view.Reached .sgrtNode n → (s.node n).isSome = true
  rootParent : s.view.parent .sgrtNode = none

variable {s s' : TrieTree} {n m : TriePtr} {p : List (Fin maxTrieChar)} {node : TrieNode}
  {a : ObjPtr} {b : TrieBranches} {k : Fin maxTrieChar} {c : Option TriePtr}

theorem TrieTree.Sound.get (h : s.Sound) (hn : s.view.Reached .sgrtNode n) :
    ∃ node, s.node n = some node :=
  Option.isSome_iff_exists.mp (h.live n hn)

namespace TrieTree

/-! ## Writes -/

theorem child_some (hn : s.node n = some node) (ha : node.sprtBranches = some a)
    (hb : s.branches a = some b) : s.child n = b := by
  funext k
  simp [child, hn, ha, hb]

theorem child_none (hn : s.node n = some node) (ha : node.sprtBranches = none) :
    s.view.Leaf n := by
  intro k
  simp [view, child, hn, ha]

theorem leaf_of_free (hn : s.node n = none) : s.view.Leaf n ∧ s.view.value n = none := by
  refine ⟨fun k => ?_, ?_⟩
  · simp [view, child, hn]
  · simp [view, hn]

/-- Another node does not have the array of this one. -/
theorem Owned.ne_array (h : s.Owned) (hn : s.node n = some node) (ha : node.sprtBranches = some a)
    {x : TriePtr} {node' : TrieNode} {a' : ObjPtr} (hx : x ≠ n) (hnx : s.node x = some node')
    (ha' : node'.sprtBranches = some a') : a' ≠ a := by
  rintro rfl
  exact hx (h.apart x n node' node a' hnx hn ha' ha)

/-- A write to an array shows in the branches of its owner only. -/
theorem child_setBranches {o : Option TrieBranches} {x : TriePtr}
    (hx : ∀ node' a', s.node x = some node' → node'.sprtBranches = some a' → a' ≠ a) :
    (s.setBranches a o).child x = s.child x := by
  funext k
  unfold child setBranches
  cases hnx : s.node x with
  | none => rfl
  | some node' =>
    simp only [Option.bind_some]
    cases ha' : node'.sprtBranches with
    | none => rfl
    | some a' => simp [hx node' a' hnx ha']

theorem child_set {o : Option TrieNode} {x : TriePtr} (hx : x ≠ n) :
    (s.set n o).child x = s.child x := by
  funext k
  simp [child, set, hx]

/-- One branch is written. -/
theorem view_setSlot (h : s.Owned) (hn : s.node n = some node) (ha : node.sprtBranches = some a)
    (hb : s.branches a = some b) (k : Fin maxTrieChar) (c : Option TriePtr) :
    (s.setBranches a (some (Function.update b k c))).view = s.view.setSlot n k c := by
  ext1
  · funext x
    show (s.setBranches a _).child x = Function.update s.child n (Function.update (s.child n) k c) x
    by_cases hx : x = n
    · subst hx
      rw [Function.update_self, child_some hn ha hb]
      funext j
      simp [child, setBranches, hn, ha]
    · rw [Function.update_of_ne hx]
      exact child_setBranches fun node' a' => h.ne_array hn ha hx
  · rfl
  · rfl

theorem Owned.setSlot (h : s.Owned) (a : ObjPtr) (b : TrieBranches) :
    (s.setBranches a (some b)).Owned := by
  refine ⟨fun n node a' hn ha => ?_, h.apart⟩
  by_cases hne : a' = a
  · simp [setBranches, hne]
  · simpa [setBranches, hne] using h.array n node a' hn ha

/-- A node gets an empty array. -/
theorem newArray (h : s.Owned) (hn : s.node n = some node) (ha : node.sprtBranches = none)
    (hfree : s.branches a = none) :
    let s' := (s.setBranches a (some fun _ => none)).set n
      (some { node with sprtBranches := some a })
    s'.Owned ∧ s'.view = s.view := by
  intro s'
  have hne : ∀ x node' a', s.node x = some node' → node'.sprtBranches = some a' → a' ≠ a := by
    rintro x node' a' hnx ha' rfl
    have := h.array x node' a' hnx ha'
    rw [hfree] at this
    cases this
  have hnode : ∀ x, x ≠ n → s'.node x = s.node x := fun x hx => Function.update_of_ne hx ..
  have hself : s'.node n = some { node with sprtBranches := some a } := Function.update_self ..
  -- a node with an array is the one that gets it, or had another one before
  have hcases : ∀ x node' a', s'.node x = some node' → node'.sprtBranches = some a' →
      x = n ∧ a' = a ∨ s.node x = some node' ∧ a' ≠ a := by
    intro x node' a' hnx ha'
    by_cases hx : x = n
    · rw [hx, hself] at hnx
      cases hnx
      cases ha'
      exact Or.inl ⟨hx, rfl⟩
    · rw [hnode x hx] at hnx
      exact Or.inr ⟨hnx, hne x node' a' hnx ha'⟩
  refine ⟨⟨fun x node' a' hnx ha' => ?_, fun x y node' node'' a' hnx hny ha' ha'' => ?_⟩, ?_⟩
  · rcases hcases x node' a' hnx ha' with ⟨-, rfl⟩ | ⟨hold, hother⟩
    · simp [s', setBranches, set]
    · simpa [s', setBranches, set, hother] using h.array x node' a' hold ha'
  · rcases hcases x node' a' hnx ha' with ⟨hx, hax⟩ | ⟨hx, hax⟩
    · rcases hcases y node'' a' hny ha'' with ⟨hy, -⟩ | ⟨-, hay⟩
      · rw [hx, hy]
      · exact absurd hax hay
    · rcases hcases y node'' a' hny ha'' with ⟨-, hay⟩ | ⟨hy, -⟩
      · exact absurd hay hax
      · exact h.apart x y node' node'' a' hx hy ha' ha''
  · refine LinkedTrie.ext_at n ⟨?_, by simp [view, hself, hn], by simp [view, hself, hn]⟩
      fun x hx => ⟨?_, by simp [view, hnode x hx], by simp [view, hnode x hx]⟩
    · funext k
      simp [view, child, s', setBranches, set, hn, ha]
    · exact (child_set hx).trans (child_setBranches (hne x))

/-- A node whose array is empty loses it. -/
theorem dropArray (h : s.Owned) (hn : s.node n = some node) (ha : node.sprtBranches = some a)
    (hleaf : s.view.Leaf n) :
    let s' := (s.setBranches a none).set n (some { node with sprtBranches := none })
    s'.Owned ∧ s'.view = s.view := by
  intro s'
  have hnode : ∀ x, x ≠ n → s'.node x = s.node x := fun x hx => Function.update_of_ne hx ..
  have hself : s'.node n = some { node with sprtBranches := none } := Function.update_self ..
  -- a node with an array is another node
  have hother : ∀ x node' a', s'.node x = some node' → node'.sprtBranches = some a' →
      x ≠ n ∧ s.node x = some node' := by
    intro x node' a' hnx ha'
    have hx : x ≠ n := by
      rintro rfl
      rw [hself] at hnx
      cases hnx
      cases ha'
    rw [hnode x hx] at hnx
    exact ⟨hx, hnx⟩
  refine ⟨⟨fun x node' a' hnx ha' => ?_, fun x y node' node'' a' hnx hny ha' ha'' => ?_⟩, ?_⟩
  · obtain ⟨hx, hnx⟩ := hother x node' a' hnx ha'
    have hne := h.ne_array hn ha hx hnx ha'
    simpa [s', setBranches, set, hne] using h.array x node' a' hnx ha'
  · obtain ⟨-, hnx⟩ := hother x node' a' hnx ha'
    obtain ⟨-, hny⟩ := hother y node'' a' hny ha''
    exact h.apart x y node' node'' a' hnx hny ha' ha''
  · refine LinkedTrie.ext_at n ⟨?_, by simp [view, hself, hn], by simp [view, hself, hn]⟩
      fun x hx => ⟨?_, by simp [view, hnode x hx], by simp [view, hnode x hx]⟩
    · funext k
      rw [hleaf k]
      simp [view, child, hself]
    · exact (child_set hx).trans (child_setBranches fun node' a' => h.ne_array hn ha hx)

/-- Writing a node that gets no array it did not have. -/
theorem Owned.set {o : Option TrieNode} (h : s.Owned)
    (ho : ∀ node' a, o = some node' → node'.sprtBranches = some a →
      ∃ node, s.node n = some node ∧ node.sprtBranches = some a) : (s.set n o).Owned := by
  have hold : ∀ x node' a, (s.set n o).node x = some node' → node'.sprtBranches = some a →
      ∃ node, s.node x = some node ∧ node.sprtBranches = some a := by
    intro x node' a hnx ha
    by_cases hx : x = n
    · subst hx
      rw [show (s.set x o).node x = o from Function.update_self ..] at hnx
      exact ho node' a hnx ha
    · rw [show (s.set n o).node x = s.node x from Function.update_of_ne hx ..] at hnx
      exact ⟨node', hnx, ha⟩
  refine ⟨fun x node' a hnx ha => ?_, fun x y node' node'' a hnx hny ha ha' => ?_⟩
  · obtain ⟨node₁, hnode₁, ha₁⟩ := hold x node' a hnx ha
    exact h.array x node₁ a hnode₁ ha₁
  · obtain ⟨node₁, hnode₁, ha₁⟩ := hold x node' a hnx ha
    obtain ⟨node₂, hnode₂, ha₂⟩ := hold y node'' a hny ha'
    exact h.apart x y node₁ node₂ a hnode₁ hnode₂ ha₁ ha₂

/-- A new node is a leaf without a link, as it was before it was allocated. -/
theorem view_alloc (hn : s.node n = none) (sprtPar : TriePtr) :
    (s.set n (some ⟨some sprtPar, none, none⟩)).view = s.view.setParent n (some sprtPar) := by
  refine LinkedTrie.ext_at n ⟨?_, ?_, ?_⟩ fun x hx => ⟨child_set hx, ?_, ?_⟩
  · funext k
    simp [view, child, TrieTree.set, LinkedTrie.setParent, hn]
  · simp [view, TrieTree.set, LinkedTrie.setParent]
  · simp [view, TrieTree.set, LinkedTrie.setParent, hn]
  · simp [view, TrieTree.set, LinkedTrie.setParent, hx]
  · simp [view, TrieTree.set, LinkedTrie.setParent, hx]

theorem view_setLink (hn : s.node n = some node) (v : Option ObjPtr) :
    (s.set n (some { node with sprtLink := v })).view = s.view.setValue n v := by
  refine LinkedTrie.ext_at n ⟨?_, ?_, ?_⟩ fun x hx => ⟨child_set hx, ?_, ?_⟩
  · funext k
    simp [view, child, TrieTree.set, LinkedTrie.setValue, hn]
  · simp [view, TrieTree.set, LinkedTrie.setValue, hn]
  · simp [view, TrieTree.set, LinkedTrie.setValue]
  · simp [view, TrieTree.set, LinkedTrie.setValue, hx]
  · simp [view, TrieTree.set, LinkedTrie.setValue, hx]

/-! ## Edits of a sound tree -/

/-- What does not show in the tree leaves it sound. -/
theorem Sound.of_view (h : s.Sound) (howned : s'.Owned) (hview : s'.view = s.view)
    (hlive : ∀ x, (s.node x).isSome = true → (s'.node x).isSome = true) : s'.Sound where
  owned := howned
  tree := by
    rw [hview]
    exact h.tree
  live := by
    intro x hx
    rw [hview] at hx
    exact hlive x (h.live x hx)
  rootParent := by
    rw [hview]
    exact h.rootParent

/-- The link of a node that is reached is written. -/
theorem Sound.setLink (h : s.Sound) (hp : s.view.walk .sgrtNode p = some n)
    (hn : s.node n = some node) (v : Option ObjPtr) :
    let s' := s.set n (some { node with sprtLink := v })
    s'.Sound ∧ s'.view.walk .sgrtNode p = some n ∧ s'.view.value n = v ∧
      ∀ path, s'.find path = if path = p then v else s.find path := by
  intro s'
  have hview : s'.view = s.view.setValue n v := view_setLink hn v
  refine ⟨⟨?_, ?_, ?_, ?_⟩, ?_, ?_, fun path => ?_⟩
  · refine h.owned.set fun node' a hnode' ha => ?_
    cases hnode'
    exact ⟨node, hn, ha⟩
  · rw [hview]
    exact h.tree.setValue n v
  · rintro x ⟨key, hkey⟩
    rw [hview, LinkedTrie.walk_setValue] at hkey
    by_cases hx : x = n
    · simp [s', set, hx]
    · simpa [s', set, hx] using h.live x ⟨key, hkey⟩
  · rw [hview]
    exact h.rootParent
  · rw [hview, LinkedTrie.walk_setValue, hp]
  · rw [hview]
    exact Function.update_self ..
  · rw [find, hview, LinkedTrie.lookUp_setValue h.tree hp]

/-- A new node is hung below a node that is reached and has an array. -/
theorem Sound.attach (h : s.Sound) (hp : s.view.walk .sgrtNode p = some n)
    (hn : s.node n = some node) (ha : node.sprtBranches = some a) (hb : s.branches a = some b)
    (hk : b k = none) (hm : s.node m = none) :
    let s' := (s.set m (some ⟨some n, none, none⟩)).setBranches a
      (some (Function.update b k (some m)))
    s'.Sound ∧ s'.view.walk .sgrtNode (p ++ [k]) = some m ∧ ∀ path, s'.find path = s.find path := by
  intro s'
  obtain ⟨hleaf, hvalue⟩ := leaf_of_free hm
  have hne : n ≠ m := by
    rintro rfl
    rw [hn] at hm
    cases hm
  have hout : ¬ s.view.Reached .sgrtNode m := by
    intro hreach
    have := h.live m hreach
    rw [hm] at this
    cases this
  have howned : (s.set m (some ⟨some n, none, none⟩)).Owned := by
    refine h.owned.set fun node' a' hnode' ha' => ?_
    cases hnode'
    cases ha'
  have hn₁ : (s.set m (some ⟨some n, none, none⟩)).node n = some node := by
    simpa [set, hne] using hn
  have hview : s'.view = (s.view.setParent m (some n)).setSlot n k (some m) := by
    rw [view_setSlot howned hn₁ ha hb, view_alloc hm]
  have hk' : s.view.child n k = none := by
    rw [show s.view.child n = b from child_some hn ha hb, hk]
  obtain ⟨htree, hwalk, hfind⟩ := h.tree.attach hp hk' hout hleaf hvalue
  rw [← hview] at htree hwalk hfind
  refine ⟨⟨howned.setSlot a _, htree, ?_, ?_⟩, by rw [hwalk, if_pos rfl], hfind⟩
  · rintro x ⟨key, hkey⟩
    rw [hwalk] at hkey
    by_cases hxm : x = m
    · simp [s', set, setBranches, hxm]
    · split at hkey
      · exact absurd (Option.some.inj hkey).symm hxm
      · simpa [s', set, setBranches, hxm] using h.live x ⟨key, hkey⟩
  · have hroot : TriePtr.sgrtNode ≠ m := by
      rintro rfl
      exact hout ⟨[], rfl⟩
    rw [hview]
    show Function.update s.view.parent m (some n) .sgrtNode = none
    rw [Function.update_of_ne hroot]
    exact h.rootParent

/-- A leaf without a link is taken off the node above it. -/
theorem Sound.detach (h : s.Sound) (hp : s.view.walk .sgrtNode p = some n)
    (hn : s.node n = some node) (ha : node.sprtBranches = some a) (hb : s.branches a = some b)
    (hk : b k = some m) (hleaf : s.view.Leaf m) (hvalue : s.view.value m = none) :
    let s' := s.setBranches a (some (Function.update b k none))
    s'.Sound ∧ (∀ path, s'.find path = s.find path) ∧ ¬ s'.view.Reached .sgrtNode m ∧
      ∀ key, s'.view.walk .sgrtNode key =
        if key = p ++ [k] then none else s.view.walk .sgrtNode key := by
  intro s'
  have hview : s'.view = s.view.setSlot n k none := view_setSlot h.owned hn ha hb k none
  have hk' : s.view.child n k = some m := by
    rw [show s.view.child n = b from child_some hn ha hb, hk]
  obtain ⟨htree, hwalk, hfind, hout⟩ := h.tree.detach hp hk' hleaf hvalue
  rw [← hview] at htree hwalk hfind hout
  refine ⟨⟨h.owned.setSlot a _, htree, ?_, ?_⟩, hfind, hout, hwalk⟩
  · rintro x ⟨key, hkey⟩
    rw [hwalk] at hkey
    split at hkey
    · cases hkey
    · exact h.live x ⟨key, hkey⟩
  · rw [hview]
    exact h.rootParent

/-- A node that is not reached is released. -/
theorem Sound.free (h : s.Sound) (hout : ¬ s.view.Reached .sgrtNode n) :
    (s.set n none).Sound ∧ ∀ key,
      (s.set n none).view.walk .sgrtNode key = s.view.walk .sgrtNode key ∧
        (s.set n none).find key = s.find key := by
  have hsame : ∀ x, s.view.Reached .sgrtNode x → (s.set n none).node x = s.node x ∧
      (s.set n none).view.child x = s.view.child x := by
    intro x hx
    have hne : x ≠ n := by
      rintro rfl
      exact hout hx
    exact ⟨Function.update_of_ne hne .., child_set hne⟩
  have hchild : ∀ x, s.view.Reached .sgrtNode x →
      (s.set n none).view.child x = s.view.child x := fun x hx => (hsame x hx).2
  have hparent : ∀ x, s.view.Reached .sgrtNode x →
      (s.set n none).view.parent x = s.view.parent x := by
    intro x hx
    simp only [view, (hsame x hx).1]
  have hvalue : ∀ x, s.view.Reached .sgrtNode x →
      (s.set n none).view.value x = s.view.value x := by
    intro x hx
    simp only [view, (hsame x hx).1]
  have hwalk := LinkedTrie.walk_congr hchild
  refine ⟨⟨h.owned.set nofun, h.tree.congr hchild hparent, ?_, ?_⟩,
    fun key => ⟨hwalk key, LinkedTrie.lookUp_congr hchild hvalue key⟩⟩
  · rintro x ⟨key, hkey⟩
    rw [hwalk] at hkey
    rw [(hsame x ⟨key, hkey⟩).1]
    exact h.live x ⟨key, hkey⟩
  · rw [hparent .sgrtNode ⟨[], rfl⟩]
    exact h.rootParent

end TrieTree

end HeavenFox.Common
