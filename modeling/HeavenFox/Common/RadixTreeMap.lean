/-
# HeavenFox.Common.RadixTreeMap -- the radix tree is a map

`RadixTree.Sound` is the invariant of the tree: what can be walked to from the root is a
tree of allocated nodes.  There is one lemma for each call, over every tree with the
invariant, about what is found under every path afterwards; the recursion of
`__del_radix_node` is followed from the node to the root.

`radix_tree_refines` compares whole runs with a map from numbers to links, whatever
allocations fail on the way.
-/
import HeavenFox.Common.RadixTree
import HeavenFox.Logic.MapTable

namespace HeavenFox.Common

open HeavenFox.Logic

/-! ## The tree in the heap -/

/-- The tree as the nodes show it. -/
def RadixTree.view (s : RadixTree) : LinkedTrie RadixPtr (Fin 8) ObjPtr where
  child := fun n k => (s.node n).bind (·.sgrtBranches k)
  parent := fun n => (s.node n).bind (·.sprtParent)
  value := fun n => (s.node n).bind (·.sprtLink)

/-- What is found under a path. -/
abbrev RadixTree.find (s : RadixTree) (path : List (Fin 8)) : Option ObjPtr :=
  s.view.lookUp .sgrtNode path

/-- The nodes that can be reached are allocated and make a tree. -/
structure RadixTree.Sound (s : RadixTree) : Prop where
  tree : s.view.Sound .sgrtNode
  live : ∀ n, s.view.Reached .sgrtNode n → (s.node n).isSome = true
  rootParent : s.view.parent .sgrtNode = none

variable {s s' : RadixTree} {n m : RadixPtr} {p : List (Fin 8)} {node : RadixNode}

theorem RadixTree.Sound.get (h : s.Sound) (hn : s.view.Reached .sgrtNode n) :
    ∃ node, s.node n = some node :=
  Option.isSome_iff_exists.mp (h.live n hn)

namespace RadixTree

/-- A node is written. -/
theorem view_set (s : RadixTree) (n : RadixPtr) (o : Option RadixNode) :
    (s.set n o).view =
      { child := Function.update s.view.child n fun k => o.bind (·.sgrtBranches k)
        parent := Function.update s.view.parent n (o.bind (·.sprtParent))
        value := Function.update s.view.value n (o.bind (·.sprtLink)) } := by
  ext1
  all_goals
    funext x
    by_cases hx : x = n
    · subst hx
      simp [view, set]
    · simp [view, set, hx]

/-- A node is read. -/
theorem view_get (hn : s.node n = some node) :
    s.view.child n = node.sgrtBranches ∧ s.view.parent n = node.sprtParent ∧
      s.view.value n = node.sprtLink := by
  simp [RadixTree.view, hn]

theorem view_none (hn : s.node n = none) :
    s.view.Leaf n ∧ s.view.parent n = none ∧ s.view.value n = none := by
  simp [RadixTree.view, LinkedTrie.Leaf, hn]

theorem view_setBranch (hn : s.node n = some node) (k : Fin 8) (c : Option RadixPtr) :
    (s.set n (some { node with sgrtBranches := Function.update node.sgrtBranches k c })).view =
      s.view.setSlot n k c := by
  obtain ⟨hchild, hparent, hvalue⟩ := view_get hn
  rw [view_set, LinkedTrie.setSlot, hchild]
  simp only [Option.bind_some, ← hparent, ← hvalue, Function.update_eq_self]

theorem view_setLink (hn : s.node n = some node) (v : Option ObjPtr) :
    (s.set n (some { node with sprtLink := v })).view = s.view.setValue n v := by
  obtain ⟨hchild, hparent, -⟩ := view_get hn
  rw [view_set, LinkedTrie.setValue]
  simp only [Option.bind_some, ← hparent, ← hchild, Function.update_eq_self]

/-- A new node is a leaf without a link, as it was before it was allocated. -/
theorem view_alloc (hn : s.node n = none) (sprtPar : RadixPtr) :
    (s.set n (some ⟨some sprtPar, fun _ => none, none⟩)).view =
      s.view.setParent n (some sprtPar) := by
  obtain ⟨hleaf, -, hvalue⟩ := view_none hn
  have hchild : s.view.child n = fun _ => none := funext hleaf
  rw [view_set, LinkedTrie.setParent]
  simp only [Option.bind_some, ← hvalue, ← hchild, Function.update_eq_self]

end RadixTree

/-- The link of a node that is reached is written. -/
theorem RadixTree.Sound.setLink (h : s.Sound) (hp : s.view.walk .sgrtNode p = some n)
    (hn : s.node n = some node) (v : Option ObjPtr) :
    let s' := s.set n (some { node with sprtLink := v })
    s'.Sound ∧ s'.view.walk .sgrtNode p = some n ∧ s'.view.value n = v ∧
      ∀ path, s'.find path = if path = p then v else s.find path := by
  intro s'
  have hview : s'.view = s.view.setValue n v := RadixTree.view_setLink hn v
  refine ⟨⟨?_, ?_, ?_⟩, ?_, ?_, fun path => ?_⟩
  · rw [hview]
    exact h.tree.setValue n v
  · rintro x ⟨key, hkey⟩
    rw [hview, LinkedTrie.walk_setValue] at hkey
    by_cases hx : x = n
    · simp [s', RadixTree.set, hx]
    · simpa [s', RadixTree.set, hx] using h.live x ⟨key, hkey⟩
  · rw [hview]
    exact h.rootParent
  · rw [hview, LinkedTrie.walk_setValue, hp]
  · rw [hview]
    exact Function.update_self ..
  · rw [RadixTree.find, hview, LinkedTrie.lookUp_setValue h.tree hp]

/-! ## Looking up -/

/-- Going down follows the digits. -/
theorem radixDescend_eq (h : s.Sound) (hp : s.view.walk .sgrtNode p = some n)
    (rounds value : Nat) :
    radixDescend s rounds value (some n) = .ok (s.view.walk n (radixDigits rounds value)) := by
  induction rounds generalizing p n value with
  | zero => rfl
  | succ rounds ih =>
    obtain ⟨node, hnode⟩ := h.get ⟨p, hp⟩
    have hchild := (RadixTree.view_get hnode).1
    simp only [radixDescend, hnode, radixDigits, LinkedTrie.walk, hchild]
    cases hm : node.sgrtBranches (getRadixNodeBranch value) with
    | none => simp [radixDescend]
    | some m =>
      have hp' : s.view.walk .sgrtNode (p ++ [getRadixNodeBranch value]) = some m := by
        rw [LinkedTrie.walk_concat_of_eq hp, hchild, hm]
      exact ih hp' (radixTreeAdvance value)

theorem radixDescend_root (h : s.Sound) (number : Nat) :
    radixDescend s (radixRounds number) number (some .sgrtNode) =
      .ok (s.view.walk .sgrtNode (radixPath number)) :=
  radixDescend_eq (p := []) h rfl _ _

/-- **`find_radix_node`** finds the node of a number that has a link. -/
theorem findRadixNode_eq (h : s.Sound) (number : Nat) :
    findRadixNode s number = .ok (s.view.found .sgrtNode (radixPath number)) := by
  simp only [findRadixNode, radixDescend_root h, bind, Except.bind, pure, Except.pure,
    LinkedTrie.found]
  cases hn : s.view.walk .sgrtNode (radixPath number) with
  | none => rfl
  | some n =>
    obtain ⟨node, hnode⟩ := h.get ⟨_, hn⟩
    simp only [hnode, (RadixTree.view_get hnode).2.2, Option.filter]

/-- **`radix_tree_look_up`** returns what is found under the path of the number. -/
theorem radixTreeLookUp_eq (h : s.Sound) (number : Nat) :
    radixTreeLookUp s number = .ok (s.find (radixPath number)) := by
  simp only [radixTreeLookUp, findRadixNode_eq h, bind, Except.bind, pure, Except.pure,
    RadixTree.find, LinkedTrie.lookUp_eq_found]
  cases hn : s.view.found .sgrtNode (radixPath number) with
  | none => rfl
  | some n =>
    obtain ⟨node, hnode⟩ := h.get ⟨_, LinkedTrie.walk_of_found hn⟩
    simp only [hnode, Option.bind_some, (RadixTree.view_get hnode).2.2]

/-! ## Adding -/

/-- A new node is hung below a node that is reached. -/
theorem RadixTree.Sound.attach {k : Fin 8} (h : s.Sound) (hp : s.view.walk .sgrtNode p = some n)
    (hn : s.node n = some node) (hk : node.sgrtBranches k = none) (hm : s.node m = none) :
    let s' := (s.set m (some ⟨some n, fun _ => none, none⟩)).set n
      (some { node with sgrtBranches := Function.update node.sgrtBranches k (some m) })
    s'.Sound ∧ (∀ key, s'.view.walk .sgrtNode key =
        if key = p ++ [k] then some m else s.view.walk .sgrtNode key) ∧
      ∀ path, s'.find path = s.find path := by
  intro s'
  obtain ⟨hleaf, -, hvalue⟩ := RadixTree.view_none hm
  have hne : n ≠ m := by
    rintro rfl
    rw [hn] at hm
    cases hm
  have hout : ¬ s.view.Reached .sgrtNode m := by
    intro hreach
    have := h.live m hreach
    rw [hm] at this
    cases this
  have hview : s'.view = (s.view.setParent m (some n)).setSlot n k (some m) := by
    have hn₁ : (s.set m (some ⟨some n, fun _ => none, none⟩)).node n = some node := by
      simpa [RadixTree.set, hne] using hn
    rw [RadixTree.view_setBranch hn₁, RadixTree.view_alloc hm]
  have hk' : s.view.child n k = none := by rw [(RadixTree.view_get hn).1, hk]
  obtain ⟨htree, hwalk, hfind⟩ := h.tree.attach hp hk' hout hleaf hvalue
  rw [← hview] at htree hwalk hfind
  refine ⟨⟨htree, ?_, ?_⟩, hwalk, hfind⟩
  · rintro x ⟨key, hkey⟩
    rw [hwalk] at hkey
    by_cases hxn : x = n
    · simp [s', RadixTree.set, hxn]
    · by_cases hxm : x = m
      · simp [s', RadixTree.set, hxm, Ne.symm hne]
      · split at hkey
        · exact absurd (Option.some.inj hkey).symm hxm
        · simpa [s', RadixTree.set, hxn, hxm] using h.live x ⟨key, hkey⟩
  · have hroot : RadixPtr.sgrtNode ≠ m := by
      rintro rfl
      exact hout ⟨[], rfl⟩
    rw [hview]
    show Function.update s.view.parent m (some n) .sgrtNode = none
    rw [Function.update_of_ne hroot]
    exact h.rootParent

/-- The new node that the allocator gives, if it gives one. -/
theorem allocateRadixNode_cases (s : RadixTree) (sprtPar : RadixPtr) (alloc : Option ObjPtr) :
    allocateRadixNode s sprtPar alloc = (none, { s with refused := s.refused + 1 }) ∨
      ∃ m, s.node m = none ∧ allocateRadixNode s sprtPar alloc =
        (some m, s.set m (some ⟨some sprtPar, fun _ => none, none⟩)) := by
  cases alloc with
  | none => exact Or.inl rfl
  | some ptr =>
    cases hnode : s.node (.node ptr) with
    | none => exact Or.inr ⟨.node ptr, hnode, by simp [allocateRadixNode, hnode]⟩
    | some node => exact Or.inl (by simp [allocateRadixNode, hnode])

/-- Neither the depth of a link nor the count of failures shows in the tree. -/
theorem RadixTree.Sound.record (h : s.Sound) (depth : ObjPtr → Nat) (refused : Nat) :
    RadixTree.Sound { s with depth, refused } :=
  ⟨h.tree, h.live, h.rootParent⟩

/-- The loop of `radix_tree_add` goes to the node of the path, or an allocation fails; in either
case nothing has changed under any path. -/
theorem radixAddLoop_spec (link : ObjPtr) (h : s.Sound) (hp : s.view.walk .sgrtNode p = some n)
    (rounds i value : Nat) (allocs : List (Option ObjPtr)) :
    ∃ o s', radixAddLoop link rounds i value n allocs s = .ok (o, s') ∧ s'.Sound ∧
      (∀ path, s'.find path = s.find path) ∧
      ((o = none ∧ s.refused < s'.refused) ∨ (s'.refused = s.refused ∧
        ∃ m, o = some m ∧
          s'.view.walk .sgrtNode (p ++ radixDigits rounds value) = some m)) := by
  induction rounds generalizing s n p i value allocs with
  | zero =>
    refine ⟨some n, s, rfl, h, fun _ => rfl, Or.inr ⟨rfl, n, rfl, ?_⟩⟩
    rw [radixDigits, List.append_nil, hp]
  | succ rounds ih =>
    obtain ⟨node, hn⟩ := h.get ⟨p, hp⟩
    have happ : p ++ radixDigits (rounds + 1) value =
        (p ++ [getRadixNodeBranch value]) ++ radixDigits rounds (radixTreeAdvance value) := by
      simp [radixDigits]
    rw [happ]
    cases hm : node.sgrtBranches (getRadixNodeBranch value) with
    | some m =>
      have hp' : s.view.walk .sgrtNode (p ++ [getRadixNodeBranch value]) = some m := by
        rw [LinkedTrie.walk_concat_of_eq hp, (RadixTree.view_get hn).1, hm]
      simp only [radixAddLoop, hn, hm]
      exact ih (h.record (Function.update s.depth link i) s.refused) hp' (i + maxBranch)
        (radixTreeAdvance value) allocs
    | none =>
      simp only [radixAddLoop, hn, hm]
      rcases allocateRadixNode_cases s n allocs.head?.join with hcall | ⟨m, hfree, hcall⟩
      · rw [hcall]
        exact ⟨none, _, rfl, h.record _ _, fun _ => rfl,
          Or.inl ⟨rfl, Nat.lt_succ_self _⟩⟩
      · rw [hcall]
        obtain ⟨h₁, hwalk₁, hfind₁⟩ := h.attach hp hn hm hfree
        have hp₁ := (hwalk₁ (p ++ [getRadixNodeBranch value])).trans (if_pos rfl)
        obtain ⟨o, s', hrun, h', hfind, hres⟩ :=
          ih (h₁.record (Function.update s.depth link i) s.refused) hp₁ (i + maxBranch)
            (radixTreeAdvance value) allocs.tail
        exact ⟨o, s', hrun, h', fun path => (hfind path).trans (hfind₁ path), hres⟩

/-- **`radix_tree_add`** with a link: it binds the number, unless the number is bound already or an
allocation fails. -/
theorem radixTreeAdd_spec (h : s.Sound) {number : Nat} (hnumber : number < 2 ^ 32) (link : ObjPtr)
    (allocs : List (Option ObjPtr)) :
    ∃ s', radixTreeAdd s number (some link) allocs = .ok s' ∧ s'.Sound ∧ s.refused ≤ s'.refused ∧
      ∀ path, s'.find path =
        if path = radixPath number ∧ s.find path = none ∧ s'.refused = s.refused then some link
        else s.find path := by
  have hsome : _ = (s.find (radixPath number)).isSome :=
    s.view.found_isSome .sgrtNode (radixPath number)
  simp only [radixTreeAdd, findRadixNode_eq h, bind, Except.bind, pure, Except.pure]
  cases hfound : s.view.found .sgrtNode (radixPath number) with
  | some n =>
    refine ⟨s, rfl, h, le_refl _, fun path => ?_⟩
    rw [if_neg]
    rintro ⟨rfl, hnone, -⟩
    rw [hfound, hnone] at hsome
    cases hsome
  | none =>
    have habsent : s.find (radixPath number) = none := by
      rw [hfound] at hsome
      exact Option.not_isSome_iff_eq_none.mp (Bool.eq_false_iff.mp hsome.symm)
    obtain ⟨o, s₁, hrun, h₁, hfind, hres⟩ :=
      radixAddLoop_spec (p := []) link h rfl (radixRounds number) 0 number allocs
    rw [hrun]
    rcases hres with ⟨rfl, hrefused⟩ | ⟨hrefused, n, rfl, hn⟩
    · refine ⟨s₁, rfl, h₁, hrefused.le, fun path => ?_⟩
      rw [if_neg fun hbad => hrefused.ne hbad.2.2.symm, hfind]
    · have hn' : s₁.view.walk .sgrtNode (radixPath number) = some n := hn
      -- the path is not empty, so the node is not the root
      have hroot : n ≠ .sgrtNode := by
        rintro rfl
        exact radixPath_ne_nil hnumber (h₁.tree.root_unique hn')
      obtain ⟨node, hnode⟩ := h₁.get ⟨_, hn'⟩
      obtain ⟨h₂, -, -, hfind₂⟩ := h₁.setLink hn' hnode (some link)
      simp only [ne_eq, hroot, not_false_eq_true, if_true, hnode]
      refine ⟨_, rfl, h₂, hrefused.ge, fun path => ?_⟩
      rw [hfind₂, hfind]
      by_cases hpath : path = radixPath number
      · subst hpath
        rw [if_pos rfl, if_pos ⟨rfl, habsent, hrefused⟩]
      · rw [if_neg hpath, if_neg fun hbad => hpath hbad.1]

/-! ## Deleting -/

/-- A leaf without a link has been taken off, under `key`. -/
structure RadixTree.Detached (s s' : RadixTree) (key : List (Fin 8)) (m : RadixPtr) : Prop where
  sound : s'.Sound
  find : ∀ path, s'.find path = s.find path
  out : ¬ s'.view.Reached .sgrtNode m
  walk : ∀ path, s'.view.walk .sgrtNode path =
    if path = key then none else s.view.walk .sgrtNode path
  allocated : ∀ n, (s'.node n).isSome = (s.node n).isSome

theorem RadixTree.Detached.less {key path : List (Fin 8)} (h : RadixTree.Detached s s' key m)
    (hpath : s'.view.walk .sgrtNode path = some n) :
    path ≠ key ∧ s.view.walk .sgrtNode path = some n := by
  rw [h.walk] at hpath
  split at hpath
  · cases hpath
  · rename_i hne
    exact ⟨hne, hpath⟩

theorem RadixTree.Sound.detach {k : Fin 8} (h : s.Sound) (hp : s.view.walk .sgrtNode p = some n)
    (hn : s.node n = some node) (hk : node.sgrtBranches k = some m) (hleaf : s.view.Leaf m)
    (hvalue : s.view.value m = none) :
    s.Detached (s.set n
      (some { node with sgrtBranches := Function.update node.sgrtBranches k none })) (p ++ [k])
      m := by
  set s' := s.set n (some { node with sgrtBranches := Function.update node.sgrtBranches k none })
    with hs'
  have hview : s'.view = s.view.setSlot n k none := RadixTree.view_setBranch hn k none
  have hk' : s.view.child n k = some m := by rw [(RadixTree.view_get hn).1, hk]
  obtain ⟨htree, hwalk, hfind, hout⟩ := h.tree.detach hp hk' hleaf hvalue
  rw [← hview] at htree hwalk hfind hout
  have hallocated : ∀ x, (s'.node x).isSome = (s.node x).isSome := by
    intro x
    by_cases hx : x = n
    · simp [hs', RadixTree.set, hx, hn]
    · simp [hs', RadixTree.set, hx]
  refine ⟨⟨htree, ?_, ?_⟩, hfind, hout, hwalk, hallocated⟩
  · rintro x ⟨key, hkey⟩
    rw [hwalk] at hkey
    split at hkey
    · cases hkey
    · rw [hallocated]
      exact h.live x ⟨key, hkey⟩
  · rw [hview]
    exact h.rootParent

/-- A node that is not reached is released. -/
theorem RadixTree.Sound.free (h : s.Sound) (hout : ¬ s.view.Reached .sgrtNode n) :
    (s.set n none).Sound ∧ ∀ key,
      (s.set n none).view.walk .sgrtNode key = s.view.walk .sgrtNode key ∧
        (s.set n none).find key = s.find key := by
  have hsame : ∀ x, s.view.Reached .sgrtNode x → (s.set n none).node x = s.node x := by
    intro x hx
    have hne : x ≠ n := by
      rintro rfl
      exact hout hx
    exact Function.update_of_ne hne ..
  have hchild : ∀ x, s.view.Reached .sgrtNode x →
      (s.set n none).view.child x = s.view.child x := by
    intro x hx
    simp only [RadixTree.view, hsame x hx]
  have hparent : ∀ x, s.view.Reached .sgrtNode x →
      (s.set n none).view.parent x = s.view.parent x := by
    intro x hx
    simp only [RadixTree.view, hsame x hx]
  have hvalue : ∀ x, s.view.Reached .sgrtNode x →
      (s.set n none).view.value x = s.view.value x := by
    intro x hx
    simp only [RadixTree.view, hsame x hx]
  have hwalk := LinkedTrie.walk_congr hchild
  refine ⟨⟨h.tree.congr hchild hparent, ?_, ?_⟩,
    fun key => ⟨hwalk key, LinkedTrie.lookUp_congr hchild hvalue key⟩⟩
  · rintro x ⟨key, hkey⟩
    rw [hwalk] at hkey
    rw [hsame x ⟨key, hkey⟩]
    exact h.live x ⟨key, hkey⟩
  · rw [hparent .sgrtNode ⟨[], rfl⟩]
    exact h.rootParent

/-- Pruning of a radix tree. -/
abbrev RadixPruned : RadixTree → RadixTree → Prop :=
  LinkedTrie.Pruned RadixTree.view .sgrtNode RadixTree.Sound

/-- One level of `__del_radix_node`: the child is taken off, and the call goes on to the parent if
the node is left with neither a branch nor a link. -/
theorem delRadixNode_child {k : Fin 8} (h : s.Sound) (hp : s.view.walk .sgrtNode p = some n)
    (hm : s.view.walk .sgrtNode (p ++ [k]) = some m) (hleaf : s.view.Leaf m)
    (hvalue : s.view.value m = none) (rounds : Nat) :
    ∃ s₁, s.Detached s₁ (p ++ [k]) m ∧ s₁.view.walk .sgrtNode p = some n ∧
      ((s₁.view.value n ≠ none ∨ ∃ j, s₁.view.child n j ≠ none) ∧
          delRadixNode (rounds + 1) s (some n) (some m) = .ok s₁ ∨
        s₁.view.Leaf n ∧ s₁.view.value n = none ∧
          delRadixNode (rounds + 1) s (some n) (some m) =
            LinkedTrie.climb RadixTree.view .sgrtNode delRadixNode (fun s n => s.set n none) rounds
              s₁ n) := by
  obtain ⟨node, hn⟩ := h.get ⟨p, hp⟩
  obtain ⟨hchild, hparent, hlink⟩ := RadixTree.view_get hn
  have hk : node.sgrtBranches k = some m := by
    rw [← hchild, ← LinkedTrie.walk_concat_of_eq hp, hm]
  have hother : ∀ j, node.sgrtBranches j = some m → j = k := by
    intro j hj
    have hj' : s.view.walk .sgrtNode (p ++ [j]) = some m := by
      rw [LinkedTrie.walk_concat_of_eq hp, hchild, hj]
    have heq := h.tree.unique _ _ m hj' hm
    simpa using heq
  have hdetached := h.detach hp hn hk hleaf hvalue
  have hpne : p ≠ p ++ [k] := by
    intro heq
    have := congrArg List.length heq
    simp at this
  refine ⟨_, hdetached, by rw [hdetached.walk, if_neg hpne, hp], ?_⟩
  have hscan : dropChild (some m) (List.finRange 8) node.sgrtBranches 0 = _ :=
    dropChild_mem (List.nodup_finRange 8) (List.mem_finRange k) hk hother
  simp only [delRadixNode, hn, hscan]
  have hview := RadixTree.view_setBranch hn k none
  rw [hview]
  by_cases hmore : ∃ j, j ≠ k ∧ node.sgrtBranches j ≠ none
  · left
    obtain ⟨j, hj, hbranch⟩ := hmore
    refine ⟨Or.inr ⟨j, ?_⟩, if_pos (by simpa using ⟨j, hj, hbranch⟩)⟩
    rw [LinkedTrie.setSlot_child_ne (Or.inr hj), hchild]
    exact hbranch
  rw [if_neg (by simpa using hmore)]
  by_cases hl : node.sprtLink.isSome = true
  · left
    refine ⟨Or.inl ?_, if_pos hl⟩
    have hsome : (s.view.value n).isSome = true := by rw [hlink, hl]
    exact Option.isSome_iff_ne_none.mp hsome
  right
  refine ⟨?_, ?_, ?_⟩
  · intro j
    by_cases hj : j = k
    · subst hj
      exact LinkedTrie.setSlot_child_self
    · rw [LinkedTrie.setSlot_child_ne (Or.inr hj), hchild]
      by_contra hne
      exact hmore ⟨j, hj, hne⟩
  · exact hlink.trans (Option.not_isSome_iff_eq_none.mp hl)
  · have hparent₁ : (s.view.setSlot n k none).parent n = node.sprtParent := hparent
    rw [if_neg hl, LinkedTrie.climb, hview, hparent₁]

/-- What one level does for the pruning of the tree. -/
theorem delRadixNode_level {k : Fin 8} (h : s.Sound) (hp : s.view.walk .sgrtNode p = some n)
    (hm : s.view.walk .sgrtNode (p ++ [k]) = some m) (hleaf : s.view.Leaf m)
    (hvalue : s.view.value m = none) (rounds : Nat) :
    ∃ s₁, RadixPruned s s₁ ∧ ¬ s₁.view.Reached .sgrtNode m ∧
      (delRadixNode (rounds + 1) s (some n) (some m) = .ok s₁ ∨
        (s₁.view.walk .sgrtNode p = some n ∧ s₁.view.Leaf n ∧ s₁.view.value n = none ∧
          delRadixNode (rounds + 1) s (some n) (some m) =
            LinkedTrie.climb RadixTree.view .sgrtNode delRadixNode (fun s n => s.set n none) rounds
              s₁ n)) := by
  obtain ⟨s₁, hdetached, hp₁, hstop | ⟨hleaf₁, hvalue₁, hcall⟩⟩ :=
    delRadixNode_child h hp hm hleaf hvalue rounds
  all_goals
    have hpruned : RadixPruned s s₁ :=
      ⟨hdetached.sound, hdetached.find, fun _ _ hkey => (hdetached.less hkey).2⟩
    refine ⟨s₁, hpruned, hdetached.out, ?_⟩
  · exact Or.inl hstop.2
  · exact Or.inr ⟨hp₁, hleaf₁, hvalue₁, hcall⟩

theorem radix_pruneRules : LinkedTrie.PruneRules RadixTree.view .sgrtNode RadixTree.Sound
    delRadixNode fun s n => s.set n none where
  sound := fun _ h => h.tree
  rootParent := fun _ h => h.rootParent
  stop := fun _ _ _ => rfl
  release := by
    intro s n h hout
    obtain ⟨hsound, hsame⟩ := h.free hout
    refine ⟨hsound, fun key => (hsame key).2, fun key x hkey => ?_⟩
    rw [(hsame key).1] at hkey
    exact hkey
  level := fun rounds _ _ _ _ _ h hp hm hleaf hvalue =>
    delRadixNode_level h hp hm hleaf hvalue rounds

/-- A call for a node without a link: nothing happens if the node has a child, else the call goes on
to the parent. -/
theorem delRadixNode_self_cases (h : s.Sound) (hreached : s.view.Reached .sgrtNode n)
    (hvalue : s.view.value n = none) (rounds : Nat) :
    (∃ k, s.view.child n k ≠ none) ∧ delRadixNode (rounds + 1) s (some n) none = .ok s ∨
      s.view.Leaf n ∧ delRadixNode (rounds + 1) s (some n) none =
        LinkedTrie.climb RadixTree.view .sgrtNode delRadixNode (fun s n => s.set n none) rounds
          s n := by
  obtain ⟨node, hn⟩ := h.get hreached
  obtain ⟨hchild, hparent, hlink⟩ := RadixTree.view_get hn
  have hscan : dropChild none (List.finRange 8) node.sgrtBranches 0 = _ :=
    dropChild_absent fun _ _ _ => rfl
  have hsame : s.set n (some node) = s := by
    rw [RadixTree.set, ← hn, Function.update_eq_self]
  have hnolink : ¬ node.sprtLink.isSome = true := by
    rw [← hlink, hvalue]
    nofun
  simp only [delRadixNode, hn, hscan, hsame, hchild]
  by_cases hmore : ∃ j, node.sgrtBranches j ≠ none
  · exact Or.inl ⟨hmore, if_pos (by simpa using hmore)⟩
  · right
    refine ⟨fun j => ?_, ?_⟩
    · rw [hchild]
      by_contra hne
      exact hmore ⟨j, hne⟩
    · rw [if_neg (by simpa using hmore), if_neg hnolink, ← hparent]
      rfl

/-- **`__del_radix_node`** for the node whose link has just been cleared. -/
theorem delRadixNode_self {rounds : Nat} (h : s.Sound) (hp : s.view.walk .sgrtNode p = some n)
    (hpath : p ≠ []) (hvalue : s.view.value n = none) (hrounds : p.length + 1 < rounds) :
    ∃ s', delRadixNode rounds s (some n) none = .ok s' ∧ RadixPruned s s' := by
  obtain ⟨r, rfl⟩ : ∃ r, rounds = r + 1 := ⟨rounds - 1, by omega⟩
  rcases delRadixNode_self_cases h ⟨p, hp⟩ hvalue r with ⟨-, hcall⟩ | ⟨hleaf, hcall⟩
  · exact ⟨s, hcall, h, fun _ => rfl, fun _ _ => id⟩
  · rw [hcall]
    exact radix_pruneRules.climb_ok h hp hpath hleaf hvalue (by omega)

/-- **`radix_tree_del`** removes exactly the number. -/
theorem radixTreeDel_spec (h : s.Sound) {number : Nat} (hnumber : number < 2 ^ 32) :
    ∃ s', radixTreeDel s number = .ok s' ∧ s'.Sound ∧
      ∀ path, s'.find path = if path = radixPath number then none else s.find path := by
  simp only [radixTreeDel, radixDescend_root h, bind, Except.bind, pure, Except.pure]
  cases hn : s.view.walk .sgrtNode (radixPath number) with
  | none =>
    refine ⟨s, rfl, h, fun path => ?_⟩
    split
    · rename_i hpath
      rw [hpath, RadixTree.find, LinkedTrie.lookUp, hn]
      rfl
    · rfl
  | some n =>
    obtain ⟨node, hnode⟩ := h.get ⟨_, hn⟩
    obtain ⟨hchild, hparent, hlink⟩ := RadixTree.view_get hnode
    have hroot : n ≠ .sgrtNode := by
      rintro rfl
      exact radixPath_ne_nil hnumber (h.tree.root_unique hn)
    by_cases hnone : node.sprtLink.isNone = true
    · refine ⟨s, by simp [hnode, hnone], h, fun path => ?_⟩
      split
      · rename_i hpath
        rw [hpath, RadixTree.find, LinkedTrie.lookUp, hn]
        exact hlink.trans (Option.isNone_iff_eq_none.mp hnone)
      · rfl
    · obtain ⟨h₁, hn₁, hcleared, hfind⟩ := h.setLink hn hnode none
      have hlen : (radixPath number).length + 1 < walkRounds := by
        have := (radixRounds_spec hnumber).2.1
        rw [radixPath, radixDigits_length, walkRounds]
        omega
      obtain ⟨s', hcall, hpruned⟩ :=
        delRadixNode_self h₁ hn₁ (radixPath_ne_nil hnumber) hcleared hlen
      refine ⟨s', by simpa [hnode, hnone, hroot] using hcall, hpruned.good, fun path => ?_⟩
      rw [RadixTree.find, hpruned.find, ← RadixTree.find, hfind]

/-! ## The map -/

/-- The tree stands for a map from 32-bit numbers to links. -/
structure RadixRepr (s : RadixTree) (map : Fin (2 ^ 32) → Option ObjPtr) : Prop where
  sound : s.Sound
  find : ∀ number : Fin (2 ^ 32), s.find (radixPath number) = map number

variable {map : Fin (2 ^ 32) → Option ObjPtr}

theorem RadixTree.start_leaf : RadixTree.start.view.Leaf .sgrtNode := by
  intro k
  simp [RadixTree.start, RadixTree.view]

/-- Nodes that are not there: only the root is reached. -/
theorem radixRepr_start : RadixRepr RadixTree.start fun _ => none := by
  have hleaf := RadixTree.start_leaf
  refine ⟨⟨.of_leaf hleaf, ?_, rfl⟩, fun number => ?_⟩
  · rintro n ⟨p, hp⟩
    rw [(LinkedTrie.walk_of_leaf hleaf hp).2]
    rfl
  · exact LinkedTrie.lookUp_of_leaf hleaf (radixPath_ne_nil number.isLt)

theorem RadixRepr.lookUp (h : RadixRepr s map) (number : Fin (2 ^ 32)) :
    radixTreeLookUp s number = .ok (map number) := by
  rw [radixTreeLookUp_eq h.sound, h.find]

theorem radixPath_eq_iff {a b : Fin (2 ^ 32)} : radixPath a = radixPath b ↔ a = b := by
  constructor
  · exact fun h => Fin.ext (radixPath_inj a.isLt b.isLt h)
  · rintro rfl
    rfl

theorem RadixRepr.add (h : RadixRepr s map) (number : Fin (2 ^ 32)) (link : ObjPtr)
    (allocs : List (Option ObjPtr)) :
    ∃ s', radixTreeAdd s number (some link) allocs = .ok s' ∧ s.refused ≤ s'.refused ∧
      RadixRepr s' (if map number = none ∧ s'.refused = s.refused then
        Function.update map number (some link) else map) := by
  obtain ⟨s', hcall, hsound, hrefused, hfind⟩ := radixTreeAdd_spec h.sound number.isLt link allocs
  refine ⟨s', hcall, hrefused, hsound, fun k => ?_⟩
  simp only [hfind, radixPath_eq_iff, h.find]
  by_cases hk : k = number
  · subst hk
    by_cases hbind : map k = none ∧ s'.refused = s.refused
    · rw [if_pos ⟨rfl, hbind⟩, if_pos hbind, Function.update_self]
    · rw [if_neg fun hbad => hbind hbad.2, if_neg hbind]
  · rw [if_neg fun hbad => hk hbad.1]
    split
    · rw [Function.update_of_ne hk]
    · rfl

theorem RadixRepr.del (h : RadixRepr s map) (number : Fin (2 ^ 32)) :
    ∃ s', radixTreeDel s number = .ok s' ∧ RadixRepr s' (Function.update map number none) := by
  obtain ⟨s', hcall, hsound, hfind⟩ := radixTreeDel_spec h.sound number.isLt
  refine ⟨s', hcall, hsound, fun k => ?_⟩
  simp only [hfind, radixPath_eq_iff, h.find]
  by_cases hk : k = number
  · subst hk
    rw [if_pos rfl, Function.update_self]
  · rw [if_neg hk, Function.update_of_ne hk]

/-! ## Runs -/

/-- The calls of the radix tree; the memory gives the nodes of `radix_tree_add`. -/
def radixTable : MapTable RadixTree (Fin (2 ^ 32)) ObjPtr (List (Option ObjPtr)) Stop where
  add := fun s number sprtLink allocs => radixTreeAdd s number (some sprtLink) allocs
  del := fun s number => radixTreeDel s number
  lookUp := fun s number => radixTreeLookUp s number
  refused := RadixTree.refused

theorem radixTable_refines : radixTable.Refines RadixRepr where
  add := by
    intro s map number sprtLink allocs h
    obtain ⟨s', hcall, -, hrepr⟩ := h.add number sprtLink allocs
    exact ⟨s', hcall, hrepr⟩
  del := fun _ _ number h => h.del number
  lookUp := fun _ _ number h => h.lookUp number

/-- **The radix tree refines a map.**  From the empty tree, over every sequence of calls with any
allocations failing, every call returns, and at every moment looking up any number gives the link
of the map: adding an absent number binds it, unless an allocation fails, adding a present one
changes nothing, and deleting removes exactly the number. -/
theorem radix_tree_refines (moves : List (MapMove (Fin (2 ^ 32)) ObjPtr (List (Option ObjPtr)))) :
    (∃ s, exec radixTable.step ⟨RadixTree.start, fun _ => none⟩ moves = some s) ∧
      Always radixTable.step radixTable.Agrees ⟨RadixTree.start, fun _ => none⟩ moves := by
  have hstart : RadixRepr RadixTree.start fun _ => none := radixRepr_start
  exact radixTable_refines.run hstart moves

end HeavenFox.Common
