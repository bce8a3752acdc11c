/-
# HeavenFox.Common.TrieTreeMap -- the trie is a map

One lemma for each call, over every sound tree, about what is found under every path
afterwards.  Names are read as paths, character by character.

`trie_tree_refines` compares whole runs with a map from names to links.
-/
import HeavenFox.Common.TrieTreeHeap
import HeavenFox.Logic.MapTable

namespace HeavenFox.Common

open HeavenFox.Logic

/-! ## Names -/

/-- The name that leads along a path. -/
def trieChars (p : List (Fin maxTrieChar)) : List Nat := p.map fun k => k.val + 32

/-- The path along which a name leads. -/
def triePath (name : List Nat) : List (Fin maxTrieChar) :=
  name.map fun ch => Fin.ofNat maxTrieChar (ch - 32)

/-- A name that is not empty and is made of printable characters, space to tilde; with its final
zero it fits into the memory above address zero. -/
structure TrieName where
  chars : List Nat
  nonempty : chars ≠ []
  printable : ∀ ch ∈ chars, 32 ≤ ch ∧ ch ≤ 126
  fits : chars.length + 1 < walkRounds
  deriving DecidableEq

/-- The path of a name. -/
abbrev TrieName.path (name : TrieName) : List (Fin maxTrieChar) := triePath name.chars

theorem getTrieNodeBranch_char (k : Fin maxTrieChar) :
    getTrieNodeBranch (k.val + 32) = .branch k := by
  have hk : k.val < 95 := k.isLt
  have h0 : ¬ k.val + 32 = 0 := by omega
  have hin : 32 ≤ k.val + 32 ∧ k.val + 32 ≤ 126 := by omega
  rw [getTrieNodeBranch, if_neg h0, dif_pos hin]
  simp

/-- A printable name is given back by its path. -/
theorem trieChars_triePath {name : List Nat} (h : ∀ ch ∈ name, 32 ≤ ch ∧ ch ≤ 126) :
    trieChars (triePath name) = name := by
  rw [trieChars, triePath, List.map_map]
  nth_rewrite 2 [← List.map_id name]
  apply List.map_congr_left
  intro ch hch
  have := h ch hch
  show (ch - 32) % 95 + 32 = ch
  omega

theorem TrieName.chars_eq (name : TrieName) : name.chars = trieChars name.path :=
  (trieChars_triePath name.printable).symm

theorem TrieName.path_ne_nil (name : TrieName) : name.path ≠ [] := by
  intro hnil
  exact name.nonempty (List.map_eq_nil_iff.mp hnil)

theorem TrieName.path_eq_iff {a b : TrieName} : a.path = b.path ↔ a = b := by
  constructor
  · intro h
    have hchars : a.chars = b.chars := by rw [a.chars_eq, b.chars_eq, h]
    cases a
    cases b
    cases hchars
    rfl
  · rintro rfl
    rfl

variable {s s' : TrieTree} {n m : TriePtr} {p : List (Fin maxTrieChar)} {node : TrieNode}
  {a : ObjPtr}

/-! ## Looking up -/

/-- No node, or the node. -/
def TrieFound.ofOption : Option TriePtr → TrieFound
  | none => .null
  | some n => .node n

/-- The loop of `find_trie_node` goes down the printable characters before `rest`. -/
theorem findTrieLoop_append (h : s.Sound) (hp : s.view.walk .sgrtNode p = some n)
    (q : List (Fin maxTrieChar)) (rest : List Nat) :
    findTrieLoop s (trieChars q ++ rest) n =
      match s.view.walk n q with
      | none => .ok .null
      | some m => findTrieLoop s rest m := by
  induction q generalizing p n with
  | nil => rfl
  | cons k q ih =>
    obtain ⟨node, hnode⟩ := h.get ⟨p, hp⟩
    simp only [trieChars, List.map_cons, List.cons_append, findTrieLoop, getTrieNodeBranch_char,
      hnode, LinkedTrie.walk]
    cases ha : node.sprtBranches with
    | none =>
      rw [TrieTree.child_none hnode ha k]
      rfl
    | some a =>
      obtain ⟨b, hb⟩ := Option.isSome_iff_exists.mp (h.owned.array n node a hnode ha)
      have hchild : s.view.child n = b := TrieTree.child_some hnode ha hb
      simp only [hb, hchild]
      cases hm : b k with
      | none => rfl
      | some m =>
        have hp' : s.view.walk .sgrtNode (p ++ [k]) = some m := by
          rw [LinkedTrie.walk_concat_of_eq hp, hchild, hm]
        exact ih hp'

/-- Where the loop of `find_trie_node` ends. -/
theorem findTrieLoop_eq (h : s.Sound) (hp : s.view.walk .sgrtNode p = some n)
    (q : List (Fin maxTrieChar)) :
    findTrieLoop s (trieChars q) n = .ok (.ofOption (s.view.walk n q)) := by
  rw [← List.append_nil (trieChars q), findTrieLoop_append h hp]
  cases s.view.walk n q with
  | none => rfl
  | some m => rfl

theorem TrieTree.view_value (hn : s.node n = some node) : s.view.value n = node.sprtLink := by
  simp [TrieTree.view, hn]

/-- **`find_trie_node`** finds the node of a name that has a link. -/
theorem findTrieNode_eq (h : s.Sound) (p : List (Fin maxTrieChar)) :
    findTrieNode s (trieChars p) = .ok (.ofOption (s.view.found .sgrtNode p)) := by
  have hloop := findTrieLoop_eq (p := []) h rfl p
  simp only [findTrieNode, hloop, bind, Except.bind, pure, Except.pure, LinkedTrie.found]
  cases hn : s.view.walk .sgrtNode p with
  | none => rfl
  | some n =>
    obtain ⟨node, hnode⟩ := h.get ⟨_, hn⟩
    simp only [TrieFound.ofOption, hnode, TrieTree.view_value hnode, Option.filter]
    split
    · rfl
    · rfl

/-- **`trie_tree_look_up`** returns what is found under the path of the name. -/
theorem trieTreeLookUp_eq (h : s.Sound) (p : List (Fin maxTrieChar)) :
    trieTreeLookUp s (trieChars p) = .ok (s.find p) := by
  simp only [trieTreeLookUp, findTrieNode_eq h, bind, Except.bind, pure, Except.pure,
    TrieTree.find, LinkedTrie.lookUp_eq_found]
  cases hn : s.view.found .sgrtNode p with
  | none => rfl
  | some n =>
    obtain ⟨node, hnode⟩ := h.get ⟨_, LinkedTrie.walk_of_found hn⟩
    simp only [TrieFound.ofOption, hnode, Option.bind_some, TrieTree.view_value hnode]

/-! ## Adding -/

/-- Memory that the allocator gives is free. -/
theorem TrieTree.alloc_some {o : Option ObjPtr} (h : s.alloc o = some a) :
    s.node (.node a) = none ∧ s.branches a = none := by
  obtain ⟨-, hfree⟩ := Option.filter_eq_some_iff.mp h
  simpa using hfree

/-- A node has an array after `create_trie_branch`, if there is memory for it. -/
theorem createTrieBranch_cases (h : s.Sound) (hn : s.node n = some node)
    (allocs : List (Option ObjPtr)) :
    createTrieBranch s n node allocs = (none, allocs.tail, s.refuse) ∨
      ∃ a allocs' s' node' b, createTrieBranch s n node allocs = (some a, allocs', s') ∧
        s'.Sound ∧ s'.view = s.view ∧ s'.refused = s.refused ∧ s'.node n = some node' ∧
        node'.sprtBranches = some a ∧ s'.branches a = some b := by
  cases ha : node.sprtBranches with
  | some a =>
    obtain ⟨b, hb⟩ := Option.isSome_iff_exists.mp (h.owned.array n node a hn ha)
    exact Or.inr ⟨a, allocs, s, node, b, by simp [createTrieBranch, ha], h, rfl, rfl, hn, ha, hb⟩
  | none =>
    cases halloc : s.alloc allocs.head?.join with
    | none => exact Or.inl (by simp [createTrieBranch, ha, halloc])
    | some a =>
      obtain ⟨-, hfree⟩ := TrieTree.alloc_some halloc
      obtain ⟨howned, hview⟩ := TrieTree.newArray h.owned hn ha hfree
      refine Or.inr ⟨a, allocs.tail, _, { node with sprtBranches := some a }, fun _ => none,
        by simp only [createTrieBranch, ha, halloc], h.of_view howned hview ?_, hview, rfl,
        Function.update_self .., rfl, Function.update_self ..⟩
      intro x hx
      by_cases hxn : x = n
      · subst hxn
        simp [TrieTree.set]
      · simpa [TrieTree.set, TrieTree.setBranches, hxn] using hx

/-- The new node that the allocator gives, if it gives one. -/
theorem allocateTrieNode_cases (s : TrieTree) (sprtPar : TriePtr) (alloc : Option ObjPtr) :
    allocateTrieNode s sprtPar alloc = (none, s.refuse) ∨
      ∃ m, s.node m = none ∧ allocateTrieNode s sprtPar alloc =
        (some m, s.set m (some ⟨some sprtPar, none, none⟩)) := by
  cases halloc : s.alloc alloc with
  | none => exact Or.inl (by simp [allocateTrieNode, halloc])
  | some ptr =>
    exact Or.inr ⟨.node ptr, (TrieTree.alloc_some halloc).1, by simp [allocateTrieNode, halloc]⟩

/-- Neither the depth of a link nor the count of failures shows in the tree. -/
theorem TrieTree.Sound.record (h : s.Sound) (depth : ObjPtr → Nat) (refused : Nat) :
    TrieTree.Sound { s with depth, refused } :=
  ⟨⟨h.owned.array, h.owned.apart⟩, h.tree, h.live, h.rootParent⟩

/-- The loop of `trie_node_add` goes to the node of the path, or an allocation fails; in either case
nothing has changed under any path. -/
theorem trieAddLoop_spec (link : ObjPtr) (h : s.Sound) (hp : s.view.walk .sgrtNode p = some n)
    (q : List (Fin maxTrieChar)) (i : Nat) (allocs : List (Option ObjPtr)) :
    ∃ o s', trieAddLoop link (trieChars q) i n allocs s = .ok (o, s') ∧ s'.Sound ∧
      (∀ path, s'.find path = s.find path) ∧
      ((o = none ∧ s'.refused ≠ s.refused) ∨ (s'.refused = s.refused ∧
        ∃ m, o = some m ∧ s'.view.walk .sgrtNode (p ++ q) = some m)) := by
  induction q generalizing s n p i allocs with
  | nil =>
    refine ⟨some n, s, rfl, h, fun _ => rfl, Or.inr ⟨rfl, n, rfl, ?_⟩⟩
    rw [List.append_nil, hp]
  | cons k q ih =>
    obtain ⟨node, hn⟩ := h.get ⟨p, hp⟩
    have happ : p ++ k :: q = (p ++ [k]) ++ q := by simp
    rw [happ]
    simp only [trieChars, List.map_cons, trieAddLoop, getTrieNodeBranch_char, hn]
    rcases createTrieBranch_cases h hn allocs with
      hcall | ⟨a, allocs₁, s₁, node₁, b, hcall, h₁, hview, hrefused, hn₁, ha, hb⟩
    · rw [hcall]
      exact ⟨none, _, rfl, h.record _ _, fun _ => rfl, Or.inl ⟨rfl, Nat.succ_ne_self _⟩⟩
    have hp₁ : s₁.view.walk .sgrtNode p = some n := by rw [hview, hp]
    have hfind₁ : ∀ path, s₁.find path = s.find path := by
      intro path
      rw [TrieTree.find, hview]
    rw [hcall]
    simp only [hb]
    rw [← hrefused]
    cases hm : b k with
    | some m =>
      have hchild : s₁.view.child n = b := TrieTree.child_some hn₁ ha hb
      have hp' : s₁.view.walk .sgrtNode (p ++ [k]) = some m := by
        rw [LinkedTrie.walk_concat_of_eq hp₁, hchild, hm]
      obtain ⟨o, s', hrun, h', hfind, hres⟩ :=
        ih (h₁.record (Function.update s₁.depth link i) s₁.refused) hp' (i + 1) allocs₁
      exact ⟨o, s', hrun, h', fun path => (hfind path).trans (hfind₁ path), hres⟩
    | none =>
      rcases allocateTrieNode_cases s₁ n allocs₁.head?.join with hcall₂ | ⟨m, hfree, hcall₂⟩
      · simp only [hcall₂]
        exact ⟨none, _, rfl, h₁.record _ _, hfind₁, Or.inl ⟨rfl, Nat.succ_ne_self _⟩⟩
      · simp only [hcall₂]
        obtain ⟨h₂, hp₂, hfind₂⟩ := h₁.attach hp₁ hn₁ ha hb hm hfree
        obtain ⟨o, s', hrun, h', hfind, hres⟩ :=
          ih (h₂.record (Function.update s₁.depth link i) s₁.refused) hp₂ (i + 1) allocs₁.tail
        exact ⟨o, s', hrun, h',
          fun path => (hfind path).trans ((hfind₂ path).trans (hfind₁ path)), hres⟩

/-- **`trie_node_add`** with a link: it binds the name, unless the name is bound already or an
allocation fails. -/
theorem trieNodeAdd_spec (h : s.Sound) (q : List (Fin maxTrieChar)) (link : ObjPtr)
    (allocs : List (Option ObjPtr)) :
    ∃ s', trieNodeAdd s (trieChars q) (some link) allocs = .ok s' ∧ s'.Sound ∧
      ∀ path, s'.find path =
        if path = q ∧ s.find path = none ∧ s'.refused = s.refused then some link
        else s.find path := by
  have hsome : _ = (s.find q).isSome := s.view.found_isSome .sgrtNode q
  simp only [trieNodeAdd, findTrieNode_eq h, bind, Except.bind, pure, Except.pure]
  cases hfound : s.view.found .sgrtNode q with
  | some n =>
    refine ⟨s, rfl, h, fun path => ?_⟩
    rw [if_neg]
    rintro ⟨rfl, hnone, -⟩
    rw [hfound, hnone] at hsome
    cases hsome
  | none =>
    have habsent : s.find q = none := by
      rw [hfound] at hsome
      exact Option.not_isSome_iff_eq_none.mp (Bool.eq_false_iff.mp hsome.symm)
    obtain ⟨o, s₁, hrun, h₁, hfind, hres⟩ := trieAddLoop_spec (p := []) link h rfl q 0 allocs
    simp only [TrieFound.ofOption, hrun]
    rcases hres with ⟨rfl, hrefused⟩ | ⟨hrefused, n, rfl, hn⟩
    · refine ⟨s₁, rfl, h₁, fun path => ?_⟩
      rw [if_neg fun hbad => hrefused hbad.2.2, hfind]
    · have hn' : s₁.view.walk .sgrtNode q = some n := hn
      obtain ⟨node, hnode⟩ := h₁.get ⟨_, hn'⟩
      obtain ⟨h₂, -, -, hfind₂⟩ := h₁.setLink hn' hnode (some link)
      simp only [hnode]
      refine ⟨_, rfl, h₂, fun path => ?_⟩
      rw [hfind₂, hfind]
      by_cases hpath : path = q
      · subst hpath
        rw [if_pos rfl, if_pos ⟨rfl, habsent, hrefused⟩]
      · rw [if_neg hpath, if_neg fun hbad => hpath hbad.1]

/-! ## Deleting -/

/-- Pruning of a trie. -/
abbrev TriePruned : TrieTree → TrieTree → Prop :=
  LinkedTrie.Pruned TrieTree.view .sgrtNode TrieTree.Sound

/-- A node is written that has no array any more. -/
theorem TrieTree.Sound.dropArray (h : s.Sound) (hn : s.node n = some node)
    (ha : node.sprtBranches = some a) (hleaf : s.view.Leaf n) :
    let s' := (s.setBranches a none).set n (some { node with sprtBranches := none })
    s'.Sound ∧ s'.view = s.view := by
  intro s'
  obtain ⟨howned, hview⟩ := TrieTree.dropArray h.owned hn ha hleaf
  refine ⟨h.of_view howned hview fun x hx => ?_, hview⟩
  by_cases hxn : x = n
  · subst hxn
    simp [s', TrieTree.set]
  · simpa [s', TrieTree.set, TrieTree.setBranches, hxn] using hx

/-- One level of `__del_trie_node`: the child is taken off; a node without branches loses its array,
and the call goes on to the parent if it has no link either. -/
theorem delTrieNode_level {k : Fin maxTrieChar} (h : s.Sound)
    (hp : s.view.walk .sgrtNode p = some n) (hm : s.view.walk .sgrtNode (p ++ [k]) = some m)
    (hleaf : s.view.Leaf m) (hvalue : s.view.value m = none) (rounds : Nat) :
    ∃ s₁, TriePruned s s₁ ∧ ¬ s₁.view.Reached .sgrtNode m ∧
      (delTrieNode (rounds + 1) s (some n) (some m) = .ok s₁ ∨
        (s₁.view.walk .sgrtNode p = some n ∧ s₁.view.Leaf n ∧ s₁.view.value n = none ∧
          delTrieNode (rounds + 1) s (some n) (some m) =
            LinkedTrie.climb TrieTree.view .sgrtNode delTrieNode (fun s n => s.set n none) rounds
              s₁ n)) := by
  obtain ⟨node, hn⟩ := h.get ⟨p, hp⟩
  have hchildm : s.view.child n k = some m := by rw [← LinkedTrie.walk_concat_of_eq hp, hm]
  -- a node with a child has an array
  obtain ⟨a, ha⟩ : ∃ a, node.sprtBranches = some a := by
    cases ha : node.sprtBranches with
    | none =>
      rw [TrieTree.child_none hn ha k] at hchildm
      cases hchildm
    | some a => exact ⟨a, rfl⟩
  obtain ⟨b, hb⟩ := Option.isSome_iff_exists.mp (h.owned.array n node a hn ha)
  have hchild : s.view.child n = b := TrieTree.child_some hn ha hb
  have hk : b k = some m := by rw [← hchild, hchildm]
  have hother : ∀ j, b j = some m → j = k := by
    intro j hj
    have hj' : s.view.walk .sgrtNode (p ++ [j]) = some m := by
      rw [LinkedTrie.walk_concat_of_eq hp, hchild, hj]
    have heq := h.tree.unique _ _ m hj' hm
    simpa using heq
  obtain ⟨h₁, hfind, hout, hwalk⟩ := h.detach hp hn ha hb hk hleaf hvalue
  have hless : ∀ key x,
      (s.setBranches a (some (Function.update b k none))).view.walk .sgrtNode key = some x →
        s.view.walk .sgrtNode key = some x := by
    intro key x hkey
    rw [hwalk] at hkey
    split at hkey
    · cases hkey
    · exact hkey
  have hscan : dropChild (some m) (List.finRange maxTrieChar) b 0 = _ :=
    dropChild_mem (List.nodup_finRange maxTrieChar) (List.mem_finRange k) hk hother
  simp only [delTrieNode, hn, ha, hb, hscan, Option.isNone_some, Bool.false_eq_true, if_false]
  by_cases hmore : ∃ j, j ≠ k ∧ b j ≠ none
  · refine ⟨_, ⟨h₁, hfind, hless⟩, hout, Or.inl ?_⟩
    rw [if_pos]
    simpa using hmore
  rw [if_neg (by simpa using hmore)]
  set s₁ := s.setBranches a (some (Function.update b k none)) with hs₁
  have hn₁ : s₁.node n = some node := hn
  have hleaf₁ : s₁.view.Leaf n := by
    intro j
    rw [hs₁, TrieTree.view_setSlot h.owned hn ha hb]
    by_cases hj : j = k
    · subst hj
      exact LinkedTrie.setSlot_child_self
    · rw [LinkedTrie.setSlot_child_ne (Or.inr hj), hchild]
      by_contra hne
      exact hmore ⟨j, hj, hne⟩
  obtain ⟨h₂, hview⟩ := h₁.dropArray hn₁ ha hleaf₁
  have hpruned : TriePruned s
      ((s₁.setBranches a none).set n (some { node with sprtBranches := none })) := by
    refine ⟨h₂, ?_, ?_⟩
    · rw [hview]
      exact hfind
    · rw [hview]
      exact hless
  refine ⟨_, hpruned, by rw [hview]; exact hout, ?_⟩
  by_cases hl : node.sprtLink.isSome = true
  · left
    rw [if_pos hl]
  right
  have hpne : p ≠ p ++ [k] := by
    intro heq
    have := congrArg List.length heq
    simp at this
  have hparent : s₁.view.parent n = node.sprtParent := by simp [TrieTree.view, hn₁]
  rw [hview]
  refine ⟨?_, hleaf₁, ?_, ?_⟩
  · rw [hwalk, if_neg hpne, hp]
  · rw [TrieTree.view_value hn₁]
    exact Option.not_isSome_iff_eq_none.mp hl
  · rw [if_neg hl, LinkedTrie.climb, hview, hparent]

theorem trie_pruneRules : LinkedTrie.PruneRules TrieTree.view .sgrtNode TrieTree.Sound
    delTrieNode fun s n => s.set n none where
  sound := fun _ h => h.tree
  rootParent := fun _ h => h.rootParent
  stop := fun _ _ _ => rfl
  release := by
    intro s n h hout
    obtain ⟨hsound, hsame⟩ := h.free hout
    refine ⟨hsound, fun key => (hsame key).2, fun key x hkey => ?_⟩
    rw [(hsame key).1] at hkey
    exact hkey
  level := fun rounds _ _ _ _ _ h hp hm hleaf hvalue =>
    delTrieNode_level h hp hm hleaf hvalue rounds

/-- **`__del_trie_node`** for the node whose link has just been cleared. -/
theorem delTrieNode_self {rounds : Nat} (h : s.Sound) (hp : s.view.walk .sgrtNode p = some n)
    (hpath : p ≠ []) (hvalue : s.view.value n = none) (hrounds : p.length + 1 < rounds) :
    ∃ s', delTrieNode rounds s (some n) none = .ok s' ∧ TriePruned s s' := by
  obtain ⟨r, rfl⟩ : ∃ r, rounds = r + 1 := ⟨rounds - 1, by omega⟩
  obtain ⟨node, hn⟩ := h.get ⟨p, hp⟩
  simp only [delTrieNode, hn]
  cases ha : node.sprtBranches with
  | some a =>
    -- a node that names extend
    exact ⟨s, rfl, h, fun _ => rfl, fun _ _ => id⟩
  | none =>
    have hnolink : ¬ node.sprtLink.isSome = true := by
      rw [← TrieTree.view_value hn, hvalue]
      nofun
    have hparent : s.view.parent n = node.sprtParent := by simp [TrieTree.view, hn]
    simp only [if_neg hnolink, ← hparent]
    exact trie_pruneRules.climb_ok h hp hpath (TrieTree.child_none hn ha) hvalue (by omega)

/-- The loop of `trie_node_del` goes down the printable characters before `rest`. -/
theorem trieDelLoop_append (h : s.Sound) (hp : s.view.walk .sgrtNode p = some n)
    (q : List (Fin maxTrieChar)) (rest : List Nat) :
    trieDelLoop s (trieChars q ++ rest) (some n) = trieDelLoop s rest (s.view.walk n q) := by
  have hnull : ∀ str, trieDelLoop s str none = .ok none := by
    intro str
    cases str with
    | nil => rfl
    | cons ch str => rfl
  induction q generalizing p n with
  | nil => rfl
  | cons k q ih =>
    obtain ⟨node, hnode⟩ := h.get ⟨p, hp⟩
    simp only [trieChars, List.map_cons, List.cons_append, trieDelLoop, getTrieNodeBranch_char,
      hnode, LinkedTrie.walk]
    cases ha : node.sprtBranches with
    | none =>
      rw [TrieTree.child_none hnode ha k]
      exact (hnull rest).symm
    | some a =>
      obtain ⟨b, hb⟩ := Option.isSome_iff_exists.mp (h.owned.array n node a hnode ha)
      have hchild : s.view.child n = b := TrieTree.child_some hnode ha hb
      simp only [hb, hchild]
      cases hm : b k with
      | none => exact (hnull _).trans (hnull rest).symm
      | some m =>
        have hp' : s.view.walk .sgrtNode (p ++ [k]) = some m := by
          rw [LinkedTrie.walk_concat_of_eq hp, hchild, hm]
        exact ih hp'

/-- The loop of `trie_node_del` goes down the path. -/
theorem trieDelLoop_eq (h : s.Sound) (hp : s.view.walk .sgrtNode p = some n)
    (q : List (Fin maxTrieChar)) :
    trieDelLoop s (trieChars q) (some n) = .ok (s.view.walk n q) := by
  rw [← List.append_nil (trieChars q), trieDelLoop_append h hp]
  rfl

/-- **`trie_node_del`** removes exactly the name. -/
theorem trieNodeDel_spec (h : s.Sound) {q : List (Fin maxTrieChar)} (hq : q ≠ [])
    (hlen : q.length + 1 < walkRounds) :
    ∃ s', trieNodeDel s (trieChars q) = .ok s' ∧ s'.Sound ∧
      ∀ path, s'.find path = if path = q then none else s.find path := by
  have hloop := trieDelLoop_eq (p := []) h rfl q
  simp only [trieNodeDel, hloop, bind, Except.bind, pure, Except.pure]
  cases hn : s.view.walk .sgrtNode q with
  | none =>
    refine ⟨s, rfl, h, fun path => ?_⟩
    split
    · rename_i hpath
      rw [hpath, TrieTree.find, LinkedTrie.lookUp, hn]
      rfl
    · rfl
  | some n =>
    obtain ⟨node, hnode⟩ := h.get ⟨_, hn⟩
    have hroot : n ≠ .sgrtNode := by
      rintro rfl
      exact hq (h.tree.root_unique hn)
    by_cases hnone : node.sprtLink.isNone = true
    · refine ⟨s, by simp [hnode, hnone], h, fun path => ?_⟩
      split
      · rename_i hpath
        rw [hpath, TrieTree.find, LinkedTrie.lookUp, hn]
        exact (TrieTree.view_value hnode).trans (Option.isNone_iff_eq_none.mp hnone)
      · rfl
    · obtain ⟨h₁, hn₁, hcleared, hfind⟩ := h.setLink hn hnode none
      obtain ⟨s', hcall, hpruned⟩ := delTrieNode_self h₁ hn₁ hq hcleared hlen
      refine ⟨s', by simpa [hnode, hnone, hroot] using hcall, hpruned.good, fun path => ?_⟩
      rw [TrieTree.find, hpruned.find, ← TrieTree.find, hfind]

/-! ## The map -/

/-- The trie stands for a map from names to links. -/
structure TrieRepr (s : TrieTree) (map : TrieName → Option ObjPtr) : Prop where
  sound : s.Sound
  find : ∀ name : TrieName, s.find name.path = map name

variable {map : TrieName → Option ObjPtr}

/-- An empty trie, with or without an array in its root. -/
theorem trieRepr_start (branch : Option ObjPtr) :
    TrieRepr (TrieTree.start branch) fun _ => none := by
  have hroot : (TrieTree.start branch).node .sgrtNode = some ⟨none, branch, none⟩ := by
    simp [TrieTree.start]
  have hnode : ∀ n node, (TrieTree.start branch).node n = some node → n = .sgrtNode := by
    intro n node hn
    by_contra hne
    simp [TrieTree.start, hne] at hn
  have hleaf : (TrieTree.start branch).view.Leaf .sgrtNode := by
    intro k
    cases branch with
    | none => exact TrieTree.child_none hroot rfl k
    | some a =>
      have hb : (TrieTree.start (some a)).branches a = some fun _ => none := if_pos rfl
      exact congrFun (TrieTree.child_some hroot rfl hb) k
  have howned : (TrieTree.start branch).Owned := by
    refine ⟨fun n node a hn ha => ?_, fun n n' node node' a hn hn' _ _ => ?_⟩
    · cases hnode n node hn
      rw [hroot] at hn
      cases hn
      rw [show (TrieTree.start branch).branches a = _ from if_pos ha]
      rfl
    · rw [hnode n node hn, hnode n' node' hn']
  refine ⟨⟨howned, .of_leaf hleaf, ?_, rfl⟩, fun name => ?_⟩
  · rintro n ⟨p, hp⟩
    rw [(LinkedTrie.walk_of_leaf hleaf hp).2]
    rfl
  · exact LinkedTrie.lookUp_of_leaf hleaf name.path_ne_nil

theorem TrieRepr.lookUp (h : TrieRepr s map) (name : TrieName) :
    trieTreeLookUp s name.chars = .ok (map name) := by
  rw [name.chars_eq, trieTreeLookUp_eq h.sound, h.find]

theorem TrieRepr.add (h : TrieRepr s map) (name : TrieName) (link : ObjPtr)
    (allocs : List (Option ObjPtr)) :
    ∃ s', trieNodeAdd s name.chars (some link) allocs = .ok s' ∧
      TrieRepr s' (if map name = none ∧ s'.refused = s.refused then
        Function.update map name (some link) else map) := by
  obtain ⟨s', hcall, hsound, hfind⟩ := trieNodeAdd_spec h.sound name.path link allocs
  rw [← name.chars_eq] at hcall
  refine ⟨s', hcall, hsound, fun k => ?_⟩
  simp only [hfind, TrieName.path_eq_iff, h.find]
  by_cases hk : k = name
  · subst hk
    by_cases hbind : map k = none ∧ s'.refused = s.refused
    · rw [if_pos ⟨rfl, hbind⟩, if_pos hbind, Function.update_self]
    · rw [if_neg fun hbad => hbind hbad.2, if_neg hbind]
  · rw [if_neg fun hbad => hk hbad.1]
    split
    · rw [Function.update_of_ne hk]
    · rfl

theorem TrieRepr.del (h : TrieRepr s map) (name : TrieName) :
    ∃ s', trieNodeDel s name.chars = .ok s' ∧ TrieRepr s' (Function.update map name none) := by
  have hlen : name.path.length + 1 < walkRounds := by
    rw [TrieName.path, triePath, List.length_map]
    exact name.fits
  obtain ⟨s', hcall, hsound, hfind⟩ := trieNodeDel_spec h.sound name.path_ne_nil hlen
  rw [← name.chars_eq] at hcall
  refine ⟨s', hcall, hsound, fun k => ?_⟩
  simp only [hfind, TrieName.path_eq_iff, h.find]
  by_cases hk : k = name
  · subst hk
    rw [if_pos rfl, Function.update_self]
  · rw [if_neg hk, Function.update_of_ne hk]

/-! ## Runs -/

/-- The calls of the trie; the memory gives the arrays and nodes of `trie_node_add`. -/
def trieTable : MapTable TrieTree TrieName ObjPtr (List (Option ObjPtr)) Stop where
  add := fun s name sprtLink allocs => trieNodeAdd s name.chars (some sprtLink) allocs
  del := fun s name => trieNodeDel s name.chars
  lookUp := fun s name => trieTreeLookUp s name.chars
  refused := TrieTree.refused

theorem trieTable_refines : trieTable.Refines TrieRepr where
  add := fun _ _ name sprtLink allocs h => h.add name sprtLink allocs
  del := fun _ _ name h => h.del name
  lookUp := fun _ _ name h => h.lookUp name

/-- **The trie refines a map.**  From an empty trie, whether or not its root has an array, over
every sequence of calls, every call returns, and at every moment looking up any name gives the link
of the map: adding an absent name binds it, unless an allocation fails, adding a present one changes
nothing, and deleting removes exactly the name, whatever other names extend it or begin like it. -/
theorem trie_tree_refines (branch : Option ObjPtr)
    (moves : List (MapMove TrieName ObjPtr (List (Option ObjPtr)))) :
    (∃ s, exec trieTable.step ⟨TrieTree.start branch, fun _ => none⟩ moves = some s) ∧
      Always trieTable.step trieTable.Agrees ⟨TrieTree.start branch, fun _ => none⟩ moves := by
  have hstart : TrieRepr (TrieTree.start branch) fun _ => none := trieRepr_start branch
  exact trieTable_refines.run hstart moves

end HeavenFox.Common
