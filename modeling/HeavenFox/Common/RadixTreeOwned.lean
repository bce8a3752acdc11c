/-
# HeavenFox.Common.RadixTreeOwned -- the nodes of the radix tree

What is allocated and what is reached are the same nodes, and none of them is superfluous.
During a call that fails in two places: the keys up to where the call works may lead to no
link (`CoveredBut`), and the nodes that `__del_radix_node` has taken off are allocated until
the levels of its recursion return.  `RadixTree.TidyBut` names both.

`radix_nodes_owned` is about the states between the calls of any run.
-/
import HeavenFox.Common.RadixTreeMap

namespace HeavenFox.Common

open HeavenFox.Logic

variable {s s' : RadixTree} {n m : RadixPtr} {p : List (Fin 8)} {node : RadixNode}
  {frames : List RadixPtr}

/-- What can be walked begins the path of a link, but perhaps the keys up to `spare`; and what is
allocated is reached, but perhaps the nodes `frames`, which are not. -/
structure RadixTree.TidyBut (s : RadixTree) (spare : List (Fin 8)) (frames : List RadixPtr) :
    Prop where
  sound : s.Sound
  covered : s.view.CoveredBut .sgrtNode spare
  owned : ∀ n, (s.node n).isSome = true → s.view.Reached .sgrtNode n ∨ n ∈ frames
  out : ∀ n ∈ frames, ¬ s.view.Reached .sgrtNode n

theorem RadixTree.tidy_start : RadixTree.start.TidyBut [] [] := by
  refine ⟨radixRepr_start.sound, .of_leaf RadixTree.start_leaf, fun n hn => Or.inl ?_,
    fun x hx => absurd hx List.not_mem_nil⟩
  by_cases hroot : n = .sgrtNode
  · exact ⟨[], by rw [hroot]; rfl⟩
  · simp [RadixTree.start, hroot] at hn

theorem RadixTree.TidyBut.record {spare : List (Fin 8)} (h : s.TidyBut spare frames)
    (depth : ObjPtr → Nat) (refused : Nat) :
    RadixTree.TidyBut { s with depth, refused } spare frames :=
  ⟨h.sound.record depth refused, h.covered, h.owned, h.out⟩

/-- A longer key may be spare. -/
theorem RadixTree.TidyBut.mono {q : List (Fin 8)} (h : s.TidyBut p frames) (hpq : p <+: q) :
    s.TidyBut q frames :=
  ⟨h.sound, h.covered.mono hpq, h.owned, h.out⟩

/-! ## Adding -/

/-- A new node is hung below the end of the spare key. -/
theorem RadixTree.TidyBut.attach {k : Fin 8} (h : s.TidyBut p [])
    (hp : s.view.walk .sgrtNode p = some n) (hn : s.node n = some node)
    (hk : node.sgrtBranches k = none) (hm : s.node m = none) :
    RadixTree.TidyBut ((s.set m (some ⟨some n, fun _ => none, none⟩)).set n
      (some { node with sgrtBranches := Function.update node.sgrtBranches k (some m) }))
      (p ++ [k]) [] := by
  obtain ⟨hsound, hwalk, hfind⟩ := h.sound.attach hp hn hk hm
  refine ⟨hsound, h.covered.attach (fun key hkey => ?_) hfind, fun x hx => Or.inl ?_,
    fun x hx => absurd hx List.not_mem_nil⟩
  · rw [hwalk] at hkey
    by_cases hkey' : key = p ++ [k]
    · exact Or.inl hkey'
    · rw [if_neg hkey'] at hkey
      exact Or.inr hkey
  · by_cases hxm : x = m
    · exact ⟨p ++ [k], by rw [hwalk, if_pos rfl, hxm]⟩
    · have hold : (s.node x).isSome = true := by
        by_cases hxn : x = n
        · rw [hxn, hn]
          rfl
        · simpa [RadixTree.set, hxn, hxm] using hx
      -- the key of an old node does not go through the new link
      obtain ⟨key, hkey⟩ := (h.owned x hold).resolve_right List.not_mem_nil
      have hne : key ≠ p ++ [k] := by
        rintro rfl
        rw [LinkedTrie.walk_concat_of_eq hp, (RadixTree.view_get hn).1, hk] at hkey
        cases hkey
      exact ⟨key, by rw [hwalk, if_neg hne, hkey]⟩

/-- The loop of `radix_tree_add` makes the keys up to the number spare. -/
theorem radixAddLoop_tidy {link : ObjPtr} {allocs : List (Option ObjPtr)} (h : s.TidyBut p [])
    (hp : s.view.walk .sgrtNode p = some n) (rounds i value : Nat)
    (hrun : radixAddLoop link rounds i value n allocs s = .ok (some m, s')) :
    s'.TidyBut (p ++ radixDigits rounds value) [] := by
  induction rounds generalizing s n p i value allocs with
  | zero =>
    cases hrun
    rw [radixDigits, List.append_nil]
    exact h
  | succ rounds ih =>
    obtain ⟨node, hn⟩ := h.sound.get ⟨p, hp⟩
    have happ : p ++ radixDigits (rounds + 1) value =
        (p ++ [getRadixNodeBranch value]) ++ radixDigits rounds (radixTreeAdvance value) := by
      simp [radixDigits]
    rw [happ]
    simp only [radixAddLoop, hn] at hrun
    cases hm : node.sgrtBranches (getRadixNodeBranch value) with
    | some m' =>
      -- nothing is made here, but the rest of the number may be missing
      rw [hm] at hrun
      have hp' : s.view.walk .sgrtNode (p ++ [getRadixNodeBranch value]) = some m' := by
        rw [LinkedTrie.walk_concat_of_eq hp, (RadixTree.view_get hn).1, hm]
      have h' := (h.mono (List.prefix_append p [getRadixNodeBranch value])).record
        (Function.update s.depth link i) s.refused
      exact ih h' hp' _ _ hrun
    | none =>
      rw [hm] at hrun
      rcases allocateRadixNode_cases s n allocs.head?.join with hcall | ⟨m', hfree, hcall⟩
      · rw [hcall] at hrun
        cases hrun
      · rw [hcall] at hrun
        have hp₁ := ((h.sound.attach hp hn hm hfree).2.1
          (p ++ [getRadixNodeBranch value])).trans (if_pos rfl)
        have h' := (h.attach hp hn hm hfree).record (Function.update s.depth link i) s.refused
        exact ih h' hp₁ _ _ hrun

/-- A write of a link leaves the same nodes allocated and reached. -/
theorem RadixTree.TidyBut.owned_setLink {spare : List (Fin 8)} (h : s.TidyBut spare frames)
    (hn : s.node n = some node) (v : Option ObjPtr) (x : RadixPtr)
    (hx : ((s.set n (some { node with sprtLink := v })).node x).isSome = true) :
    (s.set n (some { node with sprtLink := v })).view.Reached .sgrtNode x ∨ x ∈ frames := by
  have hold : (s.node x).isSome = true := by
    by_cases hxn : x = n
    · rw [hxn, hn]
      rfl
    · simpa [RadixTree.set, hxn] using hx
  rcases h.owned x hold with ⟨key, hkey⟩ | hframe
  · refine Or.inl ⟨key, ?_⟩
    rw [RadixTree.view_setLink hn, LinkedTrie.walk_setValue, hkey]
  · exact Or.inr hframe

/-- **`radix_tree_add`** without a failing allocation. -/
theorem radixTreeAdd_tidy (h : s.TidyBut [] []) {number : Nat} (hnumber : number < 2 ^ 32)
    (sprtLink : Option ObjPtr) (allocs : List (Option ObjPtr))
    (hrun : radixTreeAdd s number sprtLink allocs = .ok s') (hrefused : s'.refused = s.refused) :
    s'.TidyBut [] [] := by
  cases sprtLink with
  | none =>
    cases hrun
    exact h
  | some link =>
    simp only [radixTreeAdd, findRadixNode_eq h.sound, bind, Except.bind, pure,
      Except.pure] at hrun
    cases hfound : s.view.found .sgrtNode (radixPath number) with
    | some n =>
      rw [hfound] at hrun
      cases hrun
      exact h
    | none =>
      rw [hfound] at hrun
      obtain ⟨o, s₁, hloop, h₁, -, hres⟩ :=
        radixAddLoop_spec (p := []) link h.sound rfl (radixRounds number) 0 number allocs
      rw [hloop] at hrun
      rcases hres with ⟨rfl, hmore⟩ | ⟨-, n, rfl, hn⟩
      · cases hrun
        exact absurd hrefused hmore.ne'
      · have hn' : s₁.view.walk .sgrtNode (radixPath number) = some n := hn
        have htidy : s₁.TidyBut (radixPath number) [] :=
          radixAddLoop_tidy (p := []) h rfl _ _ _ hloop
        have hroot : n ≠ .sgrtNode := by
          rintro rfl
          exact radixPath_ne_nil hnumber (h₁.tree.root_unique hn')
        obtain ⟨node, hnode⟩ := h₁.get ⟨_, hn'⟩
        obtain ⟨h₂, -, -, hfind₂⟩ := h₁.setLink hn' hnode (some link)
        simp only [ne_eq, hroot, not_false_eq_true, if_true, hnode] at hrun
        cases hrun
        refine ⟨h₂, htidy.covered.bind (fun key => ?_) ?_ fun key hkey => ?_,
          htidy.owned_setLink hnode _, fun x hx => absurd hx List.not_mem_nil⟩
        · rw [RadixTree.view_setLink hnode, LinkedTrie.walk_setValue]
        · rw [← RadixTree.find, hfind₂, if_pos rfl]
          exact Option.some_ne_none link
        · rw [← RadixTree.find, hfind₂]
          split
          · exact Option.some_ne_none link
          · exact hkey

/-! ## Deleting -/

/-- A leaf is taken off: it stays allocated, and everything else stays as reached as it was. -/
theorem RadixTree.TidyBut.detach {k : Fin 8} (h : s.TidyBut (p ++ [k]) frames)
    (hm : s.view.walk .sgrtNode (p ++ [k]) = some m) (hdetached : s.Detached s' (p ++ [k]) m) :
    s'.TidyBut p (m :: frames) := by
  refine ⟨hdetached.sound, h.covered.detach (fun key hkey => ?_) hdetached.find, fun x hx => ?_,
    fun x hx => ?_⟩
  · obtain ⟨x, hx⟩ := Option.ne_none_iff_exists'.mp hkey
    obtain ⟨hne, hold⟩ := hdetached.less hx
    exact ⟨hne, by rw [hold]; exact Option.some_ne_none x⟩
  · rw [hdetached.allocated] at hx
    rcases h.owned x hx with ⟨key, hkey⟩ | hframe
    · by_cases hne : key = p ++ [k]
      · rw [hne, hm] at hkey
        exact Or.inr (by simp [Option.some.inj hkey])
      · exact Or.inl ⟨key, by rw [hdetached.walk, if_neg hne, hkey]⟩
    · exact Or.inr (List.mem_cons_of_mem m hframe)
  · rcases List.mem_cons.mp hx with rfl | hframe
    · exact hdetached.out
    · rintro ⟨key, hkey⟩
      exact h.out x hframe ⟨key, (hdetached.less hkey).2⟩

/-- A node that has been taken off is released. -/
theorem RadixTree.TidyBut.free {spare : List (Fin 8)} (h : s.TidyBut spare (n :: frames)) :
    (s.set n none).TidyBut spare frames := by
  obtain ⟨hsound, hsame⟩ := h.sound.free (h.out n List.mem_cons_self)
  refine ⟨hsound, fun key hne hkey => ?_, fun x hx => ?_, fun x hx => ?_⟩
  · rw [(hsame key).1] at hkey
    refine (h.covered key hne hkey).imp_right fun ⟨path, hpath, hfind⟩ => ⟨path, hpath, ?_⟩
    rw [← RadixTree.find, (hsame path).2]
    exact hfind
  · have hxn : x ≠ n := by
      rintro rfl
      simp [RadixTree.set] at hx
    have hold : (s.node x).isSome = true := by simpa [RadixTree.set, hxn] using hx
    rcases h.owned x hold with ⟨key, hkey⟩ | hframe
    · exact Or.inl ⟨key, by rw [(hsame key).1, hkey]⟩
    · exact Or.inr ((List.mem_cons.mp hframe).resolve_left hxn)
  · rintro ⟨key, hkey⟩
    rw [(hsame key).1] at hkey
    exact h.out x (List.mem_cons_of_mem n hx) ⟨key, hkey⟩

/-- `__del_radix_node` with a child in the tree, as it returns. -/
abbrev RadixTree.Climbs (rounds : Nat) (s : RadixTree) (n : RadixPtr) (s' : RadixTree) : Prop :=
  LinkedTrie.climb RadixTree.view .sgrtNode delRadixNode (fun s n => s.set n none) rounds s n =
    .ok s'

/-- One level of a call that returns. -/
theorem delRadixNode_level_tidy {k : Fin 8} {rounds : Nat} (h : s.TidyBut (p ++ [k]) frames)
    (hp : s.view.walk .sgrtNode p = some n) (hm : s.view.walk .sgrtNode (p ++ [k]) = some m)
    (hleaf : s.view.Leaf m) (hvalue : s.view.value m = none)
    (hrun : delRadixNode rounds s (some n) (some m) = .ok s') :
    ∃ s₁ r, s₁.TidyBut p (m :: frames) ∧ s₁.view.walk .sgrtNode p = some n ∧
      ((s₁.view.value n ≠ none ∨ ∃ j, s₁.view.child n j ≠ none) ∧ s₁ = s' ∨
        s₁.view.Leaf n ∧ s₁.view.value n = none ∧ RadixTree.Climbs r s₁ n s') := by
  cases rounds with
  | zero => cases hrun
  | succ r =>
    obtain ⟨s₁, hdetached, hp₁, hlevel⟩ := delRadixNode_child h.sound hp hm hleaf hvalue r
    refine ⟨s₁, r, h.detach hm hdetached, hp₁, ?_⟩
    rcases hlevel with ⟨huse, hcall⟩ | ⟨hleaf₁, hvalue₁, hcall⟩
    · rw [hcall] at hrun
      exact Or.inl ⟨huse, Except.ok.inj hrun⟩
    · rw [hcall] at hrun
      exact Or.inr ⟨hleaf₁, hvalue₁, hrun⟩

/-- The two ends of a call for a node below the root: it calls itself for the parent, and releases
the node. -/
theorem RadixTree.Climbs.parts {j : Fin 8} {rounds : Nat} (hrun : s.Climbs rounds n s')
    (h : s.Sound) (hn : s.view.walk .sgrtNode (p ++ [j]) = some n) :
    ∃ n' s₁, s.view.walk .sgrtNode p = some n' ∧
      delRadixNode rounds s (some n') (some n) = .ok s₁ ∧ s' = s₁.set n none := by
  obtain ⟨n', hn', hparent⟩ := h.tree.parent_of_walk hn
  have hroot : n ≠ .sgrtNode := by
    rintro rfl
    have := h.tree.root_unique hn
    simp at this
  rw [RadixTree.Climbs, LinkedTrie.climb, hparent] at hrun
  cases hcall : delRadixNode rounds s (some n') (some n) with
  | error stop =>
    rw [hcall] at hrun
    cases hrun
  | ok s₁ =>
    rw [hcall] at hrun
    refine ⟨n', s₁, hn', hcall, ?_⟩
    simpa [hroot, bind, Except.bind, pure, Except.pure] using hrun.symm

/-- **Climbing from a leaf without a link** releases it, and every node above it that is left without
use. -/
theorem RadixTree.Climbs.tidy {j : Fin 8} {rounds : Nat} (hrun : s.Climbs rounds n s')
    (h : s.TidyBut (p ++ [j]) frames) (hn : s.view.walk .sgrtNode (p ++ [j]) = some n)
    (hleaf : s.view.Leaf n) (hvalue : s.view.value n = none) : s'.TidyBut [] frames := by
  -- from the node up to the root: the key loses its last symbol with every level
  induction p using List.reverseRecOn generalizing s s' n j rounds frames with
  | nil =>
    obtain ⟨n', s₂, hn', hcall, rfl⟩ := hrun.parts h.sound hn
    obtain rfl : .sgrtNode = n' := Option.some.inj hn'
    obtain ⟨s₁, r, h₁, -, ⟨-, rfl⟩ | ⟨-, -, hclimb⟩⟩ :=
      delRadixNode_level_tidy h hn' hn hleaf hvalue hcall
    · exact h₁.free
    · -- the root has no parent and is not released
      rw [RadixTree.Climbs, LinkedTrie.climb, h₁.sound.rootParent] at hclimb
      cases r with
      | zero => cases hclimb
      | succ r =>
        cases hclimb
        exact h₁.free
  | append_singleton p i ih =>
    obtain ⟨n', s₂, hn', hcall, rfl⟩ := hrun.parts h.sound hn
    obtain ⟨s₁, r, h₁, hp₁, ⟨huse, rfl⟩ | ⟨hleaf₁, hvalue₁, hclimb⟩⟩ :=
      delRadixNode_level_tidy h hn' hn hleaf hvalue hcall
    · have hdone : s₁.TidyBut [] (n :: frames) :=
        ⟨h₁.sound, h₁.covered.stop hp₁ huse, h₁.owned, h₁.out⟩
      exact hdone.free
    · exact (ih hclimb h₁ hp₁ hleaf₁ hvalue₁).free

/-- **`radix_tree_del`** as it returns. -/
theorem radixTreeDel_tidy (h : s.TidyBut [] []) {number : Nat} (hnumber : number < 2 ^ 32)
    (hrun : radixTreeDel s number = .ok s') : s'.TidyBut [] [] := by
  simp only [radixTreeDel, radixDescend_root h.sound, bind, Except.bind, pure, Except.pure] at hrun
  cases hn : s.view.walk .sgrtNode (radixPath number) with
  | none =>
    rw [hn] at hrun
    cases hrun
    exact h
  | some n =>
    obtain ⟨node, hnode⟩ := h.sound.get ⟨_, hn⟩
    simp only [hn, hnode] at hrun
    split at hrun
    · cases hrun
      exact h
    · obtain ⟨hsound, hn₁, hcleared, hfind⟩ := h.sound.setLink hn hnode none
      have h₁ : (s.set n (some { node with sprtLink := none })).TidyBut (radixPath number) [] := by
        refine ⟨hsound, h.covered.clear (fun key => ?_) fun key hkey => ?_,
          h.owned_setLink hnode none, fun x hx => absurd hx List.not_mem_nil⟩
        · rw [RadixTree.view_setLink hnode, LinkedTrie.walk_setValue]
        · rw [← RadixTree.find, hfind, if_neg hkey]
      obtain ⟨r, hr⟩ : ∃ r, walkRounds = r + 1 := ⟨walkRounds - 1, rfl⟩
      rw [hr] at hrun
      rcases delRadixNode_self_cases hsound ⟨_, hn₁⟩ hcleared r with
        ⟨hchild, hcall⟩ | ⟨hleaf, hcall⟩
      · -- other numbers go on below
        rw [hcall] at hrun
        cases hrun
        exact ⟨h₁.sound, h₁.covered.stop hn₁ (Or.inr hchild), h₁.owned, h₁.out⟩
      · rw [hcall] at hrun
        have hne := radixPath_ne_nil hnumber
        rw [← List.dropLast_concat_getLast hne] at h₁ hn₁
        exact RadixTree.Climbs.tidy hrun h₁ hn₁ hleaf hcleared

/-- Deleting asks for no memory. -/
theorem delRadixNode_refused {rounds : Nat} {o c : Option RadixPtr}
    (hrun : delRadixNode rounds s o c = .ok s') : s'.refused = s.refused := by
  induction rounds generalizing s s' o c with
  | zero => cases hrun
  | succ rounds ih =>
    cases o with
    | none =>
      cases hrun
      rfl
    | some n =>
      cases hn : s.node n with
      | none => simp [delRadixNode, hn] at hrun
      | some node =>
        simp only [delRadixNode, hn, bind, Except.bind] at hrun
        split at hrun
        · cases hrun
          rfl
        split at hrun
        · cases hrun
          rfl
        split at hrun
        · cases hrun
        · rename_i s₁ hcall
          have hrest := ih hcall
          split at hrun
          all_goals
            cases hrun
            exact hrest

theorem radixTreeDel_refused {number : Nat} (hrun : radixTreeDel s number = .ok s') :
    s'.refused = s.refused := by
  simp only [radixTreeDel, bind, Except.bind] at hrun
  split at hrun
  · cases hrun
  split at hrun
  · cases hrun
    rfl
  split at hrun
  · cases hrun
  split at hrun
  · cases hrun
    rfl
  · exact (delRadixNode_refused hrun).trans rfl

/-! ## Runs -/

/-- The calls that change the tree; the memory gives the nodes of `radix_tree_add`. -/
inductive RadixCall where
  | add (number : Fin (2 ^ 32)) (sprtLink : Option ObjPtr) (allocs : List (Option ObjPtr))
  | del (number : Fin (2 ^ 32))

def radixStep (s : RadixTree) : RadixCall → Option RadixTree
  | .add number sprtLink allocs => (radixTreeAdd s number sprtLink allocs).toOption
  | .del number => (radixTreeDel s number).toOption

/-- What holds between the calls; of a tree for which no memory has been refused, all of it. -/
structure RadixTree.Kept (s : RadixTree) : Prop where
  sound : s.Sound
  numbers : ∀ path, s.find path ≠ none → ∃ number : Fin (2 ^ 32), radixPath number = path
  tidy : s.refused = 0 → s.TidyBut [] []

theorem RadixTree.kept_start : RadixTree.start.Kept where
  sound := radixRepr_start.sound
  numbers := by
    intro path hfind
    cases path with
    | nil => exact absurd rfl hfind
    | cons k path => exact absurd (LinkedTrie.lookUp_of_leaf start_leaf (by simp)) hfind
  tidy := fun _ => tidy_start

/-- The rule of a call. -/
theorem RadixTree.Kept.step (h : s.Kept) (call : RadixCall) :
    ∃ s', radixStep s call = some s' ∧ s'.Kept := by
  cases call with
  | add number sprtLink allocs =>
    cases sprtLink with
    | none => exact ⟨s, rfl, h⟩
    | some link =>
      obtain ⟨s', hcall, hsound, hrefused, hfind⟩ :=
        radixTreeAdd_spec h.sound number.isLt link allocs
      refine ⟨s', by simp [radixStep, hcall, Except.toOption], hsound, fun path hpath => ?_,
        fun h0 => ?_⟩
      · rw [hfind] at hpath
        split at hpath
        · rename_i hnew
          exact ⟨number, hnew.1.symm⟩
        · exact h.numbers path hpath
      · exact radixTreeAdd_tidy (h.tidy (by omega)) number.isLt (some link) allocs hcall (by omega)
  | del number =>
    obtain ⟨s', hcall, hsound, hfind⟩ := radixTreeDel_spec h.sound number.isLt
    have hrefused := radixTreeDel_refused hcall
    refine ⟨s', by simp [radixStep, hcall, Except.toOption], hsound, fun path hpath => ?_,
      fun h0 => ?_⟩
    · rw [hfind] at hpath
      split at hpath
      · exact absurd rfl hpath
      · exact h.numbers path hpath
    · exact radixTreeDel_tidy (h.tidy (by omega)) number.isLt hcall

/-- Every node but the root has a link or a child; the nodes below a node are allocated and point
back at it; and besides the root, what is allocated is what is reached. -/
structure RadixTree.NodesOwned (s : RadixTree) : Prop where
  used : ∀ n, s.view.Reached .sgrtNode n → n ≠ .sgrtNode →
    ∃ node, s.node n = some node ∧ (node.sprtLink ≠ none ∨ ∃ k, node.sgrtBranches k ≠ none)
  parent : ∀ n node k m, s.view.Reached .sgrtNode n → s.node n = some node →
    node.sgrtBranches k = some m → ∃ child, s.node m = some child ∧ child.sprtParent = some n
  allocated : ∀ n, (s.node n).isSome = true ↔ s.view.Reached .sgrtNode n

theorem RadixTree.TidyBut.nodesOwned (h : s.TidyBut [] []) : s.NodesOwned where
  used := by
    rintro n ⟨key, hkey⟩ hroot
    have hne : key ≠ [] := by
      rintro rfl
      exact hroot (Option.some.inj hkey).symm
    obtain ⟨node, hn⟩ := h.sound.get ⟨key, hkey⟩
    obtain ⟨hchild, -, hlink⟩ := RadixTree.view_get hn
    have huse := h.covered.used hkey hne
    rw [hchild, hlink] at huse
    exact ⟨node, hn, huse⟩
  parent := by
    rintro n node k m ⟨key, hkey⟩ hn hk
    have hm : s.view.walk .sgrtNode (key ++ [k]) = some m := by
      rw [LinkedTrie.walk_concat_of_eq hkey, (RadixTree.view_get hn).1, hk]
    obtain ⟨child, hchild⟩ := h.sound.get ⟨_, hm⟩
    refine ⟨child, hchild, ?_⟩
    rw [← (RadixTree.view_get hchild).2.1, h.sound.tree.parent_eq key k m hm, hkey]
  allocated := fun n => ⟨fun hn => (h.owned n hn).resolve_right List.not_mem_nil, h.sound.live n⟩

/-- **The nodes of a radix tree.**  Over every sequence of `radix_tree_add` and `radix_tree_del`
every call returns; and if no allocation failed, every node that is reached from the root is
allocated, has its parent above it and, unless it is the root, a link or a child, and no other
node is allocated.  If no number has a link, no node is left but the root. -/
theorem radix_nodes_owned (calls : List RadixCall) :
    ∃ s, exec radixStep .start calls = some s ∧ (s.refused = 0 → s.NodesOwned ∧
      ((∀ number : Fin (2 ^ 32), radixTreeLookUp s number = .ok none) →
        ∀ n, (s.node n).isSome = true ↔ n = .sgrtNode)) := by
  obtain ⟨⟨s, hrun⟩, halways⟩ :
      (∃ s, exec radixStep .start calls = some s) ∧ Always radixStep RadixTree.Kept .start calls :=
    run_of_total (fun _ call hs => RadixTree.Kept.step hs call) RadixTree.kept_start
  have hkept := always_last halways hrun
  refine ⟨s, hrun, fun h0 => ?_⟩
  have htidy := hkept.tidy h0
  refine ⟨htidy.nodesOwned, fun hnone n => ?_⟩
  rw [htidy.nodesOwned.allocated]
  -- a link would be found under the number of its path
  have hempty : ∀ path, s.find path = none := by
    intro path
    by_contra hfind
    obtain ⟨number, rfl⟩ := hkept.numbers path hfind
    have hlookUp := hnone number
    rw [radixTreeLookUp_eq hkept.sound] at hlookUp
    exact hfind (Except.ok.inj hlookUp)
  constructor
  · rintro ⟨key, hkey⟩
    obtain rfl := htidy.covered.walk_nil hempty hkey
    exact (Option.some.inj hkey).symm
  · rintro rfl
    exact ⟨[], rfl⟩

/-- The node of 0 goes on to be the parent of the node of 8. -/
example : (exec radixStep .start
    [.add 0 (some ⟨0x1000, by decide⟩) [some ⟨0x3000, by decide⟩],
      .add 8 (some ⟨0x2000, by decide⟩) [some ⟨0x4000, by decide⟩], .del 0]).map
        (fun s => (s.refused, (s.node (.node ⟨0x4000, by decide⟩)).bind (·.sprtParent))) =
      some (0, some (.node ⟨0x3000, by decide⟩)) := by
  rfl

end HeavenFox.Common
