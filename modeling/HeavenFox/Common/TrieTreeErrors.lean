/-
# HeavenFox.Common.TrieTreeErrors -- names with characters that cannot be printed

`find_trie_node` reports such a character only when its walk gets there, and
`trie_node_del` looks for it at every node, but `trie_node_add` relies on the report: when
what stands before the character is not stored, it makes room for it, and then takes a
branch at the place `-2`.

`bad_name_kept_iff` says for which trees the calls do what the report is for.
-/
import HeavenFox.Common.TrieTreeMap
import Mathlib.Data.List.TakeWhile

namespace HeavenFox.Common

open HeavenFox.Logic

/-- A character from space to tilde. -/
def printable (ch : Nat) : Bool := decide (32 ≤ ch ∧ ch ≤ 126)

/-- The path of what stands before the first character that cannot be printed. -/
def goodPart (name : List Nat) : List (Fin maxTrieChar) := triePath (name.takeWhile printable)

/-- The call returns, and neither a node nor an array is another one than before. -/
def LeavesTree (s : TrieTree) (call : Except Stop TrieTree) : Prop :=
  ∃ s', call = .ok s' ∧ s'.node = s.node ∧ s'.branches = s.branches

variable {s s' : TrieTree} {n m : TriePtr} {p : List (Fin maxTrieChar)} {node : TrieNode}
  {a : ObjPtr} {o : Option TriePtr} {name rest : List Nat} {ch : Nat} {link : ObjPtr}
  {allocs : List (Option ObjPtr)}

/-- A name with a bad character, cut in front of the first one. -/
theorem goodPart_split (h0 : 0 ∉ name) (hbad : ∃ ch ∈ name, ¬ (32 ≤ ch ∧ ch ≤ 126)) :
    ∃ ch rest, name = trieChars (goodPart name) ++ ch :: rest ∧
      getTrieNodeBranch ch = .stringErr := by
  have hchars : trieChars (goodPart name) = name.takeWhile printable := by
    refine trieChars_triePath fun ch hch => ?_
    simpa [printable] using List.mem_takeWhile_imp hch
  have happ : name.takeWhile printable ++ name.dropWhile printable = name :=
    List.takeWhile_append_dropWhile
  cases hrest : name.dropWhile printable with
  | nil =>
    obtain ⟨ch, hch, hout⟩ := hbad
    have hall := List.dropWhile_eq_nil_iff.mp hrest ch hch
    exact absurd (by simpa [printable] using hall) hout
  | cons ch rest =>
    rw [hrest] at happ
    refine ⟨ch, rest, by rw [hchars, happ], ?_⟩
    have hin : ch ∈ name := by
      rw [← happ]
      exact List.mem_append_right _ List.mem_cons_self
    have hout : printable ch = false := by
      have hhead := List.head?_dropWhile_not printable name
      rw [hrest] at hhead
      simpa using hhead
    have hne : ch ≠ 0 := by
      rintro rfl
      exact h0 hin
    rw [getTrieNodeBranch, if_neg hne, dif_neg (by simpa [printable] using hout)]

/-! ## The calls that look for the character -/

/-- The walk of `find_trie_node` reports the character, if it gets there. -/
theorem findTrieNode_bad (h : s.Sound) (q : List (Fin maxTrieChar)) (rest : List Nat)
    (hch : getTrieNodeBranch ch = .stringErr) :
    findTrieNode s (trieChars q ++ ch :: rest) =
      .ok (if (s.view.walk .sgrtNode q).isSome then .err else .null) := by
  have hloop := findTrieLoop_append (p := []) h rfl q (ch :: rest)
  simp only [findTrieNode, hloop, bind, Except.bind, pure, Except.pure]
  cases s.view.walk .sgrtNode q with
  | none => rfl
  | some m => simp [findTrieLoop, hch]

/-- **`trie_node_del`** never gets past the character. -/
theorem trieNodeDel_bad (h : s.Sound) (q : List (Fin maxTrieChar)) (rest : List Nat)
    (hch : getTrieNodeBranch ch = .stringErr) :
    trieNodeDel s (trieChars q ++ ch :: rest) = .ok s := by
  have hnull : trieDelLoop s (trieChars q ++ ch :: rest) (some .sgrtNode) = .ok none := by
    rw [trieDelLoop_append (p := []) h rfl]
    cases hm : s.view.walk .sgrtNode q with
    | none => rfl
    | some m =>
      obtain ⟨node, hnode⟩ := h.get ⟨q, hm⟩
      simp only [trieDelLoop, hnode, hch]
      cases node.sprtBranches with
      | none => rfl
      | some a => rfl
  rw [trieNodeDel, hnull]
  rfl

/-! ## Adding -/

/-- What is allocated stays allocated. -/
structure TrieTree.Grows (s s' : TrieTree) : Prop where
  node : ∀ n, (s.node n).isSome = true → (s'.node n).isSome = true
  branches : ∀ a, (s.branches a).isSome = true → (s'.branches a).isSome = true

theorem TrieTree.Grows.refl (s : TrieTree) : s.Grows s := ⟨fun _ => id, fun _ => id⟩

theorem TrieTree.Grows.trans {s₁ s₂ s₃ : TrieTree} (h : s₁.Grows s₂) (h' : s₂.Grows s₃) :
    s₁.Grows s₃ :=
  ⟨fun n hn => h'.node n (h.node n hn), fun a ha => h'.branches a (h.branches a ha)⟩

theorem TrieTree.set_grows (s : TrieTree) (n : TriePtr) (node : TrieNode) :
    s.Grows (s.set n (some node)) := by
  refine ⟨fun x hx => ?_, fun _ => id⟩
  by_cases hxn : x = n
  · simp [TrieTree.set, hxn]
  · simpa [TrieTree.set, hxn] using hx

theorem TrieTree.setBranches_grows (s : TrieTree) (a : ObjPtr) (b : TrieBranches) :
    s.Grows (s.setBranches a (some b)) := by
  refine ⟨fun _ => id, fun x hx => ?_⟩
  by_cases hxa : x = a
  · simp [TrieTree.setBranches, hxa]
  · simpa [TrieTree.setBranches, hxa] using hx

theorem createTrieBranch_grows (s : TrieTree) (n : TriePtr) (node : TrieNode)
    (allocs : List (Option ObjPtr)) : s.Grows (createTrieBranch s n node allocs).2.2 := by
  unfold createTrieBranch
  split
  · exact .refl s
  · split
    · exact ⟨fun _ => id, fun _ => id⟩
    · exact (s.setBranches_grows _ _).trans (TrieTree.set_grows _ _ _)

theorem allocateTrieNode_grows (s : TrieTree) (sprtPar : TriePtr) (alloc : Option ObjPtr) :
    s.Grows (allocateTrieNode s sprtPar alloc).2 := by
  unfold allocateTrieNode
  split
  · exact ⟨fun _ => id, fun _ => id⟩
  · exact s.set_grows _ _

/-- The loop of `trie_node_add` frees nothing. -/
theorem trieAddLoop_grows (i : Nat) (hrun : trieAddLoop link name i n allocs s = .ok (o, s')) :
    s.Grows s' := by
  induction name generalizing i n allocs s with
  | nil =>
    cases hrun
    exact .refl _
  | cons ch str ih =>
    cases hn : s.node n with
    | none => cases hch : getTrieNodeBranch ch <;> simp [trieAddLoop, hn, hch] at hrun
    | some node =>
      have hgrows := createTrieBranch_grows s n node allocs
      rcases hcreate : createTrieBranch s n node allocs with ⟨_ | a, allocs₁, s₁⟩
      all_goals rw [hcreate] at hgrows
      · -- no memory for the array
        obtain rfl : s₁ = s' := by
          cases hch : getTrieNodeBranch ch <;> simp [trieAddLoop, hn, hch, hcreate] at hrun <;>
            exact hrun.2
        exact hgrows
      · cases hch : getTrieNodeBranch ch with
        | stringEnd => simp [trieAddLoop, hn, hch, hcreate] at hrun
        | stringErr => simp [trieAddLoop, hn, hch, hcreate] at hrun
        | branch offset =>
          cases hb : s₁.branches a with
          | none => simp [trieAddLoop, hn, hch, hcreate, hb] at hrun
          | some b =>
            cases hm : b offset with
            | some m =>
              simp only [trieAddLoop, hn, hch, hcreate, hb, hm] at hrun
              have hrest := ih _ hrun
              exact hgrows.trans ⟨hrest.node, hrest.branches⟩
            | none =>
              have hnew := allocateTrieNode_grows s₁ n allocs₁.head?.join
              rcases halloc : allocateTrieNode s₁ n allocs₁.head?.join with ⟨_ | m, s₂⟩
              all_goals
                rw [halloc] at hnew
                simp only [trieAddLoop, hn, hch, hcreate, hb, hm, halloc] at hrun
              · cases hrun
                exact hgrows.trans hnew
              · have hrest := ih _ hrun
                exact (hgrows.trans hnew).trans
                  ((s₂.setBranches_grows a _).trans ⟨hrest.node, hrest.branches⟩)

/-- A call of `create_trie_branch` that gets memory could have been made before. -/
theorem createTrieBranch_given (n : TriePtr) (ha : node.sprtBranches = none)
    (halloc : s.alloc allocs.head?.join = some a) :
    ∃ s₁ node', createTrieBranch s n node allocs = (some a, allocs.tail, s₁) ∧
      s₁.node n = some node' ∧ (s₁.branches a).isSome = true ∧
      createTrieBranch s₁ n node' allocs.tail = (some a, allocs.tail, s₁) := by
  let node' : TrieNode := { node with sprtBranches := some a }
  refine ⟨(s.setBranches a (some fun _ => none)).set n (some node'), node', ?_,
    Function.update_self .., ?_, rfl⟩
  · simp only [createTrieBranch, ha, halloc, node']
  · simp [TrieTree.set, TrieTree.setBranches]

/-- **The loop never gets past the character**: it returns for lack of memory, or it goes wrong. -/
theorem trieAddLoop_bad (q : List (Fin maxTrieChar)) (i : Nat)
    (hch : getTrieNodeBranch ch = .stringErr)
    (hrun : trieAddLoop link (trieChars q ++ ch :: rest) i n allocs s = .ok (o, s')) : o = none := by
  induction q generalizing i n allocs s with
  | nil =>
    -- at the character: the array is made if need be, and then indexed before its first place
    simp only [trieChars, List.map_nil, List.nil_append, trieAddLoop, hch] at hrun
    split at hrun
    · cases hrun
    · split at hrun
      · cases hrun
        rfl
      · cases hrun
  | cons k q ih =>
    simp only [trieChars, List.map_cons, List.cons_append, trieAddLoop,
      getTrieNodeBranch_char] at hrun
    -- the node, its array, the place in it, the node behind: where one is missing, the call is over
    split at hrun
    · cases hrun
    split at hrun
    · cases hrun
      rfl
    split at hrun
    · cases hrun
    split at hrun
    · exact ih _ hrun
    split at hrun
    · cases hrun
      rfl
    · exact ih _ hrun

/-- The walk stops above the character, and there is no memory for what is missing. -/
theorem trieAddLoop_refused (h : s.Sound) (hp : s.view.walk .sgrtNode p = some n)
    (q : List (Fin maxTrieChar)) (i : Nat) (rest : List Nat) (hmiss : s.view.walk n q = none)
    (halloc : s.alloc allocs.head?.join = none) :
    ∃ s', trieAddLoop link (trieChars q ++ rest) i n allocs s = .ok (none, s') ∧
      s'.node = s.node ∧ s'.branches = s.branches := by
  induction q generalizing p n i s with
  | nil => cases hmiss
  | cons k q ih =>
    obtain ⟨node, hn⟩ := h.get ⟨p, hp⟩
    simp only [trieChars, List.map_cons, List.cons_append, trieAddLoop, getTrieNodeBranch_char, hn]
    cases ha : node.sprtBranches with
    | none =>
      refine ⟨s.refuse, ?_, rfl, rfl⟩
      simp only [createTrieBranch, ha, halloc]
    | some a =>
      obtain ⟨b, hb⟩ := Option.isSome_iff_exists.mp (h.owned.array n node a hn ha)
      have hchild : s.view.child n = b := TrieTree.child_some hn ha hb
      simp only [createTrieBranch, ha, hb]
      rw [LinkedTrie.walk, hchild] at hmiss
      cases hm : b k with
      | none =>
        refine ⟨s.refuse, ?_, rfl, rfl⟩
        simp only [allocateTrieNode, halloc]
      | some m =>
        rw [hm, Option.bind_some] at hmiss
        have hp' : s.view.walk .sgrtNode (p ++ [k]) = some m := by
          rw [LinkedTrie.walk_concat_of_eq hp, hchild, hm]
        exact ih (h.record (Function.update s.depth link i) s.refused) hp' (i + 1) hmiss halloc

/-- The walk stops above the character, and there is memory: it does not stay free. -/
theorem trieAddLoop_given (h : s.Sound) (hp : s.view.walk .sgrtNode p = some n)
    (q : List (Fin maxTrieChar)) (i : Nat) (rest : List Nat) (hmiss : s.view.walk n q = none)
    (halloc : s.alloc allocs.head?.join = some a)
    (hrun : trieAddLoop link (trieChars q ++ rest) i n allocs s = .ok (o, s')) :
    (s'.branches a).isSome = true ∨ (s'.node (.node a)).isSome = true := by
  induction q generalizing p n i s with
  | nil => cases hmiss
  | cons k q ih =>
    obtain ⟨node, hn⟩ := h.get ⟨p, hp⟩
    cases ha : node.sprtBranches with
    | none =>
      -- the array: the rest of the call is one of the tree that has it already
      obtain ⟨s₁, node', hcreate, hn₁, hb, hagain⟩ := createTrieBranch_given n ha halloc
      have hsame : trieAddLoop link (trieChars (k :: q) ++ rest) i n allocs.tail s₁ =
          .ok (o, s') := by
        rw [← hrun]
        simp only [trieChars, List.map_cons, List.cons_append, trieAddLoop,
          getTrieNodeBranch_char, hn, hn₁, hcreate, hagain]
      exact Or.inl ((trieAddLoop_grows i hsame).branches a hb)
    | some a' =>
      obtain ⟨b, hb⟩ := Option.isSome_iff_exists.mp (h.owned.array n node a' hn ha)
      have hchild : s.view.child n = b := TrieTree.child_some hn ha hb
      simp only [trieChars, List.map_cons, List.cons_append, trieAddLoop, getTrieNodeBranch_char,
        hn, createTrieBranch, ha, hb] at hrun
      rw [LinkedTrie.walk, hchild] at hmiss
      cases hm : b k with
      | none =>
        -- the node: it is linked into its array at once
        simp only [hm, allocateTrieNode, halloc] at hrun
        right
        refine (trieAddLoop_grows _ hrun).node (.node a) ?_
        simp [TrieTree.set, TrieTree.setBranches]
      | some m =>
        rw [hm, Option.bind_some] at hmiss
        simp only [hm] at hrun
        have hp' : s.view.walk .sgrtNode (p ++ [k]) = some m := by
          rw [LinkedTrie.walk_concat_of_eq hp, hchild, hm]
        exact ih (h.record (Function.update s.depth link i) s.refused) hp' (i + 1) hmiss halloc hrun

/-- **`trie_node_add`** leaves the tree alone if there is nothing to add, if the walk gets to the
character, or if the first allocation fails. -/
theorem trieNodeAdd_bad_iff (h : s.Sound) (q : List (Fin maxTrieChar)) (rest : List Nat)
    (hch : getTrieNodeBranch ch = .stringErr) (sprtLink : Option ObjPtr)
    (allocs : List (Option ObjPtr)) :
    LeavesTree s (trieNodeAdd s (trieChars q ++ ch :: rest) sprtLink allocs) ↔
      sprtLink = none ∨ s.view.walk .sgrtNode q ≠ none ∨ s.alloc allocs.head?.join = none := by
  cases sprtLink with
  | none => simp [trieNodeAdd, LeavesTree]
  | some link =>
    simp only [trieNodeAdd, findTrieNode_bad h q rest hch, bind, Except.bind, pure, Except.pure]
    cases hmiss : s.view.walk .sgrtNode q with
    | some m => simp [LeavesTree]
    | none =>
      simp only [Option.isSome_none, Bool.false_eq_true, if_false, ne_eq, not_true_eq_false,
        false_or, reduceCtorEq]
      cases halloc : s.alloc allocs.head?.join with
      | none =>
        obtain ⟨s', hrun, hnode, hbranches⟩ :
            ∃ s', trieAddLoop link (trieChars q ++ ch :: rest) 0 .sgrtNode allocs s =
              .ok (none, s') ∧ s'.node = s.node ∧ s'.branches = s.branches :=
          trieAddLoop_refused (p := []) h rfl q 0 (ch :: rest) hmiss halloc
        simp [hrun, LeavesTree, hnode, hbranches]
      | some a =>
        -- a call that returned would have left the memory that it was given in the tree
        simp only [reduceCtorEq, iff_false]
        rintro ⟨s', hcall, hnode, hbranches⟩
        cases hrun : trieAddLoop link (trieChars q ++ ch :: rest) 0 .sgrtNode allocs s with
        | error stop =>
          rw [hrun] at hcall
          cases hcall
        | ok res =>
          obtain ⟨o, s₁⟩ := res
          obtain rfl : o = none := trieAddLoop_bad q 0 hch hrun
          rw [hrun] at hcall
          cases hcall
          have hgiven := trieAddLoop_given (p := []) h rfl q 0 (ch :: rest) hmiss halloc hrun
          obtain ⟨hfree, hfree'⟩ := TrieTree.alloc_some halloc
          rw [hnode, hbranches, hfree, hfree'] at hgiven
          simp at hgiven

/-- **Names with a bad character.**  For every sound trie and every name with a character outside
space to tilde, adding and deleting it leave the tree as it is, and index no array at a place it
does not have, exactly if there is no link to add, or all of the name before the character is
stored, or there is no memory for the first array or node that is missing. -/
theorem bad_name_kept_iff (h : s.Sound) (h0 : 0 ∉ name)
    (hbad : ∃ ch ∈ name, ¬ (32 ≤ ch ∧ ch ≤ 126)) (sprtLink : Option ObjPtr)
    (allocs : List (Option ObjPtr)) :
    LeavesTree s (trieNodeAdd s name sprtLink allocs) ∧ LeavesTree s (trieNodeDel s name) ↔
      sprtLink = none ∨ s.view.walk .sgrtNode (goodPart name) ≠ none ∨
        s.alloc allocs.head?.join = none := by
  obtain ⟨ch, rest, hname, hch⟩ := goodPart_split h0 hbad
  generalize goodPart name = q at hname
  subst hname
  rw [trieNodeDel_bad h q rest hch, trieNodeAdd_bad_iff h q rest hch, and_iff_left]
  exact ⟨s, rfl, rfl, rfl⟩

/-- In the empty trie the name `"a\x01"` is not stored up to its bad character; without memory
nothing happens. -/
theorem bad_name_kept_iff_empty :
    LeavesTree (TrieTree.start none)
        (trieNodeAdd (TrieTree.start none) [97, 1] (some ⟨0x1000, by decide⟩) [none]) ∧
      LeavesTree (TrieTree.start none) (trieNodeDel (TrieTree.start none) [97, 1]) :=
  (bad_name_kept_iff (trieRepr_start none).sound (by decide) ⟨1, by decide, by decide⟩ _ _).mpr
    (Or.inr (Or.inr rfl))

/-- With memory for the first character, adding the name takes a branch outside the array of the
node that has been made for it. -/
theorem bad_name_faults :
    (TrieTree.start none).Sound ∧
      ¬ LeavesTree (TrieTree.start none)
        (trieNodeAdd (TrieTree.start none) [97, 1] (some ⟨0x1000, by decide⟩)
          [some ⟨0x2000, by decide⟩, some ⟨0x3000, by decide⟩, some ⟨0x4000, by decide⟩]) := by
  refine ⟨(trieRepr_start none).sound, ?_⟩
  rintro ⟨s', hcall, -⟩
  have hfault : trieNodeAdd (TrieTree.start none) [97, 1] (some ⟨0x1000, by decide⟩)
      [some ⟨0x2000, by decide⟩, some ⟨0x3000, by decide⟩, some ⟨0x4000, by decide⟩] =
        .error .fault := by
    rfl
  rw [hfault] at hcall
  cases hcall

end HeavenFox.Common
