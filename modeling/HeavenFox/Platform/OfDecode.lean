/-
# HeavenFox.Platform.OfDecode -- decoding undoes encoding

What the passes build from the encoding of a tree is described here by the tree
alone: the path of each node by the names on the way to it, its properties by the
items it was given, the links by the children and the siblings.
-/
import HeavenFox.Platform.OfUnflatten

namespace HeavenFox.Platform

open HeavenFox.Logic HeavenFox.Common

variable {img : OfImage} {d : Fdt} {s : Ram} {alloc : Kzalloc} {tree : OfTree}

/-! ## Decoding -/

/-- The names on the way to a node, each behind a slash. -/
def joined (names : List (List UInt8)) : List UInt8 := names.flatMap fun name => slash :: name

/-- The path name of the node with these names on the way to it. -/
def pathName (names : List (List UInt8)) : List UInt8 :=
  if names = [] then [slash] else joined names

/-- The properties of a node: those it was given, and a name made of the last name on the way to it
when it was given none. -/
def treeProps (names : List (List UInt8)) (items : List OfItem) : List (List UInt8 × List UInt8) :=
  ofProps items ++
    if ofNamed items then [] else [(cstring "name", beforeUnit (names.getLastD []) ++ [0])]

/-- The value of the last property named `phandle`, `v` being the one before. -/
def phandleValue : Option (List UInt8) → List (List UInt8 × List UInt8) → Option (List UInt8)
  | v, [] => v
  | v, (name, value) :: props =>
    phandleValue (if cstring "phandle" = name then some value else v) props

/-- `w` is the phandle that is given: the value as a big-endian number, or the number that says there
is none. -/
def PhandleIs (w : Nat) : Option (List UInt8) → Prop
  | none => w = 2 ^ 32 - 1
  | some value => ∀ n, n < 2 ^ 32 → beBytes n <+: value → w = n

/-- What the node at `a` holds. -/
structure NodeIs (m : Mem) (a parent : Nat) (names : List (List UInt8)) (items : List OfItem) :
    Prop where
  fullName : CStrAt m (load32 m (a + 12)) (pathName names)
  parent : load32 m (a + 24) = parent
  props : PropSeg m 0 (load32 m (a + 16)) (treeProps names items)
  phandle : PhandleIs (load32 m (a + 8)) (phandleValue none (ofProps items))

/-- The forest is in the memory: its first node is at `a`, `names` leads to the parent, and `xs` lists
the nodes in preorder. -/
def ForestIs (m : Mem) : Nat → List (List UInt8) → OfForest → Nat → List Nat → Prop
  | _, _, .nil, a, xs => a = 0 ∧ xs = []
  | parent, names, .node name items children _ siblings, a, xs =>
    a ≠ 0 ∧ NodeIs m a parent (names ++ [name]) items ∧
      ∃ xs₁ xs₂, xs = a :: xs₁ ++ xs₂ ∧
        ForestIs m a (names ++ [name]) children (load32 m (a + 28)) xs₁ ∧
        ForestIs m parent names siblings (load32 m (a + 32)) xs₂

/-- The names on the way to each node of a forest, in preorder. -/
def forestPaths : List (List UInt8) → OfForest → List (List (List UInt8))
  | _, .nil => []
  | names, .node name _ children _ siblings =>
    (names ++ [name]) :: forestPaths (names ++ [name]) children ++ forestPaths names siblings

/-- The names on the way to each node of a tree; none lead to the root. -/
def OfTree.paths (t : OfTree) : List (List (List UInt8)) := [] :: forestPaths [] t.children

/-- The tree is in the memory, its root at the head of the list of all nodes, and that list is `xs`,
the nodes in preorder. -/
structure TreeIs (m : Mem) (head : Nat) (t : OfTree) (root : Nat) (xs : List Nat) : Prop where
  first : load32 m head = root
  valid : root ≠ 0
  node : NodeIs m root 0 [] t.items
  children : ∃ xs₁, xs = root :: xs₁ ∧ ForestIs m root [] t.children (load32 m (root + 28)) xs₁
  sibling : load32 m (root + 32) = 0
  allnext : ∃ last, NextChain m last head xs ∧ load32 m last = 0
  nodup : xs.Nodup

theorem joined_snoc (names : List (List UInt8)) (name : List UInt8) :
    joined (names ++ [name]) = joined names ++ slash :: name := by
  simp [joined]

theorem pathName_snoc (names : List (List UInt8)) (name : List UInt8) :
    pathName (names ++ [name]) = joined (names ++ [name]) := if_neg (by simp)

/-- What is behind the last slash is the last name. -/
theorem lastComponent_pathName {names : List (List UInt8)}
    (h : ∀ name ∈ names, slash ∉ name) : lastComponent (pathName names) = names.getLastD [] := by
  rcases List.eq_nil_or_concat names with rfl | ⟨init, name, rfl⟩
  · decide
  · have hname : slash ∉ name := h name (by simp)
    have hall : ∀ c ∈ name.reverse, decide (c ≠ slash) = true := fun c hc =>
      decide_eq_true fun heq => hname (heq ▸ List.mem_reverse.mp hc)
    rw [List.concat_eq_append, pathName_snoc, joined_snoc, lastComponent, List.reverse_append,
      List.reverse_cons, List.append_assoc, List.takeWhile_append_of_pos hall]
    simp

theorem phandleIs_items {items : List OfItem} {p w : Nat} {v : Option (List UInt8)}
    (h : d.HoldsItems p items) (hw : PhandleIs w v) :
    PhandleIs (itemsPhandle d p w items) (phandleValue v (ofProps items)) := by
  induction items generalizing p w v with
  | nil => exact hw
  | cons item items ih =>
    obtain ⟨hitem, hrest⟩ := h
    cases item with
    | nop => exact ih hrest hw
    | prop name value =>
      refine ih hrest ?_
      rw [itemPhandle]
      split
      · rintro n hn ⟨rest, rfl⟩
        exact (beBytes_at hitem.2.2.2.2 hn).1
      · exact hw

/-- The path name of a child. -/
theorem fullName_child {par : OfParent} {names : List (List UInt8)} {name : List UInt8}
    (hpar : parentPath (some par) = joined names) (hslash : slash ∉ name) :
    fullName (some par) name = joined (names ++ [name]) := by
  have hhead : ¬ name.head? = some slash := fun hhead => hslash (List.mem_of_mem_head? hhead)
  rw [fullName, if_neg hhead, hpar, joined_snoc]

/-- What is built for a forest is the forest. -/
theorem ForestBuilt.forestIs {f : OfForest} {top p parent a : Nat} {par : OfParent} {m : Mem}
    {names : List (List UInt8)} {xs : List Nat}
    (h : ForestBuilt d top m parent (some par) p f a 0 xs) (hholds : d.HoldsForest p f)
    (hpar : parentPath (some par) = joined names) (hnames : ∀ name ∈ names, slash ∉ name)
    (hf : f.Named) : ForestIs m parent names f a xs := by
  induction f generalizing p parent a par names xs with
  | nil => exact h
  | node name items children nops siblings ihc ihs =>
    obtain ⟨hne, -, hbuilt, xs₁, xs₂, hxs, hchildren, hsiblings⟩ := h
    obtain ⟨-, -, hitems, hbelow, -, -, hbehind⟩ := hholds
    obtain ⟨hempty, hslash, -, hnamedBelow, hnamedBehind⟩ := hf
    have hfull := fullName_child hpar hslash
    have hnames' : ∀ name' ∈ names ++ [name], slash ∉ name' := by
      intro name' hmem
      rcases List.mem_append.mp hmem with hmem | hmem
      · exact hnames name' hmem
      · rwa [List.mem_singleton.mp hmem]
    refine ⟨hne, ⟨?_, hbuilt.parent, ?_, ?_⟩, xs₁, xs₂, hxs,
      ihc hchildren hbelow ?_ hnames' hnamedBelow, ihs hsiblings hbehind hpar hnames hnamedBehind⟩
    · rw [hbuilt.fullName, pathName_snoc, ← hfull]
      exact hbuilt.pathStr
    · have hprops := hbuilt.props
      rw [nodeProps, hfull, ← pathName_snoc, unitName, lastComponent_pathName hnames'] at hprops
      exact hprops
    · rw [hbuilt.phandle]
      exact phandleIs_items hitems rfl
    · exact hfull

/-- **What is built for a tree is the tree.** -/
theorem TreeBuilt.treeIs {base : Nat} {xs : List Nat} {m : Mem}
    (h : TreeBuilt img d tree base xs m) (hholds : d.Holds tree) (hnamed : tree.Named) :
    TreeIs m img.allNodes tree base xs := by
  obtain ⟨hne, -, hbuilt, xs₁, xs₂, hxs, hchildren, hsibling, hnil⟩ := h.built
  obtain ⟨-, -, hitems, hbelow, -, -, -⟩ := hholds.tokens
  have hfull : fullName none tree.name = pathName [] := by
    rw [hnamed.root]
    rfl
  refine ⟨h.root, hne, ⟨?_, hbuilt.parent, ?_, ?_⟩, ⟨xs₁, ?_, ?_⟩, hsibling, h.chain,
    h.sorted.imp fun hlt => Nat.ne_of_lt hlt⟩
  · rw [hbuilt.fullName, ← hfull]
    exact hbuilt.pathStr
  · have hprops := hbuilt.props
    rw [nodeProps, hfull, unitName, lastComponent_pathName (by simp)] at hprops
    exact hprops
  · rw [hbuilt.phandle]
    exact phandleIs_items hitems rfl
  · rw [hxs, hnil, List.append_nil]
  · exact hchildren.forestIs hbelow rfl (by simp) hnamed.below

/-! ## Search -/

/-- The node at `x` has its path name behind it, inside the block up to `top`. -/
def PathAt (m : Mem) (top x : Nat) (names : List (List UInt8)) : Prop :=
  x ≠ 0 ∧ x + (52 + ((pathName names).length + 1)) ≤ top ∧ load32 m (x + 12) = x + 52 ∧
    CStrAt m (x + 52) (pathName names)

theorem ForestBuilt.paths {f : OfForest} {top p parent a : Nat} {par : OfParent} {m : Mem}
    {names : List (List UInt8)} {xs : List Nat}
    (h : ForestBuilt d top m parent (some par) p f a 0 xs)
    (hpar : parentPath (some par) = joined names) (hf : f.Named) :
    List.Forall₂ (PathAt m top) xs (forestPaths names f) := by
  induction f generalizing p parent a par names xs with
  | nil =>
    rw [h.2]
    exact List.Forall₂.nil
  | node name items children nops siblings ihc ihs =>
    obtain ⟨hne, htop, hbuilt, xs₁, xs₂, rfl, hchildren, hsiblings⟩ := h
    obtain ⟨-, hslash, -, hnamedBelow, hnamedBehind⟩ := hf
    have hfull := fullName_child hpar hslash
    have hpath := hbuilt.pathStr
    rw [hfull, ← pathName_snoc] at htop hpath
    exact List.rel_append (List.Forall₂.cons ⟨hne, htop, hbuilt.fullName, hpath⟩
      (ihc hchildren hfull hnamedBelow)) (ihs hsiblings hpar hnamedBehind)

/-- The first node of the list that has the path. -/
def findPath (path : List UInt8) (xs : List Nat) (paths : List (List (List UInt8))) : Nat :=
  ((xs.zip paths).find? fun x => pathName x.2 = path).elim 0 fun x => x.1

theorem findNodeLoop_run {path : List UInt8} {base top slot last rounds : Nat} {xs : List Nat}
    {paths : List (List (List UInt8))} (hpath : 0 ∉ path) (hlive : s.Live base (top - base))
    (hnodes : ∀ x ∈ xs, base ≤ x) (h : List.Forall₂ (PathAt s.bytes top) xs paths)
    (hchain : NextChain s.bytes last slot xs) (hlast : load32 s.bytes last = 0)
    (hrounds : xs.length < rounds) :
    findNodeLoop path rounds (load32 s.bytes slot) s = .ok (findPath path xs paths, s) := by
  induction h generalizing slot rounds with
  | nil =>
    obtain ⟨rounds, rfl⟩ : ∃ r, rounds = r + 1 := ⟨rounds - 1, by simp at hrounds; omega⟩
    have hslot : slot = last := hchain
    rw [findNodeLoop, hslot, hlast, if_pos rfl]
    rfl
  | @cons x names xs paths hx hrest ih =>
    obtain ⟨rounds, rfl⟩ : ∃ r, rounds = r + 1 := ⟨rounds - 1, by simp at hrounds; omega⟩
    obtain ⟨hne, htop, hword, hstr⟩ := hx
    obtain ⟨hslot, hnext⟩ := hchain
    have hlo := hnodes x List.mem_cons_self
    have hcmp : strcmp path (x + 52) s = .ok (decide (path = pathName names), s) :=
      strcmp_run hstr (hlive.mono (by omega) (by omega)) hpath
    unfold findNodeLoop nodeFullName nodeAllnext
    rw [hslot, if_neg hne, RamM.bind_ok (loadWord_run (hlive.mono (by omega) (by omega))), hword,
      RamM.bind_ok hcmp]
    by_cases hfound : path = pathName names
    · rw [if_pos (decide_eq_true hfound), RamM.pure_run, findPath, List.zip_cons_cons,
        List.find?_cons_of_pos (by simp [hfound])]
      rfl
    · rw [List.length_cons] at hrounds
      rw [if_neg (by simpa using hfound),
        RamM.bind_ok (loadWord_run (hlive.mono (by omega) (by omega))),
        ih (fun y hy => hnodes y (List.mem_cons_of_mem _ hy)) hnext (by omega), findPath, findPath,
        List.zip_cons_cons, List.find?_cons_of_neg (by simpa using Ne.symm hfound)]

theorem TreeBuilt.paths {base : Nat} {xs : List Nat} {m : Mem} (h : TreeBuilt img d tree base xs m)
    (hnamed : tree.Named) : List.Forall₂ (PathAt m (base + tree.size)) xs tree.paths := by
  obtain ⟨hne, htop, hbuilt, xs₁, xs₂, hxs, hchildren, -, hnil⟩ := h.built
  have hpath := hbuilt.pathStr
  have hroot : fullName none tree.name = pathName [] := by
    rw [hnamed.root]
    rfl
  rw [hroot] at htop hpath
  rw [hxs, hnil, List.append_nil]
  exact List.Forall₂.cons ⟨hne, htop, hbuilt.fullName, hpath⟩ (hchildren.paths rfl hnamed.below)

/-- A list in ascending order is no longer than its bound. -/
theorem length_le_of_sorted {xs : List Nat} {n : Nat} (h : xs.Pairwise (· < ·))
    (hn : ∀ x ∈ xs, x < n) : xs.length ≤ n := by
  have hnodup : xs.Nodup := h.imp fun hlt => Nat.ne_of_lt hlt
  have hsub := (hnodup.subperm fun x hx => List.mem_range.mpr (hn x hx)).length_le
  rwa [List.length_range] at hsub

/-- **Decoding undoes encoding.**  Unless an allocation is refused, the nodes are the tree that was
encoded, in preorder, and a search finds the first of them that has the path. -/
theorem unflatten_decodes {off : List UInt8 → Nat} (h : d.Encodes off tree) (hnamed : tree.Named)
    (hs : Loaded img d s) (hsize : tree.size ≤ 0xfffff000) :
    ∃ u, __fwkUnflattenDeviceTree img alloc d.base img.allNodes s = .ok ((), u) ∧
      (u.refused = s.refused → ∃ root xs, TreeIs u.bytes img.allNodes tree root xs ∧
        ∀ path, 0 ∉ path →
          fwkOfFindNodeByPath img path u = .ok (findPath path xs tree.paths, u)) := by
  have hholds := h.holds hnamed
  obtain ⟨u, hrun, hfixed, hu⟩ := unflatten_run alloc hholds hs hsize
  refine ⟨u, hrun, fun hsame => ?_⟩
  rcases hu with ⟨hlt, -⟩ | ⟨-, hloaded, base, xs, hheap, hpos, hroom, hbuilt, -⟩
  · omega
  · have hblock : (⟨base, alignUp 4 tree.size + 4⟩ : Block) ∈ u.heap := by
      rw [hheap]
      exact List.mem_cons_self
    have hle := le_alignUp tree.size
    have hlive : u.Live base (base + tree.size - base) :=
      (Ram.Live.of_heap hblock).mono (Nat.le_refl base) (by dsimp only; omega)
    have hlen : xs.length ≤ 0xfffff000 := length_le_of_sorted hbuilt.sorted fun x hx => by
      have hx' := hbuilt.nodes x hx
      omega
    obtain ⟨last, hchain, hlast⟩ := hbuilt.chain
    refine ⟨base, xs, hbuilt.treeIs hholds hnamed, fun path hpath => ?_⟩
    rw [fwkOfFindNodeByPath, RamM.bind_ok (loadWord_run (Ram.Live.of_fixed hloaded.allNodes))]
    exact findNodeLoop_run hpath hlive (fun x hx => (hbuilt.nodes x hx).1) (hbuilt.paths hnamed)
      hchain hlast (by unfold walkRounds; omega)

/-- The root and its child, with memory for them. -/
theorem unflatten_decodes_child :
    ∃ u, __fwkUnflattenDeviceTree exampleImage bumpMemory exampleBlob.base exampleImage.allNodes
        (exampleRam exampleBlob) = .ok ((), u) ∧
      (u.refused = (exampleRam exampleBlob).refused → ∃ root xs,
        TreeIs u.bytes exampleImage.allNodes exampleTree root xs ∧
        ∀ path, 0 ∉ path → fwkOfFindNodeByPath exampleImage path u =
          .ok (findPath path xs exampleTree.paths, u)) :=
  unflatten_decodes exampleEncodes exampleNamed (loaded_exampleRam _ _ _ (by decide)) (by decide)

end HeavenFox.Platform
