/-
# HeavenFox.Common.TrieTree -- the trie of `trie_tree.c`

A map from names to links.  Every node has a pointer to an array of 95 branches, one for
each printable character, that is allocated when the first branch is needed and released
when the last one is gone; the root is embedded in the tree.

Nodes and arrays live in two typed heaps under common addresses.  A name is the list of its
character codes, without the final zero.
-/
import HeavenFox.Common.ErrorTypes
import HeavenFox.Logic.LinkedTrie

namespace HeavenFox.Common

open HeavenFox.Logic

/-! ## Characters -/

/-- `MAX_TRIE_CHAR`, the `size` of the tree. -/
abbrev maxTrieChar : Nat := 95

/-- What `get_trie_node_branch` returns: `-1` at the end of the string, `-2` for a character that
cannot be printed, else the place of the character. -/
inductive TrieOffset where
  | stringEnd
  | stringErr
  | branch (offset : Fin maxTrieChar)
  deriving DecidableEq, Repr

/-- `get_trie_node_branch`. -/
def getTrieNodeBranch (ch : Nat) : TrieOffset :=
  if ch = 0 then .stringEnd
  else if h : 32 ≤ ch ∧ ch ≤ 126 then .branch ⟨ch - 32, by unfold maxTrieChar; omega⟩
  else .stringErr

/-! ## Nodes -/

/-- A `struct trie_node *`: the one in the tree, or an allocated one. -/
inductive TriePtr where
  | sgrtNode
  | node (ptr : ObjPtr)
  deriving DecidableEq, Repr

/-- A `struct trie_node`. -/
structure TrieNode where
  sprtParent : Option TriePtr
  sprtBranches : Option ObjPtr
  sprtLink : Option ObjPtr
  deriving DecidableEq, Repr

/-- An array of branches. -/
abbrev TrieBranches := Fin maxTrieChar → Option TriePtr

/-- The nodes, the arrays, the `depth` of the links, and how many allocations have failed. -/
structure TrieTree where
  node : TriePtr → Option TrieNode
  branches : ObjPtr → Option TrieBranches
  depth : ObjPtr → Nat
  refused : Nat

/-- `DECLARE_TRIE_TREE`, without branches or with an array of them that is empty. -/
def TrieTree.start (branch : Option ObjPtr) : TrieTree where
  node := Function.update (fun _ => none) .sgrtNode (some ⟨none, branch, none⟩)
  branches := fun ptr => if branch = some ptr then some fun _ => none else none
  depth := fun _ => 0
  refused := 0

def TrieTree.set (s : TrieTree) (n : TriePtr) (node : Option TrieNode) : TrieTree :=
  { s with node := Function.update s.node n node }

def TrieTree.setBranches (s : TrieTree) (a : ObjPtr) (branches : Option TrieBranches) : TrieTree :=
  { s with branches := Function.update s.branches a branches }

/-- `alloc` of the tree; `alloc` is what it is ready to give, which is never an address where
something is allocated. -/
def TrieTree.alloc (s : TrieTree) (alloc : Option ObjPtr) : Option ObjPtr :=
  alloc.filter fun ptr => (s.node (.node ptr)).isNone && (s.branches ptr).isNone

def TrieTree.refuse (s : TrieTree) : TrieTree := { s with refused := s.refused + 1 }

/-- `find_trie_node` finds no node, an error, or a node. -/
inductive TrieFound where
  | null
  | err
  | node (sprtNode : TriePtr)
  deriving DecidableEq, Repr

/-- The loop of `find_trie_node`. -/
def findTrieLoop (s : TrieTree) : List Nat → TriePtr → Except Stop TrieFound
  | [], n => .ok (.node n)
  | ch :: str, n =>
    match getTrieNodeBranch ch with
    | .stringEnd => .ok (.node n)
    | .stringErr => .ok .err
    | .branch offset =>
      match s.node n with
      | none => .error .fault
      | some node =>
        match node.sprtBranches with
        | none => .ok .null
        | some a =>
          match s.branches a with
          | none => .error .fault
          | some branches =>
            match branches offset with
            | none => .ok .null
            | some m => findTrieLoop s str m

/-- `find_trie_node`. -/
def findTrieNode (s : TrieTree) (name : List Nat) : Except Stop TrieFound := do
  match ← findTrieLoop s name .sgrtNode with
  | .null => pure .null
  | .err => pure .err
  | .node n =>
    match s.node n with
    | none => .error .fault
    | some node => pure (if node.sprtLink.isSome then .node n else .null)

/-- `trie_tree_look_up`. -/
def trieTreeLookUp (s : TrieTree) (name : List Nat) : Except Stop (Option ObjPtr) := do
  match ← findTrieNode s name with
  | .null | .err => pure none
  | .node n =>
    match s.node n with
    | none => .error .fault
    | some node => pure node.sprtLink

/-- `create_trie_branch` for a node without branches, if it needs them; no array when the memory
does not suffice. -/
def createTrieBranch (s : TrieTree) (n : TriePtr) (node : TrieNode)
    (allocs : List (Option ObjPtr)) : Option ObjPtr × List (Option ObjPtr) × TrieTree :=
  match node.sprtBranches with
  | some a => (some a, allocs, s)
  | none =>
    match s.alloc allocs.head?.join with
    | none => (none, allocs.tail, s.refuse)
    | some a =>
      (some a, allocs.tail,
        (s.setBranches a (some fun _ => none)).set n (some { node with sprtBranches := some a }))

/-- `allocate_trie_node`. -/
def allocateTrieNode (s : TrieTree) (sprtPar : TriePtr) (alloc : Option ObjPtr) :
    Option TriePtr × TrieTree :=
  match s.alloc alloc with
  | none => (none, s.refuse)
  | some ptr => (some (.node ptr), s.set (.node ptr) (some ⟨some sprtPar, none, none⟩))

/-- The loop of `trie_node_add`, with what the allocator gives one after another; no node when it
returns for lack of memory. -/
def trieAddLoop (sprtLink : ObjPtr) :
    List Nat → Nat → TriePtr → List (Option ObjPtr) → TrieTree →
      Except Stop (Option TriePtr × TrieTree)
  | [], _, n, _, s => .ok (some n, s)
  | ch :: str, i, n, allocs, s =>
    match getTrieNodeBranch ch with
    | .stringEnd | .stringErr =>
      match s.node n with
      | none => .error .fault
      | some node =>
        match createTrieBranch s n node allocs with
        | (none, _, s) => .ok (none, s)
        -- the offset is not looked at, and the branch that is read is outside the array
        | (some _, _, _) => .error .fault
    | .branch offset =>
      match s.node n with
      | none => .error .fault
      | some node =>
        match createTrieBranch s n node allocs with
        | (none, _, s) => .ok (none, s)
        | (some a, allocs, s) =>
          match s.branches a with
          | none => .error .fault
          | some branches =>
            match branches offset with
            | some m =>
              trieAddLoop sprtLink str (i + 1) m allocs
                { s with depth := Function.update s.depth sprtLink i }
            | none =>
              match allocateTrieNode s n allocs.head?.join with
              | (none, s) => .ok (none, s)
              | (some m, s) =>
                let s := s.setBranches a (some (Function.update branches offset (some m)))
                trieAddLoop sprtLink str (i + 1) m allocs.tail
                  { s with depth := Function.update s.depth sprtLink i }

/-- `trie_node_add`. -/
def trieNodeAdd (s : TrieTree) (name : List Nat) (sprtLink : Option ObjPtr)
    (allocs : List (Option ObjPtr)) : Except Stop TrieTree :=
  match sprtLink with
  | none => .ok s
  | some link => do
    match ← findTrieNode s name with
    | .node _ | .err => pure s
    | .null =>
      match ← trieAddLoop link name 0 .sgrtNode allocs s with
      | (none, s) => pure s
      | (some n, s) =>
        match s.node n with
        | none => .error .fault
        | some node => pure (s.set n (some { node with sprtLink := some link }))

/-- `__del_trie_node`.  A node that is called for itself and has an array of branches is left as it
is. -/
def delTrieNode : Nat → TrieTree → Option TriePtr → Option TriePtr → Except Stop TrieTree
  | 0, _, _, _ => .error .spins
  | _ + 1, s, none, _ => .ok s
  | rounds + 1, s, some n, sprtChild =>
    match s.node n with
    | none => .error .fault
    | some node =>
      let rest (s : TrieTree) : Except Stop TrieTree :=
        if node.sprtLink.isSome then .ok s
        else do
          let s ← delTrieNode rounds s node.sprtParent (some n)
          if n ≠ .sgrtNode then pure (s.set n none) else pure s
      match node.sprtBranches with
      | none => rest s
      | some a =>
        if sprtChild.isNone then .ok s
        else
          match s.branches a with
          | none => .error .fault
          | some branches =>
            let (branches, out) := dropChild sprtChild (List.finRange maxTrieChar) branches 0
            let s := s.setBranches a (some branches)
            if out then .ok s
            else rest ((s.setBranches a none).set n (some { node with sprtBranches := none }))

/-- The loop of `trie_node_del`. -/
def trieDelLoop (s : TrieTree) : List Nat → Option TriePtr → Except Stop (Option TriePtr)
  | [], o => .ok o
  | _ :: _, none => .ok none
  | ch :: str, some n =>
    match s.node n with
    | none => .error .fault
    | some node =>
      match node.sprtBranches with
      | none => .ok none
      | some a =>
        match getTrieNodeBranch ch with
        | .stringErr => .ok none
        | .stringEnd => .error .fault
        | .branch offset =>
          match s.branches a with
          | none => .error .fault
          | some branches => trieDelLoop s str (branches offset)

/-- `trie_node_del`. -/
def trieNodeDel (s : TrieTree) (name : List Nat) : Except Stop TrieTree := do
  match ← trieDelLoop s name (some .sgrtNode) with
  | none => pure s
  | some n =>
    match s.node n with
    | none => .error .fault
    | some node =>
      if node.sprtLink.isNone ∨ n = .sgrtNode then pure s
      else delTrieNode walkRounds (s.set n (some { node with sprtLink := none })) (some n) none

end HeavenFox.Common
