/-
# HeavenFox.Common.RadixTree -- the radix tree of `radix_tree.c`

A map from 32-bit numbers to links.  A number is cut into digits of three bits, the
lowest first, as many as its highest set bit needs, and the digits lead from the root,
which is embedded in the tree, to the node that has the link.

The nodes live in a typed heap: a node that is not allocated cannot be read, and the calls
stop with a fault if they try.  Allocation may fail at any node.

`radixPath_inj` says that different numbers have different paths, although 32 is no
multiple of three and one path may be the beginning of another.
-/
import HeavenFox.Common.ErrorTypes
import HeavenFox.Logic.LinkedTrie

namespace HeavenFox.Common

open HeavenFox.Logic

/-! ## Digits -/

/-- `MAX_BRANCH`. -/
def maxBranch : Nat := 3

/-- The loop of `radix_tree_numlen`: how many of the bits below `i` are zero, from the top. -/
def zeroBits (number : Nat) : Nat → Nat
  | 0 => 0
  | i + 1 => if number.testBit i then 0 else zeroBits number i + 1

/-- `isPower2`. -/
def isPower2 (n : Nat) : Bool := decide (n ≠ 0) && decide (n &&& (n - 1) = 0)

/-- `radix_tree_numlen`. -/
def radixTreeNumlen (number : Nat) : Nat :=
  let count := 32 - zeroBits number 32
  if count ≤ maxBranch then maxBranch
  else if isPower2 maxBranch then (count + (maxBranch - 1)) / maxBranch * maxBranch
  else
    let result := count % maxBranch
    if result ≠ 0 then count + maxBranch - result else count

/-- `radix_tree_advance`. -/
def radixTreeAdvance (number : Nat) : Nat := number >>> maxBranch

/-- `get_radix_node_branch`. -/
def getRadixNodeBranch (number : Nat) : Fin 8 :=
  ⟨number &&& 7, Nat.lt_of_le_of_lt Nat.and_le_right (by decide)⟩

/-- The rounds of a loop `for (i = 0; i < lenth; i += MAX_BRANCH)`. -/
def radixRounds (number : Nat) : Nat := (radixTreeNumlen number + maxBranch - 1) / maxBranch

/-! ## Nodes -/

/-- A `struct radix_node *`: the one in the tree, or an allocated one. -/
inductive RadixPtr where
  | sgrtNode
  | node (ptr : ObjPtr)
  deriving DecidableEq, Repr

/-- A `struct radix_node`. -/
structure RadixNode where
  sprtParent : Option RadixPtr
  sgrtBranches : Fin 8 → Option RadixPtr
  sprtLink : Option ObjPtr

/-- The nodes, the `depth` of the links, and how many allocations have failed. -/
structure RadixTree where
  node : RadixPtr → Option RadixNode
  depth : ObjPtr → Nat
  refused : Nat

/-- `DECLARE_RADIX_TREE`. -/
def RadixTree.start : RadixTree where
  node := Function.update (fun _ => none) .sgrtNode (some ⟨none, fun _ => none, none⟩)
  depth := fun _ => 0
  refused := 0

/-- Write a node. -/
def RadixTree.set (s : RadixTree) (n : RadixPtr) (node : Option RadixNode) : RadixTree :=
  { s with node := Function.update s.node n node }

/-- `allocate_radix_node`; `alloc` is what the allocator of the tree is ready to give, which is
never a node that is allocated. -/
def allocateRadixNode (s : RadixTree) (sprtPar : RadixPtr) (alloc : Option ObjPtr) :
    Option RadixPtr × RadixTree :=
  match alloc with
  | none => (none, { s with refused := s.refused + 1 })
  | some ptr =>
    if (s.node (.node ptr)).isSome then (none, { s with refused := s.refused + 1 })
    else (some (.node ptr), s.set (.node ptr) (some ⟨some sprtPar, fun _ => none, none⟩))

/-- The loop of `find_radix_node`, and that of `radix_tree_del`: go down by `rounds` digits of
`value`, or until there is no node. -/
def radixDescend (s : RadixTree) : Nat → Nat → Option RadixPtr → Except Stop (Option RadixPtr)
  | _, _, none => .ok none
  | 0, _, some n => .ok (some n)
  | rounds + 1, value, some n =>
    match s.node n with
    | none => .error .fault
    | some node =>
      radixDescend s rounds (radixTreeAdvance value) (node.sgrtBranches (getRadixNodeBranch value))

/-- `find_radix_node`. -/
def findRadixNode (s : RadixTree) (number : Nat) : Except Stop (Option RadixPtr) := do
  match ← radixDescend s (radixRounds number) number (some .sgrtNode) with
  | none => pure none
  | some n =>
    match s.node n with
    | none => .error .fault
    | some node => pure (if node.sprtLink.isSome then some n else none)

/-- `radix_tree_look_up`. -/
def radixTreeLookUp (s : RadixTree) (number : Nat) : Except Stop (Option ObjPtr) := do
  match ← findRadixNode s number with
  | none => pure none
  | some n =>
    match s.node n with
    | none => .error .fault
    | some node => pure node.sprtLink

/-- The loop of `radix_tree_add`, with what the allocator gives one after another; no node when it
returns for lack of memory. -/
def radixAddLoop (sprtLink : ObjPtr) :
    Nat → Nat → Nat → RadixPtr → List (Option ObjPtr) → RadixTree →
      Except Stop (Option RadixPtr × RadixTree)
  | 0, _, _, n, _, s => .ok (some n, s)
  | rounds + 1, i, value, n, allocs, s =>
    match s.node n with
    | none => .error .fault
    | some node =>
      let offset := getRadixNodeBranch value
      match node.sgrtBranches offset with
      | some m =>
        radixAddLoop sprtLink rounds (i + maxBranch) (radixTreeAdvance value) m allocs
          { s with depth := Function.update s.depth sprtLink i }
      | none =>
        match allocateRadixNode s n allocs.head?.join with
        | (none, s) => .ok (none, s)
        | (some m, s) =>
          let s := s.set n (some { node with
            sgrtBranches := Function.update node.sgrtBranches offset (some m) })
          radixAddLoop sprtLink rounds (i + maxBranch) (radixTreeAdvance value) m allocs.tail
            { s with depth := Function.update s.depth sprtLink i }

/-- `radix_tree_add`. -/
def radixTreeAdd (s : RadixTree) (number : Nat) (sprtLink : Option ObjPtr)
    (allocs : List (Option ObjPtr)) : Except Stop RadixTree :=
  match sprtLink with
  | none => .ok s
  | some link => do
    match ← findRadixNode s number with
    | some _ => pure s
    | none =>
      match ← radixAddLoop link (radixRounds number) 0 number .sgrtNode allocs s with
      | (none, s) => pure s
      | (some n, s) =>
        if n ≠ .sgrtNode then
          match s.node n with
          | none => .error .fault
          | some node => pure (s.set n (some { node with sprtLink := some link }))
        else pure s

/-- `__del_radix_node`. -/
def delRadixNode : Nat → RadixTree → Option RadixPtr → Option RadixPtr → Except Stop RadixTree
  | 0, _, _, _ => .error .spins
  | _ + 1, s, none, _ => .ok s
  | rounds + 1, s, some n, sprtChild =>
    match s.node n with
    | none => .error .fault
    | some node =>
      let (sgrtBranches, out) := dropChild sprtChild (List.finRange 8) node.sgrtBranches 0
      let s := s.set n (some { node with sgrtBranches })
      if out then .ok s
      else if node.sprtLink.isSome then .ok s
      else do
        let s ← delRadixNode rounds s node.sprtParent (some n)
        if n ≠ .sgrtNode then pure (s.set n none) else pure s

/-- `radix_tree_del`. -/
def radixTreeDel (s : RadixTree) (number : Nat) : Except Stop RadixTree := do
  match ← radixDescend s (radixRounds number) number (some .sgrtNode) with
  | none => pure s
  | some n =>
    match s.node n with
    | none => .error .fault
    | some node =>
      if node.sprtLink.isNone ∨ n = .sgrtNode then pure s
      else delRadixNode walkRounds (s.set n (some { node with sprtLink := none })) (some n) none

/-! ## Different numbers have different paths -/

/-- The digits by which a loop of so many rounds goes. -/
def radixDigits : Nat → Nat → List (Fin 8)
  | 0, _ => []
  | rounds + 1, value => getRadixNodeBranch value :: radixDigits rounds (radixTreeAdvance value)

/-- The digits of a number. -/
def radixPath (number : Nat) : List (Fin 8) := radixDigits (radixRounds number) number

theorem radixDigits_length (rounds value : Nat) : (radixDigits rounds value).length = rounds := by
  induction rounds generalizing value with
  | zero => rfl
  | succ rounds ih => rw [radixDigits, List.length_cons, ih]

theorem getRadixNodeBranch_val (value : Nat) : (getRadixNodeBranch value).val = value % 8 :=
  Nat.and_two_pow_sub_one_eq_mod value 3

theorem radixTreeAdvance_eq (value : Nat) : radixTreeAdvance value = value / 8 :=
  Nat.shiftRight_eq_div_pow value 3

/-- Digits determine the number as far as they go. -/
theorem radixDigits_inj {rounds v w : Nat} (h : radixDigits rounds v = radixDigits rounds w) :
    v % 8 ^ rounds = w % 8 ^ rounds := by
  induction rounds generalizing v w with
  | zero => rw [pow_zero, Nat.mod_one, Nat.mod_one]
  | succ rounds ih =>
    simp only [radixDigits, List.cons.injEq] at h
    have hlow : v % 8 = w % 8 := by
      rw [← getRadixNodeBranch_val, ← getRadixNodeBranch_val, h.1]
    have hhigh : v / 8 % 8 ^ rounds = w / 8 % 8 ^ rounds := by
      rw [← radixTreeAdvance_eq, ← radixTreeAdvance_eq]
      exact ih h.2
    rw [pow_succ, Nat.mul_comm, Nat.mod_mul, Nat.mod_mul, hlow, hhigh]

/-- The leading zeros are above the number. -/
theorem lt_of_zeroBits {number i : Nat} (h : number < 2 ^ i) :
    zeroBits number i ≤ i ∧ number < 2 ^ (i - zeroBits number i) := by
  induction i with
  | zero => exact ⟨le_refl _, h⟩
  | succ i ih =>
    rw [zeroBits]
    by_cases hbit : number.testBit i = true
    · rw [if_pos hbit]
      exact ⟨Nat.zero_le _, h⟩
    · have hlt : number < 2 ^ i := by
        have hdiv : number / 2 ^ i < 2 := by
          rw [Nat.div_lt_iff_lt_mul (Nat.two_pow_pos i), Nat.mul_comm, ← pow_succ]
          exact h
        rw [Nat.testBit_eq_decide_div_mod_eq, decide_eq_true_eq] at hbit
        rw [← Nat.div_eq_zero_iff_lt (Nat.two_pow_pos i)]
        generalize number / 2 ^ i = bit at hdiv hbit
        omega
      obtain ⟨hle, hnum⟩ := ih hlt
      rw [if_neg hbit, Nat.add_sub_add_right]
      exact ⟨by omega, hnum⟩

/-- A loop has enough rounds for all bits of the number, and at least one. -/
theorem radixRounds_spec {number : Nat} (h : number < 2 ^ 32) :
    1 ≤ radixRounds number ∧ radixRounds number ≤ 11 ∧ number < 8 ^ radixRounds number := by
  obtain ⟨hle, hnum⟩ := lt_of_zeroBits h
  have hlen : 32 - zeroBits number 32 ≤ 3 * radixRounds number ∧ 1 ≤ radixRounds number ∧
      radixRounds number ≤ 11 := by
    have hpower : isPower2 maxBranch = false := by decide
    simp only [radixRounds, radixTreeNumlen, hpower]
    unfold maxBranch
    generalize zeroBits number 32 = zeros at hle
    split <;> [skip; (rw [if_neg (by simp)]; split)] <;> omega
  refine ⟨hlen.2.1, hlen.2.2, ?_⟩
  calc number < 2 ^ (32 - zeroBits number 32) := hnum
    _ ≤ 2 ^ (3 * radixRounds number) := Nat.pow_le_pow_right (by decide) hlen.1
    _ = 8 ^ radixRounds number := by rw [pow_mul]; rfl

/-- **Different numbers have different paths**, although one path may begin with another. -/
theorem radixPath_inj {a b : Nat} (ha : a < 2 ^ 32) (hb : b < 2 ^ 32)
    (h : radixPath a = radixPath b) : a = b := by
  have hrounds : radixRounds a = radixRounds b := by
    have := congrArg List.length h
    rwa [radixPath, radixPath, radixDigits_length, radixDigits_length] at this
  rw [radixPath, radixPath, hrounds] at h
  have hmod := radixDigits_inj h
  have ha' := (radixRounds_spec ha).2.2
  have hb' := (radixRounds_spec hb).2.2
  rw [hrounds] at ha'
  rwa [Nat.mod_eq_of_lt ha', Nat.mod_eq_of_lt hb'] at hmod

/-- The path of 8 extends that of 0. -/
example : radixPath 0 = [0] ∧ radixPath 8 = [0, 1] := by decide

theorem radixPath_ne_nil {number : Nat} (h : number < 2 ^ 32) : radixPath number ≠ [] := by
  intro hnil
  have hlen := congrArg List.length hnil
  rw [radixPath, radixDigits_length, List.length_nil] at hlen
  have := (radixRounds_spec h).1
  omega

end HeavenFox.Common
