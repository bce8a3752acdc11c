/-
# HeavenFox.Platform.OfTree -- trees, and blobs that hold one

A tree is kept in the first-child, next-sibling form: a forest is empty, or a
node with its properties, its children and the forest of its later siblings.
NOP tags may stand between any two tokens; they are part of the tree here, since
the blob that holds it has them.

`Fdt.Holds` says that a blob holds a tree, whatever its version: it walks over
the structure block in the order of the tokens.  For a version from 0x10 on the
tokens do not depend on where they stand, and `structBlock` lists their bytes.
-/
import HeavenFox.Platform.Of

namespace HeavenFox.Platform

open HeavenFox.Logic HeavenFox.Common

/-! ## Trees -/

/-- What stands in a node before its children. -/
inductive OfItem where
  | nop
  | prop (name value : List UInt8)
  deriving DecidableEq, Repr

/-- Nodes with one parent, in their order; `nops` tags stand behind the end of the first of them. -/
inductive OfForest where
  | nil
  | node (name : List UInt8) (items : List OfItem) (children : OfForest) (nops : Nat)
      (siblings : OfForest)
  deriving DecidableEq, Repr

/-- The root of a tree. -/
structure OfTree where
  name : List UInt8
  items : List OfItem
  children : OfForest
  nops : Nat
  deriving DecidableEq, Repr

/-- A tree is a forest of one. -/
def OfTree.forest (t : OfTree) : OfForest := .node t.name t.items t.children t.nops .nil

/-- The properties of a node, name and value. -/
def ofProps : List OfItem → List (List UInt8 × List UInt8)
  | [] => []
  | .nop :: items => ofProps items
  | .prop name value :: items => (name, value) :: ofProps items

/-- A property named `name` is among them. -/
def ofNamed (items : List OfItem) : Bool := (ofProps items).any fun p => p.1 = cstring "name"

/-! ## Names -/

/-- What is behind the last slash. -/
def lastComponent (path : List UInt8) : List UInt8 :=
  (path.reverse.takeWhile fun c => c ≠ slash).reverse

/-- What is before the last `@`, or everything when there is none. -/
def beforeUnit (name : List UInt8) : List UInt8 :=
  if atSign ∈ name then ((name.reverse.dropWhile fun c => c ≠ atSign).drop 1).reverse else name

/-- The name that is made for a node which has none: the last component of its path, without the
unit. -/
def unitName (path : List UInt8) : List UInt8 := beforeUnit (lastComponent path)

/-- What a node has from its parent: the path name of the parent, and whether the parent has one
itself. -/
structure OfParent where
  path : List UInt8
  above : Bool

/-- What the path of the parent gives. -/
def parentPath (parent : Option OfParent) : List UInt8 :=
  parent.elim [] fun p => if p.above then p.path else []

/-- The path name of a node.  A name that begins with a slash is a path already; the path of the
root, which would give a second slash, is left out. -/
def fullName (parent : Option OfParent) (name : List UInt8) : List UInt8 :=
  if name.head? = some slash then name
  else parentPath parent ++ slash :: name

/-- The bytes that are reserved for the path name. -/
def lenthNeed (parent : Option OfParent) (name : List UInt8) : Nat :=
  if name.head? = some slash then name.length + 1
  else parent.elim 2 fun p => name.length + 2 + p.path.length

/-- What the children of a node have from it. -/
def asParent (parent : Option OfParent) (name : List UInt8) : OfParent :=
  ⟨fullName parent name, parent.isSome⟩

/-! ## Alignment -/

/-- Up to the next multiple of `k`. -/
def alignUp (k x : Nat) : Nat := (x + (k - 1)) / k * k

theorem le_alignUp (x : Nat) : x ≤ alignUp 4 x := by
  unfold alignUp
  omega

theorem alignUp_lt (x : Nat) : alignUp 4 x < x + 4 := by
  unfold alignUp
  omega

theorem alignUp_mod (x : Nat) : alignUp 4 x % 4 = 0 := by
  unfold alignUp
  omega

theorem alignUp_of_mod {x : Nat} (h : x % 4 = 0) : alignUp 4 x = x := by
  unfold alignUp
  omega

theorem alignUp_add {b : Nat} (h : b % 4 = 0) (x : Nat) : alignUp 4 (b + x) = b + alignUp 4 x := by
  unfold alignUp
  omega

theorem mrtAlign_four {x : Nat} (h : x + 3 < 2 ^ 32) : mrtAlign x 4 = alignUp 4 x := by
  have hnum : mrtAlign x 4 = mrtNumAlign4 x := rfl
  rw [hnum, mrtNumAlign4_eq, add32_of_lt h, alignUp]

theorem mrtAlign_eight {x : Nat} (h : x + 7 < 2 ^ 32) : mrtAlign x 8 = alignUp 8 x := by
  rw [mrtAlign, add32_of_lt h, and_not32_seven h, alignUp]

/-! ## The memory of a tree -/

/-- The memory behind the properties, `mem` being what is taken before them. -/
def itemsMem : Nat → List OfItem → Nat
  | mem, [] => mem
  | mem, .nop :: items => itemsMem mem items
  | mem, .prop _ _ :: items => itemsMem (alignUp 4 mem + propSize) items

/-- The memory behind the name that is made for a node which has none. -/
def nameMem (path : List UInt8) (named : Bool) (mem : Nat) : Nat :=
  if named then mem else alignUp 4 mem + (propSize + ((unitName path).length + 1))

/-- The memory behind a node with its properties. -/
def nodeMem (parent : Option OfParent) (mem : Nat) (name : List UInt8) (items : List OfItem) : Nat :=
  nameMem (fullName parent name) (ofNamed items)
    (itemsMem (alignUp 4 mem + (nodeSize + lenthNeed parent name)) items)

/-- The memory behind a forest. -/
def forestMem : Option OfParent → Nat → OfForest → Nat
  | _, mem, .nil => mem
  | parent, mem, .node name items children _ siblings =>
    forestMem parent
      (forestMem (some (asParent parent name)) (nodeMem parent mem name items) children) siblings

/-- The memory a tree takes. -/
def OfTree.size (t : OfTree) : Nat := forestMem none 0 t.forest

theorem le_itemsMem (items : List OfItem) (mem : Nat) : mem ≤ itemsMem mem items := by
  induction items generalizing mem with
  | nil => exact Nat.le_refl mem
  | cons item items ih =>
    cases item with
    | nop => exact ih mem
    | prop name value =>
      have hstep := ih (alignUp 4 mem + propSize)
      have hle := le_alignUp mem
      rw [itemsMem]
      omega

theorem le_nameMem (path : List UInt8) (named : Bool) (mem : Nat) : mem ≤ nameMem path named mem := by
  have hle := le_alignUp mem
  unfold nameMem
  split <;> omega

theorem nodeMem_ge (parent : Option OfParent) (mem : Nat) (name : List UInt8)
    (items : List OfItem) :
    alignUp 4 mem + (nodeSize + lenthNeed parent name) ≤ nodeMem parent mem name items :=
  Nat.le_trans (le_itemsMem items _) (le_nameMem _ _ _)

theorem le_forestMem (f : OfForest) (parent : Option OfParent) (mem : Nat) :
    mem ≤ forestMem parent mem f := by
  induction f generalizing parent mem with
  | nil => exact Nat.le_refl mem
  | node name items children nops siblings ihc ihs =>
    have hnode := nodeMem_ge parent mem name items
    have hchildren := ihc (some (asParent parent name)) (nodeMem parent mem name items)
    have hsiblings := ihs parent
      (forestMem (some (asParent parent name)) (nodeMem parent mem name items) children)
    have hle := le_alignUp mem
    rw [forestMem]
    omega

/-- A node stands behind what is taken before it, with room for its names. -/
theorem nodeMem_room (parent : Option OfParent) (mem : Nat) (name : List UInt8)
    (items : List OfItem) :
    mem ≤ alignUp 4 mem ∧
      alignUp 4 mem + (52 + lenthNeed parent name) ≤ nodeMem parent mem name items :=
  ⟨le_alignUp mem, nodeMem_ge parent mem name items⟩

/-- The children stand behind the node. -/
theorem childMem_room (par : OfParent) (mem : Nat) (name : List UInt8) (items : List OfItem)
    (children : OfForest) :
    mem ≤ alignUp 4 mem ∧
      alignUp 4 mem + (52 + lenthNeed (some par) name) ≤ nodeMem (some par) mem name items ∧
      nodeMem (some par) mem name items ≤
        forestMem (some (asParent (some par) name)) (nodeMem (some par) mem name items) children :=
  ⟨le_alignUp mem, nodeMem_ge (some par) mem name items, le_forestMem children _ _⟩

section Shift

/- A tree that is built elsewhere, at an aligned address, takes as much memory as at 0. -/

variable {b : Nat} (hb : b % 4 = 0)

include hb

theorem itemsMem_add (items : List OfItem) (mem : Nat) :
    itemsMem (b + mem) items = b + itemsMem mem items := by
  induction items generalizing mem with
  | nil => rfl
  | cons item items ih =>
    cases item with
    | nop => exact ih mem
    | prop name value => rw [itemsMem, itemsMem, alignUp_add hb, Nat.add_assoc, ih]

theorem nodeMem_add (parent : Option OfParent) (mem : Nat) (name : List UInt8)
    (items : List OfItem) :
    nodeMem parent (b + mem) name items = b + nodeMem parent mem name items := by
  rw [nodeMem, nodeMem, alignUp_add hb, Nat.add_assoc, itemsMem_add hb, nameMem, nameMem]
  split
  · rfl
  · rw [alignUp_add hb, Nat.add_assoc]

theorem forestMem_add (f : OfForest) (parent : Option OfParent) (mem : Nat) :
    forestMem parent (b + mem) f = b + forestMem parent mem f := by
  induction f generalizing parent mem with
  | nil => rfl
  | node name items children nops siblings ihc ihs =>
    rw [forestMem, forestMem, nodeMem_add hb, ihc, ihs]

end Shift

/-! ## Where the tokens of a blob stand -/

/-- A memory, and the blob in it. -/
structure Fdt where
  bytes : Mem
  base : Nat
  len : Nat

namespace Fdt

variable (d : Fdt)

def offDtStruct : Nat := loadBe32 d.bytes (d.base + fdtOffDtStruct)
def offDtStrings : Nat := loadBe32 d.bytes (d.base + fdtOffDtStrings)
def version : Nat := loadBe32 d.bytes (d.base + fdtVersion)

/-- Where the value of a property of `len` bytes stands, its three words being before `p`. -/
def valueAt (len p : Nat) : Nat :=
  if d.version < 0x10 then alignUp (if 8 ≤ len then 8 else 4) p else p

/-- Behind the item at `p`. -/
def itemEnd (p : Nat) : OfItem → Nat
  | .nop => p + 4
  | .prop _ value => alignUp 4 (d.valueAt value.length (p + 12) + value.length)

def itemsEnd : Nat → List OfItem → Nat
  | p, [] => p
  | p, item :: items => itemsEnd (d.itemEnd p item) items

/-- Where the items of the node at `p` begin. -/
def itemsAt (p : Nat) (name : List UInt8) : Nat := alignUp 4 (p + 4 + (name.length + 1))

/-- Behind the tokens of a forest. -/
def forestEnd : Nat → OfForest → Nat
  | p, .nil => p
  | p, .node name items children nops siblings =>
    forestEnd (forestEnd (d.itemsEnd (itemsAt p name) items) children + 4 + 4 * nops) siblings

/-! ## Blobs that hold a tree -/

/-- The name of the property at `p`. -/
def nameAt (p : Nat) : Nat := d.base + d.offDtStrings + loadBe32 d.bytes (p + 8)

/-- The item stands at `p`. -/
def HoldsItem (p : Nat) : OfItem → Prop
  | .nop => loadBe32 d.bytes p = fdtNodeNop
  | .prop name value =>
    loadBe32 d.bytes p = fdtNodeProp ∧ loadBe32 d.bytes (p + 4) = value.length ∧
      CStrAt d.bytes (d.nameAt p) name ∧ d.nameAt p + (name.length + 1) ≤ d.base + d.len ∧
      BytesAt d.bytes (d.valueAt value.length (p + 12)) value

def HoldsItems : Nat → List OfItem → Prop
  | _, [] => True
  | p, item :: items => d.HoldsItem p item ∧ HoldsItems (d.itemEnd p item) items

/-- `n` NOP tags stand at `p`. -/
def HoldsNops : Nat → Nat → Prop
  | _, 0 => True
  | p, n + 1 => loadBe32 d.bytes p = fdtNodeNop ∧ HoldsNops (p + 4) n

def HoldsForest : Nat → OfForest → Prop
  | _, .nil => True
  | p, .node name items children nops siblings =>
    loadBe32 d.bytes p = fdtNodeStart ∧ CStrAt d.bytes (p + 4) name ∧
      d.HoldsItems (itemsAt p name) items ∧
      HoldsForest (d.itemsEnd (itemsAt p name) items) children ∧
      loadBe32 d.bytes (d.forestEnd (d.itemsEnd (itemsAt p name) items) children) = fdtNodeEnd ∧
      d.HoldsNops (d.forestEnd (d.itemsEnd (itemsAt p name) items) children + 4) nops ∧
      HoldsForest (d.forestEnd (d.itemsEnd (itemsAt p name) items) children + 4 + 4 * nops) siblings

/-- The blob is well formed and holds the tree `t`: it lies below the addresses that stand for
errors, its header is complete, and its structure block is the tokens of the tree, up to the tag
that ends it.  The name of the root is empty, or a path of its own. -/
structure Holds (t : OfTree) : Prop where
  place : 0 < d.base ∧ d.base + d.len ≤ 0xfffff000
  header : 40 ≤ d.len
  magic : loadBe32 d.bytes (d.base + fdtMagic) = fdtMagicVerify
  root : t.name = [] ∨ t.name.head? = some slash
  tokens : d.HoldsForest (d.base + d.offDtStruct) t.forest
  allEnd : loadBe32 d.bytes (d.forestEnd (d.base + d.offDtStruct) t.forest) = fdtAllNodeEnd
  inside : d.forestEnd (d.base + d.offDtStruct) t.forest + 4 ≤ d.base + d.len

end Fdt

/-! ## The bytes of the structure block -/

/-- Zeros up to the next multiple of 4. -/
def padded (l : List UInt8) : List UInt8 := l ++ List.replicate (alignUp 4 l.length - l.length) 0

/-- The bytes of an item, `off` being where a name stands in the strings block. -/
def itemBytes (off : List UInt8 → Nat) : OfItem → List UInt8
  | .nop => beBytes fdtNodeNop
  | .prop name value =>
    beBytes fdtNodeProp ++ beBytes value.length ++ beBytes (off name) ++ padded value

def itemsBytes (off : List UInt8 → Nat) : List OfItem → List UInt8
  | [] => []
  | item :: items => itemBytes off item ++ itemsBytes off items

def nopsBytes : Nat → List UInt8
  | 0 => []
  | n + 1 => beBytes fdtNodeNop ++ nopsBytes n

def forestBytes (off : List UInt8 → Nat) : OfForest → List UInt8
  | .nil => []
  | .node name items children nops siblings =>
    beBytes fdtNodeStart ++ padded (name ++ [0]) ++ itemsBytes off items ++
      forestBytes off children ++ beBytes fdtNodeEnd ++ nopsBytes nops ++ forestBytes off siblings

/-- The structure block of a tree. -/
def structBlock (off : List UInt8 → Nat) (t : OfTree) : List UInt8 :=
  forestBytes off t.forest ++ beBytes fdtAllNodeEnd

end HeavenFox.Platform
