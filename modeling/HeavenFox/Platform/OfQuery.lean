/-
# HeavenFox.Platform.OfQuery -- asking an unflattened tree

The nodes of a device tree after it has been unflattened, and the functions of `fwk_of.c` and
`fwk_of_prop.c` that find nodes and read properties.  Nodes are typed objects here; the value
of a property is still the bytes that it has in the blob, at their address, and every read has
to be inside them.

There is one lemma for each way to read (`fwkOfPropertyReadU32Index_eq`), in terms of the words
of a value; the callers never look at bytes.
-/
import HeavenFox.Common.ErrorTypes
import HeavenFox.Logic.Bytes

namespace HeavenFox.Platform

open HeavenFox.Logic HeavenFox.Common

/-! ## The tree -/

/-- A `struct fwk_of_property`, with the bytes at `value`; `length` is how many they are, a signed
word. -/
structure OfProperty where
  name : List UInt8
  value : Nat
  bytes : List UInt8
  place : 0 < value ∧ value + bytes.length ≤ 0xfffff000
  short : bytes.length < 2 ^ 31
  deriving DecidableEq

/-- A cell is a short value. -/
theorem beBytes_short (n : Nat) : (beBytes n).length < 2 ^ 31 := by
  rw [beBytes_length]
  decide

/-- A `struct fwk_device_node`, as far as the functions below read it. -/
structure DeviceNode where
  fullName : List UInt8
  phandle : Nat
  parent : Option ObjPtr
  properties : List OfProperty

/-- The nodes, in the order of `sprt_fwk_of_allNodes` and their `allnext`; a node comes after its
parent. -/
structure DeviceTree where
  allNodes : List ObjPtr
  node : ObjPtr → DeviceNode
  nodup : allNodes.Nodup
  above : ∀ n ∈ allNodes, ∀ p ∈ (node n).parent, allNodes.idxOf p < allNodes.idxOf n

theorem DeviceTree.parent_mem (t : DeviceTree) {n p : ObjPtr} (hn : n ∈ t.allNodes)
    (hp : (t.node n).parent = some p) : p ∈ t.allNodes :=
  List.idxOf_lt_length_iff.mp ((t.above n hn p hp).trans_le List.idxOf_le_length)

/-! ## Finding nodes -/

/-- `fwk_of_find_node_by_path`. -/
def DeviceTree.fwkOfFindNodeByPath (t : DeviceTree) (ptrPath : List UInt8) : Option ObjPtr :=
  t.allNodes.find? fun n => (t.node n).fullName = ptrPath

/-- The nodes from `sprt_from` on, or all of them. -/
def DeviceTree.nodesFrom (t : DeviceTree) : Option ObjPtr → List ObjPtr
  | none => t.allNodes
  | some n => t.allNodes.dropWhile (· ≠ n)

/-- `fwk_of_find_node_by_phandle`. -/
def fwkOfFindNodeByPhandle (t : DeviceTree) (sprtFrom : Option ObjPtr) (phandle : Nat) :
    Option ObjPtr :=
  (t.nodesFrom sprtFrom).find? fun n => (t.node n).phandle = phandle

variable {t : DeviceTree} {n : ObjPtr} {sprtNode sprtFrom : Option ObjPtr}

theorem mem_of_findNodeByPhandle {phandle : Nat}
    (h : fwkOfFindNodeByPhandle t sprtFrom phandle = some n) : n ∈ t.allNodes := by
  have hmem := List.mem_of_find?_eq_some h
  cases sprtFrom with
  | none => exact hmem
  | some m => exact (List.dropWhile_sublist _).subset hmem

/-- The first node that has the phandle. -/
def DeviceTree.Names (t : DeviceTree) (phandle : Nat) (n : ObjPtr) : Prop :=
  ∃ before after, t.allNodes = before ++ n :: after ∧ (t.node n).phandle = phandle ∧
    ∀ m ∈ before, (t.node m).phandle ≠ phandle

/-- **`fwk_of_find_node_by_phandle`**, from the beginning. -/
theorem fwkOfFindNodeByPhandle_iff {phandle : Nat} :
    fwkOfFindNodeByPhandle t none phandle = some n ↔ t.Names phandle n := by
  rw [fwkOfFindNodeByPhandle, DeviceTree.nodesFrom, List.find?_eq_some_iff_append,
    DeviceTree.Names]
  constructor
  · rintro ⟨hn, before, after, heq, hbefore⟩
    exact ⟨before, after, heq, by simpa using hn, fun m hm => by simpa using hbefore m hm⟩
  · rintro ⟨before, after, heq, hn, hbefore⟩
    exact ⟨by simpa using hn, before, after, heq, fun m hm => by simpa using hbefore m hm⟩

/-! ## The words of a value -/

/-- Big-endian words, as many as there are whole ones. -/
def beWords : List UInt8 → List Nat
  | a :: b :: c :: d :: rest =>
    (a.toNat * 2 ^ 24 + b.toNat * 2 ^ 16 + c.toNat * 2 ^ 8 + d.toNat) :: beWords rest
  | _ => []

/-- `FDT_TO_ARCH_PTR32`: the word at `ptr`, which has to be inside the value. -/
def OfProperty.load (prop : OfProperty) (ptr : Nat) : Except Stop Nat :=
  if prop.value ≤ ptr then
    match beWords (prop.bytes.drop (ptr - prop.value)) with
    | [] => .error .fault
    | w :: _ => .ok w
  else .error .fault

/-- The words of the value. -/
abbrev OfProperty.words (prop : OfProperty) : List Nat := beWords prop.bytes

theorem beWords_length (bytes : List UInt8) : (beWords bytes).length = bytes.length / 4 := by
  fun_induction beWords bytes with
  | case1 a b c d rest ih =>
    simp only [List.length_cons, ih]
    omega
  | case2 bytes hshort =>
    have hlen : bytes.length < 4 := by
      match bytes, hshort with
      | [], _ | [_], _ | [_, _], _ | [_, _, _], _ => simp
      | a :: b :: c :: d :: rest, hshort => exact absurd rfl (hshort a b c d rest)
    rw [List.length_nil, Nat.div_eq_of_lt hlen]

theorem beWords_lt {bytes : List UInt8} {w : Nat} (h : w ∈ beWords bytes) : w < 2 ^ 32 := by
  fun_induction beWords bytes with
  | case1 a b c d rest ih =>
    rcases List.mem_cons.mp h with rfl | hrest
    · have := a.toNat_lt
      have := b.toNat_lt
      have := c.toNat_lt
      have := d.toNat_lt
      omega
    · exact ih hrest
  | case2 bytes hshort => cases h

theorem beWords_nil {bytes : List UInt8} (h : bytes.length < 4) : beWords bytes = [] := by
  rw [← List.length_eq_zero_iff, beWords_length, Nat.div_eq_of_lt h]

/-- The words are inside the value. -/
theorem OfProperty.words_place (prop : OfProperty) :
    0 < prop.value ∧ prop.value + 4 * prop.words.length ≤ 0xfffff000 := by
  have hlen : prop.words.length = prop.bytes.length / 4 := beWords_length prop.bytes
  have hplace := prop.place
  omega

/-- The words behind the first `i`. -/
theorem beWords_drop (bytes : List UInt8) (i : Nat) :
    beWords (bytes.drop (4 * i)) = (beWords bytes).drop i := by
  induction i generalizing bytes with
  | zero => rfl
  | succ i ih =>
    match bytes with
    | a :: b :: c :: d :: rest => exact ih rest
    | [] => simp [beWords]
    | [_] | [_, _] | [_, _, _] =>
      rw [List.drop_eq_nil_of_le (by simp only [List.length_cons, List.length_nil]; omega),
        beWords_nil (by simp), beWords_nil (by simp), List.drop_nil]

/-- A word is read inside the value, and nowhere else. -/
theorem OfProperty.load_eq (prop : OfProperty) (i : Nat) :
    prop.load (prop.value + 4 * i) = (prop.words[i]?).elim (.error .fault) .ok := by
  rw [OfProperty.load, if_pos (Nat.le_add_right _ _), Nat.add_sub_cancel_left, beWords_drop]
  cases hw : prop.words.drop i with
  | nil => simp [List.getElem?_eq_none (List.drop_eq_nil_iff.mp hw)]
  | cons w rest =>
    have hget : prop.words[i]? = some w := by
      rw [← List.head?_drop, hw]
      rfl
    rw [hget]
    rfl

theorem OfProperty.load_below (prop : OfProperty) {ptr : Nat} (h : ptr < prop.value) :
    prop.load ptr = .error .fault :=
  if_neg (by omega)

/-! ## Finding properties -/

/-- `fwk_of_find_property`, and what it leaves in `*ptr_lenth`. -/
def fwkOfFindProperty (t : DeviceTree) (sprtNode : Option ObjPtr) (ptrName : List UInt8) :
    Option OfProperty × Nat :=
  let sprtProp := (sprtNode.elim [] fun n => (t.node n).properties).find? fun prop =>
    ptrName = prop.name
  (sprtProp, sprtProp.elim 0 fun prop => prop.bytes.length)

/-- `fwk_of_get_property`: the pointer to the value is kept with the property. -/
def fwkOfGetProperty (t : DeviceTree) (sprtNode : Option ObjPtr) (ptrName : List UInt8) :
    Option OfProperty × Nat :=
  fwkOfFindProperty t sprtNode ptrName

/-- The property that is found. -/
abbrev DeviceTree.prop (t : DeviceTree) (sprtNode : Option ObjPtr) (ptrName : List UInt8) :
    Option OfProperty :=
  (fwkOfFindProperty t sprtNode ptrName).1

theorem fwkOfFindProperty_length (t : DeviceTree) (sprtNode : Option ObjPtr)
    (ptrName : List UInt8) :
    (fwkOfFindProperty t sprtNode ptrName).2 =
      (t.prop sprtNode ptrName).elim 0 fun prop => prop.bytes.length := rfl

theorem fwkOfFindProperty_some {prop : OfProperty} {ptrName : List UInt8}
    (h : t.prop sprtNode ptrName = some prop) :
    fwkOfFindProperty t sprtNode ptrName = (some prop, prop.bytes.length) := by
  refine Prod.ext h ?_
  rw [fwkOfFindProperty_length, h]
  rfl

theorem fwkOfFindProperty_none {ptrName : List UInt8} (h : t.prop sprtNode ptrName = none) :
    fwkOfFindProperty t sprtNode ptrName = (none, 0) := by
  refine Prod.ext h ?_
  rw [fwkOfFindProperty_length, h]
  rfl

/-! ## Reading words -/

/-- The loop of `fwk_of_property_read_u32_array_index`. -/
def readWords (prop : OfProperty) : Nat → Nat → Except Stop (List Nat)
  | 0, _ => .ok []
  | count + 1, i => do
    let value ← prop.load (add32 prop.value (4 * i))
    let values ← readWords prop count (i + 1)
    pure (value :: values)

/-- `fwk_of_property_read_u32_array_index`: what it returns and what it writes to `ptr_value`. -/
def fwkOfPropertyReadU32ArrayIndex (t : DeviceTree) (sprtNode : Option ObjPtr)
    (ptrName : List UInt8) (index size : Nat) : Except Stop (Int × List Nat) :=
  match (fwkOfFindProperty t sprtNode ptrName).1 with
  | none => .ok (-erFault, [])
  | some prop =>
    let lenth := prop.bytes.length >>> 2
    if lenth ≤ index ∨ size = 0 then .ok (-erFault, [])
    else do
      -- no further than the words that are there
      let size := if lenth ≤ add32 index size then lenth else add32 index size
      let values ← readWords prop (size - index) index
      pure (erNormal, values)

/-- `fwk_of_property_read_u32_index`. -/
def fwkOfPropertyReadU32Index (t : DeviceTree) (sprtNode : Option ObjPtr) (ptrName : List UInt8)
    (index : Nat) : Except Stop (Int × List Nat) :=
  fwkOfPropertyReadU32ArrayIndex t sprtNode ptrName index 1

/-- `fwk_of_property_read_u32`. -/
def fwkOfPropertyReadU32 (t : DeviceTree) (sprtNode : Option ObjPtr) (ptrName : List UInt8) :
    Except Stop (Int × List Nat) :=
  fwkOfPropertyReadU32ArrayIndex t sprtNode ptrName 0 1

/-- The words from a place on. -/
theorem readWords_eq (prop : OfProperty) {count i : Nat} (hin : i + count ≤ prop.words.length) :
    readWords prop count i = .ok ((prop.words.drop i).take count) := by
  have hplace := prop.words_place
  induction count generalizing i with
  | zero => rfl
  | succ count ih =>
    have hptr : add32 prop.value (4 * i) = prop.value + 4 * i := add32_of_lt (by omega)
    have hlt : i < prop.words.length := by omega
    rw [readWords, hptr, prop.load_eq, List.getElem?_eq_getElem hlt,
      List.drop_eq_getElem_cons hlt, List.take_succ_cons]
    simp only [Option.elim_some, bind, Except.bind, ih (i := i + 1) (by omega), pure, Except.pure]

/-- **Words are read** where there are enough of them. -/
theorem fwkOfPropertyReadU32ArrayIndex_words {prop : OfProperty} {ptrName : List UInt8}
    (hprop : t.prop sprtNode ptrName = some prop) {index size : Nat} (hsize : 0 < size)
    (hin : index + size ≤ prop.words.length) :
    fwkOfPropertyReadU32ArrayIndex t sprtNode ptrName index size =
      .ok (erNormal, (prop.words.drop index).take size) := by
  have hfind : (fwkOfFindProperty t sprtNode ptrName).1 = some prop := hprop
  have hlen : prop.words.length = prop.bytes.length / 4 := beWords_length prop.bytes
  have hshift : prop.bytes.length >>> 2 = prop.bytes.length / 4 := Nat.shiftRight_eq_div_pow _ 2
  have hplace := prop.words_place
  have hadd : add32 index size = index + size := add32_of_lt (by omega)
  have hcount : (if prop.words.length ≤ add32 index size then prop.words.length
      else add32 index size) - index = size := by
    rw [hadd]
    split <;> omega
  rw [fwkOfPropertyReadU32ArrayIndex, hfind]
  simp only [hshift, ← hlen]
  rw [if_neg (by omega), hcount, readWords_eq prop hin]
  rfl

/-- A word of a property. -/
def DeviceTree.cell (t : DeviceTree) (sprtNode : Option ObjPtr) (ptrName : List UInt8)
    (index : Nat) : Option Nat :=
  (t.prop sprtNode ptrName).bind fun prop => prop.words[index]?

/-- **One word is read**, if the property has it. -/
theorem fwkOfPropertyReadU32Index_eq (t : DeviceTree) (sprtNode : Option ObjPtr)
    (ptrName : List UInt8) (index : Nat) :
    fwkOfPropertyReadU32Index t sprtNode ptrName index =
      .ok ((t.cell sprtNode ptrName index).elim (-erFault, []) fun w => (erNormal, [w])) := by
  rw [fwkOfPropertyReadU32Index, fwkOfPropertyReadU32ArrayIndex, DeviceTree.cell, DeviceTree.prop]
  cases (fwkOfFindProperty t sprtNode ptrName).1 with
  | none => rfl
  | some prop =>
    have hlen : prop.words.length = prop.bytes.length / 4 := beWords_length prop.bytes
    have hplace := prop.place
    have hshift : prop.bytes.length >>> 2 = prop.bytes.length / 4 := Nat.shiftRight_eq_div_pow _ 2
    simp only [hshift, ← hlen, Option.bind_some]
    by_cases hindex : prop.words.length ≤ index
    · rw [if_pos (Or.inl hindex), List.getElem?_eq_none hindex]
      rfl
    · -- the words are so few that nothing wraps
      have hadd : add32 index 1 = index + 1 := add32_of_lt (by omega)
      have hptr : add32 prop.value (4 * index) = prop.value + 4 * index := add32_of_lt (by omega)
      have hone : (if prop.words.length ≤ add32 index 1 then prop.words.length
          else add32 index 1) - index = 1 := by
        rw [hadd]
        split <;> omega
      rw [if_neg (by simpa using hindex)]
      simp only [hone, readWords, hptr, prop.load_eq,
        List.getElem?_eq_getElem (Nat.lt_of_not_le hindex), Option.elim_some, bind, Except.bind,
        pure, Except.pure]

theorem fwkOfPropertyReadU32_eq (t : DeviceTree) (sprtNode : Option ObjPtr)
    (ptrName : List UInt8) :
    fwkOfPropertyReadU32 t sprtNode ptrName =
      .ok ((t.cell sprtNode ptrName 0).elim (-erFault, []) fun w => (erNormal, [w])) :=
  fwkOfPropertyReadU32Index_eq t sprtNode ptrName 0

end HeavenFox.Platform
