/-
# HeavenFox.Platform.OfArrays -- properties that are arrays of numbers

`fwk_of_property_read_u8_array_index`, its `u16` and its `u32` copy some of the elements of a
property, from one index on.  The three are one function of the width of an element; the size that
they are given becomes the index at which they stop, at most the number of elements that are
whole.  `array_reads` says what is returned and what is written, for each of the widths.
-/
import HeavenFox.Platform.OfStrings

namespace HeavenFox.Platform

open HeavenFox.Logic HeavenFox.Common

/-! ## Elements -/

/-- The number that bytes are, the highest byte first. -/
def beValue (bytes : List UInt8) : Nat := bytes.foldl (fun value byte => value * 2 ^ 8 + byte.toNat) 0

/-- `FDT_TO_ARCH_ENDIAN16` and `FDT_TO_ARCH_ENDIAN32`: the element of `width` bytes at `ptr`, which
has to be inside the value. -/
def OfProperty.loadBe (prop : OfProperty) (width ptr : Nat) : Except Stop Nat :=
  if prop.value ≤ ptr ∧ ptr + width ≤ prop.value + prop.bytes.length then
    .ok (beValue ((prop.bytes.drop (ptr - prop.value)).take width))
  else .error .fault

/-- The loop of the three functions, over elements of `1 << shift` bytes. -/
def readElems (prop : OfProperty) (shift : Nat) : Nat → Nat → Except Stop (List Nat)
  | 0, _ => .ok []
  | count + 1, i => do
    let value ← prop.loadBe (1 <<< shift) (add32 prop.value (i <<< shift))
    let values ← readElems prop shift count (i + 1)
    pure (value :: values)

/-- The three functions: what they return and what they write to `ptr_value`. -/
def fwkOfPropertyReadArrayIndex (shift : Nat) (t : DeviceTree) (sprtNode : Option ObjPtr)
    (ptrName : List UInt8) (index size : Nat) : Except Stop (Int × List Nat) :=
  match (fwkOfFindProperty t sprtNode ptrName).1 with
  | none => .ok (-erFault, [])
  | some prop =>
    let lenth := prop.bytes.length >>> shift
    if lenth ≤ index ∨ size = 0 then .ok (-erFault, [])
    else do
      -- no further than the elements that are there
      let size := if lenth ≤ add32 index size then lenth else add32 index size
      let values ← readElems prop shift (size - index) index
      pure (erNormal, values)

/-- `fwk_of_property_read_u8_array_index`. -/
def fwkOfPropertyReadU8ArrayIndex : DeviceTree → Option ObjPtr → List UInt8 → Nat → Nat →
    Except Stop (Int × List Nat) :=
  fwkOfPropertyReadArrayIndex 0

/-- `fwk_of_property_read_u16_array_index`. -/
def fwkOfPropertyReadU16ArrayIndex : DeviceTree → Option ObjPtr → List UInt8 → Nat → Nat →
    Except Stop (Int × List Nat) :=
  fwkOfPropertyReadArrayIndex 1

/-! ## Words are elements of four bytes -/

variable {t : DeviceTree} {sprtNode : Option ObjPtr} {ptrName : List UInt8} {prop : OfProperty}

theorem exists_four {bytes : List UInt8} (h : 4 ≤ bytes.length) :
    ∃ a b c d rest, bytes = a :: b :: c :: d :: rest := by
  rcases bytes with _ | ⟨a, _ | ⟨b, _ | ⟨c, _ | ⟨d, rest⟩⟩⟩⟩
  · simp at h
  · simp at h
  · simp at h
  · simp at h
  · exact ⟨a, b, c, d, rest, rfl⟩

theorem loadBe_four (prop : OfProperty) (ptr : Nat) : prop.loadBe 4 ptr = prop.load ptr := by
  rw [OfProperty.loadBe, OfProperty.load]
  by_cases hlow : prop.value ≤ ptr
  · obtain ⟨i, rfl⟩ := Nat.exists_eq_add_of_le hlow
    rw [if_pos hlow, Nat.add_sub_cancel_left]
    by_cases hend : prop.value + i + 4 ≤ prop.value + prop.bytes.length
    · have hlen : 4 ≤ (prop.bytes.drop i).length := by
        rw [List.length_drop]
        omega
      obtain ⟨a, b, c, d, rest, hbytes⟩ := exists_four hlen
      rw [if_pos ⟨hlow, hend⟩, hbytes]
      simp only [beWords, List.take_succ_cons, List.take_zero, beValue, List.foldl_cons,
        List.foldl_nil, Except.ok.injEq]
      omega
    · have hshort : beWords (prop.bytes.drop i) = [] := by
        apply beWords_nil
        rw [List.length_drop]
        omega
      rw [if_neg fun h => hend h.2, hshort]
  · rw [if_neg hlow, if_neg fun h => hlow h.1]

theorem readElems_two (prop : OfProperty) (count i : Nat) :
    readElems prop 2 count i = readWords prop count i := by
  induction count generalizing i with
  | zero => rfl
  | succ count ih =>
    have hshift : i <<< 2 = 4 * i := by rw [Nat.shiftLeft_eq, Nat.mul_comm]
    have hwidth : 1 <<< 2 = 4 := rfl
    rw [readElems, readWords, hwidth, hshift, loadBe_four, ih]

/-- `fwk_of_property_read_u32_array_index` is the third of them. -/
theorem fwkOfPropertyReadU32ArrayIndex_eq :
    fwkOfPropertyReadU32ArrayIndex = fwkOfPropertyReadArrayIndex 2 := by
  funext t sprtNode ptrName index size
  cases hfind : (fwkOfFindProperty t sprtNode ptrName).1 with
  | none => simp only [fwkOfPropertyReadU32ArrayIndex, fwkOfPropertyReadArrayIndex, hfind]
  | some prop =>
    simp only [fwkOfPropertyReadU32ArrayIndex, fwkOfPropertyReadArrayIndex, hfind, readElems_two]

/-! ## What is read -/

/-- The element at a place, of so many bytes. -/
def OfProperty.elem (prop : OfProperty) (width i : Nat) : Nat :=
  beValue ((prop.bytes.drop (i * width)).take width)

/-- Elements that are whole are read. -/
theorem readElems_ok (prop : OfProperty) (shift : Nat) {count i : Nat}
    (hin : i + count ≤ prop.bytes.length / 2 ^ shift) :
    readElems prop shift count i =
      .ok ((List.range' i count).map (prop.elem (2 ^ shift))) := by
  have hplace := prop.place
  induction count generalizing i with
  | zero => rfl
  | succ count ih =>
    have hend : (i + 1) * 2 ^ shift ≤ prop.bytes.length := by
      rw [← Nat.le_div_iff_mul_le (Nat.two_pow_pos shift)]
      omega
    rw [Nat.succ_mul] at hend
    have hpos := Nat.two_pow_pos shift
    have hptr : add32 prop.value (i <<< shift) = prop.value + i * 2 ^ shift := by
      rw [Nat.shiftLeft_eq, add32_of_lt (by omega)]
    have hload : prop.loadBe (2 ^ shift) (prop.value + i * 2 ^ shift) =
        .ok (prop.elem (2 ^ shift) i) := by
      rw [OfProperty.loadBe, if_pos ⟨by omega, by omega⟩, Nat.add_sub_cancel_left,
        OfProperty.elem]
    rw [readElems, hptr, Nat.one_shiftLeft, hload, List.range'_succ, List.map_cons]
    simp only [bind, Except.bind, ih (i := i + 1) (by omega), pure, Except.pure]

/-- **Elements are read** from a property that has some behind the index. -/
theorem fwkOfPropertyReadArrayIndex_eq (shift : Nat) (hprop : t.prop sprtNode ptrName = some prop)
    {index size : Nat} (hwrap : index + size < 2 ^ 32) :
    fwkOfPropertyReadArrayIndex shift t sprtNode ptrName index size =
      .ok (if index < prop.bytes.length / 2 ^ shift ∧ 0 < size then
        (erNormal, (List.range' index (min size (prop.bytes.length / 2 ^ shift - index))).map
          (prop.elem (2 ^ shift)))
      else (-erFault, [])) := by
  have hfind : (fwkOfFindProperty t sprtNode ptrName).1 = some prop := hprop
  simp only [fwkOfPropertyReadArrayIndex, hfind, Nat.shiftRight_eq_div_pow, add32_of_lt hwrap]
  generalize hlenth : prop.bytes.length / 2 ^ shift = lenth
  by_cases hgo : index < lenth ∧ 0 < size
  · have hcount : (if lenth ≤ index + size then lenth else index + size) - index =
        min size (lenth - index) := by
      split <;> omega
    rw [if_neg (by omega), if_pos hgo, hcount, readElems_ok prop shift (by omega)]
    rfl
  · rw [if_pos (by omega), if_neg hgo]

/-- The call copies what it is asked for: it succeeds if there is an element at the index and any is
asked for, copies as many as there are then, in order, and none otherwise. -/
def ReadsElems (prop : OfProperty) (width index size : Nat)
    (result : Except Stop (Int × List Nat)) : Prop :=
  ∃ retval values, result = .ok (retval, values) ∧
    (retval = erNormal ↔ index < prop.bytes.length / width ∧ 0 < size) ∧
    (retval = erNormal → values.length = min size (prop.bytes.length / width - index) ∧
      ∀ j v, values[j]? = some v → v = beValue ((prop.bytes.drop ((index + j) * width)).take width)) ∧
    (retval ≠ erNormal → values = [])

/-- **Arrays are read** element by element, whatever their width and the length of the value. -/
theorem array_reads (hprop : t.prop sprtNode ptrName = some prop) {index size : Nat}
    (hwrap : index + size < 2 ^ 32) :
    ReadsElems prop 1 index size (fwkOfPropertyReadU8ArrayIndex t sprtNode ptrName index size) ∧
      ReadsElems prop 2 index size
        (fwkOfPropertyReadU16ArrayIndex t sprtNode ptrName index size) ∧
      ReadsElems prop 4 index size
        (fwkOfPropertyReadU32ArrayIndex t sprtNode ptrName index size) := by
  have hread : ∀ shift, ReadsElems prop (2 ^ shift) index size
      (fwkOfPropertyReadArrayIndex shift t sprtNode ptrName index size) := by
    intro shift
    rw [fwkOfPropertyReadArrayIndex_eq shift hprop hwrap]
    by_cases hgo : index < prop.bytes.length / 2 ^ shift ∧ 0 < size
    · rw [if_pos hgo]
      refine ⟨_, _, rfl, iff_of_true rfl hgo, fun _ => ⟨by simp, fun j v hv => ?_⟩,
        fun hne => absurd rfl hne⟩
      rw [List.getElem?_map, Option.map_eq_some_iff] at hv
      obtain ⟨i, hi, rfl⟩ := hv
      obtain ⟨hj, rfl⟩ := List.getElem?_eq_some_iff.mp hi
      rw [List.getElem_range', Nat.one_mul, OfProperty.elem]
    · rw [if_neg hgo]
      exact ⟨_, _, rfl, iff_of_false (by decide) hgo, fun heq => absurd heq (by decide),
        fun _ => rfl⟩
  rw [fwkOfPropertyReadU32ArrayIndex_eq]
  exact ⟨hread 0, hread 1, hread 2⟩

/-- A property of five bytes, one more than two elements of two. -/
def fiveBytesProp : OfProperty where
  name := cstring "reg"
  value := 0x2000
  bytes := [1, 2, 3, 4, 5]
  place := by decide
  short := by decide

/-- Of five bytes the fifth is an element only where elements are bytes. -/
theorem array_reads_five :
    ReadsElems fiveBytesProp 2 1 4 (fwkOfPropertyReadU16ArrayIndex (listTree fiveBytesProp)
        (some ⟨0x63000, by decide⟩) (cstring "reg") 1 4) ∧
      fwkOfPropertyReadU16ArrayIndex (listTree fiveBytesProp) (some ⟨0x63000, by decide⟩)
        (cstring "reg") 1 4 = .ok (erNormal, [0x304]) :=
  ⟨(array_reads (listTree_prop fiveBytesProp) (by decide)).2.1, by decide⟩

end HeavenFox.Platform
