/-
# HeavenFox.Common.IoStream -- bitmaps of `io_stream.c` and registers of `io_stream.h`

A bitmap is read byte by byte, whatever the type of the array.  There is one lemma for
each call: what the search for a bit returns, when a row of bits is free, and which bits
are written.

A register is a word at an address.  The bits of a mask are set and cleared together, and
a mask that shares no bit with it reads what it read before.
-/
import HeavenFox.Common.ErrorTypes

namespace HeavenFox.Common

open HeavenFox.Logic

/-- The bytes of a bitmap. -/
abbrev Bitmap := Nat → BitVec 8

namespace Bitmap

/-- The bit as the loops test it. -/
def bit (bitmap : Bitmap) (index : Nat) : Bool :=
  decide (bitmap (index / 8) &&& (1#8 <<< (index % 8)) ≠ 0#8)

/-- The bit as the loop of `bitmap_set_nr_bit` writes it. -/
def write (bitmap : Bitmap) (index : Nat) (value : Bool) : Bitmap :=
  Function.update bitmap (index / 8)
    (if value then bitmap (index / 8) ||| (1#8 <<< (index % 8))
    else bitmap (index / 8) &&& ~~~(1#8 <<< (index % 8)))

end Bitmap

/-! ## The calls -/

/-- The loop of `bitmap_find_first_bit`. -/
def bitmapFindLoop (bitmap : Bitmap) (value : Bool) : Nat → Nat → Nat
  | 0, index => index
  | rounds + 1, index =>
    if bitmap.bit index = value then index else bitmapFindLoop bitmap value rounds (index + 1)

/-- `bitmap_find_first_bit`; it returns the place as a signed word. -/
def bitmapFindFirstBit (bitmap : Bitmap) (start totalBits : Nat) (value : Bool) : Int :=
  let index := bitmapFindLoop bitmap value (totalBits - start) start
  if index ≥ totalBits then -1 else asInt32 index

/-- `bitmap_find_nr_bit`. -/
def bitmapFindNrBit (bitmap : Bitmap) (start totalBits nr : Nat) (value : Bool) : Int :=
  let stop := (start + nr) % 2 ^ 32
  if stop ≥ totalBits then -1
  else
    let index := bitmapFindFirstBit bitmap start stop (!value)
    if index < 0 then 0 else index

/-- The loop of `bitmap_set_nr_bit`. -/
def bitmapSetLoop (value : Bool) : Nat → Nat → Bitmap → Bitmap
  | 0, _, bitmap => bitmap
  | rounds + 1, index, bitmap => bitmapSetLoop value rounds (index + 1) (bitmap.write index value)

/-- `bitmap_set_nr_bit`. -/
def bitmapSetNrBit (bitmap : Bitmap) (start totalBits nr : Nat) (value : Bool) : Bitmap :=
  let stop := (start + nr) % 2 ^ 32
  if stop ≥ totalBits then bitmap else bitmapSetLoop value (stop - start) start bitmap

/-- `bitmap_find_first_zero_bit`. -/
def bitmapFindFirstZeroBit (bitmap : Bitmap) (start totalBits : Nat) : Int :=
  bitmapFindFirstBit bitmap start totalBits false

/-- `bitmap_find_nr_zero_bit`. -/
def bitmapFindNrZeroBit (bitmap : Bitmap) (start totalBits nr : Nat) : Int :=
  bitmapFindNrBit bitmap start totalBits nr false

/-- `bitmap_set_nr_bit_zero`. -/
def bitmapSetNrBitZero (bitmap : Bitmap) (start totalBits nr : Nat) : Bitmap :=
  bitmapSetNrBit bitmap start totalBits nr false

/-- `bitmap_set_nr_bit_valid`. -/
def bitmapSetNrBitValid (bitmap : Bitmap) (start totalBits nr : Nat) : Bitmap :=
  bitmapSetNrBit bitmap start totalBits nr true

/-! ## Bits -/

theorem Bitmap.bit_eq (bitmap : Bitmap) (index : Nat) :
    bitmap.bit index = (bitmap (index / 8)).getLsbD (index % 8) := by
  have hlt : index % 8 < 8 := Nat.mod_lt _ (by decide)
  have hmask : (BitVec.twoPow 8 (index % 8)).getLsbD (index % 8) = true := by
    simp [hlt]
  have hne : BitVec.twoPow 8 (index % 8) ≠ 0#8 := by
    intro hzero
    rw [hzero] at hmask
    simp at hmask
  rw [bit, ← BitVec.twoPow_eq, BitVec.and_twoPow]
  cases (bitmap (index / 8)).getLsbD (index % 8) with
  | false => simp
  | true => simpa using hne

/-- Writing a bit changes that bit. -/
theorem Bitmap.bit_write (bitmap : Bitmap) (index : Nat) (value : Bool) (j : Nat) :
    (bitmap.write index value).bit j = if j = index then value else bitmap.bit j := by
  have hlt : index % 8 < 8 := Nat.mod_lt _ (by decide)
  have hlt' : j % 8 < 8 := Nat.mod_lt _ (by decide)
  rw [bit_eq, bit_eq, write, ← BitVec.twoPow_eq]
  by_cases hbyte : j / 8 = index / 8
  · -- in the same byte the bits are told apart by their place
    have hplace : index % 8 = j % 8 ↔ j = index := by omega
    rw [hbyte, Function.update_self]
    cases value with
    | true =>
      rw [if_pos rfl, BitVec.getLsbD_or, BitVec.getLsbD_twoPow]
      by_cases hj : j = index
      · simp [hj, hlt]
      · simp [hj, hplace]
    | false =>
      rw [if_neg Bool.false_ne_true, BitVec.getLsbD_and, BitVec.getLsbD_not,
        BitVec.getLsbD_twoPow]
      by_cases hj : j = index
      · simp [hj, hlt]
      · simp [hj, hplace, hlt']
  · have hj : j ≠ index := by
      rintro rfl
      exact hbyte rfl
    rw [Function.update_of_ne hbyte, if_neg hj]

/-! ## What the calls do -/

variable {bitmap : Bitmap} {start totalBits nr : Nat} {value : Bool}

theorem bitmapFindLoop_spec (bitmap : Bitmap) (value : Bool) (rounds start : Nat) :
    start ≤ bitmapFindLoop bitmap value rounds start ∧
      bitmapFindLoop bitmap value rounds start ≤ start + rounds ∧
      (∀ j, start ≤ j → j < bitmapFindLoop bitmap value rounds start → bitmap.bit j ≠ value) ∧
      (bitmapFindLoop bitmap value rounds start < start + rounds →
        bitmap.bit (bitmapFindLoop bitmap value rounds start) = value) := by
  induction rounds generalizing start with
  | zero =>
    refine ⟨le_refl _, le_refl _, fun j hj hlt => ?_, fun hlt => ?_⟩
    · exact absurd hlt (Nat.not_lt.mpr hj)
    · exact absurd hlt (Nat.lt_irrefl _)
  | succ rounds ih =>
    rw [bitmapFindLoop]
    by_cases hbit : bitmap.bit start = value
    · rw [if_pos hbit]
      exact ⟨le_refl _, by omega, fun j hj hlt => absurd hlt (Nat.not_lt.mpr hj), fun _ => hbit⟩
    · rw [if_neg hbit]
      obtain ⟨hlow, hhigh, hbefore, hat⟩ := ih (start + 1)
      refine ⟨by omega, by omega, fun j hj hlt => ?_, fun hlt => hat (by omega)⟩
      rcases Nat.eq_or_lt_of_le hj with rfl | hj'
      · exact hbit
      · exact hbefore j hj' hlt

/-- **`bitmap_find_first_bit`** returns the first place of the value, or -1 if it has none. -/
theorem bitmapFindFirstBit_cases (bitmap : Bitmap) (start totalBits : Nat) (value : Bool) :
    (bitmapFindFirstBit bitmap start totalBits value = -1 ∧
        ∀ j, start ≤ j → j < totalBits → bitmap.bit j ≠ value) ∨
      ∃ index : Nat, bitmapFindFirstBit bitmap start totalBits value = asInt32 index ∧
        start ≤ index ∧ index < totalBits ∧ bitmap.bit index = value ∧
        ∀ j, start ≤ j → j < index → bitmap.bit j ≠ value := by
  obtain ⟨hlow, hhigh, hbefore, hat⟩ :=
    bitmapFindLoop_spec bitmap value (totalBits - start) start
  rw [bitmapFindFirstBit]
  generalize bitmapFindLoop bitmap value (totalBits - start) start = index at *
  by_cases hend : index ≥ totalBits
  · exact Or.inl ⟨if_pos hend, fun j hj hlt => hbefore j hj (Nat.lt_of_lt_of_le hlt hend)⟩
  · exact Or.inr ⟨index, if_neg hend, hlow, by omega, hat (by omega), hbefore⟩

/-- **`bitmap_find_nr_bit`** for a row that ends below the last bit: 0 if all of it has the value,
else the first place that has not; but 0 as well if that place is no signed word. -/
theorem bitmapFindNrBit_cases (bitmap : Bitmap) (value : Bool) (hend : start + nr < totalBits)
    (htotal : totalBits ≤ 2 ^ 32) :
    (bitmapFindNrBit bitmap start totalBits nr value = 0 ∧
        ∀ j, start ≤ j → j < start + nr → bitmap.bit j = value) ∨
      ∃ index : Nat,
        bitmapFindNrBit bitmap start totalBits nr value =
            (if index < 2 ^ 31 then index else 0 : Nat) ∧
          start ≤ index ∧ index < start + nr ∧ bitmap.bit index = (!value) ∧
          ∀ j, start ≤ j → j < index → bitmap.bit j = value := by
  have hstop : (start + nr) % 2 ^ 32 = start + nr := Nat.mod_eq_of_lt (by omega)
  simp only [bitmapFindNrBit, hstop, if_neg (Nat.not_le.mpr hend)]
  rcases bitmapFindFirstBit_cases bitmap start (start + nr) (!value) with
    ⟨hfind, hnone⟩ | ⟨index, hfind, hlow, hhigh, hbit, hbefore⟩
  · refine Or.inl ⟨by rw [hfind]; rfl, fun j hj hlt => ?_⟩
    simpa using hnone j hj hlt
  · refine Or.inr ⟨index, ?_, hlow, hhigh, hbit, fun j hj hlt => ?_⟩
    · rw [hfind]
      rcases Nat.lt_or_ge index (2 ^ 31) with hword | hsign
      · rw [asInt32_of_lt hword, if_neg (by omega), if_pos hword]
      · rw [if_pos ((asInt32_neg_iff (by omega)).mpr hsign), if_neg (by omega), Nat.cast_zero]
    · simpa using hbefore j hj hlt

theorem bitmapSetLoop_bit (value : Bool) (rounds index : Nat) (bitmap : Bitmap) (j : Nat) :
    (bitmapSetLoop value rounds index bitmap).bit j =
      if index ≤ j ∧ j < index + rounds then value else bitmap.bit j := by
  induction rounds generalizing index bitmap with
  | zero => rw [if_neg (by omega), bitmapSetLoop]
  | succ rounds ih =>
    rw [bitmapSetLoop, ih, Bitmap.bit_write]
    by_cases hj : j = index
    · rw [if_pos hj, if_neg (by omega), if_pos (by omega)]
    · rw [if_neg hj]
      by_cases hin : index + 1 ≤ j ∧ j < index + 1 + rounds
      · rw [if_pos hin, if_pos (by omega)]
      · rw [if_neg hin, if_neg (by omega)]

/-- **`bitmap_set_nr_bit`** for a row that ends below the last bit writes exactly the row. -/
theorem bitmapSetNrBit_bit (hend : start + nr < totalBits) (htotal : totalBits ≤ 2 ^ 32) (j : Nat) :
    (bitmapSetNrBit bitmap start totalBits nr value).bit j =
      if start ≤ j ∧ j < start + nr then value else bitmap.bit j := by
  have hstop : (start + nr) % 2 ^ 32 = start + nr := Nat.mod_eq_of_lt (by omega)
  simp only [bitmapSetNrBit, hstop, if_neg (Nat.not_le.mpr hend)]
  rw [bitmapSetLoop_bit, Nat.add_sub_cancel_left]

/-! ## Registers -/

/-- The registers, by their addresses. -/
abbrev Regs := Nat → BitVec 32

/-- `mrt_setbitl`. -/
def mrtSetbitl (bit : BitVec 32) (addr : Nat) (regs : Regs) : Regs :=
  Function.update regs addr (regs addr ||| bit)

/-- `mrt_clrbitl`. -/
def mrtClrbitl (bit : BitVec 32) (addr : Nat) (regs : Regs) : Regs :=
  Function.update regs addr (regs addr &&& ~~~bit)

/-- `mrt_getbitl`. -/
def mrtGetbitl (bit : BitVec 32) (addr : Nat) (regs : Regs) : BitVec 32 := regs addr &&& bit

section Registers

variable {bit mask : BitVec 32} {addr place : Nat} {regs : Regs}

theorem getbitl_setbitl_self : mrtGetbitl bit addr (mrtSetbitl bit addr regs) = bit := by
  rw [mrtGetbitl, mrtSetbitl, Function.update_self]
  apply BitVec.eq_of_getLsbD_eq
  intro k _
  rw [BitVec.getLsbD_and, BitVec.getLsbD_or]
  cases bit.getLsbD k <;> simp

theorem getbitl_clrbitl_self : mrtGetbitl bit addr (mrtClrbitl bit addr regs) = 0#32 := by
  rw [mrtGetbitl, mrtClrbitl, Function.update_self, BitVec.and_assoc, BitVec.not_and_self]
  exact BitVec.and_zero

/-- Setting bits is not seen through a mask that has none of them. -/
theorem getbitl_setbitl_of_apart (h : addr = place → mask &&& bit = 0#32) :
    mrtGetbitl mask place (mrtSetbitl bit addr regs) = mrtGetbitl mask place regs := by
  rw [mrtGetbitl, mrtGetbitl, mrtSetbitl]
  by_cases haddr : addr = place
  · subst haddr
    have hbit : bit &&& mask = 0#32 := by rw [BitVec.and_comm, h rfl]
    rw [Function.update_self, BitVec.and_or_distrib_right, hbit, BitVec.or_zero]
  · rw [Function.update_of_ne (Ne.symm haddr)]

theorem getbitl_clrbitl_of_apart (h : addr = place → mask &&& bit = 0#32) :
    mrtGetbitl mask place (mrtClrbitl bit addr regs) = mrtGetbitl mask place regs := by
  rw [mrtGetbitl, mrtGetbitl, mrtClrbitl]
  by_cases haddr : addr = place
  · subst haddr
    rw [Function.update_self]
    apply BitVec.eq_of_getLsbD_eq
    intro k hk
    -- a bit of the mask is none of those that are cleared
    have hbit : (mask.getLsbD k && bit.getLsbD k) = false := by
      rw [← BitVec.getLsbD_and, h rfl, BitVec.getLsbD_zero]
    simp only [BitVec.getLsbD_and, BitVec.getLsbD_not, hk, decide_true, Bool.true_and]
    cases hmask : mask.getLsbD k with
    | false => simp
    | true =>
      rw [hmask, Bool.true_and] at hbit
      simp [hbit]
  · rw [Function.update_of_ne (Ne.symm haddr)]

end Registers

/-! ## Arrays of registers -/

/-- An array of registers of a device: how many words it has, what a word reads, and what a write to
it does. -/
structure RegWords (σ : Type) where
  size : Nat
  read : σ → Nat → BitVec 32
  write : Nat → BitVec 32 → σ → σ

/-- `mrt_setbit_towords`.  Behind the array are other registers. -/
def mrtSetbitTowords {σ : Type} (integer : Nat) (regs : RegWords σ) (s : σ) : Except Stop σ :=
  let word := integer / 32
  if word < regs.size then
    .ok (regs.write word (regs.read s word ||| BitVec.twoPow 32 (integer % 32)) s)
  else .error .fault

/-- `mrt_getbit_fromwords`. -/
def mrtGetbitFromwords {σ : Type} (integer : Nat) (regs : RegWords σ) (s : σ) :
    Except Stop (BitVec 32) :=
  let word := integer / 32
  if word < regs.size then .ok (regs.read s word &&& BitVec.twoPow 32 (integer % 32))
  else .error .fault

end HeavenFox.Common
