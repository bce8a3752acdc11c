/-
# HeavenFox.Logic.BitField -- fields of a register that is read in words

A register of any width is a natural number, and `bitField n lo len` is the number in its bits
from `lo` up to `lo + len`.  A driver sees such a register as 32-bit words and cuts its fields out
by shifts and masks.  The lemmas here say what a shift with a mask yields, how a field lies in the
word that holds it, and how one that straddles two words is put together (`bitField_split`).
-/
import HeavenFox.Logic.Memory32

namespace HeavenFox.Logic

/-! ## Fields -/

/-- The bits of `n` from `lo` on, `len` of them. -/
def bitField (n lo len : Nat) : Nat := n / 2 ^ lo % 2 ^ len

section Fields

variable {n lo len a b w k : Nat}

theorem bitField_lt (n lo len : Nat) : bitField n lo len < 2 ^ len :=
  Nat.mod_lt _ (Nat.two_pow_pos len)

/-- A field of a field is one of the register. -/
theorem bitField_bitField (h : k + len ≤ w) :
    bitField (bitField n lo w) k len = bitField n (lo + k) len := by
  have hw : 2 ^ w = 2 ^ k * 2 ^ (w - k) := by rw [← Nat.pow_add, Nat.add_sub_cancel' (by omega)]
  show n / 2 ^ lo % 2 ^ w / 2 ^ k % 2 ^ len = n / 2 ^ (lo + k) % 2 ^ len
  rw [hw, Nat.mod_mul_right_div_self, Nat.mod_mod_of_dvd _ (Nat.pow_dvd_pow 2 (by omega)),
    Nat.div_div_eq_div_mul, ← Nat.pow_add]

/-- A field is its lower part and its upper part. -/
theorem bitField_split (n lo a b : Nat) :
    bitField n lo (a + b) = bitField n lo a + 2 ^ a * bitField n (lo + a) b := by
  show n / 2 ^ lo % 2 ^ (a + b) = _
  rw [Nat.pow_add, Nat.mod_mul, Nat.div_div_eq_div_mul, ← Nat.pow_add]
  rfl

/-- The upper part of a field. -/
theorem bitField_div (n lo k len : Nat) :
    bitField n lo (k + len) / 2 ^ k = bitField n (lo + k) len := by
  show n / 2 ^ lo % 2 ^ (k + len) / 2 ^ k = n / 2 ^ (lo + k) % 2 ^ len
  rw [Nat.pow_add, Nat.mod_mul_right_div_self, Nat.div_div_eq_div_mul, ← Nat.pow_add]

/-- Equal to its lower part: the upper part is zero. -/
theorem bitField_eq_lower_iff :
    bitField n lo (a + b) = bitField n lo a ↔ bitField n (lo + a) b = 0 := by
  have hpos : 2 ^ a ≠ 0 := Nat.ne_of_gt (Nat.two_pow_pos a)
  rw [bitField_split, Nat.add_eq_left, Nat.mul_eq_zero]
  exact or_iff_right hpos

end Fields

/-! ## Shifts and masks -/

/-- A mask cuts nothing out of bits that lie above it. -/
theorem mul_two_pow_and_of_lt {x m k : Nat} (h : m < 2 ^ k) : x * 2 ^ k &&& m = 0 := by
  refine Nat.eq_of_testBit_eq fun i => ?_
  rw [Nat.testBit_and, Nat.testBit_mul_two_pow, Nat.zero_testBit]
  rcases Nat.lt_or_ge i k with hi | hi
  · rw [decide_eq_false (Nat.not_le.mpr hi)]
    rfl
  · have hm : m.testBit i = false :=
      Nat.testBit_lt_two_pow (Nat.lt_of_lt_of_le h (Nat.pow_le_pow_right (by decide) hi))
    rw [hm, Bool.and_false]

section Words

variable {w v s mask : UInt32} {n k : Nat}

/-- A shift to the left that loses nothing. -/
theorem toNat_shiftLeft_of_lt (hs : s.toNat < 32) (hfits : w.toNat * 2 ^ s.toNat < 2 ^ 32) :
    (w <<< s).toNat = w.toNat * 2 ^ s.toNat := by
  rw [UInt32.toNat_shiftLeft, Nat.mod_eq_of_lt hs, Nat.shiftLeft_eq]
  exact Nat.mod_eq_of_lt hfits

/-- A shift to the right and a mask of ones. -/
theorem toNat_shiftRight_and (hs : s.toNat < 32) (hmask : mask.toNat = 2 ^ n - 1) :
    ((w >>> s) &&& mask).toNat = bitField w.toNat s.toNat n := by
  rw [UInt32.toNat_and, UInt32.toNat_shiftRight, Nat.mod_eq_of_lt hs, hmask,
    Nat.and_two_pow_sub_one_eq_mod, Nat.shiftRight_eq_div_pow]
  rfl

/-- A mask of ones alone. -/
theorem toNat_and_mask (hmask : mask.toNat = 2 ^ n - 1) :
    (w &&& mask).toNat = bitField w.toNat 0 n := by
  rw [UInt32.toNat_and, hmask, Nat.and_two_pow_sub_one_eq_mod]
  show _ = w.toNat / 2 ^ 0 % _
  rw [Nat.pow_zero, Nat.div_one]

/-- A shift to the left and a mask that is moved with it. -/
theorem toNat_shiftLeft_and (hk : s.toNat = k) (hn : k + n ≤ 32) (hk' : k < 32)
    (hmask : mask.toNat = (2 ^ n - 1) * 2 ^ k) :
    ((w <<< s) &&& mask).toNat = 2 ^ k * bitField w.toNat 0 n := by
  have hlow : w.toNat * 2 ^ k % 2 ^ 32 = w.toNat % 2 ^ (32 - k) * 2 ^ k := by
    have hpow : 2 ^ 32 = 2 ^ (32 - k) * 2 ^ k := by
      rw [← Nat.pow_add, Nat.sub_add_cancel (by omega)]
    rw [hpow, Nat.mul_mod_mul_right]
  have hbits : bitField w.toNat 0 n = w.toNat % 2 ^ n := by
    show w.toNat / 2 ^ 0 % _ = _
    rw [Nat.pow_zero, Nat.div_one]
  rw [UInt32.toNat_and, UInt32.toNat_shiftLeft, Nat.mod_eq_of_lt (by omega : s.toNat < 32), hk,
    Nat.shiftLeft_eq, hlow, hmask, ← Nat.shiftLeft_eq, ← Nat.shiftLeft_eq,
    ← Nat.shiftLeft_and_distrib, Nat.shiftLeft_eq, Nat.and_two_pow_sub_one_eq_mod,
    Nat.mod_mod_of_dvd _ (Nat.pow_dvd_pow 2 (by omega)), hbits, Nat.mul_comm]

/-- A shift to the left beyond the mask. -/
theorem toNat_shiftLeft_and_of_lt (hs : s.toNat < 32) (hmask : mask.toNat < 2 ^ s.toNat) :
    ((w <<< s) &&& mask).toNat = 0 := by
  have hpow : 2 ^ 32 = 2 ^ (32 - s.toNat) * 2 ^ s.toNat := by
    rw [← Nat.pow_add, Nat.sub_add_cancel (by omega)]
  rw [UInt32.toNat_and, UInt32.toNat_shiftLeft, Nat.mod_eq_of_lt hs, Nat.shiftLeft_eq, hpow,
    Nat.mul_mod_mul_right]
  exact mul_two_pow_and_of_lt hmask

/-- Two parts that do not meet. -/
theorem toNat_or_of_lt {x : Nat} (hw : w.toNat = 2 ^ k * x) (hv : v.toNat < 2 ^ k) :
    (w ||| v).toNat = v.toNat + 2 ^ k * x := by
  rw [UInt32.toNat_or, hw, Nat.mul_comm, ← Nat.shiftLeft_eq, ← Nat.shiftLeft_add_eq_or_of_lt hv,
    Nat.add_comm]

/-- One part behind another. -/
theorem toNat_shiftLeft_or (hs : s.toNat = k) (hk : k < 32) (hw : w.toNat * 2 ^ k < 2 ^ 32)
    (hv : v.toNat < 2 ^ k) : ((w <<< s) ||| v).toNat = v.toNat + 2 ^ k * w.toNat := by
  have hshift : (w <<< s).toNat = 2 ^ k * w.toNat := by
    rw [toNat_shiftLeft_of_lt (by omega) (by rw [hs]; exact hw), hs, Nat.mul_comm]
  exact toNat_or_of_lt hshift hv

/-- A byte that is shifted into a word from below. -/
theorem toNat_shiftIn (w : UInt32) (b : UInt8) :
    ((w <<< (8 : UInt32)) ||| b.toUInt32).toNat = (b.toNat + 2 ^ 8 * w.toNat) % 2 ^ 32 := by
  have hb := b.toNat_lt
  have hshift : (w <<< (8 : UInt32)).toNat = 2 ^ 8 * (w.toNat % 2 ^ 24) := by
    rw [UInt32.toNat_shiftLeft]
    show w.toNat <<< 8 % 2 ^ 32 = _
    rw [Nat.shiftLeft_eq]
    omega
  have hbyte : b.toUInt32.toNat < 2 ^ 8 := by
    rw [UInt8.toNat_toUInt32]
    exact hb
  rw [toNat_or_of_lt hshift hbyte, UInt8.toNat_toUInt32]
  omega

/-- The byte that was shifted in is the lowest one. -/
theorem bitField_shiftIn_low {x : Nat} (hx : x < 2 ^ 8) (y : Nat) :
    bitField ((x + 2 ^ 8 * y) % 2 ^ 32) 0 8 = x := by
  rw [bitField, Nat.pow_zero, Nat.div_one]
  omega

/-- The other bytes have moved up by one. -/
theorem bitField_shiftIn_high {x : Nat} (hx : x < 2 ^ 8) (y : Nat) (hk : k + 16 ≤ 32) :
    bitField ((x + 2 ^ 8 * y) % 2 ^ 32) (8 + k) 8 = bitField y k 8 := by
  have hword : (x + 2 ^ 8 * y) % 2 ^ 32 = x + 2 ^ 8 * bitField y 0 24 := by
    rw [bitField, Nat.pow_zero, Nat.div_one]
    omega
  have hdrop : (x + 2 ^ 8 * bitField y 0 24) / 2 ^ (8 + k) = bitField y 0 24 / 2 ^ k := by
    rw [Nat.pow_add, ← Nat.div_div_eq_div_mul, Nat.add_mul_div_left _ _ (by decide),
      Nat.div_eq_of_lt hx, Nat.zero_add]
  rw [hword, bitField, hdrop]
  show bitField (bitField y 0 24) k 8 = _
  rw [bitField_bitField (by omega), Nat.zero_add]

/-- A byte of a word. -/
theorem toNat_byteOf (hs : s.toNat = k) (hk : k < 32) :
    (w >>> s).toUInt8.toUInt32.toNat = bitField w.toNat k 8 := by
  rw [UInt8.toNat_toUInt32, UInt32.toNat_toUInt8, UInt32.toNat_shiftRight, hs, Nat.mod_eq_of_lt hk,
    Nat.shiftRight_eq_div_pow]
  rfl

end Words

/-! ## Words of bytes -/

section Bytes

variable {r g b d : UInt32}

theorem toNat_twoBytes (hr : r.toNat < 2 ^ 8) (hb : b.toNat < 2 ^ 8) :
    ((b <<< (8 : UInt32)) ||| r).toNat = r.toNat + 2 ^ 8 * b.toNat :=
  toNat_shiftLeft_or rfl (by decide) (by omega) hr

theorem toNat_threeBytes (hr : r.toNat < 2 ^ 8) (hg : g.toNat < 2 ^ 8) (hb : b.toNat < 2 ^ 8) :
    ((b <<< (16 : UInt32)) ||| (g <<< (8 : UInt32)) ||| r).toNat =
      r.toNat + 2 ^ 8 * g.toNat + 2 ^ 16 * b.toNat := by
  have hlow := toNat_twoBytes hr hg
  rw [UInt32.or_assoc, toNat_shiftLeft_or (k := 16) rfl (by decide) (by omega) (by omega), hlow]

theorem toNat_fourBytes (hr : r.toNat < 2 ^ 8) (hg : g.toNat < 2 ^ 8) (hb : b.toNat < 2 ^ 8)
    (hd : d.toNat < 2 ^ 8) :
    (((d <<< (24 : UInt32)) ||| (b <<< (16 : UInt32))) ||| (g <<< (8 : UInt32)) ||| r).toNat =
      r.toNat + 2 ^ 8 * g.toNat + 2 ^ 16 * b.toNat + 2 ^ 24 * d.toNat := by
  have hlow := toNat_threeBytes hr hg hb
  have hassoc : (((d <<< (24 : UInt32)) ||| (b <<< (16 : UInt32))) ||| (g <<< (8 : UInt32)) ||| r) =
      (d <<< (24 : UInt32)) ||| ((b <<< (16 : UInt32)) ||| (g <<< (8 : UInt32)) ||| r) := by
    simp only [UInt32.or_assoc]
  rw [hassoc, toNat_shiftLeft_or (k := 24) rfl (by decide) (by omega) (by omega), hlow]

/-- The lowest byte of a word. -/
theorem toNat_lowByte (w : UInt32) : w.toUInt8.toUInt32.toNat = bitField w.toNat 0 8 := by
  rw [UInt8.toNat_toUInt32, UInt32.toNat_toUInt8, bitField, Nat.pow_zero, Nat.div_one]

theorem toUInt8_lt (v : UInt8) : v.toUInt32.toNat < 2 ^ 8 := by
  rw [UInt8.toNat_toUInt32]
  exact v.toNat_lt

end Bytes

end HeavenFox.Logic
