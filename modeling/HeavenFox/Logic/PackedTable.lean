/-
# HeavenFox.Logic.PackedTable -- tables of 16-bit and of 12-bit entries in a byte memory

A small library with nothing of the kernel in it.  Entries of 12 bits are packed two to three
bytes: entry `i` starts at byte `i + i / 2`, and neighbours share a byte, a half each.  An entry is
stored a byte at a time, and neither of the two stores touches another entry
(`load12_storeHead_of_ne`, `load12_storeTail_of_ne`), whether or not the other one follows.
-/
import HeavenFox.Logic.Memory32

namespace HeavenFox.Logic

/-! ## Words of 16 bits -/

/-- The 16-bit word at `a`, least significant byte first. -/
def load16 (m : Mem) (a : Nat) : Nat := (m a).toNat + (m (a + 1)).toNat * 2 ^ 8

/-- Store the low 16 bits of `v` at `a`, least significant byte first. -/
def store16 (m : Mem) (a v : Nat) : Mem :=
  fun x => if x = a then UInt8.ofNat v else if x = a + 1 then UInt8.ofNat (v / 2 ^ 8) else m x

theorem load16_lt (m : Mem) (a : Nat) : load16 m a < 2 ^ 16 := by
  have h0 := (m a).toNat_lt
  have h1 := (m (a + 1)).toNat_lt
  unfold load16
  omega

/-- A word depends only on its own two bytes. -/
theorem load16_congr {m m' : Mem} {a b : Nat} (h0 : m' b = m a) (h1 : m' (b + 1) = m (a + 1)) :
    load16 m' b = load16 m a := by
  rw [load16, load16, h0, h1]

theorem store16_of_outside {m : Mem} {a v x : Nat} (h : x < a ∨ a + 2 ≤ x) :
    store16 m a v x = m x := by
  unfold store16
  rw [if_neg (by omega), if_neg (by omega)]

theorem load16_store16_same (m : Mem) (a v : Nat) : load16 (store16 m a v) a = v % 2 ^ 16 := by
  have h1 : a + 1 ≠ a := by omega
  simp only [load16, store16, if_true, if_neg h1, UInt8.toNat_ofNat']
  omega

theorem load16_store16_of_disjoint {m : Mem} {a b v : Nat} (h : a + 2 ≤ b ∨ b + 2 ≤ a) :
    load16 (store16 m a v) b = load16 m b :=
  load16_congr (store16_of_outside (by omega)) (store16_of_outside (by omega))

/-- The word of two bytes, put together by shifting. -/
theorem or_shiftLeft_byte (a b : UInt8) :
    a.toNat ||| b.toNat <<< 8 = a.toNat + b.toNat * 2 ^ 8 := by
  rw [Nat.shiftLeft_eq, Nat.mul_comm, Nat.or_comm, ← Nat.two_pow_add_eq_or_of_lt a.toNat_lt]
  omega

/-! ## Halves of a byte -/

theorem toNat_and_low (b : UInt8) : (b &&& 0x0f).toNat = b.toNat % 16 := by
  rw [UInt8.toNat_and]
  exact Nat.and_two_pow_sub_one_eq_mod b.toNat 4

theorem toNat_and_high (b : UInt8) : (b &&& 0xf0).toNat = b.toNat / 16 * 16 := by
  have hlow : b.toNat &&& 0xf0 = (b.toNat / 2 ^ 4 &&& 0xf) * 2 ^ 4 := by
    rw [← Nat.shiftRight_eq_div_pow, ← Nat.shiftLeft_eq, Nat.shiftLeft_and_distrib]
    apply Nat.eq_of_testBit_eq
    intro i
    simp only [Nat.testBit_and, Nat.testBit_shiftLeft, Nat.testBit_shiftRight]
    by_cases hi : 4 ≤ i
    · have hmask : Nat.testBit 0xf0 i = Nat.testBit 0xf (i - 4) := by
        rw [show (0xf0 : Nat) = 0xf <<< 4 from rfl, Nat.testBit_shiftLeft]
        simp [hi]
      simp [hi, hmask]
    · have hmask : Nat.testBit 0xf0 i = false := by
        rw [show (0xf0 : Nat) = 0xf <<< 4 from rfl, Nat.testBit_shiftLeft]
        simp [hi]
      simp [hi, hmask]
  have hlt := b.toNat_lt
  rw [UInt8.toNat_and, show (0xf0 : UInt8).toNat = 0xf0 from rfl, hlow,
    show (0xf : Nat) = 2 ^ 4 - 1 from rfl, Nat.and_two_pow_sub_one_eq_mod]
  omega

/-- The lower half of one byte and the upper half of another. -/
theorem toNat_or_halves {a b : UInt8} (ha : a.toNat < 16) (hb : b.toNat % 16 = 0) :
    (a ||| b).toNat = a.toNat + b.toNat := by
  have hshift : b.toNat = 2 ^ 4 * (b.toNat / 16) := by omega
  rw [UInt8.toNat_or, Nat.or_comm, hshift, ← Nat.two_pow_add_eq_or_of_lt ha]
  omega

theorem toNat_shiftLeft_four (v : Nat) : (UInt8.ofNat v <<< 4).toNat = v % 16 * 16 := by
  rw [UInt8.toNat_shiftLeft, UInt8.toNat_ofNat', Nat.shiftLeft_eq]
  show v % 2 ^ 8 * 2 ^ 4 % 2 ^ 8 = _
  omega

/-! ## Entries of 12 bits -/

/-- The byte that entry `i` starts in. -/
def pos12 (i : Nat) : Nat := i + i / 2

/-- Entry `i`. -/
def load12 (m : Mem) (i : Nat) : Nat :=
  if i % 2 = 1 then load16 m (pos12 i) / 16 else load16 m (pos12 i) % 2 ^ 12

/-- The first byte of entry `i` once it holds `v`. -/
def head12 (i v : Nat) (b : UInt8) : UInt8 :=
  if i % 2 = 1 then (b &&& (0x0f : UInt8)) ||| (UInt8.ofNat v <<< 4) else UInt8.ofNat v

/-- The second byte of entry `i` once it holds `v`. -/
def tail12 (i v : Nat) (b : UInt8) : UInt8 :=
  if i % 2 = 1 then UInt8.ofNat (v / 2 ^ 4)
  else (b &&& (0xf0 : UInt8)) ||| (UInt8.ofNat (v / 2 ^ 8) &&& 0x0f)

/-- The memory with the first byte of the entry stored. -/
def storeHead (m : Mem) (i v : Nat) : Mem := store8 m (pos12 i) (head12 i v (m (pos12 i)))

/-- The memory with the second byte of the entry stored. -/
def storeTail (m : Mem) (i v : Nat) : Mem :=
  store8 m (pos12 i + 1) (tail12 i v (m (pos12 i + 1)))

variable {m : Mem} {i j v : Nat}

theorem head12_of_even (hi : i % 2 = 0) (b : UInt8) : (head12 i v b).toNat = v % 2 ^ 8 := by
  rw [head12, if_neg (by omega), UInt8.toNat_ofNat']

theorem head12_of_odd (hi : i % 2 = 1) (b : UInt8) :
    (head12 i v b).toNat = b.toNat % 16 + v % 16 * 16 := by
  have hlow := toNat_and_low b
  have hhigh := toNat_shiftLeft_four v
  rw [head12, if_pos hi, toNat_or_halves (by omega) (by omega), hlow, hhigh]

theorem tail12_of_even (hi : i % 2 = 0) (b : UInt8) :
    (tail12 i v b).toNat = b.toNat / 16 * 16 + v / 2 ^ 8 % 16 := by
  have hhigh := toNat_and_high b
  have hlow := toNat_and_low (UInt8.ofNat (v / 2 ^ 8))
  rw [UInt8.toNat_ofNat'] at hlow
  rw [tail12, if_neg (by omega), UInt8.or_comm, toNat_or_halves (by omega) (by omega), hhigh, hlow]
  omega

theorem tail12_of_odd (hi : i % 2 = 1) (b : UInt8) :
    (tail12 i v b).toNat = v / 2 ^ 4 % 2 ^ 8 := by
  rw [tail12, if_pos hi, UInt8.toNat_ofNat']

/-- **The first store leaves the other entries alone.** -/
theorem load12_storeHead_of_ne (h : j ≠ i) : load12 (storeHead m i v) j = load12 m j := by
  unfold load12 load16 storeHead store8
  by_cases hb : pos12 j + 1 = pos12 i
  · -- the entry in front: it ends in the lower half of the byte
    have hpar : i % 2 = 1 ∧ j % 2 = 0 := by
      unfold pos12 at hb
      omega
    have hne : pos12 j ≠ pos12 i := by omega
    have hbyte := head12_of_odd (v := v) hpar.1 (m (pos12 i))
    rw [if_neg hne, if_pos hb, hb, if_neg (by omega : ¬ j % 2 = 1), if_neg (by omega : ¬ j % 2 = 1)]
    omega
  · have hne : pos12 j ≠ pos12 i := by
      unfold pos12
      omega
    rw [if_neg hne, if_neg hb]

/-- **The second store leaves the other entries alone.** -/
theorem load12_storeTail_of_ne (h : j ≠ i) : load12 (storeTail m i v) j = load12 m j := by
  unfold load12 load16 storeTail store8
  by_cases hb : pos12 j = pos12 i + 1
  · -- the entry behind: it starts in the upper half of the byte
    have hpar : i % 2 = 0 ∧ j % 2 = 1 := by
      unfold pos12 at hb
      omega
    have hne : pos12 j + 1 ≠ pos12 i + 1 := by omega
    have hbyte := tail12_of_even (v := v) hpar.1 (m (pos12 i + 1))
    rw [if_neg hne, if_pos hb, hb, if_pos hpar.2, if_pos hpar.2]
    omega
  · have hne : pos12 j + 1 ≠ pos12 i + 1 := by
      unfold pos12
      omega
    rw [if_neg hne, if_neg hb]

/-- Both stores together set the entry. -/
theorem load12_store_same : load12 (storeTail (storeHead m i v) i v) i = v % 2 ^ 12 := by
  have hne : pos12 i ≠ pos12 i + 1 := by omega
  unfold load12 load16
  rw [show storeTail (storeHead m i v) i v (pos12 i) = head12 i v (m (pos12 i)) by
      rw [storeTail, store8, if_neg hne, storeHead, store8, if_pos rfl],
    show storeTail (storeHead m i v) i v (pos12 i + 1) = tail12 i v (m (pos12 i + 1)) by
      rw [storeTail, store8, if_pos rfl, storeHead, store8, if_neg (Ne.symm hne)]]
  have hlt := (m (pos12 i)).toNat_lt
  rcases Nat.mod_two_eq_zero_or_one i with hi | hi
  · rw [head12_of_even hi, tail12_of_even hi, if_neg (by omega)]
    omega
  · rw [head12_of_odd hi, tail12_of_odd hi, if_pos hi]
    omega

end HeavenFox.Logic
