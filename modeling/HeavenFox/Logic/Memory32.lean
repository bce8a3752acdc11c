/-
# HeavenFox.Logic.Memory32 -- 32-bit words and a byte-addressed memory

A small library with nothing of the kernel in it.  Words are natural numbers
below `2 ^ 32`; the operators below wrap exactly as unsigned machine arithmetic
does.  A memory is a total map from byte addresses to bytes, and a word is four
consecutive bytes, least significant first.

The two facts every client uses are `load32_store32_same` (a word reads back
what was stored) and `load32_store32_of_disjoint` (a store elsewhere is not
seen).  Alignment never enters: two words are disjoint when their byte ranges
are.
-/
import Mathlib.Data.Nat.Bitwise
import Mathlib.Tactic.Ring

namespace HeavenFox.Logic

/-! ## Wrapping arithmetic -/

/-- Unsigned 32-bit addition. -/
def add32 (a b : Nat) : Nat := (a + b) % 2 ^ 32

/-- Unsigned 32-bit subtraction. -/
def sub32 (a b : Nat) : Nat := (a + (2 ^ 32 - b % 2 ^ 32)) % 2 ^ 32

/-- Bitwise complement of a 32-bit word. -/
def not32 (a : Nat) : Nat := 2 ^ 32 - 1 - a

theorem add32_lt (a b : Nat) : add32 a b < 2 ^ 32 :=
  Nat.mod_lt _ (by decide)

theorem sub32_lt (a b : Nat) : sub32 a b < 2 ^ 32 :=
  Nat.mod_lt _ (by decide)

/-- Addition that does not carry out of the word is natural addition. -/
theorem add32_of_lt {a b : Nat} (h : a + b < 2 ^ 32) : add32 a b = a + b :=
  Nat.mod_eq_of_lt h

/-- Subtraction that does not borrow is natural subtraction. -/
theorem sub32_of_le {a b : Nat} (h : b ≤ a) (ha : a < 2 ^ 32) : sub32 a b = a - b := by
  unfold sub32
  omega

/-- Clearing the low bits of a word rounds it down to a multiple of their power of two. -/
theorem and_not32_low {a k : Nat} (hk : k ≤ 32) (h : a < 2 ^ 32) :
    a &&& not32 (2 ^ k - 1) = a / 2 ^ k * 2 ^ k := by
  have hpow : 2 ^ 32 = 2 ^ (32 - k) * 2 ^ k := by rw [← Nat.pow_add, Nat.sub_add_cancel hk]
  have hpos : 0 < 2 ^ k := Nat.two_pow_pos k
  have hmask : not32 (2 ^ k - 1) = (2 ^ (32 - k) - 1) * 2 ^ k := by
    rw [not32, hpow, Nat.sub_mul, Nat.one_mul, Nat.sub_sub, Nat.add_sub_cancel' hpos]
  have hquot : (a &&& not32 (2 ^ k - 1)) / 2 ^ k = a / 2 ^ k := by
    rw [hmask, Nat.and_div_two_pow, Nat.mul_div_cancel _ hpos, Nat.and_two_pow_sub_one_eq_mod]
    exact Nat.mod_eq_of_lt (Nat.div_lt_of_lt_mul (by rwa [Nat.mul_comm, ← hpow]))
  have hrem : (a &&& not32 (2 ^ k - 1)) % 2 ^ k = 0 := by
    rw [hmask, Nat.and_mod_two_pow, Nat.mul_mod_left, Nat.and_zero]
  have hsum := Nat.div_add_mod (a &&& not32 (2 ^ k - 1)) (2 ^ k)
  rw [hquot, hrem, Nat.add_zero, Nat.mul_comm] at hsum
  exact hsum.symm

theorem and_not32_three {a : Nat} (h : a < 2 ^ 32) : a &&& not32 3 = a / 4 * 4 := by
  have hlow : a &&& not32 (2 ^ 2 - 1) = a / 2 ^ 2 * 2 ^ 2 := and_not32_low (by decide) h
  exact hlow

theorem and_not32_seven {a : Nat} (h : a < 2 ^ 32) : a &&& not32 7 = a / 8 * 8 := by
  have hlow : a &&& not32 (2 ^ 3 - 1) = a / 2 ^ 3 * 2 ^ 3 := and_not32_low (by decide) h
  exact hlow

/-! ## Signed and unsigned words -/

/-- A signed number as an unsigned word. -/
def asUint32 (i : Int) : Nat := (i % 2 ^ 32).toNat

/-- An unsigned word as a signed number. -/
def asInt32 (n : Nat) : Int := (n : Int).bmod (2 ^ 32)

theorem asUint32_of_lt {n : Nat} (h : n < 2 ^ 32) : asUint32 n = n := by
  have hlt : (n : Int) < 2 ^ 32 := by exact_mod_cast h
  rw [asUint32, Int.emod_eq_of_lt (Int.natCast_nonneg n) hlt, Int.toNat_natCast]

theorem asInt32_of_lt {n : Nat} (h : n < 2 ^ 31) : asInt32 n = n := by
  apply Int.bmod_eq_of_le_mul_two
  · omega
  · have hlt : n * 2 < 2 ^ 32 := by omega
    exact_mod_cast hlt

/-- A word with the highest bit set is negative. -/
theorem asInt32_of_ge {n : Nat} (h : 2 ^ 31 ≤ n) (hn : n < 2 ^ 32) : asInt32 n = n - 2 ^ 32 := by
  have hlt : (n : Int) < (2 ^ 32 : Nat) := by exact_mod_cast hn
  have hval := Int.bmod_eq_emod (n : Int) (2 ^ 32)
  rw [Int.emod_eq_of_lt (Int.natCast_nonneg n) hlt] at hval
  unfold asInt32
  split at hval <;> omega

theorem asInt32_neg_iff {n : Nat} (h : n < 2 ^ 32) : asInt32 n < 0 ↔ 2 ^ 31 ≤ n := by
  rcases Nat.lt_or_ge n (2 ^ 31) with hlow | hhigh
  · rw [asInt32_of_lt hlow]
    omega
  · rw [asInt32_of_ge hhigh h]
    omega

theorem asUint32_asInt32 {n : Nat} (h : n < 2 ^ 32) : asUint32 (asInt32 n) = n := by
  rcases Nat.lt_or_ge n (2 ^ 31) with hlow | hhigh
  · rw [asInt32_of_lt hlow, asUint32_of_lt h]
  · rw [asInt32_of_ge hhigh h, asUint32]
    omega

/-- The words that a signed word can hold. -/
theorem asInt32_eq_iff {n : Nat} (h : n < 2 ^ 32) : asInt32 n = n ↔ n < 2 ^ 31 := by
  refine ⟨fun heq => ?_, asInt32_of_lt⟩
  have hlt : (n : Int).bmod (2 ^ 32) < ((2 ^ 32 : Nat) + 1) / 2 := Int.bmod_lt (by decide)
  rw [show (n : Int).bmod (2 ^ 32) = n from heq] at hlt
  omega

/-! ## Byte memory -/

/-- A byte for every address. -/
abbrev Mem := Nat → UInt8

/-- The word at `a`, least significant byte first. -/
def load32 (m : Mem) (a : Nat) : Nat :=
  (m a).toNat + (m (a + 1)).toNat * 2 ^ 8 + (m (a + 2)).toNat * 2 ^ 16 +
    (m (a + 3)).toNat * 2 ^ 24

/-- Store one byte. -/
def store8 (m : Mem) (a : Nat) (v : UInt8) : Mem :=
  fun x => if x = a then v else m x

/-- Store the low 32 bits of `v` at `a`, least significant byte first. -/
def store32 (m : Mem) (a v : Nat) : Mem :=
  fun x =>
    if x = a then UInt8.ofNat v
    else if x = a + 1 then UInt8.ofNat (v / 2 ^ 8)
    else if x = a + 2 then UInt8.ofNat (v / 2 ^ 16)
    else if x = a + 3 then UInt8.ofNat (v / 2 ^ 24)
    else m x

theorem load32_lt (m : Mem) (a : Nat) : load32 m a < 2 ^ 32 := by
  unfold load32
  have h0 := (m a).toNat_lt
  have h1 := (m (a + 1)).toNat_lt
  have h2 := (m (a + 2)).toNat_lt
  have h3 := (m (a + 3)).toNat_lt
  omega

/-- A word depends only on its own four bytes. -/
theorem load32_congr {m m' : Mem} {a : Nat} (h : ∀ x, a ≤ x → x < a + 4 → m' x = m x) :
    load32 m' a = load32 m a := by
  simp only [load32, h a (by omega) (by omega), h (a + 1) (by omega) (by omega),
    h (a + 2) (by omega) (by omega), h (a + 3) (by omega) (by omega)]

theorem store32_of_outside {m : Mem} {a v x : Nat} (h : x < a ∨ a + 4 ≤ x) :
    store32 m a v x = m x := by
  unfold store32
  rw [if_neg (by omega), if_neg (by omega), if_neg (by omega), if_neg (by omega)]

/-- **A word reads back what was stored.** -/
theorem load32_store32_same (m : Mem) (a v : Nat) :
    load32 (store32 m a v) a = v % 2 ^ 32 := by
  have h1 : a + 1 ≠ a := by omega
  have h2 : a + 2 ≠ a ∧ a + 2 ≠ a + 1 := by omega
  have h3 : a + 3 ≠ a ∧ a + 3 ≠ a + 1 ∧ a + 3 ≠ a + 2 := by omega
  simp only [load32, store32, if_true, if_neg h1, if_neg h2.1, if_neg h2.2, if_neg h3.1,
    if_neg h3.2.1, if_neg h3.2.2, UInt8.toNat_ofNat']
  omega

/-- **A store elsewhere is not seen.** -/
theorem load32_store32_of_disjoint {m : Mem} {a b v : Nat} (h : a + 4 ≤ b ∨ b + 4 ≤ a) :
    load32 (store32 m a v) b = load32 m b :=
  load32_congr fun _ hlo hhi => store32_of_outside (by omega)

theorem ofNat_eq_byte {n : Nat} {byte : UInt8} (h : n % 2 ^ 8 = byte.toNat) :
    UInt8.ofNat n = byte := by
  apply UInt8.toNat_inj.mp
  rw [UInt8.toNat_ofNat']
  exact h

/-- Storing back the word that is already there changes no byte. -/
theorem store32_load32_self (m : Mem) (a : Nat) : store32 m a (load32 m a) = m := by
  have h0 := (m a).toNat_lt
  have h1 := (m (a + 1)).toNat_lt
  have h2 := (m (a + 2)).toNat_lt
  have h3 := (m (a + 3)).toNat_lt
  funext x
  by_cases hx : x < a ∨ a + 4 ≤ x
  · exact store32_of_outside hx
  · -- one of the four bytes of the word
    obtain rfl | rfl | rfl | rfl : x = a ∨ x = a + 1 ∨ x = a + 2 ∨ x = a + 3 := by omega
    all_goals
      simp only [store32, load32, Nat.add_eq_left, Nat.add_left_cancel_iff, if_true, if_false,
        one_ne_zero, OfNat.ofNat_ne_zero, OfNat.ofNat_ne_one]
      apply ofNat_eq_byte
      omega

/-- A byte store outside a word leaves the word alone. -/
theorem load32_store8_of_outside {m : Mem} {a b : Nat} {v : UInt8} (h : a < b ∨ b + 4 ≤ a) :
    load32 (store8 m a v) b = load32 m b := by
  refine load32_congr fun x hlo hhi => ?_
  unfold store8
  exact if_neg (by omega)

end HeavenFox.Logic
