/-
# HeavenFox.Logic.RestoringDivision -- division digit by digit

A small library with nothing of the kernel in it.  A restoring division goes through the binary
digits of the quotient from the highest down: where the shifted divisor can be subtracted the digit
is 1, or else 0.  `Digits n d j a q` is its invariant at digit `j`, with `a` left of the dividend.

A loop that is unrolled goes on when the digits have run out, with a divisor that has lost its lowest
bits; the digits of the quotient that it then sets are none.  `Unrolled` is the invariant there.
-/
import Mathlib.Algebra.GroupWithZero.Nat
import Mathlib.Tactic.Common

namespace HeavenFox.Logic

/-! ## Digits -/

/-- The digits of `q` from `j` on are those of the quotient, the others are 0, and `a` is left. -/
structure Digits (n d j a q : Nat) : Prop where
  value : n = q * d + a
  rest : a < d * 2 ^ j
  low : 2 ^ j ∣ q

namespace Digits

variable {n d j a q : Nat}

theorem start (h : n < d * 2 ^ j) : Digits n d j n 0 := ⟨by omega, h, Nat.dvd_zero _⟩

/-- A digit 1. -/
theorem subtract (h : Digits n d (j + 1) a q) (hle : d * 2 ^ j ≤ a) :
    Digits n d j (a - d * 2 ^ j) (q + 2 ^ j) where
  value := by
    have hvalue := h.value
    have hdigit : (q + 2 ^ j) * d = q * d + d * 2 ^ j := by
      rw [Nat.add_mul, Nat.mul_comm (2 ^ j) d]
    omega
  rest := by
    have hrest := h.rest
    rw [Nat.pow_succ, ← Nat.mul_assoc] at hrest
    omega
  low := by
    have hlow := Nat.dvd_trans (Nat.pow_dvd_pow 2 (Nat.le_succ j)) h.low
    exact Nat.dvd_add hlow (Nat.dvd_refl _)

/-- A digit 0. -/
theorem pass (h : Digits n d (j + 1) a q) (hlt : a < d * 2 ^ j) : Digits n d j a q :=
  ⟨h.value, hlt, Nat.dvd_trans (Nat.pow_dvd_pow 2 (Nat.le_succ j)) h.low⟩

/-- The digit is set by an or. -/
theorem or_digit (h : Digits n d (j + 1) a q) : q ||| 2 ^ j = q + 2 ^ j := by
  obtain ⟨m, hm⟩ := h.low
  have hlt : 2 ^ j < 2 ^ (j + 1) := Nat.pow_lt_pow_succ (by decide)
  rw [hm, ← Nat.two_pow_add_eq_or_of_lt hlt]

/-- All digits. -/
theorem quotient (h : Digits n d 0 a q) : q = n / d ∧ a = n % d := by
  have hrest : a < d := by
    have hrest := h.rest
    rwa [Nat.pow_zero, Nat.mul_one] at hrest
  have hvalue : a + d * q = n := by
    rw [h.value, Nat.mul_comm q d, Nat.add_comm]
  have hdiv := (Nat.div_mod_unique (Nat.zero_lt_of_lt hrest)).mpr ⟨hvalue, hrest⟩
  exact ⟨hdiv.1.symm, hdiv.2.symm⟩

/-- Nothing is left, so the remaining digits are 0. -/
theorem exact (h : Digits n d j 0 q) : q = n / d ∧ 0 = n % d := by
  have hd : 0 < d := Nat.pos_of_mul_pos_right h.rest
  rw [h.value, Nat.add_zero]
  exact ⟨(Nat.mul_div_cancel q hd).symm, (Nat.mul_mod_left q d).symm⟩

end Digits

/-! ## The remainder -/

/-- Some quotient goes with what is left; nobody keeps it. -/
def Rest (n d j a : Nat) : Prop := ∃ q, Digits n d j a q

namespace Rest

variable {n d j a : Nat}

theorem start (h : n < d * 2 ^ j) : Rest n d j n := ⟨0, .start h⟩

theorem digit (h : Rest n d (j + 1) a) :
    Rest n d j (if d * 2 ^ j ≤ a then a - d * 2 ^ j else a) := by
  obtain ⟨q, hq⟩ := h
  split_ifs with hle
  · exact ⟨q + 2 ^ j, hq.subtract hle⟩
  · exact ⟨q, hq.pass (by omega)⟩

theorem lt (h : Rest n d j a) : a < d * 2 ^ j := h.elim fun _ hq => hq.rest

theorem remainder (h : Rest n d 0 a) : a = n % d := h.elim fun _ hq => hq.quotient.2

theorem exact (h : Rest n d j 0) : 0 = n % d := h.elim fun _ hq => hq.exact.2

end Rest

/-! ## An unrolled loop -/

/-- The invariant behind `i` subtractions of a round that begins at digit `k`, also when there are
not so many digits left. -/
def Unrolled (n d k i a q : Nat) : Prop :=
  if i ≤ k + 1 then Digits n d (k + 1 - i) a q else q = n / d

theorem Unrolled.digits {n d k i a q : Nat} (h : Unrolled n d k i a q) (hi : i ≤ k + 1) :
    Digits n d (k + 1 - i) a q := by
  rwa [Unrolled, if_pos hi] at h

theorem Unrolled.quotient {n d k i a q : Nat} (h : Unrolled n d k i a q) (hi : k < i) :
    q = n / d := by
  unfold Unrolled at h
  split_ifs at h
  · rw [show k + 1 - i = 0 by omega] at h
    exact h.quotient.1
  · exact h

/-- Nothing is left. -/
theorem Unrolled.exact {n d k i q : Nat} (h : Unrolled n d k i 0 q) : q = n / d := by
  unfold Unrolled at h
  split_ifs at h
  · exact h.exact.1
  · exact h

/-- The next round. -/
theorem Unrolled.next {n d k i a q : Nat} (h : Unrolled n d (k + i) i a q) :
    Unrolled n d k 0 a q := by
  rw [Unrolled, if_pos (by omega), show k + i + 1 - i = k + 1 - 0 by omega] at h
  rwa [Unrolled, if_pos (by omega)]

/-- One subtraction of the round. -/
theorem Unrolled.subtract {n d k i a q : Nat} (h : Unrolled n d k i a q) :
    Unrolled n d k (i + 1) (if d * 2 ^ k / 2 ^ i ≤ a then a - d * 2 ^ k / 2 ^ i else a)
      (if d * 2 ^ k / 2 ^ i ≤ a then q ||| 2 ^ k / 2 ^ i else q) := by
  by_cases hi : i ≤ k
  · obtain ⟨j, rfl⟩ := Nat.exists_eq_add_of_le hi
    have hdigits := h.digits (by omega)
    have hdiv : 2 ^ (i + j) / 2 ^ i = 2 ^ j := by
      rw [Nat.pow_add, Nat.mul_div_cancel_left _ (Nat.two_pow_pos i)]
    have hdiv' : d * 2 ^ (i + j) / 2 ^ i = d * 2 ^ j := by
      rw [Nat.pow_add, Nat.mul_left_comm, Nat.mul_div_cancel_left _ (Nat.two_pow_pos i)]
    rw [show i + j + 1 - i = j + 1 by omega] at hdigits
    rw [hdiv, hdiv', Unrolled, if_pos (by omega), show i + j + 1 - (i + 1) = j by omega,
      hdigits.or_digit]
    split_ifs with hle
    · exact hdigits.subtract hle
    · exact hdigits.pass (by omega)
  · -- the digit that is set is none
    have hnone : 2 ^ k / 2 ^ i = 0 := Nat.div_eq_of_lt (Nat.pow_lt_pow_right (by decide) (by omega))
    rw [hnone, Nat.or_zero, ite_self, Unrolled, if_neg (by omega)]
    exact h.quotient (by omega)

end HeavenFox.Logic
