/-
# HeavenFox.Logic.Numerals -- the numeral of a number in a base

A small library with nothing of the kernel in it.  The numeral of a number is its
digits with the first one in front: at least one digit, and no 0 in front of others.
`IsNumeral` says so of a list of digits, and no other list is the numeral of the
same number (`IsNumeral.eq_numeral`).

Programs divide by the base over and over and get the digits with the last one in
front; `lowDigits_eq` is one such round, and `lowDigits_length_le` bounds the rounds.
-/
import Mathlib.Data.Nat.Digits.Lemmas

namespace HeavenFox.Logic

/-- The digits of a number, the last one in front. -/
def lowDigits (b n : Nat) : List Nat := if n = 0 then [0] else Nat.digits b n

/-- The numeral of a number. -/
def numeral (b n : Nat) : List Nat := (lowDigits b n).reverse

/-- The digits are those of `n` in base `b`: there are some, and the first of several is not 0. -/
structure IsNumeral (b n : Nat) (ds : List Nat) : Prop where
  nonempty : ds ≠ []
  digits : ∀ d ∈ ds, d < b
  canonical : ds.head? = some 0 → ds = [0]
  value : Nat.ofDigits b ds.reverse = n

variable {b n k : Nat} {ds : List Nat}

@[simp] theorem lowDigits_zero (b : Nat) : lowDigits b 0 = [0] := if_pos rfl

theorem lowDigits_of_ne_zero (h : n ≠ 0) : lowDigits b n = Nat.digits b n := if_neg h

/-- **One division.** -/
theorem lowDigits_eq (hb : 1 < b) (n : Nat) :
    lowDigits b n = n % b :: if n / b = 0 then [] else lowDigits b (n / b) := by
  rcases Nat.eq_zero_or_pos n with rfl | hn
  · rw [lowDigits_zero, Nat.zero_mod, Nat.zero_div, if_pos rfl]
  rw [lowDigits_of_ne_zero hn.ne', Nat.digits_def' hb hn]
  by_cases hd : n / b = 0
  · rw [if_pos hd, hd, Nat.digits_zero]
  · rw [if_neg hd, lowDigits_of_ne_zero hd]

/-- A number below a power of the base has no more digits than that. -/
theorem lowDigits_length_le (hb : 1 < b) (h : n < b ^ (k + 1)) : (lowDigits b n).length ≤ k + 1 := by
  rcases Nat.eq_zero_or_pos n with rfl | hn
  · rw [lowDigits_zero]
    exact Nat.succ_le_succ (Nat.zero_le k)
  · rw [lowDigits_of_ne_zero hn.ne', Nat.digits_length_le_iff hb]
    exact h

theorem lowDigits_ne_nil (hb : 1 < b) (n : Nat) : lowDigits b n ≠ [] := by
  rw [lowDigits_eq hb]
  exact List.cons_ne_nil _ _

theorem lowDigits_lt (hb : 1 < b) : ∀ d ∈ lowDigits b n, d < b := by
  intro d hd
  rcases Nat.eq_zero_or_pos n with rfl | hn
  · rw [lowDigits_zero, List.mem_singleton] at hd
    omega
  · rw [lowDigits_of_ne_zero hn.ne'] at hd
    exact Nat.digits_lt_base hb hd

theorem ofDigits_lowDigits (b n : Nat) : Nat.ofDigits b (lowDigits b n) = n := by
  rcases Nat.eq_zero_or_pos n with rfl | hn
  · rw [lowDigits_zero, Nat.ofDigits_singleton]
  · rw [lowDigits_of_ne_zero hn.ne', Nat.ofDigits_digits]

theorem numeral_length (b n : Nat) : (numeral b n).length = (lowDigits b n).length :=
  List.length_reverse

/-- **The numeral is one.** -/
theorem isNumeral_numeral (hb : 1 < b) (n : Nat) : IsNumeral b n (numeral b n) where
  nonempty := fun h => lowDigits_ne_nil hb n (List.reverse_eq_nil_iff.mp h)
  digits := fun d hd => lowDigits_lt hb d (List.mem_reverse.mp hd)
  canonical := by
    intro hhead
    rcases Nat.eq_zero_or_pos n with rfl | hn
    · rfl
    -- the digit in front is the last one of the division, which is not 0
    have hne := Nat.digits_ne_nil_iff_ne_zero (b := b).mpr hn.ne'
    have hlast := Nat.getLast_digit_ne_zero b hn.ne'
    rw [numeral, lowDigits_of_ne_zero hn.ne', List.head?_reverse, List.getLast?_eq_some_getLast hne]
      at hhead
    exact absurd (Option.some.inj hhead) hlast
  value := by rw [numeral, List.reverse_reverse, ofDigits_lowDigits]

/-- **There is no other one.** -/
theorem IsNumeral.eq_numeral (hb : 1 < b) (h : IsNumeral b n ds) : ds = numeral b n := by
  obtain ⟨hne, hdigits, hcanonical, rfl⟩ := h
  rw [numeral, ← List.reverse_eq_iff]
  by_cases hzero : ds.head? = some 0
  · rw [hcanonical hzero]
    rfl
  have hlast : ∀ h : ds.reverse ≠ [], ds.reverse.getLast h ≠ 0 := by
    intro h heq
    apply hzero
    rw [← heq, ← List.getLast?_eq_some_getLast h, List.getLast?_reverse]
  have hback := Nat.digits_ofDigits b hb ds.reverse (fun d hd => hdigits d (List.mem_reverse.mp hd))
    hlast
  have hpos : Nat.ofDigits b ds.reverse ≠ 0 := by
    intro heq
    rw [heq, Nat.digits_zero] at hback
    exact hne (List.reverse_eq_nil_iff.mp hback.symm)
  rw [lowDigits_of_ne_zero hpos, hback]

end HeavenFox.Logic
