/-
# HeavenFox.Logic.ErrorTerm -- steps that an error term releases

Of `b` major steps, `a` are to be minor steps too, spread evenly.  An error term starts at `-b`, grows
by `2 * a` with each major step, and a minor step is due when it is not negative any more; then
`2 * b` is taken off.  After `k` major steps `released a b k` minor steps have been taken
(`error_step`), which is half-way rounding of `a * k / b`; all of them are taken at the end
(`released_last`).
-/
import Mathlib.Tactic.Linarith
import Mathlib.Tactic.Ring

namespace HeavenFox.Logic

/-- The minor steps among the first `k` major ones. -/
def released (a b k : Nat) : Nat := (2 * a * k + b) / (2 * b)

/-- The error term after `k` steps. -/
def errorAt (a b k : Nat) : Int := -(b : Int) + 2 * a * k - 2 * b * released a b k

section Steps

variable {a b : Nat}

theorem released_zero (a b : Nat) : released a b 0 = 0 := by
  rw [released, Nat.mul_zero, Nat.zero_add]
  rcases Nat.eq_zero_or_pos b with rfl | hb
  · rfl
  · exact Nat.div_eq_of_lt (by omega)

theorem errorAt_zero (a b : Nat) : errorAt a b 0 = -(b : Int) := by
  rw [errorAt, released_zero]
  push_cast
  ring

/-- At the end all minor steps have been taken. -/
theorem released_last (a b : Nat) (h : a ≤ b) : released a b b = a := by
  rcases Nat.eq_zero_or_pos b with rfl | hb
  · rw [Nat.le_zero.mp h]
    rfl
  · have hsplit : 2 * a * b + b = 2 * b * a + b := by ring
    rw [released, hsplit, Nat.mul_add_div (by omega), Nat.div_eq_of_lt (by omega), Nat.add_zero]

theorem released_mono (a b : Nat) {k l : Nat} (h : k ≤ l) : released a b k ≤ released a b l :=
  Nat.div_le_div_right (Nat.add_le_add_right (Nat.mul_le_mul_left _ h) _)

/-- The error term is what is left of the division, so it is negative between two steps. -/
theorem errorAt_eq (a b k : Nat) :
    errorAt a b k = ((2 * a * k + b) % (2 * b) : Nat) - 2 * (b : Int) := by
  have hdiv := Nat.div_add_mod (2 * a * k + b) (2 * b)
  have hcast : (2 * b * released a b k : Int) + ((2 * a * k + b) % (2 * b) : Nat) =
      2 * a * k + b := by
    exact_mod_cast hdiv
  rw [errorAt]
  linarith

/-- **One major step.**  A minor step is taken with it exactly if the error term, grown by `2 * a`, is
not negative. -/
theorem error_step (h : a ≤ b) (hb : 0 < b) (k : Nat) :
    released a b (k + 1) = released a b k + (if 0 ≤ errorAt a b k + 2 * a then 1 else 0) ∧
      errorAt a b (k + 1) = errorAt a b k + 2 * a -
        (if 0 ≤ errorAt a b k + 2 * a then 2 * (b : Int) else 0) := by
  have hrest : (2 * a * k + b) % (2 * b) < 2 * b := Nat.mod_lt _ (by omega)
  have hdiv := Nat.div_add_mod (2 * a * k + b) (2 * b)
  have herr := errorAt_eq a b k
  have hgrown : 2 * a * (k + 1) + b =
      2 * b * released a b k + ((2 * a * k + b) % (2 * b) + 2 * a) := by
    rw [released, ← Nat.add_assoc, hdiv]
    ring
  have hnext : released a b (k + 1) =
      released a b k + (if 0 ≤ errorAt a b k + 2 * a then 1 else 0) := by
    have hquot : released a b (k + 1) =
        released a b k + ((2 * a * k + b) % (2 * b) + 2 * a) / (2 * b) := by
      rw [released, hgrown, Nat.mul_add_div (by omega)]
    rw [hquot]
    split
    · rw [Nat.div_eq_of_lt_le (by omega : 1 * (2 * b) ≤ _) (by omega)]
    · rw [Nat.div_eq_of_lt (by omega)]
  refine ⟨hnext, ?_⟩
  rw [errorAt, hnext, errorAt]
  split
  · push_cast
    ring
  · push_cast
    ring

/-- A minor step at most is taken with a major one. -/
theorem released_succ_le (h : a ≤ b) (hb : 0 < b) (k : Nat) :
    released a b (k + 1) ≤ released a b k + 1 := by
  rw [(error_step h hb k).1]
  split <;> omega

/-- If there is a minor step at all, there is a time when one has been taken and not two. -/
theorem exists_released_one (ha : 0 < a) (h : a ≤ b) : ∃ k ≤ b, released a b k = 1 := by
  let k := (b + 2 * a - 1) / (2 * a)
  have hdiv := Nat.div_add_mod (b + 2 * a - 1) (2 * a)
  have hrest : (b + 2 * a - 1) % (2 * a) < 2 * a := Nat.mod_lt _ (by omega)
  have hlow : b ≤ 2 * a * k := by
    show b ≤ 2 * a * ((b + 2 * a - 1) / (2 * a))
    omega
  have hhigh : 2 * a * k < b + 2 * a := by
    show 2 * a * ((b + 2 * a - 1) / (2 * a)) < _
    omega
  refine ⟨k, ?_, ?_⟩
  · by_contra hk
    have hmul : 2 * a * (b + 1) ≤ 2 * a * k := Nat.mul_le_mul_left _ (Nat.lt_of_not_le hk)
    have hbig : b ≤ a * b := Nat.le_mul_of_pos_left b ha
    have hexp : 2 * a * (b + 1) = 2 * (a * b) + 2 * a := by ring
    omega
  · rw [released]
    exact Nat.div_eq_of_lt_le (by omega) (by omega)

end Steps

end HeavenFox.Logic
