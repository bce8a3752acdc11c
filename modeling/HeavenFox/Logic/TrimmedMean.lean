/-
# HeavenFox.Logic.TrimmedMean -- the mean without the greatest and the least

Of some samples the greatest and the least are left out, and the others are averaged.  The mean of
them, rounded down, lies between the two that are left out (`trimmedMean_bounds`).
-/
import Mathlib.Algebra.Group.Action.Defs
import Mathlib.Algebra.Order.BigOperators.Group.List
import Mathlib.Algebra.GroupWithZero.Nat
import Mathlib.Algebra.Order.Group.Nat

namespace HeavenFox.Logic

variable {l : List Nat}

/-- The sum without the greatest and the least. -/
def trimmedSum (l : List Nat) (h : l ≠ []) : Nat := l.sum - l.max h - l.min h

/-- Without one of its elements a list adds up to so much less. -/
theorem sum_erase_eq {a : Nat} (ha : a ∈ l) : (l.erase a).sum = l.sum - a := by
  have hsum := List.sum_erase ha
  omega

theorem max_le_sum (h : l ≠ []) : l.max h ≤ l.sum := by
  have hsum := List.sum_erase (List.max_mem h)
  omega

/-- The sum without the greatest is at least the least, once for each of the rest. -/
theorem min_le_sum_sub_max (h : l ≠ []) : (l.length - 1) * l.min h ≤ l.sum - l.max h := by
  have hmem := List.max_mem h
  have hle := List.card_nsmul_le_sum (l.erase (l.max h)) (l.min h)
    fun a ha => List.min_le_of_mem (List.mem_of_mem_erase ha)
  rwa [List.length_erase_of_mem hmem, sum_erase_eq hmem, smul_eq_mul] at hle

theorem sum_sub_min_le_max (h : l ≠ []) : l.sum - l.min h ≤ (l.length - 1) * l.max h := by
  have hmem := List.min_mem h
  have hle := List.sum_le_card_nsmul (l.erase (l.min h)) (l.max h)
    fun a ha => List.le_max_of_mem (List.mem_of_mem_erase ha)
  rwa [List.length_erase_of_mem hmem, sum_erase_eq hmem, smul_eq_mul] at hle

/-- **The mean lies between the two that are left out.** -/
theorem trimmedMean_bounds {n : Nat} (h : l ≠ []) (hlength : l.length = n + 2) (hn : 0 < n) :
    l.min h ≤ trimmedSum l h / n ∧ trimmedSum l h / n ≤ l.max h := by
  have hlow := min_le_sum_sub_max h
  have hhigh := sum_sub_min_le_max h
  have hcount : l.length - 1 = n + 1 := by omega
  rw [hcount, Nat.succ_mul] at hlow hhigh
  constructor
  · rw [Nat.le_div_iff_mul_le hn, trimmedSum, Nat.mul_comm]
    omega
  · rw [trimmedSum, Nat.sub_right_comm]
    exact Nat.div_le_of_le_mul (by omega)

end HeavenFox.Logic
