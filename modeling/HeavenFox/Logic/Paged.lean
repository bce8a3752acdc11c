/-
# HeavenFox.Logic.Paged -- an array that is kept in pages

A small library with nothing of the kernel in it.  An array is kept in pages of `size` entries, and
page `b` of it is in the cell `page b` of a store; `flat` numbers its entries through.  A range of it
that is copied into a buffer (`splice`) is put together from the parts that the pages give, one
behind the other (`splice_splice`) or one inside of the other (`splice_inside`).
-/
import Mathlib.Tactic.SplitIfs

namespace HeavenFox.Logic

variable {α β : Type*}

/-! ## Writes -/

/-- The array `f` with the first `n` entries of `d` from `p` on. -/
def splice (f : Nat → β) (p n : Nat) (d : Nat → β) : Nat → β :=
  fun k => if p ≤ k ∧ k < p + n then d (k - p) else f k

variable {f g d : Nat → β} {p n m k : Nat}

theorem splice_of_in (hlo : p ≤ k) (hhi : k < p + n) : splice f p n d k = d (k - p) :=
  if_pos ⟨hlo, hhi⟩

theorem splice_of_out (h : ¬ (p ≤ k ∧ k < p + n)) : splice f p n d k = f k := if_neg h

@[simp] theorem splice_zero : splice f p 0 d = f := by
  funext k
  exact splice_of_out (by omega)

/-- Two writes, one behind the other. -/
theorem splice_splice :
    splice (splice f p n d) (p + n) m (fun i => d (n + i)) = splice f p (n + m) d := by
  funext k
  unfold splice
  by_cases hfirst : p ≤ k ∧ k < p + n
  · rw [if_neg (by omega), if_pos hfirst, if_pos (by omega)]
  · by_cases hsecond : p + n ≤ k ∧ k < p + n + m
    · rw [if_pos hsecond, if_pos (by omega)]
      exact congrArg d (by omega)
    · rw [if_neg hsecond, if_neg hfirst, if_neg (by omega)]

/-- A write inside of what has been written. -/
theorem splice_inside {q : Nat} {e : Nat → β} (hq : q + m ≤ n) :
    splice (splice f p n d) (p + q) m e = splice f p n (splice d q m e) := by
  funext k
  unfold splice
  by_cases hin : p + q ≤ k ∧ k < p + q + m
  · rw [if_pos hin, if_pos (by omega), if_pos (by omega)]
    exact congrArg e (by omega)
  · rw [if_neg hin]
    by_cases hout : p ≤ k ∧ k < p + n
    · rw [if_pos hout, if_pos hout, if_neg (by omega)]
    · rw [if_neg hout, if_neg hout]

/-- Only the entries that are written count. -/
theorem splice_congr {d' : Nat → β} (hf : f k = g k) (hd : ∀ i < n, d i = d' i) :
    splice f p n d k = splice g p n d' k := by
  unfold splice
  split_ifs with hin
  · exact hd (k - p) (by omega)
  · exact hf

/-! ## Pages -/

/-- The entries of the array that is kept in the cells `page 0`, `page 1`, .. -/
def flat (size : Nat) (page : Nat → α) (cell : α → Nat → β) (k : Nat) : β :=
  cell (page (k / size)) (k % size)

variable {size b : Nat} {page : Nat → α} {cell : α → Nat → β}

/-- An entry, counted from the beginning of a page. -/
theorem flat_add (hsize : 0 < size) (i : Nat) :
    flat size page cell (b * size + i) = cell (page (b + i / size)) (i % size) := by
  rw [flat, Nat.mul_comm, Nat.mul_add_div hsize, Nat.mul_add_mod]

end HeavenFox.Logic
