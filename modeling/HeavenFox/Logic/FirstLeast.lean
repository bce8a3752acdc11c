/-
# HeavenFox.Logic.FirstLeast -- a running minimum over a table

A scan of a table keeps the place of the best entry so far and takes a new one only if that is
strictly better.  What it ends with is the first of the entries with the least value.  The rules say
how a better entry, one that is not better and one that cannot be bettered carry this along.
-/
import Mathlib.Order.Lattice

namespace HeavenFox.Logic

variable {α β : Type*} [LinearOrder β] {f : α → β} {l rest : List α} {a b : α} {i : Nat}

/-- At place `i` there is the first of the entries with the least value, `a`. -/
structure FirstLeast (f : α → β) (l : List α) (i : Nat) (a : α) : Prop where
  place : l[i]? = some a
  least : ∀ b ∈ l, f a ≤ f b
  first : ∀ b ∈ l.take i, f a < f b

theorem FirstLeast.mem (h : FirstLeast f l i a) : a ∈ l := List.mem_of_getElem? h.place

theorem FirstLeast.lt_length (h : FirstLeast f l i a) : i < l.length :=
  (List.getElem?_eq_some_iff.mp h.place).1

/-- An entry that is better than all before it. -/
theorem FirstLeast.better (h : ∀ b ∈ l, f a < f b) : FirstLeast f (l ++ [a]) l.length a where
  place := List.getElem?_concat_length
  least := by
    intro b hb
    rcases List.mem_append.mp hb with hb | hb
    · exact (h b hb).le
    · rw [List.mem_singleton.mp hb]
  first := by
    rw [List.take_left]
    exact h

/-- What follows is not better. -/
theorem FirstLeast.append (h : FirstLeast f l i a) (hrest : ∀ b ∈ rest, f a ≤ f b) :
    FirstLeast f (l ++ rest) i a where
  place := by
    rw [List.getElem?_append_left h.lt_length]
    exact h.place
  least := by
    intro b hb
    rcases List.mem_append.mp hb with hb | hb
    · exact h.least b hb
    · exact hrest b hb
  first := by
    rw [List.take_append_of_le_length (Nat.le_of_lt h.lt_length)]
    exact h.first

/-- All that was seen is worse than an entry that is better than the best of it. -/
theorem FirstLeast.worse (h : FirstLeast f l i a) (hb : f b < f a) : ∀ c ∈ l, f b < f c :=
  fun c hc => lt_of_lt_of_le hb (h.least c hc)

end HeavenFox.Logic
