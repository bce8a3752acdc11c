/-
# HeavenFox.Logic.Slots -- how many slots of an array are taken

A small library with nothing of the kernel in it.  A slot is taken when it is not 0.
Filling an empty slot and clearing a taken one change the count by one, and as long as
fewer slots are taken or set aside than there are, one is free.
-/
import Mathlib.Data.Finset.Card
import Mathlib.Data.Finset.Range

namespace HeavenFox.Logic

/-- The number of the first `n` slots that are taken. -/
def taken (a : Nat → Nat) (n : Nat) : Nat := ((Finset.range n).filter fun i => a i ≠ 0).card

variable {a : Nat → Nat} {n i : Nat}

/-- **Filling an empty slot.** -/
theorem taken_fill {v : Nat} (hi : i < n) (hempty : a i = 0) (hv : v ≠ 0) :
    taken (Function.update a i v) n = taken a n + 1 := by
  have hset : (Finset.range n).filter (fun j => Function.update a i v j ≠ 0) =
      insert i ((Finset.range n).filter fun j => a j ≠ 0) := by
    ext j
    by_cases hj : j = i
    · subst hj
      simp [hi, hv]
    · simp [hj]
  rw [taken, hset, Finset.card_insert_of_notMem (by simp [hempty]), taken]

/-- **Clearing a taken slot.** -/
theorem taken_clear (hi : i < n) (htaken : a i ≠ 0) :
    taken (Function.update a i 0) n + 1 = taken a n := by
  have h := taken_fill (a := Function.update a i 0) (v := a i) hi (Function.update_self i 0 a) htaken
  rwa [Function.update_idem, Function.update_eq_self, eq_comm] at h

/-- **A free slot.** -/
theorem exists_free {reserved : List Nat} (h : taken a n + reserved.length < n) :
    ∃ i < n, a i = 0 ∧ i ∉ reserved := by
  by_contra hnone
  have hcover : Finset.range n ⊆
      ((Finset.range n).filter fun i => a i ≠ 0) ∪ reserved.toFinset := by
    intro i hi
    rw [Finset.mem_union, Finset.mem_filter, List.mem_toFinset]
    by_contra hi'
    refine hnone ⟨i, Finset.mem_range.mp hi, ?_, fun hmem => hi' (.inr hmem)⟩
    by_contra htaken
    exact hi' (.inl ⟨hi, htaken⟩)
  have hcard := (Finset.card_le_card hcover).trans (Finset.card_union_le _ _)
  have hreserved := reserved.toFinset_card_le
  rw [Finset.card_range] at hcard
  unfold taken at h
  omega

end HeavenFox.Logic
