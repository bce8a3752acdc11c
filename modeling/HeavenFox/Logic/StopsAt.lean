/-
# HeavenFox.Logic.StopsAt -- logs in which nothing comes after a fault

A log stops at its faults if whatever is bad in it stands at the end.  What is put in front of such a
log without being bad does not matter, and one bad entry may be put behind entries that are not.
-/
import Mathlib.Data.List.Basic

namespace HeavenFox.Logic

variable {α : Type*} {bad : α → Prop} {l m : List α} {e : α}

/-- Nothing comes after a bad entry. -/
def StopsAt (bad : α → Prop) (l : List α) : Prop :=
  ∀ pre e post, l = pre ++ e :: post → bad e → post = []

theorem stopsAt_nil : StopsAt bad [] := by
  intro pre e post h
  simp at h

theorem stopsAt_cons (h : ¬ bad e) : StopsAt bad (e :: l) ↔ StopsAt bad l := by
  constructor
  · intro hl pre e' post heq hbad
    exact hl (e :: pre) e' post (by rw [heq, List.cons_append]) hbad
  · intro hl pre e' post heq hbad
    rcases List.cons_eq_append_iff.mp heq with ⟨rfl, hhead⟩ | ⟨pre', rfl, htail⟩
    · -- the entry in front is not the bad one
      rw [List.cons.injEq] at hhead
      exact absurd (hhead.1 ▸ hbad) h
    · exact hl pre' e' post htail hbad

/-- Entries that are not bad may come first. -/
theorem stopsAt_append (h : ∀ e ∈ l, ¬ bad e) : StopsAt bad (l ++ m) ↔ StopsAt bad m := by
  induction l with
  | nil => rfl
  | cons e l ih =>
    rw [List.cons_append, stopsAt_cons (h e List.mem_cons_self)]
    exact ih fun e' he' => h e' (List.mem_cons_of_mem _ he')

theorem stopsAt_of_none (h : ∀ e ∈ l, ¬ bad e) : StopsAt bad l := by
  rw [← List.append_nil l, stopsAt_append h]
  exact stopsAt_nil

/-- Behind them there may be one entry of any kind. -/
theorem stopsAt_snoc (h : ∀ e ∈ l, ¬ bad e) (e : α) : StopsAt bad (l ++ [e]) := by
  rw [stopsAt_append h]
  intro pre e' post heq _
  have hlength := congrArg List.length heq
  simp only [List.length_cons, List.length_nil, List.length_append] at hlength
  exact List.length_eq_zero_iff.mp (by omega)

end HeavenFox.Logic
