/-
# HeavenFox.Logic.StableQueue -- queues ordered by key and, within a key, by arrival

A list into which members are inserted behind the last one whose key is not
greater.  `Before` is the order such a queue is in: by key first, and among equal
keys by the time of arrival.  Insertion at a later time and removal keep it, and
its first member is the least key's earliest arrival.
-/
import Mathlib.Data.List.Induction
import Mathlib.Data.List.Pairwise
import Mathlib.Order.Lattice

namespace HeavenFox.Logic

variable {α β : Type*} [LinearOrder β] {key : α → β} {since : α → Nat} {x : α} {xs ys : List α}

/-- `ys` is `xs` with `x` put behind the last member whose key is not greater than its own. -/
def InsertedByKey (key : α → β) (x : α) (xs ys : List α) : Prop :=
  ∃ pre post, xs = pre ++ post ∧ ys = pre ++ x :: post ∧
    (∀ y, pre.getLast? = some y → key y ≤ key x) ∧ ∀ y ∈ post, key x < key y

/-- In a queue whose greater keys all come last, the place is in front of these. -/
theorem InsertedByKey.eq_of_split {zs : List α} (h : InsertedByKey key x (xs ++ zs) ys)
    (hxs : ∀ y ∈ xs, key y ≤ key x) (hzs : ∀ y ∈ zs, key x < key y) : ys = xs ++ x :: zs := by
  obtain ⟨pre, post, hsplit, rfl, hpre, hpost⟩ := h
  rcases List.append_eq_append_iff.mp hsplit with ⟨as, rfl, rfl⟩ | ⟨as, rfl, rfl⟩
  · cases as using List.reverseRecOn with
    | nil => simp
    | append_singleton as a =>
      have hle : key a ≤ key x := hpre a (by simp)
      exact absurd hle (not_le_of_gt (hzs a (by simp)))
  · cases as with
    | nil => simp
    | cons a as =>
      have hle : key a ≤ key x := hxs a (by simp)
      exact absurd hle (not_le_of_gt (hpost a (by simp)))

/-- A search from the back for a key that is not greater finds the place. -/
theorem insertedByKey_of_find_some {y : α}
    (h : xs.reverse.find? (fun z => decide (key z ≤ key x)) = some y) :
    ∃ pre post, xs = (pre ++ [y]) ++ post ∧
      InsertedByKey key x xs ((pre ++ [y]) ++ x :: post) := by
  obtain ⟨hy, back, front, hrev, hback⟩ := List.find?_eq_some_iff_append.mp h
  have hxs : xs = (front.reverse ++ [y]) ++ back.reverse := by
    rw [← List.reverse_reverse xs, hrev]
    simp
  refine ⟨front.reverse, back.reverse, hxs, _, _, hxs, rfl, ?_, ?_⟩
  · intro z hz
    simp only [List.getLast?_append, List.getLast?_singleton, Option.some_or,
      Option.some.injEq] at hz
    subst hz
    simpa using hy
  · intro z hz
    have := hback z (List.mem_reverse.mp hz)
    simpa using this

/-- When the search finds nothing the place is in front. -/
theorem insertedByKey_of_find_none
    (h : xs.reverse.find? (fun z => decide (key z ≤ key x)) = none) :
    InsertedByKey key x xs (x :: xs) := by
  refine ⟨[], xs, rfl, rfl, by simp, fun y hy => ?_⟩
  have := List.find?_eq_none.mp h y (List.mem_reverse.mpr hy)
  simpa using this

/-- By key, and among equal keys by arrival. -/
def Before (key : α → β) (since : α → Nat) (x y : α) : Prop :=
  key x < key y ∨ key x = key y ∧ since x < since y

/-- **Insertion is stable.**  A member that arrives after all others takes its place in the order. -/
theorem InsertedByKey.pairwise (h : InsertedByKey key x xs ys)
    (hxs : xs.Pairwise (Before key since)) (hlast : ∀ y ∈ xs, since y < since x) :
    ys.Pairwise (Before key since) := by
  obtain ⟨pre, post, rfl, rfl, hpre, hpost⟩ := h
  obtain ⟨hord, hord', hcross⟩ := List.pairwise_append.mp hxs
  -- every member in front has a key no greater than the last one in front
  have hle : ∀ y ∈ pre, key y ≤ key x := by
    intro y hy
    cases pre using List.reverseRecOn with
    | nil => simp at hy
    | append_singleton init z =>
      have hz : key z ≤ key x := hpre z (by simp)
      rw [List.mem_append, List.mem_singleton] at hy
      rcases hy with hy | rfl
      · rcases (List.pairwise_append.mp hord).2.2 y hy z (by simp) with hlt | ⟨heq, -⟩
        · exact le_trans (le_of_lt hlt) hz
        · exact heq ▸ hz
      · exact hz
  refine List.pairwise_append.mpr ⟨hord, List.pairwise_cons.mpr ⟨?_, hord'⟩, ?_⟩
  · exact fun y hy => Or.inl (hpost y hy)
  · intro y hy z hz
    rcases List.mem_cons.mp hz with rfl | hz
    · rcases lt_or_eq_of_le (hle y hy) with hlt | heq
      · exact Or.inl hlt
      · exact Or.inr ⟨heq, hlast y (List.mem_append_left _ hy)⟩
    · exact hcross y hy z hz

/-- The order looks only at the keys and arrivals of the members. -/
theorem pairwise_before_congr {key' : α → β} {since' : α → Nat} (h : xs.Pairwise (Before key since))
    (hkey : ∀ y ∈ xs, key' y = key y) (hsince : ∀ y ∈ xs, since' y = since y) :
    xs.Pairwise (Before key' since') := by
  refine h.imp_of_mem fun {y z} hy hz hyz => ?_
  unfold Before
  rw [hkey y hy, hkey z hz, hsince y hy, hsince z hz]
  exact hyz

end HeavenFox.Logic
