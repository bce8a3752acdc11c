/-
# HeavenFox.Logic.Follow -- loops that follow pointers

A small library with nothing of the kernel in it.  Every round of a loop looks at one object:
it fails, it ends the loop with a result, or it names the object of the next round.  `follow`
is such a loop, given rounds.

`follow_ok_iff` says when a loop over finitely many objects ends: nothing that the rounds
come to fails, and nothing that they come to leads back to itself.
-/
import Mathlib.Logic.Relation
import Mathlib.Data.List.Basic

namespace HeavenFox.Logic

open Relation

variable {α β ε : Type*}

/-- Follow the objects one after another; `spins` is what it is to run out of rounds. -/
def follow (round : α → Except ε (β ⊕ α)) (spins : ε) : Nat → α → Except ε β
  | 0, _ => .error spins
  | rounds + 1, x =>
    match round x with
    | .error e => .error e
    | .ok (.inl b) => .ok b
    | .ok (.inr y) => follow round spins rounds y

/-- The round of `x` goes on with `y`. -/
def GoesOn (round : α → Except ε (β ⊕ α)) (x y : α) : Prop := round x = .ok (.inr y)

/-- A round that does not fail. -/
def Passes (round : α → Except ε (β ⊕ α)) (x : α) : Prop := ∃ next, round x = .ok next

variable {round : α → Except ε (β ⊕ α)} {spins : ε} {x y : α} {b : β} {rounds : Nat}

theorem follow_goesOn (h : GoesOn round x y) :
    follow round spins (rounds + 1) x = follow round spins rounds y := by
  have h' : round x = .ok (.inr y) := h
  rw [follow, h']

theorem passes_of_follow (h : follow round spins rounds x = .ok b) : Passes round x := by
  cases rounds with
  | zero => cases h
  | succ rounds =>
    rw [follow] at h
    cases hx : round x with
    | error e =>
      rw [hx] at h
      cases h
    | ok next => exact ⟨next, hx⟩

/-- From what a loop comes to it ends as well, in as many rounds at most. -/
theorem follow_reached (h : follow round spins rounds x = .ok b)
    (hxy : ReflTransGen (GoesOn round) x y) :
    ∃ r, r ≤ rounds ∧ follow round spins r y = .ok b := by
  induction hxy using ReflTransGen.head_induction_on generalizing rounds with
  | refl => exact ⟨rounds, Nat.le_refl rounds, h⟩
  | @head x z hxz _ ih =>
    cases rounds with
    | zero => cases h
    | succ rounds =>
      rw [follow_goesOn hxz] at h
      obtain ⟨r, hr, hrun⟩ := ih h
      exact ⟨r, Nat.le_succ_of_le hr, hrun⟩

/-- A loop that ends does not begin on a cycle. -/
theorem not_cycle_of_follow (h : follow round spins rounds x = .ok b) :
    ¬ TransGen (GoesOn round) x x := by
  -- the rounds that are left when the cycle closes
  induction rounds using Nat.strongRecOn with
  | ind rounds ih =>
    intro hcycle
    obtain ⟨y, hxy, hyx⟩ := TransGen.head'_iff.mp hcycle
    cases rounds with
    | zero => cases h
    | succ rounds =>
      rw [follow_goesOn hxy] at h
      obtain ⟨r, hr, hrun⟩ := follow_reached h hyx
      exact ih r (Nat.lt_succ_of_le hr) hrun hcycle

/-- Among finitely many objects, a loop ends that comes to no failure and to no cycle. -/
theorem follow_of_acyclic {xs : List α} (hxs : ∀ y, ReflTransGen (GoesOn round) x y → y ∈ xs)
    (hpass : ∀ y, ReflTransGen (GoesOn round) x y → Passes round y)
    (hcycle : ∀ y, ReflTransGen (GoesOn round) x y → ¬ TransGen (GoesOn round) y y)
    (hrounds : xs.length < rounds) : ∃ b, follow round spins rounds x = .ok b := by
  classical
  -- no round comes back to the object of this one
  induction rounds generalizing x xs with
  | zero => omega
  | succ rounds ih =>
    have hx := hxs x .refl
    obtain ⟨next, hnext⟩ := hpass x .refl
    cases next with
    | inl b => exact ⟨b, by rw [follow, hnext]⟩
    | inr y =>
      have hxy : GoesOn round x y := hnext
      have hlater : ∀ z, ReflTransGen (GoesOn round) y z → z ∈ xs.erase x := by
        intro z hyz
        have hne : z ≠ x := by
          rintro rfl
          exact hcycle z .refl (TransGen.head' hxy hyz)
        exact (List.mem_erase_of_ne hne).mpr (hxs z (.head hxy hyz))
      have hlen : (xs.erase x).length < rounds := by
        rw [List.length_erase_of_mem hx]
        have := List.length_pos_of_mem hx
        omega
      obtain ⟨b, hb⟩ := ih hlater (fun z hz => hpass z (.head hxy hz))
        (fun z hz => hcycle z (.head hxy hz)) hlen
      exact ⟨b, by rw [follow_goesOn hxy, hb]⟩

/-- **When a loop over finitely many objects ends.** -/
theorem follow_ok_iff (spins : ε) {xs : List α}
    (hclosed : ∀ y ∈ xs, ∀ z, GoesOn round y z → z ∈ xs) (hx : x ∈ xs)
    (hrounds : xs.length < rounds) :
    (∃ b, follow round spins rounds x = .ok b) ↔
      ∀ y, ReflTransGen (GoesOn round) x y → Passes round y ∧ ¬ TransGen (GoesOn round) y y := by
  constructor
  · rintro ⟨b, hb⟩ y hxy
    obtain ⟨r, -, hr⟩ := follow_reached hb hxy
    exact ⟨passes_of_follow hr, not_cycle_of_follow hr⟩
  · intro h
    have hxs : ∀ y, ReflTransGen (GoesOn round) x y → y ∈ xs := by
      intro y hxy
      induction hxy with
      | refl => exact hx
      | tail _ hyz ih => exact hclosed _ ih _ hyz
    exact follow_of_acyclic hxs (fun y hy => (h y hy).1) (fun y hy => (h y hy).2) hrounds

/-- The round that ends a loop. -/
theorem follow_last (h : follow round spins rounds x = .ok b) :
    ∃ y, ReflTransGen (GoesOn round) x y ∧ round y = .ok (.inl b) := by
  induction rounds generalizing x with
  | zero => cases h
  | succ rounds ih =>
    cases hx : round x with
    | error e =>
      rw [follow, hx] at h
      cases h
    | ok next =>
      cases next with
      | inl b' =>
        rw [follow, hx] at h
        cases h
        exact ⟨x, .refl, hx⟩
      | inr y =>
        have hxy : GoesOn round x y := hx
        rw [follow_goesOn hxy] at h
        obtain ⟨z, hyz, hz⟩ := ih h
        exact ⟨z, .head hxy hyz, hz⟩

end HeavenFox.Logic
