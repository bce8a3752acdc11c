/-
# HeavenFox.Logic.Rings -- several lists threaded through the same link fields

A family of rings, one for each index that `I` admits, no two of which share a
node.  The list `q i` is a list of objects; `link i` gives the link field by which
an object is on that list.  An edit of one ring leaves the others alone:
`Rings.insert` puts an object of no ring at a place of one, and `Rings.remove`
takes a member off.
-/
import HeavenFox.Logic.Ring

namespace HeavenFox.Logic

variable {α β ι : Type*}

/-- The node list of a ring: its head and the links of its members. -/
def ringNodes (head : ι → α) (link : ι → β → α) (q : ι → List β) (i : ι) : List α :=
  head i :: (q i).map (link i)

/-- The rings with heads `head i` and members `q i`. -/
structure Rings (l : Links α) (I : ι → Prop) (head : ι → α) (link : ι → β → α) (q : ι → List β) :
    Prop where
  ring : ∀ i, I i → Ring l (head i) ((q i).map (link i))
  apart : ∀ i j, I i → I j → i ≠ j →
    List.Disjoint (ringNodes head link q i) (ringNodes head link q j)

namespace Rings

variable {l : Links α} {I : ι → Prop} {head : ι → α} {link : ι → β → α} {q : ι → List β}
  {i j : ι} {a : α} {y : β} {pre post : List β}

theorem not_mem_of_mem (h : Rings l I head link q) (hi : I i) (hj : I j) (hij : i ≠ j)
    (ha : a ∈ ringNodes head link q i) : a ∉ ringNodes head link q j :=
  fun hb => h.apart i j hi hj hij ha hb

/-- The node before a place of a ring is on the ring. -/
theorem before_mem (hq : q i = pre ++ post) :
    Ring.before (head i) (pre.map (link i)) ∈ ringNodes head link q i := by
  rw [ringNodes, hq, List.map_append, ← List.cons_append]
  exact List.mem_append_left _ (Ring.before_mem (head i) _)

variable [DecidableEq ι]

/-- A change of the members of one ring, all of them new or its own, keeps the rings apart. -/
theorem apart_update {ys : List β} (h : Rings l I head link q) (hi : I i)
    (hys : ∀ a ∈ ys, a ∈ q i ∨ ∀ j, I j → link i a ∉ ringNodes head link q j) :
    ∀ j k, I j → I k → j ≠ k →
      List.Disjoint (ringNodes head link (Function.update q i ys) j)
        (ringNodes head link (Function.update q i ys) k) := by
  have hself : ∀ k, I k → i ≠ k →
      List.Disjoint (head i :: ys.map (link i)) (ringNodes head link q k) := by
    intro k hk hik a ha hb
    rcases List.mem_cons.mp ha with rfl | ha
    · exact h.apart i k hi hk hik List.mem_cons_self hb
    · obtain ⟨x, hx, rfl⟩ := List.mem_map.mp ha
      rcases hys x hx with hq | hnew
      · exact h.apart i k hi hk hik (List.mem_cons_of_mem _ (List.mem_map_of_mem hq)) hb
      · exact hnew k hk hb
  have hother : ∀ k, k ≠ i → ringNodes head link (Function.update q i ys) k =
      ringNodes head link q k := by
    intro k hk
    rw [ringNodes, Function.update_of_ne hk, ringNodes]
  have hown : ringNodes head link (Function.update q i ys) i = head i :: ys.map (link i) := by
    rw [ringNodes, Function.update_self]
  intro j k hj hk hjk
  by_cases hji : j = i
  · subst hji
    rw [hown, hother k (Ne.symm hjk)]
    exact hself k hk hjk
  · rw [hother j hji]
    by_cases hki : k = i
    · subst hki
      rw [hown]
      exact fun a ha hb => hself j hj (Ne.symm hji) hb ha
    · rw [hother k hki]
      exact h.apart j k hj hk hjk

variable [DecidableEq α]

/-- **Insertion.**  An object of no ring is put at a place of one. -/
theorem insert (h : Rings l I head link q) (hi : I i) (hq : q i = pre ++ post)
    (hy : ∀ j, I j → link i y ∉ ringNodes head link q j) :
    Rings (l.insertAfter (Ring.before (head i) (pre.map (link i))) (link i y)) I head link
      (Function.update q i (pre ++ y :: post)) := by
  have r := h.ring i hi
  have hbefore : Ring.before (head i) (pre.map (link i)) ∈ ringNodes head link q i := before_mem hq
  refine ⟨fun j hj => ?_, h.apart_update hi fun a ha => ?_⟩
  · by_cases hji : j = i
    · subst hji
      have hnew := hy j hj
      rw [ringNodes, hq, List.map_append] at hnew
      rw [hq, List.map_append] at r
      rw [Function.update_self, List.map_append, List.map_cons]
      exact r.insertAfter hnew
    · rw [Function.update_of_ne hji]
      have hij : i ≠ j := Ne.symm hji
      exact (h.ring j hj).insertAfter_of_outside (h.not_mem_of_mem hi hj hij hbefore) (hy j hj)
        (h.not_mem_of_mem hi hj hij (r.next_mem hbefore))
  · simp only [List.mem_append, List.mem_cons] at ha
    rcases ha with ha | rfl | ha
    · exact Or.inl (by simp [hq, ha])
    · exact Or.inr hy
    · exact Or.inl (by simp [hq, ha])

/-- **Removal.**  A member is taken off its ring. -/
theorem remove (h : Rings l I head link q) (hi : I i) (hq : q i = pre ++ y :: post) :
    Rings (l.unlink (link i y)) I head link (Function.update q i (pre ++ post)) := by
  have r := h.ring i hi
  have hmem : link i y ∈ ringNodes head link q i := by simp [ringNodes, hq]
  refine ⟨fun j hj => ?_, h.apart_update hi fun a ha => Or.inl ?_⟩
  · by_cases hji : j = i
    · subst hji
      rw [hq, List.map_append, List.map_cons] at r
      rw [Function.update_self, List.map_append]
      exact r.unlink
    · rw [Function.update_of_ne hji]
      have hij : i ≠ j := Ne.symm hji
      exact (h.ring j hj).unlink_of_outside (h.not_mem_of_mem hi hj hij (r.prev_mem hmem))
        (h.not_mem_of_mem hi hj hij (r.next_mem hmem))
  · simp only [List.mem_append] at ha
    rcases ha with ha | ha <;> simp [hq, ha]

omit [DecidableEq ι] in
/-- A node of no ring can be linked to itself. -/
theorem selfLink (h : Rings l I head link q) (ha : ∀ j, I j → a ∉ ringNodes head link q j) :
    Rings (l.selfLink a) I head link q :=
  ⟨fun j hj => (h.ring j hj).selfLink_of_outside (ha j hj), h.apart⟩

end Rings

end HeavenFox.Logic
