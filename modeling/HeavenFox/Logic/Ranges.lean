/-
# HeavenFox.Logic.Ranges -- lists of ranges

A small library with nothing of the kernel in it.  A range is its first number and
how many there are; a list of things that each have a range is in order when each
range ends before the next begins, so the ranges are disjoint as well.  Inserting
before the first range that does not end before the new one keeps the order, as
soon as that one range is apart from the new one.
-/
import Mathlib.Data.List.Pairwise

namespace HeavenFox.Logic

/-- The numbers from `base` on, `count` of them. -/
structure Range where
  base : Nat
  count : Nat
  deriving DecidableEq, Repr

namespace Range

/-- `r` ends before `s` begins. -/
def Before (r s : Range) : Prop := r.base + r.count ≤ s.base

/-- No number is in both ranges. -/
def Apart (r s : Range) : Prop := r.Before s ∨ s.Before r

instance (r s : Range) : Decidable (r.Before s) := inferInstanceAs (Decidable (_ ≤ _))

instance (r s : Range) : Decidable (r.Apart s) := inferInstanceAs (Decidable (_ ∨ _))

/-- The number is in the range. -/
def Holds (r : Range) (d : Nat) : Prop := r.base ≤ d ∧ d < r.base + r.count

instance (r : Range) (d : Nat) : Decidable (r.Holds d) := inferInstanceAs (Decidable (_ ∧ _))

/-- A number is in one of two ranges that are apart. -/
theorem Apart.not_holds {r s : Range} (h : r.Apart s) {d : Nat} (hd : r.Holds d) :
    ¬ s.Holds d := by
  have hlo := hd.1
  have hhi := hd.2
  unfold Apart Before at h
  unfold Holds
  omega

end Range

variable {α : Type*} (range : α → Range)

variable {range} in
/-- Where the ranges are apart, a number is in one of them at most. -/
theorem Range.eq_of_holds {l : List α} (h : l.Pairwise fun a b => (range a).Apart (range b)) {a b : α}
    (ha : a ∈ l) (hb : b ∈ l) {d : Nat} (hda : (range a).Holds d) (hdb : (range b).Holds d) :
    a = b := by
  induction h with
  | nil => exact absurd ha List.not_mem_nil
  | cons hhead _ ih =>
    rcases List.mem_cons.mp ha with rfl | hatail
    · rcases List.mem_cons.mp hb with rfl | hbtail
      · rfl
      · exact absurd hdb ((hhead b hbtail).not_holds hda)
    · rcases List.mem_cons.mp hb with rfl | hbtail
      · exact absurd hda ((hhead a hatail).not_holds hdb)
      · exact ih hatail hbtail

/-- The ranges are in order, and none of them is empty. -/
structure InOrder (l : List α) : Prop where
  before : l.Pairwise fun a b => (range a).Before (range b)
  nonempty : ∀ a ∈ l, 0 < (range a).count

namespace InOrder

variable {range} {l : List α}

theorem nil : InOrder range [] := ⟨List.Pairwise.nil, fun _ h => absurd h List.not_mem_nil⟩

theorem sublist {l' : List α} (h : InOrder range l) (hl : l'.Sublist l) : InOrder range l' :=
  ⟨h.before.sublist hl, fun a ha => h.nonempty a (hl.subset ha)⟩

/-- In order of the first numbers. -/
theorem sorted (h : InOrder range l) : l.Pairwise fun a b => (range a).base < (range b).base := by
  refine h.before.imp_of_mem fun {a b} ha hb hab => ?_
  have hcount := h.nonempty a ha
  unfold Range.Before at hab
  omega

theorem apart (h : InOrder range l) : l.Pairwise fun a b => (range a).Apart (range b) :=
  h.before.imp fun hab => .inl hab

/-- **Insertion.**  The new range goes behind those that end before it, and only the one it is put
in front of has to be apart from it. -/
theorem insert {x : α} {l₁ l₂ : List α} (h : InOrder range (l₁ ++ l₂)) (hx : 0 < (range x).count)
    (hfront : ∀ a ∈ l₁, (range a).Before (range x))
    (hback : ∀ a ∈ l₂.head?, (range x).Before (range a)) : InOrder range (l₁ ++ x :: l₂) := by
  have hpair := List.pairwise_append.mp h.before
  have hrest : ∀ a ∈ l₂, (range x).Before (range a) := by
    cases l₂ with
    | nil => exact fun a ha => absurd ha List.not_mem_nil
    | cons b l₂ =>
      intro a ha
      have hb : (range x).Before (range b) := hback b rfl
      rcases List.mem_cons.mp ha with rfl | ha
      · exact hb
      · have hab := (List.pairwise_cons.mp hpair.2.1).1 a ha
        unfold Range.Before at hb hab ⊢
        omega
  refine ⟨List.pairwise_append.mpr ⟨hpair.1, List.pairwise_cons.mpr ⟨hrest, hpair.2.1⟩, ?_⟩, ?_⟩
  · intro a ha b hb
    rcases List.mem_cons.mp hb with rfl | hb
    · exact hfront a ha
    · exact hpair.2.2 a ha b hb
  · intro a ha
    rcases List.mem_append.mp ha with ha | ha
    · exact h.nonempty a (List.mem_append_left _ ha)
    · rcases List.mem_cons.mp ha with rfl | ha
      · exact hx
      · exact h.nonempty a (List.mem_append_right _ ha)

end InOrder

end HeavenFox.Logic
