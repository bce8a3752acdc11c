/-
# HeavenFox.Logic.Ring -- circular doubly linked lists threaded through a link field

A library for intrusive lists: every node of a type `α` owns one pair of link
fields, and `Links α` is the contents of all of them at once.  A head `h` with
members `xs` forms a `Ring` when walking forwards from `h` meets `xs` in order
and comes back to `h`, walking backwards meets them in reverse, and no node
occurs twice.

`Path l x ys z` is the open version: from `x` through `ys` to `z`, with both
directions of every hop in place.  It reads the `next` field of `x :: ys` and
the `prev` field of `ys ++ [z]` and nothing else (`Path.congr`), which is what
makes an edit at one place of a ring local.  The two edits are `insertAfter` and
`unlink`.
-/
import Mathlib.Data.List.Induction
import Mathlib.Data.List.Nodup
import Mathlib.Logic.Function.Basic
import Mathlib.Tactic.ByContra

namespace HeavenFox.Logic

variable {α : Type*}

/-- The link fields of all nodes. -/
structure Links (α : Type*) where
  prev : α → α
  next : α → α

namespace Links

/-! ## Field writes -/

section Writes

variable [DecidableEq α]

/-- Write the `next` field of `a`. -/
def setNext (l : Links α) (a b : α) : Links α :=
  { l with next := Function.update l.next a b }

/-- Write the `prev` field of `a`. -/
def setPrev (l : Links α) (a b : α) : Links α :=
  { l with prev := Function.update l.prev a b }

@[simp] theorem setNext_prev (l : Links α) (a b : α) : (l.setNext a b).prev = l.prev := rfl

@[simp] theorem setPrev_next (l : Links α) (a b : α) : (l.setPrev a b).next = l.next := rfl

@[simp] theorem setNext_next (l : Links α) (a b x : α) :
    (l.setNext a b).next x = if x = a then b else l.next x := by
  by_cases h : x = a
  · subst h
    simp [setNext]
  · simp [setNext, h]

@[simp] theorem setPrev_prev (l : Links α) (a b x : α) :
    (l.setPrev a b).prev x = if x = a then b else l.prev x := by
  by_cases h : x = a
  · subst h
    simp [setPrev]
  · simp [setPrev, h]

/-- Make `y` the node right after `x`. -/
def insertAfter (l : Links α) (x y : α) : Links α :=
  let n := l.next x
  (((l.setPrev y x).setNext x y).setNext y n).setPrev n y

/-- Join the neighbours of `y`; its own link fields keep their contents. -/
def unlink (l : Links α) (y : α) : Links α :=
  let p := l.prev y
  let n := l.next y
  (l.setNext p n).setPrev n p

/-- Point both link fields of `x` at `x` itself. -/
def selfLink (l : Links α) (x : α) : Links α :=
  (l.setNext x x).setPrev x x

end Writes

/-! ## Paths -/

/-- `y` is right after `x`, in both directions. -/
def Linked (l : Links α) (x y : α) : Prop := l.next x = y ∧ l.prev y = x

/-- From `x` through `ys` to `z`. -/
def Path (l : Links α) : α → List α → α → Prop
  | x, [], z => l.Linked x z
  | x, y :: ys, z => l.Linked x y ∧ Path l y ys z

theorem path_cons {l : Links α} {x y z : α} {ys : List α} :
    l.Path x (y :: ys) z ↔ l.Linked x y ∧ l.Path y ys z := Iff.rfl

theorem path_append {l : Links α} {x y z : α} {ys zs : List α} :
    l.Path x (ys ++ y :: zs) z ↔ l.Path x ys y ∧ l.Path y zs z := by
  induction ys generalizing x with
  | nil => rfl
  | cons w ys ih => simp only [List.cons_append, path_cons, ih, and_assoc]

/-- A path reads `next` of all its nodes but the last and `prev` of all but the first. -/
theorem Path.congr {l l' : Links α} {x z : α} {ys : List α} (h : l.Path x ys z)
    (hnext : ∀ a ∈ x :: ys, l'.next a = l.next a)
    (hprev : ∀ b ∈ ys ++ [z], l'.prev b = l.prev b) : l'.Path x ys z := by
  induction ys generalizing x with
  | nil => exact ⟨(hnext x (by simp)).trans h.1, (hprev z (by simp)).trans h.2⟩
  | cons y ys ih =>
    refine ⟨⟨(hnext x (by simp)).trans h.1.1, (hprev y (by simp)).trans h.1.2⟩, ?_⟩
    exact ih h.2 (fun a ha => hnext a (List.mem_cons_of_mem x ha))
      (fun b hb => hprev b (List.mem_cons_of_mem y hb))

/-- The successor of a path's start is met before anything else on it. -/
theorem Path.next_mem {l : Links α} {x z : α} {ys : List α} (h : l.Path x ys z) :
    l.next x ∈ ys ++ [z] := by
  cases ys with
  | nil => simp [h.1]
  | cons y ys => simp [h.1.1]

/-- Two walks from the same place to a node neither of them passes are the same walk. -/
theorem Path.unique {l : Links α} {x z : α} {ys ys' : List α} (h : l.Path x ys z)
    (h' : l.Path x ys' z) (hz : z ∉ ys) (hz' : z ∉ ys') : ys = ys' := by
  induction ys generalizing x ys' with
  | nil =>
    cases ys' with
    | nil => rfl
    | cons y' ys' =>
      have : z = y' := h.1.symm.trans h'.1.1
      simp [this] at hz'
  | cons y ys ih =>
    cases ys' with
    | nil =>
      have : y = z := h.1.1.symm.trans h'.1
      simp [this] at hz
    | cons y' ys' =>
      obtain rfl : y = y' := h.1.1.symm.trans h'.1.1
      simp only [List.mem_cons, not_or] at hz hz'
      rw [ih h.2 h'.2 hz.2 hz'.2]

/-- The same links read in the other direction. -/
def flip (l : Links α) : Links α := ⟨l.next, l.prev⟩

theorem Path.flip {l : Links α} {x z : α} {ys : List α} (h : l.Path x ys z) :
    l.flip.Path z ys.reverse x := by
  induction ys generalizing x with
  | nil => exact ⟨h.2, h.1⟩
  | cons y ys ih =>
    rw [List.reverse_cons, path_append]
    exact ⟨ih h.2, h.1.2, h.1.1⟩

section Edits

variable [DecidableEq α] {l : Links α} {x y z : α} {ys : List α}

theorem insertAfter_next (a : α) :
    (l.insertAfter x y).next a = if a = y then l.next x else if a = x then y else l.next a := by
  simp [insertAfter]

theorem insertAfter_prev (b : α) :
    (l.insertAfter x y).prev b = if b = l.next x then y else if b = y then x else l.prev b := by
  simp [insertAfter]

theorem unlink_next (a : α) :
    (l.unlink y).next a = if a = l.prev y then l.next y else l.next a := by
  simp [unlink]

theorem unlink_prev (b : α) :
    (l.unlink y).prev b = if b = l.next y then l.prev y else l.prev b := by
  simp [unlink]

/-- Inserting after the start of a path puts the new node first on it. -/
theorem Path.insertAfter (h : l.Path x ys z) (hnd : ys.Nodup) (hx : x ∉ ys) (hz : z ∉ ys)
    (hyx : y ≠ x) (hyz : y ≠ z) (hy : y ∉ ys) : (l.insertAfter x y).Path x (y :: ys) z := by
  have hny : y ≠ l.next x := by
    rintro rfl
    simpa [hy, hyz] using h.next_mem
  have hfirst : (l.insertAfter x y).Linked x y := by
    constructor
    · rw [insertAfter_next, if_neg hyx.symm, if_pos rfl]
    · rw [insertAfter_prev, if_neg hny, if_pos rfl]
  have hsecond : (l.insertAfter x y).Linked y (l.next x) := by
    constructor
    · rw [insertAfter_next, if_pos rfl]
    · rw [insertAfter_prev, if_pos rfl]
  refine ⟨hfirst, ?_⟩
  cases ys with
  | nil =>
    rw [h.1] at hsecond
    exact hsecond
  | cons n ys =>
    simp only [List.mem_cons, not_or, List.nodup_cons] at hnd hx hz hy
    have hn : l.next x = n := h.1.1
    rw [hn] at hsecond
    refine ⟨hsecond, h.2.congr ?_ ?_⟩
    · intro a ha
      have hay : a ≠ y := by
        rintro rfl
        exact (List.mem_cons.mp ha).elim hy.1 hy.2
      have hax : a ≠ x := by
        rintro rfl
        exact (List.mem_cons.mp ha).elim hx.1 hx.2
      rw [insertAfter_next, if_neg hay, if_neg hax]
    · intro b hb
      have hbn : b ≠ n := by
        rintro rfl
        simp only [List.mem_append, List.mem_singleton] at hb
        exact hb.elim hnd.1 (fun e => hz.1 e.symm)
      have hby : b ≠ y := by
        rintro rfl
        simp only [List.mem_append, List.mem_singleton] at hb
        exact hb.elim hy.2 hyz
      rw [insertAfter_prev, hn, if_neg hbn, if_neg hby]

/-- Unlinking the first node of a path leaves the rest of it. -/
theorem Path.unlink (h : l.Path x (y :: ys) z) (hnd : (y :: ys).Nodup) (hx : x ∉ ys)
    (hz : z ∉ y :: ys) : (l.unlink y).Path x ys z := by
  have hprev : l.prev y = x := h.1.2
  have hjoin : (l.unlink y).Linked x (l.next y) := by
    constructor
    · rw [unlink_next, hprev, if_pos rfl]
    · rw [unlink_prev, if_pos rfl, hprev]
  cases ys with
  | nil =>
    rw [show l.next y = z from h.2.1] at hjoin
    exact hjoin
  | cons n ys =>
    simp only [List.mem_cons, not_or, List.nodup_cons] at hnd hx hz
    have hn : l.next y = n := h.2.1.1
    rw [hn] at hjoin
    refine ⟨hjoin, h.2.2.congr ?_ ?_⟩
    · intro a ha
      have hax : a ≠ x := by
        rintro rfl
        exact (List.mem_cons.mp ha).elim hx.1 hx.2
      rw [unlink_next, hprev, if_neg hax]
    · intro b hb
      have hbn : b ≠ n := by
        rintro rfl
        simp only [List.mem_append, List.mem_singleton] at hb
        exact hb.elim hnd.2.1 (fun e => hz.2.1 e.symm)
      rw [unlink_prev, hn, if_neg hbn]

end Edits

end Links

/-! ## Rings -/

/-- The head `h` with members `xs`, in `next` order. -/
structure Ring (l : Links α) (h : α) (xs : List α) : Prop where
  nodup : (h :: xs).Nodup
  path : l.Path h xs h

namespace Ring

open Links

variable {l l' : Links α} {h x y : α} {xs pre post : List α}

theorem not_mem (r : Ring l h xs) : h ∉ xs := (List.nodup_cons.mp r.nodup).1

theorem members_nodup (r : Ring l h xs) : xs.Nodup := (List.nodup_cons.mp r.nodup).2

/-- A head has at most one list of members. -/
theorem unique {ys : List α} (r : Ring l h xs) (r' : Ring l h ys) : xs = ys :=
  r.path.unique r'.path r.not_mem r'.not_mem

/-- A ring reads only the link fields of its own nodes. -/
theorem congr (r : Ring l h xs) (hnext : ∀ a ∈ h :: xs, l'.next a = l.next a)
    (hprev : ∀ a ∈ h :: xs, l'.prev a = l.prev a) : Ring l' h xs := by
  refine ⟨r.nodup, r.path.congr hnext fun b hb => hprev b ?_⟩
  simp only [List.mem_append, List.mem_singleton] at hb
  exact List.mem_cons.mpr hb.symm

/-- Following a link of a ring stays on it. -/
theorem next_mem (r : Ring l h xs) (hx : x ∈ h :: xs) : l.next x ∈ h :: xs := by
  have hback : ∀ {a : α} {ys : List α}, (∀ y ∈ ys, y ∈ xs) → a ∈ ys ++ [h] → a ∈ h :: xs := by
    intro a ys hys ha
    rcases List.mem_append.mp ha with ha | ha
    · exact List.mem_cons_of_mem h (hys a ha)
    · rw [List.mem_singleton.mp ha]
      exact List.mem_cons_self
  rcases List.mem_cons.mp hx with rfl | hx
  · exact hback (fun _ => id) r.path.next_mem
  · obtain ⟨pre, post, rfl⟩ := List.append_of_mem hx
    refine hback (fun y hy => ?_) (path_append.mp r.path).2.next_mem
    exact List.mem_append_right _ (List.mem_cons_of_mem x hy)

/-- The empty ring: the head points at itself both ways. -/
theorem nil_iff : Ring l h [] ↔ l.next h = h ∧ l.prev h = h :=
  ⟨fun r => r.path, fun e => ⟨by simp, e⟩⟩

/-- The node right before the place between `pre` and `post`. -/
def before (h : α) (pre : List α) : α := pre.getLastD h

@[simp] theorem before_nil (h : α) : before h [] = h := rfl

@[simp] theorem before_concat (h x : α) (pre : List α) : before h (pre ++ [x]) = x := by
  simp [before]

theorem before_mem (h : α) (pre : List α) : before h pre ∈ h :: pre := by
  cases pre using List.reverseRecOn with
  | nil => simp
  | append_singleton pre x => simp

theorem before_append_mem (h y : α) (pre post : List α) :
    before h (pre ++ y :: post) ∈ y :: post := by
  cases post using List.reverseRecOn with
  | nil => simp
  | append_singleton post z =>
    have hsplit : pre ++ y :: (post ++ [z]) = (pre ++ y :: post) ++ [z] := by simp
    rw [hsplit, before_concat]
    simp

/-- A ring seen from one place of it: the path up to the node before the place (absent when that
node is the head), and the path from there back to the head. -/
theorem path_from (r : Ring l h (pre ++ post)) : l.Path (before h pre) post h := by
  cases pre using List.reverseRecOn with
  | nil => exact r.path
  | append_singleton pre x =>
    have hp := r.path
    rw [List.append_assoc, List.singleton_append, path_append] at hp
    simpa using hp.2

/-- Read backwards, a ring is a ring. -/
theorem flip (r : Ring l h xs) : Ring l.flip h xs.reverse :=
  ⟨by simpa using r.nodup, r.path.flip⟩

theorem prev_mem (r : Ring l h xs) (hx : x ∈ h :: xs) : l.prev x ∈ h :: xs := by
  have hback : l.flip.next x ∈ h :: xs.reverse := r.flip.next_mem (by simpa using hx)
  simpa [Links.flip] using hback

/-- The last member is the head's predecessor. -/
theorem prev_head (r : Ring l h xs) : l.prev h = before h xs := by
  have hr : Ring l h (xs ++ []) := by simpa using r
  exact hr.path_from.2

theorem next_before (r : Ring l h (pre ++ x :: post)) : l.next (before h pre) = x :=
  r.path_from.1.1

/-- Where a traversal goes on from a member. -/
theorem next_member (r : Ring l h (pre ++ x :: post)) : l.next x = post.headD h := by
  have hsplit : Ring l h ((pre ++ [x]) ++ post) := by simpa using r
  have hpath := hsplit.path_from
  rw [before_concat] at hpath
  cases post with
  | nil => exact hpath.1
  | cons y post => exact hpath.1.1

theorem prev_member (r : Ring l h (pre ++ x :: post)) : l.prev x = before h pre :=
  r.path_from.1.2

/-- Assemble a ring from the part before a place, on which nothing changed, and the path from it. -/
theorem of_path_from {post' : List α} (r : Ring l h (pre ++ post))
    (hpath : l'.Path (before h pre) post' h) (hnd : (h :: (pre ++ post')).Nodup)
    (hnext : ∀ a ∈ h :: pre, a ≠ before h pre → l'.next a = l.next a)
    (hprev : ∀ b ∈ pre, l'.prev b = l.prev b) : Ring l' h (pre ++ post') := by
  refine ⟨hnd, ?_⟩
  cases pre using List.reverseRecOn with
  | nil => exact hpath
  | append_singleton pre x =>
    have hp := r.path
    rw [List.append_assoc, List.singleton_append, path_append] at hp ⊢
    refine ⟨hp.1.congr ?_ hprev, by simpa using hpath⟩
    intro a ha
    refine hnext a ?_ ?_
    · rw [← List.cons_append]
      exact List.mem_append_left _ ha
    · have hnodup := r.nodup
      rw [before_concat]
      rintro rfl
      rw [← List.cons_append, ← List.cons_append] at hnodup
      have hleft := List.Nodup.of_append_left hnodup
      exact (List.nodup_append.mp hleft).2.2 a ha a (by simp) rfl

theorem not_mem_of_before (r : Ring l h (pre ++ post)) : before h pre ∉ post := by
  intro hm
  have hnodup := r.nodup
  rw [← List.cons_append, List.nodup_append] at hnodup
  exact hnodup.2.2 _ (before_mem h pre) _ hm rfl

/-- The successor of the node before a place lies at or after the place. -/
theorem next_before_mem (r : Ring l h (pre ++ post)) : l.next (before h pre) ∈ post ++ [h] :=
  r.path_from.next_mem

theorem not_mem_pre (r : Ring l h (pre ++ post)) {a : α} (ha : a ∈ post ++ [h]) : a ∉ pre := by
  intro hp
  have hnodup := r.nodup
  simp only [List.mem_append, List.mem_singleton] at ha
  rcases ha with ha | rfl
  · exact (List.nodup_append.mp (List.nodup_cons.mp hnodup).2).2.2 a hp a ha rfl
  · exact (List.nodup_cons.mp hnodup).1 (List.mem_append_left _ hp)

section Edits

variable [DecidableEq α]

/-- **Insertion.**  A node of no ring, inserted after the node before a place, stands there. -/
theorem insertAfter (r : Ring l h (pre ++ post)) (hy : y ∉ h :: (pre ++ post)) :
    Ring (l.insertAfter (before h pre) y) h (pre ++ y :: post) := by
  have hnodup := r.nodup
  simp only [List.mem_cons, List.mem_append, not_or] at hy
  have hyx : y ≠ before h pre := by
    rintro rfl
    exact (List.mem_cons.mp (before_mem h pre)).elim hy.1 hy.2.1
  have hpost : post.Nodup := (List.nodup_append.mp r.members_nodup).2.1
  have hh : h ∉ post := fun hm => r.not_mem (List.mem_append_right _ hm)
  refine r.of_path_from (r.path_from.insertAfter hpost r.not_mem_of_before hh hyx hy.1 hy.2.2)
    ?_ ?_ ?_
  · refine (List.perm_middle.cons h).nodup_iff.mpr ?_
    rw [List.Perm.nodup_iff (List.Perm.swap y h _)]
    exact List.nodup_cons.mpr ⟨by simp [hy], hnodup⟩
  · intro a ha hne
    have hay : a ≠ y := by
      rintro rfl
      exact (List.mem_cons.mp ha).elim hy.1 hy.2.1
    rw [insertAfter_next, if_neg hay, if_neg hne]
  · intro b hb
    have hbn : b ≠ l.next (before h pre) := by
      rintro rfl
      exact r.not_mem_pre r.next_before_mem hb
    have hby : b ≠ y := by
      rintro rfl
      exact hy.2.1 hb
    rw [insertAfter_prev, if_neg hbn, if_neg hby]

/-- **Removal.**  Unlinking a member leaves the others in their order. -/
theorem unlink (r : Ring l h (pre ++ y :: post)) : Ring (l.unlink y) h (pre ++ post) := by
  have hnodup := r.nodup
  have hmem := r.members_nodup
  have hpath := r.path_from
  have hyp : l.prev y = before h pre := hpath.1.2
  have hypost : (y :: post).Nodup := (List.nodup_append.mp hmem).2.1
  have hx : before h pre ∉ post := fun hm => r.not_mem_of_before (List.mem_cons_of_mem y hm)
  have hh : h ∉ y :: post := fun hm => r.not_mem (List.mem_append_right _ hm)
  refine r.of_path_from (hpath.unlink hypost hx hh) ?_ ?_ ?_
  · exact ((List.sublist_cons_self y post).append_left pre).cons_cons h |>.nodup hnodup
  · intro a ha hne
    rw [unlink_next, hyp, if_neg hne]
  · intro b hb
    have hbn : b ≠ l.next y := by
      rintro rfl
      have hny : l.next y ∈ post ++ [h] := hpath.2.next_mem
      refine r.not_mem_pre ?_ hb
      rw [List.cons_append]
      exact List.mem_cons_of_mem y hny
    rw [unlink_prev, if_neg hbn]

/-- A ring does not see an insertion between two nodes outside it. -/
theorem insertAfter_of_outside {x y : α} (r : Ring l h xs) (hx : x ∉ h :: xs) (hy : y ∉ h :: xs)
    (hn : l.next x ∉ h :: xs) : Ring (l.insertAfter x y) h xs := by
  refine r.congr (fun a ha => ?_) (fun a ha => ?_)
  · rw [insertAfter_next, if_neg (by rintro rfl; exact hy ha), if_neg (by rintro rfl; exact hx ha)]
  · rw [insertAfter_prev, if_neg (by rintro rfl; exact hn ha), if_neg (by rintro rfl; exact hy ha)]

/-- A ring does not see the removal of a node both of whose neighbours lie outside it. -/
theorem unlink_of_outside {y : α} (r : Ring l h xs) (hp : l.prev y ∉ h :: xs)
    (hn : l.next y ∉ h :: xs) : Ring (l.unlink y) h xs := by
  refine r.congr (fun a ha => ?_) (fun a ha => ?_)
  · rw [unlink_next, if_neg (by rintro rfl; exact hp ha)]
  · rw [unlink_prev, if_neg (by rintro rfl; exact hn ha)]

/-- A ring does not see a node outside it being linked to itself. -/
theorem selfLink_of_outside {y : α} (r : Ring l h xs) (hy : y ∉ h :: xs) :
    Ring (l.selfLink y) h xs := by
  refine r.congr (fun a ha => ?_) (fun a ha => ?_) <;>
    simp [selfLink, show a ≠ y by rintro rfl; exact hy ha]

end Edits

end Ring

end HeavenFox.Logic
