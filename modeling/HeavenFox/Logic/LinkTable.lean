/-
# HeavenFox.Logic.LinkTable -- chains of cells that are linked through a table

A small library with nothing of the kernel in it.  A table says of every cell that it is free, that
another cell follows, that it is the last one of its chain, or something else.  A chain is the list
of its cells.  The table alone fixes what follows a cell, so a chain has no cell twice
(`Chain.nodup`).

Owners have a chain each and share no cell (`Owned`).  The rules below say what a change of the
table does to all of them when one owner gets a cell, loses the end of its chain or loses all of it;
`freeCells` keeps count.  A damaged table has cells that no chain goes through; what such a cell
leads to (`LeadsTo`) can be freed as well (`FreedFrom`).
-/
import Mathlib.Data.Finset.Card
import Mathlib.Data.List.Lemmas
import Mathlib.Logic.Relation

namespace HeavenFox.Logic

/-- What a table says of a cell. -/
inductive Link (α : Type*) where
  | free
  | next (a : α)
  | last
  | broken
  deriving DecidableEq, Repr

variable {α ι : Type*} {t t' : α → Link α} {a b : α} {l r : List α}

/-! ## Chains -/

/-- The cells of a chain in their order; the empty list is a chain as well. -/
def Chain (t : α → Link α) : List α → Prop
  | [] => True
  | [a] => t a = .last
  | a :: b :: l => t a = .next b ∧ Chain t (b :: l)

/-- A chain rests on its own cells alone. -/
theorem Chain.congr (h : Chain t l) (hl : ∀ a ∈ l, t' a = t a) : Chain t' l := by
  induction l with
  | nil => trivial
  | cons a l ih =>
    cases l with
    | nil => exact (hl a List.mem_cons_self).trans h
    | cons b l =>
      exact ⟨(hl a List.mem_cons_self).trans h.1,
        ih h.2 fun c hc => hl c (List.mem_cons_of_mem a hc)⟩

theorem Chain.tail (h : Chain t (a :: l)) : Chain t l := by
  cases l with
  | nil => trivial
  | cons b l => exact h.2

theorem Chain.suffix (h : Chain t (l ++ r)) : Chain t r := by
  induction l with
  | nil => exact h
  | cons a l ih => exact ih h.tail

/-- The cells of a chain are in use. -/
theorem Chain.used (h : Chain t l) (ha : a ∈ l) : t a = .last ∨ ∃ b, t a = .next b := by
  obtain ⟨p, q, rfl⟩ := List.append_of_mem ha
  have hq := h.suffix
  cases q with
  | nil => exact Or.inl hq
  | cons b q => exact Or.inr ⟨b, hq.1⟩

theorem Chain.ne_free (h : Chain t l) (ha : a ∈ l) : t a ≠ .free := by
  intro hfree
  rcases h.used ha with hlast | ⟨b, hnext⟩
  · cases hlast.symm.trans hfree
  · cases hnext.symm.trans hfree

/-- The first cell of a chain fixes the others. -/
theorem Chain.unique (h : Chain t (a :: l)) (h' : Chain t (a :: r)) : l = r := by
  induction l generalizing a r with
  | nil =>
    cases r with
    | nil => rfl
    | cons b r => cases (show Link.last = .next b from Eq.trans (Eq.symm h) h'.1)
  | cons b l ih =>
    cases r with
    | nil => cases (show Link.next b = .last from Eq.trans (Eq.symm h.1) h')
    | cons c r =>
      obtain rfl : b = c := Link.next.inj (h.1.symm.trans h'.1)
      rw [ih h.2 h'.2]

/-- **A chain has no cell twice.** -/
theorem Chain.nodup (h : Chain t l) : l.Nodup := by
  induction l with
  | nil => exact List.nodup_nil
  | cons a l ih =>
    refine List.nodup_cons.mpr ⟨fun ha => ?_, ih h.tail⟩
    -- from the second place of the cell on it would be its own tail
    obtain ⟨p, q, hl⟩ := List.append_of_mem ha
    have hagain : Chain t (a :: q) := by
      have htail := h.tail
      rw [hl] at htail
      exact htail.suffix
    have hlen := congrArg List.length (h.unique hagain)
    rw [hl, List.length_append, List.length_cons] at hlen
    omega

/-- A cell of a chain leads to the one behind it. -/
theorem Chain.next {i : Nat} (h : Chain t l) (ha : l[i]? = some a) (hb : l[i + 1]? = some b) :
    t a = .next b := by
  induction l generalizing i with
  | nil => cases ha
  | cons c l ih =>
    cases i with
    | zero =>
      cases l with
      | nil => cases hb
      | cons d l =>
        cases ha
        cases hb
        exact h.1
    | succ i => exact ih h.tail ha hb

/-- A chain that ends at one of its cells from now on. -/
theorem Chain.cut (h : Chain t (l ++ a :: r)) (ha : t' a = .last) (hl : ∀ b ∈ l, t' b = t b) :
    Chain t' (l ++ [a]) := by
  induction l with
  | nil => exact ha
  | cons b l ih =>
    have hrest := ih h.tail fun c hc => hl c (List.mem_cons_of_mem b hc)
    have hb := hl b List.mem_cons_self
    cases l with
    | nil => exact ⟨hb.trans h.1, ha⟩
    | cons c l => exact ⟨hb.trans h.1, hrest⟩

/-- A chain with one more cell behind its last one. -/
theorem Chain.stretch (h : Chain t (l ++ [a])) (ha : t' a = .next b) (hb : t' b = .last)
    (hl : ∀ c ∈ l, t' c = t c) : Chain t' (l ++ [a, b]) := by
  induction l with
  | nil => exact ⟨ha, hb⟩
  | cons c l ih =>
    have hrest := ih h.tail fun d hd => hl d (List.mem_cons_of_mem c hd)
    have hc := hl c List.mem_cons_self
    cases l with
    | nil => exact ⟨hc.trans h.1, ha, hb⟩
    | cons d l => exact ⟨hc.trans h.1, hrest⟩

/-! ## What a cell leads to -/

/-- The cells that a cell leads to, itself among them, also where the way runs into itself. -/
def LeadsTo (t : α → Link α) : α → α → Prop := Relation.ReflTransGen fun a b => t a = .next b

/-- A cell that none follows leads to itself alone. -/
theorem LeadsTo.eq_of_end (h : LeadsTo t a b) (ha : ∀ c, t a ≠ .next c) : b = a := by
  rcases Relation.ReflTransGen.cases_head h with heq | ⟨c, hc, -⟩
  · exact heq.symm
  · exact absurd hc (ha c)

/-- What a cell leads to besides itself, the one behind it leads to without it. -/
theorem LeadsTo.of_next {c : α} (h : LeadsTo t a b) (hne : b ≠ a) (ha : t a = .next c)
    (ht : ∀ d, d ≠ a → t' d = t d) : LeadsTo t' c b := by
  unfold LeadsTo at h
  induction h with
  | refl => exact absurd rfl hne
  | @tail d b _ hstep ih =>
    by_cases hd : d = a
    · rw [hd, ha] at hstep
      rw [Link.next.inj hstep]
      exact .refl
    · exact Relation.ReflTransGen.tail (ih hd) ((ht d hd).trans hstep)

/-- The table `t'` is the table `t` with the cells freed that `a` leads to. -/
def FreedFrom (t t' : α → Link α) (a : α) : Prop :=
  ∀ b, (LeadsTo t a b → t' b = .free) ∧ (¬ LeadsTo t a b → t' b = t b)

/-- A cell that none follows is freed by itself. -/
theorem FreedFrom.of_end (ha : ∀ c, t a ≠ .next c) (ha' : t' a = .free)
    (ht : ∀ b, b ≠ a → t' b = t b) : FreedFrom t t' a := by
  refine fun b => ⟨fun h => ?_, fun h => ht b ?_⟩
  · rw [h.eq_of_end ha, ha']
  · rintro rfl
    exact h .refl

/-- A cell is freed, and then those that the one behind it still leads to. -/
theorem FreedFrom.of_next {t'' : α → Link α} {c : α} (ha : t a = .next c) (ha' : t' a = .free)
    (ht : ∀ b, b ≠ a → t' b = t b) (h : FreedFrom t' t'' c) : FreedFrom t t'' a := by
  refine fun b => ⟨fun hb => ?_, fun hb => ?_⟩
  · by_cases hself : b = a
    · subst hself
      by_cases hagain : LeadsTo t' c b
      · exact (h b).1 hagain
      · rw [(h b).2 hagain, ha']
    · exact (h b).1 (hb.of_next hself ha ht)
  · have hself : b ≠ a := by
      rintro rfl
      exact hb .refl
    have hless : ∀ d e, t' d = .next e → t d = .next e := by
      intro d e hd
      by_cases hda : d = a
      · rw [hda, ha'] at hd
        cases hd
      · rwa [← ht d hda]
    have hnot : ¬ LeadsTo t' c b := fun hcb =>
      hb (Relation.ReflTransGen.head ha (Relation.ReflTransGen.mono hless _ _ hcb))
    rw [(h b).2 hnot, ht b hself]

/-! ## Owners -/

/-- Every owner has a chain, and no cell has two owners. -/
structure Owned (t : α → Link α) (own : ι → List α) : Prop where
  chain : ∀ i, Chain t (own i)
  disjoint : ∀ i j, i ≠ j → (own i).Disjoint (own j)

variable {own : ι → List α}

/-- What no owner has may change. -/
theorem Owned.frame (h : Owned t own) (hown : ∀ i, ∀ a ∈ own i, t' a = t a) : Owned t' own :=
  ⟨fun i => (h.chain i).congr (hown i), h.disjoint⟩

/-- The others do not see a change of the cells of one owner and of free cells. -/
theorem Owned.others {i : ι} (h : Owned t own) (ht : ∀ a, a ∉ own i → t a ≠ .free → t' a = t a) :
    ∀ j, j ≠ i → ∀ a ∈ own j, t' a = t a :=
  fun j hj a ha => ht a (fun hi => h.disjoint j i hj ha hi) ((h.chain j).ne_free ha)

/-- A free cell belongs to no one. -/
theorem Owned.not_mem_of_free (h : Owned t own) (hb : t b = .free) (j : ι) : b ∉ own j :=
  fun hmem => (h.chain j).ne_free hmem hb

section Update

variable [DecidableEq ι] {i : ι}

/-- One owner's chain is replaced by another one that takes nothing from the others. -/
theorem Owned.replace (h : Owned t own) (hothers : ∀ j, j ≠ i → ∀ a ∈ own j, t' a = t a)
    (hchain : Chain t' l) (hl : ∀ j, j ≠ i → l.Disjoint (own j)) :
    Owned t' (Function.update own i l) where
  chain j := by
    by_cases hj : j = i
    · rw [hj, Function.update_self]
      exact hchain
    · rw [Function.update_of_ne hj]
      exact (h.chain j).congr (hothers j hj)
  disjoint j k hjk := by
    by_cases hj : j = i
    · rw [hj, Function.update_self, Function.update_of_ne (hj ▸ hjk.symm)]
      exact hl k (hj ▸ hjk.symm)
    · rw [Function.update_of_ne hj]
      by_cases hk : k = i
      · rw [hk, Function.update_self]
        exact (hl j hj).symm
      · rw [Function.update_of_ne hk]
        exact h.disjoint j k hjk

/-- **A new chain.** -/
theorem Owned.create (h : Owned t own) (hb : t b = .free) (hb' : t' b = .last)
    (ht : ∀ a, a ≠ b → t' a = t a) : Owned t' (Function.update own i [b]) := by
  refine h.replace (h.others fun a _ ha => ht a fun hab => ha (hab ▸ hb)) hb' fun j _ => ?_
  exact List.singleton_disjoint.mpr (h.not_mem_of_free hb j)

/-- **A longer chain.** -/
theorem Owned.stretch (h : Owned t own) (hi : own i = l ++ [a]) (hb : t b = .free)
    (ha' : t' a = .next b) (hb' : t' b = .last) (ht : ∀ c, c ≠ a → c ≠ b → t' c = t c) :
    Owned t' (Function.update own i (l ++ [a, b])) := by
  have hchain := h.chain i
  rw [hi] at hchain
  have hmem {c : α} (hc : c ∈ l) : c ∈ own i := hi ▸ List.mem_append_left _ hc
  refine h.replace (h.others fun c hc hfree => ?_) (hchain.stretch ha' hb' fun c hc => ?_)
    fun j hj => ?_
  · refine ht c (fun hca => hc ?_) fun hcb => hfree (hcb ▸ hb)
    rw [hi, hca]
    exact List.mem_append_right _ (List.mem_singleton_self a)
  · refine ht c (fun hca => ?_) fun hcb => h.not_mem_of_free hb i (hcb ▸ hmem hc)
    have hnodup := List.nodup_append.mp hchain.nodup
    exact hnodup.2.2 c hc a (List.mem_singleton_self a) hca
  · have hl : (l ++ [a]).Disjoint (own j) := hi ▸ h.disjoint i j (Ne.symm hj)
    rw [show l ++ [a, b] = (l ++ [a]) ++ [b] by rw [List.append_assoc]; rfl]
    exact List.disjoint_append_left.mpr
      ⟨hl, List.singleton_disjoint.mpr (h.not_mem_of_free hb j)⟩

/-- **A chain that is cut.**  What becomes of the cells behind the cut is free. -/
theorem Owned.cut (h : Owned t own) (hi : own i = l ++ a :: r) (ha : t' a = .last)
    (ht : ∀ c, c ≠ a → c ∉ r → t' c = t c) : Owned t' (Function.update own i (l ++ [a])) := by
  have hchain := h.chain i
  rw [hi] at hchain
  have hnodup := List.nodup_append.mp hchain.nodup
  refine h.replace (h.others fun c hc _ => ?_) (hchain.cut ha fun c hc => ?_) fun j hj => ?_
  · rw [hi, List.mem_append, List.mem_cons, not_or, not_or] at hc
    exact ht c hc.2.1 hc.2.2
  · refine ht c (hnodup.2.2 c hc a List.mem_cons_self) fun hr => ?_
    exact hnodup.2.2 c hc c (List.mem_cons_of_mem a hr) rfl
  · refine fun c hc hcj => h.disjoint i j (Ne.symm hj) ?_ hcj
    rw [hi]
    rcases List.mem_append.mp hc with hl | ha
    · exact List.mem_append_left _ hl
    · rw [List.mem_singleton.mp ha]
      exact List.mem_append_right _ List.mem_cons_self

/-- **A chain that is given up.** -/
theorem Owned.drop (h : Owned t own) (ht : ∀ c, c ∉ own i → t' c = t c) :
    Owned t' (Function.update own i []) :=
  h.replace (h.others fun c hc _ => ht c hc) trivial fun _ _ => List.disjoint_nil_left _

end Update

/-! ## Free cells -/

variable [DecidableEq α]

/-- The free ones among the given cells. -/
def freeCells (t : α → Link α) (cells : Finset α) : Finset α := cells.filter fun a => t a = .free

theorem mem_freeCells {cells : Finset α} : a ∈ freeCells t cells ↔ a ∈ cells ∧ t a = .free :=
  Finset.mem_filter

/-- A free cell that is taken. -/
theorem freeCells_take {cells : Finset α} (hb' : t' b ≠ .free)
    (ht : ∀ a, a ≠ b → (t' a = .free ↔ t a = .free)) :
    freeCells t' cells = (freeCells t cells).erase b := by
  ext a
  rw [Finset.mem_erase, mem_freeCells, mem_freeCells]
  by_cases ha : a = b
  · rw [ha]
    exact ⟨fun h => absurd h.2 hb', fun h => absurd rfl h.1⟩
  · rw [ht a ha]
    exact ⟨fun h => ⟨ha, h⟩, And.right⟩

/-- A cell that becomes free. -/
theorem freeCells_give {cells : Finset α} (hb : b ∈ cells) (hb' : t' b = .free)
    (ht : ∀ a, a ≠ b → (t' a = .free ↔ t a = .free)) :
    freeCells t' cells = insert b (freeCells t cells) := by
  ext a
  rw [Finset.mem_insert, mem_freeCells, mem_freeCells]
  by_cases ha : a = b
  · rw [ha]
    exact ⟨fun _ => Or.inl rfl, fun _ => ⟨hb, hb'⟩⟩
  · rw [ht a ha]
    exact ⟨Or.inr, fun h => h.resolve_left ha⟩

theorem freeCells_congr {cells : Finset α} (ht : ∀ a ∈ cells, (t' a = .free ↔ t a = .free)) :
    freeCells t' cells = freeCells t cells :=
  Finset.filter_congr ht

end HeavenFox.Logic
