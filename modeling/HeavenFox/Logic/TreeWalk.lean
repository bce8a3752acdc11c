/-
# HeavenFox.Logic.TreeWalk -- walks down a tree

A small library with nothing of the kernel in it.  Objects have children, and no object is a child
of two.  A walk begins with some objects, takes those that are `chosen`, and goes on with the
children of those it has taken that are `deep`; `walkDown` lists what it takes, in its order.

A child has a higher rank than its parent, and the ranks have a bound, so a walk does not need more
rounds than that.  `mem_walkDown_iff` says what a walk takes, and `nodup_walkDown` that it takes
nothing twice.
-/
import Mathlib.Data.List.Nodup
import Mathlib.Logic.Relation

namespace HeavenFox.Logic

open Relation

variable {ν : Type*}

/-- What a walk takes, in as many rounds as it may go down. -/
def walkDown (children : ν → List ν) (chosen deep : ν → Bool) : Nat → List ν → List ν
  | 0, _ => []
  | rounds + 1, nodes =>
    nodes.flatMap fun n =>
      if chosen n then
        n :: (if deep n then walkDown children chosen deep rounds (children n) else [])
      else []

/-- A chosen object that the walk begins with, or a chosen child of a deep one that is taken. -/
inductive WalksTo (children : ν → List ν) (chosen deep : ν → Bool) (nodes : List ν) : ν → Prop
  | first (n : ν) (hn : n ∈ nodes) (hchosen : chosen n = true) :
    WalksTo children chosen deep nodes n
  | child (p n : ν) (hp : WalksTo children chosen deep nodes p) (hdeep : deep p = true)
      (hn : n ∈ children p) (hchosen : chosen n = true) : WalksTo children chosen deep nodes n

/-- The children make a forest: one parent at most, of a lower rank. -/
structure Ranked (children : ν → List ν) (rank : ν → Nat) (bound : Nat) : Prop where
  above : ∀ p, ∀ n ∈ children p, rank p < rank n
  below : ∀ p, ∀ n ∈ children p, rank n < bound
  parent : ∀ p q n, n ∈ children p → n ∈ children q → p = q
  nodup : ∀ p, (children p).Nodup

/-- The rounds are enough for a walk that begins with these. -/
def Enough (rank : ν → Nat) (bound rounds : Nat) (nodes : List ν) : Prop :=
  ∀ n ∈ nodes, rank n < bound ∧ bound ≤ rank n + rounds

variable {children : ν → List ν} {chosen deep : ν → Bool} {rank : ν → Nat} {bound rounds : Nat}
  {nodes : List ν} {n m p : ν}

theorem walkDown_cons (rounds : Nat) :
    walkDown children chosen deep rounds (n :: nodes) =
      walkDown children chosen deep rounds [n] ++ walkDown children chosen deep rounds nodes := by
  cases rounds with
  | zero => rfl
  | succ rounds =>
    rw [walkDown, walkDown, walkDown, List.flatMap_cons, List.flatMap_singleton]

theorem walkDown_singleton :
    walkDown children chosen deep (rounds + 1) [n] =
      if chosen n then
        n :: (if deep n then walkDown children chosen deep rounds (children n) else [])
      else [] := by
  rw [walkDown, List.flatMap_singleton]

theorem mem_walkDown_succ :
    m ∈ walkDown children chosen deep (rounds + 1) nodes ↔
      ∃ n ∈ nodes, chosen n = true ∧
        (m = n ∨ deep n = true ∧ m ∈ walkDown children chosen deep rounds (children n)) := by
  rw [walkDown, List.mem_flatMap]
  apply exists_congr
  intro n
  apply and_congr_right
  intro _
  by_cases hchosen : chosen n = true
  · by_cases hdeep : deep n = true
    · simp [hchosen, hdeep]
    · simp [hchosen, hdeep]
  · simp [hchosen]

/-! ## What is taken -/

/-- A walk takes only what it has to. -/
theorem walksTo_of_mem {start : List ν}
    (hstart : ∀ a ∈ nodes, chosen a = true → WalksTo children chosen deep start a)
    (hm : m ∈ walkDown children chosen deep rounds nodes) :
    WalksTo children chosen deep start m := by
  induction rounds generalizing nodes with
  | zero => cases hm
  | succ rounds ih =>
    obtain ⟨n, hn, hchosen, rfl | ⟨hdeep, hin⟩⟩ := mem_walkDown_succ.mp hm
    · exact hstart m hn hchosen
    · exact ih (fun a ha hchosen' => .child n a (hstart n hn hchosen) hdeep ha hchosen') hin

/-- The children need one round less. -/
theorem Ranked.enough (h : Ranked children rank bound) (hp : bound ≤ rank p + (rounds + 1)) :
    Enough rank bound rounds (children p) := by
  intro n hn
  have habove := h.above p n hn
  exact ⟨h.below p n hn, by omega⟩

theorem mem_walkDown_first (henough : Enough rank bound rounds nodes) (hn : n ∈ nodes)
    (hchosen : chosen n = true) : n ∈ walkDown children chosen deep rounds nodes := by
  obtain ⟨hlt, hle⟩ := henough n hn
  obtain ⟨left, rfl⟩ : ∃ left, rounds = left + 1 := ⟨rounds - 1, by omega⟩
  exact mem_walkDown_succ.mpr ⟨n, hn, hchosen, Or.inl rfl⟩

/-- A walk goes on with the children of what it takes. -/
theorem mem_walkDown_child (h : Ranked children rank bound)
    (henough : Enough rank bound rounds nodes)
    (hp : p ∈ walkDown children chosen deep rounds nodes) (hdeep : deep p = true)
    (hn : n ∈ children p) (hchosen : chosen n = true) :
    n ∈ walkDown children chosen deep rounds nodes := by
  induction rounds generalizing nodes with
  | zero => cases hp
  | succ rounds ih =>
    obtain ⟨a, ha, hchosen', hcase⟩ := mem_walkDown_succ.mp hp
    have hchildren : Enough rank bound rounds (children a) := h.enough (henough a ha).2
    apply mem_walkDown_succ.mpr
    rcases hcase with rfl | ⟨hdeep', hin⟩
    · exact ⟨p, ha, hchosen', Or.inr ⟨hdeep, mem_walkDown_first hchildren hn hchosen⟩⟩
    · exact ⟨a, ha, hchosen', Or.inr ⟨hdeep', ih hchildren hin⟩⟩

/-- **What a walk takes.** -/
theorem mem_walkDown_iff (h : Ranked children rank bound)
    (henough : Enough rank bound rounds nodes) :
    m ∈ walkDown children chosen deep rounds nodes ↔ WalksTo children chosen deep nodes m := by
  constructor
  · exact walksTo_of_mem fun a ha hchosen => .first a ha hchosen
  · intro hm
    induction hm with
    | first n hn hchosen => exact mem_walkDown_first henough hn hchosen
    | child p n hp hdeep hn hchosen ih => exact mem_walkDown_child h henough ih hdeep hn hchosen

/-! ## Nothing is taken twice -/

/-- One object is above another, or is the same. -/
def Above (children : ν → List ν) : ν → ν → Prop := ReflTransGen fun p n => n ∈ children p

theorem Ranked.le_of_above (h : Ranked children rank bound) (hnm : Above children n m) :
    rank n ≤ rank m := by
  induction hnm with
  | refl => exact Nat.le_refl _
  | tail _ hstep ih => exact Nat.le_trans ih (Nat.le_of_lt (h.above _ _ hstep))

theorem exists_above (hm : m ∈ walkDown children chosen deep rounds nodes) :
    ∃ n ∈ nodes, Above children n m := by
  induction rounds generalizing nodes with
  | zero => cases hm
  | succ rounds ih =>
    obtain ⟨n, hn, -, rfl | ⟨-, hin⟩⟩ := mem_walkDown_succ.mp hm
    · exact ⟨m, hn, ReflTransGen.refl⟩
    · obtain ⟨a, ha, habove⟩ := ih hin
      exact ⟨n, hn, ReflTransGen.head ha habove⟩

/-- Of two objects above a third one, one is above the other. -/
theorem Ranked.linear (h : Ranked children rank bound) {a b : ν} (ha : Above children a m)
    (hb : Above children b m) : Above children a b ∨ Above children b a := by
  have hunique : Relator.RightUnique fun n p => n ∈ children p :=
    fun n p q hp hq => h.parent p q n hp hq
  rcases ReflTransGen.total_of_right_unique hunique ha.swap hb.swap with hab | hba
  · exact Or.inr hab.swap
  · exact Or.inl hba.swap

/-- No child is above another child of the same parent. -/
theorem Ranked.siblings (h : Ranked children rank bound) {a b : ν} (ha : a ∈ children p)
    (hb : b ∈ children p) (hab : Above children a b) : a = b := by
  rcases ReflTransGen.cases_tail hab with heq | ⟨c, hac, hcb⟩
  · exact heq.symm
  · obtain rfl : c = p := h.parent c p b hcb hb
    have hle := h.le_of_above hac
    have hlt := h.above c a ha
    omega

/-- What is below an object does not come back to it. -/
theorem Ranked.not_mem_walkDown (h : Ranked children rank bound) :
    n ∉ walkDown children chosen deep rounds (children n) := by
  intro hn
  obtain ⟨a, ha, habove⟩ := exists_above hn
  have hle := h.le_of_above habove
  have hlt := h.above n a ha
  omega

/-- **Nothing is taken twice** if none of the objects it begins with is above another one. -/
theorem nodup_walkDown (h : Ranked children rank bound) (hnodup : nodes.Nodup)
    (hapart : ∀ a ∈ nodes, ∀ b ∈ nodes, Above children a b → a = b) :
    (walkDown children chosen deep rounds nodes).Nodup := by
  induction rounds generalizing nodes with
  | zero => exact List.nodup_nil
  | succ rounds ih =>
    rw [walkDown, List.nodup_flatMap]
    constructor
    · intro n _
      have hrest : (walkDown children chosen deep rounds (children n)).Nodup :=
        ih (h.nodup n) fun a ha b hb => h.siblings ha hb
      split
      · split
        · exact List.nodup_cons.mpr ⟨h.not_mem_walkDown, hrest⟩
        · exact List.nodup_singleton n
      · exact List.nodup_nil
    · apply hnodup.pairwise_of_forall_ne
      intro a ha b hb hne m hma hmb
      have hunder : ∀ n, m ∈ (if chosen n then
          n :: (if deep n then walkDown children chosen deep rounds (children n) else []) else []) →
          Above children n m := by
        intro n hm
        have hm' : m ∈ walkDown children chosen deep (rounds + 1) [n] := by
          rwa [walkDown_singleton]
        obtain ⟨c, hc, habove⟩ := exists_above hm'
        rwa [List.mem_singleton.mp hc] at habove
      rcases h.linear (hunder a hma) (hunder b hmb) with hab | hba
      · exact hne (hapart a ha b hb hab)
      · exact hne (hapart b hb a ha hba).symm

end HeavenFox.Logic
