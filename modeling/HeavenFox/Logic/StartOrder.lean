/-
# HeavenFox.Logic.StartOrder -- items that are started behind one another

A small library with nothing of the kernel in it.  Every item has at most one
predecessor, `pre`, and is to be started after it.  A starter keeps the items that
wait, a queue of the items that have been started and whose successors have not been
looked for, and a log of the attempts; it makes one pass over the items that wait for
each item it takes off the queue, and a first one for those without a predecessor.

`StartOrder` is the invariant of such a pass, with a lemma for each thing the starter
can do with the next item: leave it (`skip`), give it up (`drop`), try it (`attempt`),
and for the end of a pass (`next`).  `complete` says what it has reached when it stops.
-/
import Mathlib.Data.List.Nodup
import Mathlib.Tactic.ByContra

namespace HeavenFox.Logic

variable {ν : Type*}

/-- Every attempt of the log comes after a success of the predecessor. -/
def Ordered (pre : ν → Option ν) (log : List (ν × Bool)) : Prop :=
  ∀ before after n b, log = before ++ (n, b) :: after → ∀ m ∈ pre n, (m, true) ∈ before

/-- The items from this one up to one without a predecessor have been started, this one excepted. -/
inductive Reachable (pre : ν → Option ν) (item : ν → Prop) (log : List (ν × Bool)) : ν → Prop
  | root (n : ν) (hn : item n) (hpre : pre n = none) : Reachable pre item log n
  | next (n m : ν) (hn : item n) (hpre : pre n = some m) (hm : Reachable pre item log m)
      (hok : (m, true) ∈ log) : Reachable pre item log n

/-- The starter is in the pass for the successors of `cur`: it has looked at `kept`, and `rest` is
left of those that wait. -/
structure StartOrder (pre : ν → Option ν) (item startable : ν → Prop) (kept rest queue : List ν)
    (log : List (ν × Bool)) (cur : Option ν) : Prop where
  once : (log.map Prod.fst ++ (kept ++ rest)).Nodup
  known : ∀ n ∈ log.map Prod.fst ++ (kept ++ rest), item n
  ordered : Ordered pre log
  started : ∀ m ∈ queue, (m, true) ∈ log
  current : ∀ m ∈ cur, (m, true) ∈ log
  left : ∀ n, item n → startable n → n ∈ log.map Prod.fst ++ (kept ++ rest)
  due : ∀ n ∈ kept ++ rest, (∀ m ∈ pre n, (m, true) ∈ log) →
    (pre n = cur ∧ n ∈ rest) ∨ ∃ m ∈ pre n, m ∈ queue

variable {pre : ν → Option ν} {item startable : ν → Prop} {kept rest queue : List ν}
  {log : List (ν × Bool)} {cur : Option ν} {n m : ν}

theorem ordered_nil : Ordered pre [] := by
  intro before after n b heq
  cases before <;> cases heq

/-- An attempt after a success of its predecessor. -/
theorem Ordered.concat (h : Ordered pre log) (hpre : ∀ m ∈ pre n, (m, true) ∈ log) (b : Bool) :
    Ordered pre (log ++ [(n, b)]) := by
  intro before after n' b' heq m hm
  rcases List.eq_nil_or_concat after with rfl | ⟨after, last, rfl⟩
  · obtain ⟨rfl, hlast⟩ := List.append_inj' heq rfl
    cases hlast
    exact hpre m hm
  · rw [List.concat_eq_append, ← List.cons_append, ← List.append_assoc] at heq
    obtain ⟨rfl, -⟩ := List.append_inj' heq rfl
    exact h before after n' b' rfl m hm

theorem Reachable.is_item (h : Reachable pre item log n) : item n := by
  cases h with
  | root _ hn _ => exact hn
  | next _ m hn _ _ _ => exact hn

namespace StartOrder

/-- Nothing has been tried, and the first pass begins. -/
theorem start {items : List ν} (hnodup : items.Nodup) (hitem : ∀ n, item n ↔ n ∈ items) :
    StartOrder pre item startable [] items [] [] none where
  once := hnodup
  known := fun n hn => (hitem n).mpr hn
  ordered := ordered_nil
  started := by
    intro m hm
    cases hm
  current := by
    intro m hm
    cases hm
  left := fun n hn _ => (hitem n).mp hn
  due := by
    intro n hn hpre
    refine Or.inl ⟨Option.eq_none_iff_forall_not_mem.mpr fun m hm => ?_, hn⟩
    cases hpre m hm

/-- The item waits for another one. -/
theorem skip (h : StartOrder pre item startable kept (n :: rest) queue log cur)
    (hne : pre n ≠ cur) : StartOrder pre item startable (kept ++ [n]) rest queue log cur := by
  have hsame : kept ++ [n] ++ rest = kept ++ n :: rest := by simp
  refine ⟨?_, ?_, h.ordered, h.started, h.current, ?_, ?_⟩
  · rw [hsame]
    exact h.once
  · rw [hsame]
    exact h.known
  · rw [hsame]
    exact h.left
  · rw [hsame]
    intro n' hn' hpre
    rcases h.due n' hn' hpre with ⟨hcur, hmem⟩ | hqueue
    · rcases List.mem_cons.mp hmem with rfl | hmem
      · exact absurd hcur hne
      · exact Or.inl ⟨hcur, hmem⟩
    · exact Or.inr hqueue

/-- What waits when the item does not any more. -/
theorem sublist (kept rest : List ν) (n : ν) : (kept ++ rest).Sublist (kept ++ n :: rest) :=
  List.Sublist.append_left (List.sublist_cons_self n rest) kept

/-- The item is given up; it could not have been started. -/
theorem drop (h : StartOrder pre item startable kept (n :: rest) queue log cur)
    (hn : ¬ startable n) : StartOrder pre item startable kept rest queue log cur := by
  have hsub := sublist kept rest n
  refine ⟨h.once.sublist (hsub.append_left _), ?_, h.ordered, h.started, h.current, ?_, ?_⟩
  · intro n' hn'
    exact h.known n' ((hsub.append_left _).subset hn')
  · intro n' hitem hstart
    have hne : n' ≠ n := by
      rintro rfl
      exact hn hstart
    simpa [hne] using h.left n' hitem hstart
  · intro n' hn' hpre
    rcases h.due n' (hsub.subset hn') hpre with ⟨hcur, hmem⟩ | hqueue
    · rcases List.mem_cons.mp hmem with rfl | hmem
      · -- the list would have it twice
        have hnodup := (List.nodup_append.mp h.once).2.1
        rw [List.nodup_middle] at hnodup
        exact absurd hn' (List.nodup_cons.mp hnodup).1
      · exact Or.inl ⟨hcur, hmem⟩
    · exact Or.inr hqueue

/-- The item is tried, its predecessor being the one of this pass. -/
theorem attempt (h : StartOrder pre item startable kept (n :: rest) queue log cur)
    (hpre : pre n = cur) (b : Bool) :
    StartOrder pre item startable kept rest (if b then queue ++ [n] else queue)
      (log ++ [(n, b)]) cur := by
  have hmove : (log.map Prod.fst ++ (kept ++ n :: rest)).Perm
      ((log ++ [(n, b)]).map Prod.fst ++ (kept ++ rest)) := by
    rw [List.map_append, List.append_assoc]
    exact List.perm_middle.append_left _
  have hold : ∀ m, (m, true) ∈ log → (m, true) ∈ log ++ [(n, b)] :=
    fun m hm => List.mem_append_left _ hm
  refine ⟨hmove.nodup h.once, fun n' hn' => h.known n' (hmove.mem_iff.mpr hn'), ?_, ?_,
    fun m hm => hold m (h.current m hm), ?_, ?_⟩
  · apply h.ordered.concat
    rw [hpre]
    exact h.current
  · intro m hm
    cases b with
    | false => exact hold m (h.started m hm)
    | true =>
      rw [if_pos rfl, List.mem_append, List.mem_singleton] at hm
      rcases hm with hm | rfl
      · exact hold m (h.started m hm)
      · simp
  · intro n' hitem hstart
    exact hmove.mem_iff.mp (h.left n' hitem hstart)
  · intro n' hn' hpre'
    have hne : n' ≠ n := by
      rintro rfl
      have hnodup := (List.nodup_append.mp h.once).2.1
      rw [List.nodup_middle] at hnodup
      exact (List.nodup_cons.mp hnodup).1 hn'
    by_cases hnew : ∃ m ∈ pre n', (m, true) ∉ log
    · obtain ⟨m, hm, hlog⟩ := hnew
      -- it waits for the item that has just been started
      have hlast := hpre' m hm
      rw [List.mem_append, List.mem_singleton] at hlast
      obtain ⟨rfl, rfl⟩ := Prod.mk.inj (hlast.resolve_left hlog)
      exact Or.inr ⟨m, hm, by simp⟩
    · have hall : ∀ m ∈ pre n', (m, true) ∈ log := by
        intro m hm
        by_contra hlog
        exact hnew ⟨m, hm, hlog⟩
      rcases h.due n' ((sublist kept rest n).subset hn') hall with ⟨hcur, hmem⟩ | ⟨m, hm, hqueue⟩
      · exact Or.inl ⟨hcur, (List.mem_cons.mp hmem).resolve_left hne⟩
      · refine Or.inr ⟨m, hm, ?_⟩
        cases b with
        | false => exact hqueue
        | true => exact List.mem_append_left _ hqueue

/-- The pass is over, and the next one is for the first item of the queue. -/
theorem next (h : StartOrder pre item startable kept [] (m :: queue) log cur) :
    StartOrder pre item startable [] kept queue log (some m) where
  once := by simpa using h.once
  known := by simpa using h.known
  ordered := h.ordered
  started := fun m' hm' => h.started m' (List.mem_cons_of_mem m hm')
  current := by
    intro m' hm'
    obtain rfl : m = m' := Option.some.inj hm'
    exact h.started m (List.mem_cons_self ..)
  left := by simpa using h.left
  due := by
    intro n hn hpre
    rcases h.due n (by simpa using hn) hpre with ⟨-, hmem⟩ | ⟨m', hm', hqueue⟩
    · cases hmem
    · rcases List.mem_cons.mp hqueue with rfl | hqueue
      · exact Or.inl ⟨hm', hn⟩
      · exact Or.inr ⟨m', hm', hqueue⟩

/-- **What is reached.**  When nothing waits, or a pass is over and the queue is empty, every item
that can be started and whose predecessors have been started has been tried. -/
theorem complete (h : StartOrder pre item startable kept [] queue log cur)
    (hstop : kept = [] ∨ queue = []) (hn : Reachable pre item log n) (hstart : startable n) :
    n ∈ log.map Prod.fst := by
  have hin := h.left n hn.is_item hstart
  rw [List.append_nil, List.mem_append] at hin
  rcases hin with hlog | hkept
  · exact hlog
  rcases hstop with rfl | rfl
  · cases hkept
  have hpre : ∀ m ∈ pre n, (m, true) ∈ log := by
    cases hn with
    | root _ _ hnone =>
      intro m hm
      rw [hnone] at hm
      cases hm
    | next _ m' _ hpre _ hok =>
      intro m hm
      rw [hpre] at hm
      cases hm
      exact hok
  rcases h.due n (by simpa using hkept) hpre with ⟨-, hmem⟩ | ⟨m, -, hqueue⟩
  · cases hmem
  · cases hqueue

end StartOrder

end HeavenFox.Logic
