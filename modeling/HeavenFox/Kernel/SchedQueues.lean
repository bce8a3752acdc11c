/-
# HeavenFox.Kernel.SchedQueues -- the scheduler's lists as queues of threads

`Queues l q` says that the link fields `l` are the rings of the queues `q`: one
list of threads for the ready head and one for the suspend head, no thread on
both, and the sleep head as the static initialiser left it.  The list functions of
`sched.c` are then edits of `q`: a deletion takes one thread out, an addition puts
one in, behind the last thread that is not lower in priority.
-/
import HeavenFox.Kernel.Sched
import HeavenFox.Logic.Rings
import HeavenFox.Logic.StableQueue

set_option linter.style.nameCheck false

namespace HeavenFox.Kernel

open HeavenFox.Logic HeavenFox.Common

/-- The link fields are the rings of `q`.  The sleep head points into the ready ring and heads no
ring of its own. -/
structure Queues (l : Links Node) (q : StatusList → List Nat) : Prop where
  rings : Rings l (· ≠ .sleep) Node.head (fun _ => .link) q
  sleepEmpty : q .sleep = []
  sleepNext : l.next (.head .sleep) = .head .ready
  sleepPrev : l.prev (.head .sleep) = .head .ready

namespace Queues

variable {l : Links Node} {q : StatusList → List Nat} {list : StatusList} {p : Nat}
  {pre post : List Nat}

/-- The nodes of a queue: its head and the links of its threads. -/
abbrev nodes (q : StatusList → List Nat) (list : StatusList) : List Node :=
  ringNodes Node.head (fun _ => .link) q list

theorem ring (h : Queues l q) (list : StatusList) (hl : list ≠ .sleep) :
    Ring l (.head list) ((q list).map .link) := h.rings.ring list hl

/-- A thread is on one list at most. -/
theorem apart (h : Queues l q) (a b : StatusList) (p : Nat) (ha : p ∈ q a) (hb : p ∈ q b) :
    a = b := by
  have hlist : ∀ c, p ∈ q c → c ≠ .sleep := by
    rintro c hc rfl
    simp [h.sleepEmpty] at hc
  by_contra hab
  exact h.rings.apart a b (hlist a ha) (hlist b hb) hab
    (List.mem_cons_of_mem _ (List.mem_map_of_mem ha))
    (List.mem_cons_of_mem _ (List.mem_map_of_mem hb))

theorem link_not_mem (hp : ∀ a, p ∉ q a) (a : StatusList) : Node.link p ∉ nodes q a := by
  simp [nodes, ringNodes, hp a]

theorem sleep_not_mem (hl : list ≠ .sleep) : Node.head .sleep ∉ nodes q list := by
  simp [nodes, ringNodes, hl.symm]

/-- Put a thread that is on no list at a place of one. -/
theorem insert (h : Queues l q) (hl : list ≠ .sleep) (hq : q list = pre ++ post)
    (hp : ∀ a, p ∉ q a) :
    Queues (l.insertAfter (Ring.before (.head list) (pre.map .link)) (.link p))
      (Function.update q list (pre ++ p :: post)) := by
  have hb : Ring.before (.head list) (pre.map .link) ∈ nodes q list := Rings.before_mem hq
  have hn := (h.ring list hl).next_mem hb
  refine ⟨h.rings.insert hl hq fun a _ => link_not_mem hp a, ?_, ?_, ?_⟩
  · rw [Function.update_of_ne hl.symm]
    exact h.sleepEmpty
  · rw [Links.insertAfter_next, if_neg (by simp), if_neg]
    · exact h.sleepNext
    · intro he
      exact sleep_not_mem hl (he ▸ hb)
  · rw [Links.insertAfter_prev, if_neg, if_neg (by simp)]
    · exact h.sleepPrev
    · intro he
      exact sleep_not_mem hl (he ▸ hn)

/-- Link a thread that is on no list to itself. -/
theorem selfLink (h : Queues l q) (hp : ∀ a, p ∉ q a) : Queues (l.selfLink (.link p)) q := by
  refine ⟨h.rings.selfLink fun a _ => link_not_mem hp a, h.sleepEmpty, ?_, ?_⟩
  · simpa [Links.selfLink] using h.sleepNext
  · simpa [Links.selfLink] using h.sleepPrev

/-- Take a thread off its list and link it to itself. -/
theorem remove (h : Queues l q) (hl : list ≠ .sleep) (hq : q list = pre ++ p :: post) :
    Queues ((l.unlink (.link p)).selfLink (.link p)) (Function.update q list (pre ++ post)) := by
  have hmem : Node.link p ∈ nodes q list := by simp [nodes, ringNodes, hq]
  have hb := (h.ring list hl).prev_mem hmem
  have hn := (h.ring list hl).next_mem hmem
  have hnodup : (pre ++ p :: post).Nodup := by
    have := (h.ring list hl).members_nodup
    rw [hq] at this
    exact this.of_map
  have hgone : ∀ a, p ∉ Function.update q list (pre ++ post) a := by
    intro a
    by_cases hal : a = list
    · subst hal
      rw [Function.update_self]
      exact (List.nodup_middle.mp hnodup |> List.nodup_cons.mp).1
    · rw [Function.update_of_ne hal]
      exact fun hp => hal (h.apart a list p hp (by simp [hq]))
  refine Queues.selfLink ⟨h.rings.remove hl hq, ?_, ?_, ?_⟩ hgone
  · rw [Function.update_of_ne hl.symm]
    exact h.sleepEmpty
  · rw [Links.unlink_next, if_neg]
    · exact h.sleepNext
    · intro he
      exact sleep_not_mem hl (he ▸ hb)
  · rw [Links.unlink_prev, if_neg]
    · exact h.sleepPrev
    · intro he
      exact sleep_not_mem hl (he ▸ hn)

end Queues

/-! ## The list functions -/

section Functions

variable {configRollPoll : Bool} {rounds : Nat} {s : SchedulerTable} {q : StatusList → List Nat}
  {list : StatusList} {p : Nat}

/-- Where an addition puts a thread: at the end when polling in order, by priority otherwise. -/
def Admitted (configRollPoll : Bool) (priority : Nat → Nat) (p : Nat) (xs ys : List Nat) : Prop :=
  if configRollPoll then ys = xs ++ [p] else InsertedByKey priority p xs ys

theorem Admitted.split {priority : Nat → Nat} {xs ys : List Nat}
    (h : Admitted configRollPoll priority p xs ys) :
    ∃ pre post, xs = pre ++ post ∧ ys = pre ++ p :: post := by
  unfold Admitted at h
  split at h
  · exact ⟨xs, [], by simp, h⟩
  · obtain ⟨pre, post, hxs, hys, -, -⟩ := h
    exact ⟨pre, post, hxs, hys⟩

theorem Admitted.mem {priority : Nat → Nat} {xs ys : List Nat}
    (h : Admitted configRollPoll priority p xs ys) {x : Nat} : x ∈ ys ↔ x = p ∨ x ∈ xs := by
  obtain ⟨pre, post, rfl, rfl⟩ := h.split
  simp only [List.mem_append, List.mem_cons]
  tauto

/-- **`__schedule_del_status_list`** takes a thread off the list it is on. -/
theorem delStatusList_spec {pre post : List Nat} (h : Queues s.links q) (hl : list ≠ .sleep)
    (hq : q list = pre ++ p :: post) (hlen : (q list).length < rounds) :
    ∃ links, __scheduleDelStatusList rounds s p list = .ok { s with links } ∧
      Queues links (Function.update q list (pre ++ post)) := by
  have hmem : Node.link p ∈ (q list).map Node.link := by simp [hq]
  refine ⟨_, ?_, h.remove hl hq⟩
  rw [__scheduleDelStatusList, listHeadDelSafe_ring (h.ring list hl) (by simpa using hlen),
    if_pos hmem, ← initListHead_eq]
  rfl

/-- **`__find_thread_from_scheduler`** reports a thread that is not on the list. -/
theorem findThread_absent {tid : Nat} (h : Queues s.links q) (hl : list ≠ .sleep)
    (habsent : ∀ x ∈ q list, s.sprtTidArray tid ≠ some x) (hlen : (q list).length < rounds) :
    __findThreadFromScheduler rounds s tid list = .ok (-erNotfound) := by
  have hbody : ∀ x ∈ q list, findBody s tid (.link x) = .ok none := by
    intro x hx
    simp [findBody, habsent x hx]
  have hwalk := foreachEntry_next (h.ring list hl) hbody hlen
  have hnone : (q list).findSome? (fun _ => (none : Option Int)) = none := by simp
  rw [hnone] at hwalk
  rw [__findThreadFromScheduler, hwalk]
  rfl

/-- The place the search from the back comes to. -/
theorem findPlace_spec {iPriority : Nat} (h : Queues s.links q) (hl : list ≠ .sleep)
    (hlen : (q list).length < rounds) :
    findPlace rounds s iPriority list =
      .ok (((q list).reverse.find? fun x => decide (s.priority x ≤ iPriority)).map .link) := by
  rw [findPlace, foreachEntry_prev (h.ring list hl) (fun x _ => rfl) hlen]
  congr 1
  generalize (q list).reverse = xs
  induction xs with
  | nil => rfl
  | cons x xs ih =>
    by_cases hx : s.priority x ≤ iPriority
    · simp [__threadIsLowPrio, hx]
    · simp [__threadIsLowPrio, hx] at ih ⊢
      exact ih

/-- **`__schedule_add_status_list`** puts a thread that is on no list on one. -/
theorem addStatusList_spec (h : Queues s.links q) (hl : list ≠ .sleep) (hp : ∀ a, p ∉ q a)
    (habsent : ∀ x ∈ q list, s.sprtTidArray (s.threads p).tid ≠ some x)
    (hlen : (q list).length < rounds) :
    ∃ links ys, __scheduleAddStatusList configRollPoll rounds s p list =
        .ok (erNormal, { s with links }) ∧
      Admitted configRollPoll s.priority p (q list) ys ∧
      Queues links (Function.update q list ys) := by
  by_cases hempty : mrtListHeadEmpty s.links (.head list) = true
  · have hnil : q list = [] := by
      simpa using (mrtListHeadEmpty_iff (h.ring list hl)).mp hempty
    refine ⟨_, [p], by rw [__scheduleAddStatusList, if_pos hempty], ?_, ?_⟩
    · unfold Admitted
      split
      · simp [hnil]
      · exact ⟨[], [], by simp [hnil], rfl, by simp, by simp⟩
    · rw [listHeadAddHead_eq]
      exact h.insert hl (show q list = [] ++ [] from hnil) hp
  · have hfind := findThread_absent h hl habsent hlen
    have hneg : ¬ (0 : Int) ≤ -erNotfound := by decide
    have hrest : __scheduleAddStatusList configRollPoll rounds s p list =
        (if configRollPoll then
          .ok (erNormal, { s with links := listHeadAddTail s.links (.head list) (.link p) })
        else do
          let place ← findPlace rounds s (s.priority p) list
          pure (erNormal,
            { s with links := listHeadAddHead s.links (place.getD (.head list)) (.link p) })) := by
      rw [__scheduleAddStatusList, if_neg hempty, hfind]
      simp only [bind, Except.bind, if_neg hneg, pure, Except.pure]
    rw [hrest]
    cases configRollPoll with
    | true =>
      refine ⟨_, q list ++ [p], rfl, rfl, ?_⟩
      rw [listHeadAddTail_eq (h.ring list hl)]
      exact h.insert hl (List.append_nil (q list)).symm hp
    | false =>
      rw [findPlace_spec h hl hlen]
      cases hplace : (q list).reverse.find? fun x => decide (s.priority x ≤ s.priority p) with
      | none =>
        refine ⟨_, p :: q list, rfl, insertedByKey_of_find_none hplace, ?_⟩
        rw [listHeadAddHead_eq]
        exact h.insert hl (show q list = [] ++ q list from rfl) hp
      | some y =>
        obtain ⟨pre, post, hq, hins⟩ := insertedByKey_of_find_some hplace
        refine ⟨_, _, rfl, hins, ?_⟩
        rw [listHeadAddHead_eq]
        have := h.insert hl hq hp
        rwa [List.map_append, List.map_singleton, Ring.before_concat] at this

end Functions

end HeavenFox.Kernel
