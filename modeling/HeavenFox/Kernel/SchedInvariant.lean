/-
# HeavenFox.Kernel.SchedInvariant -- what a status switch keeps

`Core s q` ties the three places a thread's status shows up in -- its status
field, the lists, and `sprt_work` -- to each other, for every registered thread.
It does not speak about `to_status`, so marking a thread for a switch keeps it, and
`schedule_thread_switch` gets one lemma for each way it can go: refused, the
running thread replaced by the first ready one, a thread moved from list to list,
and the first thread started.
-/
import HeavenFox.Kernel.SchedQueues
import Mathlib.Data.List.Perm.Subperm

set_option linter.style.nameCheck false

namespace HeavenFox.Kernel

open HeavenFox.Logic HeavenFox.Common

/-- The table entry of the thread's tid is the thread. -/
def SchedulerTable.Registered (s : SchedulerTable) (p : Nat) : Prop :=
  s.sprtTidArray (s.threads p).tid = some p

/-- Every registered thread is running, ready or suspended, and is where its status says. -/
structure Core (s : SchedulerTable) (q : StatusList → List Nat) : Prop where
  queues : Queues s.links q
  tids : ∀ tid p, s.sprtTidArray tid = some p → (s.threads p).tid = tid ∧ tid < realThreadMaxNum
  queued : ∀ list p, p ∈ q list ↔ s.Registered p ∧ (s.threads p).status = list.status
  work : ∀ p, s.sprtWork = some p ↔ s.Registered p ∧ (s.threads p).status = .running
  placed : ∀ p, s.Registered p → (s.threads p).status = .running ∨
    (s.threads p).status = .ready ∨ (s.threads p).status = .suspend
  early : s.sprtWork = none → q .suspend = []
  idle : ∀ p, s.sprtTidArray realThreadTidIdle = some p → (s.threads p).status ≠ .suspend

namespace Core

variable {s s' : SchedulerTable} {q : StatusList → List Nat} {list : StatusList} {p tid : Nat}

theorem registered (h : Core s q) (htid : s.sprtTidArray tid = some p) : s.Registered p := by
  unfold SchedulerTable.Registered
  rw [(h.tids tid p htid).1]
  exact htid

/-- Different registered threads have different tids. -/
theorem registered_inj {p p' : Nat} (hp : s.Registered p) (hp' : s.Registered p')
    (htid : (s.threads p).tid = (s.threads p').tid) : p = p' := by
  unfold SchedulerTable.Registered at hp hp'
  rw [htid, hp'] at hp
  exact (Option.some.inj hp).symm

theorem nodup (h : Core s q) (list : StatusList) : (q list).Nodup := by
  by_cases hl : list = .sleep
  · subst hl
    rw [h.queues.sleepEmpty]
    exact List.nodup_nil
  · exact (h.queues.ring list hl).members_nodup.of_map

/-- A list is no longer than the table, because its threads have different tids. -/
theorem length_le (h : Core s q) (list : StatusList) : (q list).length ≤ realThreadMaxNum := by
  have hnodup : ((q list).map fun p => (s.threads p).tid).Nodup := by
    refine List.Nodup.map_on (fun x hx y hy hxy => ?_) (h.nodup list)
    exact registered_inj ((h.queued list x).mp hx).1 ((h.queued list y).mp hy).1 hxy
  have hsub : ((q list).map fun p => (s.threads p).tid) ⊆ List.range realThreadMaxNum := by
    intro t ht
    obtain ⟨x, hx, rfl⟩ := List.mem_map.mp ht
    exact List.mem_range.mpr (h.tids _ x ((h.queued list x).mp hx).1).2
  have := (List.Nodup.subperm hnodup hsub).length_le
  simpa using this

/-- The invariant reads the tids and statuses of the threads and nothing else of them. -/
theorem congr (h : Core s q) (hlinks : s'.links = s.links) (hwork : s'.sprtWork = s.sprtWork)
    (htab : s'.sprtTidArray = s.sprtTidArray)
    (ht : ∀ x, (s'.threads x).tid = (s.threads x).tid ∧
      (s'.threads x).status = (s.threads x).status) : Core s' q := by
  have hreg : ∀ x, s'.Registered x ↔ s.Registered x := by
    intro x
    unfold SchedulerTable.Registered
    rw [htab, (ht x).1]
  refine ⟨hlinks ▸ h.queues, fun t x hx => ?_, fun list x => ?_, fun x => ?_, fun x hx => ?_, ?_,
    fun x hx => ?_⟩
  · rw [(ht x).1]
    exact h.tids t x (htab ▸ hx)
  · rw [hreg, (ht x).2]
    exact h.queued list x
  · rw [hwork, hreg, (ht x).2]
    exact h.work x
  · rw [(ht x).2]
    exact h.placed x ((hreg x).mp hx)
  · rw [hwork]
    exact h.early
  · rw [(ht x).2]
    exact h.idle x (htab ▸ hx)

end Core

/-! ## Thread writes -/

section Writes

variable (s : SchedulerTable) (p x : Nat) (t : RealThread)

@[simp] theorem setThread_threads_self : (s.setThread p t).threads p = t := by
  simp [SchedulerTable.setThread]

theorem setThread_threads_of_ne (h : x ≠ p) : (s.setThread p t).threads x = s.threads x := by
  simp [SchedulerTable.setThread, h]

@[simp] theorem setThread_sprtTidArray : (s.setThread p t).sprtTidArray = s.sprtTidArray := rfl

end Writes

/-- What `__SET_THREAD_STATUS` leaves of the table. -/
def SchedulerTable.targeted (s : SchedulerTable) (p : Nat) (value : BasicStatus) : SchedulerTable :=
  s.setThread p { s.threads p with toStatus := value }

section Targeted

variable (s : SchedulerTable) (p x : Nat) (value : BasicStatus)

theorem targeted_threads_of_ne (h : x ≠ p) : (s.targeted p value).threads x = s.threads x :=
  setThread_threads_of_ne _ _ _ _ h

@[simp] theorem targeted_tid : ((s.targeted p value).threads x).tid = (s.threads x).tid := by
  by_cases h : x = p
  · subst h
    simp [SchedulerTable.targeted]
  · rw [targeted_threads_of_ne _ _ _ _ h]

@[simp] theorem targeted_status :
    ((s.targeted p value).threads x).status = (s.threads x).status := by
  by_cases h : x = p
  · subst h
    simp [SchedulerTable.targeted]
  · rw [targeted_threads_of_ne _ _ _ _ h]

@[simp] theorem targeted_toStatus : ((s.targeted p value).threads p).toStatus = value := by
  simp [SchedulerTable.targeted]

@[simp] theorem targeted_priority : (s.targeted p value).priority = s.priority := by
  funext x
  by_cases h : x = p
  · subst h
    simp [SchedulerTable.priority, SchedulerTable.targeted]
  · simp [SchedulerTable.priority, targeted_threads_of_ne _ _ _ _ h]

@[simp] theorem targeted_links : (s.targeted p value).links = s.links := rfl

@[simp] theorem targeted_sprtWork : (s.targeted p value).sprtWork = s.sprtWork := rfl

@[simp] theorem targeted_sprtTidArray : (s.targeted p value).sprtTidArray = s.sprtTidArray := rfl

@[simp] theorem targeted_threadScheduleRef :
    (s.targeted p value).threadScheduleRef = s.threadScheduleRef := rfl

@[simp] theorem targeted_registered : (s.targeted p value).Registered x ↔ s.Registered x := by
  simp [SchedulerTable.Registered]

end Targeted

/-- What `__SYNC_THREAD_STATUS` leaves of the table. -/
def SchedulerTable.marked (s : SchedulerTable) (p : Nat) (value : BasicStatus) : SchedulerTable :=
  s.setThread p { s.threads p with status := value, toStatus := .none }

section Marked

variable (s : SchedulerTable) (p x : Nat) (value : BasicStatus)

@[simp] theorem marked_tid : ((s.marked p value).threads x).tid = (s.threads x).tid := by
  by_cases h : x = p
  · subst h
    simp [SchedulerTable.marked]
  · simp [SchedulerTable.marked, setThread_threads_of_ne _ _ _ _ h]

@[simp] theorem marked_sprtAttr :
    ((s.marked p value).threads x).sprtAttr = (s.threads x).sprtAttr := by
  by_cases h : x = p
  · subst h
    simp [SchedulerTable.marked]
  · simp [SchedulerTable.marked, setThread_threads_of_ne _ _ _ _ h]

@[simp] theorem marked_status :
    ((s.marked p value).threads x).status = if x = p then value else (s.threads x).status := by
  by_cases h : x = p
  · subst h
    simp [SchedulerTable.marked]
  · simp [SchedulerTable.marked, setThread_threads_of_ne _ _ _ _ h, h]

@[simp] theorem marked_toStatus :
    ((s.marked p value).threads x).toStatus = if x = p then .none else (s.threads x).toStatus := by
  by_cases h : x = p
  · subst h
    simp [SchedulerTable.marked]
  · simp [SchedulerTable.marked, setThread_threads_of_ne _ _ _ _ h, h]

@[simp] theorem marked_priority : (s.marked p value).priority x = s.priority x := by
  simp [SchedulerTable.priority]

@[simp] theorem marked_links : (s.marked p value).links = s.links := rfl

@[simp] theorem marked_sprtWork : (s.marked p value).sprtWork = s.sprtWork := rfl

@[simp] theorem marked_sprtTidArray : (s.marked p value).sprtTidArray = s.sprtTidArray := rfl

@[simp] theorem marked_registered : (s.marked p value).Registered x ↔ s.Registered x := by
  simp [SchedulerTable.Registered]

end Marked

variable {s : SchedulerTable} {q : StatusList → List Nat} {p tid : Nat} {value : BasicStatus}

theorem setThreadStatus_spec (htid : s.sprtTidArray tid = some p) (hv : value ≠ .statusMax) :
    __setThreadStatus s tid value = .ok (s.targeted p value) := by
  simp [__setThreadStatus, hv, htid, SchedulerTable.targeted]

theorem syncThreadStatus_spec (htid : s.sprtTidArray tid = some p) (hv : value ≠ .statusMax) :
    __syncThreadStatus s tid value = .ok (s.marked p value) := by
  simp [__syncThreadStatus, hv, htid, SchedulerTable.marked]

/-- Marking a thread for a switch keeps the invariant. -/
theorem Core.targeted (h : Core s q) (p : Nat) (value : BasicStatus) : Core (s.targeted p value) q :=
  h.congr rfl rfl rfl fun x => ⟨targeted_tid s p x value, targeted_status s p x value⟩

/-! ## Taking a thread out of a queue and putting one in -/

section Membership

variable {a b : StatusList} {f x : Nat} {pre post ys : List Nat}

theorem Core.mem_remove (h : Core s q) (hq : q b = pre ++ f :: post) :
    x ∈ Function.update q b (pre ++ post) a ↔ x ∈ q a ∧ x ≠ f := by
  have hnodup := h.nodup b
  rw [hq, List.nodup_middle, List.nodup_cons] at hnodup
  by_cases hab : a = b
  · subst hab
    rw [Function.update_self, hq]
    have hne : x ∈ pre ++ post → x ≠ f := by
      rintro hx rfl
      exact hnodup.1 hx
    simp only [List.mem_append, List.mem_cons] at hne ⊢
    tauto
  · rw [Function.update_of_ne hab]
    have hne : x ∈ q a → x ≠ f := by
      rintro hx rfl
      exact hab (h.queues.apart a b x hx (by simp [hq]))
    tauto

theorem mem_update_admitted {configRollPoll : Bool} {priority : Nat → Nat}
    (h : Admitted configRollPoll priority p (q b) ys) :
    x ∈ Function.update q b ys a ↔ x ∈ q a ∨ x = p ∧ a = b := by
  by_cases hab : a = b
  · subst hab
    rw [Function.update_self, h.mem]
    tauto
  · rw [Function.update_of_ne hab]
    tauto

theorem StatusList.status_inj {a b : StatusList} : a.status = b.status ↔ a = b := by
  cases a <;> cases b <;> decide

theorem StatusList.status_ne_running (a : StatusList) : a.status ≠ .running := by
  cases a <;> decide

/-- The running thread is on no list. -/
theorem Core.not_queued (h : Core s q) (hwork : s.sprtWork = some x) (a : StatusList) : x ∉ q a := by
  intro hx
  have hst := ((h.queued a x).mp hx).2
  rw [((h.work x).mp hwork).2] at hst
  exact StatusList.status_ne_running a hst.symm

theorem StatusList.status_ne_statusMax (a : StatusList) : a.status ≠ .statusMax := by
  cases a <;> decide

end Membership

/-! ## The list functions on the table -/

section Lists

variable {list : StatusList} {pre post : List Nat}

theorem detachFromList_spec (rounds : Nat) (h : Queues s.links q) (hl : list ≠ .sleep)
    (htid : s.sprtTidArray tid = some p) (hstatus : (s.threads p).status = list.status)
    (hq : q list = pre ++ p :: post) (hlen : (q list).length < rounds) :
    ∃ links, detachFromList rounds list s tid = .ok (erNormal, { s with links }) ∧
      Queues links (Function.update q list (pre ++ post)) := by
  obtain ⟨links, hdel, hqueues⟩ := delStatusList_spec h hl hq hlen
  refine ⟨links, ?_, hqueues⟩
  simp [detachFromList, htid, hstatus, hdel, bind, Except.bind, pure, Except.pure]

theorem addToList_spec (configRollPoll : Bool) (rounds : Nat) (list : StatusList) (tid : Nat)
    (h : Queues s.links q) (hl : list ≠ .sleep)
    (htid : s.sprtTidArray tid = some p) (hreg : s.Registered p)
    (hstatus : (s.threads p).status ≠ list.status) (hp : ∀ a, p ∉ q a)
    (hlen : (q list).length < rounds) :
    ∃ links ys, addToList configRollPoll rounds list s tid = .ok (erNormal, { s with links }) ∧
      Admitted configRollPoll s.priority p (q list) ys ∧
      Queues links (Function.update q list ys) := by
  have habsent : ∀ x ∈ q list, s.sprtTidArray (s.threads p).tid ≠ some x := by
    intro x hx hsome
    rw [hreg, Option.some.injEq] at hsome
    exact hp list (hsome ▸ hx)
  obtain ⟨links, ys, hadd, hys, hqueues⟩ := addStatusList_spec h hl hp habsent hlen
  refine ⟨links, ys, ?_, hys, hqueues⟩
  simp only [addToList, htid, if_neg hstatus, hadd]

theorem firstValidEntry_spec {f : Nat} {rest : List Nat} (h : Queues s.links q)
    (hq : q .ready = f :: rest) : firstValidEntry s .ready = .ok (some f) := by
  have r := h.ring .ready (by decide)
  have hne : ¬ mrtListHeadEmpty s.links (.head .ready) = true := by
    rw [mrtListHeadEmpty_iff r, hq]
    simp
  have hnext : s.links.next (.head .ready) = .link f := by
    rw [hq] at r
    exact r.path.1.1
  simp [firstValidEntry, hne, hnext]

theorem ready_empty_iff (h : Queues s.links q) :
    mrtListHeadEmpty s.links (.head .ready) = true ↔ q .ready = [] := by
  rw [mrtListHeadEmpty_iff (h.ring .ready (by decide))]
  simp

end Lists

end HeavenFox.Kernel
