/-
# HeavenFox.Kernel.SchedRoundRobin -- threads of equal priority take turns

`__schedule_thread` lets the first ready thread run and puts the running one back behind
all threads that are not lower in priority.  Where the running thread and the first ready
threads have one priority and every other ready thread a larger value, this is a rotation:
each of them runs once, in order, and then the queue is what it was.

The running thread goes back to the ready list only if it has no other target status: one
that has been marked for suspension is suspended by the next call, which is what the mark
is for.
-/
import HeavenFox.Kernel.SchedGuarantees

set_option linter.style.nameCheck false

namespace HeavenFox.Kernel

open HeavenFox.Logic HeavenFox.Common

variable {rounds : Nat} {s s' t : SchedulerTable} {q : StatusList → List Nat} {w f : Nat}
  {mid front back larger : List Nat}

/-! ## Turns -/

/-- Calls of `__schedule_thread`, one after another, make the threads run in this order, and leave the
table `s'`. -/
def RunInTurn (s : SchedulerTable) : List Nat → SchedulerTable → Prop
  | [], s' => s = s'
  | p :: ps, s' => ∃ context t, __scheduleThread false walkRounds s = .ok (some context, t) ∧
      t.sprtWork = some p ∧ (t.threads p).status = .running ∧ RunInTurn t ps s'

/-- The running thread is to go back to the ready list. -/
def Stays (s : SchedulerTable) (w : Nat) : Prop :=
  (s.threads w).toStatus = .none ∨ (s.threads w).toStatus = .ready

theorem RunInTurn.append {ps ps' : List Nat} (h : RunInTurn s ps t) (h' : RunInTurn t ps' s') :
    RunInTurn s (ps ++ ps') s' := by
  induction ps generalizing s with
  | nil =>
    cases h
    exact h'
  | cons p ps ih =>
    obtain ⟨context, u, hcall, hwork, hst, hrest⟩ := h
    exact ⟨context, u, hcall, hwork, hst, ih hrest⟩

theorem Core.record (h : Core s q) : Core (schedulerRecord s) q := by
  unfold schedulerRecord
  split
  · exact h.congr rfl rfl rfl fun _ => ⟨rfl, rfl⟩
  · exact h.congr rfl rfl rfl fun _ => ⟨rfl, rfl⟩

theorem schedulerRecord_priority (s : SchedulerTable) :
    (schedulerRecord s).priority = s.priority := by
  unfold schedulerRecord
  split <;> rfl

/-- What one turn leaves: `f` runs, `w` is on the ready list behind its equals. -/
structure Turned (s s' : SchedulerTable) (q : StatusList → List Nat) (f : Nat)
    (ready : List Nat) : Prop where
  core : Core s' (Function.update q .ready ready)
  work : s'.sprtWork = some f
  stays : Stays s' f
  priority : s'.priority = s.priority

/-- **One turn.** -/
theorem schedule_turn (h : Core s q) (hwork : s.sprtWork = some w)
    (hready : q .ready = f :: (mid ++ larger)) (hmid : ∀ y ∈ mid, s.priority y = s.priority w)
    (hlarger : ∀ y ∈ larger, s.priority w < s.priority y) (hstays : Stays s w) :
    ∃ context s', __scheduleThread false walkRounds s = .ok (some context, s') ∧
      Turned s s' q f (mid ++ w :: larger) := by
  have hr : realThreadMaxNum < walkRounds := by decide
  obtain ⟨hwreg, hwst⟩ := (h.work w).mp hwork
  have hne : ¬ mrtListHeadEmpty s.links (.head .ready) = true := by
    rw [ready_empty_iff h.queues, hready]
    simp
  have hprev : schedulePrev s = .ok (some w, s) := by simp [schedulePrev, hwork]
  have hmark : defaultToReady s w = .ok (s.targeted w .ready) := by
    rcases hstays with hto | hto
    · rw [defaultToReady, if_pos hto]
      exact setThreadStatus_spec hwreg (by decide)
    · rw [defaultToReady, if_neg (by simp [hto]), targeted_self hto]
  have hcore := h.targeted w .ready
  have hto : ((s.targeted w .ready).threads w).toStatus = StatusList.ready.status :=
    targeted_toStatus _ _ _
  have hidle : StatusList.ready = .suspend →
      ((s.targeted w .ready).threads w).tid ≠ realThreadTidIdle := by
    intro heq
    cases heq
  obtain ⟨links, ys, hswitch, hys, hqueues⟩ :=
    switch_running false hcore hr hwork hready hto (by decide) hidle
  have hcore' := hcore.replace hwork hready hidle (by decide) hys hqueues
  rw [Function.update_self, targeted_priority] at hys
  have hplace : ys = mid ++ w :: larger :=
    InsertedByKey.eq_of_split hys (fun y hy => le_of_eq (hmid y hy)) hlarger
  rw [Function.update_idem, hplace] at hcore'
  have hcall := schedule_eq hne hprev hmark hswitch
  rw [if_neg (by decide)] at hcall
  refine ⟨_, _, hcall, hcore'.record, ?_, ?_, ?_⟩
  · rw [schedulerRecord_sprtWork]
    rfl
  · left
    rw [schedulerRecord_threads, marked_toStatus, marked_toStatus, if_pos rfl, ite_self]
  · rw [schedulerRecord_priority]
    funext x
    rw [marked_priority, marked_priority, ← targeted_priority s w .ready]
    rfl

/-- **Turns.**  By induction on the threads `front` that have not run yet; `back` are those that have.
The threads that have run stand behind those that have not, in order, and the last one runs. -/
theorem turns (back : List Nat) (h : Core s q) (hwork : s.sprtWork = some w)
    (hready : q .ready = front ++ back ++ larger)
    (hequal : ∀ y ∈ front ++ back, s.priority y = s.priority w)
    (hlarger : ∀ y ∈ larger, s.priority w < s.priority y) (hstays : Stays s w) :
    ∃ s', RunInTurn s front s' ∧
      Core s' (Function.update q .ready (back ++ (w :: front).dropLast ++ larger)) ∧
      s'.sprtWork = (w :: front).getLast? ∧ (∀ x, s'.sprtWork = some x → Stays s' x) ∧
      s'.priority = s.priority := by
  induction front generalizing s q w back with
  | nil =>
    have hsame : Function.update q .ready (back ++ [w].dropLast ++ larger) = q := by
      rw [Function.update_eq_self_iff, hready]
      simp
    refine ⟨s, rfl, ?_, hwork, ?_, rfl⟩
    · rw [hsame]
      exact h
    · intro x hx
      rw [hwork, Option.some.injEq] at hx
      rwa [← hx]
  | cons f front ih =>
    have hready' : q .ready = f :: ((front ++ back) ++ larger) := hready
    obtain ⟨context, t, hcall, hturn⟩ := schedule_turn h hwork hready'
      (fun y hy => hequal y (List.mem_cons_of_mem f hy)) hlarger hstays
    have hprio : ∀ x, t.priority x = s.priority x := fun x => congrFun hturn.priority x
    have hf : s.priority f = s.priority w := hequal f (by simp)
    obtain ⟨s', hrun, hcore, hwork', hstays', hprio'⟩ := ih (w := f) (back ++ [w])
      hturn.core hturn.work (by simp) (by
        intro y hy
        rw [hprio, hprio, hf]
        rcases List.mem_append.mp hy with hy | hy
        · exact hequal y (by simp [hy])
        · rcases List.mem_append.mp hy with hy | hy
          · exact hequal y (by simp [hy])
          · rw [List.mem_singleton.mp hy]) (by
        intro y hy
        rw [hprio, hprio, hf]
        exact hlarger y hy) hturn.stays
    refine ⟨s', ⟨context, t, hcall, hturn.work, ((hturn.core.work f).mp hturn.work).2, hrun⟩, ?_,
      ?_, hstays', hprio'.trans hturn.priority⟩
    · rw [Function.update_idem] at hcore
      simpa using hcore
    · rw [hwork', List.getLast?_cons_cons]

/-- **Round robin.**  In a consistent table in which the running thread `w` stays, and it and the
threads `group` at the head of the ready list, at least one, have the same priority and all others
on that list a larger value: as many calls as these are threads let each of them run once, in the
order of the list, `w` last, and then the ready list and the running thread are what they were. -/
theorem round_robin (s : SchedulerTable) (q : StatusList → List Nat) (w : Nat)
    (group larger : List Nat) (h : Core s q) (hwork : s.sprtWork = some w)
    (hready : q .ready = group ++ larger) (hgroup : group ≠ [])
    (hequal : ∀ y ∈ group, s.priority y = s.priority w)
    (hlarger : ∀ y ∈ larger, s.priority w < s.priority y) (hstays : Stays s w) :
    (group ++ [w]).Nodup ∧ ∃ s', RunInTurn s (group ++ [w]) s' ∧ Core s' q ∧
      s'.sprtWork = s.sprtWork := by
  have hw : w ∉ group := by
    intro hmem
    exact h.not_queued hwork .ready (by simp [hready, hmem])
  have hnodup : group.Nodup := by
    have hall := h.nodup .ready
    rw [hready] at hall
    exact (List.nodup_append.mp hall).1
  refine ⟨List.nodup_append.mpr ⟨hnodup, List.nodup_singleton w, ?_⟩, ?_⟩
  · rintro x hx y hy rfl
    rw [List.mem_singleton.mp hy] at hx
    exact hw hx
  obtain ⟨s₁, hrun, hcore, hwork₁, hstays₁, hprio⟩ := turns [] h hwork
    (by rw [hready, List.append_nil]) (by rw [List.append_nil]; exact hequal) hlarger hstays
  cases group using List.reverseRecOn with
  | nil => exact absurd rfl hgroup
  | append_singleton init g =>
    have hg : s₁.sprtWork = some g := by
      rw [hwork₁, ← List.cons_append, List.getLast?_concat]
    have hgprio : s₁.priority g = s.priority w := by
      rw [hprio]
      exact hequal g (by simp)
    -- `g` runs, and `w` is the first on the list
    have hready₁ : Function.update q .ready ([] ++ (w :: (init ++ [g])).dropLast ++ larger) .ready =
        w :: (init ++ larger) := by
      rw [Function.update_self, ← List.cons_append, List.dropLast_concat]
      rfl
    obtain ⟨context, s', hcall, hturn⟩ := schedule_turn hcore hg hready₁ (by
      intro y hy
      rw [hgprio, hprio]
      exact hequal y (by simp [hy])) (by
      intro y hy
      rw [hgprio, hprio]
      exact hlarger y hy) (hstays₁ g hg)
    have hback : Function.update q .ready (init ++ g :: larger) = q := by
      rw [Function.update_eq_self_iff, hready]
      simp
    have hcore' := hturn.core
    rw [Function.update_idem, hback] at hcore'
    exact ⟨s', hrun.append ⟨context, s', hcall, hturn.work, ((hcore'.work w).mp hturn.work).2, rfl⟩,
      hcore', hturn.work.trans hwork.symm⟩

/-! ## Two threads of equal priority -/

/-- Idle and two more threads of one priority, of which the first one runs. -/
def twoEqual : List Op :=
  [.register 0x1000 0 ⟨98, 0x100⟩, .register 0x2000 1 ⟨80, 0x200⟩, .register 0x3000 2 ⟨80, 0x300⟩,
    .schedule]

/-- The table that these calls leave. -/
theorem twoEqual_core : ∃ m q, exec (step false) Machine.init twoEqual = some m ∧
    Core m.table q ∧ m.table.sprtWork = some 0x2000 ∧ q .ready = [0x3000] ++ [0x1000] ∧
    (∀ y ∈ [0x3000], m.table.priority y = m.table.priority 0x2000) ∧
    (∀ y ∈ [0x1000], m.table.priority 0x2000 < m.table.priority y) ∧
    (m.table.threads 0x2000).toStatus = .none ∧ m.table.sprtTidArray 1 = some 0x2000 := by
  have hlegal : Meets (step false) Legal Machine.init twoEqual := by decide +kernel
  have hrun : (exec (step false) Machine.init twoEqual).map (fun m =>
      decide (m.table.members .ready = [0x3000, 0x1000] ∧ m.table.sprtWork = some 0x2000 ∧
        m.table.priority 0x1000 = 98 ∧ m.table.priority 0x2000 = 80 ∧
        m.table.priority 0x3000 = 80 ∧ (m.table.threads 0x2000).toStatus = .none ∧
        m.table.sprtTidArray 1 = some 0x2000)) = some true := by decide +kernel
  obtain ⟨m, hexec, hm⟩ := Option.map_eq_some_iff.mp hrun
  obtain ⟨q, hq⟩ := always_last (running_run hlegal) hexec
  obtain ⟨hmembers, hwork, hidle, hone, htwo, hto, htid⟩ := of_decide_eq_true hm
  refine ⟨m, q, hexec, hq.inv.toCore, hwork, ?_, ?_, ?_, hto, htid⟩
  · rw [← hq.inv.toCore.members_eq (by decide), hmembers]
    rfl
  · intro y hy
    rw [List.mem_singleton.mp hy, htwo, hone]
  · intro y hy
    rw [List.mem_singleton.mp hy, hidle, hone]
    decide

theorem round_robin_two :
    ∃ m q, exec (step false) Machine.init twoEqual = some m ∧ ([0x3000] ++ [0x2000]).Nodup ∧
      ∃ s', RunInTurn m.table ([0x3000] ++ [0x2000]) s' ∧ Core s' q ∧
        s'.sprtWork = m.table.sprtWork := by
  obtain ⟨m, q, hexec, hcore, hwork, hready, hequal, hlarger, hto, -⟩ := twoEqual_core
  obtain ⟨hnodup, hturns⟩ := round_robin m.table q 0x2000 [0x3000] [0x1000] hcore hwork hready
    (by decide) hequal hlarger (Or.inl hto)
  exact ⟨m, q, hexec, hnodup, hturns⟩

/-- The thread that runs after two calls. -/
def afterTwoCalls (s : SchedulerTable) : Option Nat :=
  match __scheduleThread false walkRounds s with
  | .error _ => none
  | .ok (_, t) =>
    match __scheduleThread false walkRounds t with
    | .error _ => none
    | .ok (_, u) => u.sprtWork

theorem RunInTurn.second {p p' : Nat} (h : RunInTurn s [p, p'] s') :
    afterTwoCalls s = some p' := by
  obtain ⟨_, t, hfirst, -, -, _, u, hsecond, hwork, -⟩ := h
  simp only [afterTwoCalls, hfirst, hsecond, hwork]

/-- Where the running thread has been marked for suspension, it is suspended, and idle runs after the
other thread. -/
theorem marked_thread_loses_turn :
    ∃ m s q, exec (step false) Machine.init twoEqual = some m ∧
      realThreadSetState m.table 0x2000 .suspend = .ok s ∧ Core s q ∧
      s.sprtWork = some 0x2000 ∧ q .ready = [0x3000] ++ [0x1000] ∧
      (q .ready).Pairwise (fun x y => s.priority x ≤ s.priority y) ∧
      (∀ y ∈ [0x3000], s.priority y = s.priority 0x2000) ∧
      (∀ y ∈ [0x1000], s.priority 0x2000 < s.priority y) ∧
      ¬ ∃ s', RunInTurn s ([0x3000] ++ [0x2000]) s' := by
  obtain ⟨m, q, hexec, hcore, hwork, hready, hequal, hlarger, -, htid⟩ := twoEqual_core
  have hset : realThreadSetState m.table 0x2000 .suspend =
      .ok (m.table.targeted 0x2000 .suspend) :=
    setThreadStatus_spec (hcore.registered htid) (by decide)
  refine ⟨m, _, q, hexec, hset, hcore.targeted 0x2000 .suspend, hwork, hready, ?_, ?_, ?_, ?_⟩
  · rw [hready, targeted_priority]
    have hle : m.table.priority 0x3000 ≤ m.table.priority 0x1000 := by
      rw [hequal 0x3000 (by simp)]
      exact Nat.le_of_lt (hlarger 0x1000 (by simp))
    simpa using hle
  · rw [targeted_priority]
    exact hequal
  · rw [targeted_priority]
    exact hlarger
  · rintro ⟨s', hrun⟩
    have hcalls : (exec (step false) Machine.init twoEqual).bind
        (fun m => afterTwoCalls (m.table.targeted 0x2000 .suspend)) = some 0x1000 := by
      decide +kernel
    rw [hexec, Option.bind_some, hrun.second] at hcalls
    cases hcalls

end HeavenFox.Kernel
