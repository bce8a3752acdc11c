/-
# HeavenFox.Kernel.SchedFailure -- what a failed status switch leaves behind

`schedule_thread_switch` first takes the thread off the place it is in and then puts it
into the one it is to go to.  Where the first half fails, the label `fail` takes the mark
off the thread and nothing else has happened.  Where the second half fails, the function
returns at once: the thread is on no list any more, or another thread runs in its place.

The second half fails for two targets only: NONE, which no case of the `switch` is for,
and RUNNING for a suspended thread, since only a ready thread may start to run.
-/
import HeavenFox.Kernel.SchedSleep

set_option linter.style.nameCheck false

namespace HeavenFox.Kernel

open HeavenFox.Logic HeavenFox.Common

variable {configRollPoll : Bool} {rounds : Nat} {s s' s₁ s₂ : SchedulerTable}
  {q : StatusList → List Nat} {list a : StatusList} {p w tid : Nat} {pre post : List Nat}
  {src dst value : BasicStatus} {retval : Int} {links : Links Node}

/-! ## Failure atomicity -/

/-- The three lists, the running thread and all status fields are as they were. -/
structure Unchanged (s s' : SchedulerTable) : Prop where
  lists : ∀ list xs, Ring s'.links (.head list) xs ↔ Ring s.links (.head list) xs
  work : s'.sprtWork = s.sprtWork
  status : ∀ x, (s'.threads x).status = (s.threads x).status

/-- A switch of the thread that returns a negative code changes nothing. -/
def FailureAtomic (configRollPoll : Bool) (s : SchedulerTable) (tid : Nat) : Prop :=
  ∀ retval s', scheduleThreadSwitch configRollPoll walkRounds s tid = .ok (retval, s') →
    retval < 0 → Unchanged s s'

/-- The switch gets past its first half and fails in the second: the thread, not idle, has no target
status (and can be taken off the processor, if it runs), or it is suspended and is to run. -/
def StopsHalfway (s : SchedulerTable) (tid p : Nat) : Prop :=
  (s.threads p).toStatus = .none ∧ tid ≠ realThreadTidIdle ∧
      ((s.threads p).status = .running → isReadyThreadEmpty s = false) ∨
    (s.threads p).status = .suspend ∧ (s.threads p).toStatus = .running

/-! ## Switches that change nothing -/

theorem Unchanged.marked_self (s : SchedulerTable) (p : Nat) :
    Unchanged s (s.marked p (s.threads p).status) where
  lists _ _ := Iff.rfl
  work := rfl
  status x := by
    rw [marked_status]
    split
    · next hx => rw [hx]
    · rfl

theorem Core.status_ne_none (h : Core s q) (hreg : s.Registered p) :
    (s.threads p).status ≠ .none ∧ (s.threads p).status ≠ .statusMax := by
  rcases h.placed p hreg with hst | hst | hst <;> rw [hst] <;> decide

/-- The checks before the first half. -/
theorem switch_checked (h : Core s q) (htid : s.sprtTidArray tid = some p)
    (hchecks : ((s.threads p).status = (s.threads p).toStatus ∨
        (s.threads p).toStatus = .statusMax) ∨
      tid = realThreadTidIdle ∧ (s.threads p).toStatus ≠ .running ∧
        (s.threads p).toStatus ≠ .ready) :
    scheduleThreadSwitch configRollPoll rounds s tid =
      .ok (-erUnvalid, s.marked p (s.threads p).status) := by
  have hmax := (h.status_ne_none (h.registered htid)).2
  rw [← switchFail_spec htid hmax]
  simp only [scheduleThreadSwitch, htid]
  rcases hchecks with hsame | hidle
  · exact if_pos hsame
  · rw [if_pos hidle, ite_self]

/-! ## Switches that go through -/

/-- A switch both of whose halves succeed succeeds. -/
theorem switch_added (htid : s.sprtTidArray tid = some p) (hsrc : (s.threads p).status = src)
    (hdst : (s.threads p).toStatus = dst) (hne : src ≠ dst) (hmax : dst ≠ .statusMax)
    (hidle : tid = realThreadTidIdle → dst = .running ∨ dst = .ready)
    (hdetach : detachFromSource rounds s tid src = .ok (erNormal, s₁))
    (hadd : addToTarget configRollPoll rounds s₁ tid dst = .ok (erNormal, s₂))
    (htid' : s₂.sprtTidArray tid = some p) :
    ∃ s', scheduleThreadSwitch configRollPoll rounds s tid = .ok (erNormal, s') := by
  by_cases hwork : s₂.sprtWork = none
  · have hidle' : ¬ (tid = realThreadTidIdle ∧ dst ≠ .running ∧ dst ≠ .ready) := by tauto
    refine ⟨s₂, ?_⟩
    simp only [scheduleThreadSwitch, htid, hsrc, hdst, hne, hmax, hidle', or_self, if_false,
      hdetach, hadd, bind, Except.bind, ne_eq, not_true, Int.lt_irrefl, hwork, if_true, pure,
      Except.pure]
  · exact ⟨_, switch_accepted htid hsrc hdst hne hmax hidle hdetach hadd hwork htid'⟩

/-- A switch whose second half fails returns at once. -/
theorem switch_rejected (htid : s.sprtTidArray tid = some p) (hsrc : (s.threads p).status = src)
    (hdst : (s.threads p).toStatus = dst) (hne : src ≠ dst) (hmax : dst ≠ .statusMax)
    (hidle : tid = realThreadTidIdle → dst = .running ∨ dst = .ready)
    (hdetach : detachFromSource rounds s tid src = .ok (erNormal, s₁))
    (hadd : addToTarget configRollPoll rounds s₁ tid dst = .ok (retval, s₂)) (hneg : retval < 0) :
    scheduleThreadSwitch configRollPoll rounds s tid = .ok (retval, s₂) := by
  have hidle' : ¬ (tid = realThreadTidIdle ∧ dst ≠ .running ∧ dst ≠ .ready) := by tauto
  simp only [scheduleThreadSwitch, htid, hsrc, hdst, hne, hmax, hidle', or_self, if_false, hdetach,
    hadd, bind, Except.bind, ne_eq, not_true, hneg, if_true, pure, Except.pure]

/-- The first half for a thread on a list. -/
theorem detach_queued (h : Core s q) (hr : realThreadMaxNum < rounds)
    (htid : s.sprtTidArray tid = some p) (ha : a ≠ .sleep)
    (hst : (s.threads p).status = a.status) :
    ∃ pre post links, q a = pre ++ p :: post ∧
      detachFromSource rounds s tid a.status = .ok (erNormal, { s with links }) ∧
      Queues links (Function.update q a (pre ++ post)) := by
  obtain ⟨pre, post, hq⟩ := List.append_of_mem ((h.queued a p).mpr ⟨h.registered htid, hst⟩)
  obtain ⟨links, hdetach, hqueues⟩ := detach_spec h hr ha hq
  rw [(h.tids tid p htid).1] at hdetach
  exact ⟨pre, post, links, hq, hdetach, hqueues⟩

/-- A ready thread takes the place of the running one, if there is one. -/
theorem despoil_spec (configRollPoll : Bool) (h : Queues s.links q) (hlen : (q .ready).length < rounds)
    (htid : s.sprtTidArray tid = some p) (hst : (s.threads p).status = .ready)
    (hw : ∀ w, s.sprtWork = some w →
      s.Registered w ∧ (s.threads w).status = .running ∧ ∀ c, w ∉ q c) :
    ∃ s₂, addToTarget configRollPoll rounds s tid .running = .ok (erNormal, s₂) ∧
      s₂.sprtTidArray tid = some p := by
  have hready : ¬ (s.threads p).status ≠ .ready := not_not.mpr hst
  cases hwork : s.sprtWork with
  | none =>
    refine ⟨{ s with sprtWork := some p }, ?_, htid⟩
    simp only [addToTarget, scheduleDespoilWorkRole, htid, hready, if_false, hwork]
  | some w =>
    obtain ⟨hwreg, hwst, habsent⟩ := hw w hwork
    obtain ⟨links, ys, hadd, -, -⟩ := addToList_spec configRollPoll rounds .ready (s.threads w).tid
      h (by decide) hwreg hwreg (by rw [hwst]; decide) habsent hlen
    have hsync : __syncThreadStatus { s with links } (s.threads w).tid .ready =
        .ok (({ s with links } : SchedulerTable).marked w .ready) :=
      syncThreadStatus_spec hwreg (by decide)
    refine ⟨{ ({ s with links } : SchedulerTable).marked w .ready with sprtWork := some p }, ?_,
      htid⟩
    simp only [addToTarget, scheduleDespoilWorkRole, htid, hready, if_false, hwork,
      scheduleAddReadyList, hadd, bind, Except.bind, Int.lt_irrefl, pure, Except.pure]
    rw [← hwork, hsync]

/-- A thread that is not on its target list goes there, from another list or from the processor. -/
theorem switch_to_list (list : StatusList) (h : Core s q) (hr : realThreadMaxNum < rounds)
    (htid : s.sprtTidArray tid = some p) (hdst : (s.threads p).toStatus = list.status)
    (hl : list ≠ .sleep) (hne : (s.threads p).status ≠ list.status)
    (hidle : list = .suspend → tid ≠ realThreadTidIdle)
    (halone : ¬ ((s.threads p).status = .running ∧ q .ready = [])) :
    ∃ s', scheduleThreadSwitch configRollPoll rounds s tid = .ok (erNormal, s') := by
  have hreg := h.registered htid
  have hptid := (h.tids tid p htid).1
  have hqueued : ∀ a : StatusList, a ≠ .sleep → (s.threads p).status = a.status →
      ∃ s', scheduleThreadSwitch configRollPoll rounds s tid = .ok (erNormal, s') := by
    intro a ha hst
    obtain ⟨pre, post, links, hq, hdetach, hqueues⟩ := detach_queued h hr htid ha hst
    have habsent : ∀ c, p ∉ Function.update q a (pre ++ post) c :=
      fun c hp => ((h.mem_remove hq).mp hp).2 rfl
    obtain ⟨links', ys, hadd, -, -⟩ := addToList_spec configRollPoll rounds list tid
      (s := { s with links }) hqueues hl htid hreg hne habsent (update_length_lt h hr hq list)
    exact switch_added htid hst hdst (hst ▸ hne) (StatusList.status_ne_statusMax list)
      (status_of_idle hl hidle) hdetach ((addToTarget_list hl).trans hadd) htid
  rcases h.placed p hreg with hst | hst | hst
  · cases hready : q .ready with
    | nil => exact absurd ⟨hst, hready⟩ halone
    | cons f rest =>
      obtain ⟨links, ys, hswitch, -, -⟩ := switch_running configRollPoll h hr
        ((h.work p).mpr ⟨hreg, hst⟩) hready hdst hl (by rw [hptid]; exact hidle)
      rw [hptid] at hswitch
      exact ⟨_, hswitch⟩
  · exact hqueued .ready (by decide) hst
  · exact hqueued .suspend (by decide) hst

/-- A ready thread that is to run takes the processor. -/
theorem switch_to_running (h : Core s q) (hr : realThreadMaxNum < rounds)
    (htid : s.sprtTidArray tid = some p) (hst : (s.threads p).status = .ready)
    (hdst : (s.threads p).toStatus = .running) :
    ∃ s', scheduleThreadSwitch configRollPoll rounds s tid = .ok (erNormal, s') := by
  obtain ⟨pre, post, links, hq, hdetach, hqueues⟩ :=
    detach_queued (a := .ready) h hr htid (by decide) hst
  have hw : ∀ w, s.sprtWork = some w → s.Registered w ∧ (s.threads w).status = .running ∧
      ∀ c, w ∉ Function.update q .ready (pre ++ post) c := by
    intro w hwork
    obtain ⟨hwreg, hwst⟩ := (h.work w).mp hwork
    exact ⟨hwreg, hwst, fun c hw => h.not_queued hwork c ((h.mem_remove hq).mp hw).1⟩
  obtain ⟨s₂, hadd, htid'⟩ := despoil_spec configRollPoll (s := { s with links }) hqueues
    (update_length_lt h hr hq .ready) htid hst hw
  exact switch_added htid hst hdst (by decide) (by decide) (fun _ => Or.inl rfl) hdetach hadd htid'

/-- A switch that is refused, with the status it found, has changed nothing. -/
theorem unchanged_of_refused {st : BasicStatus} (hst : (s.threads p).status = st)
    (hswitch : scheduleThreadSwitch configRollPoll walkRounds s tid =
      .ok (-erUnvalid, s.marked p st))
    (hcall : scheduleThreadSwitch configRollPoll walkRounds s tid = .ok (retval, s')) :
    Unchanged s s' := by
  cases hswitch.symm.trans hcall
  rw [← hst]
  exact Unchanged.marked_self s p

/-- A switch to SLEEP that returns has changed nothing. -/
theorem unchanged_of_sleep (h : Core s q) (htid : s.sprtTidArray tid = some p)
    (hdst : (s.threads p).toStatus = .sleep) (hidle : tid ≠ realThreadTidIdle)
    (hcall : scheduleThreadSwitch configRollPoll walkRounds s tid = .ok (retval, s')) :
    Unchanged s s' := by
  have hr : realThreadMaxNum < walkRounds := by decide
  have hsleep := switch_sleep configRollPoll h hr htid hidle
  rw [targeted_self hdst] at hsleep
  rcases hsleep with hspins | ⟨hrefused, hst⟩
  · cases hspins.symm.trans hcall
  · exact unchanged_of_refused hst hrefused hcall

/-- **Either nothing or all.**  A switch that does not stop halfway fails without having changed
anything, does not return, or succeeds. -/
theorem whole_or_nothing (h : Core s q) (htid : s.sprtTidArray tid = some p)
    (hwhole : ¬ StopsHalfway s tid p) :
    (∀ retval s', scheduleThreadSwitch configRollPoll walkRounds s tid = .ok (retval, s') →
      Unchanged s s') ∨
    ∃ s', scheduleThreadSwitch configRollPoll walkRounds s tid = .ok (erNormal, s') := by
  have hr : realThreadMaxNum < walkRounds := by decide
  have hreg := h.registered htid
  by_cases hchecks : ((s.threads p).status = (s.threads p).toStatus ∨
      (s.threads p).toStatus = .statusMax) ∨ tid = realThreadTidIdle ∧
        (s.threads p).toStatus ≠ .running ∧ (s.threads p).toStatus ≠ .ready
  · exact Or.inl fun _ _ => unchanged_of_refused rfl (switch_checked h htid hchecks)
  rw [not_or, not_or] at hchecks
  obtain ⟨⟨hne, hmax⟩, hguard⟩ := hchecks
  -- a running thread with none ready stays where it is
  by_cases halone : (s.threads p).status = .running ∧ q .ready = []
  · obtain ⟨hst, hready⟩ := halone
    have hswitch : scheduleThreadSwitch configRollPoll walkRounds s (s.threads p).tid =
        .ok (-erUnvalid, s.marked p .running) :=
      switch_alone h ((h.work p).mpr ⟨hreg, hst⟩) hready
    rw [(h.tids tid p htid).1] at hswitch
    exact Or.inl fun _ _ => unchanged_of_refused hst hswitch
  have hidle : (s.threads p).toStatus ≠ .running → (s.threads p).toStatus ≠ .ready →
      tid ≠ realThreadTidIdle := fun hrun hready hzero => hguard ⟨hzero, hrun, hready⟩
  cases hdst : (s.threads p).toStatus with
  | statusMax => exact absurd hdst hmax
  | none =>
    refine absurd (Or.inl ⟨hdst, hidle (by simp [hdst]) (by simp [hdst]), ?_⟩) hwhole
    intro hst
    apply Bool.eq_false_iff.mpr
    intro hempty
    exact halone ⟨hst, (ready_empty_iff h.queues).mp hempty⟩
  | running =>
    rcases h.placed p hreg with hst | hst | hst
    · exact absurd (hst.trans hdst.symm) hne
    · exact Or.inr (switch_to_running h hr htid hst hdst)
    · exact absurd (Or.inr ⟨hst, hdst⟩) hwhole
  | ready =>
    rw [hdst] at hne
    exact Or.inr (switch_to_list .ready h hr htid hdst (by decide) hne nofun halone)
  | suspend =>
    have hidle' := hidle (by simp [hdst]) (by simp [hdst])
    rw [hdst] at hne
    exact Or.inr (switch_to_list .suspend h hr htid hdst (by decide) hne (fun _ => hidle') halone)
  | sleep =>
    have hidle' := hidle (by simp [hdst]) (by simp [hdst])
    exact Or.inl fun _ _ => unchanged_of_sleep h htid hdst hidle'

/-! ## Switches that stop halfway -/

/-- A thread that has been taken off its list is missing there. -/
theorem not_unchanged_of_detached (h : Core s q) (ha : a ≠ .sleep) (hq : q a = pre ++ p :: post)
    (hqueues : Queues links (Function.update q a (pre ++ post))) :
    ¬ Unchanged s { s with links } := by
  intro hsame
  have hring := hqueues.ring a ha
  rw [Function.update_self] at hring
  have hbefore := h.queues.ring a ha
  have heq := hbefore.unique ((hsame.lists a _).mp hring)
  have hlen := congrArg List.length heq
  rw [hq] at hlen
  simp at hlen

/-- **Halfway.**  Such a switch returns a negative code, and the state is not what it was. -/
theorem halfway_changes (configRollPoll : Bool) (h : Core s q) (htid : s.sprtTidArray tid = some p)
    (hhalf : StopsHalfway s tid p) :
    ∃ retval s', scheduleThreadSwitch configRollPoll walkRounds s tid = .ok (retval, s') ∧
      retval < 0 ∧ ¬ Unchanged s s' := by
  have hr : realThreadMaxNum < walkRounds := by decide
  have hreg := h.registered htid
  have hptid := (h.tids tid p htid).1
  rcases hhalf with ⟨hdst, hidle, hready⟩ | ⟨hst, hdst⟩
  · have hnone : ∀ s₁ : SchedulerTable, addToTarget configRollPoll walkRounds s₁ tid .none =
        .ok (-erError, s₁) := fun s₁ => rfl
    have hqueued : ∀ a : StatusList, a ≠ .sleep → (s.threads p).status = a.status →
        ∃ retval s', scheduleThreadSwitch configRollPoll walkRounds s tid = .ok (retval, s') ∧
          retval < 0 ∧ ¬ Unchanged s s' := by
      intro a ha hst
      obtain ⟨pre, post, links, hq, hdetach, hqueues⟩ := detach_queued h hr htid ha hst
      have hne : a.status ≠ .none := hst ▸ (h.status_ne_none hreg).1
      exact ⟨-erError, { s with links }, switch_rejected htid hst hdst hne (by decide)
        (fun hzero => absurd hzero hidle) hdetach (hnone _) (by decide), by decide,
        not_unchanged_of_detached h ha hq hqueues⟩
    rcases h.placed p hreg with hst | hst | hst
    · have hwork := (h.work p).mpr ⟨hreg, hst⟩
      cases hq : q .ready with
      | nil =>
        have hempty : isReadyThreadEmpty s = true := (ready_empty_iff h.queues).mpr hq
        rw [hready hst] at hempty
        cases hempty
      | cons f rest =>
        obtain ⟨links, hdetach, -⟩ := reinstall_spec h hr hwork hq
        rw [hptid] at hdetach
        refine ⟨-erError, _, switch_rejected htid hst hdst (by decide) (by decide)
          (fun hzero => absurd hzero hidle) hdetach (hnone _) (by decide), by decide, ?_⟩
        -- another thread runs now
        intro hsame
        have hfp : some f = some p := hsame.work.trans hwork
        exact h.not_queued (hwork.trans hfp.symm) .ready (by simp [hq])
    · exact hqueued .ready (by decide) hst
    · exact hqueued .suspend (by decide) hst
  · obtain ⟨pre, post, links, hq, hdetach, hqueues⟩ :=
      detach_queued (a := .suspend) h hr htid (by decide) hst
    have hadd : addToTarget configRollPoll walkRounds { s with links } tid .running =
        .ok (-erUnvalid, { s with links }) := by
      simp [addToTarget, scheduleDespoilWorkRole, htid, hst]
    exact ⟨-erUnvalid, { s with links }, switch_rejected htid hst hdst (by decide) (by decide)
      (fun _ => Or.inl rfl) hdetach hadd (by decide), by decide,
      not_unchanged_of_detached h (by decide) hq hqueues⟩

/-- **Failure atomicity.**  In a consistent table, a switch to the status that `real_thread_set_state`
has set leaves everything as it was when it fails, unless it stops halfway. -/
theorem switch_failure_atomic_iff (configRollPoll : Bool) (s s₁ : SchedulerTable)
    (q : StatusList → List Nat) (tid p : Nat) (value : BasicStatus) (h : Core s q)
    (htid : s.sprtTidArray tid = some p) (hset : realThreadSetState s p value = .ok s₁) :
    FailureAtomic configRollPoll s₁ tid ↔ ¬ StopsHalfway s₁ tid p := by
  obtain ⟨hcore, htid₁⟩ : Core s₁ q ∧ s₁.sprtTidArray tid = some p := by
    by_cases hmax : value = .statusMax
    · rw [hmax] at hset
      cases hset
      exact ⟨h, htid⟩
    · have hspec : realThreadSetState s p value = .ok (s.targeted p value) :=
        setThreadStatus_spec (h.registered htid) hmax
      cases hspec.symm.trans hset
      exact ⟨h.targeted p value, htid⟩
  constructor
  · intro hatomic hhalf
    obtain ⟨retval, s', hcall, hneg, hchanged⟩ := halfway_changes configRollPoll hcore htid₁ hhalf
    exact hchanged (hatomic retval s' hcall hneg)
  · intro hwhole retval s' hcall hneg
    rcases whole_or_nothing hcore htid₁ hwhole with hsame | ⟨s'', hok⟩
    · exact hsame retval s' hcall
    · cases hok.symm.trans hcall
      exact absurd hneg (by decide)

/-! ## A suspended thread -/

/-- Idle and one more thread, which has run and suspended itself. -/
def oneSuspended : List Op := twoThreads ++ [.selfSuspend]

/-- A consistent table in which thread 1 is suspended. -/
theorem oneSuspended_core : ∃ m q, exec (step false) Machine.init oneSuspended = some m ∧
    Core m.table q ∧ m.table.sprtTidArray 1 = some 0x2000 ∧
    (m.table.threads 0x2000).status = .suspend := by
  have hlegal : Meets (step false) Legal Machine.init oneSuspended := by decide +kernel
  have hrun : (exec (step false) Machine.init oneSuspended).map
      (fun m => (m.table.sprtTidArray 1, (m.table.threads 0x2000).status)) =
        some (some 0x2000, .suspend) := by decide +kernel
  obtain ⟨m, hexec, hm⟩ := Option.map_eq_some_iff.mp hrun
  obtain ⟨q, hq⟩ := always_last (running_run hlegal) hexec
  exact ⟨m, q, hexec, hq.inv.toCore, congrArg Prod.fst hm, congrArg Prod.snd hm⟩

theorem switch_failure_atomic_iff_ready :
    ∃ m s₁, exec (step false) Machine.init oneSuspended = some m ∧
      realThreadSetState m.table 0x2000 .ready = .ok s₁ ∧
      (FailureAtomic false s₁ 1 ↔ ¬ StopsHalfway s₁ 1 0x2000) := by
  obtain ⟨m, q, hexec, hcore, htid, -⟩ := oneSuspended_core
  have hset : realThreadSetState m.table 0x2000 .ready = .ok (m.table.targeted 0x2000 .ready) :=
    setThreadStatus_spec (hcore.registered htid) (by decide)
  exact ⟨m, _, hexec, hset, switch_failure_atomic_iff false _ _ q 1 0x2000 .ready hcore htid hset⟩

/-- A suspended thread that is to run is taken off the suspend list, and the call fails. -/
theorem suspended_thread_lost :
    ∃ m q s₁ retval s', exec (step false) Machine.init oneSuspended = some m ∧
      Core m.table q ∧ m.table.sprtTidArray 1 = some 0x2000 ∧
      realThreadSetState m.table 0x2000 .running = .ok s₁ ∧
      scheduleThreadSwitch false walkRounds s₁ 1 = .ok (retval, s') ∧ retval < 0 ∧
      ¬ Unchanged s₁ s' := by
  obtain ⟨m, q, hexec, hcore, htid, hst⟩ := oneSuspended_core
  have hset : realThreadSetState m.table 0x2000 .running = .ok (m.table.targeted 0x2000 .running) :=
    setThreadStatus_spec (hcore.registered htid) (by decide)
  have hhalf : StopsHalfway (m.table.targeted 0x2000 .running) 1 0x2000 := by
    refine Or.inr ⟨?_, targeted_toStatus _ _ _⟩
    rw [targeted_status, hst]
  obtain ⟨retval, s', hcall, hneg, hchanged⟩ :=
    halfway_changes false (hcore.targeted 0x2000 .running) htid hhalf
  exact ⟨m, q, _, retval, s', hexec, hcore, htid, hset, hcall, hneg, hchanged⟩

end HeavenFox.Kernel
