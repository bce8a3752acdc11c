/-
# HeavenFox.Kernel.SchedCalls -- every scheduler call keeps the table consistent

One lemma for each entry point of `sched.c`.  Each says that the call returns, that
the invariant holds of the table it leaves, and how the queues have moved: threads
may have been taken out, and at most one has been put in, on a list it was not on.
-/
import HeavenFox.Kernel.SchedSwitch

set_option linter.style.nameCheck false

namespace HeavenFox.Kernel

open HeavenFox.Logic HeavenFox.Common

/-- Between calls only the running thread can be marked for a switch, and only for suspension. -/
structure Inv (s : SchedulerTable) (q : StatusList → List Nat) : Prop extends Core s q where
  target : ∀ p, s.Registered p → s.sprtWork ≠ some p → (s.threads p).toStatus = .none
  targetWork : ∀ w, s.sprtWork = some w →
    (s.threads w).toStatus = .none ∨ (s.threads w).toStatus = .suspend

/-- How a call moves the queues: what is left of each is in the old order, and at most one thread is
put in, on a list it was not on before. -/
def Moves (configRollPoll : Bool) (s s' : SchedulerTable) (q q' : StatusList → List Nat) : Prop :=
  (∀ a, ∀ x ∈ q a, s'.priority x = s.priority x) ∧
    ∃ r : StatusList → List Nat, (∀ a, (r a).Sublist (q a)) ∧
      (q' = r ∨ ∃ p a ys, p ∉ q a ∧ (∀ b, p ∉ r b) ∧
        Admitted configRollPoll s'.priority p (r a) ys ∧ q' = Function.update r a ys)

/-- What every call guarantees. -/
structure Sound (configRollPoll : Bool) (s s' : SchedulerTable) (q q' : StatusList → List Nat) :
    Prop where
  inv : Inv s' q'
  moves : Moves configRollPoll s s' q q'
  work : s.sprtWork ≠ none → s'.sprtWork ≠ none

/-- What every call but a registration guarantees. -/
structure Kept (configRollPoll : Bool) (s s' : SchedulerTable) (q q' : StatusList → List Nat) :
    Prop extends Sound configRollPoll s s' q q' where
  table : s'.sprtTidArray = s.sprtTidArray

variable {configRollPoll : Bool} {rounds : Nat} {s s₁ s' : SchedulerTable}
  {q q' : StatusList → List Nat} {list a b : StatusList} {p w f tid : Nat}
  {rest pre post ys : List Nat} {value : BasicStatus}

/-! ## Moves -/

theorem Moves.stay (hprio : ∀ a, ∀ x ∈ q a, s'.priority x = s.priority x) :
    Moves configRollPoll s s' q q :=
  ⟨hprio, q, fun _ => List.Sublist.refl _, Or.inl rfl⟩

theorem sublist_update (hq : q a = pre ++ p :: post) (c : StatusList) :
    (Function.update q a (pre ++ post) c).Sublist (q c) := by
  by_cases hca : c = a
  · subst hca
    rw [Function.update_self, hq]
    exact (List.sublist_cons_self p post).append_left pre
  · rw [Function.update_of_ne hca]

/-- The move of a switch: one thread out, one in. -/
theorem Moves.exchange (hprio : s'.priority = s.priority) (hq : q a = pre ++ f :: post)
    (hp : p ∉ q b) (habsent : ∀ c, p ∉ Function.update q a (pre ++ post) c)
    (hys : Admitted configRollPoll s.priority p (Function.update q a (pre ++ post) b) ys) :
    Moves configRollPoll s s' q (Function.update (Function.update q a (pre ++ post)) b ys) := by
  refine ⟨fun c x _ => by rw [hprio], _, sublist_update hq, Or.inr ⟨p, b, ys, hp, habsent, ?_, rfl⟩⟩
  rwa [hprio]

/-- A move does not look at anything of the first table but its priorities. -/
theorem Moves.of_priority (h : Moves configRollPoll s₁ s' q q') (hprio : s₁.priority = s.priority) :
    Moves configRollPoll s s' q q' := by
  unfold Moves at h ⊢
  rwa [hprio] at h

/-! ## Tables that differ in what the invariant does not read -/

/-- A switch that is refused takes the mark off the thread again. -/
theorem Kept.refused (h : Inv s q) :
    Kept configRollPoll s ((s.targeted p value).marked p (s.threads p).status) q q := by
  have hcore : Core ((s.targeted p value).marked p (s.threads p).status) q := by
    refine h.toCore.congr rfl rfl rfl fun x => ⟨by simp, ?_⟩
    by_cases hx : x = p
    · simp [hx]
    · simp [hx]
  refine ⟨⟨⟨hcore, fun x hx hne => ?_, fun x hx => ?_⟩, Moves.stay ?_, id⟩, rfl⟩
  · by_cases hxp : x = p
    · simp [hxp]
    · simp only [marked_toStatus, hxp, if_false, targeted_threads_of_ne _ _ _ _ hxp]
      exact h.target x (by simpa using hx) hne
  · by_cases hxp : x = p
    · simp [hxp]
    · simp only [marked_toStatus, hxp, if_false, targeted_threads_of_ne _ _ _ _ hxp]
      exact h.targetWork x hx
  · simp

theorem Kept.refl (h : Inv s q) : Kept configRollPoll s s q q :=
  ⟨⟨h, Moves.stay fun _ _ _ => rfl, id⟩, rfl⟩

/-- The counters and the static reference of `__schedule_thread` are not part of the invariant. -/
theorem Kept.congr_counters {cnt out : Nat} {ref : Bool} (h : Kept configRollPoll s s' q q') :
    Kept configRollPoll s
      { s' with schedCnt := cnt, cntOut := out, threadScheduleRef := ref } q q' := by
  refine ⟨⟨⟨h.inv.toCore.congr rfl rfl rfl fun _ => ⟨rfl, rfl⟩, h.inv.target, h.inv.targetWork⟩,
    ?_, h.work⟩, h.table⟩
  exact h.moves

theorem Kept.record (h : Kept configRollPoll s s' q q') :
    Kept configRollPoll s (schedulerRecord s') q q' := by
  unfold schedulerRecord
  split
  · exact h.congr_counters
  · exact h.congr_counters

/-- A consistent table whose threads are unmarked, or marked as before. -/
theorem Sound.of_core (h : Inv s q) (hcore : Core s' q')
    (hto : ∀ x, s'.Registered x → (s'.threads x).toStatus = .none ∨
      s.Registered x ∧ (s'.threads x).toStatus = (s.threads x).toStatus ∧
        (s.sprtWork = some x → s'.sprtWork = some x))
    (hmoves : Moves configRollPoll s s' q q') (hwork : s.sprtWork ≠ none → s'.sprtWork ≠ none) :
    Sound configRollPoll s s' q q' := by
  refine ⟨⟨hcore, fun x hx hne => ?_, fun x hx => ?_⟩, hmoves, hwork⟩
  · rcases hto x hx with hnone | ⟨hreg, heq, hsame⟩
    · exact hnone
    · rw [heq]
      exact h.target x hreg fun hw => hne (hsame hw)
  · rcases hto x ((hcore.work x).mp hx).1 with hnone | ⟨hreg, heq, -⟩
    · exact Or.inl hnone
    · rw [heq]
      by_cases hw : s.sprtWork = some x
      · exact h.targetWork x hw
      · exact Or.inl (h.target x hreg hw)

/-! ## Switches of a thread that has just been marked -/

/-- The running thread is marked for a list and switched. -/
theorem switch_running_kept (configRollPoll : Bool) (h : Inv s q) (hr : realThreadMaxNum < rounds)
    (hwork : s.sprtWork = some w) (hready : q .ready = f :: rest) (hl : list ≠ .sleep)
    (hidle : list = .suspend → (s.threads w).tid ≠ realThreadTidIdle) :
    ∃ s' q', scheduleThreadSwitch configRollPoll rounds (s.targeted w list.status)
        (s.threads w).tid = .ok (erNormal, s') ∧
      Kept configRollPoll s s' q q' ∧ s'.sprtWork = some f ∧
      (s'.threads w).status = list.status := by
  have hcore := h.toCore.targeted w list.status
  obtain ⟨links, ys, hswitch, hys, hqueues⟩ := switch_running configRollPoll
    (w := w) hcore hr hwork hready (by simp) hl (by simpa using hidle)
  rw [targeted_tid] at hswitch
  obtain ⟨hwreg, hwst⟩ := (h.work w).mp hwork
  have hwq : ∀ c, w ∉ q c := h.toCore.not_queued hwork
  refine ⟨_, Function.update (Function.update q .ready rest) list ys, hswitch, ?_, rfl, by simp⟩
  refine ⟨Sound.of_core h (hcore.replace hwork hready (by simpa using hidle) hl hys hqueues)
    ?_ ?_ ?_, rfl⟩
  · intro x hx
    simp only [marked_toStatus]
    by_cases hxw : x = w
    · simp [hxw]
    · by_cases hxf : x = f
      · simp [hxf]
      · right
        refine ⟨?_, ?_, fun hw => ?_⟩
        · simpa only [marked_registered, registered_with, targeted_registered] using hx
        · simp only [hxw, hxf, if_false]
          rw [targeted_threads_of_ne _ _ _ _ hxw]
        · rw [hwork, Option.some.injEq] at hw
          exact absurd hw.symm hxw
  · have hready₀ : q .ready = [] ++ f :: rest := hready
    rw [targeted_priority] at hys
    refine Moves.exchange ?_ hready₀ (hwq list) ?_ hys
    · funext x
      rw [← targeted_priority s w list.status, marked_priority, marked_priority]
      rfl
    · exact fun c hc => hwq c ((h.mem_remove hready₀).mp hc).1
  · simp

/-- A thread on a list is marked for another list and switched. -/
theorem switch_list_kept (configRollPoll : Bool) (h : Inv s q) (hr : realThreadMaxNum < rounds)
    (hwork : s.sprtWork ≠ none)
    (hq : q a = pre ++ p :: post) (ha : a ≠ .sleep) (hb : b ≠ .sleep) (hab : a ≠ b)
    (hidle : b = .suspend → (s.threads p).tid ≠ realThreadTidIdle) :
    ∃ s' q', scheduleThreadSwitch configRollPoll rounds (s.targeted p b.status)
        (s.threads p).tid = .ok (erNormal, s') ∧ Kept configRollPoll s s' q q' := by
  have hcore := h.toCore.targeted p b.status
  obtain ⟨links, ys, hswitch, hys, hqueues⟩ := switch_list configRollPoll
    (p := p) hcore hr hwork hq ha (by simp) hb hab (by simpa using hidle)
  rw [targeted_tid] at hswitch
  have hpa : p ∈ q a := by simp [hq]
  refine ⟨_, Function.update (Function.update q a (pre ++ post)) b ys, hswitch, ?_⟩
  refine ⟨Sound.of_core h (hcore.transfer hwork hq (by simpa using hidle) hb hys hqueues)
    ?_ ?_ ?_, rfl⟩
  · intro x hx
    simp only [marked_toStatus]
    by_cases hxp : x = p
    · simp [hxp]
    · right
      refine ⟨?_, ?_, id⟩
      · simpa only [marked_registered, registered_with, targeted_registered] using hx
      · simp only [hxp, if_false]
        rw [targeted_threads_of_ne _ _ _ _ hxp]
  · rw [targeted_priority] at hys
    refine Moves.exchange (f := p) ?_ hq (fun hpb => hab (h.queues.apart a b p hpa hpb)) ?_ hys
    · funext x
      rw [← targeted_priority s p b.status, marked_priority]
      rfl
    · exact fun c hc => ((h.mem_remove hq).mp hc).2 rfl
  · exact fun _ => hwork

/-- The first ready thread is marked for running and started. -/
theorem switch_start_kept (configRollPoll : Bool) (h : Inv s q) (hr : realThreadMaxNum < rounds)
    (hwork : s.sprtWork = none)
    (hready : q .ready = f :: rest) :
    ∃ s' q', scheduleThreadSwitch configRollPoll rounds (s.targeted f .running)
        (s.threads f).tid = .ok (erNormal, s') ∧
      Kept configRollPoll s s' q q' ∧ s'.sprtWork = some f := by
  have hcore := h.toCore.targeted f .running
  have hready₀ : q .ready = [] ++ f :: rest := hready
  obtain ⟨links, hswitch, hqueues⟩ := switch_start configRollPoll (p := f) hcore hr hwork hready₀
    (by simp)
  rw [targeted_tid] at hswitch
  refine ⟨_, Function.update q .ready rest, hswitch, ?_, rfl⟩
  refine ⟨Sound.of_core h (hcore.start hwork hready₀ hqueues) ?_ ?_ ?_, rfl⟩
  · intro x hx
    simp only [marked_toStatus]
    by_cases hxf : x = f
    · simp [hxf]
    · right
      refine ⟨?_, ?_, fun hw => ?_⟩
      · simpa only [marked_registered, registered_with, targeted_registered] using hx
      · simp only [hxf, if_false]
        rw [targeted_threads_of_ne _ _ _ _ hxf]
      · rw [hwork] at hw
        cases hw
  · refine ⟨fun c x _ => ?_, _, sublist_update hready₀, Or.inl rfl⟩
    rw [← targeted_priority s f .running, marked_priority]
    rfl
  · simp

/-! ## `__schedule_thread` -/

/-- What `__schedule_thread` says beyond the invariant: the thread that runs afterwards is the one
that ran before or the first ready one; a context is returned only when a thread runs; and a thread
that asked for suspension is suspended, if another thread is ready to run. -/
structure Scheduled (s s' : SchedulerTable) (q : StatusList → List Nat)
    (context : Option SchedulerContext) : Prop where
  picked : s'.sprtWork = s.sprtWork ∨ ∃ f rest, q .ready = f :: rest ∧ s'.sprtWork = some f
  context : context ≠ none → s'.sprtWork ≠ none
  suspended : ∀ w, s.sprtWork = some w → (s.threads w).toStatus = .suspend →
    (s.threads w).tid ≠ realThreadTidIdle → q .ready ≠ [] →
      (s'.threads w).status = .suspend ∧ ∃ f, f ≠ w ∧ s'.sprtWork = some f

theorem targeted_self (h : (s.threads p).toStatus = value) : s.targeted p value = s := by
  subst h
  simp [SchedulerTable.targeted, SchedulerTable.setThread]

/-- `__schedule_thread` from the point where the thread to switch away from is known. -/
theorem schedule_eq {prev : Nat} {s₁ s₂ s₃ : SchedulerTable} {retval : Int}
    (hne : ¬ mrtListHeadEmpty s.links (.head .ready) = true)
    (hprev : schedulePrev s = .ok (some prev, s₁))
    (hmark : defaultToReady s₁ prev = .ok s₂)
    (hswitch : scheduleThreadSwitch configRollPoll rounds s₂ (s₂.threads prev).tid =
      .ok (retval, s₃)) :
    __scheduleThread configRollPoll rounds s =
      if retval < 0 then .ok (none, s₃)
      else match s₃.sprtWork with
        | none => .ok (none, s₃)
        | some next =>
          .ok (some ⟨next, if s₃.threadScheduleRef then some prev else none⟩, schedulerRecord s₃) := by
  rw [__scheduleThread, if_neg hne, hprev]
  cases hnext : s₃.sprtWork with
  | none => simp only [bind, Except.bind, hmark, hswitch, hnext, pure, Except.pure]
  | some next => simp only [bind, Except.bind, hmark, hswitch, hnext, pure, Except.pure]

theorem schedulerRecord_sprtWork (s : SchedulerTable) : (schedulerRecord s).sprtWork = s.sprtWork := by
  unfold schedulerRecord
  split <;> rfl

theorem schedulerRecord_threads (s : SchedulerTable) : (schedulerRecord s).threads = s.threads := by
  unfold schedulerRecord
  split <;> rfl

/-- The running thread is switched away from. -/
theorem schedule_running (h : Inv s q) (hr : realThreadMaxNum < rounds)
    (hwork : s.sprtWork = some w) (hready : q .ready = f :: rest) :
    ∃ context s' q', __scheduleThread configRollPoll rounds s = .ok (context, s') ∧
      Kept configRollPoll s s' q q' ∧ Scheduled s s' q context := by
  have hne : ¬ mrtListHeadEmpty s.links (.head .ready) = true := by
    rw [ready_empty_iff h.queues, hready]
    simp
  obtain ⟨hwreg, hwst⟩ := (h.work w).mp hwork
  have hfw : f ≠ w := by
    rintro rfl
    exact h.toCore.not_queued hwork .ready (by simp [hready])
  have hprev : schedulePrev s = .ok (some w, s) := by simp [schedulePrev, hwork]
  -- the status asked for, ready if none was
  obtain ⟨list, hl, hmark, hlist⟩ : ∃ list : StatusList, list ≠ .sleep ∧
      defaultToReady s w = .ok (s.targeted w list.status) ∧
      ((s.threads w).toStatus = .suspend → list = .suspend) := by
    rcases h.targetWork w hwork with hto | hto
    · refine ⟨.ready, by decide, ?_, by simp [hto]⟩
      rw [defaultToReady, if_pos hto]
      exact setThreadStatus_spec hwreg (by decide)
    · refine ⟨.suspend, by decide, ?_, fun _ => rfl⟩
      rw [defaultToReady, if_neg (by simp [hto])]
      exact congrArg Except.ok (targeted_self hto).symm
  by_cases hidle : list = .suspend → (s.threads w).tid ≠ realThreadTidIdle
  · obtain ⟨s', q', hswitch, hkept, hwork', hstatus⟩ :=
      switch_running_kept configRollPoll h hr hwork hready hl hidle
    rw [← targeted_tid s w w list.status] at hswitch
    have hcall := schedule_eq hne hprev hmark hswitch
    rw [if_neg (by decide), hwork'] at hcall
    refine ⟨_, _, q', hcall, hkept.record, ⟨Or.inr ⟨f, rest, hready, ?_⟩, ?_, ?_⟩⟩
    · rw [schedulerRecord_sprtWork, hwork']
    · rw [schedulerRecord_sprtWork, hwork']
      simp
    · intro w' hw' hto _ _
      rw [hwork, Option.some.injEq] at hw'
      subst hw'
      rw [schedulerRecord_threads, schedulerRecord_sprtWork, hstatus, hlist hto]
      exact ⟨rfl, f, hfw, hwork'⟩
  · push Not at hidle
    obtain ⟨rfl, htid⟩ := hidle
    have hswitch : scheduleThreadSwitch configRollPoll rounds
        (s.targeted w StatusList.suspend.status) (s.threads w).tid = .ok (-erUnvalid,
          (s.targeted w StatusList.suspend.status).marked w
            ((s.targeted w StatusList.suspend.status).threads w).status) :=
      switch_refused hwreg (by simp [hwst])
        (Or.inr ⟨htid, by simp [StatusList.status], by simp [StatusList.status]⟩)
    rw [targeted_status] at hswitch
    rw [← targeted_tid s w w StatusList.suspend.status] at hswitch
    have hcall := schedule_eq hne hprev hmark hswitch
    rw [if_pos (by decide)] at hcall
    refine ⟨_, _, q, hcall, Kept.refused h, ⟨Or.inl rfl, by simp, ?_⟩⟩
    intro w' hw' _ hidle _
    rw [hwork, Option.some.injEq] at hw'
    subst hw'
    exact absurd htid hidle

/-- **`__schedule_thread`** always returns and keeps the table consistent. -/
theorem schedule_spec (configRollPoll : Bool) (h : Inv s q) (hr : realThreadMaxNum < rounds) :
    ∃ context s' q', __scheduleThread configRollPoll rounds s = .ok (context, s') ∧
      Kept configRollPoll s s' q q' ∧ Scheduled s s' q context := by
  cases hready : q .ready with
  | nil =>
    have hempty := (ready_empty_iff h.queues).mpr hready
    refine ⟨none, s, q, by rw [__scheduleThread, if_pos hempty], Kept.refl h, Or.inl rfl, by simp, ?_⟩
    exact fun _ _ _ _ hne => absurd hready hne
  | cons f rest =>
    cases hwork : s.sprtWork with
    | some w => exact schedule_running h hr hwork hready
    | none =>
      have hne : ¬ mrtListHeadEmpty s.links (.head .ready) = true := by
        rw [ready_empty_iff h.queues, hready]
        simp
      obtain ⟨hfreg, -⟩ := (h.queued .ready f).mp (by simp [hready])
      by_cases href : s.threadScheduleRef = true
      · refine ⟨none, s, q, ?_, Kept.refl h, Or.inl rfl, by simp, by simp [hwork]⟩
        simp [__scheduleThread, hne, schedulePrev, hwork, href, bind, Except.bind, pure, Except.pure]
      · have hprev : schedulePrev s = .ok (some f, s.targeted f .running) := by
          simp [schedulePrev, hwork, href, firstValidEntry_spec h.queues hready,
            setThreadStatus_spec (p := f) hfreg, bind, Except.bind, pure, Except.pure]
        obtain ⟨s', q', hswitch, hkept, hwork'⟩ :=
          switch_start_kept configRollPoll h hr hwork hready
        rw [← targeted_tid s f f .running] at hswitch
        have hcall := schedule_eq hne hprev (by simp [defaultToReady]) hswitch
        rw [if_neg (by decide), hwork'] at hcall
        refine ⟨_, _, q', hcall, hkept.record, ⟨Or.inr ⟨f, rest, hready, ?_⟩, ?_, by simp [hwork]⟩⟩
        · rw [schedulerRecord_sprtWork, hwork']
        · rw [schedulerRecord_sprtWork, hwork']
          simp

/-- **`schedule_thread`.** -/
theorem scheduleThread_spec (configRollPoll : Bool) (h : Inv s q) (hr : realThreadMaxNum < rounds) :
    ∃ context s₁ s' q', __scheduleThread configRollPoll rounds s = .ok (context, s₁) ∧
      scheduleThread configRollPoll rounds s = .ok s' ∧
      Kept configRollPoll s s' q q' ∧ Scheduled s s' q context := by
  obtain ⟨context, s', q', hcall, hkept, hsched⟩ :=
    schedule_spec configRollPoll h hr
  cases context with
  | none =>
    refine ⟨none, s', s', q', hcall, ?_, hkept, hsched⟩
    simp only [scheduleThread, hcall, bind, Except.bind, pure, Except.pure]
  | some context =>
    refine ⟨some context, s', { s' with threadScheduleRef := true }, q', hcall, ?_,
      hkept.congr_counters, ⟨hsched.picked, hsched.context, hsched.suspended⟩⟩
    simp only [scheduleThread, hcall, bind, Except.bind, pure, Except.pure]

/-! ## Suspending and waking up -/

/-- Marking the running thread for suspension keeps the invariant. -/
theorem Inv.targeted (h : Inv s q) (hwork : s.sprtWork = some w) :
    Inv (s.targeted w .suspend) q := by
  refine ⟨h.toCore.targeted w .suspend, fun x hx hne => ?_, fun x hx => ?_⟩
  · have hxw : x ≠ w := by
      rintro rfl
      exact hne hwork
    rw [targeted_threads_of_ne _ _ _ _ hxw]
    exact h.target x ((targeted_registered s w x _).mp hx) hne
  · rw [targeted_sprtWork, hwork, Option.some.injEq] at hx
    subst hx
    exact Or.inr (targeted_toStatus _ _ _)

theorem Kept.of_targeted (h : Kept configRollPoll (s.targeted p value) s' q q') :
    Kept configRollPoll s s' q q' :=
  ⟨⟨h.inv, h.moves.of_priority (targeted_priority s p value), h.work⟩, h.table⟩

/-- **`schedule_self_suspend`** keeps the table consistent.  A thread other than idle is suspended,
and another one runs, if one is ready. -/
theorem selfSuspend_spec (configRollPoll : Bool) (h : Inv s q) (hr : realThreadMaxNum < rounds)
    (hwork : s.sprtWork = some w) :
    ∃ s' q', scheduleSelfSuspend configRollPoll rounds s = .ok s' ∧
      Kept configRollPoll s s' q q' ∧
      ((s.threads w).tid ≠ realThreadTidIdle → q .ready ≠ [] →
        (s'.threads w).status = .suspend ∧ ∃ f, f ≠ w ∧ s'.sprtWork = some f) := by
  obtain ⟨hwreg, -⟩ := (h.work w).mp hwork
  obtain ⟨context, -, s', q', -, hcall, hkept, hsched⟩ :=
    scheduleThread_spec configRollPoll (h.targeted hwork) hr
  refine ⟨s', q', ?_, hkept.of_targeted, fun htid hready => ?_⟩
  · simp only [scheduleSelfSuspend, hwork, setThreadStatus_spec (p := w) hwreg
      (show BasicStatus.suspend ≠ .statusMax by decide), bind, Except.bind, hcall]
  · exact hsched.suspended w hwork (targeted_toStatus _ _ _) (by simpa using htid) hready

/-- **`schedule_thread_suspend`.** -/
theorem threadSuspend_spec (configRollPoll : Bool) (h : Inv s q) (hr : realThreadMaxNum < rounds)
    (hwork : s.sprtWork = some w) (htid : s.sprtTidArray tid = some p) :
    ∃ retval s' q', scheduleThreadSuspend configRollPoll rounds s tid = .ok (retval, s') ∧
      Kept configRollPoll s s' q q' := by
  have hreg := h.registered htid
  have hptid : (s.threads p).tid = tid := (h.tids tid p htid).1
  by_cases hself : tid = (s.threads w).tid
  · obtain ⟨s', q', hcall, hkept, -⟩ := selfSuspend_spec configRollPoll h hr hwork
    refine ⟨erNormal, s', q', ?_, hkept⟩
    simp only [scheduleThreadSuspend, hwork, if_pos hself, hcall, bind, Except.bind, pure,
      Except.pure]
  · have hmark : __setThreadStatus s tid .suspend = .ok (s.targeted p .suspend) :=
      setThreadStatus_spec htid (by decide)
    have hcall : scheduleThreadSuspend configRollPoll rounds s tid =
        scheduleThreadSwitch configRollPoll rounds (s.targeted p .suspend) tid := by
      simp only [scheduleThreadSuspend, hwork, if_neg hself, hmark, bind, Except.bind]
    rw [hcall]
    have hrefused : (s.threads p).status = .suspend ∨ tid = realThreadTidIdle →
        (s.threads p).status ≠ .statusMax → ∃ retval s' q',
          scheduleThreadSwitch configRollPoll rounds (s.targeted p .suspend) tid = .ok (retval, s') ∧
            Kept configRollPoll s s' q q' := by
      intro hwhy hmax
      refine ⟨_, _, q, switch_refused (p := p) htid (by simpa using hmax) ?_, ?_⟩
      · rw [targeted_status, targeted_toStatus]
        exact hwhy.imp id fun htid => ⟨htid, by decide, by decide⟩
      · rw [targeted_status]
        exact Kept.refused h
    rcases h.placed p hreg with hst | hst | hst
    · have := (h.work p).mpr ⟨hreg, hst⟩
      rw [hwork, Option.some.injEq] at this
      subst this
      exact absurd hptid.symm hself
    · by_cases hidle : tid = realThreadTidIdle
      · exact hrefused (Or.inr hidle) (by simp [hst])
      · obtain ⟨pre, post, hq⟩ := List.append_of_mem ((h.queued .ready p).mpr ⟨hreg, hst⟩)
        obtain ⟨s', q', hswitch, hkept⟩ := switch_list_kept configRollPoll
          (b := .suspend) h hr (by simp [hwork]) hq (by decide) (by decide) (by decide)
          (fun _ => by rwa [hptid])
        rw [hptid] at hswitch
        exact ⟨_, s', q', hswitch, hkept⟩
    · exact hrefused (Or.inl hst) (by simp [hst])

/-- **`schedule_thread_wakeup`.** -/
theorem threadWakeup_spec (configRollPoll : Bool) (h : Inv s q) (hr : realThreadMaxNum < rounds)
    (htid : s.sprtTidArray tid = some p) :
    ∃ retval s' q', scheduleThreadWakeup configRollPoll rounds s tid = .ok (retval, s') ∧
      Kept configRollPoll s s' q q' := by
  have hreg := h.registered htid
  have hptid : (s.threads p).tid = tid := (h.tids tid p htid).1
  by_cases hst : (s.threads p).status = .suspend
  · obtain ⟨pre, post, hq⟩ := List.append_of_mem ((h.queued .suspend p).mpr ⟨hreg, hst⟩)
    have hwork : s.sprtWork ≠ none := by
      intro hnone
      have := h.early hnone
      simp [hq] at this
    obtain ⟨s', q', hswitch, hkept⟩ := switch_list_kept configRollPoll
      (b := .ready) h hr hwork hq (by decide) (by decide) (by decide) (by simp)
    rw [hptid] at hswitch
    have hmark : __setThreadStatus s tid .ready = .ok (s.targeted p .ready) :=
      setThreadStatus_spec htid (by decide)
    refine ⟨erNormal, s', q', ?_, hkept⟩
    simp only [scheduleThreadWakeup, htid, hst, ne_eq, not_true, if_false, hmark, bind, Except.bind]
    exact hswitch
  · exact ⟨-erUnvalid, s, q, by simp [scheduleThreadWakeup, htid, hst], Kept.refl h⟩

/-! ## Registration -/

/-- Filling in a thread object that is not registered keeps the invariant. -/
theorem Kept.fresh (configRollPoll : Bool) (t : RealThread) (h : Inv s q)
    (hp : ∀ n, s.sprtTidArray n ≠ some p) :
    Kept configRollPoll s (s.setThread p t) q q := by
  have hreg : ∀ x, (s.setThread p t).Registered x ↔ s.Registered x := by
    intro x
    by_cases hx : x = p
    · subst hx
      exact ⟨fun hx => absurd hx (hp _), fun hx => absurd hx (hp _)⟩
    · simp [SchedulerTable.Registered, setThread_threads_of_ne _ _ _ _ hx]
  have hsame : ∀ x, s.Registered x → (s.setThread p t).threads x = s.threads x := by
    intro x hx
    refine setThread_threads_of_ne _ _ _ _ ?_
    rintro rfl
    exact hp _ hx
  have hcore : Core (s.setThread p t) q := by
    refine ⟨h.queues, fun n x hx => ?_, fun a x => ?_, fun x => ?_, fun x hx => ?_, h.early,
      fun x hx => ?_⟩
    · rw [hsame x (h.registered hx)]
      exact h.tids n x hx
    · rw [hreg, h.queued]
      exact and_congr_right fun hx => by rw [hsame x hx]
    · rw [hreg]
      exact (h.work x).trans (and_congr_right fun hx => by rw [hsame x hx])
    · rw [hsame x ((hreg x).mp hx)]
      exact h.placed x ((hreg x).mp hx)
    · rw [hsame x (h.registered hx)]
      exact h.idle x hx
  refine ⟨Sound.of_core h hcore (fun x hx => Or.inr ?_) (Moves.stay fun a x hx => ?_) id, rfl⟩
  · have hx := (hreg x).mp hx
    exact ⟨hx, by rw [hsame x hx], id⟩
  · rw [SchedulerTable.priority, hsame x ((h.queued a x).mp hx).1]
    rfl

/-- The table after a thread has been registered. -/
theorem Core.admit {links : Links Node} (h : Core s q) (hp : ∀ n, s.sprtTidArray n ≠ some p)
    (htid : s.sprtTidArray tid = none) (hlt : tid < realThreadMaxNum) (hptid : (s.threads p).tid = tid)
    (hys : Admitted configRollPoll s.priority p (q .ready) ys)
    (hq : Queues links (Function.update q .ready ys)) :
    Core (({ s with
      links, sprtTidArray := Function.update s.sprtTidArray tid (some p) } : SchedulerTable).marked p
        .ready) (Function.update q .ready ys) := by
  have hreg : ∀ x, (({ s with
      links, sprtTidArray := Function.update s.sprtTidArray tid (some p) } : SchedulerTable).marked p
        .ready).Registered x ↔ s.Registered x ∨ x = p := by
    intro x
    rw [marked_registered]
    unfold SchedulerTable.Registered
    by_cases hx : x = p
    · subst hx
      simp [hptid]
    · by_cases hxt : (s.threads x).tid = tid
      · simp [hxt, htid, Ne.symm hx, hx]
      · simp [hxt, hx]
  have hnot : ¬ s.Registered p := fun h => hp _ h
  refine ⟨hq, fun n x hx => ?_, fun a x => ?_, fun x => ?_, fun x hx => ?_, fun hnone => ?_,
    fun x hx => ?_⟩
  · rw [marked_tid]
    by_cases hn : n = tid
    · subst hn
      simp only [marked_sprtTidArray, Function.update_self, Option.some.injEq] at hx
      subst hx
      exact ⟨hptid, hlt⟩
    · simp only [marked_sprtTidArray, Function.update_of_ne hn] at hx
      exact h.tids n x hx
  · rw [mem_update_admitted hys, h.queued, hreg, marked_status]
    by_cases hx : x = p
    · subst hx
      simp only [hnot, false_and, true_and, false_or, or_true, if_true]
      exact (StatusList.status_inj (a := a) (b := .ready)).symm.trans eq_comm
    · simp [hx]
  · rw [hreg, marked_sprtWork, marked_status]
    by_cases hx : x = p
    · subst hx
      have : s.sprtWork ≠ some x := fun hw => hnot ((h.work x).mp hw).1
      simp [this]
    · simp only [hx, or_false, if_false]
      exact h.work x
  · rw [marked_status]
    by_cases hxp : x = p
    · simp [hxp]
    · simp only [hxp, if_false]
      exact h.placed x (((hreg x).mp hx).resolve_right hxp)
  · rw [Function.update_of_ne (by decide)]
    exact h.early hnone
  · rw [marked_status]
    by_cases hxp : x = p
    · simp [hxp]
    · simp only [hxp, if_false]
      refine h.idle x ?_
      simp only [marked_sprtTidArray] at hx
      by_cases hn : realThreadTidIdle = tid
      · subst hn
        rw [Function.update_self, Option.some.injEq] at hx
        exact absurd hx.symm hxp
      · rwa [Function.update_of_ne hn] at hx

/-- **`register_new_thread`** on a thread object that was just filled in. -/
theorem register_spec {t : RealThread} (configRollPoll : Bool) (h : Inv s q)
    (hr : realThreadMaxNum < rounds)
    (hp : ∀ n, s.sprtTidArray n ≠ some p) (hlt : tid < realThreadMaxNum) (ht : t.tid = tid)
    (hst : t.status = .none) :
    ∃ retval s' q', registerNewThread configRollPoll rounds (s.setThread p t) p tid =
        .ok (retval, s') ∧
      Sound configRollPoll s s' q q' ∧
      (∀ n x, s.sprtTidArray n = some x → s'.sprtTidArray n = some x) ∧
      ∀ n x, s'.sprtTidArray n = some x → s.sprtTidArray n = some x ∨ n = tid := by
  have hfresh := Kept.fresh configRollPoll t h hp
  by_cases htaken : (s.sprtTidArray tid).isSome = true
  · refine ⟨-erUnvalid, _, q, ?_, hfresh.toSound, fun _ _ => id, fun _ _ => Or.inl⟩
    rw [registerNewThread]
    exact if_pos htaken
  by_cases hstack : t.sprtAttr.stackAddr = 0
  · refine ⟨-erNomem, _, q, ?_, hfresh.toSound, fun _ _ => id, fun _ _ => Or.inl⟩
    rw [registerNewThread]
    refine (if_neg htaken).trans (if_pos ?_)
    simpa using hstack
  have hnone : s.sprtTidArray tid = none := by simpa using htaken
  have hpq : ∀ a, p ∉ q a := fun a ha => hp _ ((h.queued a p).mp ha).1
  have hlen := h.length_le .ready
  have hself : Queues (initListHead (s.setThread p t).links (.link p)) q := by
    rw [initListHead_eq]
    exact h.queues.selfLink hpq
  obtain ⟨links, ys, hadd, hys, hqueues⟩ := addToList_spec configRollPoll rounds .ready tid
    (p := p) (q := q)
    (s := { s.setThread p t with
      sprtTidArray := Function.update (s.setThread p t).sprtTidArray tid (some p)
      links := initListHead (s.setThread p t).links (.link p) })
    hself (by decide) (by simp)
    (by simp [SchedulerTable.Registered, ht]) (by simp [hst, StatusList.status]) hpq (by omega)
  have hys' : Admitted configRollPoll (s.setThread p t).priority p (q .ready) ys := hys
  have hcore := hfresh.inv.toCore.admit hp hnone hlt (by simpa using ht) hys' hqueues
  refine ⟨erNormal, _, _, ?_, Sound.of_core h hcore ?_ ?_ ?_, fun n x hx => ?_,
    fun n x hx => ?_⟩
  · have hstack' : ¬ ((s.setThread p t).threads p).sprtAttr.stackAddr = 0 := by simpa using hstack
    have htaken' : ¬ ((s.setThread p t).sprtTidArray tid).isSome = true := htaken
    have hready : BasicStatus.ready ≠ .statusMax := by decide
    have htid : Function.update (s.setThread p t).sprtTidArray tid (some p) tid = some p := by simp
    have hsync := syncThreadStatus_spec (s := { s.setThread p t with
      sprtTidArray := Function.update (s.setThread p t).sprtTidArray tid (some p), links })
      htid hready
    rw [registerNewThread, if_neg htaken', if_neg hstack', scheduleAddReadyList]
    simp only [hadd, bind, Except.bind, Int.lt_irrefl, if_false, hsync, pure, Except.pure]
  · intro x hx
    rw [marked_toStatus]
    by_cases hxp : x = p
    · simp [hxp]
    · right
      refine ⟨?_, ?_, id⟩
      · rw [marked_registered] at hx
        have hx' : Function.update s.sprtTidArray tid (some p) (s.threads x).tid = some x := by
          simpa [SchedulerTable.Registered, setThread_threads_of_ne _ _ _ _ hxp] using hx
        by_cases hxt : (s.threads x).tid = tid
        · rw [hxt, Function.update_self, Option.some.injEq] at hx'
          exact absurd hx'.symm hxp
        · rwa [Function.update_of_ne hxt] at hx'
      · rw [if_neg hxp]
        simp only [setThread_threads_of_ne _ _ _ _ hxp]
  · refine ⟨fun a x hx => ?_, q, fun _ => List.Sublist.refl _,
      Or.inr ⟨p, .ready, ys, hpq _, hpq, ?_, rfl⟩⟩
    · have hxp : x ≠ p := by
        rintro rfl
        exact hpq a hx
      simp [SchedulerTable.priority, setThread_threads_of_ne _ _ _ _ hxp]
    · convert hys' using 1
      funext x
      rw [marked_priority]
      rfl
  · exact id
  · have hn : n ≠ tid := by
      rintro rfl
      rw [hnone] at hx
      cases hx
    simpa [hn] using hx
  · by_cases hn : n = tid
    · exact Or.inr hn
    · exact Or.inl (by simpa [hn] using hx)

/-! ## Priorities -/

/-- The running thread is on no list, so its priority may change. -/
theorem priority_kept (configRollPoll : Bool) (attr : RealThreadAttr) (h : Inv s q)
    (hwork : s.sprtWork = some w) :
    Kept configRollPoll s (s.setThread w { s.threads w with sprtAttr := attr }) q q := by
  have hcore : Core (s.setThread w { s.threads w with sprtAttr := attr }) q := by
    refine h.toCore.congr rfl rfl rfl fun x => ?_
    by_cases hx : x = w
    · simp [hx]
    · simp [setThread_threads_of_ne _ _ _ _ hx]
  refine ⟨Sound.of_core h hcore (fun x hx => Or.inr ?_) (Moves.stay fun a x hx => ?_) id, rfl⟩
  · by_cases hxw : x = w
    · subst hxw
      exact ⟨((h.work x).mp hwork).1, by simp, id⟩
    · refine ⟨?_, by rw [setThread_threads_of_ne _ _ _ _ hxw], id⟩
      simpa [SchedulerTable.Registered, setThread_threads_of_ne _ _ _ _ hxw] using hx
  · have hxw : x ≠ w := by
      rintro rfl
      exact h.toCore.not_queued hwork a hx
    simp [SchedulerTable.priority, setThread_threads_of_ne _ _ _ _ hxw]

end HeavenFox.Kernel
