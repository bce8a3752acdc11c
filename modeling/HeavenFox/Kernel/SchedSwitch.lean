/-
# HeavenFox.Kernel.SchedSwitch -- `schedule_thread_switch`, case by case

For each way a switch can go: what the table looks like afterwards, and that it is
consistent again.  Between the two halves of a switch a thread is on no list while
its status field still holds the old value; the lemmas never state anything about
such a table, they compose the list functions up to the point where the status is
written.
-/
import HeavenFox.Kernel.SchedInvariant

set_option linter.style.nameCheck false

namespace HeavenFox.Kernel

open HeavenFox.Logic HeavenFox.Common

variable {configRollPoll : Bool} {rounds : Nat} {s : SchedulerTable} {q : StatusList → List Nat}
  {links : Links Node} {list a b : StatusList} {p w f tid : Nat} {rest pre post ys : List Nat}

/-! ## The table after a switch -/

@[simp] theorem registered_with (work : Option Nat) :
    ({ s with links, sprtWork := work } : SchedulerTable).Registered p ↔ s.Registered p := Iff.rfl

/-- The running thread `w` has gone to a list and the first ready thread runs. -/
theorem Core.replace (h : Core s q) (hwork : s.sprtWork = some w) (hready : q .ready = f :: rest)
    (hidle : list = .suspend → (s.threads w).tid ≠ realThreadTidIdle) (hl : list ≠ .sleep)
    (hys : Admitted configRollPoll s.priority w (Function.update q .ready rest list) ys)
    (hq : Queues links (Function.update (Function.update q .ready rest) list ys)) :
    Core ((({ s with links, sprtWork := some f } : SchedulerTable).marked f .running).marked w
      list.status) (Function.update (Function.update q .ready rest) list ys) := by
  obtain ⟨hwreg, hwst⟩ := (h.work w).mp hwork
  obtain ⟨hfreg, hfst⟩ := (h.queued .ready f).mp (by simp [hready])
  have hfw : f ≠ w := by
    rintro rfl
    exact h.not_queued hwork .ready (by simp [hready])
  have hmem : ∀ c x, x ∈ Function.update (Function.update q .ready rest) list ys c ↔
      x ∈ q c ∧ x ≠ f ∨ x = w ∧ c = list := by
    intro c x
    rw [mem_update_admitted hys]
    exact or_congr_left (h.mem_remove (show q .ready = [] ++ f :: rest from hready))
  refine ⟨hq, fun t x hx => ?_, fun c x => ?_, fun x => ?_, fun x hx => ?_, ?_, fun x hx => ?_⟩
  · simpa using h.tids t x hx
  · rw [hmem, h.queued]
    simp only [marked_registered, marked_status]
    by_cases hxw : x = w
    · subst hxw
      simp only [if_true, StatusList.status_inj, hwst]
      have := (StatusList.status_ne_running c).symm
      exact ⟨fun hx => ⟨hwreg, by tauto⟩, fun hx => Or.inr ⟨trivial, hx.2.symm⟩⟩
    · by_cases hxf : x = f
      · subst hxf
        have := (StatusList.status_ne_running c).symm
        simp [hfw, this]
      · simp [hxw, hxf]
  · simp only [marked_sprtWork, marked_registered, marked_status, Option.some.injEq]
    by_cases hxw : x = w
    · subst hxw
      simp [hfw, StatusList.status_ne_running]
    · by_cases hxf : x = f
      · subst hxf
        simp only [if_true, hfw, if_false, and_true, true_iff]
        exact hfreg
      · simp only [hxw, hxf, if_false]
        constructor
        · rintro rfl
          exact absurd rfl hxf
        · intro hx
          have := (h.work x).mpr hx
          rw [hwork, Option.some.injEq] at this
          exact absurd this.symm hxw
  · simp only [marked_status]
    by_cases hxw : x = w
    · subst hxw
      cases list with
      | ready => simp [StatusList.status]
      | suspend => simp [StatusList.status]
      | sleep => exact absurd rfl hl
    · by_cases hxf : x = f
      · simp [hxf, hfw]
      · simpa [hxw, hxf] using h.placed x (by simpa using hx)
  · simp
  · simp only [marked_status]
    by_cases hxw : x = w
    · subst hxw
      intro hsus
      rw [if_pos rfl] at hsus
      have hlist : list = .suspend := StatusList.status_inj.mp hsus
      exact hidle hlist (h.tids _ x hx).1
    · by_cases hxf : x = f
      · simp [hxf, hfw]
      · simpa [hxw, hxf] using h.idle x hx

/-- A thread has gone from one list to another. -/
theorem Core.transfer (h : Core s q) (hwork : s.sprtWork ≠ none) (hqa : q a = pre ++ p :: post)
    (hidle : b = .suspend → (s.threads p).tid ≠ realThreadTidIdle) (hb : b ≠ .sleep)
    (hys : Admitted configRollPoll s.priority p (Function.update q a (pre ++ post) b) ys)
    (hq : Queues links (Function.update (Function.update q a (pre ++ post)) b ys)) :
    Core (({ s with links } : SchedulerTable).marked p b.status)
      (Function.update (Function.update q a (pre ++ post)) b ys) := by
  obtain ⟨hpreg, hpst⟩ := (h.queued a p).mp (by simp [hqa])
  have hmem : ∀ c x, x ∈ Function.update (Function.update q a (pre ++ post)) b ys c ↔
      x ∈ q c ∧ x ≠ p ∨ x = p ∧ c = b := by
    intro c x
    rw [mem_update_admitted hys, h.mem_remove hqa]
  refine ⟨hq, fun t x hx => ?_, fun c x => ?_, fun x => ?_, fun x hx => ?_, ?_, fun x hx => ?_⟩
  · simpa using h.tids t x hx
  · rw [hmem, h.queued]
    simp only [marked_registered, marked_status]
    by_cases hxp : x = p
    · subst hxp
      simp only [if_true, StatusList.status_inj, ne_eq, not_true, and_false, false_or, true_and]
      exact ⟨fun hx => ⟨hpreg, hx.symm⟩, fun hx => hx.2.symm⟩
    · simp [hxp]
  · simp only [marked_sprtWork, marked_registered, marked_status]
    by_cases hxp : x = p
    · subst hxp
      have hnot : s.sprtWork ≠ some x :=
        fun hx => h.not_queued hx a (by simp [hqa])
      simp [hnot, StatusList.status_ne_running]
    · simp only [hxp, if_false]
      exact h.work x
  · simp only [marked_status]
    by_cases hxp : x = p
    · subst hxp
      cases b with
      | ready => simp [StatusList.status]
      | suspend => simp [StatusList.status]
      | sleep => exact absurd rfl hb
    · simpa [hxp] using h.placed x (by simpa using hx)
  · exact fun hnone => absurd hnone hwork
  · simp only [marked_status]
    by_cases hxp : x = p
    · subst hxp
      intro hsus
      rw [if_pos rfl] at hsus
      exact hidle (StatusList.status_inj.mp hsus) (h.tids _ x hx).1
    · simpa [hxp] using h.idle x hx

/-- The first thread runs. -/
theorem Core.start (h : Core s q) (hwork : s.sprtWork = none) (hready : q .ready = pre ++ p :: post)
    (hq : Queues links (Function.update q .ready (pre ++ post))) :
    Core (({ s with links, sprtWork := some p } : SchedulerTable).marked p .running)
      (Function.update q .ready (pre ++ post)) := by
  obtain ⟨hpreg, hpst⟩ := (h.queued .ready p).mp (by simp [hready])
  refine ⟨hq, fun t x hx => ?_, fun c x => ?_, fun x => ?_, fun x hx => ?_, ?_, fun x hx => ?_⟩
  · simpa using h.tids t x hx
  · rw [h.mem_remove hready, h.queued]
    simp only [marked_registered, marked_status]
    by_cases hxp : x = p
    · have := (StatusList.status_ne_running c).symm
      simp [hxp, this]
    · simp [hxp]
  · simp only [marked_sprtWork, marked_registered, marked_status, Option.some.injEq]
    by_cases hxp : x = p
    · subst hxp
      simp only [if_true, and_true, true_iff]
      exact hpreg
    · simp only [hxp, if_false]
      constructor
      · rintro rfl
        exact absurd rfl hxp
      · intro hx
        have := (h.work x).mpr hx
        rw [hwork] at this
        cases this
  · simp only [marked_status]
    by_cases hxp : x = p
    · simp [hxp]
    · simpa [hxp] using h.placed x (by simpa using hx)
  · simp
  · simp only [marked_status]
    by_cases hxp : x = p
    · simp [hxp]
    · simpa [hxp] using h.idle x hx

/-! ## The ways a switch can go -/

theorem switchFail_spec {src : BasicStatus} (htid : s.sprtTidArray tid = some p)
    (hsrc : src ≠ .statusMax) : switchFail s tid src = .ok (-erUnvalid, s.marked p src) := by
  simp [switchFail, syncThreadStatus_spec htid hsrc, bind, Except.bind, pure, Except.pure]

/-- A switch is refused when it changes nothing, and when it would take the idle thread off the
processor and the ready list. -/
theorem switch_refused (htid : s.sprtTidArray tid = some p)
    (hsrc : (s.threads p).status ≠ .statusMax)
    (hdst : (s.threads p).status = (s.threads p).toStatus ∨ tid = realThreadTidIdle ∧
      (s.threads p).toStatus ≠ .running ∧ (s.threads p).toStatus ≠ .ready) :
    scheduleThreadSwitch configRollPoll rounds s tid =
      .ok (-erUnvalid, s.marked p (s.threads p).status) := by
  simp only [scheduleThreadSwitch, htid]
  rw [← switchFail_spec htid hsrc]
  by_cases hsame : (s.threads p).status = (s.threads p).toStatus ∨ (s.threads p).toStatus = .statusMax
  · rw [if_pos hsame]
  · rw [if_neg hsame, if_pos]
    exact hdst.resolve_left fun heq => hsame (Or.inl heq)

/-- What a switch does once it is not refused. -/
theorem switch_accepted (htid : s.sprtTidArray tid = some p) {src dst : BasicStatus}
    (hsrc : (s.threads p).status = src) (hdst : (s.threads p).toStatus = dst) (hne : src ≠ dst)
    (hmax : dst ≠ .statusMax)
    (hidle : tid = realThreadTidIdle → dst = .running ∨ dst = .ready) {s₁ s₂ : SchedulerTable}
    (hdetach : detachFromSource rounds s tid src = .ok (erNormal, s₁))
    (hadd : addToTarget configRollPoll rounds s₁ tid dst = .ok (erNormal, s₂))
    (hwork : s₂.sprtWork ≠ none) (htid' : s₂.sprtTidArray tid = some p) :
    scheduleThreadSwitch configRollPoll rounds s tid = .ok (erNormal, s₂.marked p dst) := by
  have hidle' : ¬ (tid = realThreadTidIdle ∧ dst ≠ .running ∧ dst ≠ .ready) := by tauto
  simp only [scheduleThreadSwitch, htid, hsrc, hdst, hne, hmax, hidle', or_self, if_false, hdetach,
    hadd, bind, Except.bind, ne_eq, not_true, Int.lt_irrefl, hwork,
    syncThreadStatus_spec htid' hmax, pure, Except.pure]

/-- The running thread stays when no thread is ready. -/
theorem switch_alone (h : Core s q) (hwork : s.sprtWork = some w) (hready : q .ready = []) :
    scheduleThreadSwitch configRollPoll rounds s (s.threads w).tid =
      .ok (-erUnvalid, s.marked w .running) := by
  obtain ⟨hwreg, hwst⟩ := (h.work w).mp hwork
  have hempty : mrtListHeadEmpty s.links (.head .ready) = true := (ready_empty_iff h.queues).mpr hready
  have hdetach : detachFromSource rounds s (s.threads w).tid .running = .ok (-erFault, s) := by
    simp [detachFromSource, scheduleReinstallWorkRole, hwork, hempty]
  have hfail : switchFail s (s.threads w).tid .running = .ok (-erUnvalid, s.marked w .running) :=
    switchFail_spec hwreg (by decide)
  have hne : (-erFault : Int) ≠ 0 := by decide
  simp only [scheduleThreadSwitch, show s.sprtTidArray (s.threads w).tid = some w from hwreg, hwst,
    hdetach, bind, Except.bind, if_pos hne, hfail, ite_self]

/-- The first half of a switch away from the running thread. -/
theorem reinstall_spec (h : Core s q) (hr : realThreadMaxNum < rounds)
    (hwork : s.sprtWork = some w) (hready : q .ready = f :: rest) :
    ∃ links, scheduleReinstallWorkRole rounds s (s.threads w).tid =
        .ok (erNormal, ({ s with links, sprtWork := some f } : SchedulerTable).marked f .running) ∧
      Queues links (Function.update q .ready rest) := by
  obtain ⟨hfreg, hfst⟩ := (h.queued .ready f).mp (by simp [hready])
  have hne : ¬ mrtListHeadEmpty s.links (.head .ready) = true := by
    rw [ready_empty_iff h.queues, hready]
    simp
  have hlen := h.length_le .ready
  obtain ⟨links, hdetach, hqueues⟩ := detachFromList_spec rounds h.queues (by decide) hfreg hfst
    (show q .ready = [] ++ f :: rest from hready) (by omega)
  refine ⟨links, ?_, hqueues⟩
  have hsync : __syncThreadStatus { s with links, sprtWork := some f } (s.threads f).tid .running =
      .ok (({ s with links, sprtWork := some f } : SchedulerTable).marked f .running) :=
    syncThreadStatus_spec hfreg (by decide)
  simp only [scheduleReinstallWorkRole, hwork, ne_eq, not_true, if_false, hne, Bool.false_eq_true,
    firstValidEntry_spec h.queues hready, scheduleDetachReadyList, hdetach, bind, Except.bind, hsync,
    pure, Except.pure]

theorem detachFromSource_list (ha : a ≠ .sleep) {s' : SchedulerTable} {retval : Int}
    (h : detachFromList rounds a s tid = .ok (retval, s')) :
    detachFromSource rounds s tid a.status = .ok (erNormal, s') := by
  cases a with
  | ready => simp [detachFromSource, scheduleDetachReadyList, StatusList.status, h, bind,
      Except.bind, pure, Except.pure]
  | suspend => simp [detachFromSource, scheduleDetachSuspendList, StatusList.status, h, bind,
      Except.bind, pure, Except.pure]
  | sleep => exact absurd rfl ha

/-- The first half of a switch away from a list. -/
theorem detach_spec (h : Core s q) (hr : realThreadMaxNum < rounds) (ha : a ≠ .sleep)
    (hq : q a = pre ++ p :: post) :
    ∃ links, detachFromSource rounds s (s.threads p).tid a.status =
        .ok (erNormal, { s with links }) ∧
      Queues links (Function.update q a (pre ++ post)) := by
  obtain ⟨hpreg, hpst⟩ := (h.queued a p).mp (by simp [hq])
  have hlen := h.length_le a
  obtain ⟨links, hdetach, hqueues⟩ :=
    detachFromList_spec rounds h.queues ha hpreg hpst hq (by omega)
  exact ⟨links, detachFromSource_list ha hdetach, hqueues⟩

theorem addToTarget_list (hl : list ≠ .sleep) :
    addToTarget configRollPoll rounds s tid list.status = addToList configRollPoll rounds list s tid := by
  cases list with
  | ready => rfl
  | suspend => rfl
  | sleep => exact absurd rfl hl

/-- The idle thread goes to the ready list only. -/
theorem status_of_idle (hl : list ≠ .sleep) (hidle : list = .suspend → tid ≠ realThreadTidIdle) :
    tid = realThreadTidIdle → list.status = .running ∨ list.status = .ready := by
  intro htid
  cases list with
  | ready => exact Or.inr rfl
  | suspend => exact absurd htid (hidle rfl)
  | sleep => exact absurd rfl hl

theorem update_length_lt (h : Core s q) (hr : realThreadMaxNum < rounds)
    (hq : q a = pre ++ p :: post) (c : StatusList) :
    (Function.update q a (pre ++ post) c).length < rounds := by
  have h1 := h.length_le c
  have h2 := h.length_le a
  rw [hq] at h2
  simp only [List.length_append, List.length_cons] at h2
  by_cases hca : c = a
  · subst hca
    rw [Function.update_self, List.length_append]
    omega
  · rw [Function.update_of_ne hca]
    omega

/-- **The running thread is replaced.** -/
theorem switch_running (configRollPoll : Bool) (h : Core s q) (hr : realThreadMaxNum < rounds)
    (hwork : s.sprtWork = some w) (hready : q .ready = f :: rest)
    (hdst : (s.threads w).toStatus = list.status) (hl : list ≠ .sleep)
    (hidle : list = .suspend → (s.threads w).tid ≠ realThreadTidIdle) :
    ∃ links ys, scheduleThreadSwitch configRollPoll rounds s (s.threads w).tid =
        .ok (erNormal, (({ s with links, sprtWork := some f } : SchedulerTable).marked f
          .running).marked w list.status) ∧
      Admitted configRollPoll s.priority w (Function.update q .ready rest list) ys ∧
      Queues links (Function.update (Function.update q .ready rest) list ys) := by
  obtain ⟨hwreg, hwst⟩ := (h.work w).mp hwork
  have hready₀ : q .ready = [] ++ f :: rest := hready
  obtain ⟨links₁, hdetach, hq₁⟩ := reinstall_spec h hr hwork hready
  have hwf : w ≠ f := by
    rintro rfl
    exact h.not_queued hwork .ready (by simp [hready])
  have habsent : ∀ c, w ∉ Function.update q .ready rest c :=
    fun c hw => h.not_queued hwork c ((h.mem_remove hready₀).mp hw).1
  have hlen := update_length_lt h hr hready₀ list
  obtain ⟨links, ys, hadd, hys, hq₂⟩ := addToList_spec configRollPoll rounds list
    (s.threads w).tid (p := w)
    (s := ({ s with links := links₁, sprtWork := some f } : SchedulerTable).marked f .running)
    hq₁ hl hwreg (by simpa using hwreg)
    (by simp [hwf, hwst, (StatusList.status_ne_running list).symm]) habsent hlen
  refine ⟨links, ys, ?_, ?_, hq₂⟩
  · exact switch_accepted hwreg hwst hdst (StatusList.status_ne_running list).symm
      (StatusList.status_ne_statusMax list) (status_of_idle hl hidle) hdetach
      ((addToTarget_list hl).trans hadd) (by simp) hwreg
  · have hprio : (({ s with links := links₁, sprtWork := some f } : SchedulerTable).marked f
        .running).priority = s.priority := by
      funext x
      simp [SchedulerTable.priority]
    rwa [hprio] at hys

/-- **A thread that is not running is moved from list to list.** -/
theorem switch_list (configRollPoll : Bool) (h : Core s q) (hr : realThreadMaxNum < rounds)
    (hwork : s.sprtWork ≠ none)
    (hq : q a = pre ++ p :: post) (ha : a ≠ .sleep) (hdst : (s.threads p).toStatus = b.status)
    (hb : b ≠ .sleep) (hab : a ≠ b)
    (hidle : b = .suspend → (s.threads p).tid ≠ realThreadTidIdle) :
    ∃ links ys, scheduleThreadSwitch configRollPoll rounds s (s.threads p).tid =
        .ok (erNormal, ({ s with links } : SchedulerTable).marked p b.status) ∧
      Admitted configRollPoll s.priority p (Function.update q a (pre ++ post) b) ys ∧
      Queues links (Function.update (Function.update q a (pre ++ post)) b ys) := by
  obtain ⟨hpreg, hpst⟩ := (h.queued a p).mp (by simp [hq])
  have hne : a.status ≠ b.status := fun heq => hab (StatusList.status_inj.mp heq)
  obtain ⟨links₁, hdetach, hq₁⟩ := detach_spec h hr ha hq
  have habsent : ∀ c, p ∉ Function.update q a (pre ++ post) c :=
    fun c hp => ((h.mem_remove hq).mp hp).2 rfl
  obtain ⟨links, ys, hadd, hys, hq₂⟩ := addToList_spec configRollPoll rounds b (s.threads p).tid
    (s := { s with links := links₁ }) hq₁ hb hpreg hpreg
    (by simpa [hpst] using hne) habsent (update_length_lt h hr hq b)
  refine ⟨links, ys, ?_, hys, hq₂⟩
  exact switch_accepted hpreg hpst hdst hne (StatusList.status_ne_statusMax b)
    (status_of_idle hb hidle) hdetach ((addToTarget_list hb).trans hadd) hwork hpreg

/-- **The first ready thread is started.** -/
theorem switch_start (configRollPoll : Bool) (h : Core s q) (hr : realThreadMaxNum < rounds)
    (hwork : s.sprtWork = none)
    (hready : q .ready = pre ++ p :: post) (hdst : (s.threads p).toStatus = .running) :
    ∃ links, scheduleThreadSwitch configRollPoll rounds s (s.threads p).tid =
        .ok (erNormal, ({ s with links, sprtWork := some p } : SchedulerTable).marked p .running) ∧
      Queues links (Function.update q .ready (pre ++ post)) := by
  obtain ⟨hpreg, hpst⟩ := (h.queued .ready p).mp (by simp [hready])
  obtain ⟨links, hdetach, hq₁⟩ := detach_spec h hr (by decide) hready
  refine ⟨links, ?_, hq₁⟩
  have hdespoil : addToTarget configRollPoll rounds { s with links } (s.threads p).tid .running =
      .ok (erNormal, { s with links, sprtWork := some p }) := by
    simp [addToTarget, scheduleDespoilWorkRole, show s.sprtTidArray (s.threads p).tid = some p from
      hpreg, hpst, StatusList.status, hwork]
  exact switch_accepted hpreg hpst hdst (by decide) (by decide) (fun _ => Or.inl rfl)
    hdetach hdespoil (by simp) hpreg

end HeavenFox.Kernel
