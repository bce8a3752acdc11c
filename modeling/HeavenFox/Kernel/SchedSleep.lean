/-
# HeavenFox.Kernel.SchedSleep -- the sleep list cannot be used

The static table initialises the head of the sleep list with the address of the
head of the ready list.  A walk over the sleep list therefore enters the ready ring
and never meets the head it stops at.  Consequently no thread can be put to sleep,
in any state of any run.
-/
import HeavenFox.Kernel.SchedGuarantees

set_option linter.style.nameCheck false

namespace HeavenFox.Kernel

open HeavenFox.Logic HeavenFox.Common

variable {configRollPoll : Bool} {rounds : Nat} {m : Machine} {s s' : SchedulerTable}
  {q : StatusList → List Nat} {tid p : Nat}

/-- The call returns `r`: with enough rounds for its loops it does. -/
def Returns {α : Type} (call : Nat → Except Stop α) (r : α) : Prop :=
  ∃ n, ∀ rounds, n ≤ rounds → call rounds = .ok r

/-- A switch of the thread to SLEEP does what the status says: it returns, the thread is on the sleep
list once and on no other, nothing else has left or entered a list but the thread that now runs, and
the sleep list counts as empty exactly when no thread sleeps. -/
def SleepUsable (configRollPoll : Bool) (s : SchedulerTable) (tid p : Nat) : Prop :=
  ∃ s₁ retval s', realThreadSetState s p .sleep = .ok s₁ ∧
    Returns (fun rounds => scheduleThreadSwitch configRollPoll rounds s₁ tid) (retval, s') ∧
    OnceOn s' .sleep p ∧ NotOn s' .ready p ∧ NotOn s' .suspend p ∧
    (∀ x, x ≠ p → s'.sprtWork ≠ some x → ∀ list, NotOn s' list x ↔ NotOn s list x) ∧
    (isSleepThreadEmpty s' = true ↔ ∀ n x, s'.sprtTidArray n = some x → (s'.threads x).status ≠ .sleep)

/-- Adding a thread to the sleep list does not return: the search for it walks the ready ring. -/
theorem addToList_sleep_spins (h : Queues s.links q) (htid : s.sprtTidArray tid = some p)
    (hptid : (s.threads p).tid = tid) (hst : (s.threads p).status ≠ .sleep) (hp : p ∉ q .ready) :
    addToList configRollPoll rounds .sleep s tid = .error .spins := by
  have hne : ¬ mrtListHeadEmpty s.links (.head .sleep) = true := by
    simp [mrtListHeadEmpty, h.sleepNext]
  have r := h.ring .ready (by decide)
  -- the walk stays on the nodes of the ready ring, none of which is the sleep head or the thread
  have hwalk : foreachEntry s.links.next (.head .sleep) (findBody s tid) rounds
      (s.links.next (.head .sleep)) = .error .spins := by
    refine foreachEntry_spins (fun y => y ∈ Queues.nodes q .ready) (fun y hy => ?_) rounds ?_
    · refine ⟨?_, ?_, ?_⟩
      · rintro rfl
        exact Queues.sleep_not_mem (by decide) hy
      · rcases List.mem_cons.mp hy with rfl | hy
        · rfl
        · obtain ⟨x, hx, rfl⟩ := List.mem_map.mp hy
          have hxp : p ≠ x := by
            rintro rfl
            exact hp hx
          simp [findBody, htid, hxp]
      · exact r.next_mem hy
    · rw [h.sleepNext]
      exact List.mem_cons_self
  have hfind : __findThreadFromScheduler rounds s (s.threads p).tid .sleep = .error .spins := by
    rw [__findThreadFromScheduler, hptid, hwalk]
    rfl
  have hst' : (s.threads p).status ≠ StatusList.sleep.status := hst
  simp only [addToList, htid, if_neg hst', __scheduleAddStatusList, if_neg hne, hfind, bind,
    Except.bind]

/-- A switch whose second half does not return does not return. -/
theorem switch_stops (htid : s.sprtTidArray tid = some p) {src : BasicStatus}
    (hsrc : (s.threads p).status = src) (hdst : (s.threads p).toStatus = .sleep)
    (hne : src ≠ .sleep) (hidle : tid ≠ realThreadTidIdle) {s₁ : SchedulerTable}
    (hdetach : detachFromSource rounds s tid src = .ok (erNormal, s₁))
    (hadd : addToList configRollPoll rounds .sleep s₁ tid = .error .spins) :
    scheduleThreadSwitch configRollPoll rounds s tid = .error .spins := by
  have hadd' : addToTarget configRollPoll rounds s₁ tid .sleep = .error .spins := hadd
  simp only [scheduleThreadSwitch, htid, hsrc, hdst, hne, hidle, reduceCtorEq, or_self, false_and,
    if_false, hdetach, hadd', bind, Except.bind, ne_eq, not_true]

/-- **A switch to SLEEP** either does not return, or is refused because no thread could run
instead. -/
theorem switch_sleep (configRollPoll : Bool) (h : Core s q) (hr : realThreadMaxNum < rounds)
    (htid : s.sprtTidArray tid = some p) (hidle : tid ≠ realThreadTidIdle) :
    scheduleThreadSwitch configRollPoll rounds (s.targeted p .sleep) tid = .error .spins ∨
      scheduleThreadSwitch configRollPoll rounds (s.targeted p .sleep) tid =
        .ok (-erUnvalid, (s.targeted p .sleep).marked p .running) ∧
        (s.threads p).status = .running := by
  have hreg := h.registered htid
  have hptid := (h.tids tid p htid).1
  have hcore := h.targeted p .sleep
  -- a thread taken off a list waits for the walk over the ready ring to end
  have hqueued : ∀ list : StatusList, list ≠ .sleep → (s.threads p).status = list.status →
      scheduleThreadSwitch configRollPoll rounds (s.targeted p .sleep) tid = .error .spins := by
    intro list hl hst
    obtain ⟨pre, post, hq⟩ := List.append_of_mem ((h.queued list p).mpr ⟨hreg, hst⟩)
    obtain ⟨links, hdetach, hq₁⟩ := detach_spec hcore hr hl hq
    rw [targeted_tid, hptid] at hdetach
    have hne : list.status ≠ .sleep := fun heq => hl (StatusList.status_inj (b := .sleep).mp heq)
    refine switch_stops (p := p) htid (by simpa using hst) (by simp) hne hidle hdetach ?_
    refine addToList_sleep_spins hq₁ htid (by simpa using hptid) ?_ ?_
    · show ((s.targeted p .sleep).threads p).status ≠ .sleep
      rw [targeted_status, hst]
      exact hne
    · exact fun hp => ((h.mem_remove hq).mp hp).2 rfl
  rcases h.placed p hreg with hst | hst | hst
  · have hwork : s.sprtWork = some p := (h.work p).mpr ⟨hreg, hst⟩
    cases hready : q .ready with
    | nil =>
      have hswitch : scheduleThreadSwitch configRollPoll rounds (s.targeted p .sleep)
          ((s.targeted p .sleep).threads p).tid =
            .ok (-erUnvalid, (s.targeted p .sleep).marked p .running) :=
        switch_alone hcore hwork hready
      rw [targeted_tid, hptid] at hswitch
      exact Or.inr ⟨hswitch, hst⟩
    | cons f rest =>
      left
      obtain ⟨links, hdetach, hq₁⟩ := reinstall_spec (w := p) hcore hr hwork hready
      rw [targeted_tid, hptid] at hdetach
      have hpf : p ≠ f := by
        rintro rfl
        exact h.not_queued hwork .ready (by simp [hready])
      refine switch_stops (p := p) htid (by simpa using hst) (by simp)
        (show BasicStatus.running ≠ .sleep by decide) hidle hdetach
        (addToList_sleep_spins hq₁ htid ?_ ?_ ?_)
      · rw [marked_tid]
        simpa using hptid
      · rw [marked_status, if_neg hpf]
        show ((s.targeted p .sleep).threads p).status ≠ .sleep
        simp [hst]
      · intro hp
        have hready₀ : q .ready = [] ++ f :: rest := hready
        exact h.not_queued hwork .ready ((h.mem_remove hready₀).mp hp).1
  · exact Or.inl (hqueued .ready (by decide) hst)
  · exact Or.inl (hqueued .suspend (by decide) hst)

theorem Core.not_sleepUsable (h : Core s q) (htid : s.sprtTidArray tid = some p)
    (hidle : tid ≠ realThreadTidIdle) : ¬ SleepUsable configRollPoll s tid p := by
  rintro ⟨s₁, retval, s', hset, ⟨n, hreturns⟩, ⟨k, honce⟩, -⟩
  have hs₁ : s₁ = s.targeted p .sleep := by
    rw [realThreadSetState, (h.tids tid p htid).1, setThreadStatus_spec htid (by decide)] at hset
    exact (Except.ok.inj hset).symm
  subst hs₁
  have hcall := hreturns (n + realThreadMaxNum + 1) (by omega)
  simp only at hcall
  have hrounds : realThreadMaxNum < n + realThreadMaxNum + 1 := by omega
  rcases switch_sleep configRollPoll h hrounds htid hidle with hspins | ⟨hrefused, hst⟩
  · rw [hspins] at hcall
    cases hcall
  · rw [hrefused] at hcall
    cases hcall
    -- the refused switch left the links alone, and the thread runs, so it is not met on any list
    have hrunning : p ∉ q .ready :=
      h.not_queued ((h.work p).mpr ⟨h.registered htid, hst⟩) .ready
    have hmet : p ∈ s.walked .sleep k :=
      List.count_pos_iff.mp (Nat.lt_of_lt_of_eq Nat.zero_lt_one (honce k (Nat.le_refl _)).symm)
    exact h.notOn_sleep_iff.mpr hrunning k hmet

/-- **SLEEP is never usable.**  In every state of every run, for every registered thread other than
idle, a switch to SLEEP does not do what the status says. -/
theorem sleep_never_usable (configRollPoll : Bool) (ops : List Op)
    (h : Meets (step configRollPoll) Legal Machine.init ops) :
    Always (step configRollPoll)
      (fun m => ∀ tid p, m.table.sprtTidArray tid = some p → tid ≠ realThreadTidIdle →
        ¬ SleepUsable configRollPoll m.table tid p) Machine.init ops :=
  (running_run h).imp fun _ ⟨_, hq⟩ _ _ htid hidle => hq.inv.toCore.not_sleepUsable htid hidle

theorem sleep_never_usable_two :
    Always (step false)
      (fun m => ∀ tid p, m.table.sprtTidArray tid = some p → tid ≠ realThreadTidIdle →
        ¬ SleepUsable false m.table tid p) Machine.init twoThreads :=
  sleep_never_usable false twoThreads (by decide +kernel)

/-- Thread 1 cannot be put to sleep there. -/
theorem sleep_not_usable :
    ¬ ∀ (configRollPoll : Bool) (ops : List Op) (m : Machine) (tid p : Nat),
      Meets (step configRollPoll) Legal Machine.init ops →
      exec (step configRollPoll) Machine.init ops = some m → m.table.sprtTidArray tid = some p →
      tid ≠ realThreadTidIdle → SleepUsable configRollPoll m.table tid p := by
  intro h
  have hlegal : Meets (step false) Legal Machine.init twoThreads := by decide +kernel
  have hrun : (exec (step false) Machine.init twoThreads).bind (fun m => m.table.sprtTidArray 1) =
      some 0x2000 := by decide +kernel
  obtain ⟨m, hexec, htid⟩ := Option.bind_eq_some_iff.mp hrun
  obtain ⟨q, hq⟩ := always_last (running_run hlegal) hexec
  exact hq.inv.toCore.not_sleepUsable htid (by decide)
    (h false twoThreads m 1 0x2000 hlegal hexec htid (by decide))

end HeavenFox.Kernel
