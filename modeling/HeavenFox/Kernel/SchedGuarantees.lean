/-
# HeavenFox.Kernel.SchedGuarantees -- placement, priority order and liveness of the scheduler

What the users of `sched.c` can rely on in every state of every run, stated over
the table and its links alone.  Whether a thread is on a list is what the code's own
walk over the list finds.
-/
import HeavenFox.Kernel.SchedRuns

set_option linter.style.nameCheck false

namespace HeavenFox.Kernel

open HeavenFox.Logic HeavenFox.Common

variable {configRollPoll : Bool} {m m' : Machine} {s : SchedulerTable}
  {q : StatusList → List Nat} {op : Op} {list : StatusList} {p : Nat}

/-! ## Being on a list -/

/-- The threads that the walk over a list meets in its first `n` rounds: the walk begins behind the
list's head, follows `next`, and stops where it meets the head again. -/
def SchedulerTable.walked (s : SchedulerTable) (list : StatusList) (n : Nat) : List Nat :=
  walkList s.links (.head list) n (s.links.next (.head list))

/-- The thread is on the list exactly once: a walk over the list that has gone on long enough has met
it once. -/
def OnceOn (s : SchedulerTable) (list : StatusList) (p : Nat) : Prop :=
  ∃ n, ∀ k, n ≤ k → (s.walked list k).count p = 1

/-- The thread is not on the list: no walk over the list meets it. -/
def NotOn (s : SchedulerTable) (list : StatusList) (p : Nat) : Prop :=
  ∀ n, p ∉ s.walked list n

/-- `__find_thread_from_scheduler` walks the same way and stops at the thread it looks for. -/
theorem find_walked {tid : Nat} (htid : s.sprtTidArray tid = some p) {head : Node} {rounds : Nat}
    {pos : Node} :
    foreachEntry s.links.next head (findBody s tid) rounds pos = .ok (some (tid : Int)) ↔
      p ∈ walkList s.links head rounds pos := by
  induction rounds generalizing pos with
  | zero => simp [foreachEntry, walkList]
  | succ rounds ih =>
    by_cases hpos : pos = head
    · simp [foreachEntry, walkList, hpos]
    · rw [foreachEntry, if_neg hpos]
      cases pos with
      | head list =>
        rw [walkList, if_neg hpos]
        exact ih
      | link x =>
        rw [walkList, if_neg hpos]
        by_cases hx : p = x
        · subst hx
          simp [findBody, htid]
        · simp only [findBody, htid, Option.some.injEq, hx, if_false, List.mem_cons, false_or]
          exact ih

/-- **The code's own test.**  A registered thread is on a list exactly where
`__find_thread_from_scheduler` finds it. -/
theorem not_notOn_iff {tid : Nat} (htid : s.sprtTidArray tid = some p) :
    ¬ NotOn s list p ↔ ∃ rounds, __findThreadFromScheduler rounds s tid list = .ok (tid : Int) := by
  have hfind : ∀ rounds, __findThreadFromScheduler rounds s tid list = .ok (tid : Int) ↔
      p ∈ s.walked list rounds := by
    intro rounds
    rw [SchedulerTable.walked, ← find_walked htid]
    simp only [__findThreadFromScheduler, bind, Except.bind, pure, Except.pure]
    cases foreachEntry s.links.next (.head list) (findBody s tid) rounds
        (s.links.next (.head list)) with
    | error e => simp
    | ok found =>
      cases found with
      | none =>
        have hneg : -erNotfound ≠ (tid : Int) := by
          have : (0 : Int) < erNotfound := by decide
          omega
        simp [hneg]
      | some t => simp
  simp only [NotOn, hfind, not_forall, not_not]

/-- A walk that starts among nodes it does not leave meets none but these. -/
theorem walkList_stays {l : Links Node} {head : Node} (P : Node → Prop)
    (hnext : ∀ y, P y → P (l.next y)) {n : Nat} {pos : Node} (hpos : P pos) :
    ∀ x ∈ walkList l head n pos, P (.link x) := by
  induction n generalizing pos with
  | zero => simp [walkList]
  | succ n ih =>
    cases pos with
    | head list =>
      rw [walkList]
      split
      · simp
      · exact ih (hnext _ hpos)
    | link y =>
      rw [walkList]
      split
      · simp
      · intro x hx
        rcases List.mem_cons.mp hx with rfl | hx
        · exact hpos
        · exact ih (hnext _ hpos) x hx

theorem Core.walked_eq (h : Core s q) (hl : list ≠ .sleep) {n : Nat} (hn : (q list).length < n) :
    s.walked list n = q list := by
  have r := h.queues.ring list hl
  exact walkList_path r.path r.not_mem hn

theorem Core.onceOn (h : Core s q) (hl : list ≠ .sleep) (hp : p ∈ q list) : OnceOn s list p := by
  refine ⟨(q list).length + 1, fun k hk => ?_⟩
  rw [h.walked_eq hl hk]
  exact List.count_eq_one_of_mem (h.nodup list) hp

theorem Core.notOn (h : Core s q) (hl : list ≠ .sleep) (hp : p ∉ q list) : NotOn s list p := by
  intro n hmem
  have r := h.queues.ring list hl
  rcases Nat.lt_or_ge (q list).length n with hn | hn
  · rw [h.walked_eq hl hn] at hmem
    exact hp hmem
  · rw [SchedulerTable.walked, walkList_take r.path r.not_mem hn] at hmem
    exact hp (List.mem_of_mem_take hmem)

/-- **The sleep list.**  Its head leads into the ready ring, so a walk over it meets the threads that
are ready, and these only. -/
theorem Core.notOn_sleep_iff (h : Core s q) : NotOn s .sleep p ↔ p ∉ q .ready := by
  have r := h.queues.ring .ready (by decide)
  have hsleep : Node.head .sleep ∉ (q .ready).map Node.link := by simp
  constructor
  · intro hnot hp
    -- one round passes the ready head, and as many more as there are ready threads meet them all
    refine hnot ((q .ready).length + 1) ?_
    rw [SchedulerTable.walked, h.queues.sleepNext, walkList, if_neg (by decide)]
    rw [walkList_take r.path hsleep (Nat.le_refl _), List.take_length]
    exact hp
  · intro hp n hmem
    refine hp ?_
    rw [SchedulerTable.walked, h.queues.sleepNext] at hmem
    have hstays := walkList_stays (· ∈ Queues.nodes q .ready) (fun y => r.next_mem)
      List.mem_cons_self p hmem
    simpa [Queues.nodes, ringNodes] using hstays

/-! ## Every thread is in the place its status names -/

/-- The thread is in the one place that its status names, as far as the lists of `among` go. -/
def InPlace (among : StatusList → Prop) (s : SchedulerTable) (p : Nat) : Prop :=
  match (s.threads p).status with
  | .running => s.sprtWork = some p ∧ ∀ list, among list → NotOn s list p
  | .ready =>
    s.sprtWork ≠ some p ∧ OnceOn s .ready p ∧
      ∀ list, among list → list ≠ .ready → NotOn s list p
  | .suspend =>
    s.sprtWork ≠ some p ∧ OnceOn s .suspend p ∧
      ∀ list, among list → list ≠ .suspend → NotOn s list p
  | _ => False

/-- Every registered thread is in its place under its own tid, and exactly one of them is running. -/
structure Placement (among : StatusList → Prop) (s : SchedulerTable) : Prop where
  entry : ∀ tid p, s.sprtTidArray tid = some p → (s.threads p).tid = tid ∧ InPlace among s p
  running : ∃! p, s.sprtTidArray (s.threads p).tid = some p ∧ (s.threads p).status = .running

/-- No registered thread waits on the ready list. -/
def NoneReady (s : SchedulerTable) : Prop :=
  ∀ tid p, s.sprtTidArray tid = some p → (s.threads p).status ≠ .ready

/-- A thread is in its place among the lists on which no thread of another status is met. -/
theorem Core.inPlace {among : StatusList → Prop} (h : Core s q) (hreg : s.Registered p)
    (hamong : ∀ list, among list → p ∉ q list → NotOn s list p) : InPlace among s p := by
  have hnot : ∀ list, among list → (s.threads p).status ≠ list.status → NotOn s list p :=
    fun list hl hne => hamong list hl fun hp => hne ((h.queued list p).mp hp).2
  have hwork : (s.threads p).status ≠ .running → s.sprtWork ≠ some p :=
    fun hne hw => hne ((h.work p).mp hw).2
  unfold InPlace
  rcases h.placed p hreg with hst | hst | hst
  · rw [hst] at hnot
    simp only [hst]
    exact ⟨(h.work p).mpr ⟨hreg, hst⟩,
      fun list hl => hnot list hl (StatusList.status_ne_running list).symm⟩
  · rw [hst] at hnot
    simp only [hst]
    refine ⟨hwork (by simp [hst]), h.onceOn (by decide) ((h.queued .ready p).mpr ⟨hreg, hst⟩), ?_⟩
    exact fun list hl hne => hnot list hl
      fun heq => hne (StatusList.status_inj (b := .ready).mp heq.symm)
  · rw [hst] at hnot
    simp only [hst]
    refine ⟨hwork (by simp [hst]), h.onceOn (by decide) ((h.queued .suspend p).mpr ⟨hreg, hst⟩), ?_⟩
    exact fun list hl hne => hnot list hl
      fun heq => hne (StatusList.status_inj (b := .suspend).mp heq.symm)

theorem Core.placement {among : StatusList → Prop} (h : Core s q) (hwork : s.sprtWork ≠ none)
    (hamong : ∀ list, among list → ∀ p, p ∉ q list → NotOn s list p) : Placement among s := by
  obtain ⟨w, hw⟩ := Option.ne_none_iff_exists'.mp hwork
  refine ⟨fun tid p hp => ⟨(h.tids tid p hp).1, h.inPlace (h.registered hp) fun list hl =>
    hamong list hl p⟩, w, (h.work w).mp hw, fun p hp => ?_⟩
  have := (h.work p).mpr hp
  rw [hw, Option.some.injEq] at this
  exact this.symm

/-- **Where the sleep list spoils it.**  On all three lists the threads are in their places exactly
while none of them is ready. -/
theorem Core.placement_iff (h : Core s q) (hwork : s.sprtWork ≠ none) :
    Placement (fun _ => True) s ↔ NoneReady s := by
  constructor
  · intro hplaced tid p hp hst
    have hin := (hplaced.entry tid p hp).2
    simp only [InPlace, hst] at hin
    have hnot : NotOn s .sleep p := hin.2.2 .sleep trivial (by decide)
    exact h.notOn_sleep_iff.mp hnot ((h.queued .ready p).mpr ⟨h.registered hp, hst⟩)
  · intro hnone
    refine h.placement hwork fun list _ p hp => ?_
    by_cases hl : list = .sleep
    · subst hl
      refine h.notOn_sleep_iff.mpr fun hready => ?_
      obtain ⟨hreg, hst⟩ := (h.queued .ready p).mp hready
      exact hnone _ p hreg hst
    · exact h.notOn hl hp

/-! ## Orderly runs -/

/-- **One step of an orderly run**: the call returns and the invariant is kept. -/
theorem orderly_step (h : ∃ q, Running configRollPoll m q) (hop : Orderly m op) :
    ∃ m', step configRollPoll m op = some m' ∧ ∃ q, Running configRollPoll m' q := by
  obtain ⟨q, hq⟩ := h
  have hwork : op.readsWork = true → m.table.sprtWork ≠ none := by
    intro hread
    cases op with
    | selfSuspend => exact hq.started hop.2
    | suspend tid => exact hq.started hop.2
    | setPriority priority => exact hq.started hop.2
    | register p tid attr => cases hread
    | schedule => cases hread
    | scheduleThread => cases hread
    | wakeup tid => cases hread
  obtain ⟨scheduled, s', q', hcall, hcalled⟩ :=
    call_spec configRollPoll hq.inv hop.1 hwork
  have hstep : step configRollPoll m op = some
      { table := s'
        started := m.started || scheduled
        clock := m.clock + 1
        since := fun p => if Arrived m.table s' p then m.clock + 1 else m.since p } := by
    simp only [step, hcall]
  exact ⟨_, hstep, running_step hq hop.1 hstep⟩

/-- **One orderly run**: every call returns, and the invariant holds throughout. -/
theorem orderly_run {ops : List Op}
    (h : Meets (step configRollPoll) Orderly Machine.init ops) :
    (∃ m, exec (step configRollPoll) Machine.init ops = some m) ∧
      Always (step configRollPoll) (fun m => ∃ q, Running configRollPoll m q) Machine.init ops :=
  run_of_meets (fun _ _ => orderly_step) ⟨_, running_init configRollPoll⟩ h

/-- One thread at most is registered. -/
def AtMostOne (s : SchedulerTable) : Prop :=
  ∀ n < realThreadMaxNum, (s.sprtTidArray n).isSome = true → ∀ n' < n, s.sprtTidArray n' = none

instance (s : SchedulerTable) : Decidable (AtMostOne s) :=
  inferInstanceAs (Decidable (∀ n < realThreadMaxNum, (s.sprtTidArray n).isSome = true →
    ∀ n' < n, s.sprtTidArray n' = none))

/-- The call lets no thread become ready next to a running one: from the first successful
`__schedule_thread` on no further thread is registered, and that call finds one thread at most. -/
def Single (m : Machine) : Op → Prop
  | .register _ tid _ => m.started = false ∨ (m.table.sprtTidArray tid).isSome = true
  | .schedule => AtMostOne m.table
  | .scheduleThread => AtMostOne m.table
  | _ => True

instance (m : Machine) : ∀ op, Decidable (Single m op)
  | .register _ _ _ => inferInstanceAs (Decidable (_ ∨ _))
  | .schedule | .scheduleThread => inferInstanceAs (Decidable (AtMostOne m.table))
  | .selfSuspend | .suspend _ | .wakeup _ | .setPriority _ => isTrue trivial

/-- Once started, there is no second thread. -/
def Sole (m : Machine) : Prop := m.started = true → AtMostOne m.table

/-- Only a call of `__schedule_thread` starts the scheduler. -/
theorem call_scheduled {s' : SchedulerTable}
    (hcall : call configRollPoll s op = .ok (true, s')) : op = .schedule ∨ op = .scheduleThread := by
  cases op with
  | schedule => exact Or.inl rfl
  | scheduleThread => exact Or.inr rfl
  | register p tid attr =>
    simp only [call, bind, Except.bind, pure, Except.pure] at hcall
    split at hcall <;> simp at hcall
  | selfSuspend =>
    simp only [call, bind, Except.bind, pure, Except.pure] at hcall
    split at hcall <;> simp at hcall
  | suspend tid =>
    simp only [call, bind, Except.bind, pure, Except.pure] at hcall
    split at hcall <;> simp at hcall
  | wakeup tid =>
    simp only [call, bind, Except.bind, pure, Except.pure] at hcall
    split at hcall <;> simp at hcall
  | setPriority priority =>
    simp only [call] at hcall
    split at hcall <;> simp at hcall

/-- A single thread stays single. -/
theorem sole_step (h : ∃ q, Running configRollPoll m q) (hsole : Sole m) (hop : Orderly m op)
    (hsingle : Single m op) (hstep : step configRollPoll m op = some m') : Sole m' := by
  obtain ⟨q, hq⟩ := h
  have hwork : op.readsWork = true → m.table.sprtWork ≠ none := by
    intro hread hnone
    rw [step, call_fault hread hnone] at hstep
    cases hstep
  obtain ⟨scheduled, s', q', hcall, hcalled⟩ := call_spec configRollPoll hq.inv hop.1 hwork
  rw [step, hcall] at hstep
  simp only [Option.some.injEq] at hstep
  subst hstep
  intro hstarted
  have hstarted : m.started = true ∨ scheduled = true := Bool.or_eq_true_iff.mp hstarted
  -- the call enters no thread: a registration finds its tid taken
  have hold : ∀ n p, s'.sprtTidArray n = some p → m.table.sprtTidArray n = some p := by
    intro n p hp
    rcases hcalled.entered n p hp with hp' | ⟨x, attr, rfl⟩
    · exact hp'
    · rcases hsingle with hearly | htaken
      · rcases hstarted with hs | rfl
        · rw [hearly] at hs
          cases hs
        · rcases call_scheduled hcall with heq | heq <;> cases heq
      · obtain ⟨x', hx'⟩ := Option.isSome_iff_exists.mp htaken
        rw [hcalled.entries n x' hx'] at hp
        rw [hx', hp]
  have hone : AtMostOne m.table := by
    rcases hstarted with hs | rfl
    · exact hsole hs
    · rcases call_scheduled hcall with rfl | rfl
      · exact hsingle
      · exact hsingle
  intro n hn hsome n' hn'
  obtain ⟨p, hp⟩ := Option.isSome_iff_exists.mp hsome
  have hnone := hone n hn (by rw [hold n p hp]; rfl) n' hn'
  by_contra hne
  obtain ⟨p', hp'⟩ := Option.ne_none_iff_exists'.mp hne
  rw [hold n' p' hp'] at hnone
  cases hnone

/-- A single thread runs, so none is ready. -/
theorem Running.noneReady (h : Running configRollPoll m q) (hsole : Sole m)
    (hstarted : m.started = true) : NoneReady m.table := by
  intro tid p hp hst
  have hcore := h.inv.toCore
  obtain ⟨w, hw⟩ := Option.ne_none_iff_exists'.mp (h.started hstarted)
  obtain ⟨hwreg, hwst⟩ := (hcore.work w).mp hw
  have hone := hsole hstarted
  have hptid := hcore.tids tid p hp
  have hsame : (m.table.threads w).tid = tid := by
    rcases Nat.lt_trichotomy (m.table.threads w).tid tid with hlt | heq | hlt
    · have hnone := hone tid hptid.2 (by rw [hp]; rfl) _ hlt
      rw [hwreg] at hnone
      cases hnone
    · exact heq
    · have hnone := hone _ (hcore.tids _ w hwreg).2 (by rw [hwreg]; rfl) tid hlt
      rw [hp] at hnone
      cases hnone
  rw [SchedulerTable.Registered, hsame, hp] at hwreg
  cases hwreg
  rw [hwst] at hst
  cases hst

/-- **Placement.**  Along every orderly run every call returns and, once `__schedule_thread` has
succeeded, each tid's entry holds a thread of that tid, exactly one thread is running, and each
registered thread is in the place its status names, on the ready and on the suspend list.  It is so
on the sleep list too exactly while no thread is ready; where no second thread is ever let in, that
is throughout. -/
theorem threads_in_place (configRollPoll : Bool) (ops : List Op)
    (h : Meets (step configRollPoll) Orderly Machine.init ops) :
    (∃ m, exec (step configRollPoll) Machine.init ops = some m) ∧
      Always (step configRollPoll) (fun m => m.started = true →
        Placement (· ≠ .sleep) m.table ∧ (Placement (fun _ => True) m.table ↔ NoneReady m.table))
        Machine.init ops ∧
      (Meets (step configRollPoll) Single Machine.init ops →
        Always (step configRollPoll)
          (fun m => m.started = true → Placement (fun _ => True) m.table) Machine.init ops) := by
  obtain ⟨hexec, hinv⟩ := orderly_run h
  refine ⟨hexec, hinv.imp fun m hm hstarted => ?_, fun hsingle => ?_⟩
  · obtain ⟨q, hq⟩ := hm
    have hcore := hq.inv.toCore
    exact ⟨hcore.placement (hq.started hstarted) fun list hl p => hcore.notOn hl,
      hcore.placement_iff (hq.started hstarted)⟩
  · have hsole : Always (step configRollPoll)
        (fun m => (∃ q, Running configRollPoll m q) ∧ Sole m) Machine.init ops := by
      refine always_of_meets (c := fun m op => Orderly m op ∧ Single m op) ?_
        ⟨⟨_, running_init configRollPoll⟩, fun hs => by cases hs⟩ (h.and hsingle)
      rintro m op m' ⟨hm, hm'⟩ ⟨hop, hsingle⟩ hstep
      obtain ⟨q, hq⟩ := hm
      exact ⟨running_step hq hop.1 hstep, sole_step ⟨q, hq⟩ hm' hop hsingle hstep⟩
    refine hsole.imp fun m hm hstarted => ?_
    obtain ⟨⟨q, hq⟩, hm'⟩ := hm
    exact (hq.inv.toCore.placement_iff (hq.started hstarted)).mpr (hq.noneReady hm' hstarted)

/-- Thread 1, idle and one more thread, as at start-up; one is suspended by itself, woken up, and
suspended by another. -/
def threeThreads : List Op :=
  [.register 0x2000 1 ⟨0, 0x200⟩, .register 0x1000 0 ⟨98, 0x100⟩, .register 0x3000 32 ⟨80, 0x300⟩,
    .schedule, .selfSuspend, .wakeup 1, .suspend 1, .schedule, .wakeup 1, .scheduleThread]

/-- There every list but the sleep list is in order; with idle alone, all three are. -/
theorem threads_in_place_three :
    (exec (step false) Machine.init threeThreads).map Machine.started = some true ∧
      Always (step false) (fun m => m.started = true →
        Placement (· ≠ .sleep) m.table ∧ (Placement (fun _ => True) m.table ↔ NoneReady m.table))
        Machine.init threeThreads ∧
      Always (step false) (fun m => m.started = true → Placement (fun _ => True) m.table) Machine.init
        [.register 0x1000 0 ⟨98, 0x100⟩, .schedule, .selfSuspend, .scheduleThread] :=
  ⟨by decide +kernel, (threads_in_place false threeThreads (by decide +kernel)).2.1,
    (threads_in_place false _ (by decide +kernel)).2.2 (by decide +kernel)⟩

/-- Idle and one more thread, of which the second one runs. -/
def twoThreads : List Op :=
  [.register 0x1000 0 ⟨98, 0x100⟩, .register 0x2000 1 ⟨0, 0x200⟩, .schedule]

/-- Idle is ready there, and a walk over the sleep list meets it. -/
theorem ready_met_asleep :
    ¬ ∀ (configRollPoll : Bool) (p : Nat) (attr : RealThreadAttr) (ops : List Op),
      Meets (step configRollPoll) Orderly Machine.init (.register p realThreadTidIdle attr :: ops) →
      Always (step configRollPoll) (fun m => m.started = true → Placement (fun _ => True) m.table)
        Machine.init (.register p realThreadTidIdle attr :: ops) := by
  intro h
  have hmeets : Meets (step false) Orderly Machine.init twoThreads := by decide +kernel
  have hrun : (exec (step false) Machine.init twoThreads).map (fun m =>
      (m.started, m.table.sprtTidArray 0, (m.table.threads 0x1000).status)) =
        some (true, some 0x1000, .ready) := by decide +kernel
  obtain ⟨m, hexec, hm⟩ := Option.map_eq_some_iff.mp hrun
  simp only [Prod.mk.injEq] at hm
  obtain ⟨hstarted, hidle, hready⟩ := hm
  obtain ⟨q, hq⟩ := always_last (orderly_run hmeets).2 hexec
  have hplaced : Placement (fun _ => True) m.table :=
    always_last (h false 0x1000 ⟨98, 0x100⟩ _ hmeets) hexec hstarted
  exact (hq.inv.toCore.placement_iff (hq.started hstarted)).mp hplaced 0 0x1000 hidle hready

/-! ## The lists are in priority order -/

/-- The ready and the suspend list are sorted by priority, equal priorities by arrival, and where
`__schedule_thread` lets another thread run, that is the ready thread of least priority value that
has been queued longest. -/
structure InOrder (m : Machine) : Prop where
  ready : (m.table.members .ready).Pairwise (Before m.table.priority m.since)
  suspend : (m.table.members .suspend).Pairwise (Before m.table.priority m.since)
  picks : ∀ context s', __scheduleThread false walkRounds m.table = .ok (context, s') →
    s'.sprtWork ≠ m.table.sprtWork → ∃ f, s'.sprtWork = some f ∧ (s'.threads f).status = .running ∧
      m.table.sprtTidArray (m.table.threads f).tid = some f ∧ (m.table.threads f).status = .ready ∧
      ∀ r, m.table.sprtTidArray (m.table.threads r).tid = some r →
        (m.table.threads r).status = .ready → r = f ∨ Before m.table.priority m.since f r

theorem Running.inOrder (h : Running false m q) : InOrder m := by
  have hcore := h.inv.toCore
  refine ⟨?_, ?_, fun context s' hcall hne => ?_⟩
  · rw [hcore.members_eq (by decide)]
    exact h.ordered rfl .ready
  · rw [hcore.members_eq (by decide)]
    exact h.ordered rfl .suspend
  · obtain ⟨context', s'', q', hcall', hkept, hsched⟩ :=
      schedule_spec false h.inv (show realThreadMaxNum < walkRounds by decide)
    rw [hcall'] at hcall
    cases hcall
    rcases hsched.picked with hsame | ⟨f, rest, hready, hf⟩
    · exact absurd hsame hne
    · have hfq := (hcore.queued .ready f).mp (by simp [hready])
      refine ⟨f, hf, ((hkept.inv.work f).mp hf).2, hfq.1, hfq.2, fun r hr hst => ?_⟩
      have hrq : r ∈ q .ready := (hcore.queued .ready r).mpr ⟨hr, hst⟩
      have hord := h.ordered rfl .ready
      rw [hready] at hrq hord
      rcases List.mem_cons.mp hrq with rfl | hrq
      · exact Or.inl rfl
      · exact Or.inr ((List.pairwise_cons.mp hord).1 r hrq)

/-- **Priority order.**  Without `CONFIG_ROLL_POLL`, along every run in which priorities change only
off the lists, the lists are in priority order with equal priorities in order of arrival, and
`__schedule_thread` picks accordingly. -/
theorem lists_in_priority_order (ops : List Op) (h : Meets (step false) Legal Machine.init ops) :
    Always (step false) InOrder Machine.init ops :=
  (running_run h).imp fun _ ⟨_, hq⟩ => hq.inOrder

/-- Four threads, two of them with the same priority, and a priority that changes while running. -/
theorem lists_in_priority_order_four :
    Always (step false) InOrder Machine.init
      [.register 0x1000 0 ⟨98, 0x100⟩, .register 0x2000 1 ⟨80, 0x200⟩,
        .register 0x3000 2 ⟨0, 0x300⟩, .register 0x4000 3 ⟨80, 0x400⟩, .schedule, .suspend 1,
        .suspend 3, .setPriority 99, .schedule, .wakeup 3, .wakeup 1, .schedule] :=
  lists_in_priority_order _ (by decide +kernel)

/-! ## Some thread can always run -/

/-- A thread is running, idle is not suspended, and a thread other than idle can always suspend
itself, because another one is ready. -/
structure Alive (configRollPoll : Bool) (s : SchedulerTable) : Prop where
  work : s.sprtWork ≠ none
  idle : ∃ i, s.sprtTidArray realThreadTidIdle = some i ∧ (s.threads i).status ≠ .suspend ∧
    (s.threads i).status ≠ .sleep
  ready : ∀ tid p, s.sprtTidArray tid = some p → (s.threads p).status = .running →
    tid ≠ realThreadTidIdle → isReadyThreadEmpty s = false
  suspends : ∀ w, s.sprtWork = some w → (s.threads w).tid ≠ realThreadTidIdle →
    ∃ s', scheduleSelfSuspend configRollPoll walkRounds s = .ok s' ∧
      (s'.threads w).status = .suspend ∧
      ∃ f, f ≠ w ∧ s'.sprtWork = some f ∧ (s'.threads f).status = .running

/-- While another thread is running, idle is ready. -/
theorem idle_ready (h : Core s q) {i w : Nat} (hi : s.sprtTidArray realThreadTidIdle = some i)
    (hw : s.sprtWork = some w) (htid : (s.threads w).tid ≠ realThreadTidIdle) : i ∈ q .ready := by
  have hreg := h.registered hi
  rcases h.placed i hreg with hst | hst | hst
  · have := (h.work i).mpr ⟨hreg, hst⟩
    rw [hw, Option.some.injEq] at this
    subst this
    exact absurd (h.tids _ w hi).1 htid
  · exact (h.queued .ready i).mpr ⟨hreg, hst⟩
  · exact absurd hst (h.idle i hi)

theorem Running.alive (hq : Running configRollPoll m q) (hstarted : m.started = true)
    (hidle : (m.table.sprtTidArray realThreadTidIdle).isSome = true) :
    Alive configRollPoll m.table := by
  have hcore := hq.inv.toCore
  obtain ⟨w, hw⟩ := Option.ne_none_iff_exists'.mp (hq.started hstarted)
  obtain ⟨i, hi⟩ := Option.isSome_iff_exists.mp hidle
  have hready : (m.table.threads w).tid ≠ realThreadTidIdle → q .ready ≠ [] := by
    intro htid hnil
    have := idle_ready hcore hi hw htid
    simp [hnil] at this
  refine ⟨hq.started hstarted, ⟨i, hi, hcore.idle i hi, ?_⟩, fun tid p hp hst htid => ?_,
    fun w' hw' htid => ?_⟩
  · rcases hcore.placed i (hcore.registered hi) with hst | hst | hst <;> simp [hst]
  · have hpw : m.table.sprtWork = some p := (hcore.work p).mpr ⟨hcore.registered hp, hst⟩
    obtain rfl : w = p := Option.some.inj (hw.symm.trans hpw)
    have hne := hready (by rwa [(hcore.tids tid w hp).1])
    rw [← Bool.not_eq_true]
    exact fun hempty => hne ((ready_empty_iff hcore.queues).mp hempty)
  · obtain rfl : w = w' := Option.some.inj (hw.symm.trans hw')
    obtain ⟨s', q', hcall, hkept, hsuspended⟩ := selfSuspend_spec
      configRollPoll hq.inv (show realThreadMaxNum < walkRounds by decide) hw
    obtain ⟨hst, f, hfw, hf⟩ := hsuspended htid (hready htid)
    exact ⟨s', hcall, hst, f, hfw, hf, ((hkept.inv.work f).mp hf).2⟩

/-- **Liveness.**  Along every orderly run, once idle is registered and `__schedule_thread` has
succeeded, a thread is running, idle is never suspended or asleep, and every other running thread can
suspend itself and hand over to a ready one. -/
theorem scheduler_alive (configRollPoll : Bool) (ops : List Op)
    (h : Meets (step configRollPoll) Orderly Machine.init ops) :
    (∃ m, exec (step configRollPoll) Machine.init ops = some m) ∧
      Always (step configRollPoll) (fun m => m.started = true →
        (m.table.sprtTidArray realThreadTidIdle).isSome = true → Alive configRollPoll m.table)
        Machine.init ops := by
  obtain ⟨hexec, hinv⟩ := orderly_run h
  refine ⟨hexec, hinv.imp fun m hm hstarted hidle => ?_⟩
  obtain ⟨q, hq⟩ := hm
  exact hq.alive hstarted hidle

/-- Idle is asked to suspend itself, by a call of its own and by another thread; thread 1 is
registered before it. -/
theorem scheduler_alive_three :
    Always (step false) (fun m => m.started = true →
      (m.table.sprtTidArray realThreadTidIdle).isSome = true → Alive false m.table) Machine.init
      (threeThreads ++ [.suspend 0, .suspend 32, .selfSuspend, .selfSuspend, .schedule, .wakeup 1]) :=
  (scheduler_alive false _ (by decide +kernel)).2

end HeavenFox.Kernel
