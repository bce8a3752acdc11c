/-
# HeavenFox.Kernel.SchedRuns -- runs of the scheduler

The scheduler as a machine: the calls its users make, in any order, from the table
as it is initialised.  Next to the table the machine carries what a run needs to be
talked about: whether a call of `__schedule_thread` has succeeded, the number of
calls made, and for every thread the call in which it was last put on a list.

Over all runs: every thread is in the one place its status names, the lists are in
priority order with equal priorities in order of arrival, and as long as there is
an idle thread some thread can run.
-/
import HeavenFox.Kernel.SchedCalls
import HeavenFox.Logic.Run

set_option linter.style.nameCheck false

namespace HeavenFox.Kernel

open HeavenFox.Logic HeavenFox.Common

/-! ## The machine -/

/-- The calls.  A thread object is allocated and filled in right before it is registered, as
`__real_thread_create` does; a priority is changed for the running thread only, which is on no
list. -/
inductive Op where
  | register (p tid : Nat) (attr : RealThreadAttr)
  | schedule
  | scheduleThread
  | selfSuspend
  | suspend (tid : Nat)
  | wakeup (tid : Nat)
  | setPriority (priority : Nat)
  deriving DecidableEq, Repr

/-- The threads met on the way from `pos` to the head. -/
def walkList (l : Links Node) (head : Node) : Nat → Node → List Nat
  | 0, _ => []
  | n + 1, pos =>
    if pos = head then []
    else
      match pos with
      | .link p => p :: walkList l head n (l.next (.link p))
      | .head h => walkList l head n (l.next (.head h))

/-- The threads on a list, first to last. -/
def SchedulerTable.members (s : SchedulerTable) (list : StatusList) : List Nat :=
  walkList s.links (.head list) walkRounds (s.links.next (.head list))

structure Machine where
  table : SchedulerTable
  started : Bool
  clock : Nat
  since : Nat → Nat

/-- The machine before the first call. -/
def Machine.init : Machine := ⟨sgrtRealThreadTabs, false, 0, fun _ => 0⟩

/-- One call on the table, and whether it is a successful `__schedule_thread`. -/
def call (configRollPoll : Bool) (s : SchedulerTable) : Op → Except Stop (Bool × SchedulerTable)
  | .register p tid attr => do
    let (_, s) ← registerNewThread configRollPoll walkRounds
      (s.setThread p ⟨tid, .none, .none, attr⟩) p tid
    pure (false, s)
  | .schedule => do
    let (context, s) ← __scheduleThread configRollPoll walkRounds s
    pure (context.isSome, s)
  | .scheduleThread => do
    let (context, _) ← __scheduleThread configRollPoll walkRounds s
    let s ← scheduleThread configRollPoll walkRounds s
    pure (context.isSome, s)
  | .selfSuspend => do
    let s ← scheduleSelfSuspend configRollPoll walkRounds s
    pure (false, s)
  | .suspend tid => do
    let (_, s) ← scheduleThreadSuspend configRollPoll walkRounds s tid
    pure (false, s)
  | .wakeup tid => do
    let (_, s) ← scheduleThreadWakeup configRollPoll walkRounds s tid
    pure (false, s)
  | .setPriority priority =>
    match s.sprtWork with
    | none => .error .fault
    | some w =>
      .ok (false, s.setThread w
        { s.threads w with sprtAttr := realThreadSetPriority (s.threads w).sprtAttr priority })

/-- The thread is on a list on which it was not before. -/
def Arrived (s s' : SchedulerTable) (p : Nat) : Prop :=
  (p ∈ s'.members .ready ∧ p ∉ s.members .ready) ∨
    (p ∈ s'.members .suspend ∧ p ∉ s.members .suspend)

instance (s s' : SchedulerTable) (p : Nat) : Decidable (Arrived s s' p) :=
  inferInstanceAs (Decidable (_ ∨ _))

/-- One step of the machine; a call that does not return makes none. -/
def step (configRollPoll : Bool) (m : Machine) (op : Op) : Option Machine :=
  match call configRollPoll m.table op with
  | .error _ => none
  | .ok (scheduled, table) => some
    { table
      started := m.started || scheduled
      clock := m.clock + 1
      since := fun p => if Arrived m.table table p then m.clock + 1 else m.since p }

/-- What the callers keep to: a thread object is registered once and under a tid of the table, and
only registered tids are suspended and woken up. -/
def Legal (m : Machine) : Op → Prop
  | .register p tid _ =>
    tid < realThreadMaxNum ∧ ∀ n < realThreadMaxNum, m.table.sprtTidArray n ≠ some p
  | .suspend tid => (m.table.sprtTidArray tid).isSome
  | .wakeup tid => (m.table.sprtTidArray tid).isSome
  | _ => True

instance (m : Machine) : ∀ op, Decidable (Legal m op)
  | .register _ _ _ => inferInstanceAs (Decidable (_ ∧ _))
  | .suspend tid | .wakeup tid =>
    inferInstanceAs (Decidable ((m.table.sprtTidArray tid).isSome = true))
  | .schedule | .scheduleThread | .selfSuspend | .setPriority _ => isTrue trivial

/-- Besides, the calls that read the running thread come after the first `__schedule_thread` that
has succeeded; before it there is none.  Threads are registered in any order. -/
def Orderly (m : Machine) (op : Op) : Prop :=
  Legal m op ∧
    match op with
    | .selfSuspend => m.started = true
    | .suspend _ => m.started = true
    | .setPriority _ => m.started = true
    | _ => True

instance (m : Machine) : ∀ op, Decidable (Orderly m op)
  | .selfSuspend | .suspend _ | .setPriority _ =>
    inferInstanceAs (Decidable (Legal m _ ∧ m.started = true))
  | .register _ _ _ | .schedule | .scheduleThread | .wakeup _ =>
    inferInstanceAs (Decidable (Legal m _ ∧ True))

/-! ## Members are queues -/

/-- A walk along a path that does not meet the head, for no more rounds than it is long. -/
theorem walkList_take {l : Links Node} {x h e : Node} {xs : List Nat} {n : Nat}
    (hp : l.Path x (xs.map .link) e) (hh : h ∉ xs.map Node.link) (hn : n ≤ xs.length) :
    walkList l h n (l.next x) = xs.take n := by
  induction xs generalizing x n with
  | nil =>
    obtain rfl : n = 0 := Nat.le_zero.mp hn
    rfl
  | cons y xs ih =>
    cases n with
    | zero => rfl
    | succ n =>
      simp only [List.map_cons, List.mem_cons, not_or] at hh
      rw [hp.1.1, walkList, if_neg (Ne.symm hh.1)]
      simp only [List.take_succ_cons, List.cons.injEq, true_and]
      exact ih hp.2 hh.2 (Nat.le_of_succ_le_succ hn)

theorem walkList_path {l : Links Node} {x h : Node} {xs : List Nat} {n : Nat}
    (hp : l.Path x (xs.map .link) h) (hh : h ∉ xs.map Node.link) (hn : xs.length < n) :
    walkList l h n (l.next x) = xs := by
  induction xs generalizing x n with
  | nil =>
    obtain ⟨k, rfl⟩ : ∃ k, n = k + 1 := ⟨n - 1, by simp at hn; omega⟩
    rw [show l.next x = h from hp.1]
    simp [walkList]
  | cons y xs ih =>
    obtain ⟨k, rfl⟩ : ∃ k, n = k + 1 := ⟨n - 1, by simp at hn; omega⟩
    simp only [List.map_cons, List.mem_cons, not_or] at hh
    rw [hp.1.1, walkList, if_neg (Ne.symm hh.1)]
    simp only [List.cons.injEq, true_and]
    exact ih hp.2 hh.2 (by simp at hn; omega)

theorem Core.members_eq {s : SchedulerTable} {q : StatusList → List Nat} (h : Core s q)
    {list : StatusList} (hl : list ≠ .sleep) : s.members list = q list := by
  have r := h.queues.ring list hl
  have hlen := h.length_le list
  have hrounds : realThreadMaxNum < walkRounds := by decide
  exact walkList_path r.path r.not_mem (Nat.lt_of_le_of_lt hlen hrounds)

/-! ## One call -/

/-- The calls that read the running thread. -/
def Op.readsWork : Op → Bool
  | .selfSuspend => true
  | .suspend _ => true
  | .setPriority _ => true
  | _ => false

/-- What a call guarantees. -/
structure Called (configRollPoll : Bool) (s s' : SchedulerTable) (q q' : StatusList → List Nat)
    (op : Op) (scheduled : Bool) : Prop extends Sound configRollPoll s s' q q' where
  scheduled : scheduled = true → s'.sprtWork ≠ none
  entries : ∀ n x, s.sprtTidArray n = some x → s'.sprtTidArray n = some x
  entered : ∀ n x, s'.sprtTidArray n = some x → s.sprtTidArray n = some x ∨
    ∃ p attr, op = .register p n attr

variable {configRollPoll : Bool} {m m' : Machine} {s s' : SchedulerTable}
  {q q' : StatusList → List Nat} {op : Op}

theorem Called.of_kept (h : Kept configRollPoll s s' q q') {scheduled : Bool}
    (hs : scheduled = true → s'.sprtWork ≠ none) : Called configRollPoll s s' q q' op scheduled :=
  ⟨h.toSound, hs, fun _ _ hx => h.table ▸ hx, fun _ _ hx => Or.inl (h.table ▸ hx)⟩

/-- **Every legal call returns**, those that read the running thread once there is one, and keeps the
table consistent. -/
theorem call_spec (configRollPoll : Bool) (h : Inv m.table q) (hlegal : Legal m op)
    (hwork : op.readsWork = true → m.table.sprtWork ≠ none) :
    ∃ scheduled s' q', call configRollPoll m.table op = .ok (scheduled, s') ∧
      Called configRollPoll m.table s' q q' op scheduled := by
  have hr : realThreadMaxNum < walkRounds := by decide
  cases op with
  | register p tid attr =>
    have hp : ∀ n, m.table.sprtTidArray n ≠ some p := by
      intro n hn
      exact hlegal.2 n (h.tids n p hn).2 hn
    obtain ⟨retval, s', q', hcall, hsound, hold, hnew⟩ := register_spec
      configRollPoll (t := ⟨tid, .none, .none, attr⟩) h hr hp hlegal.1 rfl rfl
    refine ⟨false, s', q', ?_, ⟨hsound, by simp, hold, fun n x hx => ?_⟩⟩
    · simp only [call, hcall, bind, Except.bind, pure, Except.pure]
    · exact (hnew n x hx).imp id fun hn => ⟨p, attr, by rw [hn]⟩
  | schedule =>
    obtain ⟨context, s', q', hcall, hkept, hsched⟩ :=
      schedule_spec configRollPoll h hr
    refine ⟨context.isSome, s', q', ?_, .of_kept hkept fun hs => hsched.context ?_⟩
    · simp only [call, hcall, bind, Except.bind, pure, Except.pure]
    · rintro rfl
      cases hs
  | scheduleThread =>
    obtain ⟨context, s₁, s', q', hcall, hcall', hkept, hsched⟩ :=
      scheduleThread_spec configRollPoll h hr
    refine ⟨context.isSome, s', q', ?_, .of_kept hkept fun hs => hsched.context ?_⟩
    · simp only [call, hcall, hcall', bind, Except.bind, pure, Except.pure]
    · rintro rfl
      cases hs
  | selfSuspend =>
    obtain ⟨w, hw⟩ := Option.ne_none_iff_exists'.mp (hwork rfl)
    obtain ⟨s', q', hcall, hkept, -⟩ := selfSuspend_spec configRollPoll h hr hw
    refine ⟨false, s', q', ?_, .of_kept hkept (by simp)⟩
    simp only [call, hcall, bind, Except.bind, pure, Except.pure]
  | suspend tid =>
    obtain ⟨w, hw⟩ := Option.ne_none_iff_exists'.mp (hwork rfl)
    obtain ⟨p, hp⟩ := Option.isSome_iff_exists.mp hlegal
    obtain ⟨retval, s', q', hcall, hkept⟩ :=
      threadSuspend_spec configRollPoll h hr hw hp
    refine ⟨false, s', q', ?_, .of_kept hkept (by simp)⟩
    simp only [call, hcall, bind, Except.bind, pure, Except.pure]
  | wakeup tid =>
    obtain ⟨p, hp⟩ := Option.isSome_iff_exists.mp hlegal
    obtain ⟨retval, s', q', hcall, hkept⟩ :=
      threadWakeup_spec configRollPoll h hr hp
    refine ⟨false, s', q', ?_, .of_kept hkept (by simp)⟩
    simp only [call, hcall, bind, Except.bind, pure, Except.pure]
  | setPriority priority =>
    obtain ⟨w, hw⟩ := Option.ne_none_iff_exists'.mp (hwork rfl)
    have hkept := priority_kept configRollPoll
      (realThreadSetPriority (m.table.threads w).sprtAttr priority) h hw
    exact ⟨false, _, q, by simp only [call, hw], .of_kept hkept (by simp)⟩

/-- Without a running thread the calls that read it fault. -/
theorem call_fault (hread : op.readsWork = true) (hwork : s.sprtWork = none) :
    call configRollPoll s op = .error .fault := by
  cases op with
  | selfSuspend => simp [call, scheduleSelfSuspend, hwork, bind, Except.bind]
  | suspend tid => simp [call, scheduleThreadSuspend, hwork, bind, Except.bind]
  | setPriority priority => simp [call, hwork]
  | register p tid attr => cases hread
  | schedule => cases hread
  | scheduleThread => cases hread
  | wakeup tid => cases hread

/-! ## The invariant of a run -/

/-- What every state of a run satisfies, for the queues `q`. -/
structure Running (configRollPoll : Bool) (m : Machine) (q : StatusList → List Nat) : Prop where
  inv : Inv m.table q
  started : m.started = true → m.table.sprtWork ≠ none
  past : ∀ list, ∀ p ∈ q list, m.since p ≤ m.clock
  ordered : configRollPoll = false →
    ∀ list, (q list).Pairwise (Before m.table.priority m.since)

theorem arrived_iff {p : Nat} (h : Core s q) (h' : Core s' q') :
    Arrived s s' p ↔ ∃ list, p ∈ q' list ∧ p ∉ q list := by
  unfold Arrived
  rw [h.members_eq (by decide), h.members_eq (by decide), h'.members_eq (by decide),
    h'.members_eq (by decide)]
  constructor
  · rintro (hp | hp)
    · exact ⟨_, hp⟩
    · exact ⟨_, hp⟩
  · rintro ⟨list, hp⟩
    cases list with
    | ready => exact Or.inl hp
    | suspend => exact Or.inr hp
    | sleep => simp [h'.queues.sleepEmpty] at hp

/-- A thread that stays on its list keeps its time of arrival. -/
theorem not_arrived {p : Nat} {list : StatusList} (h : Core s q) (h' : Core s' q')
    (hp : p ∈ q list) (hp' : p ∈ q' list) : ¬ Arrived s s' p := by
  rw [arrived_iff h h']
  rintro ⟨a, ha', ha⟩
  obtain rfl := h'.queues.apart a list p ha' hp'
  exact ha hp

/-- **One step** keeps the invariant. -/
theorem running_step (h : Running configRollPoll m q) (hlegal : Legal m op)
    (hstep : step configRollPoll m op = some m') : ∃ q', Running configRollPoll m' q' := by
  have hwork : op.readsWork = true → m.table.sprtWork ≠ none := by
    intro hread hnone
    rw [step, call_fault hread hnone] at hstep
    cases hstep
  obtain ⟨scheduled, s', q', hcall, hcalled⟩ :=
    call_spec configRollPoll h.inv hlegal hwork
  rw [step, hcall] at hstep
  simp only [Option.some.injEq] at hstep
  subst hstep
  have hcore := h.inv.toCore
  have hcore' := hcalled.inv.toCore
  obtain ⟨hprio, r, hr, hmove⟩ := hcalled.moves
  -- what is left of a queue has kept its priorities and times of arrival
  have hrest : ∀ list, ∀ x ∈ r list, x ∈ q' list → s'.priority x = m.table.priority x ∧
      (if Arrived m.table s' x then m.clock + 1 else m.since x) = m.since x := by
    intro list x hx hx'
    have hxq := (hr list).subset hx
    exact ⟨hprio list x hxq, if_neg (not_arrived hcore hcore' hxq hx')⟩
  refine ⟨q', hcalled.inv, ?_, ?_, ?_⟩
  · intro hs
    rcases Bool.or_eq_true_iff.mp hs with hs | hs
    · exact hcalled.work (h.started hs)
    · exact hcalled.scheduled hs
  · intro list x hx
    show (if Arrived m.table s' x then m.clock + 1 else m.since x) ≤ m.clock + 1
    split
    · exact Nat.le_refl _
    · rename_i hnot
      rw [arrived_iff hcore hcore'] at hnot
      push Not at hnot
      exact Nat.le_succ_of_le (h.past list x (hnot list hx))
  · intro hcfg list
    have hold : (r list).Pairwise (Before m.table.priority m.since) :=
      (h.ordered hcfg list).sublist (hr list)
    rcases hmove with rfl | ⟨p, a, ys, hpa, hpr, hys, rfl⟩
    · exact pairwise_before_congr hold (fun x hx => (hrest list x hx hx).1)
        fun x hx => (hrest list x hx hx).2
    · subst hcfg
      have hys' : InsertedByKey s'.priority p (r a) ys := hys
      have hsub : ∀ x ∈ r list, x ∈ Function.update r a ys list := by
        intro x hx
        exact (mem_update_admitted hys).mpr (Or.inl hx)
      have hord : (r list).Pairwise (Before s'.priority
          fun x => if Arrived m.table s' x then m.clock + 1 else m.since x) :=
        pairwise_before_congr hold (fun x hx => (hrest list x hx (hsub x hx)).1)
          fun x hx => (hrest list x hx (hsub x hx)).2
      by_cases hla : list = a
      · subst hla
        rw [Function.update_self]
        refine hys'.pairwise hord fun x hx => ?_
        have hp : Arrived m.table s' p :=
          (arrived_iff hcore hcore').mpr ⟨list, (mem_update_admitted hys).mpr (Or.inr ⟨rfl, rfl⟩), hpa⟩
        show (if Arrived m.table s' x then m.clock + 1 else m.since x) <
          if Arrived m.table s' p then m.clock + 1 else m.since p
        rw [(hrest list x hx (hsub x hx)).2, if_pos hp]
        exact Nat.lt_succ_of_le (h.past list x ((hr list).subset hx))
      · rw [Function.update_of_ne hla]
        exact hord

theorem running_init (configRollPoll : Bool) :
    Running configRollPoll Machine.init fun _ => [] := by
  have hrings : Rings sgrtRealThreadTabs.links (· ≠ .sleep) Node.head (fun _ => .link)
      fun _ => [] := by
    refine ⟨fun list hl => Ring.nil_iff.mpr ?_, fun a b _ _ hab => ?_⟩
    · cases list with
      | ready => exact ⟨rfl, rfl⟩
      | suspend => exact ⟨rfl, rfl⟩
      | sleep => exact absurd rfl hl
    · simpa [ringNodes] using Ne.symm hab
  refine ⟨⟨⟨⟨hrings, rfl, rfl, rfl⟩, ?_, ?_, ?_, ?_, ?_, ?_⟩, ?_, ?_⟩, ?_, ?_, ?_⟩ <;>
    simp [Machine.init, sgrtRealThreadTabs, SchedulerTable.Registered]

/-- **One run** of legal calls satisfies the invariant throughout. -/
theorem running_run {ops : List Op} (h : Meets (step configRollPoll) Legal Machine.init ops) :
    Always (step configRollPoll) (fun m => ∃ q, Running configRollPoll m q) Machine.init ops := by
  refine always_of_meets (fun m op m' hm hop hstep => ?_) ⟨_, running_init configRollPoll⟩ h
  obtain ⟨q, hq⟩ := hm
  exact running_step hq hop hstep

end HeavenFox.Kernel
