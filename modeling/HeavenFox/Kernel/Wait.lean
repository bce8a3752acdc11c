/-
# HeavenFox.Kernel.Wait -- wait queues and the one wake-up flag of a thread

`wait.h` and `wait.c`: a thread in `__wait_event` is linked on one wait queue, says in
its flags whether it may be interrupted, and loops until its condition holds or, in an
interruptible wait, until it finds its wake-up flag set.  `wake_up` and
`wake_up_interruptible` go through a queue and set that flag.

The flag belongs to the thread and not to the wait, and only an interruptible wait that
finds its condition false clears it.  A wake-up that comes when the condition holds
already, or in a wait that cannot be interrupted, is left to the next wait, on whatever
queue that is.  `woken_on_own_queue` says that this is the only way: a thread that never
enters an interruptible wait with the flag set is only ever woken through its own queue.

The machine interleaves any number of threads at the points where one of them touches the
queues or the flags; what runs under one spin lock is one step.
-/
import HeavenFox.Common.ListTypes
import HeavenFox.Logic.Rings
import HeavenFox.Logic.Run

namespace HeavenFox.Kernel

open HeavenFox.Common HeavenFox.Logic

/-! ## Thread flags -/

/-- `NR_THREAD_SIG_*`, the bits of the `flags` of a thread. -/
inductive ThreadSig where
  | normal
  | wakeup
  | kill
  | intr
  deriving DecidableEq, Repr

/-- The `flags` of every thread. -/
abbrev ThreadFlags := ObjPtr → ThreadSig → Bool

/-- `real_thread_state_signal`. -/
def realThreadStateSignal (flags : ThreadFlags) (sprtThread : ObjPtr) (state : ThreadSig)
    (mode : Bool) : ThreadFlags :=
  Function.update flags sprtThread (Function.update (flags sprtThread) state mode)

/-- `real_thread_state_pending`: is a wake-up or a kill pending?  Both are taken back. -/
def realThreadStatePending (flags : ThreadFlags) (sprtThread : ObjPtr) : Bool × ThreadFlags :=
  let isWakeup := flags sprtThread .wakeup
  let isKilled := flags sprtThread .kill
  let flags := realThreadStateSignal flags sprtThread .wakeup false
  let flags := realThreadStateSignal flags sprtThread .kill false
  (isWakeup || isKilled, flags)

/-! ## Wait queues -/

/-- What has a `struct list_head`: a wait queue head, and the `struct wait_queue` that a thread in
`__wait_event` keeps on its stack. -/
inductive WaitNode where
  | task (sprtWqh : ObjPtr)
  | link (sprtTask : ObjPtr)
  deriving DecidableEq, Repr

/-- `add_wait_queue`. -/
def addWaitQueue (l : Links WaitNode) (sprtWqh sprtTask : ObjPtr) : Links WaitNode :=
  if mrtListHeadEmpty l (.link sprtTask) = false then l
  else listHeadAddTail l (.task sprtWqh) (.link sprtTask)

/-- `remove_wait_queue`. -/
def removeWaitQueue (l : Links WaitNode) (sprtTask : ObjPtr) : Links WaitNode :=
  listHeadDel l (.link sprtTask)

/-- `__wake_up_common`: only a thread that shows the flag `state` is woken. -/
def wakeUpThread (state : ThreadSig) (sprtThread : ObjPtr) (flags : ThreadFlags) : ThreadFlags :=
  if flags sprtThread state = false then flags
  else realThreadStateSignal flags sprtThread .wakeup true

/-- The body of the loop in `wake_up_common`. -/
def wakeUpEntry (state : ThreadSig) : WaitNode → ThreadFlags → Except Stop ThreadFlags
  | .task _, _ => .error .fault
  | .link sprtTask, flags => .ok (wakeUpThread state sprtTask flags)

/-- `wake_up_common`. -/
def wakeUpCommon (l : Links WaitNode) (flags : ThreadFlags) (sprtWqh : ObjPtr)
    (state : ThreadSig) : Except Stop ThreadFlags :=
  if mrtListHeadEmpty l (.task sprtWqh) then .ok flags
  else
    let sprtWq := l.next (.task sprtWqh)
    foreachEntrySafe (fun _ => l.next) (.task sprtWqh) (wakeUpEntry state) walkRounds sprtWq
      (l.next sprtWq) flags

/-! ## The machine -/

/-- Where a thread is inside `__wait_event`. -/
inductive WaitAt where
  /-- added, before `real_thread_state_signal(.., true)` -/
  | signal
  /-- before the test of the condition -/
  | test
  /-- before the test for a pending signal -/
  | pending
  /-- inside `func` -/
  | func
  /-- out of the loop, before `real_thread_state_signal(.., false)` -/
  | clear
  /-- before `remove_wait_queue` -/
  | remove
  deriving DecidableEq, Repr

/-- A thread is in no wait, or in one on `sprtWqh`. -/
inductive WaitPc where
  | out
  | inside (sprtWqh : ObjPtr) (sigEnable : Bool) (place : WaitAt)
  deriving DecidableEq, Repr

/-- What the history records: a thread is put on a queue, `wake_up` (`normal`) or
`wake_up_interruptible` (`intr`) is called, and a wait leaves its loop, with what it last found its
condition to be. -/
inductive WaitEvent where
  | added (sprtTask sprtWqh : ObjPtr)
  | woken (sprtWqh : ObjPtr) (state : ThreadSig)
  | ended (sprtTask sprtWqh : ObjPtr) (sigEnable condition : Bool)
  deriving DecidableEq, Repr

/-- The links of all queues, the flags, the threads, and the history, the newest event first. -/
structure Waiters where
  links : Links WaitNode
  flags : ThreadFlags
  pc : ObjPtr → WaitPc
  log : List WaitEvent

/-- Every queue is empty and no flag is set. -/
def Waiters.start : Waiters where
  links := ⟨id, id⟩
  flags := fun _ _ => false
  pc := fun _ => .out
  log := []

/-- A thread calls `__wait_event`, or goes on in the wait it is in (`condition` is what the test of
its condition gives, when that is what comes next); or somebody calls `wake_up` or
`wake_up_interruptible`. -/
inductive WaitMove where
  | wait (sprtTask sprtWqh : ObjPtr) (sigEnable : Bool)
  | next (sprtTask : ObjPtr) (condition : Bool)
  | wakeUp (sprtWqh : ObjPtr)
  | wakeUpInterruptible (sprtWqh : ObjPtr)
  deriving DecidableEq, Repr

/-- `state` of `__wait_event`. -/
def waitState (sigEnable : Bool) : ThreadSig := if sigEnable then .intr else .normal

/-- Thread `t` goes on in its wait on `q`. -/
def waitNext (s : Waiters) (t q : ObjPtr) (sigEnable condition : Bool) : WaitAt → Waiters
  | .signal =>
    { s with
      flags := realThreadStateSignal s.flags t (waitState sigEnable) true
      pc := Function.update s.pc t (.inside q sigEnable .test) }
  | .test =>
    if condition then
      { s with
        pc := Function.update s.pc t (.inside q sigEnable .clear)
        log := .ended t q sigEnable true :: s.log }
    else { s with pc := Function.update s.pc t (.inside q sigEnable .pending) }
  | .pending =>
    -- `__wait_is_interruptible` comes first: another wait does not look for a signal at all
    if s.flags t .intr then
      let (pending, flags) := realThreadStatePending s.flags t
      if pending then
        { s with
          flags
          pc := Function.update s.pc t (.inside q sigEnable .clear)
          log := .ended t q sigEnable false :: s.log }
      else { s with flags, pc := Function.update s.pc t (.inside q sigEnable .func) }
    else { s with pc := Function.update s.pc t (.inside q sigEnable .func) }
  | .func => { s with pc := Function.update s.pc t (.inside q sigEnable .test) }
  | .clear =>
    { s with
      flags := realThreadStateSignal s.flags t (waitState sigEnable) false
      pc := Function.update s.pc t (.inside q sigEnable .remove) }
  | .remove =>
    { s with
      links := removeWaitQueue s.links t
      pc := Function.update s.pc t .out }

/-- A call of `wake_up` or `wake_up_interruptible`. -/
def wakeStep (s : Waiters) (q : ObjPtr) (state : ThreadSig) : Option Waiters :=
  match wakeUpCommon s.links s.flags q state with
  | .error _ => none
  | .ok flags => some { s with flags, log := .woken q state :: s.log }

/-- One step of the machine.  A thread that is in a wait does not call `__wait_event`, and one that
is in none has nothing to go on with: such a move changes nothing. -/
def waitStep (s : Waiters) : WaitMove → Option Waiters
  | .wait t q sigEnable =>
    match s.pc t with
    | .inside _ _ _ => some s
    | .out =>
      some { s with
        links := addWaitQueue (initListHead s.links (.link t)) q t
        pc := Function.update s.pc t (.inside q sigEnable .signal)
        log := .added t q :: s.log }
  | .next t condition =>
    match s.pc t with
    | .inside q sigEnable place => some (waitNext s t q sigEnable condition place)
    | .out => some s
  | .wakeUp q => wakeStep s q .normal
  | .wakeUpInterruptible q => wakeStep s q .intr

/-! ## What a wake-up does to the flags -/

section Flags

variable {flags : ThreadFlags} {t u : ObjPtr} {state sig : ThreadSig} {mode : Bool}

theorem realThreadStateSignal_apply :
    realThreadStateSignal flags t state mode u sig =
      if u = t ∧ sig = state then mode else flags u sig := by
  unfold realThreadStateSignal
  by_cases hu : u = t
  · subst hu
    by_cases hsig : sig = state
    · subst hsig
      simp
    · simp [hsig]
  · simp [hu]

@[simp] theorem realThreadStateSignal_self :
    realThreadStateSignal flags t state mode t = Function.update (flags t) state mode :=
  Function.update_self ..

/-- A signal is an affair of one thread. -/
@[simp] theorem realThreadStateSignal_other (hu : u ≠ t) :
    realThreadStateSignal flags t state mode u = flags u := by
  funext sig
  rw [realThreadStateSignal_apply, if_neg fun h => hu h.1]

theorem wakeUpThread_iff :
    wakeUpThread state t flags u sig = true ↔
      flags u sig = true ∨ (sig = .wakeup ∧ u = t ∧ flags u state = true) := by
  unfold wakeUpThread
  by_cases hshow : flags t state = false
  · rw [if_pos hshow]
    constructor
    · exact Or.inl
    · rintro (h | ⟨-, rfl, h⟩)
      · exact h
      · rw [hshow] at h
        cases h
  · rw [if_neg hshow, realThreadStateSignal_apply]
    rw [Bool.not_eq_false] at hshow
    split
    · rename_i h
      obtain ⟨rfl, rfl⟩ := h
      simp [hshow]
    · rename_i h
      constructor
      · exact Or.inl
      · rintro (h' | ⟨rfl, rfl, -⟩)
        · exact h'
        · exact absurd ⟨rfl, rfl⟩ h

/-- Going through a queue sets the wake-up flag of its members that show `state`, and nothing
else. -/
theorem foldl_wakeUpThread_iff {ts : List ObjPtr} (hstate : state ≠ .wakeup) :
    ts.foldl (fun flags t => wakeUpThread state t flags) flags u sig = true ↔
      flags u sig = true ∨ (sig = .wakeup ∧ u ∈ ts ∧ flags u state = true) := by
  induction ts generalizing flags with
  | nil => simp
  | cons t ts ih =>
    have hkeep : wakeUpThread state t flags u state = true ↔ flags u state = true := by
      rw [wakeUpThread_iff]
      constructor
      · rintro (h | ⟨h, -⟩)
        · exact h
        · exact absurd h hstate
      · exact Or.inl
    rw [List.foldl_cons, ih, hkeep, wakeUpThread_iff, List.mem_cons]
    tauto

end Flags

/-- The rings of all wait queues. -/
abbrev WaitRings (l : Links WaitNode) (members : ObjPtr → List ObjPtr) : Prop :=
  Rings l (fun _ => True) .task (fun _ => .link) members

theorem wakeUpCommon_eq {l : Links WaitNode} {members : ObjPtr → List ObjPtr}
    (h : WaitRings l members) (flags : ThreadFlags) (q : ObjPtr) (state : ThreadSig) :
    wakeUpCommon l flags q state =
      .ok ((members q).foldl (fun flags t => wakeUpThread state t flags) flags) := by
  have r := h.ring q trivial
  unfold wakeUpCommon
  by_cases hempty : mrtListHeadEmpty l (.task q) = true
  · have hnil : members q = [] := List.map_eq_nil_iff.mp ((mrtListHeadEmpty_iff r).mp hempty)
    rw [if_pos hempty, hnil]
    rfl
  · have hlen : (members q).length < walkRounds := by
      have hnodup : (members q).Nodup := r.members_nodup.of_map
      have := ObjPtr.length_of_nodup hnodup
      unfold walkRounds
      omega
    rw [if_neg hempty]
    exact foreachEntrySafe_path r.path r.not_mem (fun _ _ _ => rfl) hlen flags

/-! ## The queues along a run -/

/-- The threads on a queue are those in a wait on it. -/
structure Parked (s : Waiters) (members : ObjPtr → List ObjPtr) : Prop where
  rings : WaitRings s.links members
  mem_iff : ∀ t q, t ∈ members q ↔ ∃ sigEnable place, s.pc t = .inside q sigEnable place

namespace Parked

variable {s : Waiters} {members : ObjPtr → List ObjPtr} {t q : ObjPtr} {sigEnable : Bool}
  {place : WaitAt}

/-- A thread that is in no wait is on no queue. -/
theorem link_outside (h : Parked s members) (hout : s.pc t = .out) (p : ObjPtr) :
    WaitNode.link t ∉ ringNodes WaitNode.task (fun _ => .link) members p := by
  intro hmem
  simp only [ringNodes, List.mem_cons, reduceCtorEq, false_or] at hmem
  obtain ⟨u, hu, heq⟩ := List.mem_map.mp hmem
  cases heq
  obtain ⟨i, a, hpc⟩ := (h.mem_iff t p).mp hu
  rw [hout] at hpc
  cases hpc

/-- **A call of `__wait_event`** puts the thread at the end of the queue. -/
theorem wait (h : Parked s members) (hout : s.pc t = .out) (log : List WaitEvent) :
    Parked
      { s with
        links := addWaitQueue (initListHead s.links (.link t)) q t
        pc := Function.update s.pc t (.inside q sigEnable .signal), log }
      (Function.update members q (members q ++ [t])) := by
  have h₁ : WaitRings (initListHead s.links (.link t)) members := by
    rw [initListHead_eq]
    exact h.rings.selfLink fun p _ => h.link_outside hout p
  have hnew : mrtListHeadEmpty (initListHead s.links (.link t)) (.link t) = true := by
    simp [initListHead_eq, mrtListHeadEmpty, Links.selfLink]
  refine ⟨?_, fun u p => ?_⟩
  · show WaitRings (addWaitQueue (initListHead s.links (.link t)) q t) _
    rw [addWaitQueue, if_neg (by simp [hnew]), listHeadAddTail_eq (h₁.ring q trivial)]
    exact h₁.insert trivial (List.append_nil _).symm fun p _ => h.link_outside hout p
  · by_cases hp : p = q
    · subst hp
      rw [Function.update_self, List.mem_append, List.mem_singleton, h.mem_iff]
      by_cases hu : u = t
      · subst hu
        simp
      · simp [hu]
    · rw [Function.update_of_ne hp, h.mem_iff]
      by_cases hu : u = t
      · subst hu
        have hqp : q ≠ p := Ne.symm hp
        simp [hout, hqp]
      · simp [hu]

/-- A thread that goes on in its wait stays on its queue. -/
theorem stay (h : Parked s members) (hin : s.pc t = .inside q sigEnable place) (place' : WaitAt)
    (flags : ThreadFlags) (log : List WaitEvent) :
    Parked { s with flags, pc := Function.update s.pc t (.inside q sigEnable place'), log }
      members := by
  refine ⟨h.rings, fun u p => ?_⟩
  rw [h.mem_iff]
  by_cases hu : u = t
  · subst hu
    simp [hin]
  · simp [hu]

/-- **`remove_wait_queue`** at the end of a wait. -/
theorem remove (h : Parked s members) (hin : s.pc t = .inside q sigEnable place) :
    ∃ members', Parked { s with
      links := removeWaitQueue s.links t
      pc := Function.update s.pc t .out } members' := by
  have hmem : t ∈ members q := (h.mem_iff t q).mpr ⟨sigEnable, place, hin⟩
  obtain ⟨pre, post, hsplit⟩ := List.append_of_mem hmem
  have hnodup : (members q).Nodup := (h.rings.ring q trivial).members_nodup.of_map
  refine ⟨Function.update members q (pre ++ post), ?_, fun u p => ?_⟩
  · show WaitRings (removeWaitQueue s.links t) _
    rw [removeWaitQueue, listHeadDel_eq]
    exact h.rings.remove trivial hsplit
  · by_cases hu : u = t
    · subst hu
      rw [hsplit] at hnodup
      have hoff : u ∉ pre ++ post := by
        have := List.nodup_middle.mp hnodup
        exact (List.nodup_cons.mp this).1
      have hother : p ≠ q → u ∉ members p := by
        intro hp hup
        obtain ⟨i, a, hpc⟩ := (h.mem_iff u p).mp hup
        rw [hin] at hpc
        cases hpc
        exact hp rfl
      by_cases hp : p = q
      · subst hp
        simpa using hoff
      · simpa [hp] using hother hp
    · by_cases hp : p = q
      · subst hp
        have h₁ := h.mem_iff u p
        rw [hsplit] at h₁
        simpa [hu] using h₁
      · simpa [hp, hu] using h.mem_iff u p

end Parked

/-! ## Whose wake-up it was -/

/-- `mid` is the history since the thread was last added to a queue, which is `q`. -/
def Since (log : List WaitEvent) (t q : ObjPtr) (mid : List WaitEvent) : Prop :=
  (∃ rest, log = mid ++ .added t q :: rest) ∧ ∀ p, .added t p ∉ mid

/-- `wake_up_interruptible` has been called on the queue since the thread was added to it. -/
def WokenSince (log : List WaitEvent) (t q : ObjPtr) : Prop :=
  ∃ mid, Since log t q mid ∧ .woken q .intr ∈ mid

/-- Every interruptible wait that ended with its condition false ended after a
`wake_up_interruptible` on its own queue, called since the thread was added to it. -/
def OwnWakeUps (s : Waiters) : Prop :=
  ∀ newer t q older, s.log = newer ++ .ended t q true false :: older → WokenSince older t q

/-- An interruptible wait is not entered with the wake-up flag set. -/
def WaitFits (s : Waiters) : WaitMove → Prop
  | .wait t _ true => s.pc t = .out → s.flags t .wakeup = false
  | _ => True

instance (s : Waiters) : ∀ move, Decidable (WaitFits s move)
  | .wait _ _ true => inferInstanceAs (Decidable (_ → _))
  | .wait _ _ false | .next _ _ | .wakeUp _ | .wakeUpInterruptible _ => isTrue trivial

theorem Since.cons {log mid : List WaitEvent} {t q : ObjPtr} {e : WaitEvent}
    (h : Since log t q mid) (he : ∀ p, e ≠ .added t p) : Since (e :: log) t q (e :: mid) := by
  obtain ⟨⟨rest, rfl⟩, hmid⟩ := h
  refine ⟨⟨rest, rfl⟩, fun p hp => ?_⟩
  rcases List.mem_cons.mp hp with rfl | hp
  · exact he p rfl
  · exact hmid p hp

theorem WokenSince.cons {log : List WaitEvent} {t q : ObjPtr} {e : WaitEvent}
    (h : WokenSince log t q) (he : ∀ p, e ≠ .added t p) : WokenSince (e :: log) t q := by
  obtain ⟨mid, hmid, hwoken⟩ := h
  exact ⟨e :: mid, hmid.cons he, List.mem_cons_of_mem e hwoken⟩

/-- What is true of a thread: if it shows that it cannot be interrupted it is in such a wait, and if
it is in an interruptible wait and its wake-up flag is set it has been woken through its queue. -/
structure Honest (log : List WaitEvent) (t : ObjPtr) (flags : ThreadSig → Bool) (pc : WaitPc) :
    Prop where
  normal : flags .normal = true → ∃ q place, place ≠ .remove ∧ pc = .inside q false place
  kill : flags .kill = false
  since : ∀ q sigEnable place, pc = .inside q sigEnable place → ∃ mid, Since log t q mid
  wakeup : ∀ q place, pc = .inside q true place → flags .wakeup = true → WokenSince log t q

namespace Honest

variable {log : List WaitEvent} {t q : ObjPtr} {flags flags' : ThreadSig → Bool} {pc : WaitPc}
  {sigEnable : Bool} {place place' : WaitAt}

/-- Events that do not add the thread leave it as it is. -/
theorem cons {e : WaitEvent} (h : Honest log t flags pc) (he : ∀ p, e ≠ .added t p) :
    Honest (e :: log) t flags pc where
  normal := h.normal
  kill := h.kill
  since := by
    intro q i a hin
    obtain ⟨mid, hmid⟩ := h.since q i a hin
    exact ⟨e :: mid, hmid.cons he⟩
  wakeup := fun q a hin hflag => (h.wakeup q a hin hflag).cons he

/-- The thread goes on in its wait.  It may change its flags, but not set the one for wake-ups, nor
show that it cannot be interrupted when it can. -/
theorem stay (h : Honest log t flags (.inside q sigEnable place))
    (hnormal : flags' .normal = true →
      place' ≠ .remove ∧ (sigEnable = true → flags .normal = true))
    (hkill : flags' .kill = false) (hwakeup : flags' .wakeup = true → flags .wakeup = true) :
    Honest log t flags' (.inside q sigEnable place') where
  normal := by
    intro hflag
    cases sigEnable with
    | false => exact ⟨q, place', (hnormal hflag).1, rfl⟩
    | true =>
      obtain ⟨p, a, -, hpc⟩ := h.normal ((hnormal hflag).2 rfl)
      cases hpc
  kill := hkill
  since := by
    intro p i a hin
    cases hin
    exact h.since q sigEnable place rfl
  wakeup := by
    intro p a hin hflag
    cases hin
    exact h.wakeup q place rfl (hwakeup hflag)

/-- The thread leaves its wait. -/
theorem leave (h : Honest log t flags (.inside q sigEnable .remove)) :
    Honest log t flags .out where
  normal := by
    intro hflag
    obtain ⟨p, a, ha, hpc⟩ := h.normal hflag
    cases hpc
    exact absurd rfl ha
  kill := h.kill
  since := by
    intro q i a hin
    cases hin
  wakeup := by
    intro q a hin
    cases hin

/-- The thread enters a wait; if it can be interrupted, without the wake-up flag set. -/
theorem enter (h : Honest log t flags .out) (hclean : sigEnable = true → flags .wakeup = false) :
    Honest (.added t q :: log) t flags (.inside q sigEnable .signal) where
  normal := by
    intro hflag
    obtain ⟨p, a, -, hpc⟩ := h.normal hflag
    cases hpc
  kill := h.kill
  since := by
    intro p i a hin
    cases hin
    exact ⟨[], ⟨log, rfl⟩, fun _ => List.not_mem_nil⟩
  wakeup := by
    intro p a hin hflag
    cases hin
    rw [hclean rfl] at hflag
    cases hflag

end Honest

/-- Every thread is honest, and so are the waits that ended. -/
structure Flagged (s : Waiters) : Prop where
  each : ∀ t, Honest s.log t (s.flags t) (s.pc t)
  own : OwnWakeUps s

theorem Flagged.start : Flagged Waiters.start where
  each := by
    intro t
    refine ⟨fun h => ?_, rfl, fun q i a h => ?_, fun q a h => ?_⟩ <;> cases h
  own := by
    intro newer t q older h
    have := congrArg List.length h
    simp [Waiters.start] at this

/-- The history grows by an event that, if it is the end of a wait, is accounted for. -/
theorem OwnWakeUps.cons {s s' : Waiters} {e : WaitEvent} (h : OwnWakeUps s)
    (hlog : s'.log = e :: s.log)
    (hend : ∀ t q, e = .ended t q true false → WokenSince s.log t q) : OwnWakeUps s' := by
  intro newer t q older hsplit
  rw [hlog] at hsplit
  cases newer with
  | nil =>
    simp only [List.nil_append, List.cons.injEq] at hsplit
    rw [← hsplit.2]
    exact hend t q hsplit.1
  | cons e' newer =>
    simp only [List.cons_append, List.cons.injEq] at hsplit
    exact h newer t q older hsplit.2

/-- One thread moves: what holds of the others is as before, up to the event that is recorded. -/
theorem Flagged.move {s s' : Waiters} {t : ObjPtr} (h : Flagged s)
    (hpc : ∀ u, u ≠ t → s'.pc u = s.pc u) (hflags : ∀ u, u ≠ t → s'.flags u = s.flags u)
    (hlog : s'.log = s.log ∨ ∃ e, s'.log = e :: s.log ∧ (∀ u p, u ≠ t → e ≠ .added u p) ∧
      ∀ t q, e = .ended t q true false → WokenSince s.log t q)
    (ht : Honest s'.log t (s'.flags t) (s'.pc t)) : Flagged s' := by
  refine ⟨fun u => ?_, ?_⟩
  · by_cases hu : u = t
    · subst hu
      exact ht
    · rw [hpc u hu, hflags u hu]
      rcases hlog with hlog | ⟨e, hlog, hadd, -⟩
      · rw [hlog]
        exact h.each u
      · rw [hlog]
        exact (h.each u).cons fun p => hadd u p hu
  · rcases hlog with hlog | ⟨e, hlog, -, hend⟩
    · intro newer t q older hsplit
      rw [hlog] at hsplit
      exact h.own newer t q older hsplit
    · exact h.own.cons hlog hend

/-- A thread that goes on shows, or no longer shows, which kind of wait it is in. -/
theorem Honest.signal {log : List WaitEvent} {t q : ObjPtr} {flags : ThreadSig → Bool}
    {sigEnable mode : Bool} {place place' : WaitAt}
    (h : Honest log t flags (.inside q sigEnable place))
    (hplace : mode = true → place' ≠ .remove) (hnormal : sigEnable = true → place' ≠ .remove ∨
      flags .normal = false) :
    Honest log t (Function.update flags (waitState sigEnable) mode)
      (.inside q sigEnable place') := by
  cases sigEnable with
  | false =>
    refine h.stay (fun hn => ⟨hplace ?_, nofun⟩) ?_ ?_
    · simpa [waitState] using hn
    · simpa [waitState] using h.kill
    · simp [waitState]
  | true =>
    refine h.stay (fun hn => ?_) ?_ ?_
    · have hn' : flags .normal = true := by simpa [waitState] using hn
      rw [hn'] at hnormal
      exact ⟨(hnormal rfl).resolve_right nofun, fun _ => hn'⟩
    · simpa [waitState] using h.kill
    · simp [waitState]

/-- Looking for a signal only takes flags back. -/
theorem Honest.pending {log : List WaitEvent} {t q : ObjPtr} {flags : ThreadFlags}
    {sigEnable : Bool} {place place' : WaitAt}
    (h : Honest log t (flags t) (.inside q sigEnable place)) (hplace : place' ≠ .remove) :
    Honest log t ((realThreadStatePending flags t).2 t) (.inside q sigEnable place') := by
  refine h.stay (fun hn => ⟨hplace, fun _ => ?_⟩) ?_ ?_
  · simpa [realThreadStatePending, realThreadStateSignal_apply] using hn
  · simp [realThreadStatePending]
  · simp [realThreadStatePending]

/-- **`__wait_event`, step by step.** -/
theorem waitNext_flagged {s : Waiters} {t q : ObjPtr} {sigEnable : Bool} {place : WaitAt}
    (h : Flagged s) (hin : s.pc t = .inside q sigEnable place) (condition : Bool) :
    Flagged (waitNext s t q sigEnable condition place) := by
  have ht := h.each t
  rw [hin] at ht
  have hpc : ∀ pc' u, u ≠ t → Function.update s.pc t pc' u = s.pc u :=
    fun pc' u hu => Function.update_of_ne hu ..
  have hstay : ∀ place', place' ≠ .remove →
      Honest s.log t (s.flags t) (.inside q sigEnable place') :=
    fun place' hp => ht.stay (fun hn => ⟨hp, fun _ => hn⟩) ht.kill id
  have hpending : ∀ u, u ≠ t → (realThreadStatePending s.flags t).2 u = s.flags u := by
    intro u hu
    simp [realThreadStatePending, hu]
  cases place with
  | signal =>
    refine h.move (hpc _) (fun u hu => realThreadStateSignal_other hu) (Or.inl rfl) ?_
    have hnew : Honest s.log t (Function.update (s.flags t) (waitState sigEnable) true)
        (.inside q sigEnable .test) := ht.signal nofun fun _ => Or.inl nofun
    simpa [waitNext] using hnew
  | test =>
    cases condition with
    | true =>
      refine h.move (hpc _) (fun _ _ => rfl)
        (Or.inr ⟨.ended t q sigEnable true, rfl, fun _ _ _ => nofun, nofun⟩) ?_
      have hnew := (hstay .clear nofun).cons (e := .ended t q sigEnable true) fun _ => nofun
      simpa [waitNext] using hnew
    | false =>
      refine h.move (hpc _) (fun _ _ => rfl) (Or.inl rfl) ?_
      simpa [waitNext] using hstay .pending nofun
  | pending =>
    by_cases hintr : s.flags t .intr = true
    · by_cases hsig : (realThreadStatePending s.flags t).1 = true
      · -- the wait ends on its wake-up flag: the kill flag is never set
        have hwake : s.flags t .wakeup = true := by
          simpa [realThreadStatePending, ht.kill] using hsig
        simp only [waitNext, hintr, hsig, if_true]
        refine h.move (hpc _) hpending
          (Or.inr ⟨.ended t q sigEnable false, rfl, fun _ _ _ => nofun, ?_⟩) ?_
        · intro u p heq
          cases heq
          exact ht.wakeup q .pending rfl hwake
        · have hnew := ht.pending (show WaitAt.clear ≠ .remove from nofun)
          simpa using hnew.cons (e := .ended t q sigEnable false) fun _ => nofun
      · simp only [waitNext, hintr, hsig, if_true]
        refine h.move (hpc _) hpending (Or.inl rfl) ?_
        simpa using ht.pending (show WaitAt.func ≠ .remove from nofun)
    · simp only [waitNext, hintr]
      refine h.move (hpc _) (fun _ _ => rfl) (Or.inl rfl) ?_
      simpa using hstay .func nofun
  | func =>
    refine h.move (hpc _) (fun _ _ => rfl) (Or.inl rfl) ?_
    simpa [waitNext] using hstay .test nofun
  | clear =>
    refine h.move (hpc _) (fun u hu => realThreadStateSignal_other hu) (Or.inl rfl) ?_
    have hoff : sigEnable = true → s.flags t .normal = false := by
      rintro rfl
      rw [← Bool.not_eq_true]
      intro hn
      obtain ⟨p, a, -, heq⟩ := ht.normal hn
      cases heq
    have hnew : Honest s.log t (Function.update (s.flags t) (waitState sigEnable) false)
        (.inside q sigEnable .remove) := ht.signal nofun fun hi => Or.inr (hoff hi)
    simpa [waitNext] using hnew
  | remove =>
    refine h.move (hpc _) (fun _ _ => rfl) (Or.inl rfl) ?_
    simpa [waitNext] using ht.leave

/-- A thread that enters an interruptible wait without the flag set is in order. -/
theorem wait_flagged {s : Waiters} {t q : ObjPtr} {sigEnable : Bool} (links : Links WaitNode)
    (h : Flagged s) (hout : s.pc t = .out)
    (hclean : sigEnable = true → s.flags t .wakeup = false) :
    Flagged
      { s with
        links
        pc := Function.update s.pc t (.inside q sigEnable .signal)
        log := .added t q :: s.log } := by
  have ht := h.each t
  rw [hout] at ht
  refine h.move (fun u hu => Function.update_of_ne hu ..) (fun _ _ => rfl)
    (Or.inr ⟨.added t q, rfl, fun u p hu heq => ?_, nofun⟩) ?_
  · cases heq
    exact hu rfl
  · simpa using ht.enter hclean

/-- **A wake-up** of either kind.  Only a thread in a wait that cannot be interrupted is woken by
`wake_up`; one that is woken by `wake_up_interruptible` is on the queue of the call. -/
theorem wakeStep_flagged {s s' : Waiters} {members : ObjPtr → List ObjPtr} {q : ObjPtr}
    {state : ThreadSig} (hp : Parked s members) (h : Flagged s)
    (hstate : state = .normal ∨ state = .intr)
    (hflags : s'.flags = (members q).foldl (fun flags t => wakeUpThread state t flags) s.flags)
    (hpc : s'.pc = s.pc) (hlog : s'.log = .woken q state :: s.log) : Flagged s' := by
  have hne : state ≠ .wakeup := by rcases hstate with rfl | rfl <;> nofun
  have hiff : ∀ t sig, s'.flags t sig = true ↔
      s.flags t sig = true ∨ (sig = .wakeup ∧ t ∈ members q ∧ s.flags t state = true) := by
    intro t sig
    rw [hflags]
    exact foldl_wakeUpThread_iff hne
  refine ⟨fun t => ?_, h.own.cons hlog nofun⟩
  have ht := (h.each t).cons (e := .woken q state) fun _ => nofun
  rw [hpc, hlog]
  refine ⟨fun hflag => ht.normal ?_, ?_, ht.since, fun p a hin hflag => ?_⟩
  · exact ((hiff t .normal).mp hflag).resolve_right nofun
  · rw [← Bool.not_eq_true, hiff, ht.kill]
    nofun
  · rcases (hiff t .wakeup).mp hflag with hflag | ⟨-, hmem, hshow⟩
    · exact ht.wakeup p a hin hflag
    · -- the flag is set by this very call, and the thread is in an interruptible wait
      obtain ⟨i, b, hpc'⟩ := (hp.mem_iff t q).mp hmem
      rw [hin] at hpc'
      cases hpc'
      rcases hstate with rfl | rfl
      · obtain ⟨p', b', -, heq⟩ := ht.normal hshow
        rw [hin] at heq
        cases heq
      · obtain ⟨mid, hmid⟩ := (h.each t).since q true a hin
        exact ⟨.woken q .intr :: mid, hmid.cons fun _ => nofun, List.mem_cons_self ..⟩

/-- The invariant of the machine. -/
def WaitInv (s : Waiters) : Prop := (∃ members, Parked s members) ∧ Flagged s

theorem waitInv_start : WaitInv Waiters.start := by
  refine ⟨⟨fun _ => [], ⟨fun q _ => Ring.nil_iff.mpr ⟨rfl, rfl⟩, fun p q _ _ hpq => ?_⟩, ?_⟩,
    Flagged.start⟩
  · simp only [ringNodes, List.map_nil, List.disjoint_singleton, List.mem_singleton]
    intro heq
    cases heq
    exact hpq rfl
  · intro t q
    simp [Waiters.start]

theorem waitNext_parked {s : Waiters} {members : ObjPtr → List ObjPtr} {t q : ObjPtr}
    {sigEnable : Bool} {place : WaitAt} (h : Parked s members)
    (hin : s.pc t = .inside q sigEnable place) (condition : Bool) :
    ∃ members', Parked (waitNext s t q sigEnable condition place) members' := by
  cases place with
  | signal => exact ⟨members, h.stay hin _ _ _⟩
  | test => cases condition <;> exact ⟨members, h.stay hin _ _ _⟩
  | pending =>
    simp only [waitNext]
    split
    · split <;> exact ⟨members, h.stay hin _ _ _⟩
    · exact ⟨members, h.stay hin _ _ _⟩
  | func => exact ⟨members, h.stay hin _ _ _⟩
  | clear => exact ⟨members, h.stay hin _ _ _⟩
  | remove => exact h.remove hin

theorem wakeStep_inv {s : Waiters} {q : ObjPtr} {state : ThreadSig} (h : WaitInv s)
    (hstate : state = .normal ∨ state = .intr) :
    ∃ s', wakeStep s q state = some s' ∧ WaitInv s' := by
  obtain ⟨⟨members, hp⟩, hf⟩ := h
  have hcall := wakeUpCommon_eq hp.rings s.flags q state
  refine ⟨{ s with
    flags := (members q).foldl (fun flags t => wakeUpThread state t flags) s.flags
    log := .woken q state :: s.log }, by rw [wakeStep, hcall], ⟨members, hp.rings, hp.mem_iff⟩, ?_⟩
  exact wakeStep_flagged hp hf hstate rfl rfl rfl

/-- **One step** of a thread or of a caller keeps the invariant. -/
theorem waitStep_inv {s : Waiters} {move : WaitMove} (h : WaitInv s) (hfit : WaitFits s move) :
    ∃ s', waitStep s move = some s' ∧ WaitInv s' := by
  cases move with
  | wait t q sigEnable =>
    cases hpc : s.pc t with
    | inside p i a => exact ⟨s, by simp only [waitStep, hpc], h⟩
    | out =>
      have hstep : waitStep s (.wait t q sigEnable) = some { s with
          links := addWaitQueue (initListHead s.links (.link t)) q t
          pc := Function.update s.pc t (.inside q sigEnable .signal)
          log := .added t q :: s.log } := by simp only [waitStep, hpc]
      obtain ⟨⟨members, hp⟩, hf⟩ := h
      refine ⟨_, hstep, ⟨_, hp.wait hpc _⟩, wait_flagged _ hf hpc ?_⟩
      rintro rfl
      exact hfit hpc
  | next t condition =>
    cases hpc : s.pc t with
    | inside q i a =>
      refine ⟨waitNext s t q i condition a, by simp only [waitStep, hpc], ?_⟩
      obtain ⟨⟨members, hp⟩, hf⟩ := h
      exact ⟨waitNext_parked hp hpc condition, waitNext_flagged hf hpc condition⟩
    | out => exact ⟨s, by simp only [waitStep, hpc], h⟩
  | wakeUp q => exact wakeStep_inv h (Or.inl rfl)
  | wakeUpInterruptible q => exact wakeStep_inv h (Or.inr rfl)

/-- **Wake-ups belong to the wait they wake.**  In every run in which no thread enters an
interruptible wait with its wake-up flag set, every call returns, and at every moment every
interruptible wait that ended with its condition false ended after a `wake_up_interruptible` on its
own queue, called since the thread was added to it. -/
theorem woken_on_own_queue (moves : List WaitMove)
    (h : Meets waitStep WaitFits Waiters.start moves) :
    (∃ s, exec waitStep Waiters.start moves = some s) ∧
      Always waitStep OwnWakeUps Waiters.start moves := by
  obtain ⟨hexec, halways⟩ := run_of_meets (fun s move => waitStep_inv) waitInv_start h
  exact ⟨hexec, halways.imp fun s hs => hs.2.own⟩

/-- A thread and two wait queues. -/
def waiter : ObjPtr := ⟨0x21000, by decide⟩

def queueA : ObjPtr := ⟨0x22000, by decide⟩

def queueB : ObjPtr := ⟨0x23000, by decide⟩

/-- An interruptible wait on one queue is woken, and the next one, on the other queue, ends on its
condition. -/
theorem woken_on_own_queue_twice :
    Always waitStep OwnWakeUps Waiters.start
      [.wait waiter queueA true, .next waiter false, .next waiter false, .next waiter false,
        .wakeUp queueA, .next waiter false, .wakeUpInterruptible queueB, .next waiter false,
        .wakeUpInterruptible queueA, .next waiter false, .next waiter false, .next waiter false,
        .next waiter false, .wait waiter queueB true, .next waiter false, .next waiter true,
        .next waiter false, .next waiter false] :=
  (woken_on_own_queue _ (by decide +kernel)).2

/-- A wake-up that comes when the condition of its wait holds already ends the next wait of the
thread, on another queue. -/
theorem woken_on_other_queue :
    ¬ ∀ (moves : List WaitMove) (s : Waiters),
      exec waitStep Waiters.start moves = some s → OwnWakeUps s := by
  intro h
  have hs := h [.wait waiter queueA true, .next waiter false, .wakeUpInterruptible queueA,
    .next waiter true, .next waiter true, .next waiter true, .wait waiter queueB true,
    .next waiter false, .next waiter false, .next waiter false] _ rfl [] waiter queueB
    [.added waiter queueB, .ended waiter queueA true true, .woken queueA .intr,
      .added waiter queueA] (by decide +kernel)
  obtain ⟨mid, ⟨⟨rest, hrest⟩, hadd⟩, hwoken⟩ := hs
  -- the thread was put on the second queue by the event right before the end
  cases mid with
  | nil => cases hwoken
  | cons e mid =>
    simp only [List.cons_append, List.cons.injEq] at hrest
    exact hadd queueB (List.mem_cons.mpr (Or.inl hrest.1))

end HeavenFox.Kernel
