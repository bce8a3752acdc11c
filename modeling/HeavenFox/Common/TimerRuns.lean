/-
# HeavenFox.Common.TimerRuns -- which timers are linked, and which are fired

`Pending` reads off a history of calls which timers should be linked: those whose last
`mod_timer` is later than their last `del_timer` and `setup_timer`.  `linked_pending` says
that these are linked, each once.

One pass of `do_timer_event` calls the entries of the linked timers that are due.  An
entry that deletes its own timer and arms it again puts it at the end of the list, from
where the traversal goes on to the head: the timers behind it have to wait for the next
tick (`timer_pass_iff`).
-/
import HeavenFox.Common.Time

namespace HeavenFox.Common

open HeavenFox.Logic

/-! ## Histories -/

/-- A call on a timer from outside the tick. -/
inductive TimerOp where
  | setupTimer (sprtTimer : ObjPtr) (entry : Option ObjPtr) (data : Nat)
  | modTimer (sprtTimer : ObjPtr) (expires : Nat)
  | delTimer (sprtTimer : ObjPtr)
  deriving DecidableEq, Repr

/-- One call. -/
def timerOpStep (s : Timers) : TimerOp → Option Timers
  | .setupTimer sprtTimer entry data => some (setupTimer s sprtTimer entry data)
  | .modTimer sprtTimer expires => (modTimer s sprtTimer expires).toOption
  | .delTimer sprtTimer => (delTimer s sprtTimer).toOption

/-- Only timers that are not linked are set up. -/
def OpFits (s : Timers) : TimerOp → Prop
  | .setupTimer u _ _ => findTimer s u = .ok false
  | .modTimer _ _ => True
  | .delTimer _ => True

/-- The call arms the timer `t`. -/
def TimerOp.Arms (t : ObjPtr) : TimerOp → Prop
  | .modTimer u _ => u = t
  | .setupTimer _ _ _ => False
  | .delTimer _ => False

/-- The call is a `del_timer` or a `setup_timer` of the timer `t`. -/
def TimerOp.Disarms (t : ObjPtr) : TimerOp → Prop
  | .modTimer _ _ => False
  | .setupTimer u _ _ => u = t
  | .delTimer u => u = t

/-- The last `mod_timer` of `t` is later than its last `del_timer` and `setup_timer`. -/
def Pending (ops : List TimerOp) (t : ObjPtr) : Prop :=
  ∃ pre op post, ops = pre ++ op :: post ∧ op.Arms t ∧ ∀ later ∈ post, ¬ later.Disarms t

variable {s : Timers} {ts : List ObjPtr} {t : ObjPtr} {op : TimerOp} {ops pre : List TimerOp}

theorem not_pending_nil : ¬ Pending [] t := by
  rintro ⟨pre, op, post, hsplit, -, -⟩
  exact absurd hsplit.symm (by simp)

/-- One more call. -/
theorem pending_concat :
    Pending (pre ++ [op]) t ↔ op.Arms t ∨ Pending pre t ∧ ¬ op.Disarms t := by
  constructor
  · rintro ⟨front, arm, post, hsplit, harms, hkept⟩
    cases post using List.reverseRecOn with
    | nil =>
      -- the call itself is the last that arms the timer
      obtain ⟨-, hop⟩ := List.append_inj' hsplit rfl
      exact .inl (by rwa [List.singleton_inj.mp hop])
    | append_singleton post last =>
      have hsplit' : pre ++ [op] = (front ++ arm :: post) ++ [last] := by simpa using hsplit
      obtain ⟨rfl, hlast⟩ := List.append_inj' hsplit' rfl
      rw [List.singleton_inj.mp hlast]
      exact .inr ⟨⟨front, arm, post, rfl, harms, fun later hmem => hkept later (by simp [hmem])⟩,
        hkept last (by simp)⟩
  · rintro (harms | ⟨⟨front, arm, post, rfl, harms, hkept⟩, hop⟩)
    · exact ⟨pre, op, [], rfl, harms, by simp⟩
    · refine ⟨front, arm, post ++ [op], by simp, harms, fun later hmem => ?_⟩
      rcases List.mem_append.mp hmem with hmem | hmem
      · exact hkept later hmem
      · rwa [List.mem_singleton.mp hmem]

/-- A step: what is armed is linked, and what is disarmed is not. -/
theorem timerOpStep_linked (h : TimersLinked s ts) (hfit : OpFits s op) :
    ∃ s' ts', timerOpStep s op = some s' ∧ TimersLinked s' ts' ∧
      ∀ t, t ∈ ts' ↔ op.Arms t ∨ t ∈ ts ∧ ¬ op.Disarms t := by
  cases op with
  | setupTimer u entry data =>
    have hfind : findTimer s u = .ok false := hfit
    have hu : u ∉ ts := by simpa [findTimer_eq h] using hfind
    refine ⟨_, ts, rfl, setupTimer_linked h hu entry data, fun t => ?_⟩
    have hne : t ∈ ts → ¬ u = t := by
      rintro ht rfl
      exact hu ht
    simpa [TimerOp.Arms, TimerOp.Disarms] using hne
  | modTimer u expires =>
    obtain ⟨s', hcall, hlinked, -, -, -, -⟩ := modTimer_spec h u expires
    refine ⟨s', _, by rw [timerOpStep, hcall]; rfl, hlinked, fun t => ?_⟩
    simp only [TimerOp.Arms, TimerOp.Disarms, not_false_eq_true, and_true]
    split
    · rename_i hu
      refine ⟨.inr, ?_⟩
      rintro (rfl | ht)
      · exact hu
      · exact ht
    · rw [List.mem_append, List.mem_singleton, or_comm, eq_comm]
  | delTimer u =>
    by_cases hu : u ∈ ts
    · obtain ⟨front, post, rfl⟩ := List.append_of_mem hu
      obtain ⟨hcall, hlinked⟩ := delTimer_linked h
      have hout : u ∉ front ++ post := (List.nodup_middle.mp h.nodup).notMem
      refine ⟨_, _, by rw [timerOpStep, hcall]; rfl, hlinked, fun t => ?_⟩
      by_cases htu : u = t
      · subst htu
        simpa [TimerOp.Arms, TimerOp.Disarms] using hout
      · simp [TimerOp.Arms, TimerOp.Disarms, htu, Ne.symm htu]
    · refine ⟨s, ts, by rw [timerOpStep, delTimer_absent h hu]; rfl, h, fun t => ?_⟩
      have hne : t ∈ ts → ¬ u = t := by
        rintro ht rfl
        exact hu ht
      simpa [TimerOp.Arms, TimerOp.Disarms] using hne

/-- Over a run, the linked timers are those that are pending. -/
theorem linked_pending (h : TimersLinked s ts) (hts : ∀ t, t ∈ ts ↔ Pending pre t)
    (hfits : Meets timerOpStep OpFits s ops) :
    ∃ s' ts', exec timerOpStep s ops = some s' ∧ TimersLinked s' ts' ∧
      ∀ t, t ∈ ts' ↔ Pending (pre ++ ops) t := by
  induction ops generalizing s ts pre with
  | nil => exact ⟨s, ts, rfl, h, by simpa using hts⟩
  | cons op ops ih =>
    obtain ⟨s₁, ts₁, hstep, hlinked, hmem⟩ := timerOpStep_linked h hfits.1
    have hts₁ : ∀ t, t ∈ ts₁ ↔ Pending (pre ++ [op]) t := by
      intro t
      rw [hmem, pending_concat, hts]
    -- the calls so far are those before, and this one
    obtain ⟨s', ts', hexec, hlinked', hmem'⟩ := ih hlinked hts₁ (hfits.2 s₁ hstep)
    refine ⟨s', ts', by rw [exec_step hstep, hexec], hlinked', fun t => ?_⟩
    rw [hmem', List.append_assoc, List.singleton_append]

/-! ## One pass -/

/-- A pass from `s` to `s'` has called the entries of exactly the timers among `ts` that are due, each
once.  While it goes on nobody but the entry of a timer itself writes its `expires`, and the tick
does not advance, so a timer is due at its turn exactly if it is due in `s`. -/
def FiresDue (s s' : Timers) (ts : List ObjPtr) : Prop :=
  ∃ fired, s'.fired = fired ++ s.fired ∧ fired.Perm (ts.filter (Due s))

/-- No timer that is due stands behind one that is due and whose entry puts it last. -/
def NoneDueBehind (due again : ObjPtr → Bool) (ts : List ObjPtr) : Prop :=
  ∀ done u rest, ts = done ++ u :: rest → due u = true → again u = true →
    ∀ v ∈ rest, due v = false

variable {due again : ObjPtr → Bool} {u : ObjPtr}

theorem noneDueBehind_cons : NoneDueBehind due again (u :: ts) ↔
    (due u = true → again u = true → ∀ v ∈ ts, due v = false) ∧ NoneDueBehind due again ts := by
  constructor
  · intro h
    refine ⟨h [] u ts rfl, ?_⟩
    rintro done v rest rfl
    exact h (u :: done) v rest rfl
  · rintro ⟨hhead, htail⟩ done v rest hsplit
    cases done with
    | nil =>
      obtain ⟨rfl, rfl⟩ := List.cons.inj hsplit
      exact hhead
    | cons w done =>
      obtain ⟨-, rfl⟩ := List.cons.inj hsplit
      exact htail done v rest rfl

/-- A pass that ends early has met all timers that are due exactly if none stands behind its end. -/
theorem visited_filter_iff :
    (visited due again ts).filter due = ts.filter due ↔ NoneDueBehind due again ts := by
  induction ts with
  | nil => exact iff_of_true rfl fun done u rest hsplit => absurd hsplit.symm (by simp)
  | cons u ts ih =>
    rw [noneDueBehind_cons, ← ih, visited]
    cases hdue : due u with
    | false => simp [hdue]
    | true =>
      cases hagain : again u with
      | false => simp [hdue]
      | true =>
        -- the pass is over, so none of those behind may be due
        have hnone : ts.filter due = [] ↔ ∀ v ∈ ts, due v = false := by
          simp [List.filter_eq_nil_iff]
        simp only [Bool.and_self, if_true, List.filter_cons_of_pos hdue, List.filter_nil,
          List.cons.injEq, true_and, forall_const]
        rw [eq_comm, hnone]
        refine ⟨fun hv => ⟨hv, ?_⟩, fun hv => hv.1⟩
        rw [hnone.mpr hv, List.filter_eq_nil_iff]
        intro v hmem
        simpa using hv v ((visited_sublist due again ts).subset hmem)

/-- **The timer list.**  Over every sequence of `setup_timer` (on timers that are not linked),
`mod_timer` and `del_timer`, the list links exactly the timers whose last `mod_timer` is later than
their last `del_timer` and `setup_timer`, each once.  A pass over it that calls entries which only
make calls on their own timers returns, and it calls the entries of exactly the timers that are due
if and only if none of them stands behind one whose entry deletes and then arms it. -/
theorem timer_pass_iff (s₀ : Timers) (h₀ : TimersLinked s₀ []) (ops : List TimerOp)
    (hfits : Meets timerOpStep OpFits s₀ ops) :
    ∃ s ts, exec timerOpStep s₀ ops = some s ∧ TimersLinked s ts ∧ ts.Nodup ∧
      (∀ t, t ∈ ts ↔ Pending ops t) ∧
      ∀ callback : ObjPtr → List TimerCall, ∃ s', doTimerEventOf callback s = .ok s' ∧
        (FiresDue s s' ts ↔ NoneDueBehind (Due s) (fun u => relinks (callback u)) ts) := by
  have hnone : ∀ t, t ∈ ([] : List ObjPtr) ↔ Pending [] t := fun t =>
    iff_of_false (by simp) not_pending_nil
  obtain ⟨s, ts, hexec, hlinked, hmem⟩ := linked_pending h₀ hnone hfits
  refine ⟨s, ts, hexec, hlinked, hlinked.nodup, hmem, fun callback => ?_⟩
  obtain ⟨s', -, hrun, -, -, hpass⟩ := doTimerEventOf_spec callback hlinked
  refine ⟨s', hrun, ?_⟩
  rw [← visited_filter_iff, FiresDue, hpass.fired]
  constructor
  · rintro ⟨fired, heq, hperm⟩
    obtain rfl := List.append_cancel_right heq
    have hsub := (visited_sublist (Due s) (fun u => relinks (callback u)) ts).filter (Due s)
    exact hsub.eq_of_length (by simpa using hperm.length_eq)
  · intro heq
    exact ⟨_, rfl, by rw [← heq]; exact List.reverse_perm _⟩

instance : ∀ s op, Decidable (OpFits s op)
  | s, .setupTimer u _ _ => inferInstanceAs (Decidable (findTimer s u = .ok false))
  | _, .modTimer _ _ => isTrue trivial
  | _, .delTimer _ => isTrue trivial

/-- No timer is linked, and every timer has the function at `0x69000` to call. -/
def quietTimers : Timers where
  links := ⟨id, id⟩
  timer := fun _ => ⟨0, some ⟨0x69000, by decide⟩, 0⟩
  jiffies := 50
  jiffiesOut := 0
  fired := []

theorem quietTimers_linked : TimersLinked quietTimers [] := Ring.nil_iff.mpr ⟨rfl, rfl⟩

def firstTimer : ObjPtr := ⟨0x67000, by decide⟩

def secondTimer : ObjPtr := ⟨0x68000, by decide⟩

def thirdTimer : ObjPtr := ⟨0x66000, by decide⟩

/-- Three timers are set up and armed, all for ticks that have passed, and one is deleted again. -/
def armedOps : List TimerOp :=
  [.setupTimer firstTimer (some ⟨0x69000, by decide⟩) 1, .modTimer firstTimer 10,
    .setupTimer thirdTimer (some ⟨0x69000, by decide⟩) 3, .modTimer thirdTimer 30,
    .setupTimer secondTimer (some ⟨0x69100, by decide⟩) 2, .modTimer secondTimer 20,
    .delTimer thirdTimer]

theorem timer_pass_iff_armed :
    ∃ s ts, exec timerOpStep quietTimers armedOps = some s ∧ TimersLinked s ts ∧ ts.Nodup ∧
      (∀ t, t ∈ ts ↔ Pending armedOps t) ∧
      ∀ callback : ObjPtr → List TimerCall, ∃ s', doTimerEventOf callback s = .ok s' ∧
        (FiresDue s s' ts ↔ NoneDueBehind (Due s) (fun u => relinks (callback u)) ts) :=
  timer_pass_iff quietTimers quietTimers_linked armedOps (by decide +kernel)

/-- Both timers that are still armed are due, and are called in the order they were armed in. -/
example : ((exec timerOpStep quietTimers armedOps).bind fun s =>
    (doTimerEventOf (fun _ => [.modTimer 100]) s).toOption.map fun s' => s'.fired) =
      some [secondTimer, firstTimer] := by
  decide +kernel

/-- The first timer deletes itself and arms itself again; the other is due too. -/
def startOver (u : ObjPtr) : List TimerCall :=
  if u = firstTimer then [.delTimer, .modTimer 100] else []

/-- Two timers are armed for the tick 10 and due at 50.  The entry of the first starts it over, and
the second is not called. -/
theorem second_timer_skipped :
    ¬ ∀ (s₀ : Timers) (ops : List TimerOp) (callback : ObjPtr → List TimerCall),
      TimersLinked s₀ [] → Meets timerOpStep OpFits s₀ ops →
      ∃ s ts s', exec timerOpStep s₀ ops = some s ∧ TimersLinked s ts ∧
        (∀ t, t ∈ ts ↔ Pending ops t) ∧ doTimerEventOf callback s = .ok s' ∧
        FiresDue s s' ts := by
  intro h
  obtain ⟨s, ts, s', hexec, -, hmem, hrun, fired, hfired, hperm⟩ :=
    h quietTimers [.modTimer firstTimer 10, .modTimer secondTimer 10] startOver quietTimers_linked
      ⟨trivial, fun _ _ => ⟨trivial, fun _ _ => trivial⟩⟩
  have hpass : ((exec timerOpStep quietTimers
      [.modTimer firstTimer 10, .modTimer secondTimer 10]).bind fun s =>
        (doTimerEventOf startOver s).toOption.map fun s' =>
          (s'.fired, s.fired, Due s secondTimer)) = some ([firstTimer], [], true) := by
    decide +kernel
  simp only [hexec, hrun, Option.bind_some, Except.toOption, Option.map_some, Option.some.injEq,
    Prod.mk.injEq] at hpass
  obtain ⟨hcalled, hbefore, hdue⟩ := hpass
  rw [hcalled, hbefore, List.append_nil] at hfired
  have hlinked : secondTimer ∈ ts :=
    (hmem secondTimer).mpr ⟨[.modTimer firstTimer 10], .modTimer secondTimer 10, [], rfl, rfl,
      by simp⟩
  have hcall : secondTimer ∈ fired := hperm.mem_iff.mpr (List.mem_filter.mpr ⟨hlinked, hdue⟩)
  rw [← hfired] at hcall
  exact absurd hcall (by decide)

end HeavenFox.Common
