/-
# HeavenFox.Common.Time -- the tick counter and the timer list of `time.c`

`jiffies` is a 32-bit counter that the system tick advances.  A timer is armed by
writing its `expires` and linking it on one global list; every tick goes through that
list and calls the entry of each timer whose `expires` is not zero and is smaller, as a
plain number, than `jiffies`.

The callbacks run inside the traversal and may arm their own timer again or delete it.
`doTimerEvent_spec` says what one pass does all the same: it calls the entries of exactly
the linked timers that are due when it starts, each once.
-/
import HeavenFox.Common.ListTypes
import HeavenFox.Logic.Run

namespace HeavenFox.Common

open HeavenFox.Logic

/-! ## Ticks -/

/-- `TICK_HZ`. -/
def tickHz : Nat := 100

/-- `JIFFIES_MAX`. -/
def jiffiesMax : Nat := 2 ^ 32 - 1

/-- `secs_to_jiffies`. -/
def secsToJiffies (s : Nat) : Nat := (s * tickHz) % 2 ^ 32

/-- `msecs_to_jiffies`. -/
def msecsToJiffies (m : Nat) : Nat := (m * tickHz) % 2 ^ 32 / 1000

section Rate

variable (hz : Nat)

/-- `msecs_to_jiffies` of a kernel that is built for `hz` ticks in a second. -/
def msecsToJiffiesAt (m : Nat) : Nat := (m * hz) % 2 ^ 32 / 1000

/-- `jiffies_to_msecs` of that kernel. -/
def jiffiesToMsecsAt (j : Nat) : Nat := (j / hz * 1000) % 2 ^ 32

/-- The milliseconds of one tick, rounded up. -/
def tickMsecs : Nat := (1000 + hz - 1) / hz

theorem msecsToJiffies_eq (m : Nat) : msecsToJiffies m = msecsToJiffiesAt tickHz m := rfl

variable {hz} {m : Nat}

/-- Milliseconds become the number of ticks they last exactly if the product fits in 32 bits. -/
theorem msecsToJiffiesAt_eq_iff : msecsToJiffiesAt hz m = m * hz / 1000 ↔ m * hz < 2 ^ 32 := by
  unfold msecsToJiffiesAt
  constructor
  · intro heq
    by_contra hbig
    -- what is cut off is more than a thousand
    have hcut : m * hz % 2 ^ 32 + 2 ^ 32 ≤ m * hz := by omega
    omega
  · intro hsmall
    rw [Nat.mod_eq_of_lt hsmall]

/-- Only whole seconds come back from ticks. -/
theorem jiffiesToMsecsAt_div (hhz : 0 < hz) (hm : m < 2 ^ 32) :
    jiffiesToMsecsAt hz (m * hz / 1000) = m / 1000 * 1000 := by
  have hsecs : m * hz / 1000 / hz = m / 1000 := by
    rw [Nat.div_div_eq_div_mul, Nat.mul_div_mul_right m 1000 hhz]
  rw [jiffiesToMsecsAt, hsecs, Nat.mod_eq_of_lt (by omega)]

/-- Milliseconds are converted exactly, down to the tick, and what comes back is less than a tick
short of them. -/
structure ConvertsMsecs (hz m : Nat) : Prop where
  jiffies : msecsToJiffiesAt hz m = m * hz / 1000
  le : jiffiesToMsecsAt hz (msecsToJiffiesAt hz m) ≤ m
  near : m - jiffiesToMsecsAt hz (msecsToJiffiesAt hz m) < tickMsecs hz

/-- **The conversions agree with arithmetic** exactly on the times whose product with the tick rate
fits in 32 bits and which are less than a tick beyond a whole second. -/
theorem convertsMsecs_iff (hz m : Nat) (hlo : 1 ≤ hz) (hm : m < 2 ^ 32) :
    ConvertsMsecs hz m ↔ m * hz < 2 ^ 32 ∧ m % 1000 < tickMsecs hz := by
  have hback := jiffiesToMsecsAt_div hlo hm
  have hrest : m - m / 1000 * 1000 = m % 1000 := by omega
  constructor
  · rintro ⟨hjiffies, -, hnear⟩
    rw [hjiffies, hback, hrest] at hnear
    exact ⟨msecsToJiffiesAt_eq_iff.mp hjiffies, hnear⟩
  · rintro ⟨hfits, hnear⟩
    have hjiffies := msecsToJiffiesAt_eq_iff.mpr hfits
    refine ⟨hjiffies, ?_, ?_⟩
    · rw [hjiffies, hback]
      omega
    · rw [hjiffies, hback, hrest]
      exact hnear

theorem convertsMsecs_iff_second :
    ConvertsMsecs 100 3005 ↔ 3005 * 100 < 2 ^ 32 ∧ 3005 % 1000 < tickMsecs 100 :=
  convertsMsecs_iff 100 3005 (by decide) (by decide)

/-- A second and a half at 100 ticks comes back as one second; and twelve hours, whose
product does not fit in 32 bits, give no ticks at all. -/
theorem half_second_lost :
    ¬ ConvertsMsecs 100 1500 ∧ jiffiesToMsecsAt 100 (msecsToJiffiesAt 100 1500) = 1000 ∧
      tickMsecs 100 = 10 ∧ msecsToJiffiesAt 100 42949673 = 0 := by
  refine ⟨fun h => ?_, by decide, by decide, by decide⟩
  exact absurd h.near (by decide)

end Rate

/-- `struct time_spec`. -/
structure TimeSpec where
  tvSec : Nat
  tvNsec : Nat
  deriving DecidableEq, Repr

/-- `mrt_is_timespec_empty`. -/
def mrtIsTimespecEmpty (t : TimeSpec) : Bool := decide (t.tvSec = 0) && decide (t.tvNsec = 0)

/-- `time_spec_to_msecs`. -/
def timeSpecToMsecs (t : TimeSpec) : Nat :=
  add32 (t.tvSec * 1000 % 2 ^ 32) (t.tvNsec / 1000 / 1000)

/-- `msecs_to_time_spec`. -/
def msecsToTimeSpec (m : Nat) : TimeSpec where
  tvSec := m / 1000
  tvNsec := sub32 m (m / 1000 * 1000 % 2 ^ 32) * 1000 * 1000 % 2 ^ 32

theorem msecsToTimeSpec_tvNsec {m : Nat} (h : m < 2 ^ 32) :
    (msecsToTimeSpec m).tvNsec = m % 1000 * 1000000 := by
  have hsec : m / 1000 * 1000 % 2 ^ 32 = m / 1000 * 1000 := Nat.mod_eq_of_lt (by omega)
  have hrest : sub32 m (m / 1000 * 1000) = m % 1000 := by
    rw [sub32_of_le (by omega) h]
    omega
  have hsmall : m % 1000 * 1000000 < 2 ^ 32 := by omega
  calc (msecsToTimeSpec m).tvNsec
      = sub32 m (m / 1000 * 1000 % 2 ^ 32) * 1000 * 1000 % 2 ^ 32 := by rw [msecsToTimeSpec]
    _ = m % 1000 * 1000000 % 2 ^ 32 := by rw [hsec, hrest, Nat.mul_assoc]
    _ = m % 1000 * 1000000 := Nat.mod_eq_of_lt hsmall

/-- Milliseconds are read back as they were set. -/
theorem timeSpecToMsecs_msecsToTimeSpec {m : Nat} (h : m < 2 ^ 32) :
    timeSpecToMsecs (msecsToTimeSpec m) = m := by
  have hsec : (msecsToTimeSpec m).tvSec = m / 1000 := rfl
  rw [timeSpecToMsecs, msecsToTimeSpec_tvNsec h, hsec, add32]
  omega

/-- A time is empty only when it is zero: a time of less than a second has its nanoseconds. -/
theorem mrtIsTimespecEmpty_msecs {m : Nat} (h : m < 2 ^ 32) (hpos : 0 < m) :
    mrtIsTimespecEmpty (msecsToTimeSpec m) = false := by
  have hnsec := msecsToTimeSpec_tvNsec h
  have hsec : (msecsToTimeSpec m).tvSec = m / 1000 := rfl
  rw [mrtIsTimespecEmpty, hnsec, hsec, Bool.and_eq_false_iff, decide_eq_false_iff_not,
    decide_eq_false_iff_not]
  omega

/-- `mrt_time_after`. -/
def mrtTimeAfter (a b : Nat) : Bool := decide (a > b)

/-! ## Timers -/

/-- What has a `struct list_head`: the head `sgrt_global_timer_list` and every timer. -/
inductive TimerNode where
  | sgrtGlobalTimerList
  | timer (sprtTimer : ObjPtr)
  deriving DecidableEq, Repr

/-- A `struct timer_list`, its link apart; `entry` is the address of a function. -/
structure TimerList where
  expires : Nat
  entry : Option ObjPtr
  data : Nat
  deriving DecidableEq, Repr

/-- The links, the timers, the two counters, and whose entries have been called, the newest
first. -/
structure Timers where
  links : Links TimerNode
  timer : ObjPtr → TimerList
  jiffies : Nat
  jiffiesOut : Nat
  fired : List ObjPtr

/-- `get_time_counter`. -/
def getTimeCounter (s : Timers) : Timers :=
  let jiffies := if s.jiffies ≥ jiffiesMax then 0 else s.jiffies + 1
  { s with jiffies, jiffiesOut := if jiffies ≠ 0 then s.jiffiesOut else s.jiffiesOut + 1 }

/-- `setup_timer`. -/
def setupTimer (s : Timers) (sprtTimer : ObjPtr) (entry : Option ObjPtr) (data : Nat) : Timers :=
  { s with
    links := initListHead s.links (.timer sprtTimer)
    timer := Function.update s.timer sprtTimer { s.timer sprtTimer with entry, data } }

/-- `add_timer`. -/
def addTimer (s : Timers) (sprtTimer : ObjPtr) : Timers :=
  { s with links := listHeadAddTail s.links .sgrtGlobalTimerList (.timer sprtTimer) }

/-- `del_timer`. -/
def delTimer (s : Timers) (sprtTimer : ObjPtr) : Except Stop Timers := do
  let links ← listHeadDelSafe walkRounds s.links .sgrtGlobalTimerList (.timer sprtTimer)
  pure { s with links }

/-- `find_timer`. -/
def findTimer (s : Timers) (sprtTimer : ObjPtr) : Except Stop Bool := do
  let sprtAny ← foreachEntry s.links.next .sgrtGlobalTimerList
    (fun sprtAny => .ok (if TimerNode.timer sprtTimer = sprtAny then some () else none)) walkRounds
    (s.links.next .sgrtGlobalTimerList)
  pure sprtAny.isSome

/-- `mod_timer`. -/
def modTimer (s : Timers) (sprtTimer : ObjPtr) (expires : Nat) : Except Stop Timers := do
  let s := { s with
    timer := Function.update s.timer sprtTimer { s.timer sprtTimer with expires } }
  let found ← findTimer s sprtTimer
  if found = false then pure (addTimer s sprtTimer) else pure s

/-- What the entry of a timer does with its own timer. -/
inductive OwnCall where
  | leave
  | modTimer (expires : Nat)
  | delTimer
  deriving DecidableEq, Repr

/-- The call of an entry. -/
def callEntry (s : Timers) (sprtTimer : ObjPtr) : OwnCall → Except Stop Timers
  | .leave => .ok { s with fired := sprtTimer :: s.fired }
  | .modTimer expires => Common.modTimer { s with fired := sprtTimer :: s.fired } sprtTimer expires
  | .delTimer => Common.delTimer { s with fired := sprtTimer :: s.fired } sprtTimer

/-- The body of the loop in `do_timer_event`; `callback` says what each entry does, this time. -/
def timerEvent (callback : ObjPtr → OwnCall) : TimerNode → Timers → Except Stop Timers
  | .sgrtGlobalTimerList, _ => .error .fault
  | .timer sprtTimer, s =>
    if (s.timer sprtTimer).expires = 0 then .ok s
    else if mrtTimeAfter s.jiffies (s.timer sprtTimer).expires then
      if (s.timer sprtTimer).entry.isSome then callEntry s sprtTimer (callback sprtTimer) else .ok s
    else .ok s

/-- `do_timer_event`. -/
def doTimerEvent (callback : ObjPtr → OwnCall) (s : Timers) : Except Stop Timers :=
  foreachEntryRun (fun s => s.links.next) .sgrtGlobalTimerList (timerEvent callback) walkRounds
    (s.links.next .sgrtGlobalTimerList) s

/-- A call that the entry of a timer makes on its own timer. -/
inductive TimerCall where
  | modTimer (expires : Nat)
  | delTimer
  deriving DecidableEq, Repr

/-- The calls of an entry, one after another. -/
def ownCalls (sprtTimer : ObjPtr) : List TimerCall → Timers → Except Stop Timers
  | [], s => .ok s
  | .modTimer expires :: calls, s => do
    let s ← modTimer s sprtTimer expires
    ownCalls sprtTimer calls s
  | .delTimer :: calls, s => do
    let s ← delTimer s sprtTimer
    ownCalls sprtTimer calls s

/-- The body of the loop in `do_timer_event`, for entries that may make several calls. -/
def timerEventOf (callback : ObjPtr → List TimerCall) : TimerNode → Timers → Except Stop Timers
  | .sgrtGlobalTimerList, _ => .error .fault
  | .timer sprtTimer, s =>
    if (s.timer sprtTimer).expires = 0 then .ok s
    else if mrtTimeAfter s.jiffies (s.timer sprtTimer).expires then
      if (s.timer sprtTimer).entry.isSome then
        ownCalls sprtTimer (callback sprtTimer) { s with fired := sprtTimer :: s.fired }
      else .ok s
    else .ok s

/-- `do_timer_event`, for entries that may make several calls. -/
def doTimerEventOf (callback : ObjPtr → List TimerCall) (s : Timers) : Except Stop Timers :=
  foreachEntryRun (fun s => s.links.next) .sgrtGlobalTimerList (timerEventOf callback) walkRounds
    (s.links.next .sgrtGlobalTimerList) s

/-- An entry that makes one call at most. -/
def OwnCall.calls : OwnCall → List TimerCall
  | .leave => []
  | .modTimer expires => [.modTimer expires]
  | .delTimer => [.delTimer]

theorem callEntry_eq (s : Timers) (u : ObjPtr) (call : OwnCall) :
    callEntry s u call = ownCalls u call.calls { s with fired := u :: s.fired } := by
  cases call with
  | leave => rfl
  | modTimer expires => exact (bind_pure _).symm
  | delTimer => exact (bind_pure _).symm

theorem doTimerEvent_eq (callback : ObjPtr → OwnCall) (s : Timers) :
    doTimerEvent callback s = doTimerEventOf (fun u => (callback u).calls) s := by
  have hbody : timerEvent callback = timerEventOf fun u => (callback u).calls := by
    funext node s
    cases node with
    | sgrtGlobalTimerList => rfl
    | timer u => simp only [timerEvent, timerEventOf, callEntry_eq]
  rw [doTimerEvent, doTimerEventOf, hbody]

/-! ## The list -/

/-- The timers `ts` are linked, in this order. -/
def TimersLinked (s : Timers) (ts : List ObjPtr) : Prop :=
  Ring s.links .sgrtGlobalTimerList (ts.map .timer)

section Calls

variable {s : Timers} {ts done rest : List ObjPtr} {u v : ObjPtr} {callback : ObjPtr → OwnCall}

theorem TimersLinked.nodup (h : TimersLinked s ts) : ts.Nodup := h.members_nodup.of_map

theorem TimersLinked.length_lt (h : TimersLinked s ts) : ts.length < walkRounds := by
  have := ObjPtr.length_of_nodup h.nodup
  unfold walkRounds
  omega

/-- **`find_timer`** finds the linked timers. -/
theorem findTimer_eq (h : TimersLinked s ts) (u : ObjPtr) :
    findTimer s u = .ok (decide (u ∈ ts)) := by
  have hwalk : foreachEntry s.links.next .sgrtGlobalTimerList
      (fun sprtAny => .ok (if TimerNode.timer u = sprtAny then some () else none)) walkRounds
      (s.links.next .sgrtGlobalTimerList) =
        .ok (ts.findSome? fun v => if u = v then some () else none) :=
    foreachEntry_next h (fun v _ => by simp only [TimerNode.timer.injEq]) h.length_lt
  have hfind : (ts.findSome? fun v => if u = v then some () else none).isSome = decide (u ∈ ts) := by
    rw [Bool.eq_iff_iff, decide_eq_true_eq, List.findSome?_isSome_iff]
    constructor
    · rintro ⟨v, hv, hsome⟩
      split at hsome
      · subst u
        exact hv
      · cases hsome
    · exact fun hu => ⟨u, hu, by simp⟩
  simp only [findTimer, hwalk, bind, Except.bind, pure, Except.pure, hfind]

/-- **`mod_timer`** sets the expiry, and links a timer that is not linked at the end. -/
theorem modTimer_spec (h : TimersLinked s ts) (u : ObjPtr) (expires : Nat) :
    ∃ s', modTimer s u expires = .ok s' ∧
      TimersLinked s' (if u ∈ ts then ts else ts ++ [u]) ∧ (u ∈ ts → s'.links = s.links) ∧
      s'.timer = Function.update s.timer u { s.timer u with expires } ∧ s'.jiffies = s.jiffies ∧
      s'.fired = s.fired := by
  have h' : TimersLinked { s with
      timer := Function.update s.timer u { s.timer u with expires } } ts := h
  have hfind := findTimer_eq h' u
  by_cases hu : u ∈ ts
  · refine ⟨{ s with timer := Function.update s.timer u { s.timer u with expires } }, ?_,
      by rw [if_pos hu]; exact h', fun _ => rfl, rfl, rfl, rfl⟩
    simp [modTimer, hfind, hu, bind, Except.bind, pure, Except.pure]
  · refine ⟨addTimer { s with
      timer := Function.update s.timer u { s.timer u with expires } } u, ?_, ?_,
      fun hmem => absurd hmem hu, rfl, rfl, rfl⟩
    · simp [modTimer, hfind, hu, bind, Except.bind, pure, Except.pure]
    · show Ring (listHeadAddTail s.links .sgrtGlobalTimerList (.timer u)) _ _
      rw [if_neg hu, listHeadAddTail_eq h, List.map_append, List.map_singleton]
      have h₁ : Ring s.links .sgrtGlobalTimerList (ts.map TimerNode.timer ++ []) := by
        rw [List.append_nil]
        exact h
      exact h₁.insertAfter (by simpa using hu)

/-- **`del_timer`** unlinks a linked timer, whose own link stays as it was. -/
theorem delTimer_linked (h : TimersLinked s (done ++ u :: rest)) :
    delTimer s u = .ok { s with links := s.links.unlink (.timer u) } ∧
      TimersLinked { s with links := s.links.unlink (.timer u) } (done ++ rest) := by
  have hlen : ((done ++ u :: rest).map TimerNode.timer).length < walkRounds := by
    rw [List.length_map]
    exact h.length_lt
  constructor
  · rw [delTimer, listHeadDelSafe_ring h hlen, if_pos (by simp)]
    rfl
  · have r : Ring s.links .sgrtGlobalTimerList
        (done.map TimerNode.timer ++ .timer u :: rest.map TimerNode.timer) := by
      simpa [TimersLinked] using h
    show Ring (s.links.unlink (.timer u)) .sgrtGlobalTimerList ((done ++ rest).map .timer)
    rw [List.map_append]
    exact r.unlink

theorem delTimer_absent (h : TimersLinked s ts) (hu : u ∉ ts) : delTimer s u = .ok s := by
  have hlen : (ts.map TimerNode.timer).length < walkRounds := by
    rw [List.length_map]
    exact h.length_lt
  rw [delTimer, listHeadDelSafe_ring h hlen, if_neg (by simpa using hu)]
  rfl

/-- **`setup_timer`** on a timer that is not linked leaves the list alone. -/
theorem setupTimer_linked (h : TimersLinked s ts) (hu : u ∉ ts) (entry : Option ObjPtr)
    (data : Nat) : TimersLinked (setupTimer s u entry data) ts := by
  show Ring (initListHead s.links (.timer u)) .sgrtGlobalTimerList (ts.map .timer)
  rw [initListHead_eq]
  exact Ring.selfLink_of_outside h (by simpa using hu)

/-! ## One pass over the list -/

/-- The timer is fired when its turn comes. -/
def Due (s : Timers) (u : ObjPtr) : Bool :=
  decide ((s.timer u).expires ≠ 0) && mrtTimeAfter s.jiffies (s.timer u).expires &&
    (s.timer u).entry.isSome

theorem Due.congr {s' : Timers} (htimer : s'.timer u = s.timer u)
    (hjiffies : s'.jiffies = s.jiffies) : Due s' u = Due s u := by
  rw [Due, Due, htimer, hjiffies]

/-- What a pass that starts in `s` and has seen the timers `seen` leaves behind. -/
structure Passed (s s' : Timers) (seen : List ObjPtr) : Prop where
  jiffies : s'.jiffies = s.jiffies
  fired : s'.fired = (seen.filter (Due s)).reverse ++ s.fired
  timer : ∀ u, (u ∈ seen → Due s u = false) → s'.timer u = s.timer u

/-- The calls unlink the timer and then link it again, which puts it last. -/
def relinks : List TimerCall → Bool
  | [] => false
  | .modTimer _ :: calls => relinks calls
  | .delTimer :: calls => calls.any fun call => decide (call ≠ .delTimer)

/-- The timers a pass comes to: it ends behind a timer that has been put last. -/
def visited (due again : ObjPtr → Bool) : List ObjPtr → List ObjPtr
  | [] => []
  | u :: rest => u :: if due u && again u then [] else visited due again rest

theorem visited_all {due again : ObjPtr → Bool} (h : ∀ u ∈ ts, again u = false) :
    visited due again ts = ts := by
  induction ts with
  | nil => rfl
  | cons u ts ih =>
    rw [visited, h u List.mem_cons_self, Bool.and_false, if_neg Bool.false_ne_true,
      ih fun v hv => h v (List.mem_cons_of_mem u hv)]

theorem visited_congr {due due' again : ObjPtr → Bool} (h : ∀ u ∈ ts, due' u = due u) :
    visited due' again ts = visited due again ts := by
  induction ts with
  | nil => rfl
  | cons u ts ih =>
    rw [visited, visited, h u List.mem_cons_self, ih fun v hv => h v (List.mem_cons_of_mem u hv)]

theorem visited_sublist (due again : ObjPtr → Bool) (ts : List ObjPtr) :
    (visited due again ts).Sublist ts := by
  induction ts with
  | nil => exact List.Sublist.refl _
  | cons u ts ih =>
    rw [visited]
    refine List.Sublist.cons_cons u ?_
    split
    · exact List.nil_sublist ts
    · exact ih

theorem timerEventOf_eq {callback : ObjPtr → List TimerCall} :
    timerEventOf callback (.timer u) s =
      if Due s u then ownCalls u (callback u) { s with fired := u :: s.fired } else .ok s := by
  by_cases h0 : (s.timer u).expires = 0 <;>
    by_cases hlate : mrtTimeAfter s.jiffies (s.timer u).expires = true <;>
    by_cases hentry : (s.timer u).entry.isSome = true <;>
    simp [timerEventOf, Due, h0, hlate, hentry]

/-- What calls on the timer `u` leave alone. -/
structure OthersKept (u : ObjPtr) (s s' : Timers) : Prop where
  jiffies : s'.jiffies = s.jiffies
  fired : s'.fired = s.fired
  timer : ∀ v, v ≠ u → s'.timer v = s.timer v

theorem OthersKept.refl (u : ObjPtr) (s : Timers) : OthersKept u s s := ⟨rfl, rfl, fun _ _ => rfl⟩

theorem OthersKept.trans {s' s'' : Timers} (h : OthersKept u s s') (h' : OthersKept u s' s'') :
    OthersKept u s s'' where
  jiffies := h'.jiffies.trans h.jiffies
  fired := h'.fired.trans h.fired
  timer := fun v hv => (h'.timer v hv).trans (h.timer v hv)

/-- `mod_timer` of a linked timer leaves the list alone. -/
theorem modTimer_linked (h : TimersLinked s ts) (hu : u ∈ ts) (expires : Nat) :
    ∃ s', modTimer s u expires = .ok s' ∧ TimersLinked s' ts ∧ s'.links = s.links ∧
      OthersKept u s s' := by
  obtain ⟨s', hcall, hlinked, hlinks, htimer, hjiffies, hfired⟩ := modTimer_spec h u expires
  rw [if_pos hu] at hlinked
  exact ⟨s', hcall, hlinked, hlinks hu, hjiffies, hfired, fun v hv => by
    rw [htimer, Function.update_of_ne hv]⟩

/-- `mod_timer` of a timer that is not linked puts it last. -/
theorem modTimer_absent (h : TimersLinked s ts) (hu : u ∉ ts) (expires : Nat) :
    ∃ s', modTimer s u expires = .ok s' ∧ TimersLinked s' (ts ++ [u]) ∧
      s'.links.next (.timer u) = .sgrtGlobalTimerList ∧ OthersKept u s s' := by
  obtain ⟨s', hcall, hlinked, -, htimer, hjiffies, hfired⟩ := modTimer_spec h u expires
  rw [if_neg hu] at hlinked
  have hlast : Ring s'.links .sgrtGlobalTimerList (ts.map TimerNode.timer ++ .timer u :: []) := by
    simpa [TimersLinked] using hlinked
  exact ⟨s', hcall, hlinked, hlast.next_member, hjiffies, hfired, fun v hv => by
    rw [htimer, Function.update_of_ne hv]⟩

/-- The calls of a timer that has been put last: it stays there or goes. -/
theorem ownCalls_last (h : TimersLinked s (ts ++ [u]) ∨ TimersLinked s ts) (hu : u ∉ ts)
    (hnext : s.links.next (.timer u) = .sgrtGlobalTimerList) (calls : List TimerCall) :
    ∃ s' ts', ownCalls u calls s = .ok s' ∧ TimersLinked s' ts' ∧ (∀ v ∈ ts, v ∈ ts') ∧
      s'.links.next (.timer u) = .sgrtGlobalTimerList ∧ OthersKept u s s' := by
  induction calls generalizing s with
  | nil =>
    rcases h with h | h
    · exact ⟨s, _, rfl, h, fun v hv => List.mem_append_left _ hv, hnext, .refl u s⟩
    · exact ⟨s, ts, rfl, h, fun _ => id, hnext, .refl u s⟩
  | cons call calls ih =>
    have hstep : ∃ s₁, ownCalls u (call :: calls) s = ownCalls u calls s₁ ∧
        (TimersLinked s₁ (ts ++ [u]) ∨ TimersLinked s₁ ts) ∧
        s₁.links.next (.timer u) = .sgrtGlobalTimerList ∧ OthersKept u s s₁ := by
      cases call with
      | modTimer expires =>
        rcases h with h | h
        · have hmem : u ∈ ts ++ [u] := by simp
          obtain ⟨s₁, hcall, hlinked, hlinks, hkept⟩ := modTimer_linked h hmem expires
          exact ⟨s₁, by rw [ownCalls, hcall]; rfl, .inl hlinked, by rw [hlinks, hnext], hkept⟩
        · obtain ⟨s₁, hcall, hlinked, hnext₁, hkept⟩ := modTimer_absent h hu expires
          exact ⟨s₁, by rw [ownCalls, hcall]; rfl, .inl hlinked, hnext₁, hkept⟩
      | delTimer =>
        rcases h with h | h
        · obtain ⟨hcall, hlinked⟩ := delTimer_linked h
          rw [List.append_nil] at hlinked
          refine ⟨_, by rw [ownCalls, hcall]; rfl, .inr hlinked, ?_, rfl, rfl, fun _ _ => rfl⟩
          show (s.links.unlink (.timer u)).next (.timer u) = _
          rw [Links.unlink_next]
          split <;> exact hnext
        · exact ⟨s, by rw [ownCalls, delTimer_absent h hu]; rfl, .inr h, hnext, .refl u s⟩
    obtain ⟨s₁, hrun, h₁, hnext₁, hkept₁⟩ := hstep
    obtain ⟨s', ts', hcalls, hlinked, hmem, hnext', hkept⟩ := ih h₁ hnext₁
    exact ⟨s', ts', hrun.trans hcalls, hlinked, hmem, hnext', hkept₁.trans hkept⟩

/-- The calls of a timer that has been unlinked.  Its own link still leads to where it stood, until
it is put last. -/
theorem ownCalls_unlinked (h : TimersLinked s ts) (hu : u ∉ ts) (calls : List TimerCall) :
    ∃ s' ts', ownCalls u calls s = .ok s' ∧ TimersLinked s' ts' ∧ (∀ v ∈ ts, v ∈ ts') ∧
      OthersKept u s s' ∧
      if (calls.any fun call => decide (call ≠ .delTimer)) = true then
        s'.links.next (.timer u) = .sgrtGlobalTimerList
      else ts' = ts ∧ s'.links.next (.timer u) = s.links.next (.timer u) := by
  induction calls with
  | nil => exact ⟨s, ts, rfl, h, fun _ => id, .refl u s, rfl, rfl⟩
  | cons call calls ih =>
    cases call with
    | modTimer expires =>
      obtain ⟨s₁, hcall, hlinked, hnext, hkept₁⟩ := modTimer_absent h hu expires
      obtain ⟨s', ts', hcalls, hlinked', hmem, hnext', hkept⟩ :=
        ownCalls_last (.inl hlinked) hu hnext calls
      refine ⟨s', ts', ?_, hlinked', hmem, hkept₁.trans hkept, hnext'⟩
      rw [ownCalls, hcall]
      exact hcalls
    | delTimer =>
      obtain ⟨s', ts', hcalls, hlinked', hmem, hkept, hnext⟩ := ih
      refine ⟨s', ts', ?_, hlinked', hmem, hkept, by simpa using hnext⟩
      rw [ownCalls, delTimer_absent h hu]
      exact hcalls

/-- **The calls of a linked timer.**  The traversal finds its way on, unless the timer has been put
last. -/
theorem ownCalls_spec (h : TimersLinked s (done ++ u :: rest)) (calls : List TimerCall) :
    ∃ s', ownCalls u calls s = .ok s' ∧ OthersKept u s s' ∧
      if relinks calls = true then
        (∃ ts', TimersLinked s' ts' ∧ ∀ v ∈ done ++ rest, v ∈ ts') ∧
          s'.links.next (.timer u) = .sgrtGlobalTimerList
      else
        (∃ done', TimersLinked s' (done' ++ rest) ∧ ∀ v ∈ done, v ∈ done') ∧
          s'.links.next (.timer u) = s.links.next (.timer u) := by
  induction calls generalizing s with
  | nil =>
    refine ⟨s, rfl, .refl u s, ⟨done ++ [u], by simpa using h, fun v hv => ?_⟩, rfl⟩
    exact List.mem_append_left _ hv
  | cons call calls ih =>
    cases call with
    | modTimer expires =>
      have hmem : u ∈ done ++ u :: rest := by simp
      obtain ⟨s₁, hcall, hlinked, hlinks, hkept₁⟩ := modTimer_linked h hmem expires
      obtain ⟨s', hcalls, hkept, hres⟩ := ih hlinked
      rw [hlinks] at hres
      refine ⟨s', ?_, hkept₁.trans hkept, hres⟩
      rw [ownCalls, hcall]
      exact hcalls
    | delTimer =>
      obtain ⟨hcall, hlinked⟩ := delTimer_linked h
      have hout : u ∉ done ++ rest := (List.nodup_middle.mp h.nodup).notMem
      have hstale : (s.links.unlink (.timer u)).next (.timer u) = s.links.next (.timer u) := by
        rw [Links.unlink_next]
        split <;> rfl
      obtain ⟨s', ts', hcalls, hlinked', hmem, hkept, hnext⟩ :=
        ownCalls_unlinked hlinked hout calls
      refine ⟨s', ?_, ⟨hkept.jiffies, hkept.fired, hkept.timer⟩, ?_⟩
      · rw [ownCalls, hcall]
        exact hcalls
      rw [relinks]
      split at hnext
      · rw [if_pos ‹_›]
        exact ⟨⟨ts', hlinked', hmem⟩, hnext⟩
      · rw [if_neg ‹_›]
        obtain ⟨rfl, hsame⟩ := hnext
        exact ⟨⟨done, hlinked', fun _ => id⟩, hsame.trans hstale⟩

/-- A pass over no timer. -/
theorem Passed.nil (s : Timers) : Passed s s [] := ⟨rfl, rfl, fun _ _ => rfl⟩

/-- A timer that is not due is left alone. -/
theorem Passed.skip {s' : Timers} (hdue : Due s u = false) (h : Passed s s' ts) :
    Passed s s' (u :: ts) where
  jiffies := h.jiffies
  fired := by simpa [hdue] using h.fired
  timer v hv := h.timer v fun hmem => hv (List.mem_cons_of_mem u hmem)

/-- The entry of a timer that is due has been called, and the pass goes on over timers that are as
due as they were. -/
theorem Passed.cons {s₁ s' : Timers} (hdue : Due s u = true)
    (hkept : OthersKept u { s with fired := u :: s.fired } s₁)
    (hseen : ∀ v ∈ ts, Due s₁ v = Due s v) (h : Passed s₁ s' ts) : Passed s s' (u :: ts) where
  jiffies := h.jiffies.trans hkept.jiffies
  fired := by
    rw [h.fired, hkept.fired, List.filter_congr hseen, List.filter_cons_of_pos hdue]
    simp
  timer v hv := by
    have hvu : v ≠ u := by
      rintro rfl
      rw [hv List.mem_cons_self] at hdue
      cases hdue
    have hidle : v ∈ ts → Due s₁ v = false := by
      intro hmem
      rw [hseen v hmem]
      exact hv (List.mem_cons_of_mem u hmem)
    rw [h.timer v hidle, hkept.timer v hvu]

/-- The rest of a pass, from the first of the timers `rest` on. -/
theorem doTimerEventOf_rest {callback : ObjPtr → List TimerCall} {n : Nat}
    (h : TimersLinked s (done ++ rest)) (hn : rest.length < n) :
    ∃ s' ts', foreachEntryRun (fun s => s.links.next) .sgrtGlobalTimerList
        (timerEventOf callback) n ((rest.map TimerNode.timer).headD .sgrtGlobalTimerList) s =
          .ok s' ∧
      TimersLinked s' ts' ∧ (∀ u ∈ done, u ∈ ts') ∧ (∀ u ∈ rest, Due s u = false → u ∈ ts') ∧
      Passed s s' (visited (Due s) (fun u => relinks (callback u)) rest) := by
  induction rest generalizing s done n with
  | nil =>
    obtain ⟨m, rfl⟩ : ∃ m, n = m + 1 := ⟨n - 1, by simp at hn; omega⟩
    rw [List.append_nil] at h
    exact ⟨s, done, by simp [foreachEntryRun], h, fun _ => id, nofun, .nil s⟩
  | cons u rest ih =>
    obtain ⟨m, rfl⟩ : ∃ m, n = m + 1 := ⟨n - 1, by simp at hn; omega⟩
    have hm : rest.length < m := by simp at hn; omega
    have hu : u ∉ rest := (List.nodup_cons.mp (List.nodup_append.mp h.nodup).2.1).1
    have hnext : s.links.next (.timer u) =
        (rest.map TimerNode.timer).headD .sgrtGlobalTimerList := by
      have r : Ring s.links .sgrtGlobalTimerList
          (done.map TimerNode.timer ++ .timer u :: rest.map TimerNode.timer) := by
        simpa [TimersLinked] using h
      exact r.next_member
    rw [List.map_cons, List.headD_cons, foreachEntryRun, if_neg nofun, timerEventOf_eq, visited]
    cases hdue : Due s u with
    | false =>
      have h₁ : TimersLinked s ((done ++ [u]) ++ rest) := by simpa using h
      obtain ⟨s', ts', hrun, hlinked, hdone, hrest, hpass⟩ := ih h₁ hm
      refine ⟨s', ts', ?_, hlinked, fun v hv => hdone v (by simp [hv]), ?_, ?_⟩
      · simpa [hnext] using hrun
      · intro v hv hidle
        rcases List.mem_cons.mp hv with rfl | hv
        · exact hdone v (by simp)
        · exact hrest v hv hidle
      · rw [Bool.false_and, if_neg Bool.false_ne_true]
        exact hpass.skip hdue
    | true =>
      have h₁ : TimersLinked { s with fired := u :: s.fired } (done ++ u :: rest) := h
      obtain ⟨s₁, hcall, hkept, hres⟩ := ownCalls_spec h₁ (callback u)
      have hne : ∀ v ∈ rest, v ≠ u := by
        rintro v hv rfl
        exact hu hv
      rw [Bool.true_and]
      split at hres
      · -- the timer is last now, and the pass is over
        rename_i hagain
        obtain ⟨⟨ts', hlinked, hmem⟩, hlast⟩ := hres
        obtain ⟨k, rfl⟩ : ∃ k, m = k + 1 := ⟨m - 1, by omega⟩
        refine ⟨s₁, ts', ?_, hlinked, fun v hv => hmem v (List.mem_append_left _ hv), ?_, ?_⟩
        · simp [hcall, hlast, foreachEntryRun]
        · intro v hv hidle
          rcases List.mem_cons.mp hv with rfl | hv
          · rw [hdue] at hidle
            cases hidle
          · exact hmem v (List.mem_append_right _ hv)
        · rw [if_pos hagain]
          exact .cons hdue hkept (fun v hv => absurd hv List.not_mem_nil) (.nil s₁)
      · rename_i hagain
        obtain ⟨⟨done', hlinked₁, hdone₁⟩, hnext₁⟩ := hres
        obtain ⟨s', ts', hrun, hlinked, hdone, hrest, hpass⟩ := ih hlinked₁ hm
        -- the entry of `u` has not changed what is due among the timers that are still to come
        have hsame : ∀ v ∈ rest, Due s₁ v = Due s v := fun v hv =>
          Due.congr (hkept.timer v (hne v hv)) hkept.jiffies
        rw [visited_congr hsame] at hpass
        have hseen : ∀ v ∈ visited (Due s) (fun u => relinks (callback u)) rest,
            Due s₁ v = Due s v := fun v hv => hsame v ((visited_sublist _ _ _).subset hv)
        refine ⟨s', ts', ?_, hlinked, fun v hv => hdone v (hdone₁ v hv), ?_, ?_⟩
        · have hgo : s₁.links.next (.timer u) =
              (rest.map TimerNode.timer).headD .sgrtGlobalTimerList := hnext₁.trans hnext
          simpa [hcall, hgo] using hrun
        · intro v hv hidle
          rcases List.mem_cons.mp hv with rfl | hv
          · rw [hdue] at hidle
            cases hidle
          · exact hrest v hv (by rw [hsame v hv]; exact hidle)
        · rw [if_neg hagain]
          exact .cons hdue hkept hseen hpass

/-- **`do_timer_event`** calls the entries of the linked timers that are due, each once and in their
order, up to a timer that its entry puts last; timers that are not due stay linked and as they
were. -/
theorem doTimerEventOf_spec (callback : ObjPtr → List TimerCall) (h : TimersLinked s ts) :
    ∃ s' ts', doTimerEventOf callback s = .ok s' ∧ TimersLinked s' ts' ∧
      (∀ u ∈ ts, Due s u = false → u ∈ ts') ∧
      Passed s s' (visited (Due s) (fun u => relinks (callback u)) ts) := by
  have h₀ : TimersLinked s ([] ++ ts) := h
  have hfirst : s.links.next .sgrtGlobalTimerList =
      (ts.map TimerNode.timer).headD .sgrtGlobalTimerList := by
    cases ts with
    | nil => exact h.path.1
    | cons u ts => exact h.path.1.1
  obtain ⟨s', ts', hrun, hlinked, -, hidle, hpass⟩ := doTimerEventOf_rest h₀ h.length_lt
  exact ⟨s', ts', by rw [doTimerEventOf, hfirst]; exact hrun, hlinked, hidle, hpass⟩

/-- Entries that make one call at most do not end a pass early. -/
theorem doTimerEvent_spec (callback : ObjPtr → OwnCall) (h : TimersLinked s ts) :
    ∃ s' ts', doTimerEvent callback s = .ok s' ∧ TimersLinked s' ts' ∧
      (∀ u ∈ ts, Due s u = false → u ∈ ts') ∧ Passed s s' ts := by
  have hone : ∀ call : OwnCall, relinks call.calls = false := by
    intro call
    cases call <;> rfl
  have hpass := doTimerEventOf_spec (fun u => (callback u).calls) h
  rw [visited_all fun u _ => hone (callback u)] at hpass
  rw [doTimerEvent_eq]
  exact hpass

end Calls

/-! ## Runs -/

/-- One tick, as `imx6_systick_isr` does it. -/
def systick (callback : ObjPtr → OwnCall) (s : Timers) : Except Stop Timers :=
  doTimerEvent callback (getTimeCounter s)

/-- A tick, or a call on a timer from outside the tick. -/
inductive TimerMove where
  | tick (callback : ObjPtr → OwnCall)
  | setupTimer (sprtTimer : ObjPtr) (entry : Option ObjPtr) (data : Nat)
  | modTimer (sprtTimer : ObjPtr) (expires : Nat)
  | delTimer (sprtTimer : ObjPtr)

/-- One step. -/
def timerStep (s : Timers) : TimerMove → Option Timers
  | .tick callback => (systick callback s).toOption
  | .setupTimer sprtTimer entry data => some (setupTimer s sprtTimer entry data)
  | .modTimer sprtTimer expires => (modTimer s sprtTimer expires).toOption
  | .delTimer sprtTimer => (delTimer s sprtTimer).toOption

/-- How many ticks a run has. -/
def ticks : List TimerMove → Nat
  | [] => 0
  | .tick _ :: moves => ticks moves + 1
  | .setupTimer _ _ _ :: moves | .modTimer _ _ :: moves | .delTimer _ :: moves => ticks moves

/-- Calls from outside the tick leave the timer `t` alone, and only set up timers that are not
linked. -/
def TimerFits (t : ObjPtr) (s : Timers) : TimerMove → Prop
  | .tick _ => True
  | .setupTimer u _ _ => u ≠ t ∧ findTimer s u = .ok false
  | .modTimer u _ => u ≠ t
  | .delTimer u => u ≠ t

instance (t : ObjPtr) (s : Timers) : ∀ move, Decidable (TimerFits t s move)
  | .tick _ => isTrue trivial
  | .setupTimer _ _ _ => inferInstanceAs (Decidable (_ ∧ _))
  | .modTimer _ _ => inferInstanceAs (Decidable (_ ≠ _))
  | .delTimer _ => inferInstanceAs (Decidable (_ ≠ _))

/-- The timer `t` is linked, has a function to call, and expires at `expires`. -/
structure Armed (s : Timers) (t : ObjPtr) (expires : Nat) : Prop where
  linked : ∃ ts, TimersLinked s ts ∧ t ∈ ts
  expires_eq : (s.timer t).expires = expires
  entry : (s.timer t).entry.isSome = true

theorem getTimeCounter_jiffies {s : Timers} (h : s.jiffies < 2 ^ 32) :
    (getTimeCounter s).jiffies = (s.jiffies + 1) % 2 ^ 32 := by
  have heq : (getTimeCounter s).jiffies = if s.jiffies ≥ jiffiesMax then 0 else s.jiffies + 1 := rfl
  rw [heq, jiffiesMax]
  by_cases hmax : s.jiffies ≥ 2 ^ 32 - 1
  · rw [if_pos hmax]
    omega
  · rw [if_neg hmax]
    omega

section Runs

variable {s : Timers} {t : ObjPtr} {expires : Nat}

theorem due_iff (h : Armed s t expires) :
    Due (getTimeCounter s) t = true ↔ expires ≠ 0 ∧ expires < (getTimeCounter s).jiffies := by
  have htimer : (getTimeCounter s).timer = s.timer := rfl
  simp [Due, mrtTimeAfter, htimer, h.expires_eq, h.entry]

/-- **A tick** fires an armed timer exactly if its `expires` is not zero and the new count is
beyond it, and otherwise leaves it armed. -/
theorem systick_armed (h : Armed s t expires) (callback : ObjPtr → OwnCall) :
    ∃ s', systick callback s = .ok s' ∧ s'.jiffies = (getTimeCounter s).jiffies ∧
      (expires ≠ 0 ∧ expires < s'.jiffies → s'.fired.count t = s.fired.count t + 1) ∧
      (¬ (expires ≠ 0 ∧ expires < s'.jiffies) →
        s'.fired.count t = s.fired.count t ∧ Armed s' t expires) := by
  obtain ⟨ts, hlinked, ht⟩ := h.linked
  have h₁ : TimersLinked (getTimeCounter s) ts := hlinked
  obtain ⟨s', ts', hrun, hlinked', hidle, hpass⟩ := doTimerEvent_spec callback h₁
  have hcount : s'.fired.count t =
      (ts.filter (Due (getTimeCounter s))).count t + s.fired.count t := by
    rw [hpass.fired, List.count_append, List.count_reverse]
    rfl
  refine ⟨s', hrun, hpass.jiffies, fun hdue => ?_, fun hdue => ?_⟩
  · rw [hpass.jiffies, ← due_iff h] at hdue
    rw [hcount, List.count_filter hdue, List.count_eq_one_of_mem hlinked.nodup ht, Nat.add_comm]
  · rw [hpass.jiffies, ← due_iff h, Bool.not_eq_true] at hdue
    have hout : t ∉ ts.filter (Due (getTimeCounter s)) := by
      intro hmem
      have := (List.mem_filter.mp hmem).2
      rw [hdue] at this
      cases this
    have htimer : s'.timer t = s.timer t := hpass.timer t fun _ => hdue
    refine ⟨by rw [hcount, List.count_eq_zero_of_not_mem hout, Nat.zero_add], ?_⟩
    exact ⟨⟨ts', hlinked', hidle t ht hdue⟩, by rw [htimer]; exact h.expires_eq,
      by rw [htimer]; exact h.entry⟩

/-- A call from outside the tick leaves an armed timer armed. -/
theorem timerStep_armed {move : TimerMove} (h : Armed s t expires) (hfit : TimerFits t s move)
    (hmove : ticks [move] = 0) :
    ∃ s', timerStep s move = some s' ∧ Armed s' t expires ∧ s'.jiffies = s.jiffies := by
  obtain ⟨ts, hlinked, ht⟩ := h.linked
  cases move with
  | tick callback => cases hmove
  | setupTimer u entry data =>
    have hu : u ∉ ts := by simpa [findTimer_eq hlinked] using hfit.2
    have htimer : (setupTimer s u entry data).timer t = s.timer t :=
      Function.update_of_ne (Ne.symm hfit.1) ..
    refine ⟨_, rfl, ⟨⟨ts, setupTimer_linked hlinked hu entry data, ht⟩, ?_, ?_⟩, rfl⟩
    · rw [htimer]
      exact h.expires_eq
    · rw [htimer]
      exact h.entry
  | modTimer u new =>
    obtain ⟨s', hcall, hlinked', -, hupdate, hjiffies, -⟩ := modTimer_spec hlinked u new
    have htimer : s'.timer t = s.timer t := by
      rw [hupdate]
      exact Function.update_of_ne (Ne.symm hfit) ..
    refine ⟨s', by rw [timerStep, hcall]; rfl, ⟨⟨_, hlinked', ?_⟩, ?_, ?_⟩, hjiffies⟩
    · split
      · exact ht
      · exact List.mem_append_left _ ht
    · rw [htimer]
      exact h.expires_eq
    · rw [htimer]
      exact h.entry
  | delTimer u =>
    by_cases hu : u ∈ ts
    · obtain ⟨pre, post, rfl⟩ := List.append_of_mem hu
      obtain ⟨hcall, hlinked'⟩ := delTimer_linked hlinked
      refine ⟨_, by rw [timerStep, hcall]; rfl, ⟨⟨_, hlinked', ?_⟩, h.expires_eq, h.entry⟩, rfl⟩
      have hne : t ≠ u := Ne.symm hfit
      simpa [hne] using ht
    · exact ⟨s, by rw [timerStep, delTimer_absent hlinked hu]; rfl, h, rfl⟩

end Runs

end HeavenFox.Common
