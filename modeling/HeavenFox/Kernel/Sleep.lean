/-
# HeavenFox.Kernel.Sleep -- delays, and timers across the wrap of the tick counter

`sleep.c`: `schedule_delay` and its relatives arm a timer on the thread's own stack for
`jiffies` plus the delay and suspend the thread.  Both the test before and the test of the
tick compare 32-bit counts as plain numbers, and a timer whose `expires` is zero is off.

`fires_on_time_iff` says exactly when that is harmless: when neither the expiry nor the tick
after it is beyond the end of the counter.  A counter at its last value is the one other
case, since the timer and the counter then wrap together; but there a delay returns at once.
-/
import HeavenFox.Common.Time

namespace HeavenFox.Kernel

open HeavenFox.Common HeavenFox.Logic

/-! ## Delays -/

/-- `schedule_timeout`, up to the point where the thread suspends itself: the timer `sgrtTm` on its
stack is set up with `real_thread_sleep_timeout` and armed. -/
def scheduleTimeout (realThreadSleepTimeout sgrtTm sprtThread : ObjPtr) (s : Timers)
    (count : Nat) : Except Stop Timers :=
  modTimer (setupTimer s sgrtTm (some realThreadSleepTimeout) sprtThread.val) sgrtTm count

/-- What the functions below do with a delay in ticks: `none` when they return at once, else the
timers when the thread suspends itself. -/
def delayTicks (realThreadSleepTimeout sgrtTm sprtThread : ObjPtr) (s : Timers) (delay : Nat) :
    Except Stop (Option Timers) :=
  let count := (s.jiffies + delay) % 2 ^ 32
  if mrtTimeAfter count s.jiffies then
    (scheduleTimeout realThreadSleepTimeout sgrtTm sprtThread s count).map some
  else .ok none

/-- `schedule_delay`. -/
def scheduleDelay (realThreadSleepTimeout sgrtTm sprtThread : ObjPtr) (s : Timers)
    (seconds : Nat) : Except Stop (Option Timers) :=
  delayTicks realThreadSleepTimeout sgrtTm sprtThread s (secsToJiffies seconds)

/-- `schedule_delay_ms`. -/
def scheduleDelayMs (realThreadSleepTimeout sgrtTm sprtThread : ObjPtr) (s : Timers)
    (milseconds : Nat) : Except Stop (Option Timers) :=
  delayTicks realThreadSleepTimeout sgrtTm sprtThread s (msecsToJiffies milseconds)

/-! ## Timers that fire on time -/

/-- A timer armed now for `jiffies + d` and left alone is not fired by any of the next `d` ticks,
and is fired by the one after them.  The callback of another timer leaves its own timer alone, re-arms
it or deletes it, and calls nothing else on the list. -/
def FiresOnTime (s : Timers) (t : ObjPtr) (d : Nat) : Prop :=
  ∃ s₀, modTimer s t ((s.jiffies + d) % 2 ^ 32) = .ok s₀ ∧
    ∀ moves callback, Meets timerStep (TimerFits t) s₀ moves → ticks moves ≤ d →
      ∃ s' s'', exec timerStep s₀ moves = some s' ∧ timerStep s' (.tick callback) = some s'' ∧
        s''.fired.count t = s'.fired.count t + if ticks moves = d then 1 else 0

/-- The call suspends the thread with a timer armed for `jiffies + d`. -/
def ArmsTimer (s : Timers) (sgrtTm : ObjPtr) (d : Nat) (call : Except Stop (Option Timers)) : Prop :=
  ∃ s', call = .ok (some s') ∧ Armed s' sgrtTm ((s.jiffies + d) % 2 ^ 32)

/-- `schedule_delay` and `schedule_delay_ms`, called for `d` ticks, arm a timer. -/
def DelaysArm (realThreadSleepTimeout sgrtTm sprtThread : ObjPtr) (s : Timers) (d : Nat) : Prop :=
  (∀ seconds < 2 ^ 32, secsToJiffies seconds = d →
    ArmsTimer s sgrtTm d (scheduleDelay realThreadSleepTimeout sgrtTm sprtThread s seconds)) ∧
  (∀ milseconds < 2 ^ 32, msecsToJiffies milseconds = d →
    ArmsTimer s sgrtTm d (scheduleDelayMs realThreadSleepTimeout sgrtTm sprtThread s milseconds))

/-- Some argument of `schedule_delay` or `schedule_delay_ms` stands for `d` ticks. -/
def IsDelay (d : Nat) : Prop :=
  (∃ seconds < 2 ^ 32, secsToJiffies seconds = d) ∨
    ∃ milseconds < 2 ^ 32, msecsToJiffies milseconds = d

/-- Neither the expiry nor the tick after it is beyond the end of the counter; or the counter is at
its end, the expiry is not zero, and there is no delay of so many ticks. -/
def ClearOfWrap (jiffies d : Nat) : Prop :=
  jiffies + d + 1 < 2 ^ 32 ∨ (jiffies + 1 = 2 ^ 32 ∧ 2 ≤ d ∧ ¬ IsDelay d)

section

variable {s : Timers} {t : ObjPtr} {expires j d : Nat}

/-- A timer for `expires`, armed at the count `j`, is due at the `n`-th tick from then. -/
def DueAt (j expires n : Nat) : Prop := expires ≠ 0 ∧ expires < (j + n) % 2 ^ 32

/-- **A run in which the timer is not due** leaves it armed and does not fire it. -/
theorem exec_armed {moves : List TimerMove} (h : Armed s t expires)
    (hj : s.jiffies < 2 ^ 32) (hmeets : Meets timerStep (TimerFits t) s moves)
    (hidle : ∀ n, 1 ≤ n → n ≤ ticks moves → ¬ DueAt s.jiffies expires n) :
    ∃ s', exec timerStep s moves = some s' ∧ Armed s' t expires ∧
      s'.jiffies = (s.jiffies + ticks moves) % 2 ^ 32 := by
  induction moves generalizing s with
  | nil => exact ⟨s, rfl, h, by rw [ticks, Nat.add_zero, Nat.mod_eq_of_lt hj]⟩
  | cons move moves ih =>
    by_cases hmove : ticks [move] = 0
    · obtain ⟨s₁, hstep, h₁, hjiffies⟩ := timerStep_armed h hmeets.1 hmove
      have hsame : ticks (move :: moves) = ticks moves := by
        cases move with
        | tick callback => cases hmove
        | setupTimer u entry data => rfl
        | modTimer u new => rfl
        | delTimer u => rfl
      rw [hsame] at hidle ⊢
      obtain ⟨s', hexec, h', hlast⟩ := ih h₁ (by rw [hjiffies]; exact hj) (hmeets.2 s₁ hstep)
        (by rw [hjiffies]; exact hidle)
      rw [hjiffies] at hlast
      exact ⟨s', by simpa [exec, hstep] using hexec, h', hlast⟩
    · obtain ⟨callback, rfl⟩ : ∃ callback, move = .tick callback := by
        cases move with
        | tick callback => exact ⟨callback, rfl⟩
        | setupTimer u entry data => exact absurd rfl hmove
        | modTimer u new => exact absurd rfl hmove
        | delTimer u => exact absurd rfl hmove
      obtain ⟨s₁, hrun, hjiffies, -, hno⟩ := systick_armed h callback
      rw [getTimeCounter_jiffies hj] at hjiffies
      have hfirst : ¬ (expires ≠ 0 ∧ expires < s₁.jiffies) := by
        rw [hjiffies]
        exact hidle 1 (le_refl 1) (by rw [ticks]; omega)
      have h₁ := (hno hfirst).2
      have hstep : timerStep s (.tick callback) = some s₁ := by rw [timerStep, hrun]; rfl
      have hshift : ∀ n, (s₁.jiffies + n) % 2 ^ 32 = (s.jiffies + (n + 1)) % 2 ^ 32 := by
        intro n
        rw [hjiffies]
        omega
      obtain ⟨s', hexec, h', hlast⟩ := ih h₁ (by rw [hjiffies]; omega)
        (hmeets.2 s₁ hstep) (fun n h1 hn => by
          rw [DueAt, hshift]
          exact hidle (n + 1) (by omega) (by rw [ticks]; omega))
      refine ⟨s', by simpa [exec, hstep] using hexec, h', ?_⟩
      rw [hlast, hshift, ticks]

/-- Ticks alone meet every condition on the calls between them. -/
theorem meets_replicate_tick (callback : ObjPtr → OwnCall) (n : Nat) :
    Meets timerStep (TimerFits t) s (List.replicate n (.tick callback)) := by
  induction n generalizing s with
  | zero => trivial
  | succ n ih => exact ⟨trivial, fun s' _ => ih⟩

theorem ticks_replicate (callback : ObjPtr → OwnCall) (n : Nat) :
    ticks (List.replicate n (.tick callback)) = n := by
  induction n with
  | zero => rfl
  | succ n ih => rw [List.replicate_succ, ticks, ih]

/-- The tick after a run in which the timer was not due. -/
theorem tick_after {moves : List TimerMove} (h : Armed s t expires) (hj : s.jiffies < 2 ^ 32)
    (hmeets : Meets timerStep (TimerFits t) s moves)
    (hidle : ∀ n, 1 ≤ n → n ≤ ticks moves → ¬ DueAt s.jiffies expires n)
    (callback : ObjPtr → OwnCall) :
    ∃ s' s'', exec timerStep s moves = some s' ∧ timerStep s' (.tick callback) = some s'' ∧
      (DueAt s.jiffies expires (ticks moves + 1) →
        s''.fired.count t = s'.fired.count t + 1) ∧
      (¬ DueAt s.jiffies expires (ticks moves + 1) →
        s''.fired.count t = s'.fired.count t) := by
  obtain ⟨s', hexec, h', hjiffies'⟩ := exec_armed h hj hmeets hidle
  obtain ⟨s'', hrun, hjiffies'', hyes, hno⟩ := systick_armed h' callback
  have hlt : s'.jiffies < 2 ^ 32 := by
    rw [hjiffies']
    exact Nat.mod_lt _ (by decide)
  have hsum : s''.jiffies = (s.jiffies + (ticks moves + 1)) % 2 ^ 32 := by
    rw [hjiffies'', getTimeCounter_jiffies hlt, hjiffies']
    omega
  rw [hsum] at hyes hno
  exact ⟨s', s'', hexec, by rw [timerStep, hrun]; rfl, hyes, fun hidle => (hno hidle).1⟩

/-- `mod_timer` arms a timer that has a function to call. -/
theorem modTimer_armed {ts : List ObjPtr} (hlinked : TimersLinked s ts)
    (hentry : (s.timer t).entry.isSome = true) (expires : Nat) :
    ∃ s₀, modTimer s t expires = .ok s₀ ∧ Armed s₀ t expires ∧ s₀.jiffies = s.jiffies := by
  obtain ⟨s₀, hcall, hlinked', -, htimer, hjiffies, -⟩ := modTimer_spec hlinked t expires
  refine ⟨s₀, hcall, ⟨⟨_, hlinked', ?_⟩, ?_, ?_⟩, hjiffies⟩
  · split
    · assumption
    · simp
  · rw [htimer, Function.update_self]
  · rw [htimer, Function.update_self]
    exact hentry

/-- **Firing on time is a matter of the counts alone.** -/
theorem firesOnTime_iff_due {ts : List ObjPtr} (hlinked : TimersLinked s ts)
    (hj : s.jiffies < 2 ^ 32) (hentry : (s.timer t).entry.isSome = true) :
    FiresOnTime s t d ↔
      ∀ n ≤ d, (DueAt s.jiffies ((s.jiffies + d) % 2 ^ 32) (n + 1) ↔ n = d) := by
  obtain ⟨s₀, hcall, harmed, hjiffies⟩ := modTimer_armed hlinked hentry ((s.jiffies + d) % 2 ^ 32)
  have hj₀ : s₀.jiffies < 2 ^ 32 := by rw [hjiffies]; exact hj
  constructor
  · rintro ⟨s₁, hcall₁, hfires⟩ n
    obtain rfl : s₀ = s₁ := Except.ok.inj (hcall.symm.trans hcall₁)
    -- the ticks before this one did not fire the timer, so it is as it was armed
    induction n using Nat.strong_induction_on with
    | _ n ih =>
      intro hn
      have hmeets := meets_replicate_tick (s := s₀) (t := t) (fun _ => .leave) n
      have hidle : ∀ m, 1 ≤ m → m ≤ ticks (List.replicate n (.tick fun _ => .leave)) →
          ¬ DueAt s₀.jiffies ((s.jiffies + d) % 2 ^ 32) m := by
        intro m h1 hm hdue
        rw [ticks_replicate] at hm
        obtain ⟨k, rfl⟩ : ∃ k, m = k + 1 := ⟨m - 1, by omega⟩
        rw [hjiffies] at hdue
        have := (ih k (by omega) (by omega)).mp hdue
        omega
      obtain ⟨s', s'', hexec, hstep, hyes, hno⟩ := tick_after harmed hj₀ hmeets hidle fun _ => .leave
      obtain ⟨r', r'', hexec', hstep', hcount⟩ :=
        hfires _ (fun _ => .leave) hmeets (by rw [ticks_replicate]; exact hn)
      obtain rfl : s' = r' := Option.some.inj (hexec.symm.trans hexec')
      obtain rfl : s'' = r'' := Option.some.inj (hstep.symm.trans hstep')
      rw [ticks_replicate] at hcount hyes hno
      rw [hjiffies] at hyes hno
      constructor
      · intro hdue
        by_contra hne
        rw [if_neg hne, hyes hdue] at hcount
        omega
      · intro heq
        by_contra hdue
        rw [if_pos heq, hno hdue] at hcount
        omega
  · intro hdue
    refine ⟨s₀, hcall, fun moves callback hmeets hticks => ?_⟩
    have hidle : ∀ m, 1 ≤ m → m ≤ ticks moves →
        ¬ DueAt s₀.jiffies ((s.jiffies + d) % 2 ^ 32) m := by
      intro m h1 hm hbad
      obtain ⟨k, rfl⟩ : ∃ k, m = k + 1 := ⟨m - 1, by omega⟩
      rw [hjiffies] at hbad
      have := (hdue k (by omega)).mp hbad
      omega
    obtain ⟨s', s'', hexec, hstep, hyes, hno⟩ := tick_after harmed hj₀ hmeets hidle callback
    rw [hjiffies] at hyes hno
    refine ⟨s', s'', hexec, hstep, ?_⟩
    by_cases hlast : ticks moves = d
    · rw [if_pos hlast]
      exact hyes ((hdue _ hticks).mpr hlast)
    · rw [if_neg hlast]
      exact hno fun hbad => hlast ((hdue _ hticks).mp hbad)

/-- The counts at which a timer fires on time. -/
theorem due_iff_last (hj : j < 2 ^ 32) (hd : 0 < d) (hd' : d < 2 ^ 31) :
    (∀ n ≤ d, (DueAt j ((j + d) % 2 ^ 32) (n + 1) ↔ n = d)) ↔
      j + d + 1 < 2 ^ 32 ∨ (j + 1 = 2 ^ 32 ∧ 2 ≤ d) := by
  unfold DueAt
  constructor
  · intro h
    have hfirst := h 0 (by omega)
    have hlast := h d (le_refl d)
    omega
  · rintro (h | ⟨h, h2⟩) n hn <;> omega

/-- The counts at which a delay arms its timer. -/
theorem delayTicks_arms {ts : List ObjPtr} {entry tm thread : ObjPtr}
    (hlinked : TimersLinked s ts) (htm : tm ∉ ts) (hj : s.jiffies < 2 ^ 32) (hd : 0 < d)
    (hd' : d < 2 ^ 31) :
    ArmsTimer s tm d (delayTicks entry tm thread s d) ↔ s.jiffies + d < 2 ^ 32 := by
  unfold ArmsTimer delayTicks mrtTimeAfter
  by_cases hwrap : s.jiffies + d < 2 ^ 32
  · have hcount : (s.jiffies + d) % 2 ^ 32 > s.jiffies := by omega
    have hentry : ((setupTimer s tm (some entry) thread.val).timer tm).entry.isSome = true := by
      simp [setupTimer]
    obtain ⟨s₀, hcall, harmed, -⟩ := modTimer_armed
      (setupTimer_linked hlinked htm (some entry) thread.val) hentry ((s.jiffies + d) % 2 ^ 32)
    simp only [decide_eq_true hcount, if_true, scheduleTimeout, hcall, iff_true, hwrap]
    exact ⟨s₀, rfl, harmed⟩
  · have hcount : ¬ (s.jiffies + d) % 2 ^ 32 > s.jiffies := by omega
    simp only [decide_eq_false hcount, hwrap, iff_false]
    rintro ⟨s', hs', -⟩
    cases hs'

/-- **Timers across the wrap of the counter.**  For every count and every delay `d` with
`0 < d < 2 ^ 31`, a timer armed for `jiffies + d` fires on time and a delay of `d` ticks arms such a
timer, exactly if the count is clear of the wrap. -/
theorem fires_on_time_iff {s : Timers} {ts : List ObjPtr} (hlinked : TimersLinked s ts)
    (hj : s.jiffies < 2 ^ 32) {t : ObjPtr} (hentry : (s.timer t).entry.isSome = true)
    {realThreadSleepTimeout sgrtTm sprtThread : ObjPtr} (htm : sgrtTm ∉ ts) {d : Nat}
    (hd : 0 < d) (hd' : d < 2 ^ 31) :
    (FiresOnTime s t d ∧ DelaysArm realThreadSleepTimeout sgrtTm sprtThread s d) ↔
      ClearOfWrap s.jiffies d := by
  have harms := @delayTicks_arms s d ts realThreadSleepTimeout sgrtTm sprtThread hlinked htm hj hd hd'
  have hdelay : DelaysArm realThreadSleepTimeout sgrtTm sprtThread s d ↔
      (IsDelay d → s.jiffies + d < 2 ^ 32) := by
    constructor
    · rintro ⟨hsecs, hmsecs⟩ (⟨n, hn, rfl⟩ | ⟨n, hn, rfl⟩)
      · exact harms.mp (hsecs n hn rfl)
      · exact harms.mp (hmsecs n hn rfl)
    · intro h
      refine ⟨fun n hn heq => ?_, fun n hn heq => ?_⟩
      · rw [scheduleDelay, heq]
        exact harms.mpr (h (Or.inl ⟨n, hn, heq⟩))
      · rw [scheduleDelayMs, heq]
        exact harms.mpr (h (Or.inr ⟨n, hn, heq⟩))
  rw [firesOnTime_iff_due hlinked hj hentry, due_iff_last hj hd hd', hdelay, ClearOfWrap]
  constructor
  · rintro ⟨h | ⟨hend, h2⟩, hno⟩
    · exact Or.inl h
    · refine Or.inr ⟨hend, h2, fun his => ?_⟩
      have := hno his
      omega
  · rintro (h | ⟨hend, h2, hno⟩)
    · exact ⟨Or.inl h, fun _ => by omega⟩
    · exact ⟨Or.inr ⟨hend, h2⟩, fun his => absurd his hno⟩

end

/-- No timer is linked; every timer has the function at `0x38000` to call. -/
def idleTimers (jiffies : Nat) : Timers where
  links := ⟨id, id⟩
  timer := fun _ => ⟨0, some ⟨0x38000, by decide⟩, 0⟩
  jiffies
  jiffiesOut := 0
  fired := []

theorem idleTimers_linked (jiffies : Nat) : TimersLinked (idleTimers jiffies) [] :=
  Ring.nil_iff.mpr ⟨rfl, rfl⟩

/-- Two timers, a thread and a function. -/
def timerA : ObjPtr := ⟨0x31000, by decide⟩

def stackTimer : ObjPtr := ⟨0x32000, by decide⟩

def sleeper : ObjPtr := ⟨0x33000, by decide⟩

def sleepTimeout : ObjPtr := ⟨0x38000, by decide⟩

/-- Ten ticks from the initial value of the counter. -/
theorem fires_on_time_initval :
    ClearOfWrap 86399999 10 ∧ FiresOnTime (idleTimers 86399999) timerA 10 ∧
      DelaysArm sleepTimeout stackTimer sleeper (idleTimers 86399999) 10 := by
  have hclear : ClearOfWrap 86399999 10 := Or.inl (by decide)
  exact ⟨hclear, (fires_on_time_iff (idleTimers_linked 86399999) (by decide) rfl (by simp)
    (by decide) (by decide)).mpr hclear⟩

/-- Five ticks before the wrap, a timer armed for ten ticks is fired by the next one. -/
theorem fires_at_once_before_wrap :
    ¬ ∀ (s : Timers) (ts : List ObjPtr) (t realThreadSleepTimeout sgrtTm sprtThread : ObjPtr)
      (d : Nat), TimersLinked s ts → s.jiffies < 2 ^ 32 → (s.timer t).entry.isSome = true →
      sgrtTm ∉ ts → 0 < d → d < 2 ^ 31 →
      FiresOnTime s t d ∧ DelaysArm realThreadSleepTimeout sgrtTm sprtThread s d := by
  intro h
  obtain ⟨⟨s₀, hcall, hfires⟩, -⟩ := h (idleTimers (2 ^ 32 - 5)) [] timerA sleepTimeout stackTimer
    sleeper 10 (idleTimers_linked _) (by decide) rfl (by simp) (by decide) (by decide)
  obtain ⟨s', s'', hexec, hstep, hcount⟩ := hfires [] (fun _ => .leave) trivial (by decide)
  cases hexec
  have harmed : (modTimer (idleTimers (2 ^ 32 - 5)) timerA 5).toOption.bind
      (fun s => (timerStep s (.tick fun _ => .leave)).map
        fun s' => (s.fired.count timerA, s'.fired.count timerA)) = some (0, 1) := by
    decide +kernel
  have hexpires : ((idleTimers (2 ^ 32 - 5)).jiffies + 10) % 2 ^ 32 = 5 := by decide
  rw [hexpires] at hcall
  rw [hcall] at harmed
  simp only [Except.toOption, Option.bind_some, hstep, Option.map_some, Option.some.injEq,
    Prod.mk.injEq] at harmed
  rw [harmed.1, harmed.2] at hcount
  cases hcount

end HeavenFox.Kernel
