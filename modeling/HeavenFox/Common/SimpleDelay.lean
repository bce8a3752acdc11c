/-
# HeavenFox.Common.SimpleDelay -- the delay counter of `time.c`

`simple_delay_timer_runs` counts in two variables: `g_simple_delay_timer` goes from 0 to
`TIMER_DELAY_COUNTER_MAX`, and `g_simple_timeout_cnt` counts how often it has come round, itself
modulo 256.  The two are put together in `g_delay_timer_counter` by a shift and a mask.

`delayTimer_runs` says what they hold after any number of calls: the two halves of that number,
so that the counter is the number itself, modulo `2 ^ 32`.
-/
import HeavenFox.Logic.BitField
import Mathlib.Logic.Function.Iterate

namespace HeavenFox.Common

open HeavenFox.Logic

/-! ## The counter -/

/-- `TIMER_DELAY_COUNTER_INIT`. -/
def timerDelayCounterInit : UInt32 := 0

/-- `TIMER_DELAY_COUNTER_MAX`. -/
def timerDelayCounterMax : UInt32 := 0x00ffffff

/-- `mrt_bit_mask`: the value is shifted first, then masked. -/
def mrtBitMask (val mask nr : UInt32) : UInt32 := (val <<< nr) &&& mask

/-- The three counters of `time.c`. -/
structure DelayTimer where
  gSimpleDelayTimer : UInt32
  gSimpleTimeoutCnt : UInt32
  gDelayTimerCounter : UInt32
  deriving DecidableEq, Repr

/-- `simple_delay_timer_initial`; it leaves nothing of what the counters held. -/
def simpleDelayTimerInitial (_ : DelayTimer) : DelayTimer where
  gSimpleDelayTimer := timerDelayCounterInit
  gSimpleTimeoutCnt := timerDelayCounterInit
  gDelayTimerCounter := timerDelayCounterInit

/-- `simple_delay_timer_runs`. -/
def simpleDelayTimerRuns (t : DelayTimer) : DelayTimer :=
  -- the test sees the counter before it is incremented
  let old := t.gSimpleDelayTimer
  let t := { t with gSimpleDelayTimer := old + 1 }
  let t :=
    if old ≥ timerDelayCounterMax then
      { t with
        gSimpleDelayTimer := timerDelayCounterInit
        gSimpleTimeoutCnt :=
          if t.gSimpleTimeoutCnt ≥ 255 then timerDelayCounterInit else t.gSimpleTimeoutCnt + 1 }
    else t
  { t with
    gDelayTimerCounter :=
      mrtBitMask t.gSimpleTimeoutCnt (~~~timerDelayCounterMax) 24 + t.gSimpleDelayTimer }

/-- `TIMER_DELAY_COUNTER_MAJOR`. -/
def timerDelayCounterMajor (t : DelayTimer) : UInt32 :=
  (t.gDelayTimerCounter >>> 24) &&& 0x000000ff

/-- `TIMER_DELAY_COUNTER_MINOR`. -/
def timerDelayCounterMinor (t : DelayTimer) : UInt32 :=
  t.gDelayTimerCounter &&& timerDelayCounterMax

/-! ## What it has counted -/

/-- The counters after `n` calls. -/
structure DelayTimer.Counts (t : DelayTimer) (n : Nat) : Prop where
  low : t.gSimpleDelayTimer.toNat = n % 2 ^ 24
  high : t.gSimpleTimeoutCnt.toNat = n / 2 ^ 24 % 2 ^ 8
  counter : t.gDelayTimerCounter.toNat = n % 2 ^ 32

variable {t : DelayTimer} {n : Nat}

theorem simpleDelayTimerInitial_counts (t : DelayTimer) : (simpleDelayTimerInitial t).Counts 0 :=
  ⟨rfl, rfl, rfl⟩

/-- The two halves are put together to the number that they are the halves of. -/
theorem delayHalves_toNat {low high : UInt32} (hlow : low.toNat = n % 2 ^ 24)
    (hhigh : high.toNat = n / 2 ^ 24 % 2 ^ 8) :
    (mrtBitMask high (~~~timerDelayCounterMax) 24 + low).toNat = n % 2 ^ 32 := by
  have hmask : (~~~timerDelayCounterMax).toNat = (2 ^ 8 - 1) * 2 ^ 24 := by decide
  have hshift : (mrtBitMask high (~~~timerDelayCounterMax) 24).toNat =
      2 ^ 24 * bitField high.toNat 0 8 :=
    toNat_shiftLeft_and (show (24 : UInt32).toNat = 24 from rfl) (by decide) (by decide) hmask
  have hbits : bitField high.toNat 0 8 = n / 2 ^ 24 % 2 ^ 8 := by
    rw [bitField, hhigh, Nat.pow_zero, Nat.div_one, Nat.mod_mod]
  rw [UInt32.toNat_add, hshift, hbits, hlow]
  omega

/-- **One call** counts one. -/
theorem simpleDelayTimerRuns_counts (h : t.Counts n) :
    (simpleDelayTimerRuns t).Counts (n + 1) := by
  have hmax : timerDelayCounterMax.toNat = 2 ^ 24 - 1 := rfl
  have hlow := h.low
  have hhigh := h.high
  suffices hhalves : (simpleDelayTimerRuns t).gSimpleDelayTimer.toNat = (n + 1) % 2 ^ 24 ∧
      (simpleDelayTimerRuns t).gSimpleTimeoutCnt.toNat = (n + 1) / 2 ^ 24 % 2 ^ 8 from
    ⟨hhalves.1, hhalves.2, delayHalves_toNat hhalves.1 hhalves.2⟩
  by_cases hcarry : t.gSimpleDelayTimer ≥ timerDelayCounterMax
  · -- the lower half comes round, and the upper one counts it
    have hfull : n % 2 ^ 24 = 2 ^ 24 - 1 := by
      have hle := UInt32.le_iff_toNat_le.mp hcarry
      omega
    simp only [simpleDelayTimerRuns, if_pos hcarry]
    refine ⟨?_, ?_⟩
    · show 0 = (n + 1) % 2 ^ 24
      omega
    · by_cases hwrap : t.gSimpleTimeoutCnt ≥ 255
      · have hle : 255 ≤ t.gSimpleTimeoutCnt.toNat := UInt32.le_iff_toNat_le.mp hwrap
        rw [if_pos hwrap]
        show 0 = (n + 1) / 2 ^ 24 % 2 ^ 8
        omega
      · have hlt : t.gSimpleTimeoutCnt.toNat < 255 :=
          Nat.lt_of_not_le fun hle => hwrap (UInt32.le_iff_toNat_le.mpr hle)
        rw [if_neg hwrap, UInt32.toNat_add]
        show (t.gSimpleTimeoutCnt.toNat + 1) % 2 ^ 32 = (n + 1) / 2 ^ 24 % 2 ^ 8
        omega
  · have hless : t.gSimpleDelayTimer.toNat < 2 ^ 24 - 1 :=
      Nat.lt_of_not_le fun hle => hcarry (UInt32.le_iff_toNat_le.mpr hle)
    simp only [simpleDelayTimerRuns, if_neg hcarry]
    refine ⟨?_, ?_⟩
    · rw [UInt32.toNat_add]
      show (t.gSimpleDelayTimer.toNat + 1) % 2 ^ 32 = (n + 1) % 2 ^ 24
      omega
    · rw [hhigh]
      omega

/-- Any number of calls. -/
theorem delayTimer_counts (t : DelayTimer) (n : Nat) :
    (simpleDelayTimerRuns^[n] (simpleDelayTimerInitial t)).Counts n := by
  induction n with
  | zero => exact simpleDelayTimerInitial_counts t
  | succ n ih =>
    rw [Function.iterate_succ_apply']
    exact simpleDelayTimerRuns_counts ih

/-- The parts of the counter that the two macros read. -/
theorem timerDelayCounter_parts (t : DelayTimer) :
    (timerDelayCounterMajor t).toNat = bitField t.gDelayTimerCounter.toNat 24 8 ∧
      (timerDelayCounterMinor t).toNat = bitField t.gDelayTimerCounter.toNat 0 24 :=
  ⟨toNat_shiftRight_and (by decide) rfl, toNat_and_mask rfl⟩

/-- **The delay counter.**  After `simple_delay_timer_initial` and any number of calls of
`simple_delay_timer_runs` the counter is that number modulo `2 ^ 32`, and the two macros read its
upper 8 bits and its lower 24. -/
theorem delayTimer_runs (t : DelayTimer) (n : Nat) :
    let s := simpleDelayTimerRuns^[n] (simpleDelayTimerInitial t)
    s.gDelayTimerCounter.toNat = n % 2 ^ 32 ∧
      (timerDelayCounterMajor s).toNat = bitField (n % 2 ^ 32) 24 8 ∧
      (timerDelayCounterMinor s).toNat = bitField (n % 2 ^ 32) 0 24 := by
  intro s
  have hcounter : s.gDelayTimerCounter.toNat = n % 2 ^ 32 := (delayTimer_counts t n).counter
  obtain ⟨hmajor, hminor⟩ := timerDelayCounter_parts s
  rw [hcounter] at hmajor hminor
  exact ⟨hcounter, hmajor, hminor⟩

end HeavenFox.Common
