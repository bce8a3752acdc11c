/-
# HeavenFox.Kernel.SchedStats -- the counter of schedulings

`scheduler_record` counts in two 32-bit fields, `sched_cnt` and `cnt_out`: the call
that finds `sched_cnt` at its largest value sets it to zero and carries into
`cnt_out`.  Together the two fields hold the count modulo `2 ^ 64`, the low word
first (`Counts`).  `scheduler_stats_get` puts them together again, but it weighs
`cnt_out` with `2 ^ 32 - 1` and forms the sum in 32 bits before it is widened.
-/
import HeavenFox.Kernel.Sched
import Mathlib.Logic.Function.Iterate

namespace HeavenFox.Kernel

open HeavenFox.Logic

/-- `__REAL_THREAD_MAX_STATS`. -/
def realThreadMaxStats : Nat := 2 ^ 32 - 1

/-- `scheduler_stats_get`: the expression has the type of its operands, 32 bits wide, and only its
value is stored in a `kuint64_t`. -/
def schedulerStatsGet (s : SchedulerTable) : Nat :=
  add32 (realThreadMaxStats * s.cntOut % 2 ^ 32) s.schedCnt

/-- The table after `n` calls of `scheduler_record`. -/
def recorded (s : SchedulerTable) (n : Nat) : SchedulerTable := schedulerRecord^[n] s

/-! ## What the two fields hold -/

/-- The two fields hold the low and the high word of `n`. -/
structure Counts (s : SchedulerTable) (n : Nat) : Prop where
  low : s.schedCnt = n % 2 ^ 32
  high : s.cntOut = n / 2 ^ 32 % 2 ^ 32

/-- **One call** counts one more.  The carry goes up exactly when the low word is full. -/
theorem Counts.record {s : SchedulerTable} {n : Nat} (h : Counts s n) :
    Counts (schedulerRecord s) (n + 1) := by
  have hlow := h.low
  have hhigh := h.high
  unfold schedulerRecord
  split
  · constructor
    · show 0 = (n + 1) % 2 ^ 32
      omega
    · show add32 s.cntOut 1 = _
      rw [add32]
      omega
  · constructor
    · show add32 s.schedCnt 1 = _
      rw [add32]
      omega
    · show s.cntOut = _
      omega

/-- **Any number of calls.** -/
theorem counts_recorded {s : SchedulerTable} (h : Counts s 0) (n : Nat) :
    Counts (recorded s n) n := by
  induction n with
  | zero => exact h
  | succ n ih =>
    rw [recorded, Function.iterate_succ_apply']
    exact ih.record

/-! ## What is read back -/

/-- The value read is the low word less the high one: `2 ^ 32 - 1` is `-1` in 32 bits. -/
theorem Counts.statsGet {s : SchedulerTable} {n : Nat} (h : Counts s n) :
    schedulerStatsGet s = sub32 (n % 2 ^ 32) (n / 2 ^ 32 % 2 ^ 32) := by
  rw [schedulerStatsGet, h.low, h.high, realThreadMaxStats, add32, sub32]
  omega

/-- **The number of calls is read back exactly while the high word is zero.**  A value that was
formed in 32 bits cannot be larger than that. -/
theorem stats_read_back_iff {s : SchedulerTable} (hlow : s.schedCnt = 0) (hhigh : s.cntOut = 0)
    (n : Nat) (hn : n < 2 ^ 64) : schedulerStatsGet (recorded s n) = n ↔ n < 2 ^ 32 := by
  have hstart : Counts s 0 := ⟨hlow, hhigh⟩
  rw [(counts_recorded hstart n).statsGet]
  constructor
  · intro heq
    rw [← heq]
    exact sub32_lt _ _
  · intro hsmall
    have hzero : n / 2 ^ 32 % 2 ^ 32 = 0 := by omega
    rw [hzero, sub32]
    omega

theorem stats_read_back_iff_first :
    schedulerStatsGet (recorded sgrtRealThreadTabs (2 ^ 32)) = 2 ^ 32 ↔ 2 ^ 32 < 2 ^ 32 :=
  stats_read_back_iff rfl rfl (2 ^ 32) (by decide)

/-- After the call that carries, the value read is the largest one of 32 bits. -/
theorem stats_after_carry :
    schedulerStatsGet (recorded sgrtRealThreadTabs (2 ^ 32)) = 2 ^ 32 - 1 ∧
      schedulerStatsGet (recorded sgrtRealThreadTabs (2 ^ 32)) ≠ 2 ^ 32 := by
  have hstart : Counts sgrtRealThreadTabs 0 := ⟨rfl, rfl⟩
  have hread : schedulerStatsGet (recorded sgrtRealThreadTabs (2 ^ 32)) = 2 ^ 32 - 1 := by
    rw [(counts_recorded hstart (2 ^ 32)).statsGet]
    decide
  exact ⟨hread, by rw [hread]; decide⟩

end HeavenFox.Kernel
