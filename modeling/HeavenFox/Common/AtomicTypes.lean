/-
# HeavenFox.Common.AtomicTypes -- the atomic counters of `atomic_types.h`

`struct atomic` holds one 32-bit counter.  Each operation below is a
load-exclusive / store-exclusive loop that repeats until no one else wrote in
between, so as far as other threads can tell it is one step; `add` and `sub`
wrap around.
-/
import HeavenFox.Logic.Memory32

namespace HeavenFox.Common

open HeavenFox.Logic

/-- `ATOMIC_READ`. -/
def atomicRead (counter : Nat) : Nat := counter

/-- `ATOMIC_SET` on a 32-bit field. -/
def atomicSet (val : Nat) : Nat := val % 2 ^ 32

/-- `atomic_add`. -/
def atomicAdd (i counter : Nat) : Nat := add32 counter i

/-- `atomic_sub`. -/
def atomicSub (i counter : Nat) : Nat := sub32 counter i

/-- `atomic_inc`. -/
def atomicInc (counter : Nat) : Nat := atomicAdd 1 counter

/-- `atomic_dec`. -/
def atomicDec (counter : Nat) : Nat := atomicSub 1 counter

theorem atomicInc_of_lt {counter : Nat} (h : counter + 1 < 2 ^ 32) :
    atomicInc counter = counter + 1 := add32_of_lt h

theorem atomicDec_of_pos {counter : Nat} (h : 1 ≤ counter) (h32 : counter < 2 ^ 32) :
    atomicDec counter = counter - 1 := sub32_of_le h h32

/-- A counter at zero wraps to the largest word. -/
theorem atomicDec_zero : atomicDec 0 = 2 ^ 32 - 1 := by decide

end HeavenFox.Common
