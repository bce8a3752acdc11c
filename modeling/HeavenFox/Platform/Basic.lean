/-
# HeavenFox.Platform.Basic -- device numbers

`fwk_basic.h`: a device number is 32 bits, twelve for the major and twenty for the
minor, and there are tables for the first 255 majors only.  Of `generic.h`, which it
includes, the distance of two numbers is here.
-/
import HeavenFox.Logic.Memory32

namespace HeavenFox.Platform

open HeavenFox.Logic

/-- `mrt_usub`: the distance of two numbers. -/
def mrtUsub (a b : Nat) : Nat := if a > b then a - b else b - a

/-- `DEVICE_MAX_NUM`. -/
abbrev deviceMaxNum : Nat := 255

instance deviceMaxNum.neZero : NeZero deviceMaxNum := ⟨by decide⟩

/-- `DEVICE_MAJOR_BASE`. -/
abbrev deviceMajorBase : Nat := 3

/-- `DEV_MINOR_BITS`. -/
abbrev devMinorBits : Nat := 20

/-- `MKE_DEV_NUM`. -/
def mkeDevNum (major minor : Nat) : Nat := (major <<< devMinorBits) % 2 ^ 32 ||| minor

/-- `GET_DEV_MAJOR`. -/
def getDevMajor (devNum : Nat) : Nat := devNum >>> devMinorBits

/-- `GET_DEV_MINOR`. -/
def getDevMinor (devNum : Nat) : Nat := devNum &&& ((1 <<< devMinorBits) - 1)

theorem getDevMajor_eq (devNum : Nat) : getDevMajor devNum = devNum / 2 ^ 20 :=
  Nat.shiftRight_eq_div_pow devNum 20

theorem getDevMinor_eq (devNum : Nat) : getDevMinor devNum = devNum % 2 ^ 20 :=
  Nat.and_two_pow_sub_one_eq_mod devNum 20

/-- The first number of a major. -/
theorem mkeDevNum_zero (major : Nat) : mkeDevNum major 0 = major * 2 ^ 20 % 2 ^ 32 := by
  rw [mkeDevNum, Nat.or_zero, Nat.shiftLeft_eq]

/-- Majors have twelve bits. -/
theorem getDevMajor_lt {devNum : Nat} (h : devNum < 2 ^ 32) : getDevMajor devNum < 2 ^ 12 := by
  rw [getDevMajor_eq]
  omega

/-- The first number of the next major; behind the last one it is 0 again. -/
theorem nextMajor_eq {devNum : Nat} (h : devNum < 2 ^ 32) :
    mkeDevNum (add32 (getDevMajor devNum) 1) 0 =
      if devNum < 4095 * 2 ^ 20 then (devNum / 2 ^ 20 + 1) * 2 ^ 20 else 0 := by
  have hmajor := getDevMajor_lt h
  rw [add32_of_lt (by omega), mkeDevNum_zero, getDevMajor_eq]
  split <;> omega

end HeavenFox.Platform
