/-
# HeavenFox.Common.ApiNumber -- decimal numbers of `api_string.c`

`convert_number_to_string` divides by ten until nothing is left.  With a buffer it takes the digits
from a second variable that it divides in step, and turns them round at the end; without one it
only counts, as `get_integrater_lenth` does.  The text is the decimal numeral of the number, and
all three agree on its length (`convert_number_exact`).
-/
import HeavenFox.Common.ApiString
import HeavenFox.Logic.Numerals

namespace HeavenFox.Common

open HeavenFox.Logic

/-! ## Digits as characters -/

/-- The character of a decimal digit. -/
def digitChar (d : Nat) : UInt8 := UInt8.ofNat (d + 48)

/-- The digits of the text are those of the number, as characters. -/
theorem decimal_eq_map (n : Nat) : decimal n = (numeral 10 n).map digitChar :=
  List.map_reverse.symm

theorem decimal_ne_nil (n : Nat) : decimal n ≠ [] := by
  rw [decimal_eq_map]
  exact mt List.map_eq_nil_iff.mp (isNumeral_numeral (by decide) n).nonempty

/-- A digit is one of the characters from `0` to `9`. -/
theorem toNat_digitChar {d : Nat} (h : d < 10) : (digitChar d).toNat = d + 48 := by
  rw [digitChar, UInt8.toNat_ofNat']
  omega

theorem mem_decimal {n : Nat} {ch : UInt8} (h : ch ∈ decimal n) : 48 ≤ ch.toNat ∧ ch.toNat < 58 := by
  rw [decimal_eq_map, List.mem_map] at h
  obtain ⟨d, hd, rfl⟩ := h
  have hlt := (isNumeral_numeral (by decide) n).digits d hd
  rw [toNat_digitChar hlt]
  omega

/-! ## How long a number is -/

/-- The loop of `get_integrater_lenth`.  A 64-bit number has at most twenty digits. -/
def integraterLenthLoop : Nat → UInt64 → Nat → Nat
  | 0, _, lenth => lenth
  | rounds + 1, num, lenth =>
    let num := num / 10
    let lenth := add32 lenth 1
    if num ≠ 0 then integraterLenthLoop rounds num lenth else lenth

/-- `get_integrater_lenth`. -/
def getIntegraterLenth (value : UInt64) : Nat := integraterLenthLoop 20 value 0

/-- The loop counts the digits. -/
theorem integraterLenthLoop_eq {num : UInt64} {rounds lenth : Nat} (h : num.toNat < 10 ^ rounds)
    (hpos : 0 < rounds) (hroom : lenth + rounds < 2 ^ 32) :
    integraterLenthLoop rounds num lenth = lenth + (lowDigits 10 num.toNat).length := by
  induction rounds generalizing num lenth with
  | zero => exact absurd hpos (Nat.lt_irrefl 0)
  | succ rounds ih =>
    rw [integraterLenthLoop, lowDigits_eq (by decide), add32_of_lt (by omega)]
    rcases div_ten_cases h with ⟨hnext, hzero⟩ | ⟨hnext, hmore, hdiv, hrounds, hlt⟩
    · rw [if_pos hzero]
      simp [hnext]
    · rw [if_neg hmore]
      simp only [ne_eq, hnext, not_false_eq_true, if_true]
      rw [ih hlt hrounds (by omega), hdiv, List.length_cons]
      omega

theorem getIntegraterLenth_eq (value : UInt64) :
    getIntegraterLenth value = (numeral 10 value.toNat).length := by
  have hlt := value.toNat_lt
  rw [getIntegraterLenth, integraterLenthLoop_eq (by omega) (by decide) (by decide), numeral_length,
    Nat.zero_add]

/-- **`convert_number_to_string` writes the decimal numeral** of every 64-bit number and returns its
length; with a null buffer it returns the same length, which is that of `get_integrater_lenth`. -/
theorem convert_number_exact (m : Mem) (buf : Nat) (v : UInt64) :
    ∃ ds, IsNumeral 10 v.toNat ds ∧
      convertNumberToString m buf v =
        (ds.length, if isValid buf then storeBytes m buf (ds.map digitChar) else m) ∧
      convertNumberToString m 0 v = (ds.length, m) ∧
      getIntegraterLenth v = ds.length := by
  have hlength : (decimal v.toNat).length = (numeral 10 v.toNat).length := by
    rw [decimal_eq_map, List.length_map]
  refine ⟨numeral 10 v.toNat, isNumeral_numeral (by decide) v.toNat, ?_, ?_, getIntegraterLenth_eq v⟩
  · rw [convertNumberToString_eq, hlength, decimal_eq_map]
  · rw [convertNumberToString_eq, hlength]
    rfl

/-- The largest number has all of the twenty digits. -/
example : getIntegraterLenth 0xffffffffffffffff = 20 := by decide

end HeavenFox.Common
