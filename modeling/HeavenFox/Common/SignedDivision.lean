/-
# HeavenFox.Common.SignedDivision -- the signed division of `generic.c`

`sdiv_integer` takes the absolute values of its operands, subtracts one from the other as often as
it goes, and gives the count a sign.  Words are in two's complement and wrap around; so the absolute
value of the least word, `-2 ^ 31`, is that word again, a negative number.

As the divisor it is below every other word, and the subtraction never ends.  As the dividend it is
below the divisor at once, and the quotient is 0.  For all other operands the quotient is right
(`sdivInteger_returns`), and `division_iff` puts the two together.
-/
import HeavenFox.Common.Generic

namespace HeavenFox.Common

open HeavenFox.Logic

/-- A signed word, `kstype_t`. -/
abbrev Kstype := BitVec 32

/-- `mrt_abs`. -/
def mrtAbs (a : Kstype) : Kstype := if a.slt 0#32 then -a else a

/-- The loop of `sdiv_integer`; it gives back the count. -/
def sdivLoop (number2 : Kstype) : Nat → Kstype → Kstype → Except Stop Kstype
  | 0, _, _ => .error .spins
  | rounds + 1, number1, count =>
    if number2.sle number1 then sdivLoop number2 rounds (number1 - number2) (count + 1#32)
    else .ok count

/-- `sdiv_integer`. -/
def sdivInteger (rounds : Nat) (divied div : Kstype) : Except Stop Kstype := do
  let count ← sdivLoop (mrtAbs div) rounds (mrtAbs divied) 0#32
  .ok (if (divied ^^^ div).slt 0#32 then -count else count)

/-! ## Operands that are not the least word -/

section Loop

variable {number1 number2 count divied div q : Kstype} {rounds : Nat}

/-- On words without a sign the loop is that of the unsigned division. -/
theorem sdivLoop_eq_udivLoop (hnumber2 : number2.toNat < 2 ^ 31) (hnumber1 : number1.toNat < 2 ^ 31) :
    sdivLoop number2 rounds number1 count =
      (udivLoop number2.toNat rounds number1.toNat count.toNat).map fun p => BitVec.ofNat 32 p.1 := by
  induction rounds generalizing number1 count with
  | zero => rfl
  | succ rounds ih =>
    have hsle : number2.sle number1 = decide (number2.toNat ≤ number1.toNat) := by
      rw [BitVec.sle_eq_decide, BitVec.toInt_eq_toNat_of_lt (by omega),
        BitVec.toInt_eq_toNat_of_lt (by omega), decide_eq_decide]
      exact Int.ofNat_le
    rw [sdivLoop, udivLoop, hsle]
    by_cases hle : number2.toNat ≤ number1.toNat
    · have hsub : (number1 - number2).toNat = number1.toNat - number2.toNat :=
        BitVec.toNat_sub_of_le (BitVec.le_def.mpr hle)
      have hcount : (count + 1#32).toNat = add32 count.toNat 1 := BitVec.toNat_add count 1#32
      rw [if_pos (decide_eq_true hle), if_pos hle, ih (by omega), hsub, hcount]
    · rw [if_neg (by simpa using hle), if_neg hle, Except.map, BitVec.ofNat_toNat, BitVec.setWidth_eq]

theorem sdivLoop_eq (hpos : 0 < number2.toNat) (hnumber2 : number2.toNat < 2 ^ 31)
    (hnumber1 : number1.toNat < 2 ^ 31) (hrounds : number1.toNat < rounds) :
    sdivLoop number2 rounds number1 0#32 = .ok (number1 / number2) := by
  have hzero : (0#32).toNat = 0 := rfl
  rw [sdivLoop_eq_udivLoop hnumber2 hnumber1, hzero, udivLoop_eq hpos hrounds (by omega), Except.map,
    Nat.zero_add]
  congr 1
  apply BitVec.eq_of_toNat_eq
  rw [BitVec.toNat_udiv, BitVec.toNat_ofNat]
  exact Nat.mod_eq_of_lt (Nat.lt_of_le_of_lt (Nat.div_le_self _ _) number1.isLt)

/-- The absolute value has no sign, except for the least word. -/
theorem mrtAbs_lt (h : divied ≠ BitVec.intMin 32) : (mrtAbs divied).toNat < 2 ^ 31 := by
  have hne : divied.toNat ≠ 2 ^ 31 := fun heq => h (BitVec.eq_of_toNat_eq heq)
  have hlt := divied.isLt
  rw [mrtAbs, BitVec.slt_zero_eq_msb, BitVec.msb_eq_decide]
  by_cases hneg : 2 ^ 31 ≤ divied.toNat
  · rw [if_pos (decide_eq_true hneg), BitVec.toNat_neg]
    omega
  · rw [if_neg (by simpa using hneg)]
    omega

theorem mrtAbs_pos (h : div ≠ 0#32) : 0 < (mrtAbs div).toNat := by
  have hne : div.toNat ≠ 0 := fun heq => h (BitVec.eq_of_toNat_eq heq)
  have hlt := div.isLt
  rw [mrtAbs]
  split
  · rw [BitVec.toNat_neg]
    omega
  · omega

/-- Dividing the absolute values and setting the sign is signed division. -/
theorem signed_quotient (divied div : Kstype) :
    (if (divied ^^^ div).slt 0#32 then -(mrtAbs divied / mrtAbs div)
      else mrtAbs divied / mrtAbs div) = divied.sdiv div := by
  rw [BitVec.sdiv_eq, BitVec.slt_zero_eq_msb, BitVec.msb_xor, mrtAbs, mrtAbs,
    BitVec.slt_zero_eq_msb, BitVec.slt_zero_eq_msb]
  cases divied.msb <;> cases div.msb <;> rfl

/-- What the call returns, once it has rounds enough. -/
def SdivReturns (divied div q : Kstype) : Prop :=
  TerminatesWith (fun rounds => sdivInteger rounds divied div) q

/-- **`sdiv_integer`** returns the quotient for operands that are not the least word. -/
theorem sdivInteger_returns (hdivied : divied ≠ BitVec.intMin 32) (hdiv : div ≠ BitVec.intMin 32)
    (hzero : div ≠ 0#32) : SdivReturns divied div (divied.sdiv div) := by
  refine ⟨(mrtAbs divied).toNat + 1, fun rounds hrounds => ?_⟩
  show sdivInteger rounds divied div = _
  rw [sdivInteger, sdivLoop_eq (mrtAbs_pos hzero) (mrtAbs_lt hdiv) (mrtAbs_lt hdivied) hrounds]
  show Except.ok _ = _
  rw [signed_quotient]

/-! ## The least word -/

theorem mrtAbs_intMin : mrtAbs (BitVec.intMin 32) = BitVec.intMin 32 := by decide

/-- No word is below the least one, so the loop never ends. -/
theorem sdivLoop_spins (rounds : Nat) (number1 count : Kstype) :
    sdivLoop (BitVec.intMin 32) rounds number1 count = .error .spins := by
  induction rounds generalizing number1 count with
  | zero => rfl
  | succ rounds ih =>
    rw [sdivLoop, if_pos (BitVec.intMin_sle number1)]
    exact ih _ _

/-- **Dividing by the least word** never returns. -/
theorem sdivInteger_spins (rounds : Nat) (divied : Kstype) :
    sdivInteger rounds divied (BitVec.intMin 32) = .error .spins := by
  rw [sdivInteger, mrtAbs_intMin, sdivLoop_spins]
  rfl

/-- **Dividing the least word** returns 0 at once. -/
theorem sdivInteger_intMin (hdiv : div ≠ BitVec.intMin 32) :
    SdivReturns (BitVec.intMin 32) div 0#32 := by
  refine ⟨1, fun rounds hrounds => ?_⟩
  obtain ⟨n, rfl⟩ : ∃ n, rounds = n + 1 := ⟨rounds - 1, by omega⟩
  have hlt : ¬ (mrtAbs div).sle (BitVec.intMin 32) = true := by
    have habs := mrtAbs_lt hdiv
    rw [BitVec.sle_eq_decide, BitVec.toInt_eq_toNat_of_lt (by omega)]
    have hmin : (BitVec.intMin 32).toInt = -2 ^ 31 := rfl
    rw [hmin, decide_eq_true_eq]
    omega
  show sdivInteger (n + 1) (BitVec.intMin 32) div = _
  rw [sdivInteger, mrtAbs_intMin, sdivLoop, if_neg hlt]
  show Except.ok _ = _
  rw [BitVec.neg_zero, ite_self]

end Loop

/-! ## What is expected of the three functions -/

/-- What is expected of the three functions on two words: the quotient and the remainder of the
unsigned words, and the quotient of the signed ones, cut towards zero, where it is a word. -/
structure DivisionMeets (divied div : BitVec 32) : Prop where
  quotient : udivInteger divied.toNat div.toNat = .ok (divied.toNat / div.toNat)
  remainder : udivRemainder divied.toNat div.toNat = .ok (divied.toNat % div.toNat)
  terminates : ∃ q, SdivReturns divied div q
  signed : -2 ^ 31 ≤ divied.toInt.tdiv div.toInt → divied.toInt.tdiv div.toInt < 2 ^ 31 →
    ∃ q, SdivReturns divied div q ∧ q.toInt = divied.toInt.tdiv div.toInt

section Meets

variable {divied div q : Kstype}

theorem not_sdivReturns_intMin : ¬ SdivReturns divied (BitVec.intMin 32) q := by
  rintro ⟨m, hm⟩
  have heq := (sdivInteger_spins m divied).symm.trans (hm m (Nat.le_refl m))
  cases heq

/-- The least word is no smaller than any divisor, so its quotient is not 0. -/
theorem intMin_tdiv_ne_zero (hdiv : div ≠ 0#32) :
    (BitVec.intMin 32).toInt.tdiv div.toInt ≠ 0 := by
  intro hzero
  have habs : 2 ^ 31 / div.toInt.natAbs = 0 := by
    have hnat := congrArg Int.natAbs hzero
    rw [Int.natAbs_tdiv] at hnat
    exact hnat
  have hlow := BitVec.le_toInt div
  have hhigh := BitVec.toInt_lt (x := div)
  have hne : div.toInt ≠ 0 := fun heq => hdiv (BitVec.eq_of_toInt_eq heq)
  rw [Nat.div_eq_zero_iff] at habs
  omega

/-- **Division.**  On operands whose divisor is not 0 the three functions return what is expected
of them exactly if neither operand is the least word, or the quotient of the least word by -1 is
asked for, which is no word. -/
theorem division_iff (hdiv : div ≠ 0#32) :
    DivisionMeets divied div ↔
      divied ≠ BitVec.intMin 32 ∧ div ≠ BitVec.intMin 32 ∨
        divied = BitVec.intMin 32 ∧ div = -1#32 := by
  have hpos : 0 < div.toNat := Nat.pos_of_ne_zero fun heq => hdiv (BitVec.eq_of_toNat_eq heq)
  have hquotient := udivInteger_eq hpos divied.isLt
  have hremainder := udivRemainder_eq hpos divied.isLt
  constructor
  · intro h
    have hdivMin : div ≠ BitVec.intMin 32 := by
      rintro rfl
      obtain ⟨q, hq⟩ := h.terminates
      exact not_sdivReturns_intMin hq
    by_cases hdivied : divied = BitVec.intMin 32
    · -- the call returns 0, and the quotient is another word unless the divisor is -1
      subst hdivied
      refine Or.inr ⟨rfl, ?_⟩
      by_contra hone
      have hfits := BitVec.toInt_sdiv_of_ne_or_ne (BitVec.intMin 32) div (Or.inr hone)
      have hlow := BitVec.le_toInt ((BitVec.intMin 32).sdiv div)
      have hhigh := BitVec.toInt_lt (x := (BitVec.intMin 32).sdiv div)
      rw [hfits] at hlow hhigh
      obtain ⟨q, hq, hvalue⟩ := h.signed hlow hhigh
      have hzero : q = 0#32 := TerminatesWith.unique hq (sdivInteger_intMin hdivMin)
      rw [hzero] at hvalue
      exact intMin_tdiv_ne_zero hdiv hvalue.symm
    · exact Or.inl ⟨hdivied, hdivMin⟩
  · rintro (⟨hdivied, hdivMin⟩ | ⟨rfl, rfl⟩)
    · have hreturns := sdivInteger_returns hdivied hdivMin hdiv
      exact ⟨hquotient, hremainder, ⟨_, hreturns⟩, fun _ _ =>
        ⟨_, hreturns, BitVec.toInt_sdiv_of_ne_or_ne divied div (Or.inl hdivied)⟩⟩
    · have hreturns : SdivReturns (BitVec.intMin 32) (-1#32) 0#32 := sdivInteger_intMin (by decide)
      have hlarge : (BitVec.intMin 32).toInt.tdiv (-1#32).toInt = 2 ^ 31 := by decide
      exact ⟨hquotient, hremainder, ⟨_, hreturns⟩, fun _ hlt => absurd hlt (by rw [hlarge]; omega)⟩

/-- Seven by minus two. -/
theorem division_iff_seven : (-2#32 : Kstype) ≠ 0#32 ∧
    (DivisionMeets 7#32 (-2#32) ↔
      (7#32 : Kstype) ≠ BitVec.intMin 32 ∧ -2#32 ≠ BitVec.intMin 32 ∨
        (7#32 : Kstype) = BitVec.intMin 32 ∧ -2#32 = -1#32) :=
  ⟨by decide, division_iff (by decide)⟩

/-- `sdiv_integer(-2147483648, 1)` returns 0, and `sdiv_integer(1, -2147483648)` never returns. -/
theorem sdivInteger_least_word :
    (SdivReturns (BitVec.intMin 32) 1#32 0#32 ∧ ¬ DivisionMeets (BitVec.intMin 32) 1#32) ∧
      (∀ rounds, sdivInteger rounds 1#32 (BitVec.intMin 32) = .error .spins) ∧
      ¬ DivisionMeets 1#32 (BitVec.intMin 32) := by
  have hreturns : SdivReturns (BitVec.intMin 32) 1#32 0#32 := sdivInteger_intMin (by decide)
  refine ⟨⟨hreturns, fun h => ?_⟩, fun rounds => sdivInteger_spins rounds 1#32, fun h => ?_⟩
  · obtain ⟨q, hq, hvalue⟩ := h.signed (by decide) (by decide)
    rw [TerminatesWith.unique hq hreturns] at hvalue
    exact absurd hvalue (by decide)
  · obtain ⟨q, hq⟩ := h.terminates
    exact not_sdivReturns_intMin hq

end Meets

end HeavenFox.Common
