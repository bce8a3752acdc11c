/-
# HeavenFox.Common.BitWords -- bit fields in an array of words

The inline functions of `io_stream.h` that see an array of 32-bit words as a row of bits:
`setbit_to_words` and `clrbit_to_words` write one of them, and `getbit_from_words` reads a field,
the highest bit first.

The loop of the reader tests its counter and decrements it in one expression, and its body takes
one away from it again; so it reads the field that begins one bit before the one it was asked for
(`getbitFromWords_bit`).  `getbitFromWords_iff` says for which fields this cannot be seen.
-/
import HeavenFox.Common.IoStream

namespace HeavenFox.Common

open HeavenFox.Logic

/-! ## The functions

The words are counted from the beginning of memory, and an array begins at word `addr`. -/

/-- `api_bit_mask`; its parameter is a byte. -/
def apiBitMask (index : Nat) : BitVec 32 := 1#32 <<< (index % 2 ^ 8 &&& 0x1f)

/-- `setbit_to_words`. -/
def setbitToWords (nr addr : Nat) (m : Regs) : Regs :=
  let pos := nr >>> 5
  let pAddr := addr + pos
  mrtSetbitl (apiBitMask nr) pAddr m

/-- `clrbit_to_words`. -/
def clrbitToWords (nr addr : Nat) (m : Regs) : Regs :=
  let pos := nr >>> 5
  let pAddr := addr + pos
  mrtClrbitl (apiBitMask nr) pAddr m

/-- `mrt_isBitSetl`. -/
def mrtIsBitSetl (bit : BitVec 32) (addr : Nat) (m : Regs) : Bool :=
  decide (bit = mrtGetbitl bit addr m)

/-- The loop of `getbit_from_words`: the result, and the words it has read.  The counter has been
decremented when the body sees it. -/
def getbitLoop (nr addr : Nat) (m : Regs) : Nat → BitVec 32 → BitVec 32 × List Nat
  | 0, result => (result, [])
  | lenth + 1, result =>
    let pos := sub32 (add32 nr lenth) 1 >>> 5
    let pAddr := addr + pos
    let mask := apiBitMask (sub32 (add32 nr lenth) 1)
    let result := result <<< 1 ||| if mrtIsBitSetl mask pAddr m then 1#32 else 0#32
    let rest := getbitLoop nr addr m lenth result
    (rest.1, pAddr :: rest.2)

/-- `getbit_from_words`. -/
def getbitFromWords (nr lenth addr : Nat) (m : Regs) : BitVec 32 × List Nat :=
  getbitLoop nr addr m lenth 0#32

/-! ## Bits of an array -/

/-- Bit `k` of the array at `addr`. -/
def wordBit (addr : Nat) (m : Regs) (k : Nat) : Bool := (m (addr + k / 32)).getLsbD (k % 32)

section Bits

variable {nr addr lenth k i : Nat} {m : Regs}

theorem apiBitMask_eq (index : Nat) : apiBitMask index = BitVec.twoPow 32 (index % 32) := by
  have hmod : index % 2 ^ 8 &&& 0x1f = index % 32 := by
    rw [show (0x1f : Nat) = 2 ^ 5 - 1 from rfl, Nat.and_two_pow_sub_one_eq_mod]
    omega
  rw [apiBitMask, hmod, BitVec.twoPow_eq]

/-- The test sees the bit. -/
theorem mrtIsBitSetl_eq (addr k : Nat) (m : Regs) :
    mrtIsBitSetl (apiBitMask k) (addr + k / 32) m = wordBit addr m k := by
  have hlt : k % 32 < 32 := Nat.mod_lt _ (by decide)
  have hne : (0#32 : BitVec 32) ≠ BitVec.twoPow 32 (k % 32) := by
    intro hzero
    have hbit := congrArg (fun w => BitVec.getLsbD w (k % 32)) hzero
    simp [hlt] at hbit
  rw [mrtIsBitSetl, mrtGetbitl, apiBitMask_eq, BitVec.and_twoPow, wordBit]
  cases (m (addr + k / 32)).getLsbD (k % 32) with
  | true => simp
  | false => simpa using hne.symm

/-- A write of one word that changes one bit of it. -/
theorem wordBit_update {w : BitVec 32} {value : Bool}
    (hself : w.getLsbD (nr % 32) = value)
    (hother : ∀ i < 32, i ≠ nr % 32 → w.getLsbD i = (m (addr + nr / 32)).getLsbD i) :
    wordBit addr (Function.update m (addr + nr / 32) w) k =
      if k = nr then value else wordBit addr m k := by
  rw [wordBit]
  by_cases hword : k / 32 = nr / 32
  · -- in the same word the bits are told apart by their place
    rw [hword, Function.update_self]
    by_cases hk : k = nr
    · rw [if_pos hk, hk, hself]
    · rw [if_neg hk, hother _ (Nat.mod_lt _ (by decide)) (by omega), wordBit, hword]
  · have hk : k ≠ nr := by
      rintro rfl
      exact hword rfl
    rw [Function.update_of_ne (by omega), if_neg hk, wordBit]

theorem setbitToWords_eq (nr addr : Nat) (m : Regs) :
    setbitToWords nr addr m = Function.update m (addr + nr / 32)
      (m (addr + nr / 32) ||| BitVec.twoPow 32 (nr % 32)) := by
  rw [setbitToWords, Nat.shiftRight_eq_div_pow, apiBitMask_eq]
  rfl

theorem clrbitToWords_eq (nr addr : Nat) (m : Regs) :
    clrbitToWords nr addr m = Function.update m (addr + nr / 32)
      (m (addr + nr / 32) &&& ~~~BitVec.twoPow 32 (nr % 32)) := by
  rw [clrbitToWords, Nat.shiftRight_eq_div_pow, apiBitMask_eq]
  rfl

/-- **`setbit_to_words`** sets its bit and no other one. -/
theorem wordBit_setbitToWords :
    wordBit addr (setbitToWords nr addr m) k = if k = nr then true else wordBit addr m k := by
  have hlt : nr % 32 < 32 := Nat.mod_lt _ (by decide)
  rw [setbitToWords_eq]
  apply wordBit_update
  · rw [BitVec.getLsbD_or, BitVec.getLsbD_twoPow]
    simp [hlt]
  · intro i _ hi
    rw [BitVec.getLsbD_or, BitVec.getLsbD_twoPow]
    simp [hi.symm]

/-- **`clrbit_to_words`** clears its bit and no other one. -/
theorem wordBit_clrbitToWords :
    wordBit addr (clrbitToWords nr addr m) k = if k = nr then false else wordBit addr m k := by
  have hlt : nr % 32 < 32 := Nat.mod_lt _ (by decide)
  rw [clrbitToWords_eq]
  apply wordBit_update
  · rw [BitVec.getLsbD_and, BitVec.getLsbD_not, BitVec.getLsbD_twoPow]
    simp [hlt]
  · intro i hi32 hi
    rw [BitVec.getLsbD_and, BitVec.getLsbD_not, BitVec.getLsbD_twoPow]
    simp [hi.symm, hi32]

/-! ## The reader -/

/-- What the loop leaves in the result: the bits it has read, above them what was there before. -/
theorem getbitLoop_bit (result : BitVec 32) (hi : i < 32) :
    (getbitLoop nr addr m lenth result).1.getLsbD i =
      if i < lenth then wordBit addr m (sub32 (add32 nr i) 1) else result.getLsbD (i - lenth) := by
  induction lenth generalizing result with
  | zero => rw [getbitLoop, if_neg (Nat.not_lt_zero i), Nat.sub_zero]
  | succ lenth ih =>
    have hbit : mrtIsBitSetl (apiBitMask (sub32 (add32 nr lenth) 1))
        (addr + sub32 (add32 nr lenth) 1 >>> 5) m = wordBit addr m (sub32 (add32 nr lenth) 1) := by
      rw [Nat.shiftRight_eq_div_pow]
      exact mrtIsBitSetl_eq addr _ m
    rw [getbitLoop, ih, hbit]
    rcases Nat.lt_trichotomy i lenth with hlt | rfl | hgt
    · rw [if_pos hlt, if_pos (Nat.lt_succ_of_lt hlt)]
    · -- the lowest bit of the result is the one this round has read
      rw [if_neg (Nat.lt_irrefl i), if_pos (Nat.lt_succ_self i), Nat.sub_self]
      cases wordBit addr m (sub32 (add32 nr i) 1) <;> simp
    · rw [if_neg (Nat.lt_asymm hgt), if_neg (show ¬ i < lenth + 1 by omega)]
      obtain ⟨k, rfl⟩ : ∃ k, i = lenth + 1 + k := ⟨i - (lenth + 1), by omega⟩
      have hone : lenth + 1 + k - lenth = k + 1 := by omega
      rw [hone, Nat.add_sub_cancel_left]
      cases wordBit addr m (sub32 (add32 nr lenth) 1) <;> simp <;> omega

/-- The words that are read, the last one first. -/
theorem mem_getbitLoop {a : Nat} (result : BitVec 32) :
    a ∈ (getbitLoop nr addr m lenth result).2 ↔
      ∃ i < lenth, a = addr + sub32 (add32 nr i) 1 / 32 := by
  induction lenth generalizing result with
  | zero => simp [getbitLoop]
  | succ lenth ih =>
    rw [getbitLoop, List.mem_cons, ih, Nat.shiftRight_eq_div_pow]
    constructor
    · rintro (rfl | ⟨i, hi, rfl⟩)
      · exact ⟨lenth, Nat.lt_succ_self lenth, rfl⟩
      · exact ⟨i, Nat.lt_succ_of_lt hi, rfl⟩
    · rintro ⟨i, hi, rfl⟩
      rcases Nat.lt_succ_iff_lt_or_eq.mp hi with hlt | rfl
      · exact Or.inr ⟨i, hlt, rfl⟩
      · exact Or.inl rfl

end Bits

/-! ## Sequences of writes -/

/-- A call that writes a bit. -/
inductive BitCall where
  | setbit (nr : Nat)
  | clrbit (nr : Nat)
  deriving DecidableEq, Repr

namespace BitCall

/-- The bit it writes. -/
def nr : BitCall → Nat
  | setbit nr => nr
  | clrbit nr => nr

/-- What it writes. -/
def value : BitCall → Bool
  | setbit _ => true
  | clrbit _ => false

/-- The call, on the array at `addr`. -/
def run (addr : Nat) (m : Regs) : BitCall → Regs
  | setbit nr => setbitToWords nr addr m
  | clrbit nr => clrbitToWords nr addr m

/-- What the last call on a bit has written, or what the bit was at first. -/
def last (initial : Nat → Bool) (calls : List BitCall) (k : Nat) : Bool :=
  calls.foldl (fun bit call => if k = call.nr then call.value else bit) (initial k)

end BitCall

section Writes

variable {nr lenth addr k : Nat} {m : Regs} {bits : Nat → Bool}

theorem wordBit_run (call : BitCall) :
    wordBit addr (call.run addr m) k = if k = call.nr then call.value else wordBit addr m k := by
  cases call with
  | setbit nr => exact wordBit_setbitToWords
  | clrbit nr => exact wordBit_clrbitToWords

/-- **Every bit** is what the last call on it has written. -/
theorem wordBit_foldl_run (addr : Nat) (m : Regs) (calls : List BitCall) (k : Nat) :
    wordBit addr (calls.foldl (BitCall.run addr) m) k =
      BitCall.last (wordBit addr m) calls k := by
  induction calls generalizing m with
  | nil => rfl
  | cons call calls ih =>
    rw [List.foldl_cons, ih, BitCall.last, wordBit_run]
    rfl

/-- What is expected of a read of the field of `lenth` bits from `nr` on: its bits, and no word that
has none of them.  The numbers of the bits are 32-bit words. -/
structure FieldRead (bits : Nat → Bool) (nr lenth addr : Nat) (r : BitVec 32 × List Nat) : Prop where
  value : ∀ j, r.1.getLsbD j = (decide (j < lenth) && bits (add32 nr j))
  reads : ∀ a ∈ r.2, ∃ j < lenth, a = addr + add32 nr j / 32

/-- The bit before a bit of the field. -/
theorem sub32_add32_succ (nr j : Nat) :
    sub32 (add32 nr (j + 1)) 1 = add32 nr j := by
  unfold sub32 add32
  omega

/-- A field whose first bit is not the first of its word begins in the same word as the bit before
it. -/
theorem word_before_iff (hnr : nr < 2 ^ 32) (hpos : 1 ≤ lenth) (hlenth : lenth ≤ 32) :
    (∃ j < lenth, sub32 (add32 nr 0) 1 / 32 = add32 nr j / 32) ↔ nr % 32 ≠ 0 := by
  unfold sub32 add32
  constructor
  · rintro ⟨j, hj, hword⟩ hfirst
    omega
  · intro hfirst
    exact ⟨0, hpos, by omega⟩

/-- **`getbit_from_words`** returns the bits of the field that begins one bit earlier. -/
theorem getbitFromWords_bit (hlenth : lenth ≤ 32) (j : Nat) :
    (getbitFromWords nr lenth addr m).1.getLsbD j =
      (decide (j < lenth) && wordBit addr m (sub32 (add32 nr j) 1)) := by
  rcases Nat.lt_or_ge j 32 with hj | hj
  · rw [getbitFromWords, getbitLoop_bit _ hj]
    by_cases hin : j < lenth
    · rw [if_pos hin, decide_eq_true hin, Bool.true_and]
    · rw [if_neg hin, decide_eq_false hin, Bool.false_and]
      exact BitVec.getLsbD_zero
  · have hout : ¬ j < lenth := by omega
    rw [BitVec.getLsbD_of_ge _ _ hj, decide_eq_false hout, Bool.false_and]

/-- The bits before the bits of the field are the bits of the field exactly if all have one value. -/
theorem shifted_eq_iff :
    (∀ j < lenth, bits (sub32 (add32 nr j) 1) = bits (add32 nr j)) ↔
      ∃ b, ∀ i ≤ lenth, bits (sub32 (add32 nr i) 1) = b := by
  constructor
  · intro hshift
    refine ⟨bits (sub32 (add32 nr 0) 1), fun i hi => ?_⟩
    induction i with
    | zero => rfl
    | succ i ih =>
      rw [sub32_add32_succ, ← hshift i (by omega)]
      exact ih (by omega)
  · rintro ⟨b, hb⟩ j hj
    have hnext := hb (j + 1) hj
    rw [sub32_add32_succ] at hnext
    rw [hb j (Nat.le_of_lt hj), hnext]

/-- **Reading a field.**  After any calls on an array, `getbit_from_words` reads the field that it
is asked for, and only words of it, exactly if the field does not begin with the first bit of a word
and all its bits have the value of the bit before it. -/
theorem getbitFromWords_iff (addr : Nat) (m : Regs) (calls : List BitCall) (hnr : nr < 2 ^ 32)
    (hpos : 1 ≤ lenth) (hlenth : lenth ≤ 32) :
    FieldRead (BitCall.last (wordBit addr m) calls) nr lenth addr
        (getbitFromWords nr lenth addr (calls.foldl (BitCall.run addr) m)) ↔
      nr % 32 ≠ 0 ∧
        ∃ b, ∀ i ≤ lenth, BitCall.last (wordBit addr m) calls (sub32 (add32 nr i) 1) = b := by
  have hbits := wordBit_foldl_run addr m calls
  generalize calls.foldl (BitCall.run addr) m = m' at hbits ⊢
  generalize BitCall.last (wordBit addr m) calls = bits at hbits ⊢
  rw [← shifted_eq_iff]
  constructor
  · intro h
    constructor
    · -- the word of the bit before the field is read in the last round
      have hread : addr + sub32 (add32 nr 0) 1 / 32 ∈ (getbitFromWords nr lenth addr m').2 :=
        (mem_getbitLoop 0#32).mpr ⟨0, hpos, rfl⟩
      obtain ⟨j, hj, hword⟩ := h.reads _ hread
      exact (word_before_iff hnr hpos hlenth).mp ⟨j, hj, Nat.add_left_cancel hword⟩
    · intro j hj
      have hvalue := h.value j
      rw [getbitFromWords_bit hlenth, hbits, decide_eq_true hj] at hvalue
      simpa using hvalue
  · rintro ⟨hfirst, hshift⟩
    refine ⟨fun j => ?_, fun a ha => ?_⟩
    · rw [getbitFromWords_bit hlenth, hbits]
      by_cases hj : j < lenth
      · rw [hshift j hj]
      · rw [decide_eq_false hj, Bool.false_and, Bool.false_and]
    · obtain ⟨i, hi, rfl⟩ := (mem_getbitLoop 0#32).mp ha
      cases i with
      | zero =>
        obtain ⟨j, hj, hword⟩ := (word_before_iff hnr hpos hlenth).mpr hfirst
        exact ⟨j, hj, by rw [hword]⟩
      | succ i => exact ⟨i, by omega, by rw [sub32_add32_succ]⟩

/-- Bits 32 to 35 of an array are set, and the last three of them are read. -/
theorem getbitFromWords_iff_set :
    33 < 2 ^ 32 ∧
      (FieldRead
          (BitCall.last (wordBit 0 fun _ => 0#32) [.setbit 32, .setbit 33, .setbit 34, .setbit 35])
          33 3 0
          (getbitFromWords 33 3 0
            ([.setbit 32, .setbit 33, .setbit 34, .setbit 35].foldl (BitCall.run 0) fun _ => 0#32)) ↔
        33 % 32 ≠ 0 ∧ ∃ b, ∀ i ≤ 3,
          BitCall.last (wordBit 0 fun _ => 0#32)
            [.setbit 32, .setbit 33, .setbit 34, .setbit 35] (sub32 (add32 33 i) 1) = b) :=
  ⟨by decide, getbitFromWords_iff 0 _ _ (by decide) (by decide) (by decide)⟩

/-- Bit 33 of an array of zeros is set and read: the result is 0.  Bit 0 is looked for in word
`0x7ffffff`. -/
theorem getbitFromWords_off_by_one :
    (getbitFromWords 33 1 0 (setbitToWords 33 0 fun _ => 0#32)).1 = 0#32 ∧
      ¬ FieldRead (BitCall.last (wordBit 0 fun _ => 0#32) [.setbit 33]) 33 1 0
        (getbitFromWords 33 1 0 ([.setbit 33].foldl (BitCall.run 0) fun _ => 0#32)) ∧
      (getbitFromWords 0 1 0 fun _ => 0#32).2 = [0x7ffffff] := by
  refine ⟨by decide, fun h => ?_, by decide⟩
  have hvalue := h.value 0
  exact absurd hvalue (by decide)

end Writes

end HeavenFox.Common
