/-
# HeavenFox.Platform.SdcardCommand -- commands of `fwk_sdcard.c` and their checksum

A command is an index, four bytes of argument and a checksum.  `fwk_sdcard_calc_crc7` keeps the
checksum in a byte whose upper bit is what the last shift has pushed out.  Its inner loop is to go
through the bits of a byte and counts to `sizeof(data)`, which is one: only the top bit of every
byte is taken in (`fwkSdcardCalcCrc7_eq`).  So the checksum is that of the message for the empty
message alone (`crc7_right_iff_empty`).
-/
import HeavenFox.Common.ErrorTypes
import HeavenFox.Logic.Bytes
import HeavenFox.Logic.Crc

namespace HeavenFox.Platform

open HeavenFox.Common HeavenFox.Logic Polynomial

/-! ## Commands -/

/-- `ert_fwk_sdcard_resp_t`. -/
inductive SdcardResp where
  | response0 | response1 | response2 | response3 | response4 | response5 | response6 | response7
  | response1b | response5b
  deriving DecidableEq, Repr

/-- `struct fwk_sdcard_data`: one transfer over the data lines. -/
structure FwkSdcardData where
  blockSize : Nat
  blockCount : Nat
  rxBuffer : Nat
  txBuffer : Nat
  flags : UInt32
  deriving DecidableEq, Repr

/-- `struct fwk_sdcard_cmd`.  The four bytes are those of `args` as they lie in memory. -/
structure FwkSdcardCmd where
  index : UInt8
  bytes : List UInt8
  crc : UInt8
  respType : SdcardResp
  ptrData : Option FwkSdcardData
  deriving DecidableEq, Repr

/-- `fwk_sdcard_initial_command`: `args` is kept with its first byte in front. -/
def fwkSdcardInitialCommand (index : UInt8) (args : Nat) (response : SdcardResp) : FwkSdcardCmd :=
  { index, bytes := beBytes args, crc := 0, respType := response, ptrData := none }

/-- The bytes of the structure in front of `crc`.  The union with `args` is aligned to four bytes;
the bytes between it and `index` have been reset. -/
def FwkSdcardCmd.head (cmd : FwkSdcardCmd) : List UInt8 := cmd.index :: 0 :: 0 :: 0 :: cmd.bytes

/-! ## The checksum -/

/-- One round of the inner loop of `fwk_sdcard_calc_crc7`: the checksum and the data. -/
def crc7Round (crc data : UInt8) : UInt8 × UInt8 :=
  let crc := crc <<< 1
  let crc := if (data &&& 0x80) ^^^ (crc &&& 0x80) ≠ 0 then crc ^^^ 0x09 else crc
  (crc, data <<< 1)

/-- The inner loop. -/
def crc7Bits : Nat → UInt8 → UInt8 → UInt8
  | 0, crc, _ => crc
  | rounds + 1, crc, data => crc7Bits rounds (crc7Round crc data).1 (crc7Round crc data).2

/-- `sizeof(data)`, for a `kubyte_t`. -/
def sizeofData : Nat := 1

/-- `fwk_sdcard_calc_crc7`. -/
def fwkSdcardCalcCrc7 (chptr : List UInt8) : UInt8 :=
  chptr.foldl (crc7Bits sizeofData) 0 <<< 1

/-- The start of `fwk_sdcard_add_prefix_suffix`: bits 7 and 6 of the index are set. -/
def FwkSdcardCmd.withPrefix (cmd : FwkSdcardCmd) : FwkSdcardCmd :=
  { cmd with index := cmd.index ||| 0xc0 }

/-- `fwk_sdcard_add_prefix_suffix`. -/
def fwkSdcardAddPrefixSuffix (cmd : FwkSdcardCmd) : FwkSdcardCmd :=
  { cmd.withPrefix with crc := fwkSdcardCalcCrc7 cmd.withPrefix.head ||| 1 }

/-! ## What it is the checksum of -/

/-- The bits of a byte, most significant first. -/
def byteBits (b : UInt8) : List Bool := (List.range 8).map fun i => b.toBitVec.getMsbD i

/-- The bits of a message. -/
def messageBits (l : List UInt8) : List Bool := l.flatMap byteBits

/-- The bit the inner loop looks at. -/
def topBit (b : UInt8) : Bool := b.toBitVec.msb

/-- The seven bits of the register. -/
def crc7Register (crc : UInt8) : BitVec 7 := crc.toBitVec.setWidth 7

theorem and_top (x : BitVec 8) : x &&& 0x80#8 ≠ 0#8 ↔ x.msb = true := by
  revert x
  decide

theorem crc7Register_shift (x : BitVec 8) :
    (x <<< 1).setWidth 7 = x.setWidth 7 <<< 1 ∧ (x <<< 1).msb = (x.setWidth 7).msb := by
  revert x
  decide

/-- Shifted once more, the register is in the upper seven bits. -/
theorem toNat_shift_crc (x : BitVec 8) : (x <<< 1).toNat = 2 * (x.setWidth 7).toNat := by
  revert x
  decide

/-- The test of a round: the top bits differ. -/
theorem top_differs (a b : UInt8) :
    (a &&& 0x80) ^^^ (b &&& 0x80) ≠ 0 ↔ (topBit a ^^ topBit b) = true := by
  have hbits : ((a &&& 0x80) ^^^ (b &&& 0x80)).toBitVec = (a.toBitVec ^^^ b.toBitVec) &&& 0x80#8 := by
    ext i
    simp [Bool.and_xor_distrib_right]
  have hand := and_top (a.toBitVec ^^^ b.toBitVec)
  rw [BitVec.msb_xor] at hand
  rw [topBit, topBit, ← hand, ne_eq, ne_eq, ← UInt8.toBitVec_inj, hbits]
  rfl

/-- A round is a step of the register with the top bit of the data. -/
theorem crc7Register_round (crc data : UInt8) :
    crc7Register (crc7Round crc data).1 = crcStep 9#7 (crc7Register crc) (topBit data) := by
  obtain ⟨hshift, hmsb⟩ := crc7Register_shift crc.toBitVec
  have htest := top_differs data (crc <<< 1)
  have htop : topBit (crc <<< 1) = (crc7Register crc).msb := hmsb
  rw [htop, Bool.xor_comm] at htest
  unfold crc7Round crcStep
  by_cases h : ((crc7Register crc).msb ^^ topBit data) = true
  · simp only [if_pos h, if_pos (htest.mpr h)]
    show ((crc.toBitVec <<< 1) ^^^ 9#8).setWidth 7 = _
    rw [BitVec.setWidth_xor, hshift]
    rfl
  · simp only [if_neg h, if_neg (mt htest.mp h)]
    exact hshift

/-- **What `fwk_sdcard_calc_crc7` computes**: the checksum of the top bits of the bytes, in the upper
seven bits of the result. -/
theorem fwkSdcardCalcCrc7_eq (l : List UInt8) :
    (fwkSdcardCalcCrc7 l).toNat = 2 * (crcRun 9#7 (l.map topBit)).toNat := by
  have hrun : ∀ crc : UInt8, crc7Register (l.foldl (crc7Bits sizeofData) crc) =
      (l.map topBit).foldl (crcStep 9#7) (crc7Register crc) := by
    induction l with
    | nil => exact fun crc => rfl
    | cons data l ih =>
      intro crc
      have hround : crc7Register (crc7Bits sizeofData crc data) =
          crcStep 9#7 (crc7Register crc) (topBit data) := crc7Register_round crc data
      rw [List.foldl_cons, ih, List.map_cons, List.foldl_cons, hround]
  rw [crcRun]
  show _ = 2 * (List.foldl (crcStep 9#7) (crc7Register 0) (l.map topBit)).toNat
  rw [← hrun 0]
  exact toNat_shift_crc _

/-- Bytes with the same top bits have the same checksum. -/
theorem fwkSdcardCalcCrc7_congr {l l' : List UInt8} (h : l.map topBit = l'.map topBit) :
    fwkSdcardCalcCrc7 l = fwkSdcardCalcCrc7 l' := by
  apply UInt8.toNat_inj.mp
  rw [fwkSdcardCalcCrc7_eq, fwkSdcardCalcCrc7_eq, h]

/-! ## The checksum of a message -/

/-- `r` is the CRC of the message with the generator `X ^ 7 + X ^ 3 + 1`. -/
def IsCrc7 (l : List UInt8) (r : BitVec 7) : Prop :=
  regPoly r = (bitsPoly (messageBits l) * X ^ 7) %ₘ (X ^ 7 + X ^ 3 + 1)

theorem generator_crc7 : generator 9#7 = X ^ 7 + X ^ 3 + 1 := by
  have hlow : regPoly 9#7 = X ^ 3 + 1 := by
    ext k
    rw [regPoly_coeff, coeff_add, coeff_X_pow, coeff_one]
    rcases Nat.lt_or_ge k 7 with hk | hk
    · revert k
      decide
    · rw [BitVec.getLsbD_of_ge _ k hk, if_neg (by omega), if_neg (by omega)]
      rfl
  rw [generator, hlow, add_assoc]

/-- The register over all bits of the message holds it. -/
theorem isCrc7_crcRun (l : List UInt8) : IsCrc7 l (crcRun 9#7 (messageBits l)) := by
  rw [IsCrc7, regPoly_crcRun (by decide), crcPoly, generator_crc7]

/-- The result is twice the CRC of the message, the byte that ends a command with this message is
the CRC and the stop bit, and no change of a single bit is missed. -/
structure Crc7Right (l : List UInt8) : Prop where
  value : ∃ r, IsCrc7 l r ∧ (fwkSdcardCalcCrc7 l).toNat = 2 * r.toNat
  ended : ∀ cmd : FwkSdcardCmd, cmd.withPrefix.head = l →
    ∃ r, IsCrc7 l r ∧ (fwkSdcardAddPrefixSuffix cmd).crc.toNat = 2 * r.toNat + 1
  detects : ∀ k < l.length, ∀ j : UInt8, j < 8 →
    fwkSdcardCalcCrc7 (l.modify k fun b => b ^^^ (1 <<< j)) ≠ fwkSdcardCalcCrc7 l

/-- **The checksum is that of the message** for the empty message, and for no other: the lowest bit
of a byte does not enter. -/
theorem crc7_right_iff_empty (l : List UInt8) : Crc7Right l ↔ l = [] := by
  constructor
  · intro h
    cases l with
    | nil => rfl
    | cons b l =>
      have htop : topBit (b ^^^ ((1 : UInt8) <<< 0)) = topBit b := by
        show (b.toBitVec ^^^ 1#8).msb = b.toBitVec.msb
        rw [BitVec.msb_xor]
        exact Bool.xor_false _
      refine absurd (fwkSdcardCalcCrc7_congr ?_) (h.detects 0 (Nat.succ_pos _) 0 (by decide))
      rw [List.modify_zero_cons, List.map_cons, List.map_cons, htop]
  · rintro rfl
    refine ⟨⟨_, isCrc7_crcRun [], rfl⟩, fun cmd h => ?_, fun k hk => absurd hk (Nat.not_lt_zero k)⟩
    exact absurd h (List.cons_ne_nil _ _)

/-- `CMD0` ends with `0x95`, its CRC is `0x4a`; the function returns zero for it. -/
theorem go_idle_is_not_checked :
    ¬ Crc7Right [0x40, 0, 0, 0, 0] ∧ fwkSdcardCalcCrc7 [0x40, 0, 0, 0, 0] = 0 ∧
      crcRun 9#7 (messageBits [0x40, 0, 0, 0, 0]) = 0x4a#7 := by
  refine ⟨fun h => ?_, by decide, by decide +kernel⟩
  exact h.detects 0 (by decide) 0 (by decide) (by decide)

end HeavenFox.Platform
