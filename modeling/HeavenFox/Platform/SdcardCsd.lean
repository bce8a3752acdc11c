/-
# HeavenFox.Platform.SdcardCsd -- the card-specific data register of `fwk_sdcard.c`

`fwk_sdcard_command_get_csd` receives a register of 128 bits in four words and cuts its fields out
by shifts and masks.  The size of the card straddles two words in both versions of the register,
and the masks are too narrow: the upper four bits of the 12-bit size of version 1.0 are lost, and
the upper fourteen of the 22-bit size of version 2.0.  The flag for the erasure of single blocks is
taken from bit 40 and not from bit 46.  Where the lost bits are zero and those two bits agree, the
capacity and the erase fields are right (`csd_decoded_iff`).
-/
import HeavenFox.Logic.BitField
import HeavenFox.Platform.SdcardCommand
import Mathlib.Data.UInt

namespace HeavenFox.Platform

open HeavenFox.Common HeavenFox.Logic

/-! ## The card -/

/-- `struct fwk_sdcard_csd`. -/
structure FwkSdcardCsd where
  csdStructure : UInt8
  dataReadAccessTime1 : UInt8
  dataReadAccessTime2 : UInt8
  transferSpeed : UInt8
  cardCommandClass : UInt16
  readBlockLength : UInt8
  deviceSize : UInt32
  readCurrentVddMin : UInt8
  readCurrentVddMax : UInt8
  writeCurrentVddMin : UInt8
  writeCurrentVddMax : UInt8
  deviceSizeMultiplier : UInt8
  eraseSingleBlockEnable : UInt8
  eraseSectorSize : UInt8
  writeProtectGroupSize : UInt8
  writeSpeedFactor : UInt8
  writeBlockLength : UInt8
  fileFormat : UInt8
  flagBit : UInt32
  deriving DecidableEq, Repr

/-- `struct fwk_sdcard`: what the transfers use of it. -/
structure FwkSdcard where
  relativeAddr : UInt16
  blockCount : UInt32
  blockSize : UInt32
  capacity : UInt32
  csd : FwkSdcardCsd
  deriving DecidableEq, Repr

/-- What happens on the lines between host and card. -/
inductive SdEvent where
  | command (cmd : FwkSdcardCmd)
  | receive (data : FwkSdcardData)
  | send (data : FwkSdcardData)
  deriving DecidableEq, Repr

/-- A response has four words, which numerals name. -/
instance responseWords : NeZero 4 := ⟨by decide⟩

/-- `struct fwk_sdcard_if` with its host: what the callbacks return may depend on everything that
has happened on the lines.  `addHeadTail` is the null pointer or `fwk_sdcard_add_prefix_suffix`. -/
structure FwkSdcardIf where
  maxBlockCount : Nat
  addHeadTail : Bool
  sendCommand : List SdEvent → Int
  recvResp : List SdEvent → Fin 4 → UInt32
  recvData : List SdEvent → Int
  sendData : List SdEvent → Int

/-- The card, and what has happened on the lines. -/
structure SdState where
  card : FwkSdcard
  bus : List SdEvent

/-- `FWK_SDCARD_DEFAULT_BLOCKSIZE` -/
def fwkSdcardDefaultBlocksize : Nat := 512

/-- `NR_SdCard_Cmd_GetCSD` -/
def nrSdCardCmdGetCsd : UInt8 := 9

/-- `FWK_SDCARD_CMD_RCA_ARGS` -/
def fwkSdcardCmdRcaArgs (data : UInt16) : Nat := data.toNat * 2 ^ 16

/-! ## The register -/

/-- `mrt_bit_nr` -/
def mrtBitNr (val nr : UInt32) : UInt32 := val <<< nr

/-- `mrt_bit` -/
def mrtBit (nr : UInt32) : UInt32 := mrtBitNr 1 nr

/-- `mrt_fwk_sdcard_csd_setflagbit`: a flag is set where a bit of the response is. -/
def csdSetFlagBit (resp respBit flag flagBit : UInt32) : UInt32 :=
  if resp &&& respBit = respBit then flagBit ||| flag else flagBit

/-- The flags of the register. -/
def csdFlagBits (resp : Fin 4 → UInt32) : UInt32 :=
  let flagBit := csdSetFlagBit (resp 0) (mrtBit 12) (mrtBit 0) 0
  let flagBit := csdSetFlagBit (resp 0) (mrtBit 13) (mrtBit 1) flagBit
  let flagBit := csdSetFlagBit (resp 0) (mrtBit 14) (mrtBit 2) flagBit
  let flagBit := csdSetFlagBit (resp 0) (mrtBit 15) (mrtBit 3) flagBit
  let flagBit := csdSetFlagBit (resp 0) (mrtBit 21) (mrtBit 4) flagBit
  let flagBit := csdSetFlagBit (resp 0) (mrtBit 31) (mrtBit 5) flagBit
  let flagBit := csdSetFlagBit (resp 1) (mrtBit 14) (mrtBit 6) flagBit
  let flagBit := csdSetFlagBit (resp 2) (mrtBit 12) (mrtBit 7) flagBit
  let flagBit := csdSetFlagBit (resp 2) (mrtBit 13) (mrtBit 8) flagBit
  let flagBit := csdSetFlagBit (resp 2) (mrtBit 14) (mrtBit 9) flagBit
  csdSetFlagBit (resp 2) (mrtBit 15) (mrtBit 10) flagBit

/-- `case 0U`: the size of a card of version 1.0. -/
def csdVersion1 (card : FwkSdcard) (resp : Fin 4 → UInt32) : FwkSdcard :=
  let csd := { card.csd with
    deviceSize := (resp 2 <<< (2 : UInt32) &&& 0xfc) ||| (resp 1 >>> (30 : UInt32) &&& 0x3)
    readCurrentVddMin := (resp 1 >>> 27 &&& 0x7).toUInt8
    readCurrentVddMax := (resp 1 >>> 24 &&& 0x7).toUInt8
    writeCurrentVddMin := (resp 1 >>> 21 &&& 0x7).toUInt8
    writeCurrentVddMax := (resp 1 >>> 18 &&& 0x7).toUInt8
    deviceSizeMultiplier := (resp 1 >>> 15 &&& 0x7).toUInt8 }
  let blockCount := mrtBitNr (csd.deviceSize + 1) (csd.deviceSizeMultiplier.toUInt32 + 2)
  { card with
    csd
    blockCount
    blockSize := mrtBit csd.readBlockLength.toUInt32
    capacity := blockCount <<< csd.readBlockLength.toUInt32 }

/-- `case 1U`: the size of a card of version 2.0. -/
def csdVersion2 (card : FwkSdcard) (resp : Fin 4 → UInt32) : FwkSdcard :=
  let csd := { card.csd with
    deviceSize := (resp 2 <<< (16 : UInt32) &&& 0x3f00) ||| (resp 1 >>> (16 : UInt32) &&& 0xff) }
  let blockCount := (csd.deviceSize + 1) <<< (10 : UInt32)
  { card with csd, blockCount, blockSize := 512, capacity := blockCount <<< (9 : UInt32) }

/-- The fields in front of the size. -/
def csdFront (card : FwkSdcard) (resp : Fin 4 → UInt32) : FwkSdcard :=
  { card with csd := { card.csd with
    csdStructure := (resp 3 >>> 30).toUInt8
    dataReadAccessTime1 := (resp 3 >>> 16).toUInt8
    dataReadAccessTime2 := (resp 3 >>> 8).toUInt8
    transferSpeed := (resp 3).toUInt8
    cardCommandClass := (resp 2 >>> 20).toUInt16
    readBlockLength := (resp 2 >>> 16 &&& 0xf).toUInt8 } }

/-- The fields behind the size. -/
def csdBack (card : FwkSdcard) (resp : Fin 4 → UInt32) : FwkSdcard :=
  { card with csd := { card.csd with
    eraseSingleBlockEnable := (resp 1 >>> 8 &&& 0x1).toUInt8
    eraseSectorSize := (resp 1 >>> 7 &&& 0x7f).toUInt8
    writeProtectGroupSize := (resp 1 &&& 0x7f).toUInt8
    writeSpeedFactor := (resp 0 >>> 26 &&& 0x7).toUInt8
    writeBlockLength := (resp 0 >>> 22 &&& 0xf).toUInt8
    fileFormat := (resp 0 >>> 10 &&& 0x3).toUInt8
    flagBit := csdFlagBits resp } }

@[simp] theorem csdBack_blockCount (card : FwkSdcard) (resp : Fin 4 → UInt32) :
    (csdBack card resp).blockCount = card.blockCount := rfl

@[simp] theorem csdBack_blockSize (card : FwkSdcard) (resp : Fin 4 → UInt32) :
    (csdBack card resp).blockSize = card.blockSize := rfl

/-- The part of `fwk_sdcard_command_get_csd` that takes the response apart. -/
def updateCsd (card : FwkSdcard) (resp : Fin 4 → UInt32) : FwkSdcard :=
  let card := csdFront card resp
  let card :=
    if card.csd.csdStructure = 0 then csdVersion1 card resp
    else if card.csd.csdStructure = 1 then csdVersion2 card resp
    else card
  csdBack card resp

/-- `fwk_sdcard_command_get_csd` without an interface: the command is set up. -/
def getCsdCommand (flags : UInt16) : FwkSdcardCmd :=
  fwkSdcardInitialCommand nrSdCardCmdGetCsd (fwkSdcardCmdRcaArgs flags) .response2

/-- `fwk_sdcard_command_get_csd` with an interface. -/
def fwkSdcardCommandGetCsd (sprtIf : FwkSdcardIf) (cmd : FwkSdcardCmd) (s : SdState) :
    Int × SdState :=
  let s := { s with bus := s.bus ++ [.command cmd] }
  let iRetval := sprtIf.sendCommand s.bus
  if iRetval ≠ 0 then (iRetval, s)
  else (iRetval, { s with card := updateCsd s.card (sprtIf.recvResp s.bus) })

/-! ## What the register says -/

/-- The register in four words, the most significant one the last. -/
def csdWords (csd : BitVec 128) (i : Fin 4) : UInt32 :=
  UInt32.ofNat (bitField csd.toNat (32 * i.val) 32)

/-- The capacity in bytes that the register stands for. -/
def csdCapacity (csd : BitVec 128) : Nat :=
  if bitField csd.toNat 126 2 = 0 then
    (bitField csd.toNat 62 12 + 1) * 2 ^ (bitField csd.toNat 47 3 + 2) * 2 ^ bitField csd.toNat 80 4
  else (bitField csd.toNat 48 22 + 1) * (512 * 1024)

/-- The card has the capacity and the erase fields of the register. -/
structure CsdDecoded (csd : BitVec 128) (card : FwkSdcard) : Prop where
  capacity : card.blockCount.toNat * card.blockSize.toNat = csdCapacity csd
  sector : card.csd.eraseSectorSize.toNat = bitField csd.toNat 39 7
  single : card.csd.eraseSingleBlockEnable.toNat = bitField csd.toNat 46 1

section Decoding

variable {csd : BitVec 128} {card : FwkSdcard}

theorem toNat_csdWords (csd : BitVec 128) (i : Fin 4) :
    (csdWords csd i).toNat = bitField csd.toNat (32 * i.val) 32 :=
  UInt32.toNat_ofNat_of_lt' (bitField_lt _ _ _)

/-- A field that lies in one word. -/
theorem toNat_csdWords_field {i : Fin 4} {s mask : UInt32} {n : Nat}
    (hn : s.toNat + n ≤ 32) (hs : s.toNat < 32) (hmask : mask.toNat = 2 ^ n - 1) :
    (csdWords csd i >>> s &&& mask).toNat = bitField csd.toNat (32 * i.val + s.toNat) n := by
  rw [toNat_shiftRight_and hs hmask, toNat_csdWords, bitField_bitField hn]

/-- A field of at most eight bits fits into its byte. -/
theorem toNat_csdWords_byte {i : Fin 4} {s mask : UInt32} {n : Nat}
    (hn : s.toNat + n ≤ 32) (hs : s.toNat < 32) (hmask : mask.toNat = 2 ^ n - 1)
    (hbyte : n ≤ 8) :
    (csdWords csd i >>> s &&& mask).toUInt8.toNat =
      bitField csd.toNat (32 * i.val + s.toNat) n := by
  have hlt : bitField csd.toNat (32 * i.val + s.toNat) n < 2 ^ 8 :=
    Nat.lt_of_lt_of_le (bitField_lt _ _ _) (Nat.pow_le_pow_right (by decide) hbyte)
  rw [UInt32.toNat_toUInt8, toNat_csdWords_field hn hs hmask]
  exact Nat.mod_eq_of_lt hlt

theorem toNat_csdStructure (csd : BitVec 128) (card : FwkSdcard) :
    (csdFront card (csdWords csd)).csd.csdStructure.toNat = bitField csd.toNat 126 2 := by
  have hword : csdWords csd 3 >>> (30 : UInt32) &&& 0x3 = csdWords csd 3 >>> (30 : UInt32) := by
    apply UInt32.toNat_inj.mp
    have hlt := (csdWords csd 3).toNat_lt
    rw [toNat_shiftRight_and (n := 2) (by decide) (by decide), UInt32.toNat_shiftRight,
      Nat.shiftRight_eq_div_pow]
    show (csdWords csd 3).toNat / 2 ^ 30 % 2 ^ 2 = (csdWords csd 3).toNat / 2 ^ 30
    omega
  show (csdWords csd 3 >>> 30).toUInt8.toNat = _
  rw [← hword]
  exact toNat_csdWords_byte (i := 3) (s := 30) (n := 2) (by decide) (by decide) (by decide)
    (by decide)

/-- The size of version 1.0 that is kept: the lower eight of its twelve bits. -/
theorem toNat_deviceSize_version1 (csd : BitVec 128) (card : FwkSdcard) :
    (csdVersion1 card (csdWords csd)).csd.deviceSize.toNat = bitField csd.toNat 62 8 := by
  have hlow : (csdWords csd 1 >>> (30 : UInt32) &&& 0x3).toNat = bitField csd.toNat 62 2 :=
    toNat_csdWords_field (i := 1) (s := 30) (by decide) (by decide) (by decide)
  have hhigh : (csdWords csd 2 <<< (2 : UInt32) &&& 0xfc).toNat =
      2 ^ 2 * bitField csd.toNat 64 6 := by
    rw [toNat_shiftLeft_and (n := 6) (k := 2) rfl (by decide) (by decide) (by decide),
      toNat_csdWords, bitField_bitField (by decide)]
    rfl
  have hlt : (csdWords csd 1 >>> (30 : UInt32) &&& 0x3).toNat < 2 ^ 2 := hlow ▸ bitField_lt _ _ _
  show ((csdWords csd 2 <<< (2 : UInt32) &&& 0xfc) |||
    (csdWords csd 1 >>> (30 : UInt32) &&& 0x3)).toNat = _
  rw [toNat_or_of_lt hhigh hlt, hlow]
  exact (bitField_split csd.toNat 62 2 6).symm

/-- The size of version 2.0 that is kept: the lower eight of its twenty-two bits. -/
theorem toNat_deviceSize_version2 (csd : BitVec 128) (card : FwkSdcard) :
    (csdVersion2 card (csdWords csd)).csd.deviceSize.toNat = bitField csd.toNat 48 8 := by
  have hlow : (csdWords csd 1 >>> (16 : UInt32) &&& 0xff).toNat = bitField csd.toNat 48 8 :=
    toNat_csdWords_field (i := 1) (s := 16) (by decide) (by decide) (by decide)
  have hhigh : (csdWords csd 2 <<< (16 : UInt32) &&& 0x3f00).toNat = 0 :=
    toNat_shiftLeft_and_of_lt (by decide) (by decide)
  show ((csdWords csd 2 <<< (16 : UInt32) &&& 0x3f00) |||
    (csdWords csd 1 >>> (16 : UInt32) &&& 0xff)).toNat = _
  rw [UInt32.toNat_or, hhigh, Nat.zero_or, hlow]

/-- The blocks of a card of version 1.0 make up its size, times the two powers of its register. -/
theorem capacity_version1 (csd : BitVec 128) (card : FwkSdcard) :
    (csdVersion1 (csdFront card (csdWords csd)) (csdWords csd)).blockCount.toNat *
        (csdVersion1 (csdFront card (csdWords csd)) (csdWords csd)).blockSize.toNat =
      (bitField csd.toNat 62 8 + 1) * 2 ^ (bitField csd.toNat 47 3 + 2) *
        2 ^ bitField csd.toNat 80 4 := by
  let c := csdVersion1 (csdFront card (csdWords csd)) (csdWords csd)
  show c.blockCount.toNat * c.blockSize.toNat = _
  have hsize : c.csd.deviceSize.toNat = bitField csd.toNat 62 8 := toNat_deviceSize_version1 csd _
  have hmult : c.csd.deviceSizeMultiplier.toNat = bitField csd.toNat 47 3 :=
    toNat_csdWords_byte (i := 1) (s := 15) (by decide) (by decide) (by decide) (by decide)
  have hlen : c.csd.readBlockLength.toNat = bitField csd.toNat 80 4 :=
    toNat_csdWords_byte (i := 2) (s := 16) (by decide) (by decide) (by decide) (by decide)
  have hsize_lt := bitField_lt csd.toNat 62 8
  have hmult_lt := bitField_lt csd.toNat 47 3
  have hlen_lt := bitField_lt csd.toNat 80 4
  have hshift : (c.csd.deviceSizeMultiplier.toUInt32 + 2).toNat = bitField csd.toNat 47 3 + 2 := by
    rw [UInt32.toNat_add, UInt8.toNat_toUInt32, hmult]
    exact Nat.mod_eq_of_lt (by show _ + 2 < _; omega)
  have hplus : (c.csd.deviceSize + 1).toNat = bitField csd.toNat 62 8 + 1 := by
    rw [UInt32.toNat_add, hsize]
    exact Nat.mod_eq_of_lt (by show _ + 1 < _; omega)
  have hpow : 2 ^ (bitField csd.toNat 47 3 + 2) ≤ 2 ^ 9 := Nat.pow_le_pow_right (by decide) (by omega)
  have hcount : c.blockCount.toNat =
      (bitField csd.toNat 62 8 + 1) * 2 ^ (bitField csd.toNat 47 3 + 2) := by
    show ((c.csd.deviceSize + 1) <<< (c.csd.deviceSizeMultiplier.toUInt32 + 2)).toNat = _
    have hfits : (bitField csd.toNat 62 8 + 1) * 2 ^ (bitField csd.toNat 47 3 + 2) < 2 ^ 32 :=
      Nat.lt_of_le_of_lt (Nat.mul_le_mul (by omega : _ ≤ 2 ^ 8) hpow) (by decide)
    rw [toNat_shiftLeft_of_lt (by omega) (by rw [hshift, hplus]; exact hfits), hshift, hplus]
  have hblock : c.blockSize.toNat = 2 ^ bitField csd.toNat 80 4 := by
    show ((1 : UInt32) <<< c.csd.readBlockLength.toUInt32).toNat = _
    have hfits : 2 ^ bitField csd.toNat 80 4 < 2 ^ 32 := Nat.pow_lt_pow_right (by decide) (by omega)
    have hnat : c.csd.readBlockLength.toUInt32.toNat = bitField csd.toNat 80 4 := by
      rw [UInt8.toNat_toUInt32, hlen]
    rw [toNat_shiftLeft_of_lt (by omega) (by rw [hnat]; show 1 * _ < _; omega), hnat]
    exact Nat.one_mul _
  rw [hcount, hblock]

theorem capacity_version2 (csd : BitVec 128) (card : FwkSdcard) :
    (csdVersion2 card (csdWords csd)).blockCount.toNat *
        (csdVersion2 card (csdWords csd)).blockSize.toNat =
      (bitField csd.toNat 48 8 + 1) * (512 * 1024) := by
  let c := csdVersion2 card (csdWords csd)
  show c.blockCount.toNat * c.blockSize.toNat = _
  have hsize : c.csd.deviceSize.toNat = bitField csd.toNat 48 8 := toNat_deviceSize_version2 csd card
  have hsize_lt := bitField_lt csd.toNat 48 8
  have hplus : (c.csd.deviceSize + 1).toNat = bitField csd.toNat 48 8 + 1 := by
    rw [UInt32.toNat_add, hsize]
    exact Nat.mod_eq_of_lt (by show _ + 1 < _; omega)
  have hcount : c.blockCount.toNat = (bitField csd.toNat 48 8 + 1) * 2 ^ 10 := by
    show ((c.csd.deviceSize + 1) <<< (10 : UInt32)).toNat = _
    rw [toNat_shiftLeft_of_lt (by decide) (by rw [hplus]; show _ * 2 ^ 10 < _; omega), hplus]
    rfl
  show c.blockCount.toNat * 512 = _
  rw [hcount]
  omega

/-- A product of the size plus one is right exactly where nothing of the size is lost. -/
theorem size_product_eq_iff {n lo a b k : Nat} (hk : 0 < k) :
    (bitField n lo a + 1) * k = (bitField n lo (a + b) + 1) * k ↔ bitField n (lo + a) b = 0 := by
  rw [Nat.mul_left_inj (Nat.ne_of_gt hk), Nat.add_left_inj, eq_comm, bitField_eq_lower_iff]

/-- The capacity is right where the lost bits of the size are zero. -/
theorem capacity_updateCsd_iff (card : FwkSdcard) (hversion : bitField csd.toNat 126 2 ≤ 1) :
    (updateCsd card (csdWords csd)).blockCount.toNat *
        (updateCsd card (csdWords csd)).blockSize.toNat = csdCapacity csd ↔
      (bitField csd.toNat 126 2 = 0 → bitField csd.toNat 70 4 = 0) ∧
        (bitField csd.toNat 126 2 = 1 → bitField csd.toNat 56 14 = 0) := by
  have hstructure := toNat_csdStructure csd card
  rcases Nat.le_one_iff_eq_zero_or_eq_one.mp hversion with h0 | h1
  · have hcase : (csdFront card (csdWords csd)).csd.csdStructure = 0 :=
      UInt8.toNat_inj.mp (hstructure.trans h0)
    have hcard : updateCsd card (csdWords csd) =
        csdBack (csdVersion1 (csdFront card (csdWords csd)) (csdWords csd)) (csdWords csd) := by
      simp only [updateCsd, if_pos hcase]
    have hspec : csdCapacity csd = (bitField csd.toNat 62 (8 + 4) + 1) *
        2 ^ (bitField csd.toNat 47 3 + 2) * 2 ^ bitField csd.toNat 80 4 := if_pos h0
    have hcapacity := capacity_version1 csd card
    rw [hcard, hspec, csdBack_blockCount, csdBack_blockSize, hcapacity, Nat.mul_assoc,
      Nat.mul_assoc, size_product_eq_iff (Nat.mul_pos (Nat.two_pow_pos _) (Nat.two_pow_pos _))]
    exact ⟨fun h => ⟨fun _ => h, fun h1 => absurd (h0.symm.trans h1) (by decide)⟩,
      fun h => h.1 h0⟩
  · have hcase : (csdFront card (csdWords csd)).csd.csdStructure = 1 :=
      UInt8.toNat_inj.mp (hstructure.trans h1)
    have hcard : updateCsd card (csdWords csd) =
        csdBack (csdVersion2 (csdFront card (csdWords csd)) (csdWords csd)) (csdWords csd) := by
      have hne : (csdFront card (csdWords csd)).csd.csdStructure ≠ 0 := by
        rw [hcase]
        decide
      simp only [updateCsd, if_neg hne, if_pos hcase]
    have hspec : csdCapacity csd = (bitField csd.toNat 48 (8 + 14) + 1) * (512 * 1024) :=
      if_neg (by omega)
    have hcapacity := capacity_version2 csd (csdFront card (csdWords csd))
    rw [hcard, hspec, csdBack_blockCount, csdBack_blockSize, hcapacity,
      size_product_eq_iff (by decide)]
    exact ⟨fun h => ⟨fun h0 => absurd (h0.symm.trans h1) (by decide), fun _ => h⟩,
      fun h => h.2 h1⟩

theorem sector_updateCsd (csd : BitVec 128) (card : FwkSdcard) :
    (updateCsd card (csdWords csd)).csd.eraseSectorSize.toNat = bitField csd.toNat 39 7 :=
  toNat_csdWords_byte (i := 1) (s := 7) (by decide) (by decide) (by decide) (by decide)

/-- The flag for single blocks is the bit eight below it. -/
theorem single_updateCsd (csd : BitVec 128) (card : FwkSdcard) :
    (updateCsd card (csdWords csd)).csd.eraseSingleBlockEnable.toNat = bitField csd.toNat 40 1 :=
  toNat_csdWords_byte (i := 1) (s := 8) (by decide) (by decide) (by decide) (by decide)

end Decoding

/-- **The register is decoded right** where the bits of the size that are masked out are zero and the
two bits 40 and 46 are equal. -/
theorem csd_decoded_iff (sprtIf : FwkSdcardIf) (cmd : FwkSdcardCmd) (s : SdState) (csd : BitVec 128)
    (hversion : bitField csd.toNat 126 2 ≤ 1)
    (hsend : sprtIf.sendCommand (s.bus ++ [.command cmd]) = 0)
    (hresp : sprtIf.recvResp (s.bus ++ [.command cmd]) = csdWords csd) :
    CsdDecoded csd (fwkSdcardCommandGetCsd sprtIf cmd s).2.card ↔
      (bitField csd.toNat 126 2 = 0 → bitField csd.toNat 70 4 = 0) ∧
        (bitField csd.toNat 126 2 = 1 → bitField csd.toNat 56 14 = 0) ∧
        bitField csd.toNat 40 1 = bitField csd.toNat 46 1 := by
  have hcard : (fwkSdcardCommandGetCsd sprtIf cmd s).2.card = updateCsd s.card (csdWords csd) := by
    simp only [fwkSdcardCommandGetCsd, hsend, hresp, ne_eq, not_true_eq_false, if_false]
  rw [hcard, ← and_assoc, ← capacity_updateCsd_iff s.card hversion]
  constructor
  · intro h
    exact ⟨h.capacity, (single_updateCsd csd s.card).symm.trans h.single⟩
  · intro h
    exact ⟨h.1, sector_updateCsd csd s.card, (single_updateCsd csd s.card).trans h.2⟩

/-- A card that has not been asked yet. -/
def blankCard : FwkSdcard :=
  { relativeAddr := 1, blockCount := 0, blockSize := 0, capacity := 0,
    csd := ⟨0, 0, 0, 0, 0, 0, 0, 0, 0, 0, 0, 0, 0, 0, 0, 0, 0, 0, 0⟩ }

/-- An interface on which every command succeeds, with one response to all of them. -/
def answering (maxBlockCount : Nat) (resp : Fin 4 → UInt32) : FwkSdcardIf :=
  { maxBlockCount, addHeadTail := true, sendCommand := fun _ => 0, recvResp := fun _ => resp,
    recvData := fun _ => 0, sendData := fun _ => 0 }

/-- The register of a card of version 1.0 with the given size, blocks of 512 bytes, and the flag for
single blocks not set. -/
def sizedCsd (size : Nat) : BitVec 128 := BitVec.ofNat 128 (9 * 2 ^ 80 + size * 2 ^ 62)

/-- A card of 256 units is decoded right. -/
theorem csd_decoded_iff_small :
    CsdDecoded (sizedCsd 255)
      (fwkSdcardCommandGetCsd (answering 1 (csdWords (sizedCsd 255))) (getCsdCommand 1)
        ⟨blankCard, []⟩).2.card :=
  (csd_decoded_iff (answering 1 (csdWords (sizedCsd 255))) (getCsdCommand 1) ⟨blankCard, []⟩
    (sizedCsd 255) (by decide) rfl rfl).mpr (by decide)

/-- A card of 4096 units is taken for one of 256. -/
theorem size_is_cut :
    ¬ CsdDecoded (sizedCsd 4095)
        (fwkSdcardCommandGetCsd (answering 1 (csdWords (sizedCsd 4095))) (getCsdCommand 1)
          ⟨blankCard, []⟩).2.card ∧
      csdCapacity (sizedCsd 4095) = 4096 * 2 ^ 2 * 2 ^ 9 ∧
      (updateCsd blankCard (csdWords (sizedCsd 4095))).blockCount = 256 * 2 ^ 2 ∧
      (updateCsd blankCard (csdWords (sizedCsd 4095))).blockSize = 2 ^ 9 := by
  refine ⟨fun h => ?_, by decide, by decide, by decide⟩
  exact absurd h.capacity (by decide)

end HeavenFox.Platform
