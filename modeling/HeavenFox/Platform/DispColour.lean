/-
# HeavenFox.Platform.DispColour -- what the words of a pixel format stand for

A pixel is a word, and its format says which bits of it are which channel.  Converting a word of 24
or 32 bits to another format keeps what that format can hold of each channel (`convert_colour`).
Converting an RGB565 word does not: the masks for the way up are those of whole bytes, and there is
no way up to 32 bits at all (`convert_white`).
-/
import HeavenFox.Logic.BitField
import HeavenFox.Platform.Disp

namespace HeavenFox.Platform

open HeavenFox.Logic

/-! ## Colours -/

/-- A colour, each channel from 0 to 255. -/
structure Rgb where
  r : Nat
  g : Nat
  b : Nat
  deriving DecidableEq, Repr

/-- The colour of a word: five, six and five upper bits of the channels, or the three of them in
whole bytes. -/
def wordColour (bpp : UInt8) (word : Nat) : Rgb :=
  if bpp = fwkRgbPixel16 then
    ⟨8 * bitField word 11 5, 4 * bitField word 5 6, 8 * bitField word 0 5⟩
  else ⟨bitField word 16 8, bitField word 8 8, bitField word 0 8⟩

/-- What a format can hold of a colour. -/
def Rgb.heldIn (bpp : UInt8) (c : Rgb) : Rgb :=
  if bpp = fwkRgbPixel16 then ⟨c.r / 8 * 8, c.g / 4 * 4, c.b / 8 * 8⟩ else c

/-- The colour that a slot of the frame buffer shows. -/
def FwkDispInfo.shown (disp : FwkDispInfo) (slot : UInt32) : Rgb := wordColour disp.bpp slot.toNat

theorem heldIn_of_word (bpp : UInt8) (word : Nat) :
    (wordColour bpp word).heldIn bpp = wordColour bpp word := by
  by_cases h : bpp = fwkRgbPixel16
  · rw [wordColour, if_pos h, Rgb.heldIn, if_pos h]
    show Rgb.mk (8 * _ / 8 * 8) (4 * _ / 4 * 4) (8 * _ / 8 * 8) = _
    rw [Nat.mul_div_cancel_left _ (by decide), Nat.mul_div_cancel_left _ (by decide),
      Nat.mul_div_cancel_left _ (by decide), Nat.mul_comm, Nat.mul_comm _ 4, Nat.mul_comm _ 8]
  · exact if_neg h

/-- A slot keeps the channels. -/
theorem wordColour_pixelValue (bpp : UInt8) (word : UInt32) :
    wordColour bpp (pixelValue bpp word).toNat = wordColour bpp word.toNat := by
  by_cases h : bpp = fwkRgbPixel16
  · have hlow : (pixelValue bpp word).toNat = bitField word.toNat 0 16 := by
      rw [pixelValue, if_pos h, UInt16.toNat_toUInt32, UInt32.toNat_toUInt16, bitField, Nat.pow_zero,
        Nat.div_one]
    rw [wordColour, wordColour, if_pos h, if_pos h, hlow, bitField_bitField (by decide),
      bitField_bitField (by decide), bitField_bitField (by decide)]
  · rw [pixelValue, if_neg h]

/-! ## Conversions -/

section ToRgb565

variable {r g b : UInt32}

/-- Three channels in an RGB565 word. -/
theorem toNat_packed (hr : r.toNat < 2 ^ 5) (hg : g.toNat < 2 ^ 6) (hb : b.toNat < 2 ^ 5) :
    (((r <<< (11 : UInt32)) ||| (g <<< (5 : UInt32)) ||| b) &&& 0x0000ffff).toNat =
      b.toNat + 2 ^ 5 * (g.toNat + 2 ^ 6 * r.toNat) := by
  have hgb : ((g <<< (5 : UInt32)) ||| b).toNat = b.toNat + 2 ^ 5 * g.toNat :=
    toNat_shiftLeft_or rfl (by decide) (by omega) hb
  have hrgb : ((r <<< (11 : UInt32)) ||| ((g <<< (5 : UInt32)) ||| b)).toNat =
      b.toNat + 2 ^ 5 * g.toNat + 2 ^ 11 * r.toNat := by
    rw [toNat_shiftLeft_or (k := 11) rfl (by decide) (by omega) (by omega), hgb]
  rw [UInt32.or_assoc, toNat_and_mask (n := 16) (by decide), hrgb, bitField, Nat.pow_zero,
    Nat.div_one]
  omega

/-- The channels of such a word. -/
theorem wordColour_packed (hr : r.toNat < 2 ^ 5) (hg : g.toNat < 2 ^ 6) (hb : b.toNat < 2 ^ 5) :
    wordColour fwkRgbPixel16 (b.toNat + 2 ^ 5 * (g.toNat + 2 ^ 6 * r.toNat)) =
      ⟨8 * r.toNat, 4 * g.toNat, 8 * b.toNat⟩ := by
  rw [wordColour, if_pos rfl, bitField, bitField, bitField]
  congr 1 <;> omega

/-- What is left of the channel from bit `lo` on where its lower `k` bits are dropped. -/
theorem toNat_channel (data : UInt32) {s t : UInt32} {lo k : Nat} (len : Nat) (hs : s.toNat = lo)
    (ht : t.toNat = k) (hlo : lo < 32) (hk : k < 32) (hlen : k + len = 8) :
    (((data >>> s) &&& 0xff) >>> t).toNat = bitField data.toNat (lo + k) len := by
  rw [UInt32.toNat_shiftRight, toNat_shiftRight_and (n := k + len) (by omega) (by rw [hlen]; decide),
    hs, ht, Nat.mod_eq_of_lt hk, Nat.shiftRight_eq_div_pow]
  exact bitField_div _ _ _ _

end ToRgb565

/-- RGB888 to RGB565. -/
theorem convert_toRgb565 {srctype : UInt8} (h : srctype ≠ fwkRgbPixel16) (data : UInt32) :
    wordColour fwkRgbPixel16 (fwkDisplayConvertRgbbit srctype fwkRgbPixel16 data).toNat =
      (wordColour srctype data.toNat).heldIn fwkRgbPixel16 := by
  have hb : ((data &&& 0xff) >>> (3 : UInt32)).toNat = bitField data.toNat 3 5 := by
    have hshift : data >>> (0 : UInt32) = data := UInt32.shiftRight_zero
    have hchannel : (((data >>> (0 : UInt32)) &&& 0xff) >>> (3 : UInt32)).toNat =
        bitField data.toNat 3 5 := toNat_channel data 5 rfl rfl (by decide) (by decide) rfl
    rwa [hshift] at hchannel
  have hg : (((data >>> (8 : UInt32)) &&& 0xff) >>> (2 : UInt32)).toNat = bitField data.toNat 10 6 :=
    toNat_channel data 6 rfl rfl (by decide) (by decide) rfl
  have hr : (((data >>> (16 : UInt32)) &&& 0xff) >>> (3 : UInt32)).toNat =
      bitField data.toNat 19 5 :=
    toNat_channel data 5 rfl rfl (by decide) (by decide) rfl
  have hb' := hb.symm ▸ bitField_lt data.toNat 3 5
  have hg' := hg.symm ▸ bitField_lt data.toNat 10 6
  have hr' := hr.symm ▸ bitField_lt data.toNat 19 5
  rw [fwkDisplayConvertRgbbit, if_neg h, if_pos rfl]
  show wordColour fwkRgbPixel16 (UInt32.toNat (_ &&& 0x0000ffff)) = _
  rw [toNat_packed hr' hg' hb', wordColour_packed hr' hg' hb', hr, hg, hb, wordColour, if_neg h,
    Rgb.heldIn, if_pos rfl]
  show _ = Rgb.mk (bitField data.toNat 16 8 / 8 * 8) (bitField data.toNat 8 8 / 4 * 4)
    (bitField data.toNat 0 8 / 8 * 8)
  have hR : bitField data.toNat 16 8 / 8 = bitField data.toNat 19 5 := bitField_div _ 16 3 5
  have hG : bitField data.toNat 8 8 / 4 = bitField data.toNat 10 6 := bitField_div _ 8 2 6
  have hB : bitField data.toNat 0 8 / 8 = bitField data.toNat 3 5 := bitField_div _ 0 3 5
  rw [hR, hG, hB, Nat.mul_comm 8, Nat.mul_comm 4, Nat.mul_comm 8]

/-- **Conversion keeps the colour**, as far as the format can hold it, except from RGB565 to wider
formats. -/
theorem convert_colour {srctype destype : UInt8} (hsrc : IsPixelFormat srctype)
    (hdes : IsPixelFormat destype) (hwiden : srctype = fwkRgbPixel16 → destype = fwkRgbPixel16)
    (data : UInt32) :
    wordColour destype (pixelValue destype (fwkDisplayConvertRgbbit srctype destype data)).toNat =
      (wordColour srctype data.toNat).heldIn destype := by
  rw [wordColour_pixelValue]
  by_cases hsame : srctype = destype
  · rw [fwkDisplayConvertRgbbit, if_pos hsame, hsame, heldIn_of_word]
  · by_cases hdes16 : destype = fwkRgbPixel16
    · subst hdes16
      exact convert_toRgb565 hsame data
    · -- between 24 and 32 bits
      have hsrc16 : srctype ≠ fwkRgbPixel16 := fun h => hdes16 (hwiden h)
      have hkeep : fwkDisplayConvertRgbbit srctype destype data = data := by
        rw [fwkDisplayConvertRgbbit, if_neg hsame, if_neg hdes16]
        by_cases hdes24 : destype = fwkRgbPixel24
        · have hsrc32 : srctype = fwkRgbPixel32 :=
            (hsrc.resolve_left hsrc16).resolve_left fun h => hsame (h.trans hdes24.symm)
          rw [if_pos hdes24, if_pos hsrc32]
        · exact if_neg hdes24
      rw [hkeep, wordColour, wordColour, if_neg hdes16, if_neg hsrc16, Rgb.heldIn, if_neg hdes16]

/-- White goes wrong on its way up from RGB565. -/
theorem convert_white {destype : UInt8} (hdes : IsPixelFormat destype)
    (hwide : destype ≠ fwkRgbPixel16) :
    wordColour destype
        (pixelValue destype (fwkDisplayConvertRgbbit fwkRgbPixel16 destype 0xffff)).toNat ≠
      (wordColour fwkRgbPixel16 0xffff).heldIn destype := by
  rcases hdes with rfl | rfl | rfl
  · exact absurd rfl hwide
  · decide
  · decide

end HeavenFox.Platform
