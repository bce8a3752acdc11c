/-
# HeavenFox.Platform.DispWord -- text of `fwk_disp.c`

`__fwk_display_dot_matrix_word` draws a string into a box, glyph by glyph.  Before each character it
looks whether a full-width one fits into the row, goes to the next row if not, and stops where that
row does not fit into the box.  It does not look at the columns again behind the wrap, and its sums
are of 32 bits; so text stays in its box exactly if there is room for it or if not even a first
character is drawn (`text_in_box_iff`).
-/
import HeavenFox.Common.MemSimple
import HeavenFox.Platform.Disp

namespace HeavenFox.Platform

open HeavenFox.Logic HeavenFox.Common

/-! ## Dot matrices -/

/-- `ASCII_SPACE` -/
def asciiSpace : UInt8 := 32

/-- `ASCII_MAX` -/
def asciiMax : UInt8 := 127

/-- `NR_FWK_FONT_SONG` -/
def nrFwkFontSong : Nat := 0

/-- `AREA_FIRST_CODE` -/
def areaFirstCode : Nat := 0xA1

/-- `BITS_FIRST_CODE` -/
def bitsFirstCode : Nat := 0xA1

/-- `struct fwk_font_setting`: what the text functions use of it. -/
structure FwkFontSetting where
  ptrAscii : Nat
  ptrHz : Nat
  font : Nat
  color : UInt32
  size : Nat
  lineSpacing : Nat
  deriving DecidableEq, Repr

/-- `fwk_font_ascii_lseek` -/
def fwkFontAsciiLseek (ptrLib size : Nat) (ch : UInt8) : Nat :=
  let pixelBytes := mrtAlign (size >>> 1) 8 >>> 3
  let offset := sub32 ch.toNat asciiSpace.toNat * (size * pixelBytes)
  if ptrLib = 0 then 0 else add32 ptrLib offset

/-- `fwk_fontlib_lseek` -/
def fwkFontlibLseek (ptrLib font size word : Nat) : Nat :=
  let pixelBytes := size >>> 3
  let areaCode := sub32 ((word >>> 8) &&& 0xff) areaFirstCode
  let bitCode := sub32 (word &&& 0xff) bitsFirstCode
  let place := add32 (sub32 (sub32 (areaCode <<< 7) (areaCode <<< 5)) (areaCode <<< 1)) bitCode
  let offset := if font = nrFwkFontSong then place * (size * pixelBytes) else 0
  if ptrLib = 0 then 0 else add32 ptrLib offset

/-- The points that the loops over a dot matrix draw. -/
def glyphPoints (memory : Nat → UInt8) (ptrDmatx xInc size xPos yPos : Nat) : List (Nat × Nat) :=
  let arrInc := xInc >>> 3
  (List.range size).flatMap fun yCnt => (List.range arrInc).flatMap fun byteCnt =>
    let xData := (memory (add32 ptrDmatx (byteCnt + yCnt * arrInc))).toUInt32
    ((List.range 8).filter fun xCnt => xData <<< xCnt.toUInt32 &&& 0x80 ≠ 0).map fun xCnt =>
      (add32 (add32 xPos (byteCnt <<< 3)) xCnt, add32 yPos yCnt)

/-! ## Strings -/

/-- Where a character goes: to the next row if a full-width character does not fit into this one, and
at a line break. -/
def wordRow (s : FwkFontSetting) (xStart xEnd : Nat) (ch : UInt8) (xPos yPos : Nat) : Nat × Nat :=
  if add32 xPos s.size > xEnd ∨ ch = 10 then
    (xStart, add32 yPos (add32 s.size s.lineSpacing))
  else (xPos, yPos)

/-- The loop over a string, up to its terminator. -/
def wordLoop (memory : Nat → UInt8) (s : FwkFontSetting) (xStart xEnd yEnd : Nat) :
    List UInt8 → Nat → Nat → List (Nat × Nat)
  | [], _, _ => []
  | ch :: rest, xPos, yPos =>
    let (xPos, yPos) := wordRow s xStart xEnd ch xPos yPos
    if add32 yPos s.size > yEnd then []
    else if ch < asciiSpace ∨ ch > asciiMax then
      wordLoop memory s xStart xEnd yEnd rest xPos yPos
    else if ch &&& 0x80 ≠ 0 then
      match rest with
      | [] => []
      | low :: after =>
        if low &&& 0x80 = 0 then wordLoop memory s xStart xEnd yEnd (low :: after) xPos yPos
        else if s.ptrHz = 0 then wordLoop memory s xStart xEnd yEnd after xPos yPos
        else
          let word := (ch.toNat <<< 8 ||| low.toNat) &&& 0xffff
          let ptrDmatx := fwkFontlibLseek s.ptrHz s.font s.size word
          if ptrDmatx = 0 then wordLoop memory s xStart xEnd yEnd after xPos yPos
          else
            glyphPoints memory ptrDmatx s.size s.size xPos yPos ++
              wordLoop memory s xStart xEnd yEnd after (add32 xPos s.size) yPos
    else if s.ptrAscii = 0 then wordLoop memory s xStart xEnd yEnd rest xPos yPos
    else
      let xInc := s.size >>> 1
      let ptrDmatx := fwkFontAsciiLseek s.ptrAscii s.size ch
      if ptrDmatx = 0 then wordLoop memory s xStart xEnd yEnd rest xPos yPos
      else
        glyphPoints memory ptrDmatx xInc s.size xPos yPos ++
          wordLoop memory s xStart xEnd yEnd rest (add32 xPos xInc) yPos

/-- The points that a string asks for, clipped to the display. -/
def wordPoints (memory : Nat → UInt8) (disp : FwkDispInfo) (s : FwkFontSetting)
    (xStart yStart xEnd yEnd : Nat) (fmt : List UInt8) : List (Nat × Nat) :=
  wordLoop memory s xStart (min xEnd disp.width) (min yEnd disp.height) fmt xStart yStart

/-- `__fwk_display_dot_matrix_word` -/
def fwkDisplayDotMatrixWord (memory : Nat → UInt8) (disp : FwkDispInfo) (s : FwkFontSetting)
    (xStart yStart xEnd yEnd : Nat) (fmt : List UInt8) : List FbStore :=
  (wordPoints memory disp s xStart yStart xEnd yEnd fmt).flatMap fun p =>
    fwkDisplayWritePoint disp p.1 p.2 s.color

/-! ## The box -/

/-- A point of the box and of the display. -/
def InBox (disp : FwkDispInfo) (xStart yStart xEnd yEnd : Nat) (p : Nat × Nat) : Prop :=
  xStart ≤ p.1 ∧ p.1 < min xEnd disp.width ∧ yStart ≤ p.2 ∧ p.2 < min yEnd disp.height

/-- Text stays in its box: the points that it asks for, and the slots that it stores to. -/
structure TextInBox (disp : FwkDispInfo) (xStart yStart xEnd yEnd : Nat)
    (points : List (Nat × Nat)) (stores : List FbStore) : Prop where
  points : ∀ p ∈ points, InBox disp xStart yStart xEnd yEnd p
  slots : ∀ st ∈ stores, ∃ p, InBox disp xStart yStart xEnd yEnd p ∧
    st.cell.1 = rowMajor disp.width p.1 p.2

/-- The ASCII library holds a dot matrix for each character. -/
def FwkFontSetting.CoversAscii (s : FwkFontSetting) : Prop :=
  0 < s.ptrAscii ∧ s.ptrAscii + 96 * (s.size * (s.size / 16)) ≤ 2 ^ 32

/-- From one row to the next. -/
def FwkFontSetting.pitch (s : FwkFontSetting) : Nat := add32 s.size s.lineSpacing

/-- The first row fits into the box, half a font size fits into it, and the end of the next row is
not carried out of 32 bits. -/
def RoomForText (disp : FwkDispInfo) (s : FwkFontSetting) (xStart yStart xEnd yEnd : Nat) : Prop :=
  xStart + s.size / 2 ≤ min xEnd disp.width ∧ yStart + s.size ≤ min yEnd disp.height ∧
    yStart + s.pitch + s.size < 2 ^ 32

/-- A first character is refused: on the second row, and on the first one if it comes to that. -/
def TextRefused (disp : FwkDispInfo) (s : FwkFontSetting) (xStart yStart xEnd yEnd : Nat) : Prop :=
  min yEnd disp.height < add32 (add32 yStart s.pitch) s.size ∧
    (min xEnd disp.width < add32 xStart s.size ∨ min yEnd disp.height < add32 yStart s.size)

/-! ## Glyphs -/

section Glyphs

variable {memory : Nat → UInt8} {ptrDmatx xInc size xPos yPos : Nat}

theorem mem_glyphPoints {p : Nat × Nat} :
    p ∈ glyphPoints memory ptrDmatx xInc size xPos yPos ↔
      ∃ yCnt < size, ∃ byteCnt < xInc >>> 3, ∃ xCnt < 8,
        (memory (add32 ptrDmatx (byteCnt + yCnt * (xInc >>> 3)))).toUInt32 <<< xCnt.toUInt32 &&&
          0x80 ≠ 0 ∧
        (add32 (add32 xPos (byteCnt <<< 3)) xCnt, add32 yPos yCnt) = p := by
  simp only [glyphPoints, List.mem_flatMap, List.mem_map, List.mem_filter, List.mem_range,
    decide_eq_true_eq, and_assoc]

/-- A glyph takes as much room as it says, where nothing wraps. -/
theorem glyphPoints_room (hx : xPos + xInc < 2 ^ 32) (hy : yPos + size < 2 ^ 32) {p : Nat × Nat}
    (hp : p ∈ glyphPoints memory ptrDmatx xInc size xPos yPos) :
    xPos ≤ p.1 ∧ p.1 < xPos + xInc ∧ yPos ≤ p.2 ∧ p.2 < yPos + size := by
  obtain ⟨yCnt, hyCnt, byteCnt, hbyteCnt, xCnt, hxCnt, -, rfl⟩ := mem_glyphPoints.mp hp
  rw [Nat.shiftRight_eq_div_pow] at hbyteCnt
  have hbyte : add32 xPos (byteCnt <<< 3) = xPos + 8 * byteCnt := by
    rw [Nat.shiftLeft_eq, Nat.mul_comm]
    exact add32_of_lt (by omega)
  have hcol : add32 (xPos + 8 * byteCnt) xCnt = xPos + 8 * byteCnt + xCnt :=
    add32_of_lt (by omega)
  have hrow : add32 yPos yCnt = yPos + yCnt := add32_of_lt (by omega)
  rw [hbyte, hcol, hrow]
  omega

theorem allOnes_bit : ∀ k < 8, (0xff : UInt8).toUInt32 <<< k.toUInt32 &&& 0x80 ≠ 0 := by
  decide

/-- A glyph of ones draws all its points. -/
theorem glyphPoints_ones {col row : Nat} (hcol : col < xInc / 8 * 8) (hrow : row < size) :
    (add32 xPos col, add32 yPos row) ∈
      glyphPoints (fun _ => 0xff) ptrDmatx xInc size xPos yPos := by
  apply mem_glyphPoints.mpr
  have hbit : col % 8 < 8 := Nat.mod_lt _ (by decide)
  have hsplit : col / 8 * 2 ^ 3 + col % 8 = col := by omega
  refine ⟨row, hrow, col / 8, ?_, col % 8, hbit, allOnes_bit _ hbit, ?_⟩
  · rw [Nat.shiftRight_eq_div_pow]
    omega
  · have hcolumn : add32 (add32 xPos ((col / 8) <<< 3)) (col % 8) = add32 xPos col := by
      rw [Nat.shiftLeft_eq, add32, add32, add32, Nat.mod_add_mod, Nat.add_assoc, hsplit]
    rw [hcolumn]

end Glyphs

/-! ## One character and all of them -/

section Characters

variable {memory : Nat → UInt8} {s : FwkFontSetting} {xStart xEnd yEnd : Nat}

/-- A character that is no ASCII character is skipped before its first byte is looked at as half of a
Chinese one. -/
theorem ascii_noHigh {ch : UInt8} (h : ¬ (ch < asciiSpace ∨ ch > asciiMax)) :
    ch &&& 0x80 = 0 := by
  have hmax : ch.toNat < 2 ^ 7 := by
    have hle := not_or.mp h
    exact Nat.lt_succ_of_le (UInt8.le_iff_toNat_le.mp (UInt8.not_lt.mp hle.2))
  apply UInt8.toNat_inj.mp
  show ch.toNat &&& 2 ^ 7 = 0
  rw [Nat.and_two_pow, Nat.testBit_lt_two_pow hmax]
  rfl

/-- What a character does: it ends the text, it is skipped, or it is drawn in half its width. -/
theorem wordLoop_cons (memory : Nat → UInt8) (s : FwkFontSetting) (xStart xEnd yEnd : Nat)
    (ch : UInt8) (rest : List UInt8) (xPos yPos : Nat) :
    let p := wordRow s xStart xEnd ch xPos yPos
    (yEnd < add32 p.2 s.size ∧
        wordLoop memory s xStart xEnd yEnd (ch :: rest) xPos yPos = []) ∨
      (add32 p.2 s.size ≤ yEnd ∧
        (wordLoop memory s xStart xEnd yEnd (ch :: rest) xPos yPos =
            wordLoop memory s xStart xEnd yEnd rest p.1 p.2 ∨
          wordLoop memory s xStart xEnd yEnd (ch :: rest) xPos yPos =
            glyphPoints memory (fwkFontAsciiLseek s.ptrAscii s.size ch) (s.size >>> 1) s.size p.1
                p.2 ++
              wordLoop memory s xStart xEnd yEnd rest (add32 p.1 (s.size >>> 1)) p.2)) := by
  intro p
  rw [wordLoop]
  by_cases hstop : add32 p.2 s.size > yEnd
  · exact Or.inl ⟨hstop, if_pos hstop⟩
  · refine Or.inr ⟨Nat.le_of_not_gt hstop, ?_⟩
    show (if add32 p.2 s.size > yEnd then _ else _) = _ ∨
      (if add32 p.2 s.size > yEnd then _ else _) = _
    rw [if_neg hstop]
    by_cases hskip : ch < asciiSpace ∨ ch > asciiMax
    · exact Or.inl (if_pos hskip)
    · rw [if_neg hskip, if_neg (not_not_intro (ascii_noHigh hskip))]
      by_cases hnull : s.ptrAscii = 0
      · exact Or.inl (if_pos hnull)
      · rw [if_neg hnull]
        by_cases hdmatx : fwkFontAsciiLseek s.ptrAscii s.size ch = 0
        · exact Or.inl (if_pos hdmatx)
        · exact Or.inr (if_neg hdmatx)

/-- Where the next character may stand: the row fits, and a row has been left only if the next one
was still in the box. -/
structure Cursor (s : FwkFontSetting) (xStart yStart xEnd yEnd xPos yPos : Nat) : Prop where
  column : xStart ≤ xPos ∧ xPos ≤ xEnd
  row : yStart ≤ yPos ∧ yPos + s.size ≤ yEnd
  pitch : yPos = yStart ∨ s.pitch ≤ yEnd

variable {yStart xPos yPos : Nat}

/-- A character that passes the check of its row has room, and the cursor stays behind it. -/
theorem wordRow_cursor (hcol : xStart + s.size / 2 ≤ xEnd) (hxEnd : xEnd + s.size < 2 ^ 32)
    (hyEnd : yEnd + yEnd + s.size < 2 ^ 32) (hnext : yStart + s.pitch + s.size < 2 ^ 32)
    (hcursor : Cursor s xStart yStart xEnd yEnd xPos yPos) (ch : UInt8)
    (hcheck : add32 (wordRow s xStart xEnd ch xPos yPos).2 s.size ≤ yEnd) :
    (wordRow s xStart xEnd ch xPos yPos).1 + s.size / 2 ≤ xEnd ∧
      Cursor s xStart yStart xEnd yEnd
        (add32 (wordRow s xStart xEnd ch xPos yPos).1 (s.size >>> 1))
        (wordRow s xStart xEnd ch xPos yPos).2 ∧
      Cursor s xStart yStart xEnd yEnd (wordRow s xStart xEnd ch xPos yPos).1
        (wordRow s xStart xEnd ch xPos yPos).2 := by
  obtain ⟨⟨hxPos, hxPosEnd⟩, ⟨hyPos, hyPosEnd⟩, hpitch⟩ := hcursor
  by_cases hwrap : add32 xPos s.size > xEnd ∨ ch = 10
  · have hrow : wordRow s xStart xEnd ch xPos yPos = (xStart, add32 yPos s.pitch) := if_pos hwrap
    -- The pitch is either added to the first row, or it has been seen to fit into the box.
    have hnowrap : yPos + s.pitch + s.size < 2 ^ 32 := by omega
    rw [hrow] at hcheck ⊢
    simp only [Nat.shiftRight_one] at hcheck ⊢
    rw [add32_of_lt (by omega : yPos + s.pitch < 2 ^ 32)] at hcheck ⊢
    rw [add32_of_lt hnowrap] at hcheck
    rw [add32_of_lt (by omega : xStart + s.size / 2 < 2 ^ 32)]
    exact ⟨hcol, ⟨by omega, by omega, Or.inr (by omega)⟩, ⟨by omega, by omega, Or.inr (by omega)⟩⟩
  · have hrow : wordRow s xStart xEnd ch xPos yPos = (xPos, yPos) := if_neg hwrap
    have hfull : xPos + s.size ≤ xEnd := by
      have hle := Nat.le_of_not_gt (not_or.mp hwrap).1
      rwa [add32_of_lt (by omega)] at hle
    rw [hrow]
    simp only [Nat.shiftRight_one]
    rw [add32_of_lt (by omega : xPos + s.size / 2 < 2 ^ 32)]
    exact ⟨by omega, ⟨by omega, by omega, hpitch⟩, ⟨by omega, by omega, hpitch⟩⟩

/-- Text from a cursor on. -/
theorem wordLoop_room (hcol : xStart + s.size / 2 ≤ xEnd) (hxEnd : xEnd + s.size < 2 ^ 32)
    (hyEnd : yEnd + yEnd + s.size < 2 ^ 32) (hnext : yStart + s.pitch + s.size < 2 ^ 32)
    (fmt : List UInt8) (hcursor : Cursor s xStart yStart xEnd yEnd xPos yPos) :
    ∀ p ∈ wordLoop memory s xStart xEnd yEnd fmt xPos yPos,
      xStart ≤ p.1 ∧ p.1 < xEnd ∧ yStart ≤ p.2 ∧ p.2 < yEnd := by
  induction fmt generalizing xPos yPos with
  | nil => exact fun p hp => absurd hp List.not_mem_nil
  | cons ch rest ih =>
    intro p hp
    rcases wordLoop_cons memory s xStart xEnd yEnd ch rest xPos yPos with
      ⟨-, hloop⟩ | ⟨hcheck, hloop⟩
    · rw [hloop] at hp
      exact absurd hp List.not_mem_nil
    · obtain ⟨hroom, hbehind, hhere⟩ := wordRow_cursor hcol hxEnd hyEnd hnext hcursor ch hcheck
      rcases hloop with hloop | hloop
      · rw [hloop] at hp
        exact ih hhere p hp
      · rw [hloop] at hp
        rcases List.mem_append.mp hp with hglyph | hrest
        · obtain ⟨⟨hx, -⟩, ⟨hy, hyend⟩, -⟩ := hhere
          have hp := glyphPoints_room (by rw [Nat.shiftRight_one]; omega) (by omega) hglyph
          rw [Nat.shiftRight_one] at hp
          omega
        · exact ih hbehind p hrest

/-- A first character that is refused ends the text. -/
theorem wordLoop_refused (hsecond : yEnd < add32 (add32 yStart s.pitch) s.size)
    (hfirst : xEnd < add32 xStart s.size ∨ yEnd < add32 yStart s.size) (fmt : List UInt8) :
    wordLoop memory s xStart xEnd yEnd fmt xStart yStart = [] := by
  cases fmt with
  | nil => rfl
  | cons ch rest =>
    rcases wordLoop_cons memory s xStart xEnd yEnd ch rest xStart yStart with
      ⟨-, hloop⟩ | ⟨hcheck, -⟩
    · exact hloop
    · exfalso
      by_cases hwrap : add32 xStart s.size > xEnd ∨ ch = 10
      · rw [wordRow, if_pos hwrap] at hcheck
        exact absurd hcheck (Nat.not_le_of_lt hsecond)
      · rw [wordRow, if_neg hwrap] at hcheck
        rcases hfirst with hx | hy
        · exact hwrap (Or.inl hx)
        · exact absurd hcheck (Nat.not_le_of_lt hy)

end Characters

/-! ## What has to fit -/

section Fits

variable {s : FwkFontSetting} {xStart yStart xEnd yEnd : Nat}

/-- Where a glyph of ones stays in the box, its row and its columns fit into it. -/
theorem glyph_fits {ptrDmatx size yPos : Nat} (hsize : 0 < size ∧ size % 16 = 0)
    (hx : xStart < 2 ^ 32) (hy : yPos < 2 ^ 32) (hxEnd : xEnd < 2 ^ 32) (hyEnd : yEnd < 2 ^ 32)
    (hin : ∀ p ∈ glyphPoints (fun _ => 0xff) ptrDmatx (size >>> 1) size xStart yPos,
      xStart ≤ p.1 ∧ p.1 < xEnd ∧ yStart ≤ p.2 ∧ p.2 < yEnd) :
    xStart + size / 2 ≤ xEnd ∧ yStart ≤ yPos ∧ yPos + size ≤ yEnd := by
  have hpoint : ∀ col < size / 2, ∀ row < size,
      add32 xStart col < xEnd ∧ yStart ≤ add32 yPos row ∧ add32 yPos row < yEnd := by
    intro col hcol row hrow
    have hcol' : col < (size >>> 1) / 8 * 8 := by
      rw [Nat.shiftRight_one]
      omega
    exact (hin _ (glyphPoints_ones hcol' hrow)).2
  have hcorner := hpoint 0 (by omega) 0 (by omega)
  rw [add32_of_lt (by omega), add32_of_lt (by omega)] at hcorner
  refine ⟨?_, hcorner.2.1, ?_⟩
  · -- Else the first column behind the box is drawn.
    by_contra hcol
    have hbehind := (hpoint (xEnd - xStart) (by omega) 0 (by omega)).1
    rw [add32_of_lt (by omega)] at hbehind
    omega
  · by_contra hrow
    have hbelow := (hpoint 0 (by omega) (yEnd - yPos) (by omega)).2.2
    rw [add32_of_lt (by omega)] at hbelow
    omega

/-- The dot matrix of `!`. -/
theorem exclamation_dmatx (hsize : 0 < s.size ∧ s.size % 16 = 0 ∧ s.size < 2 ^ 32)
    (hcovers : s.CoversAscii) :
    s.ptrAscii ≠ 0 ∧ fwkFontAsciiLseek s.ptrAscii s.size 33 ≠ 0 := by
  obtain ⟨hpos, htable⟩ := hcovers
  have hnull : s.ptrAscii ≠ 0 := by omega
  refine ⟨hnull, ?_⟩
  have hbytes : mrtAlign (s.size >>> 1) 8 >>> 3 = s.size / 16 := by
    rw [mrtAlign, Nat.shiftRight_one, add32_of_lt (by omega), and_not32_seven (by omega),
      Nat.shiftRight_eq_div_pow]
    omega
  have hglyph : 0 < s.size * (s.size / 16) := Nat.mul_pos hsize.1 (by omega)
  have hplace : sub32 (33 : UInt8).toNat asciiSpace.toNat = 1 := by decide
  rw [fwkFontAsciiLseek, if_neg hnull, hbytes, hplace, Nat.one_mul, add32_of_lt (by omega)]
  omega

variable {memory : Nat → UInt8}

/-- `!` is drawn where its row passes the check. -/
theorem wordLoop_exclamation (hdmatx : s.ptrAscii ≠ 0 ∧ fwkFontAsciiLseek s.ptrAscii s.size 33 ≠ 0)
    {xPos yPos x y : Nat} (hrow : wordRow s xStart xEnd 33 xPos yPos = (x, y))
    (hcheck : add32 y s.size ≤ yEnd) {p : Nat × Nat}
    (hp : p ∈ glyphPoints memory (fwkFontAsciiLseek s.ptrAscii s.size 33) (s.size >>> 1) s.size x
      y) :
    p ∈ wordLoop memory s xStart xEnd yEnd [33] xPos yPos := by
  rw [wordLoop, hrow]
  show p ∈ if add32 y s.size > yEnd then _ else _
  rw [if_neg (Nat.not_lt_of_le hcheck), if_neg (by decide), if_neg (by decide), if_neg hdmatx.1]
  show p ∈ if fwkFontAsciiLseek s.ptrAscii s.size 33 = 0 then _ else _
  rw [if_neg hdmatx.2]
  exact List.mem_append_left _ hp

/-- A line break goes to the next row. -/
theorem wordLoop_lineBreak {xPos yPos : Nat} (rest : List UInt8)
    (hcheck : add32 (add32 yPos s.pitch) s.size ≤ yEnd) :
    wordLoop memory s xStart xEnd yEnd (10 :: rest) xPos yPos =
      wordLoop memory s xStart xEnd yEnd rest xStart (add32 yPos s.pitch) := by
  have hrow : wordRow s xStart xEnd 10 xPos yPos = (xStart, add32 yPos s.pitch) :=
    if_pos (Or.inr rfl)
  rw [wordLoop, hrow]
  show (if add32 (add32 yPos s.pitch) s.size > yEnd then _ else _) = _
  rw [if_neg (Nat.not_lt_of_le hcheck), if_pos (by decide)]

/-- What two strings say about a box that text stays in: `!` and `!` behind a line break. -/
theorem rows_fit (hsize : 0 < s.size ∧ s.size % 16 = 0 ∧ s.size < 2 ^ 32) (hx : xStart < 2 ^ 32)
    (hy : yStart < 2 ^ 32) (hxEnd : xEnd < 2 ^ 32) (hyEnd : yEnd < 2 ^ 32) (hcovers : s.CoversAscii)
    (hin : ∀ (memory : Nat → UInt8) (fmt : List UInt8), 0 ∉ fmt →
      ∀ p ∈ wordLoop memory s xStart xEnd yEnd fmt xStart yStart,
        xStart ≤ p.1 ∧ p.1 < xEnd ∧ yStart ≤ p.2 ∧ p.2 < yEnd) :
    (add32 xStart s.size ≤ xEnd → add32 yStart s.size ≤ yEnd →
      xStart + s.size / 2 ≤ xEnd ∧ yStart + s.size ≤ yEnd) ∧
    (add32 (add32 yStart s.pitch) s.size ≤ yEnd →
      xStart + s.size / 2 ≤ xEnd ∧ yStart ≤ add32 yStart s.pitch ∧
        add32 yStart s.pitch + s.size ≤ yEnd) := by
  have hdmatx := exclamation_dmatx hsize hcovers
  have hstay : ∀ yPos, add32 xStart s.size ≤ xEnd →
      wordRow s xStart xEnd 33 xStart yPos = (xStart, yPos) := fun yPos hwide =>
    if_neg (not_or.mpr ⟨Nat.not_lt_of_le hwide, by decide⟩)
  constructor
  · intro hwide hcheck
    have hfits : xStart + s.size / 2 ≤ xEnd ∧ yStart ≤ yStart ∧ yStart + s.size ≤ yEnd := by
      apply glyph_fits ⟨hsize.1, hsize.2.1⟩ hx hy hxEnd hyEnd
      intro p hp
      apply hin (fun _ => 0xff) [33] (by decide)
      exact wordLoop_exclamation hdmatx (hstay _ hwide) hcheck hp
    exact ⟨hfits.1, hfits.2.2⟩
  · intro hcheck
    apply glyph_fits ⟨hsize.1, hsize.2.1⟩ hx (add32_lt _ _) hxEnd hyEnd
    intro p hp
    by_cases hwide : add32 xStart s.size ≤ xEnd
    · apply hin (fun _ => 0xff) [10, 33] (by decide)
      rw [wordLoop_lineBreak _ hcheck]
      exact wordLoop_exclamation hdmatx (hstay _ hwide) hcheck hp
    · apply hin (fun _ => 0xff) [33] (by decide)
      exact wordLoop_exclamation hdmatx (if_pos (Or.inl (Nat.lt_of_not_le hwide))) hcheck hp

end Fits

/-- What is drawn inside a box of the display is stored to its slots. -/
theorem textInBox_of_points (disp : Display) {xStart yStart xEnd yEnd : Nat}
    {points : List (Nat × Nat)} (color : UInt32)
    (h : ∀ p ∈ points, InBox disp.toFwkDispInfo xStart yStart xEnd yEnd p) :
    TextInBox disp.toFwkDispInfo xStart yStart xEnd yEnd points
      (points.flatMap fun p => fwkDisplayWritePoint disp.toFwkDispInfo p.1 p.2 color) := by
  refine ⟨h, ?_⟩
  intro st hst
  obtain ⟨p, hp, hwrite⟩ := List.mem_flatMap.mp hst
  have hbox := h p hp
  refine ⟨p, hbox, ?_⟩
  have hcell := List.mem_map_of_mem (f := FbStore.cell) hwrite
  rw [fwkDisplayWritePoint, writeColour_cell disp.format, List.mem_singleton] at hcell
  rw [hcell]
  apply advancePosition_eq disp
  · exact Nat.lt_of_lt_of_le hbox.2.1 (Nat.min_le_right _ _)
  · exact Nat.lt_of_lt_of_le hbox.2.2.2 (Nat.min_le_right _ _)

/-- **Text stays in its box**, whatever the text is, if there is room for it or if it is refused. -/
theorem text_in_box_iff (disp : Display) (s : FwkFontSetting) (xStart yStart xEnd yEnd : Nat)
    (hdisp : disp.width < 2 ^ 32 ∧ disp.height < 2 ^ 32)
    (hsize : 0 < s.size ∧ s.size % 16 = 0 ∧ s.size < 2 ^ 32)
    (hstart : xStart < 2 ^ 32 ∧ yStart < 2 ^ 32) (hcovers : s.CoversAscii) :
    (∀ (memory : Nat → UInt8) (fmt : List UInt8), 0 ∉ fmt →
      TextInBox disp.toFwkDispInfo xStart yStart xEnd yEnd
        (wordPoints memory disp.toFwkDispInfo s xStart yStart xEnd yEnd fmt)
        (fwkDisplayDotMatrixWord memory disp.toFwkDispInfo s xStart yStart xEnd yEnd fmt)) ↔
      RoomForText disp.toFwkDispInfo s xStart yStart xEnd yEnd ∨
        TextRefused disp.toFwkDispInfo s xStart yStart xEnd yEnd := by
  have hpitch : s.pitch < 2 ^ 32 := add32_lt _ _
  constructor
  · intro h
    obtain ⟨hfirst, hsecond⟩ := rows_fit hsize hstart.1 hstart.2
      (Nat.lt_of_le_of_lt (Nat.min_le_right xEnd disp.width) hdisp.1)
      (Nat.lt_of_le_of_lt (Nat.min_le_right yEnd disp.height) hdisp.2) hcovers
      fun memory fmt hfmt => (h memory fmt hfmt).points
    simp only [RoomForText, TextRefused, add32] at hfirst hsecond ⊢
    omega
  · rintro (⟨hcol, hrow, hnext⟩ | ⟨hsecond, hfirst⟩) memory fmt -
    · apply textInBox_of_points
      have hcells := disp.cells
      have hwidth : disp.width * 16 ≤ disp.width * disp.height := Nat.mul_le_mul_left _ (by omega)
      have hheight : 8 * disp.height ≤ disp.width * disp.height := Nat.mul_le_mul_right _ (by omega)
      apply wordLoop_room hcol (by omega) (by omega) hnext
      exact ⟨by omega, ⟨le_rfl, hrow⟩, Or.inl rfl⟩
    · apply textInBox_of_points
      intro p hp
      rw [wordPoints, wordLoop_refused hsecond hfirst] at hp
      exact absurd hp List.not_mem_nil

/-- A display of 64 by 64 pixels, and the settings of a font of 16 rows. -/
def textDisplay : Display where
  buffer := 0x80000000
  width := 64
  height := 64
  bpp := fwkRgbPixel32
  format := isPixelFormat_pixel32
  cells := by decide

def textSetting : FwkFontSetting :=
  { ptrAscii := 0x1000, ptrHz := 0, font := nrFwkFontSong, color := 0xff, size := 16,
    lineSpacing := 4 }

/-- Two characters, a line break and one more, on the whole display. -/
theorem text_in_box_whole :
    TextInBox textDisplay.toFwkDispInfo 0 0 64 64
      (wordPoints (fun _ => 0xff) textDisplay.toFwkDispInfo textSetting 0 0 64 64
        [72, 105, 10, 33])
      (fwkDisplayDotMatrixWord (fun _ => 0xff) textDisplay.toFwkDispInfo textSetting 0 0 64 64
        [72, 105, 10, 33]) :=
  (text_in_box_iff textDisplay textSetting 0 0 64 64 (by decide) (by decide) (by decide)
    (by unfold FwkFontSetting.CoversAscii; decide)).mpr (Or.inl (by unfold RoomForText; decide))
    (fun _ => 0xff) [72, 105, 10, 33] (by decide)

/-- A character at the right edge goes to the next row, and over the edge there. -/
theorem text_leaves_narrow_box :
    textSetting.CoversAscii ∧
      ¬ TextInBox textDisplay.toFwkDispInfo 60 0 64 64
        (wordPoints (fun _ => 0xff) textDisplay.toFwkDispInfo textSetting 60 0 64 64 [33])
        (fwkDisplayDotMatrixWord (fun _ => 0xff) textDisplay.toFwkDispInfo textSetting 60 0 64 64
          [33]) := by
  refine ⟨by unfold FwkFontSetting.CoversAscii; decide, ?_⟩
  intro h
  have hin := h.points (64, 20) (by decide +kernel)
  exact absurd hin.2.1 (by decide)

end HeavenFox.Platform
