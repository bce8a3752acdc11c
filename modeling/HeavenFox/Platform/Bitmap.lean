/-
# HeavenFox.Platform.Bitmap -- images of `fwk_bitmap.c`

`fwk_display_bitmap` draws an uncompressed BMP.  It goes through the rows with a counter of the bytes
behind the headers, so it takes the pixels for one unbroken run that begins there.  The format pads
its rows to words, says in a field of its own where the pixels begin, and writes the height of a
top-down image as a negative number, which the code takes for a huge one.  `bitmap_drawn_iff` says
which images come out right for all that.
-/
import HeavenFox.Logic.Loop
import HeavenFox.Platform.DispColour

namespace HeavenFox.Platform

open HeavenFox.Logic

/-! ## Drawing -/

/-- `struct fwk_bmp_file_header`: what says which file it is and where its pixels are. -/
structure FwkBmpFileHeader where
  picType : UInt16
  offsetbit : Nat
  deriving DecidableEq, Repr

/-- `struct fwk_bmp_info_header`: the size of the image. -/
structure FwkBmpInfoHeader where
  width : Int
  height : Int
  pixelbit : UInt16
  deriving DecidableEq, Repr

/-- The headers at the start of an image. -/
structure BmpHeaders where
  file : FwkBmpFileHeader
  info : FwkBmpInfoHeader
  deriving DecidableEq, Repr

/-- `'B'` and `'M'`, as a word of two bytes. -/
def bmpPicType : UInt16 := 0x4D42

/-- `fwk_pixel_rgbform_convert` -/
def fwkPixelRgbformConvert (srctype : UInt8) (data : UInt32) : UInt32 :=
  if srctype = fwkRgbPixel16 then
    let bData := data.toUInt8.toUInt32
    let rData := (data >>> (8 : UInt32)).toUInt8.toUInt32
    (bData <<< (8 : UInt32)) ||| rData
  else if srctype = fwkRgbPixel24 then
    let bData := data.toUInt8.toUInt32
    let gData := (data >>> (8 : UInt32)).toUInt8.toUInt32
    let rData := (data >>> (16 : UInt32)).toUInt8.toUInt32
    (bData <<< (16 : UInt32)) ||| (gData <<< (8 : UInt32)) ||| rData
  else if srctype = fwkRgbPixel32 then
    let dData := data.toUInt8.toUInt32
    let bData := (data >>> (8 : UInt32)).toUInt8.toUInt32
    let gData := (data >>> (16 : UInt32)).toUInt8.toUInt32
    let rData := (data >>> (24 : UInt32)).toUInt8.toUInt32
    ((dData <<< (24 : UInt32)) ||| (bData <<< (16 : UInt32))) ||| (gData <<< (8 : UInt32)) |||
      rData
  else data

/-- The variables that go on from pixel to pixel. -/
structure BmpState where
  rgbData : UInt32
  rgbInc : Nat
  deriving DecidableEq, Repr

/-- The bytes of a pixel, shifted into the word one after the other. -/
def shiftBytes (bitmap : Nat → UInt8) (imageBpp : UInt8) (rgbInc : Nat) (rgbData : UInt32) :
    UInt32 :=
  (List.range imageBpp.toNat).foldl
    (fun rgbData pCnt => (rgbData <<< (8 : UInt32)) ||| (bitmap (add32 rgbInc pCnt)).toUInt32)
    rgbData

/-- The body of the loop over the pixels of a row.  `bitmap` is what `ptr_bitmap` points to. -/
def bmpPixel (disp : FwkDispInfo) (bitmap : Nat → UInt8) (imageBpp : UInt8) (offset pxCnt : Nat)
    (s : BmpState) : List FbStore × BmpState :=
  let rgbData := shiftBytes bitmap imageBpp s.rgbInc s.rgbData
  let rgbInc := add32 s.rgbInc imageBpp.toNat
  let rgbData := fwkPixelRgbformConvert imageBpp rgbData
  let rgbData := fwkDisplayConvertRgbbit imageBpp disp.bpp rgbData
  (fwkDisplayWritePixel disp.buffer (add32 offset pxCnt) disp.bpp rgbData, ⟨rgbData, rgbInc⟩)

/-- The body of the loop over the rows. -/
def bmpRow (disp : FwkDispInfo) (xStart yStart : Nat) (info : FwkBmpInfoHeader)
    (bitmap : Nat → UInt8) (imageBpp : UInt8) (pyCnt : Nat) (s : BmpState) :
    List FbStore × BmpState :=
  let yOffset := if 0 > info.height then pyCnt else sub32 (sub32 (asUint32 info.height) 1) pyCnt
  let offset := fwkDisplayAdvancePosition xStart (add32 yStart yOffset) disp.width
  countedLoop (bmpPixel disp bitmap imageBpp offset) (asUint32 info.width) s

/-- `fwk_display_bitmap`.  `rgbData` is what the variable holds before anything is written to it. -/
def fwkDisplayBitmap (disp : FwkDispInfo) (xStart yStart : Nat) (image : BmpHeaders)
    (bitmap : Nat → UInt8) (rgbData : UInt32) : List FbStore :=
  if image.file.picType ≠ bmpPicType then []
  else
    let width := asUint32 image.info.width
    let height := asUint32 image.info.height
    if add32 xStart width > disp.width ∨ add32 yStart height > disp.height then []
    else
      let imageBpp := (image.info.pixelbit >>> (3 : UInt16)).toUInt8
      (countedLoop (bmpRow disp xStart yStart image.info bitmap imageBpp) height ⟨rgbData, 0⟩).1

/-! ## Images -/

/-- The little-endian word in some bytes. -/
def leWord (byte : Nat → UInt8) : Nat → Nat
  | 0 => 0
  | n + 1 => leWord byte n + 2 ^ (8 * n) * (byte n).toNat

section Format

variable (b : BmpHeaders)

/-- The number of columns. -/
def BmpHeaders.columns : Nat := b.info.width.toNat

/-- The number of rows, in either order. -/
def BmpHeaders.rows : Nat := b.info.height.natAbs

/-- The format of the pixels, which is also the number of their bytes. -/
def BmpHeaders.format : UInt8 := (b.info.pixelbit >>> (3 : UInt16)).toUInt8

/-- From one row to the next: rows are padded to words. -/
def BmpHeaders.stride : Nat := (b.format.toNat * b.columns + 3) / 4 * 4

/-- Where row `j` from the top begins, counted from the end of the headers. -/
def BmpHeaders.rowAt (j : Nat) : Nat :=
  b.file.offsetbit - 54 + b.stride * (if b.info.height < 0 then j else b.rows - 1 - j)

/-- The colour of pixel `(i, j)`, counted from the upper left corner. -/
def BmpHeaders.colourAt (bitmap : Nat → UInt8) (i j : Nat) : Rgb :=
  wordColour b.format
    (leWord (fun k => bitmap (b.rowAt j + b.format.toNat * i + k)) b.format.toNat)

end Format

/-- A well-formed image in memory: its pixels begin behind the headers. -/
structure Bmp extends BmpHeaders where
  picType : file.picType = bmpPicType
  pixelbit : info.pixelbit = 16 ∨ info.pixelbit = 24 ∨ info.pixelbit = 32
  width : 0 < info.width ∧ info.width < 2 ^ 31
  height : info.height ≠ 0 ∧ -2 ^ 31 ≤ info.height ∧ info.height < 2 ^ 31
  offsetbit : 54 ≤ file.offsetbit
  inMemory : file.offsetbit + toBmpHeaders.stride * toBmpHeaders.rows ≤ 2 ^ 32

/-- The image fits onto the display. -/
def Bmp.Fits (b : Bmp) (disp : FwkDispInfo) (xStart yStart : Nat) : Prop :=
  xStart + b.columns ≤ disp.width ∧ yStart + b.rows ≤ disp.height

/-- The code refuses the image. -/
def Bmp.Refused (b : Bmp) (disp : FwkDispInfo) (xStart yStart : Nat) : Prop :=
  add32 xStart (asUint32 b.info.width) > disp.width ∨
    add32 yStart (asUint32 b.info.height) > disp.height

/-- The bytes of a slot of the frame buffer. -/
def FwkDispInfo.slotBytes (disp : FwkDispInfo) : Nat := if disp.bpp = fwkRgbPixel16 then 2 else 4

/-- The frame buffer is there, and in memory. -/
structure FwkDispInfo.InMemory (disp : FwkDispInfo) : Prop where
  buffer : disp.buffer ≠ 0
  room : disp.buffer + disp.slotBytes * (disp.width * disp.height) ≤ 2 ^ 32

/-- Nothing is stored outside of the display; an image that fits is shown, pixel by pixel, and one
that does not leaves no trace. -/
structure DrawsBitmap (disp : FwkDispInfo) (xStart yStart : Nat) (b : Bmp) (bitmap : Nat → UInt8)
    (stores : List FbStore) : Prop where
  inside : ∀ s ∈ stores, s.cell.1 < disp.width * disp.height
  shows : b.Fits disp xStart yStart →
    ∀ (frame : Nat → UInt32) (i j : Nat), i < b.columns → j < b.rows →
      disp.shown (drawn frame stores (rowMajor disp.width (xStart + i) (yStart + j))) =
        (b.colourAt bitmap i j).heldIn disp.bpp
  refused : ¬ b.Fits disp xStart yStart → stores = []

/-- What has to hold of an image that is drawn: its rows come from below, its pixels follow the
headers and each other, and RGB565 is not to be widened. -/
structure Bmp.Plain (b : Bmp) (disp : FwkDispInfo) : Prop where
  bottomUp : 0 < b.info.height
  unbroken : b.file.offsetbit = 54 ∧ (b.rows = 1 ∨ b.format.toNat * b.columns % 4 = 0)
  widens : b.format = fwkRgbPixel16 → disp.bpp = fwkRgbPixel16

/-! ## One pixel -/

section Pixels

variable {bitmap : Nat → UInt8} {imageBpp : UInt8} {rgbInc : Nat}

/-- The bytes of a word in the other order, in each format. -/
theorem toNat_rgbform (w : UInt32) :
    (fwkPixelRgbformConvert fwkRgbPixel16 w).toNat =
        bitField w.toNat 8 8 + 2 ^ 8 * bitField w.toNat 0 8 ∧
      (fwkPixelRgbformConvert fwkRgbPixel24 w).toNat =
        bitField w.toNat 16 8 + 2 ^ 8 * bitField w.toNat 8 8 + 2 ^ 16 * bitField w.toNat 0 8 ∧
      (fwkPixelRgbformConvert fwkRgbPixel32 w).toNat =
        bitField w.toNat 24 8 + 2 ^ 8 * bitField w.toNat 16 8 + 2 ^ 16 * bitField w.toNat 8 8 +
          2 ^ 24 * bitField w.toNat 0 8 := by
  have h0 := toNat_lowByte w
  have h8 : (w >>> (8 : UInt32)).toUInt8.toUInt32.toNat = bitField w.toNat 8 8 :=
    toNat_byteOf rfl (by decide)
  have h16 : (w >>> (16 : UInt32)).toUInt8.toUInt32.toNat = bitField w.toNat 16 8 :=
    toNat_byteOf rfl (by decide)
  have h24 : (w >>> (24 : UInt32)).toUInt8.toUInt32.toNat = bitField w.toNat 24 8 :=
    toNat_byteOf rfl (by decide)
  refine ⟨?_, ?_, ?_⟩
  · rw [← h0, ← h8]
    exact toNat_twoBytes (toUInt8_lt _) (toUInt8_lt _)
  · rw [← h0, ← h8, ← h16]
    exact toNat_threeBytes (toUInt8_lt _) (toUInt8_lt _) (toUInt8_lt _)
  · rw [← h0, ← h8, ← h16, ← h24]
    exact toNat_fourBytes (toUInt8_lt _) (toUInt8_lt _) (toUInt8_lt _) (toUInt8_lt _)

/-- The word after `n` bytes. -/
def gathered (bitmap : Nat → UInt8) (rgbInc : Nat) (rgbData : UInt32) (n : Nat) : Nat :=
  ((List.range n).foldl
    (fun rgbData pCnt => (rgbData <<< (8 : UInt32)) ||| (bitmap (add32 rgbInc pCnt)).toUInt32)
    rgbData).toNat

theorem gathered_succ (bitmap : Nat → UInt8) (rgbInc : Nat) (rgbData : UInt32) (n : Nat) :
    gathered bitmap rgbInc rgbData (n + 1) =
      ((bitmap (add32 rgbInc n)).toNat + 2 ^ 8 * gathered bitmap rgbInc rgbData n) % 2 ^ 32 := by
  rw [gathered, List.range_succ, List.foldl_append]
  exact toNat_shiftIn _ _

/-- Whatever the word holds before, it holds the bytes of the pixel afterwards, the first one
lowest. -/
theorem pixelWord_eq (h : IsPixelFormat imageBpp) (rgbData : UInt32) :
    (fwkPixelRgbformConvert imageBpp (shiftBytes bitmap imageBpp rgbInc rgbData)).toNat =
      leWord (fun k => bitmap (add32 rgbInc k)) imageBpp.toNat := by
  have hlow : ∀ n, bitField (gathered bitmap rgbInc rgbData (n + 1)) 0 8 =
      (bitmap (add32 rgbInc n)).toNat := fun n => by
    rw [gathered_succ]
    exact bitField_shiftIn_low (UInt8.toNat_lt _) _
  have hhigh : ∀ n k, k + 16 ≤ 32 → bitField (gathered bitmap rgbInc rgbData (n + 1)) (8 + k) 8 =
      bitField (gathered bitmap rgbInc rgbData n) k 8 := fun n k hk => by
    rw [gathered_succ]
    exact bitField_shiftIn_high (UInt8.toNat_lt _) _ hk
  obtain ⟨h16, h24, h32⟩ := toNat_rgbform (shiftBytes bitmap imageBpp rgbInc rgbData)
  rcases h with rfl | rfl | rfl
  · have hword : (shiftBytes bitmap fwkRgbPixel16 rgbInc rgbData).toNat =
        gathered bitmap rgbInc rgbData 2 := rfl
    rw [h16, hword, hhigh 1 0 (by decide), hlow, hlow]
    show _ = leWord _ 2
    simp only [leWord]
    omega
  · have hword : (shiftBytes bitmap fwkRgbPixel24 rgbInc rgbData).toNat =
        gathered bitmap rgbInc rgbData 3 := rfl
    rw [h24, hword, hhigh 2 8 (by decide), hhigh 1 0 (by decide), hhigh 2 0 (by decide), hlow, hlow,
      hlow]
    show _ = leWord _ 3
    simp only [leWord]
    omega
  · have hword : (shiftBytes bitmap fwkRgbPixel32 rgbInc rgbData).toNat =
        gathered bitmap rgbInc rgbData 4 := rfl
    rw [h32, hword, hhigh 3 16 (by decide), hhigh 2 8 (by decide), hhigh 1 0 (by decide),
      hhigh 3 8 (by decide), hhigh 2 0 (by decide), hhigh 3 0 (by decide), hlow, hlow, hlow, hlow]
    show _ = leWord _ 4
    simp only [leWord]
    omega

end Pixels

/-! ## What the loops store -/

/-- What is stored for pixel `n` of an unbroken run of pixels. -/
def runValue (disp : FwkDispInfo) (bitmap : Nat → UInt8) (imageBpp : UInt8) (n : Nat) : UInt32 :=
  fwkDisplayConvertRgbbit imageBpp disp.bpp
    (fwkPixelRgbformConvert imageBpp
      (shiftBytes bitmap imageBpp (n * imageBpp.toNat % 2 ^ 32) 0))

/-- The loops are at pixel `n` of the run. -/
def BmpState.AtPixel (s : BmpState) (imageBpp : UInt8) (n : Nat) : Prop :=
  s.rgbInc = n * imageBpp.toNat % 2 ^ 32

section Loops

variable {disp : FwkDispInfo} {bitmap : Nat → UInt8} {imageBpp : UInt8} {xStart yStart n : Nat}
  {info : FwkBmpInfoHeader} {s : BmpState}

theorem bmpPixel_run (h : IsPixelFormat imageBpp) (offset pxCnt : Nat)
    (hs : s.AtPixel imageBpp n) :
    (bmpPixel disp bitmap imageBpp offset pxCnt s).1 =
        fwkDisplayWritePixel disp.buffer (add32 offset pxCnt) disp.bpp
          (runValue disp bitmap imageBpp n) ∧
      (bmpPixel disp bitmap imageBpp offset pxCnt s).2.AtPixel imageBpp (n + 1) := by
  have hword : fwkPixelRgbformConvert imageBpp (shiftBytes bitmap imageBpp s.rgbInc s.rgbData) =
      fwkPixelRgbformConvert imageBpp
        (shiftBytes bitmap imageBpp (n * imageBpp.toNat % 2 ^ 32) 0) := by
    apply UInt32.toNat_inj.mp
    rw [pixelWord_eq h, pixelWord_eq h]
    exact congrArg (fun p => leWord (fun k => bitmap (add32 p k)) imageBpp.toNat) hs
  constructor
  · show fwkDisplayWritePixel _ _ _ (fwkDisplayConvertRgbbit _ _ (fwkPixelRgbformConvert _ _)) = _
    rw [hword]
    rfl
  · show add32 s.rgbInc imageBpp.toNat = (n + 1) * imageBpp.toNat % 2 ^ 32
    rw [hs, add32, Nat.mod_add_mod, Nat.succ_mul]

/-- Where the code puts row `pyCnt` of an image. -/
def rowOffset (disp : FwkDispInfo) (xStart yStart : Nat) (info : FwkBmpInfoHeader) (pyCnt : Nat) :
    Nat :=
  fwkDisplayAdvancePosition xStart
    (add32 yStart (if 0 > info.height then pyCnt else sub32 (sub32 (asUint32 info.height) 1) pyCnt))
    disp.width

theorem bmpRow_run (h : IsPixelFormat imageBpp) (pyCnt : Nat)
    (hs : s.AtPixel imageBpp (pyCnt * asUint32 info.width)) :
    (bmpRow disp xStart yStart info bitmap imageBpp pyCnt s).1 =
        (List.range (asUint32 info.width)).flatMap (fun pxCnt =>
          fwkDisplayWritePixel disp.buffer (add32 (rowOffset disp xStart yStart info pyCnt) pxCnt)
            disp.bpp (runValue disp bitmap imageBpp (pyCnt * asUint32 info.width + pxCnt))) ∧
      (bmpRow disp xStart yStart info bitmap imageBpp pyCnt s).2.AtPixel imageBpp
        ((pyCnt + 1) * asUint32 info.width) := by
  rw [Nat.succ_mul]
  apply countedLoop_eq (fun pxCnt (s : BmpState) =>
    s.AtPixel imageBpp (pyCnt * asUint32 info.width + pxCnt))
  · intro pxCnt _ s hs
    exact bmpPixel_run h _ pxCnt hs
  · exact hs

end Loops

section Stores

variable (b : Bmp)

theorem Bmp.format_ok : IsPixelFormat b.format := by
  unfold BmpHeaders.format
  rcases b.pixelbit with h | h | h
  · rw [h]; decide
  · rw [h]; decide
  · rw [h]; decide

theorem Bmp.format_pos : 0 < b.format.toNat := by
  rcases b.format_ok with h | h | h <;> rw [h] <;> decide

theorem Bmp.columns_eq : asUint32 b.info.width = b.columns := by
  have h := b.width
  unfold asUint32 BmpHeaders.columns
  omega

/-- The stores of an image that is not refused. -/
theorem bitmap_stores {disp : FwkDispInfo} {xStart yStart : Nat} (h : ¬ b.Refused disp xStart yStart)
    (bitmap : Nat → UInt8) (rgbData : UInt32) :
    fwkDisplayBitmap disp xStart yStart b.toBmpHeaders bitmap rgbData =
      (List.range (asUint32 b.info.height)).flatMap fun pyCnt =>
        (List.range b.columns).flatMap fun pxCnt =>
          fwkDisplayWritePixel disp.buffer (add32 (rowOffset disp xStart yStart b.info pyCnt) pxCnt)
            disp.bpp (runValue disp bitmap b.format (pyCnt * b.columns + pxCnt)) := by
  rw [fwkDisplayBitmap, if_neg (not_not_intro b.picType)]
  refine (if_neg h).trans ?_
  rw [← b.columns_eq]
  apply (countedLoop_eq (fun pyCnt s => s.AtPixel b.format (pyCnt * asUint32 b.info.width)) _
    (fun pyCnt _ s hs => bmpRow_run b.format_ok pyCnt hs) ?_).1
  show 0 = 0 * _ * _ % _
  rw [Nat.zero_mul, Nat.zero_mul, Nat.zero_mod]

theorem bitmap_refused {disp : FwkDispInfo} {xStart yStart : Nat} (h : b.Refused disp xStart yStart)
    (bitmap : Nat → UInt8) (rgbData : UInt32) :
    fwkDisplayBitmap disp xStart yStart b.toBmpHeaders bitmap rgbData = [] := by
  rw [fwkDisplayBitmap, if_neg (not_not_intro b.picType)]
  exact if_pos h

theorem writePixel_cell {buffer : Nat} (hbuffer : buffer ≠ 0) {bpp : UInt8} (h : IsPixelFormat bpp)
    (offset : Nat) (data : UInt32) :
    (fwkDisplayWritePixel buffer offset bpp data).map FbStore.cell =
      [(offset, pixelValue bpp data)] := by
  rw [fwkDisplayWritePixel, if_neg hbuffer]
  exact writeFbuffer_cell h offset data

/-- Each pixel of each row is stored somewhere. -/
theorem bitmap_stores_mem {disp : FwkDispInfo} (hbuffer : disp.buffer ≠ 0)
    (hformat : IsPixelFormat disp.bpp) {xStart yStart : Nat} (h : ¬ b.Refused disp xStart yStart)
    (bitmap : Nat → UInt8) (rgbData : UInt32) {pyCnt pxCnt : Nat}
    (hpy : pyCnt < asUint32 b.info.height) (hpx : pxCnt < b.columns) :
    ∃ s ∈ fwkDisplayBitmap disp xStart yStart b.toBmpHeaders bitmap rgbData,
      s.cell.1 = add32 (rowOffset disp xStart yStart b.info pyCnt) pxCnt := by
  have hcell := writePixel_cell hbuffer hformat
    (add32 (rowOffset disp xStart yStart b.info pyCnt) pxCnt)
    (runValue disp bitmap b.format (pyCnt * b.columns + pxCnt))
  obtain ⟨s, hs, heq⟩ := List.mem_map.mp (hcell ▸ List.mem_singleton_self _)
  refine ⟨s, ?_, congrArg Prod.fst heq⟩
  rw [bitmap_stores b h]
  exact List.mem_flatMap.mpr ⟨pyCnt, List.mem_range.mpr hpy,
    List.mem_flatMap.mpr ⟨pxCnt, List.mem_range.mpr hpx, hs⟩⟩

end Stores

/-! ## Images from below -/

section BottomUp

variable (disp : Display) {b : Bmp} {xStart yStart : Nat}

theorem Bmp.rows_eq (hup : 0 < b.info.height) : asUint32 b.info.height = b.rows := by
  have h := b.height
  unfold asUint32 BmpHeaders.rows
  omega

theorem Bmp.rows_topDown (hdown : b.info.height < 0) :
    asUint32 b.info.height = 2 ^ 32 - b.rows := by
  have h := b.height
  unfold asUint32 BmpHeaders.rows
  omega

theorem Bmp.columns_pos (b : Bmp) : 0 < b.columns := by
  have h := b.width
  unfold BmpHeaders.columns
  omega

theorem Bmp.rows_pos (b : Bmp) : 0 < b.rows := by
  have h := b.height
  unfold BmpHeaders.rows
  omega

variable {disp} in
theorem Bmp.Fits.sizes (hfits : b.Fits disp.toFwkDispInfo xStart yStart) :
    disp.width < 2 ^ 32 ∧ disp.height < 2 ^ 32 := by
  obtain ⟨hx, hy⟩ := hfits
  have hcols := b.columns_pos
  have hrows := b.rows_pos
  have hcells := disp.cells
  have hwidth : disp.width ≤ disp.width * disp.height := Nat.le_mul_of_pos_right _ (by omega)
  have hheight : disp.height ≤ disp.width * disp.height := Nat.le_mul_of_pos_left _ (by omega)
  omega

variable (hup : 0 < b.info.height) (hfits : b.Fits disp.toFwkDispInfo xStart yStart)
include hup hfits

theorem bottomUp_accepted : ¬ b.Refused disp.toFwkDispInfo xStart yStart := by
  obtain ⟨hwidth, hheight⟩ := hfits.sizes
  obtain ⟨hx, hy⟩ := hfits
  rw [Bmp.Refused, b.columns_eq, b.rows_eq hup, add32_of_lt (by omega), add32_of_lt (by omega)]
  omega

theorem bottomUp_offset {pyCnt pxCnt : Nat} (hpy : pyCnt < b.rows) (hpx : pxCnt < b.columns) :
    add32 (rowOffset disp.toFwkDispInfo xStart yStart b.info pyCnt) pxCnt =
      rowMajor disp.width (xStart + pxCnt) (yStart + (b.rows - 1 - pyCnt)) := by
  obtain ⟨hwidth, hheight⟩ := hfits.sizes
  obtain ⟨hx, hy⟩ := hfits
  have htop : sub32 b.rows 1 = b.rows - 1 := sub32_of_le (by omega) (by omega)
  have hrow : sub32 (b.rows - 1) pyCnt = b.rows - 1 - pyCnt := sub32_of_le (by omega) (by omega)
  have hcell : rowMajor disp.width (xStart + pxCnt) (yStart + (b.rows - 1 - pyCnt)) < 2 ^ 32 :=
    Nat.lt_trans (rowMajor_lt (by omega) (by omega)) disp.cells
  rw [← rowMajor_add] at hcell ⊢
  have hpos : add32 yStart (b.rows - 1 - pyCnt) = yStart + (b.rows - 1 - pyCnt) :=
    add32_of_lt (by omega)
  rw [rowOffset, if_neg (by omega), b.rows_eq hup, htop, hrow, hpos,
    advancePosition_eq disp (by omega) (by omega), add32_of_lt hcell]

/-- The slots of an image, and what is stored to them. -/
theorem bottomUp_cells (hbuffer : disp.buffer ≠ 0) (bitmap : Nat → UInt8) (rgbData : UInt32) :
    (fwkDisplayBitmap disp.toFwkDispInfo xStart yStart b.toBmpHeaders bitmap rgbData).map
        FbStore.cell =
      block disp.width xStart yStart b.columns b.rows (b.rows - 1 - ·) fun pyCnt pxCnt =>
        pixelValue disp.bpp
          (runValue disp.toFwkDispInfo bitmap b.format (pyCnt * b.columns + pxCnt)) := by
  rw [bitmap_stores b (bottomUp_accepted disp hup hfits), List.map_flatMap, b.rows_eq hup]
  apply List.flatMap_congr
  intro pyCnt hpy
  rw [List.map_flatMap, ← List.flatMap_pure_eq_map]
  apply List.flatMap_congr
  intro pxCnt hpx
  rw [bottomUp_offset disp hup hfits (List.mem_range.mp hpy) (List.mem_range.mp hpx)]
  exact writePixel_cell hbuffer disp.format _ _

/-- The pixels of the display behind an image. -/
theorem bottomUp_drawn (hbuffer : disp.buffer ≠ 0) (bitmap : Nat → UInt8) (rgbData : UInt32) :
    (∀ s ∈ fwkDisplayBitmap disp.toFwkDispInfo xStart yStart b.toBmpHeaders bitmap rgbData,
      s.cell.1 < disp.width * disp.height) ∧
    ∀ (frame : Nat → UInt32) (i j : Nat), i < b.columns → j < b.rows →
      drawn frame
          (fwkDisplayBitmap disp.toFwkDispInfo xStart yStart b.toBmpHeaders bitmap rgbData)
          (rowMajor disp.width (xStart + i) (yStart + j)) =
        pixelValue disp.bpp (runValue disp.toFwkDispInfo bitmap b.format
          ((b.rows - 1 - j) * b.columns + i)) := by
  have hcells := bottomUp_cells disp hup hfits hbuffer bitmap rgbData
  obtain ⟨hx, hy⟩ := hfits
  constructor
  · intro s hs
    have hmem := List.mem_map_of_mem (f := FbStore.cell) hs
    rw [hcells] at hmem
    exact block_inside hx hy (fun _ _ => by omega) _ hmem
  · intro frame i j hi hj
    obtain ⟨r, hr, rfl⟩ : ∃ r < b.rows, j = b.rows - 1 - r :=
      ⟨b.rows - 1 - j, by omega, by omega⟩
    have hback : b.rows - 1 - (b.rows - 1 - r) = r := by omega
    rw [drawn, hcells, hback]
    exact paint_block hx (fun _ _ _ _ heq => by omega) frame hr hi

end BottomUp

/-! ## Colours -/

section Colours

variable {bitmap byte byte' : Nat → UInt8} {imageBpp bpp : UInt8}

theorem leWord_congr {n : Nat} (h : ∀ k < n, byte k = byte' k) : leWord byte n = leWord byte' n := by
  induction n with
  | zero => rfl
  | succ n ih =>
    rw [leWord, leWord, ih fun k hk => h k (Nat.lt_succ_of_lt hk), h n (Nat.lt_succ_self n)]

theorem leWord_low (byte : Nat → UInt8) (n : Nat) :
    leWord byte (n + 1) % 2 ^ 8 = (byte 0).toNat := by
  induction n with
  | zero =>
    have hlt := (byte 0).toNat_lt
    simp only [leWord]
    omega
  | succ n ih =>
    have hpow : 2 ^ (8 * (n + 1)) = 2 ^ 8 * 2 ^ (8 * n) := by rw [← Nat.pow_add]; congr 1; omega
    rw [leWord, hpow, Nat.mul_assoc, Nat.add_mul_mod_self_left, ih]

/-- A pixel whose first byte is zero has no blue. -/
theorem blue_of_dark (h : IsPixelFormat imageBpp) (hdark : byte 0 = 0) :
    ((wordColour imageBpp (leWord byte imageBpp.toNat)).heldIn bpp).b = 0 := by
  have hlow : leWord byte imageBpp.toNat % 2 ^ 8 = 0 := by
    have hzero : (byte 0).toNat = 0 := by rw [hdark]; rfl
    rcases h with rfl | rfl | rfl
    · exact (leWord_low byte 1).trans hzero
    · exact (leWord_low byte 2).trans hzero
    · exact (leWord_low byte 3).trans hzero
  have hblue : (wordColour imageBpp (leWord byte imageBpp.toNat)).b = 0 := by
    unfold wordColour bitField
    split
    · show 8 * (_ / 2 ^ 0 % 2 ^ 5) = 0
      omega
    · show _ / 2 ^ 0 % 2 ^ 8 = 0
      omega
  unfold Rgb.heldIn
  split
  · show Rgb.b _ / 8 * 8 = 0
    rw [hblue]
  · exact hblue

/-- White has some, in every format. -/
theorem blue_of_white (h : IsPixelFormat imageBpp) (hbpp : IsPixelFormat bpp) :
    ((wordColour imageBpp (leWord (fun _ => 0xff) imageBpp.toNat)).heldIn bpp).b ≠ 0 := by
  rcases h with rfl | rfl | rfl <;> rcases hbpp with rfl | rfl | rfl <;> decide

/-- What the display shows of pixel `n` of an unbroken run. -/
theorem runValue_shown {disp : FwkDispInfo} (hdisp : IsPixelFormat disp.bpp)
    (h : IsPixelFormat imageBpp) (hwiden : imageBpp = fwkRgbPixel16 → disp.bpp = fwkRgbPixel16)
    (n : Nat) :
    disp.shown (pixelValue disp.bpp (runValue disp bitmap imageBpp n)) =
      (wordColour imageBpp (leWord (fun k => bitmap (add32 (n * imageBpp.toNat % 2 ^ 32) k))
        imageBpp.toNat)).heldIn disp.bpp := by
  rw [FwkDispInfo.shown, runValue, convert_colour h hdisp hwiden, pixelWord_eq h]

end Colours

/-! ## Where the pixels are -/

section Places

variable (b : Bmp) {py i k : Nat}

theorem stride_ge (b : BmpHeaders) : b.format.toNat * b.columns ≤ b.stride := by
  unfold BmpHeaders.stride
  omega

theorem stride_eq_iff (b : BmpHeaders) :
    b.stride = b.format.toNat * b.columns ↔ b.format.toNat * b.columns % 4 = 0 := by
  unfold BmpHeaders.stride
  omega

/-- The pixels lie in memory. -/
theorem Bmp.pixel_lt (hpy : py < b.rows) (hi : i < b.columns) (hk : k < b.format.toNat) :
    b.file.offsetbit - 54 + b.stride * py + b.format.toNat * i + k < 2 ^ 32 := by
  have hmem := b.inMemory
  have hpixel : b.format.toNat * (i + 1) ≤ b.format.toNat * b.columns := Nat.mul_le_mul_left _ hi
  have hrow : b.stride * (py + 1) ≤ b.stride * b.rows := Nat.mul_le_mul_left _ hpy
  have hstride := stride_ge b.toBmpHeaders
  rw [Nat.mul_succ] at hpixel hrow
  omega

/-- The run of the code does not go beyond the pixels. -/
theorem run_le (b : BmpHeaders) (py i : Nat) :
    (py * b.columns + i) * b.format.toNat ≤
      b.file.offsetbit - 54 + b.stride * py + b.format.toNat * i := by
  have hrow : b.format.toNat * b.columns * py ≤ b.stride * py :=
    Nat.mul_le_mul_right _ (stride_ge b)
  have hsplit : (py * b.columns + i) * b.format.toNat =
      b.format.toNat * b.columns * py + b.format.toNat * i := by ring
  omega

/-- Without gaps, the run of the code is that of the pixels. -/
theorem run_eq (b : BmpHeaders) (hoffset : b.file.offsetbit = 54)
    (hrows : b.rows = 1 ∨ b.format.toNat * b.columns % 4 = 0) (hpy : py < b.rows) (i : Nat) :
    (py * b.columns + i) * b.format.toNat =
      b.file.offsetbit - 54 + b.stride * py + b.format.toNat * i := by
  have hrow : b.format.toNat * b.columns * py = b.stride * py := by
    rcases hrows with hone | hfull
    · have hzero : py = 0 := by omega
      rw [hzero, Nat.mul_zero, Nat.mul_zero]
    · rw [(stride_eq_iff b).mpr hfull]
  have hsplit : (py * b.columns + i) * b.format.toNat =
      b.format.toNat * b.columns * py + b.format.toNat * i := by ring
  omega

theorem rowAt_bottomUp (b : BmpHeaders) (hup : 0 < b.info.height) (j : Nat) :
    b.rowAt j = b.file.offsetbit - 54 + b.stride * (b.rows - 1 - j) := by
  rw [BmpHeaders.rowAt, if_neg (by omega)]

end Places

/-! ## Which images come out right -/

section Images

variable (disp : Display) {b : Bmp} {xStart yStart : Nat}

/-- An image without any of the difficulties. -/
theorem plain_drawn (hbuffer : disp.buffer ≠ 0) (hplain : b.Plain disp.toFwkDispInfo)
    (hfits : b.Fits disp.toFwkDispInfo xStart yStart) (bitmap : Nat → UInt8) (rgbData : UInt32) :
    DrawsBitmap disp.toFwkDispInfo xStart yStart b bitmap
      (fwkDisplayBitmap disp.toFwkDispInfo xStart yStart b.toBmpHeaders bitmap rgbData) := by
  obtain ⟨hup, ⟨hoffset, hrows⟩, hwiden⟩ := hplain
  obtain ⟨hinside, hdrawn⟩ := bottomUp_drawn disp hup hfits hbuffer bitmap rgbData
  refine ⟨hinside, fun _ => ?_, fun h => absurd hfits h⟩
  intro frame i j hi hj
  have hpy : b.rows - 1 - j < b.rows := by omega
  rw [hdrawn frame i j hi hj, runValue_shown disp.format b.format_ok hwiden, BmpHeaders.colourAt,
    rowAt_bottomUp _ hup, run_eq b.toBmpHeaders hoffset hrows hpy i]
  congr 2
  apply leWord_congr
  intro k hk
  have hlt := b.pixel_lt hpy hi hk
  rw [Nat.mod_eq_of_lt (by omega), add32_of_lt hlt]

/-- An image that does not fit leaves no trace only if it is refused. -/
theorem refused_of_drawn (hbuffer : disp.buffer ≠ 0) {bitmap : Nat → UInt8} {rgbData : UInt32}
    (hfits : ¬ b.Fits disp.toFwkDispInfo xStart yStart)
    (h : DrawsBitmap disp.toFwkDispInfo xStart yStart b bitmap
      (fwkDisplayBitmap disp.toFwkDispInfo xStart yStart b.toBmpHeaders bitmap rgbData)) :
    b.Refused disp.toFwkDispInfo xStart yStart := by
  by_contra haccepted
  have hheight : 0 < asUint32 b.info.height := by
    have hrange := b.height
    unfold asUint32
    omega
  obtain ⟨s, hs, -⟩ := bitmap_stores_mem b hbuffer disp.format haccepted bitmap rgbData hheight
    b.columns_pos
  rw [h.refused hfits] at hs
  exact absurd hs List.not_mem_nil

/-- A pixel takes two bytes at least. -/
theorem FwkDispInfo.InMemory.pixels_le {disp : FwkDispInfo} (h : disp.InMemory) :
    2 * (disp.width * disp.height) ≤ 2 ^ 32 := by
  have hslot : 2 ≤ disp.slotBytes := by
    unfold FwkDispInfo.slotBytes
    split <;> omega
  calc
    2 * (disp.width * disp.height) ≤ disp.slotBytes * (disp.width * disp.height) :=
      Nat.mul_le_mul_right _ hslot
    _ ≤ 2 ^ 32 := Nat.le_trans (Nat.le_add_left _ _) h.room

/-- A row of an image takes four bytes at least. -/
theorem Bmp.rows_le (b : Bmp) : 4 * b.rows ≤ 2 ^ 32 := by
  have hpos : 0 < b.format.toNat * b.columns := Nat.mul_pos b.format_pos b.columns_pos
  have hstride : 4 ≤ b.stride := by
    unfold BmpHeaders.stride
    omega
  calc
    4 * b.rows ≤ b.stride * b.rows := Nat.mul_le_mul_right _ hstride
    _ ≤ 2 ^ 32 := Nat.le_trans (Nat.le_add_left _ _) b.inMemory

section TopDown

variable (hdisp : disp.InMemory) (hdown : b.info.height < 0)
  (hfits : b.Fits disp.toFwkDispInfo xStart yStart)
  (haccepted : ¬ b.Refused disp.toFwkDispInfo xStart yStart)
include hdisp hdown hfits haccepted

/-- A top-down image is let through only where its height, taken from the start, does not go below
zero. -/
theorem topDown_start : b.rows ≤ yStart := by
  by_contra hlow
  apply haccepted
  right
  obtain ⟨hx, hy⟩ := hfits
  have hcols := b.columns_pos
  have hfew := b.rows_le
  have hpixels := hdisp.pixels_le
  have htall : disp.height ≤ disp.width * disp.height := Nat.le_mul_of_pos_left _ (by omega)
  rw [b.rows_topDown hdown, add32_of_lt (by omega)]
  omega

/-- It is taken for one of nearly `2 ^ 32` rows, which go on beyond the display. -/
theorem topDown_leaves (bitmap : Nat → UInt8) (rgbData : UInt32) :
    ∃ s ∈ fwkDisplayBitmap disp.toFwkDispInfo xStart yStart b.toBmpHeaders bitmap rgbData,
      disp.width * disp.height ≤ s.cell.1 := by
  have hstart := topDown_start disp hdisp hdown hfits haccepted
  have hcols := b.columns_pos
  have hrows := b.rows_pos
  obtain ⟨hx, hy⟩ := hfits
  have hheight := b.rows_topDown hdown
  obtain ⟨row, hrow, hout⟩ := exists_row_outside (by omega : 0 < disp.width)
    (by omega : 0 < disp.height) disp.cells xStart
  have hbelow : disp.height ≤ row := by
    by_contra hin
    have hlt : rowMajor disp.width xStart row < disp.width * disp.height :=
      rowMajor_lt (by omega) (by omega)
    have hcells := disp.cells
    rw [Nat.mod_eq_of_lt (by omega)] at hout
    omega
  obtain ⟨s, hs, heq⟩ := bitmap_stores_mem b hdisp.buffer disp.format haccepted bitmap rgbData
    (by omega : row - yStart < asUint32 b.info.height) hcols
  refine ⟨s, hs, ?_⟩
  have hpos : add32 yStart (row - yStart) = row := by
    rw [add32_of_lt (by omega)]
    omega
  have hoffset : rowOffset disp.toFwkDispInfo xStart yStart b.info (row - yStart) =
      rowMajor disp.width xStart row % 2 ^ 32 := by
    rw [rowOffset, if_pos hdown, hpos]
    rfl
  rw [heq, hoffset, add32, Nat.add_zero, Nat.mod_mod]
  exact hout

end TopDown

/-- An image that is shown comes from below. -/
theorem bottomUp_of_drawn (hdisp : disp.InMemory)
    (hfits : b.Fits disp.toFwkDispInfo xStart yStart) {rgbData : UInt32}
    (h : DrawsBitmap disp.toFwkDispInfo xStart yStart b (fun _ => 0xff)
      (fwkDisplayBitmap disp.toFwkDispInfo xStart yStart b.toBmpHeaders (fun _ => 0xff) rgbData)) :
    0 < b.info.height := by
  by_contra hnot
  have hdown : b.info.height < 0 := by
    have hrange := b.height
    omega
  by_cases haccepted : b.Refused disp.toFwkDispInfo xStart yStart
  · -- Nothing is drawn, and a black display stays black.
    have hshown := h.shows hfits (fun _ => 0) 0 0 b.columns_pos b.rows_pos
    rw [bitmap_refused b haccepted] at hshown
    have hblack : (disp.shown 0).b = 0 := by
      rcases disp.format with h | h | h <;> rw [FwkDispInfo.shown, h] <;> decide
    exact blue_of_white b.format_ok disp.format ((congrArg Rgb.b hshown).symm.trans hblack)
  · obtain ⟨s, hs, hout⟩ := topDown_leaves disp hdisp hdown hfits haccepted _ _
    have hin := h.inside s hs
    omega

/-- One that comes from below is not one of RGB565 on a wider display: white would go wrong. -/
theorem widens_of_drawn (hbuffer : disp.buffer ≠ 0) (hup : 0 < b.info.height)
    (hfits : b.Fits disp.toFwkDispInfo xStart yStart) {rgbData : UInt32}
    (h : DrawsBitmap disp.toFwkDispInfo xStart yStart b (fun _ => 0xff)
      (fwkDisplayBitmap disp.toFwkDispInfo xStart yStart b.toBmpHeaders (fun _ => 0xff) rgbData))
    (hformat : b.format = fwkRgbPixel16) : disp.bpp = fwkRgbPixel16 := by
  by_contra hwide
  have hshown := h.shows hfits (fun _ => 0) 0 0 b.columns_pos b.rows_pos
  rw [(bottomUp_drawn disp hup hfits hbuffer _ _).2 _ 0 0 b.columns_pos b.rows_pos] at hshown
  have hword : ∀ n, runValue disp.toFwkDispInfo (fun _ => 0xff) fwkRgbPixel16 n =
      fwkDisplayConvertRgbbit fwkRgbPixel16 disp.bpp 0xffff := by
    intro n
    have hdata : fwkPixelRgbformConvert fwkRgbPixel16 (shiftBytes (fun _ => 0xff) fwkRgbPixel16
        (n * fwkRgbPixel16.toNat % 2 ^ 32) 0) = 0xffff := by
      apply UInt32.toNat_inj.mp
      rw [pixelWord_eq (Or.inl rfl)]
      show leWord (fun _ => 0xff) 2 = 0xffff
      decide
    rw [runValue, hdata]
  have hwhite : b.colourAt (fun _ => 0xff) 0 0 = wordColour fwkRgbPixel16 0xffff := by
    rw [BmpHeaders.colourAt, hformat]
    show wordColour _ (leWord (fun _ => 0xff) 2) = _
    decide
  rw [hformat, hword, hwhite] at hshown
  exact convert_white disp.format hwide hshown

/-- The run of the code meets the pixels at the start of each row. -/
theorem run_meets_rows (hbuffer : disp.buffer ≠ 0) (hup : 0 < b.info.height)
    (hwiden : b.format = fwkRgbPixel16 → disp.bpp = fwkRgbPixel16)
    (hfits : b.Fits disp.toFwkDispInfo xStart yStart) {rgbData : UInt32}
    (h : ∀ bitmap : Nat → UInt8, DrawsBitmap disp.toFwkDispInfo xStart yStart b bitmap
      (fwkDisplayBitmap disp.toFwkDispInfo xStart yStart b.toBmpHeaders bitmap rgbData))
    {py : Nat} (hpy : py < b.rows) :
    py * b.columns * b.format.toNat = b.file.offsetbit - 54 + b.stride * py := by
  by_contra hgap
  have hle := run_le b.toBmpHeaders py 0
  rw [Nat.mul_zero, Nat.add_zero, Nat.add_zero] at hle
  have hpixels := b.pixel_lt hpy b.columns_pos b.format_pos
  rw [Nat.mul_zero, Nat.add_zero] at hpixels
  have hj : b.rows - 1 - py < b.rows := by omega
  have hback : b.rows - 1 - (b.rows - 1 - py) = py := by omega
  -- All is dark in front of the row, and white from there on.
  let bitmap : Nat → UInt8 := fun k =>
    if k < b.file.offsetbit - 54 + b.stride * py then 0 else 0xff
  have hshown := (h bitmap).shows hfits (fun _ => 0) 0 (b.rows - 1 - py) b.columns_pos hj
  rw [(bottomUp_drawn disp hup hfits hbuffer _ _).2 _ 0 _ b.columns_pos hj, hback, Nat.add_zero,
    runValue_shown disp.format b.format_ok hwiden, BmpHeaders.colourAt, rowAt_bottomUp _ hup,
    hback] at hshown
  have hdark : bitmap (add32 (py * b.columns * b.format.toNat % 2 ^ 32) 0) = 0 := by
    rw [add32, Nat.add_zero, Nat.mod_mod, Nat.mod_eq_of_lt (by omega)]
    exact if_pos (by omega)
  have hwhite : leWord (fun k => bitmap (b.file.offsetbit - 54 + b.stride * py +
        b.format.toNat * 0 + k)) b.format.toNat =
      leWord (fun _ => 0xff) b.format.toNat :=
    leWord_congr fun k _ => if_neg (by omega)
  rw [hwhite] at hshown
  exact blue_of_white b.format_ok disp.format
    ((congrArg Rgb.b hshown).symm.trans (blue_of_dark b.format_ok hdark))

end Images

/-- **Which images come out right**: those that fit and have no gaps, from below and in a format that
can be converted; and those that do not fit, where the code refuses them. -/
theorem bitmap_drawn_iff (disp : Display) (hdisp : disp.InMemory) (b : Bmp) (xStart yStart : Nat) :
    (∀ (bitmap : Nat → UInt8) (rgbData : UInt32),
      DrawsBitmap disp.toFwkDispInfo xStart yStart b bitmap
        (fwkDisplayBitmap disp.toFwkDispInfo xStart yStart b.toBmpHeaders bitmap rgbData)) ↔
      (b.Fits disp.toFwkDispInfo xStart yStart ∧ b.Plain disp.toFwkDispInfo) ∨
        (¬ b.Fits disp.toFwkDispInfo xStart yStart ∧
          b.Refused disp.toFwkDispInfo xStart yStart) := by
  constructor
  · intro h
    by_cases hfits : b.Fits disp.toFwkDispInfo xStart yStart
    · refine Or.inl ⟨hfits, ?_⟩
      have hup := bottomUp_of_drawn disp hdisp hfits (h (fun _ => 0xff) 0)
      have hwiden := widens_of_drawn disp hdisp.buffer hup hfits (h (fun _ => 0xff) 0)
      have hmeets : ∀ py < b.rows, _ := fun py hpy =>
        run_meets_rows disp hdisp.buffer hup hwiden hfits (fun bitmap => h bitmap 0) hpy
      refine ⟨hup, ⟨?_, ?_⟩, hwiden⟩
      · have hfirst := hmeets 0 b.rows_pos
        have hoffset := b.offsetbit
        omega
      · rcases Nat.lt_or_ge 1 b.rows with hmore | hone
        · right
          have hfirst := hmeets 0 b.rows_pos
          have hsecond := hmeets 1 hmore
          apply (stride_eq_iff b.toBmpHeaders).mp
          rw [Nat.one_mul, Nat.mul_one, Nat.mul_comm] at hsecond
          omega
        · left
          have hrows := b.rows_pos
          omega
    · exact Or.inr ⟨hfits, refused_of_drawn disp hdisp.buffer hfits (h (fun _ => 0) 0)⟩
  · rintro (⟨hfits, hplain⟩ | ⟨hfits, hrefused⟩) bitmap rgbData
    · exact plain_drawn disp hdisp.buffer hplain hfits bitmap rgbData
    · rw [bitmap_refused b hrefused]
      exact ⟨fun s hs => absurd hs List.not_mem_nil, fun h => absurd h hfits, fun _ => rfl⟩

/-- A display of eight by eight pixels. -/
def smallScreen : Display where
  buffer := 0x80000000
  width := 8
  height := 8
  bpp := fwkRgbPixel32
  format := isPixelFormat_pixel32
  cells := by decide

/-- An image of two rows of four pixels, which fill three words each. -/
def evenImage : Bmp where
  file := { picType := bmpPicType, offsetbit := 54 }
  info := { width := 4, height := 2, pixelbit := 24 }
  picType := rfl
  pixelbit := by decide
  width := by decide
  height := by decide
  offsetbit := by decide
  inMemory := by decide

/-- An image of two rows of one pixel, with a byte of padding each. -/
def paddedImage : Bmp where
  file := { picType := bmpPicType, offsetbit := 54 }
  info := { width := 1, height := 2, pixelbit := 24 }
  picType := rfl
  pixelbit := by decide
  width := by decide
  height := by decide
  offsetbit := by decide
  inMemory := by decide

/-- The image without padding comes out right. -/
theorem bitmap_drawn_iff_even :
    DrawsBitmap smallScreen.toFwkDispInfo 1 2 evenImage (fun k => UInt8.ofNat (10 * k))
      (fwkDisplayBitmap smallScreen.toFwkDispInfo 1 2 evenImage.toBmpHeaders
        (fun k => UInt8.ofNat (10 * k)) 0) :=
  (bitmap_drawn_iff smallScreen ⟨by decide, by decide⟩ evenImage 1 2).mpr
    (Or.inl ⟨⟨by decide, by decide⟩, ⟨by decide, by decide, by decide⟩⟩)
    (fun k => UInt8.ofNat (10 * k)) 0

/-- The upper pixel of the padded one is white, and is shown without its blue: the padding is taken
for it. -/
theorem padding_is_taken_for_blue :
    ¬ DrawsBitmap smallScreen.toFwkDispInfo 1 2 paddedImage (fun k => if k = 3 then 0 else 0xff)
        (fwkDisplayBitmap smallScreen.toFwkDispInfo 1 2 paddedImage.toBmpHeaders
          (fun k => if k = 3 then 0 else 0xff) 0) := by
  intro h
  have hshown := h.shows ⟨by decide, by decide⟩ (fun _ => 0) 0 0 (by decide) (by decide)
  exact absurd hshown (by decide +kernel)

end HeavenFox.Platform
