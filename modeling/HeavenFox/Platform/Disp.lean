/-
# HeavenFox.Platform.Disp -- pixels and rectangles of `fwk_disp.c`

A frame buffer holds the pixels of a display row by row, in slots of two or four bytes.  A call is
given as the list of its stores, in their order; what it leaves in the frame follows from them.
`fwk_display_fill_rectangle` refuses corners beyond the edges, puts the others into order and goes
through half-open ranges, so it sets the pixels between its corners and nothing else
(`fill_rectangle_exact`).
-/
import HeavenFox.Logic.Memory32
import HeavenFox.Logic.Raster
import HeavenFox.Platform.Basic

namespace HeavenFox.Platform

open HeavenFox.Logic

/-! ## Displays and stores -/

/-- `FWK_RGB_PIXEL16`: RGB565. -/
def fwkRgbPixel16 : UInt8 := 2

/-- `FWK_RGB_PIXEL24`: RGB888. -/
def fwkRgbPixel24 : UInt8 := 3

/-- `FWK_RGB_PIXEL32`: RGB888 and transparency. -/
def fwkRgbPixel32 : UInt8 := 4

/-- `FWK_RGB_PIXELBIT`: `CONFIG_LCD_PIXELBIT` is 24. -/
def fwkRgbPixelbit : UInt8 := (24 : UInt8) >>> (3 : UInt8)

/-- `struct fwk_disp_info`: what drawing uses of it. -/
structure FwkDispInfo where
  buffer : Nat
  width : Nat
  height : Nat
  bpp : UInt8
  deriving DecidableEq, Repr

/-- A pixel format that the display code can store. -/
def IsPixelFormat (bpp : UInt8) : Prop :=
  bpp = fwkRgbPixel16 ∨ bpp = fwkRgbPixel24 ∨ bpp = fwkRgbPixel32

instance (bpp : UInt8) : Decidable (IsPixelFormat bpp) := by
  unfold IsPixelFormat
  infer_instance

theorem isPixelFormat_pixel32 : IsPixelFormat fwkRgbPixel32 := Or.inr (Or.inr rfl)

/-- A display with one of these formats, whose pixels can be counted in 32 bits. -/
structure Display extends FwkDispInfo where
  format : IsPixelFormat bpp
  cells : width * height < 2 ^ 32

/-- A store to the frame buffer, in slots of its own size. -/
inductive FbStore where
  | fb16 (offset : Nat) (data : UInt16)
  | fb32 (offset : Nat) (data : UInt32)
  deriving DecidableEq, Repr

/-- The slot of a store, and what it holds afterwards. -/
def FbStore.cell : FbStore → Nat × UInt32
  | .fb16 offset data => (offset, data.toUInt32)
  | .fb32 offset data => (offset, data)

/-- `mrt_fwk_disp_write_fbuffer`: the formats of 24 and 32 bits both take four bytes. -/
def mrtFwkDispWriteFbuffer (offset : Nat) (bpp : UInt8) (data : UInt32) : List FbStore :=
  if bpp = fwkRgbPixel32 then [.fb32 offset data]
  else if bpp = fwkRgbPixel24 then [.fb32 offset data]
  else if bpp = fwkRgbPixel16 then [.fb16 offset data.toUInt16]
  else []

/-- `mrt_fwk_disp_bpp_get` -/
def mrtFwkDispBppGet (bpp : UInt8) : UInt8 := if bpp = fwkRgbPixel32 then fwkRgbPixel24 else bpp

/-- `fwk_display_advance_position` -/
def fwkDisplayAdvancePosition (xpos ypos xMax : Nat) : Nat := (ypos * xMax + xpos) % 2 ^ 32

/-- `fwk_display_convert_rgbbit` -/
def fwkDisplayConvertRgbbit (srctype destype : UInt8) (data : UInt32) : UInt32 :=
  if srctype = destype then data
  else if destype = fwkRgbPixel16 then
    let bData := (data &&& 0xff) >>> (3 : UInt32)
    let gData := ((data >>> (8 : UInt32)) &&& 0xff) >>> (2 : UInt32)
    let rData := ((data >>> (16 : UInt32)) &&& 0xff) >>> (3 : UInt32)
    ((rData <<< (11 : UInt32)) ||| (gData <<< (5 : UInt32)) ||| bData) &&& 0x0000ffff
  else if destype = fwkRgbPixel24 then
    if srctype = fwkRgbPixel32 then data
    else
      let bData := (data &&& 0xff) <<< (3 : UInt32)
      let gData := ((data >>> (5 : UInt32)) &&& 0xff) <<< (2 : UInt32)
      let rData := ((data >>> (11 : UInt32)) &&& 0xff) <<< (3 : UInt32)
      (rData <<< (16 : UInt32)) ||| (gData <<< (8 : UInt32)) ||| bData
  else data

/-- `fwk_display_write_pixel` -/
def fwkDisplayWritePixel (buffer offset : Nat) (bpp : UInt8) (data : UInt32) : List FbStore :=
  if buffer = 0 then [] else mrtFwkDispWriteFbuffer offset bpp data

/-- `fwk_display_write_point` -/
def fwkDisplayWritePoint (disp : FwkDispInfo) (xpos ypos : Nat) (data : UInt32) : List FbStore :=
  let offset := fwkDisplayAdvancePosition xpos ypos disp.width
  let pixelbits := mrtFwkDispBppGet disp.bpp
  let rgbData := fwkDisplayConvertRgbbit fwkRgbPixelbit pixelbits data
  mrtFwkDispWriteFbuffer offset pixelbits rgbData

/-- The loops of `fwk_display_fill_rectangle`, between corners in order. -/
def fillLoops (disp : FwkDispInfo) (xStart yStart xEnd yEnd : Nat) (data : UInt32) : List FbStore :=
  let width := mrtUsub xEnd xStart
  let height := mrtUsub yEnd yStart
  let pixelbits := mrtFwkDispBppGet disp.bpp
  let rgbData := fwkDisplayConvertRgbbit fwkRgbPixelbit pixelbits data
  (List.range height).flatMap fun yCnt =>
    let offset := fwkDisplayAdvancePosition xStart (add32 yStart yCnt) disp.width
    (List.range width).flatMap fun xCnt =>
      mrtFwkDispWriteFbuffer (add32 xCnt offset) pixelbits rgbData

/-- `fwk_display_fill_rectangle` -/
def fwkDisplayFillRectangle (disp : FwkDispInfo) (xStart yStart xEnd yEnd : Nat) (data : UInt32) :
    List FbStore :=
  if xStart > disp.width ∨ yStart > disp.height ∨ xEnd > disp.width ∨ yEnd > disp.height then []
  else
    let (xStart, xEnd) := if xEnd < xStart then (xEnd, xStart) else (xStart, xEnd)
    let (yStart, yEnd) := if yEnd < yStart then (yEnd, yStart) else (yStart, yEnd)
    fillLoops disp xStart yStart xEnd yEnd data

/-! ## What stores leave behind -/

/-- The frame after the stores. -/
def drawn (frame : Nat → UInt32) (stores : List FbStore) : Nat → UInt32 :=
  paint frame (stores.map FbStore.cell)

/-- What a slot of the format keeps of a value. -/
def pixelValue (bpp : UInt8) (data : UInt32) : UInt32 :=
  if bpp = fwkRgbPixel16 then data.toUInt16.toUInt32 else data

/-- The colour that a display shows for a colour of the colour chart. -/
def FwkDispInfo.colour (disp : FwkDispInfo) (data : UInt32) : UInt32 :=
  pixelValue disp.bpp (fwkDisplayConvertRgbbit fwkRgbPixelbit (mrtFwkDispBppGet disp.bpp) data)

theorem writeFbuffer_cell {bpp : UInt8} (h : IsPixelFormat bpp) (offset : Nat) (data : UInt32) :
    (mrtFwkDispWriteFbuffer offset bpp data).map FbStore.cell = [(offset, pixelValue bpp data)] := by
  rcases h with rfl | rfl | rfl <;> rfl

/-- The format that values are converted to. -/
theorem bppGet_format {bpp : UInt8} (h : IsPixelFormat bpp) :
    IsPixelFormat (mrtFwkDispBppGet bpp) ∧ pixelValue (mrtFwkDispBppGet bpp) = pixelValue bpp := by
  rcases h with rfl | rfl | rfl
  · exact ⟨Or.inl rfl, rfl⟩
  · exact ⟨Or.inr (Or.inl rfl), rfl⟩
  · exact ⟨Or.inr (Or.inl rfl), rfl⟩

/-- A colour of the chart is stored as the colour of the display. -/
theorem writeColour_cell {disp : FwkDispInfo} (h : IsPixelFormat disp.bpp) (offset : Nat)
    (data : UInt32) :
    (mrtFwkDispWriteFbuffer offset (mrtFwkDispBppGet disp.bpp)
      (fwkDisplayConvertRgbbit fwkRgbPixelbit (mrtFwkDispBppGet disp.bpp) data)).map FbStore.cell =
      [(offset, disp.colour data)] := by
  obtain ⟨hformat, hvalue⟩ := bppGet_format h
  rw [writeFbuffer_cell hformat, hvalue]
  rfl

/-- Inside the display, the offset of a point is its cell. -/
theorem advancePosition_eq (disp : Display) {x y : Nat} (hx : x < disp.width)
    (hy : y < disp.height) :
    fwkDisplayAdvancePosition x y disp.width = rowMajor disp.width x y :=
  Nat.mod_eq_of_lt (Nat.lt_trans (rowMajor_lt hx hy) disp.cells)

/-! ## Rectangles -/

/-- The call does nothing where a coordinate lies beyond the width or height; else it sets the pixels
between the corners, and no other slot of the buffer or outside of it. -/
structure FillsExactly (disp : Display) (xStart yStart xEnd yEnd : Nat) (data : UInt32)
    (stores : List FbStore) : Prop where
  refused : (xStart > disp.width ∨ yStart > disp.height ∨ xEnd > disp.width ∨
    yEnd > disp.height) → stores = []
  inside : ∀ s ∈ stores, s.cell.1 < disp.width * disp.height
  sets : ¬ (xStart > disp.width ∨ yStart > disp.height ∨ xEnd > disp.width ∨
      yEnd > disp.height) →
    ∀ (frame : Nat → UInt32) (x y : Nat), x < disp.width → y < disp.height →
      drawn frame stores (rowMajor disp.width x y) =
        if min xStart xEnd ≤ x ∧ x < max xStart xEnd ∧ min yStart yEnd ≤ y ∧ y < max yStart yEnd
        then disp.colour data else frame (rowMajor disp.width x y)

section Rectangles

variable (disp : Display) (xStart yStart xEnd yEnd : Nat)

/-- The slots of the loops. -/
theorem fillLoops_cells (hx : xStart ≤ xEnd) (hy : yStart ≤ yEnd) (hwidth : xEnd ≤ disp.width)
    (hheight : yEnd ≤ disp.height) (data : UInt32) :
    (fillLoops disp.toFwkDispInfo xStart yStart xEnd yEnd data).map FbStore.cell =
      block disp.width xStart yStart (xEnd - xStart) (yEnd - yStart) id
        fun _ _ => disp.colour data := by
  have hcols : mrtUsub xEnd xStart = xEnd - xStart := by
    unfold mrtUsub
    split <;> omega
  have hrows : mrtUsub yEnd yStart = yEnd - yStart := by
    unfold mrtUsub
    split <;> omega
  rw [fillLoops, hcols, hrows, List.map_flatMap]
  apply List.flatMap_congr
  intro yCnt hyCnt
  rw [List.map_flatMap, ← List.flatMap_pure_eq_map]
  apply List.flatMap_congr
  intro xCnt hxCnt
  have hxCnt' := List.mem_range.mp hxCnt
  have hyCnt' := List.mem_range.mp hyCnt
  have hcell : rowMajor disp.width (xStart + xCnt) (yStart + yCnt) < 2 ^ 32 :=
    Nat.lt_trans (rowMajor_lt (by omega) (by omega)) disp.cells
  have hrow : add32 yStart yCnt = yStart + yCnt := by
    have hle : yStart + yCnt ≤ (yStart + yCnt) * disp.width :=
      Nat.le_mul_of_pos_right _ (by omega)
    rw [rowMajor] at hcell
    exact add32_of_lt (by omega)
  have hoffset : add32 xCnt (fwkDisplayAdvancePosition xStart (add32 yStart yCnt) disp.width) =
      rowMajor disp.width (xStart + xCnt) (yStart + yCnt) := by
    rw [← rowMajor_add] at hcell ⊢
    rw [hrow, advancePosition_eq disp (by omega) (by omega), add32, Nat.add_comm]
    exact Nat.mod_eq_of_lt hcell
  rw [hoffset]
  exact writeColour_cell disp.format _ data

/-- The cells between two corners. -/
theorem fillLoops_exact (hx : xStart ≤ xEnd) (hy : yStart ≤ yEnd) (hwidth : xEnd ≤ disp.width)
    (hheight : yEnd ≤ disp.height) (data : UInt32) :
    (∀ s ∈ fillLoops disp.toFwkDispInfo xStart yStart xEnd yEnd data,
      s.cell.1 < disp.width * disp.height) ∧
    ∀ (frame : Nat → UInt32) (x y : Nat), x < disp.width → y < disp.height →
      drawn frame (fillLoops disp.toFwkDispInfo xStart yStart xEnd yEnd data)
          (rowMajor disp.width x y) =
        if xStart ≤ x ∧ x < xEnd ∧ yStart ≤ y ∧ y < yEnd then disp.colour data
        else frame (rowMajor disp.width x y) := by
  have hcells := fillLoops_cells disp _ _ _ _ hx hy hwidth hheight data
  constructor
  · intro s hs
    have hmem := List.mem_map_of_mem (f := FbStore.cell) hs
    rw [hcells] at hmem
    exact block_inside (by omega) (by omega) (fun _ hr => hr) _ hmem
  · intro frame x y hxw _
    rw [drawn, hcells]
    by_cases hin : xStart ≤ x ∧ x < xEnd ∧ yStart ≤ y ∧ y < yEnd
    · rw [if_pos hin]
      have hpaint : paint frame (block disp.width xStart yStart (xEnd - xStart) (yEnd - yStart) id
            fun _ _ => disp.colour data)
          (rowMajor disp.width (xStart + (x - xStart)) (yStart + (y - yStart))) =
            disp.colour data :=
        paint_block (by omega) (fun _ _ _ _ heq => heq) frame (by omega) (by omega)
      rwa [Nat.add_sub_cancel' hin.1, Nat.add_sub_cancel' hin.2.2.1] at hpaint
    · rw [if_neg hin]
      exact paint_block_outside (by omega) (fun _ hr => hr) frame hxw (by omega)

end Rectangles

/-- **Filling a rectangle is exact**, whichever two corners are given. -/
theorem fill_rectangle_exact (disp : Display) (xStart yStart xEnd yEnd : Nat) (data : UInt32) :
    FillsExactly disp xStart yStart xEnd yEnd data
      (fwkDisplayFillRectangle disp.toFwkDispInfo xStart yStart xEnd yEnd data) := by
  by_cases hout : xStart > disp.width ∨ yStart > disp.height ∨ xEnd > disp.width ∨
      yEnd > disp.height
  · rw [fwkDisplayFillRectangle, if_pos hout]
    exact ⟨fun _ => rfl, fun s hs => absurd hs List.not_mem_nil, fun h => absurd hout h⟩
  · have hcall : fwkDisplayFillRectangle disp.toFwkDispInfo xStart yStart xEnd yEnd data =
        fillLoops disp.toFwkDispInfo (min xStart xEnd) (min yStart yEnd) (max xStart xEnd)
          (max yStart yEnd) data := by
      have hswap : ∀ a b : Nat, (if b < a then (b, a) else (a, b)) = (min a b, max a b) := by
        intro a b
        split
        · rw [Nat.min_eq_right (by omega), Nat.max_eq_left (by omega)]
        · rw [Nat.min_eq_left (by omega), Nat.max_eq_right (by omega)]
      rw [fwkDisplayFillRectangle, if_neg hout, hswap, hswap]
    obtain ⟨hinside, hsets⟩ := fillLoops_exact disp (min xStart xEnd) (min yStart yEnd)
      (max xStart xEnd) (max yStart yEnd) (by omega) (by omega) (by omega) (by omega) data
    rw [hcall]
    exact ⟨fun h => absurd h hout, hinside, fun _ => hsets⟩

end HeavenFox.Platform
