/-
# HeavenFox.Platform.DispLine -- lines of `fwk_disp.c`

`fwk_display_write_straight_line` goes along the longer coordinate and lets an error term decide when
the shorter one moves along.  The term releases its steps as it should in every octant
(`lineState_eq`).  The steps themselves are kept in a `kint8_t`, which is a plain `char`, and `char`
is unsigned on the target: the step down is 255 and not -1.  So a line is right exactly if both
coordinates do not fall (`line_drawn_iff`).
-/
import HeavenFox.Logic.ErrorTerm
import HeavenFox.Platform.Disp
import Mathlib.Data.List.Range
import Mathlib.Logic.Function.Iterate

namespace HeavenFox.Platform

open HeavenFox.Logic

/-! ## The line -/

/-- A value kept in a `kint8_t`, as it is read again: `char` is unsigned. -/
def asKint8 (value : Int) : Nat := (value % 256).toNat

/-- The variables of the loop that change. -/
structure LineState where
  xStart : Nat
  yStart : Nat
  distanceErr : Int
  deriving DecidableEq, Repr

/-- The variables of the loop that stay. -/
structure LineSetup where
  isXMax : Bool
  xInc : Nat
  yInc : Nat
  distanceMax : Nat
  distanceMin : Nat
  deriving DecidableEq, Repr

/-- The start of `fwk_display_write_straight_line`. -/
def lineSetup (xStart yStart xEnd yEnd : Nat) : LineSetup :=
  let xDistance := mrtUsub xEnd xStart
  let yDistance := mrtUsub yEnd yStart
  let isXMax := decide (xDistance ≥ yDistance)
  { isXMax
    xInc := asKint8 (if xEnd ≥ xStart then 1 else -1)
    yInc := asKint8 (if yEnd ≥ yStart then 1 else -1)
    distanceMax := if isXMax then xDistance else yDistance
    distanceMin := if isXMax then yDistance else xDistance }

/-- A step along the longer coordinate. -/
def LineSetup.major (l : LineSetup) (s : LineState) : LineState :=
  if l.isXMax then { s with xStart := add32 s.xStart l.xInc }
  else { s with yStart := add32 s.yStart l.yInc }

/-- A step along the shorter one. -/
def LineSetup.minor (l : LineSetup) (s : LineState) : LineState :=
  if l.isXMax then { s with yStart := add32 s.yStart l.yInc }
  else { s with xStart := add32 s.xStart l.xInc }

/-- What one round of the loop does behind the point. -/
def LineSetup.step (l : LineSetup) (s : LineState) : LineState :=
  let s := l.major s
  let s := { s with distanceErr := s.distanceErr + 2 * l.distanceMin }
  if s.distanceErr ≥ 0 then
    l.minor { s with distanceErr := s.distanceErr - 2 * l.distanceMax }
  else s

/-- The points that the loop writes in `rounds` rounds. -/
def LineSetup.points (l : LineSetup) : Nat → LineState → List (Nat × Nat)
  | 0, _ => []
  | rounds + 1, s => (s.xStart, s.yStart) :: l.points rounds (l.step s)

/-- The points of a line. -/
def linePoints (xStart yStart xEnd yEnd : Nat) : List (Nat × Nat) :=
  let l := lineSetup xStart yStart xEnd yEnd
  l.points (l.distanceMax + 1) ⟨xStart, yStart, -(l.distanceMax : Int)⟩

/-- `fwk_display_write_straight_line` -/
def fwkDisplayWriteStraightLine (disp : FwkDispInfo) (xStart yStart xEnd yEnd : Nat)
    (data : UInt32) : List FbStore :=
  (linePoints xStart yStart xEnd yEnd).flatMap fun p => fwkDisplayWritePoint disp p.1 p.2 data

/-! ## What a line is -/

/-- Two points of a line that follow each other: the longer coordinate differs by one, the other by
one at most. -/
def Adjacent (xLonger : Prop) (p q : Nat × Nat) : Prop :=
  mrtUsub p.1 q.1 ≤ 1 ∧ mrtUsub p.2 q.2 ≤ 1 ∧
    (xLonger → mrtUsub p.1 q.1 = 1) ∧ (¬ xLonger → mrtUsub p.2 q.2 = 1)

/-- The call writes a pixel for each point of a line from the start to the end. -/
structure LineDrawn (disp : FwkDispInfo) (xStart yStart xEnd yEnd : Nat) (data : UInt32)
    (points : List (Nat × Nat)) (stores : List FbStore) : Prop where
  pixels : stores.map FbStore.cell =
    points.map fun p => (fwkDisplayAdvancePosition p.1 p.2 disp.width, disp.colour data)
  count : points.length = max (mrtUsub xEnd xStart) (mrtUsub yEnd yStart) + 1
  first : points.head? = some (xStart, yStart)
  last : points.getLast? = some (xEnd, yEnd)
  connected : points.IsChain (Adjacent (mrtUsub xEnd xStart ≥ mrtUsub yEnd yStart))
  inside : ∀ p ∈ points, min xStart xEnd ≤ p.1 ∧ p.1 ≤ max xStart xEnd ∧
    min yStart yEnd ≤ p.2 ∧ p.2 ≤ max yStart yEnd

/-! ## Where the points lie -/

/-- How often a coordinate has moved before point `k`, if it is the longer one or if not. -/
def LineSetup.moves (l : LineSetup) (longer : Bool) (k : Nat) : Nat :=
  if longer then k else released l.distanceMin l.distanceMax k

/-- How far a coordinate is to move. -/
def LineSetup.distance (l : LineSetup) (longer : Bool) : Nat :=
  if longer then l.distanceMax else l.distanceMin

/-- The variables at point `k`. -/
def LineSetup.at (l : LineSetup) (x y k : Nat) : LineState where
  xStart := (x + l.xInc * l.moves l.isXMax k) % 2 ^ 32
  yStart := (y + l.yInc * l.moves (!l.isXMax) k) % 2 ^ 32
  distanceErr := errorAt l.distanceMin l.distanceMax k

section Points

variable {l : LineSetup} {x y : Nat}

theorem moves_zero (l : LineSetup) (longer : Bool) : l.moves longer 0 = 0 := by
  rw [LineSetup.moves, released_zero]
  exact ite_self _

theorem moves_last (h : l.distanceMin ≤ l.distanceMax) (longer : Bool) :
    l.moves longer l.distanceMax = l.distance longer := by
  rw [LineSetup.moves, released_last _ _ h]
  rfl

theorem moves_le (h : l.distanceMin ≤ l.distanceMax) (longer : Bool) {k : Nat}
    (hk : k ≤ l.distanceMax) : l.moves longer k ≤ l.distance longer := by
  rw [← moves_last h]
  cases longer with
  | true => exact hk
  | false => exact released_mono _ _ hk

/-- From one point to the next, a coordinate moves once or not at all, and the longer one moves. -/
theorem moves_succ (h : l.distanceMin ≤ l.distanceMax) (longer : Bool) {k : Nat}
    (hk : k < l.distanceMax) :
    l.moves longer k ≤ l.moves longer (k + 1) ∧ l.moves longer (k + 1) ≤ l.moves longer k + 1 ∧
      (longer = true → l.moves longer (k + 1) = l.moves longer k + 1) := by
  cases longer with
  | true => exact ⟨Nat.le_succ k, le_rfl, fun _ => rfl⟩
  | false =>
    refine ⟨released_mono _ _ (Nat.le_succ k), ?_, fun h => absurd h Bool.false_ne_true⟩
    exact released_succ_le h (Nat.zero_lt_of_lt hk) k

/-- A coordinate that moves at all has moved once at some point. -/
theorem exists_moves_one (h : l.distanceMin ≤ l.distanceMax) (longer : Bool)
    (hpos : 0 < l.distance longer) : ∃ k ≤ l.distanceMax, l.moves longer k = 1 := by
  cases longer with
  | true => exact ⟨1, hpos, rfl⟩
  | false => exact exists_released_one hpos h

theorem points_eq (l : LineSetup) (rounds : Nat) (s : LineState) :
    l.points rounds s =
      (List.range rounds).map fun k => ((l.step^[k] s).xStart, (l.step^[k] s).yStart) := by
  induction rounds generalizing s with
  | zero => rfl
  | succ rounds ih =>
    rw [LineSetup.points, ih, List.range_succ_eq_map, List.map_cons, List.map_map]
    rfl

theorem add32_moved (x inc n : Nat) :
    add32 ((x + inc * n) % 2 ^ 32) inc = (x + inc * (n + 1)) % 2 ^ 32 := by
  rw [add32, Nat.mod_add_mod, Nat.mul_succ, Nat.add_assoc]

/-- The variables where the longer coordinate has moved `m` times and the shorter one `n` times. -/
def LineSetup.moved (l : LineSetup) (x y m n : Nat) (distanceErr : Int) : LineState where
  xStart := (x + l.xInc * (if l.isXMax then m else n)) % 2 ^ 32
  yStart := (y + l.yInc * (if l.isXMax then n else m)) % 2 ^ 32
  distanceErr := distanceErr

theorem at_eq_moved (l : LineSetup) (x y k : Nat) :
    l.at x y k = l.moved x y k (released l.distanceMin l.distanceMax k)
      (errorAt l.distanceMin l.distanceMax k) := by
  cases h : l.isXMax with
  | true => simp only [LineSetup.at, LineSetup.moved, LineSetup.moves, h, Bool.not_true, if_true,
      Bool.false_eq_true, if_false]
  | false => simp only [LineSetup.at, LineSetup.moved, LineSetup.moves, h, Bool.not_false, if_true,
      Bool.false_eq_true, if_false]

theorem major_moved (l : LineSetup) (x y m n : Nat) (e : Int) :
    l.major (l.moved x y m n e) = l.moved x y (m + 1) n e := by
  cases h : l.isXMax with
  | true => simp only [LineSetup.major, LineSetup.moved, h, if_true, add32_moved]
  | false => simp only [LineSetup.major, LineSetup.moved, h, Bool.false_eq_true, if_false,
      add32_moved]

theorem minor_moved (l : LineSetup) (x y m n : Nat) (e : Int) :
    l.minor (l.moved x y m n e) = l.moved x y m (n + 1) e := by
  cases h : l.isXMax with
  | true => simp only [LineSetup.minor, LineSetup.moved, h, if_true, add32_moved]
  | false => simp only [LineSetup.minor, LineSetup.moved, h, Bool.false_eq_true, if_false,
      add32_moved]

/-- One round moves on to the next point. -/
theorem step_at (h : l.distanceMin ≤ l.distanceMax) (hmax : 0 < l.distanceMax) (k : Nat) :
    l.step (l.at x y k) = l.at x y (k + 1) := by
  obtain ⟨hreleased, herr⟩ := error_step h hmax k
  rw [at_eq_moved, at_eq_moved, LineSetup.step, major_moved]
  show (if errorAt l.distanceMin l.distanceMax k + 2 * l.distanceMin ≥ 0 then
    l.minor (l.moved x y (k + 1) _ _) else l.moved x y (k + 1) _ _) = _
  by_cases hdue : 0 ≤ errorAt l.distanceMin l.distanceMax k + 2 * l.distanceMin
  · simp only [if_pos hdue] at hreleased herr
    rw [if_pos hdue, minor_moved, hreleased, herr]
    rfl
  · simp only [if_neg hdue, Nat.add_zero, Int.sub_zero] at hreleased herr
    rw [if_neg hdue, hreleased, herr]
    rfl

/-- **The state at each point**, for every direction of the line. -/
theorem lineState_eq (h : l.distanceMin ≤ l.distanceMax) (hx : x < 2 ^ 32) (hy : y < 2 ^ 32)
    {k : Nat} (hk : k ≤ l.distanceMax) :
    l.step^[k] ⟨x, y, -(l.distanceMax : Int)⟩ = l.at x y k := by
  have hstart : LineState.mk x y (-(l.distanceMax : Int)) = l.at x y 0 := by
    rw [LineSetup.at, moves_zero, moves_zero, errorAt_zero, Nat.mul_zero, Nat.mul_zero,
      Nat.add_zero, Nat.add_zero, Nat.mod_eq_of_lt hx, Nat.mod_eq_of_lt hy]
  induction k with
  | zero => exact hstart
  | succ k ih =>
    rw [Function.iterate_succ_apply', ih (Nat.le_of_succ_le hk)]
    exact step_at h (Nat.zero_lt_of_lt hk) k

/-- A coordinate whose step is 255 jumps by that. -/
theorem exists_jump (h : l.distanceMin ≤ l.distanceMax) (longer : Bool)
    (hpos : 0 < l.distance longer) {start : Nat} (hstart : start < 2 ^ 30) :
    ∃ k ≤ l.distanceMax, (start + 255 * l.moves longer k) % 2 ^ 32 = start + 255 := by
  obtain ⟨k, hk, hone⟩ := exists_moves_one h longer hpos
  refine ⟨k, hk, ?_⟩
  rw [hone, Nat.mod_eq_of_lt (by omega)]

end Points

/-! ## Which lines are right -/

section Lines

variable {xStart yStart xEnd yEnd : Nat}

theorem mrtUsub_eq (a b : Nat) : mrtUsub a b = max a b - min a b := by
  unfold mrtUsub
  split <;> omega

theorem asKint8_rising {first last : Nat} (h : first ≤ last) :
    asKint8 (if last ≥ first then 1 else -1) = 1 := by
  rw [if_pos h]
  rfl

theorem asKint8_falling {first last : Nat} (h : last < first) :
    asKint8 (if last ≥ first then 1 else -1) = 255 := by
  rw [if_neg (Nat.not_le_of_lt h)]
  rfl

theorem lineSetup_min_le (xStart yStart xEnd yEnd : Nat) :
    (lineSetup xStart yStart xEnd yEnd).distanceMin ≤
      (lineSetup xStart yStart xEnd yEnd).distanceMax := by
  simp only [lineSetup, decide_eq_true_eq]
  split <;> omega

theorem lineSetup_max (xStart yStart xEnd yEnd : Nat) :
    (lineSetup xStart yStart xEnd yEnd).distanceMax =
      max (mrtUsub xEnd xStart) (mrtUsub yEnd yStart) := by
  simp only [lineSetup, decide_eq_true_eq]
  split <;> omega

theorem lineSetup_distance (xStart yStart xEnd yEnd : Nat) :
    (lineSetup xStart yStart xEnd yEnd).distance (lineSetup xStart yStart xEnd yEnd).isXMax =
        mrtUsub xEnd xStart ∧
      (lineSetup xStart yStart xEnd yEnd).distance (!(lineSetup xStart yStart xEnd yEnd).isXMax) =
        mrtUsub yEnd yStart := by
  by_cases h : mrtUsub xEnd xStart ≥ mrtUsub yEnd yStart
  · simp only [lineSetup, LineSetup.distance, decide_eq_true h, Bool.not_true, if_true,
      Bool.false_eq_true, if_false, and_self]
  · simp only [lineSetup, LineSetup.distance, decide_eq_false h, Bool.not_false, if_true,
      Bool.false_eq_true, if_false, and_self]

/-- The points of a line, for every direction. -/
theorem linePoints_eq (hx : xStart < 2 ^ 32) (hy : yStart < 2 ^ 32) :
    linePoints xStart yStart xEnd yEnd =
      (List.range ((lineSetup xStart yStart xEnd yEnd).distanceMax + 1)).map fun k =>
        (((lineSetup xStart yStart xEnd yEnd).at xStart yStart k).xStart,
          ((lineSetup xStart yStart xEnd yEnd).at xStart yStart k).yStart) := by
  rw [linePoints, points_eq]
  apply List.map_congr_left
  intro k hk
  rw [lineState_eq (lineSetup_min_le _ _ _ _) hx hy (Nat.le_of_lt_succ (List.mem_range.mp hk))]

/-- A line on which no coordinate falls. -/
theorem linePoints_rising (hx : xStart ≤ xEnd) (hy : yStart ≤ yEnd) (hxEnd : xEnd < 2 ^ 32)
    (hyEnd : yEnd < 2 ^ 32) :
    linePoints xStart yStart xEnd yEnd =
      (List.range ((lineSetup xStart yStart xEnd yEnd).distanceMax + 1)).map fun k =>
        (xStart + (lineSetup xStart yStart xEnd yEnd).moves
            (lineSetup xStart yStart xEnd yEnd).isXMax k,
          yStart + (lineSetup xStart yStart xEnd yEnd).moves
            (!(lineSetup xStart yStart xEnd yEnd).isXMax) k) := by
  let l := lineSetup xStart yStart xEnd yEnd
  have hmin : l.distanceMin ≤ l.distanceMax := lineSetup_min_le _ _ _ _
  obtain ⟨hdx, hdy⟩ := lineSetup_distance xStart yStart xEnd yEnd
  have hxInc : l.xInc = 1 := asKint8_rising hx
  have hyInc : l.yInc = 1 := asKint8_rising hy
  rw [linePoints_eq (by omega) (by omega)]
  apply List.map_congr_left
  intro k hk
  have hkmax : k ≤ l.distanceMax := Nat.le_of_lt_succ (List.mem_range.mp hk)
  have hmx := moves_le hmin l.isXMax hkmax
  have hmy := moves_le hmin (!l.isXMax) hkmax
  rw [hdx, mrtUsub_eq] at hmx
  rw [hdy, mrtUsub_eq] at hmy
  show ((xStart + l.xInc * l.moves l.isXMax k) % 2 ^ 32,
    (yStart + l.yInc * l.moves (!l.isXMax) k) % 2 ^ 32) = _
  rw [hxInc, hyInc, Nat.one_mul, Nat.one_mul, Nat.mod_eq_of_lt (by omega),
    Nat.mod_eq_of_lt (by omega)]

/-- A coordinate that is to fall jumps up by 255. -/
theorem linePoints_falling (xEnd yEnd : Nat) (hxs : xStart < 2 ^ 30) (hys : yStart < 2 ^ 30) :
    (xEnd < xStart → ∃ p ∈ linePoints xStart yStart xEnd yEnd, p.1 = xStart + 255) ∧
      (yEnd < yStart → ∃ p ∈ linePoints xStart yStart xEnd yEnd, p.2 = yStart + 255) := by
  let l := lineSetup xStart yStart xEnd yEnd
  have hmin : l.distanceMin ≤ l.distanceMax := lineSetup_min_le _ _ _ _
  obtain ⟨hdx, hdy⟩ := lineSetup_distance xStart yStart xEnd yEnd
  rw [linePoints_eq (by omega) (by omega)]
  constructor
  · intro hfalls
    have hinc : l.xInc = 255 := asKint8_falling hfalls
    rw [mrtUsub_eq] at hdx
    obtain ⟨k, hk, hjump⟩ := exists_jump hmin l.isXMax
      (hdx.symm ▸ (by omega : 0 < max xEnd xStart - min xEnd xStart)) hxs
    refine ⟨_, List.mem_map_of_mem (List.mem_range.mpr (Nat.lt_succ_of_le hk)), ?_⟩
    show (xStart + l.xInc * l.moves l.isXMax k) % 2 ^ 32 = _
    rw [hinc, hjump]
  · intro hfalls
    have hinc : l.yInc = 255 := asKint8_falling hfalls
    rw [mrtUsub_eq] at hdy
    obtain ⟨k, hk, hjump⟩ := exists_jump hmin (!l.isXMax)
      (hdy.symm ▸ (by omega : 0 < max yEnd yStart - min yEnd yStart)) hys
    refine ⟨_, List.mem_map_of_mem (List.mem_range.mpr (Nat.lt_succ_of_le hk)), ?_⟩
    show (yStart + l.yInc * l.moves (!l.isXMax) k) % 2 ^ 32 = _
    rw [hinc, hjump]

theorem straightLine_pixels {disp : FwkDispInfo} (h : IsPixelFormat disp.bpp) (data : UInt32) :
    (fwkDisplayWriteStraightLine disp xStart yStart xEnd yEnd data).map FbStore.cell =
      (linePoints xStart yStart xEnd yEnd).map fun p =>
        (fwkDisplayAdvancePosition p.1 p.2 disp.width, disp.colour data) := by
  rw [fwkDisplayWriteStraightLine, List.map_flatMap, ← List.flatMap_pure_eq_map]
  apply List.flatMap_congr
  intro p _
  exact writeColour_cell h _ data

section Rising

variable (hx : xStart ≤ xEnd) (hy : yStart ≤ yEnd) (hxEnd : xEnd < 2 ^ 32) (hyEnd : yEnd < 2 ^ 32)
include hx hy hxEnd hyEnd

/-- The ends of a line on which no coordinate falls. -/
theorem rising_ends :
    (linePoints xStart yStart xEnd yEnd).head? = some (xStart, yStart) ∧
      (linePoints xStart yStart xEnd yEnd).getLast? = some (xEnd, yEnd) := by
  have hmin := lineSetup_min_le xStart yStart xEnd yEnd
  obtain ⟨hdx, hdy⟩ := lineSetup_distance xStart yStart xEnd yEnd
  rw [linePoints_rising hx hy hxEnd hyEnd]
  constructor
  · rw [List.range_succ_eq_map, List.map_cons, List.head?_cons, moves_zero, moves_zero]
    rfl
  · rw [List.range_succ, List.map_append, List.map_singleton, List.getLast?_concat,
      moves_last hmin, moves_last hmin, hdx, hdy, mrtUsub_eq, mrtUsub_eq]
    congr 2 <;> omega

/-- Its points follow each other. -/
theorem rising_connected :
    (linePoints xStart yStart xEnd yEnd).IsChain
      (Adjacent (mrtUsub xEnd xStart ≥ mrtUsub yEnd yStart)) := by
  let l := lineSetup xStart yStart xEnd yEnd
  have hmin : l.distanceMin ≤ l.distanceMax := lineSetup_min_le _ _ _ _
  rw [linePoints_rising hx hy hxEnd hyEnd, List.isChain_map, List.isChain_range_succ]
  intro k hk
  obtain ⟨hxle, hxone, hxlonger⟩ := moves_succ hmin l.isXMax hk
  obtain ⟨hyle, hyone, hylonger⟩ := moves_succ hmin (!l.isXMax) hk
  show Adjacent _ (xStart + l.moves l.isXMax k, yStart + l.moves (!l.isXMax) k)
    (xStart + l.moves l.isXMax (k + 1), yStart + l.moves (!l.isXMax) (k + 1))
  simp only [Adjacent, mrtUsub_eq]
  refine ⟨by omega, by omega, fun hlonger => ?_, fun hshorter => ?_⟩
  · have hcase := hxlonger (decide_eq_true (by rw [mrtUsub_eq, mrtUsub_eq]; exact hlonger))
    omega
  · have hcase := hylonger (by
      rw [Bool.not_eq_true']
      exact decide_eq_false (by rw [mrtUsub_eq, mrtUsub_eq]; exact hshorter))
    omega

/-- They lie between its ends. -/
theorem rising_inside :
    ∀ p ∈ linePoints xStart yStart xEnd yEnd, min xStart xEnd ≤ p.1 ∧ p.1 ≤ max xStart xEnd ∧
      min yStart yEnd ≤ p.2 ∧ p.2 ≤ max yStart yEnd := by
  let l := lineSetup xStart yStart xEnd yEnd
  have hmin : l.distanceMin ≤ l.distanceMax := lineSetup_min_le _ _ _ _
  obtain ⟨hdx, hdy⟩ := lineSetup_distance xStart yStart xEnd yEnd
  intro p hp
  rw [linePoints_rising hx hy hxEnd hyEnd] at hp
  obtain ⟨k, hk, rfl⟩ := List.mem_map.mp hp
  have hkmax : k ≤ l.distanceMax := Nat.le_of_lt_succ (List.mem_range.mp hk)
  have hmx := moves_le hmin l.isXMax hkmax
  have hmy := moves_le hmin (!l.isXMax) hkmax
  rw [hdx, mrtUsub_eq] at hmx
  rw [hdy, mrtUsub_eq] at hmy
  show _ ≤ xStart + l.moves l.isXMax k ∧ xStart + l.moves l.isXMax k ≤ _ ∧
    _ ≤ yStart + l.moves (!l.isXMax) k ∧ yStart + l.moves (!l.isXMax) k ≤ _
  omega

end Rising

end Lines

/-- **A line is drawn right** if none of its coordinates falls. -/
theorem line_drawn_iff (disp : FwkDispInfo) (xStart yStart xEnd yEnd : Nat) (data : UInt32)
    (hformat : IsPixelFormat disp.bpp) (hwidth : disp.width < 2 ^ 30)
    (hheight : disp.height < 2 ^ 30) (hstart : xStart < disp.width ∧ yStart < disp.height)
    (hend : xEnd < disp.width ∧ yEnd < disp.height) :
    LineDrawn disp xStart yStart xEnd yEnd data (linePoints xStart yStart xEnd yEnd)
        (fwkDisplayWriteStraightLine disp xStart yStart xEnd yEnd data) ↔
      xStart ≤ xEnd ∧ yStart ≤ yEnd := by
  constructor
  · intro h
    obtain ⟨hxfall, hyfall⟩ := linePoints_falling xEnd yEnd (by omega : xStart < 2 ^ 30)
      (by omega : yStart < 2 ^ 30)
    constructor
    · by_contra hx
      obtain ⟨p, hp, heq⟩ := hxfall (by omega)
      have hin := h.inside p hp
      omega
    · by_contra hy
      obtain ⟨p, hp, heq⟩ := hyfall (by omega)
      have hin := h.inside p hp
      omega
  · rintro ⟨hx, hy⟩
    have hxEnd : xEnd < 2 ^ 32 := by omega
    have hyEnd : yEnd < 2 ^ 32 := by omega
    obtain ⟨hfirst, hlast⟩ := rising_ends hx hy hxEnd hyEnd
    refine ⟨straightLine_pixels hformat data, ?_, hfirst, hlast,
      rising_connected hx hy hxEnd hyEnd, rising_inside hx hy hxEnd hyEnd⟩
    rw [linePoints_rising hx hy hxEnd hyEnd, List.length_map, List.length_range, lineSetup_max]

/-- A display of eight by eight pixels, as `fwk_display_initial_info` sets it up for its caller. -/
def smallDisplay : FwkDispInfo :=
  { buffer := 0x80000000, width := 8, height := 8, bpp := fwkRgbPixel32 }

/-- A line to the right and down. -/
theorem line_drawn_iff_rising :
    LineDrawn smallDisplay 1 2 6 4 0xff (linePoints 1 2 6 4)
      (fwkDisplayWriteStraightLine smallDisplay 1 2 6 4 0xff) :=
  (line_drawn_iff smallDisplay 1 2 6 4 0xff (by decide) (by decide) (by decide) (by decide)
    (by decide)).mpr (by decide)

/-- The same line from its other end: the points leave the display. -/
theorem falling_line_leaves_display :
    ¬ LineDrawn smallDisplay 6 4 1 2 0xff (linePoints 6 4 1 2)
        (fwkDisplayWriteStraightLine smallDisplay 6 4 1 2 0xff) ∧
      linePoints 6 4 1 2 = [(6, 4), (261, 4), (516, 259), (771, 259), (1026, 514), (1281, 514)] := by
  have hpoints : linePoints 6 4 1 2 =
      [(6, 4), (261, 4), (516, 259), (771, 259), (1026, 514), (1281, 514)] := by decide
  refine ⟨fun h => ?_, hpoints⟩
  have hin := h.inside (261, 4) (by rw [hpoints]; decide)
  exact absurd hin.2.1 (by decide)

end HeavenFox.Platform
