/-
# HeavenFox.Platform.IrqAreas -- finding a free range of interrupt numbers

`fwk_irq_bitmap_find_areas` goes from one number in use to the next and never passes the first
free range.  Its tests for errors are tests of unsigned numbers: a range that ends at the last
number is refused by the helper, and the search starts over at 0 instead of giving up.
`find_areas_iff` says for which bitmaps and ranges the search is right; the places from which it
looks are told by the bits before them.
-/
import HeavenFox.Platform.IrqDomain

namespace HeavenFox.Platform

open HeavenFox.Common HeavenFox.Logic

namespace IrqMaps

/-- A range is free. -/
def FreeRun (bitmap : Bitmap) (virq nrIrqs : Nat) : Prop :=
  ∀ j, virq ≤ j → j < virq + nrIrqs → bitmap.bit j = false

instance (bitmap : Bitmap) (virq nrIrqs : Nat) : Decidable (FreeRun bitmap virq nrIrqs) :=
  decidable_of_iff (∀ j < nrIrqs, bitmap.bit (virq + j) = false) <| by
    constructor
    · intro h j hj hlt
      have hbit := h (j - virq) (by omega)
      rwa [Nat.add_sub_cancel' hj] at hbit
    · intro h j hj
      exact h (virq + j) (by omega) (by omega)

variable {bitmap : Bitmap} {totalBits nr : Nat}

/-! ## One round -/

/-- The first free number from a place on. -/
structure FirstFree (bitmap : Bitmap) (totalBits index first : Nat) : Prop where
  low : index ≤ first
  high : first < totalBits
  free : bitmap.bit first = false
  used : ∀ j, index ≤ j → j < first → bitmap.bit j = true

theorem FirstFree.le {index first v : Nat} (h : FirstFree bitmap totalBits index first)
    (hv : index ≤ v) (hfree : bitmap.bit v = false) : first ≤ v := by
  by_contra hlt
  have hused := h.used v hv (by omega)
  rw [hfree] at hused
  cases hused

theorem FirstFree.unique {index first first' : Nat} (h : FirstFree bitmap totalBits index first)
    (h' : FirstFree bitmap totalBits index first') : first' = first :=
  Nat.le_antisymm (h'.le h.low h.free) (h.le h'.low h'.free)

/-- The first number in use behind a free one, inside a range. -/
structure FirstUsed (bitmap : Bitmap) (nrIrqs first used : Nat) : Prop where
  low : first < used
  high : used < first + nrIrqs
  taken : bitmap.bit used = true
  free : ∀ j, first ≤ j → j < used → bitmap.bit j = false

/-- What a round finds from a place on: nothing free, a number whose range is refused or wraps, a
free range, or a number in use behind a free one. -/
inductive Round (bitmap : Bitmap) (totalBits nr rounds index : Nat) : Except Stop Int → Prop
  | full (hfull : ∀ j, index ≤ j → j < totalBits → bitmap.bit j = true) :
      Round bitmap totalBits nr rounds index
        (if 0 < nr ∧ nr ≤ totalBits then .ok (-1) else findAreasLoop bitmap totalBits nr rounds 0)
  | refused (first : Nat) (hfirst : FirstFree bitmap totalBits index first)
      (hend : totalBits ≤ add32 first nr) :
      Round bitmap totalBits nr rounds index (findAreasLoop bitmap totalBits nr rounds 0)
  | wraps (first : Nat) (hfirst : FirstFree bitmap totalBits index first)
      (hend : add32 first nr < totalBits) (hwrap : 2 ^ 32 ≤ first + nr) :
      Round bitmap totalBits nr rounds index (.ok (asInt32 first))
  | row (first : Nat) (hfirst : FirstFree bitmap totalBits index first)
      (hend : first + nr < totalBits) (hrun : FreeRun bitmap first nr) :
      Round bitmap totalBits nr rounds index (.ok (asInt32 first))
  | gap (first used : Nat) (hfirst : FirstFree bitmap totalBits index first)
      (hend : first + nr < totalBits) (hused : FirstUsed bitmap nr first used) :
      Round bitmap totalBits nr rounds index
        (if used < 2 ^ 31 then findAreasLoop bitmap totalBits nr rounds (used + 1)
        else .ok (asInt32 first))

/-- The helper refuses a range that ends at the last number or behind it. -/
theorem findNrZeroBit_refused {first : Nat} (hend : totalBits ≤ add32 first nr) :
    asUint32 (bitmapFindNrZeroBit bitmap first totalBits nr) = 2 ^ 32 - 1 := by
  have hcall : bitmapFindNrZeroBit bitmap first totalBits nr = -1 := if_pos hend
  rw [hcall]
  decide

/-- The helper looks at no number of a range that wraps. -/
theorem findNrZeroBit_wrapped {first : Nat} (hnr : nr < 2 ^ 32) (hwrap : 2 ^ 32 ≤ first + nr)
    (hend : add32 first nr < totalBits) :
    asUint32 (bitmapFindNrZeroBit bitmap first totalBits nr) = 0 := by
  have hstop : (first + nr) % 2 ^ 32 < totalBits := hend
  have hshort : (first + nr) % 2 ^ 32 ≤ first := by omega
  simp only [bitmapFindNrZeroBit, bitmapFindNrBit, if_neg (Nat.not_le.mpr hstop)]
  rw [bitmapFindFirstBit, Nat.sub_eq_zero_of_le hshort, bitmapFindLoop, if_pos hshort]
  rfl

/-- A range that is too long for what is left ends the search. -/
theorem findAreasLoop_more {rounds index : Nat} (hend : totalBits ≤ add32 index nr) :
    findAreasLoop bitmap totalBits nr (rounds + 1) index = .ok (-erMore) := by
  rw [findAreasLoop, if_pos hend]

/-- **One round** of the search. -/
theorem findAreasLoop_round (bitmap : Bitmap) (htotal : totalBits < 2 ^ 32) (hnr : nr < 2 ^ 32) {index : Nat}
    (hindex : add32 index nr < totalBits) (rounds : Nat) :
    Round bitmap totalBits nr rounds index
      (findAreasLoop bitmap totalBits nr (rounds + 1) index) := by
  have hlast : add32 (2 ^ 32 - 1) 1 = 0 := by decide
  simp only [findAreasLoop, ge_iff_le, if_neg (Nat.not_le.mpr hindex)]
  rcases bitmapFindFirstBit_cases bitmap index totalBits false with
    ⟨hfind, hnone⟩ | ⟨first, hfind, hlow, hhigh, hfree, hbefore⟩
  · -- the code -1 is looked at as the last place there is
    have hfull : ∀ j, index ≤ j → j < totalBits → bitmap.bit j = true := by
      intro j hj hlt
      simpa using hnone j hj hlt
    have hplace : asUint32 (bitmapFindFirstZeroBit bitmap index totalBits) = 2 ^ 32 - 1 := by
      rw [bitmapFindFirstZeroBit, hfind]
      decide
    have hround : Round bitmap totalBits nr rounds index _ := Round.full hfull
    simp only [hplace]
    by_cases hfits : 0 < nr ∧ nr ≤ totalBits
    · have hend : add32 (2 ^ 32 - 1) nr < totalBits := by
        unfold add32
        omega
      rw [findNrZeroBit_wrapped hnr (by omega) hend, if_neg (fun hne => hne rfl)]
      rwa [if_pos hfits] at hround
    · have hend : totalBits ≤ add32 (2 ^ 32 - 1) nr := by
        unfold add32
        omega
      rw [findNrZeroBit_refused hend, if_pos (by decide), hlast]
      rwa [if_neg hfits] at hround
  · have hfirst : FirstFree bitmap totalBits index first := by
      refine ⟨hlow, hhigh, hfree, fun j hj hlt => ?_⟩
      simpa using hbefore j hj hlt
    have hplace : asUint32 (bitmapFindFirstZeroBit bitmap index totalBits) = first := by
      rw [bitmapFindFirstZeroBit, hfind, asUint32_asInt32 (by omega)]
    simp only [hplace]
    by_cases hend : totalBits ≤ add32 first nr
    · rw [findNrZeroBit_refused hend, if_pos (by decide), hlast]
      exact Round.refused first hfirst hend
    have hend := Nat.lt_of_not_le hend
    by_cases hwrap : 2 ^ 32 ≤ first + nr
    · rw [findNrZeroBit_wrapped hnr hwrap hend, if_neg (fun hne => hne rfl)]
      exact Round.wraps first hfirst hend hwrap
    rw [add32_of_lt (by omega)] at hend
    rcases bitmapFindNrBit_cases bitmap false hend htotal.le with
      ⟨hnrbit, hall⟩ | ⟨used, hnrbit, hlow', hhigh', htaken, hbefore'⟩
    · have hzero : asUint32 (bitmapFindNrZeroBit bitmap first totalBits nr) = 0 := by
        rw [bitmapFindNrZeroBit, hnrbit]
        rfl
      rw [hzero, if_neg (fun hne => hne rfl)]
      exact Round.row first hfirst hend hall
    · have hne : used ≠ first := by
        rintro rfl
        rw [hfree] at htaken
        cases htaken
      have hused : FirstUsed bitmap nr first used := ⟨by omega, hhigh', htaken, hbefore'⟩
      have hround : Round bitmap totalBits nr rounds index _ :=
        Round.gap first used hfirst hend hused
      have htemp : asUint32 (bitmapFindNrZeroBit bitmap first totalBits nr) =
          if used < 2 ^ 31 then used else 0 := by
        rw [bitmapFindNrZeroBit, hnrbit, asUint32_of_lt (by split <;> omega)]
      rw [htemp]
      by_cases hword : used < 2 ^ 31
      · rw [if_pos hword, if_pos (by omega), add32_of_lt (by omega)]
        rwa [if_pos hword] at hround
      · rw [if_neg hword, if_neg (fun hne => hne rfl)]
        rwa [if_neg hword] at hround

/-- The search does not pass a free range below the last number. -/
theorem findAreasLoop_spec {v index : Nat} (rounds : Nat) (htotal : totalBits < 2 ^ 32)
    (hv : v + nr < totalBits) (hword : v < 2 ^ 31) (hzero : bitmap.bit v = false)
    (hrun : FreeRun bitmap v nr) (hindex : index ≤ v) (hrounds : v - index < rounds) :
    ∃ w : Nat, findAreasLoop bitmap totalBits nr rounds index = .ok w ∧ index ≤ w ∧ w ≤ v ∧
      FreeRun bitmap w nr := by
  induction rounds generalizing index with
  | zero => exact absurd hrounds (Nat.not_lt_zero _)
  | succ rounds ih =>
    have hmore : add32 index nr < totalBits := by
      rw [add32_of_lt (by omega)]
      omega
    have hround := findAreasLoop_round bitmap htotal (by omega) hmore rounds
    generalize findAreasLoop bitmap totalBits nr (rounds + 1) index = result at hround
    cases hround with
    | full hfull =>
      have hused := hfull v hindex (by omega)
      rw [hzero] at hused
      cases hused
    | refused first hfirst hend =>
      have hle := hfirst.le hindex hzero
      rw [add32_of_lt (by omega)] at hend
      omega
    | wraps first hfirst hend hwrap =>
      have hle := hfirst.le hindex hzero
      omega
    | row first hfirst hend hfree =>
      have hle := hfirst.le hindex hzero
      rw [asInt32_of_lt (by omega)]
      exact ⟨first, rfl, hfirst.low, hle, hfree⟩
    | gap first used hfirst hend hused =>
      have hle := hfirst.le hindex hzero
      have hlow := hused.low
      have hhigh := hused.high
      have hfirstLow := hfirst.low
      -- a number in use lies below the free range
      have hbelow : used < v := by
        by_contra hge
        have hfree := hrun used (by omega) (by omega)
        rw [hused.taken] at hfree
        cases hfree
      rw [if_pos (by omega)]
      obtain ⟨w, hcall, hw, hwv, hwrun⟩ := @ih (used + 1) (by omega) (by omega)
      exact ⟨w, hcall, by omega, hwv, hwrun⟩

/-- What the search can return: one of two codes, a free range that ends below the last number, or a
number whose range wraps. -/
inductive Area (bitmap : Bitmap) (totalBits nr : Nat) : Except Stop Int → Prop
  | spins : Area bitmap totalBits nr (.error .spins)
  | code (r : Int) (hcode : r = -erMore ∨ r = -1) : Area bitmap totalBits nr (.ok r)
  | row (w : Nat) (hend : w + nr < totalBits) (hrun : FreeRun bitmap w nr) :
      Area bitmap totalBits nr (.ok w)
  | wraps (w : Nat) (hlow : w < totalBits) (hwrap : 2 ^ 32 ≤ w + nr) :
      Area bitmap totalBits nr (.ok w)

theorem findAreasLoop_area (htotal : totalBits ≤ 2 ^ 31) (hnr : nr < 2 ^ 32) (rounds index : Nat) :
    Area bitmap totalBits nr (findAreasLoop bitmap totalBits nr rounds index) := by
  induction rounds generalizing index with
  | zero => exact Area.spins
  | succ rounds ih =>
    rcases Nat.lt_or_ge (add32 index nr) totalBits with hroom | hend
    swap
    · rw [findAreasLoop_more hend]
      exact Area.code _ (Or.inl rfl)
    have hround := findAreasLoop_round bitmap (by omega) hnr hroom rounds
    generalize findAreasLoop bitmap totalBits nr (rounds + 1) index = result at hround
    cases hround with
    | full hfull =>
      by_cases hfits : 0 < nr ∧ nr ≤ totalBits
      · rw [if_pos hfits]
        exact Area.code _ (Or.inr rfl)
      · rw [if_neg hfits]
        exact ih 0
    | refused first hfirst hend => exact ih 0
    | wraps first hfirst hend hwrap =>
      have hhigh := hfirst.high
      rw [asInt32_of_lt (by omega)]
      exact Area.wraps first hhigh hwrap
    | row first hfirst hend hrun =>
      rw [asInt32_of_lt (by omega)]
      exact Area.row first hend hrun
    | gap first used hfirst hend hused =>
      have hhigh := hused.high
      rw [if_pos (by omega)]
      exact ih (used + 1)

/-! ## The places from which the search looks -/

/-- The search looks from its base, and from behind the first number in use of every row of them,
as long as that is no negative word. -/
def LooksFrom (bitmap : Bitmap) (base index : Nat) : Prop :=
  index = base ∨
    base + 2 ≤ index ∧ index ≤ 2 ^ 31 ∧ bitmap.bit (index - 1) = true ∧
      bitmap.bit (index - 2) = false

/-- It comes to a place, unless the range was too long for what was left before, and finds a free
number there. -/
structure Finds (bitmap : Bitmap) (totalBits nr base index first : Nat) : Prop where
  looks : LooksFrom bitmap base index
  room : ∀ i ≤ index, LooksFrom bitmap base i → add32 i nr < totalBits
  first : FirstFree bitmap totalBits index first

/-- There is a free range that the search can return. -/
def HasArea (bitmap : Bitmap) (totalBits nr base : Nat) : Prop :=
  ∃ v, base ≤ v ∧ v + nr < totalBits ∧ v < 2 ^ 31 ∧ FreeRun bitmap v nr

/-- The range of a free number that is found ends at the last number or behind it. -/
def StartsOver (bitmap : Bitmap) (totalBits nr base : Nat) : Prop :=
  ∃ index first, Finds bitmap totalBits nr base index first ∧ totalBits ≤ add32 first nr

/-- The range of a free number wraps, or what ends the gap behind the number is a negative word. -/
def Mistaken (bitmap : Bitmap) (nr first : Nat) : Prop :=
  first < 2 ^ 31 ∧
    (2 ^ 32 ≤ first + nr ∨ ∀ j, first ≤ j → j < 2 ^ 31 → bitmap.bit j = false)

/-- Such a free number is found. -/
def Mistakes (bitmap : Bitmap) (totalBits nr base : Nat) : Prop :=
  ∃ index first, Finds bitmap totalBits nr base index first ∧ Mistaken bitmap nr first

variable {base index first used : Nat}

theorem LooksFrom.base_le (h : LooksFrom bitmap base index) : base ≤ index := by
  obtain rfl | ⟨hlow, -⟩ := h
  · exact le_refl _
  · omega

/-- The next place is behind a number in use that follows a free one. -/
theorem LooksFrom.behind {i : Nat} (h : LooksFrom bitmap base index)
    (hi : LooksFrom bitmap base i) (hlt : index < i) :
    index + 2 ≤ i ∧ i ≤ 2 ^ 31 ∧ bitmap.bit (i - 1) = true ∧ bitmap.bit (i - 2) = false := by
  have hbase := h.base_le
  obtain rfl | ⟨hlow, hword, htaken, hfree⟩ := hi
  · omega
  refine ⟨?_, hword, htaken, hfree⟩
  by_contra hnext
  -- the place before would be free and in use
  obtain rfl | ⟨-, -, htaken', -⟩ := h
  · omega
  · rw [show index - 1 = i - 2 by omega, hfree] at htaken'
    cases htaken'

/-- The search does not look again before the gap is over. -/
theorem LooksFrom.gap_le {i : Nat} (h : LooksFrom bitmap base index)
    (hi : LooksFrom bitmap base i) (hlt : index < i)
    (hfirst : FirstFree bitmap totalBits index first) : first + 2 ≤ i := by
  obtain ⟨hnext, -, -, hfree⟩ := h.behind hi hlt
  have hle : first ≤ i - 2 := hfirst.le (by omega) hfree
  omega

theorem LooksFrom.next_le {i : Nat} (h : LooksFrom bitmap base index)
    (hi : LooksFrom bitmap base i) (hlt : index < i)
    (hfirst : FirstFree bitmap totalBits index first)
    (hgap : ∀ j, first ≤ j → j < used → bitmap.bit j = false) : used + 1 ≤ i := by
  have hfirstLe := h.gap_le hi hlt hfirst
  obtain ⟨-, -, htaken, -⟩ := h.behind hi hlt
  by_contra hshort
  have hbit := hgap (i - 1) (by omega) (by omega)
  rw [htaken] at hbit
  cases hbit

/-- Where the search has come to, past gaps that were too short. -/
structure Passed (bitmap : Bitmap) (totalBits nr base index : Nat) : Prop where
  looks : LooksFrom bitmap base index
  room : ∀ i < index, LooksFrom bitmap base i → add32 i nr < totalBits
  gaps : ∀ i < index, LooksFrom bitmap base i → ∀ first, FirstFree bitmap totalBits i first →
    first + nr < totalBits ∧ ∃ used, first < used ∧ used < 2 ^ 31 ∧ bitmap.bit used = true

theorem Passed.start (bitmap : Bitmap) (totalBits nr base : Nat) :
    Passed bitmap totalBits nr base base where
  looks := Or.inl rfl
  room := by
    intro i hlt hi
    exact absurd hi.base_le (Nat.not_le.mpr hlt)
  gaps := by
    intro i hlt hi
    exact absurd hi.base_le (Nat.not_le.mpr hlt)

/-- A gap that is too short is passed. -/
theorem Passed.next (h : Passed bitmap totalBits nr base index)
    (hroom : add32 index nr < totalBits) (hfirst : FirstFree bitmap totalBits index first)
    (hend : first + nr < totalBits) (hused : FirstUsed bitmap nr first used)
    (hword : used < 2 ^ 31) : Passed bitmap totalBits nr base (used + 1) where
  looks := by
    have hbase := h.looks.base_le
    have hlow := hfirst.low
    have hlow' := hused.low
    refine Or.inr ⟨by omega, by omega, hused.taken, ?_⟩
    exact hused.free _ (by omega) (by omega)
  room := by
    intro i hlt hi
    rcases Nat.lt_trichotomy i index with hbefore | rfl | hbehind
    · exact h.room i hbefore hi
    · exact hroom
    · have := h.looks.next_le hi hbehind hfirst hused.free
      omega
  gaps := by
    intro i hlt hi first' hfirst'
    rcases Nat.lt_trichotomy i index with hbefore | rfl | hbehind
    · exact h.gaps i hbefore hi first' hfirst'
    · obtain rfl := hfirst.unique hfirst'
      exact ⟨hend, used, hused.low, hword, hused.taken⟩
    · have := h.looks.next_le hi hbehind hfirst hused.free
      omega

/-- What is found before is no reason to start over or to mistake. -/
theorem Passed.harmless (h : Passed bitmap totalBits nr base index) (htotal : totalBits < 2 ^ 32)
    {i : Nat} (hlt : i < index) (hi : Finds bitmap totalBits nr base i first) :
    add32 first nr < totalBits ∧ ¬ Mistaken bitmap nr first := by
  obtain ⟨hend, used, hlow, hword, htaken⟩ := h.gaps i hlt hi.looks first hi.first
  refine ⟨by rwa [add32_of_lt (by omega)], ?_⟩
  rintro ⟨-, hwrap | hfree⟩
  · omega
  · rw [hfree used hlow.le hword] at htaken
    cases htaken

theorem Passed.not_startsOver (h : Passed bitmap totalBits nr base index)
    (htotal : totalBits < 2 ^ 32)
    (hrest : ∀ i first, index ≤ i → Finds bitmap totalBits nr base i first →
      add32 first nr < totalBits) : ¬ StartsOver bitmap totalBits nr base := by
  rintro ⟨i, first, hi, hend⟩
  apply Nat.not_lt.mpr hend
  rcases Nat.lt_or_ge i index with hlt | hge
  · exact (h.harmless htotal hlt hi).1
  · exact hrest i first hge hi

theorem Passed.not_mistakes (h : Passed bitmap totalBits nr base index)
    (htotal : totalBits < 2 ^ 32)
    (hrest : ∀ i first, index ≤ i → Finds bitmap totalBits nr base i first →
      ¬ Mistaken bitmap nr first) : ¬ Mistakes bitmap totalBits nr base := by
  rintro ⟨i, first, hi, hmistaken⟩
  rcases Nat.lt_or_ge i index with hlt | hge
  · exact (h.harmless htotal hlt hi).2 hmistaken
  · exact hrest i first hge hi hmistaken

/-! ## One pass -/

/-- How a pass from the base ends when there is no range to return: not in so few rounds, with a
negative code, with a number that is no free range, or at 0 again. -/
inductive Pass (bitmap : Bitmap) (totalBits nr base rounds index : Nat) : Except Stop Int → Prop
  | runsOut (hfew : 2 * rounds + index ≤ 2 ^ 31 + 2) :
      Pass bitmap totalBits nr base rounds index (.error .spins)
  | negative (r : Int) (hneg : r < 0) (hover : ¬ StartsOver bitmap totalBits nr base)
      (hright : ¬ Mistakes bitmap totalBits nr base) :
      Pass bitmap totalBits nr base rounds index (.ok r)
  | mistakes (first : Nat) (hnone : first + nr ≤ totalBits → ¬ FreeRun bitmap first nr)
      (hover : ¬ StartsOver bitmap totalBits nr base)
      (hwrong : Mistakes bitmap totalBits nr base) :
      Pass bitmap totalBits nr base rounds index (.ok first)
  | startsOver (left : Nat) (hless : left < rounds)
      (hmany : 2 * rounds + index ≤ 2 * left + 2 ^ 31 + 2)
      (hover : StartsOver bitmap totalBits nr base) :
      Pass bitmap totalBits nr base rounds index (findAreasLoop bitmap totalBits nr left 0)

theorem Pass.more {rounds index' : Nat} {result : Except Stop Int}
    (h : Pass bitmap totalBits nr base rounds index' result) (hlt : index + 2 ≤ index') :
    Pass bitmap totalBits nr base (rounds + 1) index result := by
  cases h with
  | runsOut hfew => exact Pass.runsOut (by omega)
  | negative r hneg hover hright => exact Pass.negative r hneg hover hright
  | mistakes first hnone hover hwrong => exact Pass.mistakes first hnone hover hwrong
  | startsOver left hless hmany hover => exact Pass.startsOver left (by omega) (by omega) hover

/-- A pass that returns a free number which is not the first of a range. -/
theorem Passed.returns (h : Passed bitmap totalBits nr base index) (htotal : totalBits < 2 ^ 32)
    (hnr : nr < 2 ^ 32) (hroom : add32 index nr < totalBits)
    (hfirst : FirstFree bitmap totalBits index first) (hend : add32 first nr < totalBits)
    (hmistaken : first < 2 ^ 31 → Mistaken bitmap nr first)
    (hnone : first < 2 ^ 31 → first + nr ≤ totalBits → ¬ FreeRun bitmap first nr) (rounds : Nat) :
    Pass bitmap totalBits nr base rounds index (.ok (asInt32 first)) := by
  have hhigh := hfirst.high
  rcases Nat.lt_or_ge first (2 ^ 31) with hword | hsign
  · rw [asInt32_of_lt hword]
    apply Pass.mistakes first (hnone hword)
    · apply h.not_startsOver htotal
      intro i first' hge hi
      have hhigh' := hi.first.high
      rcases Nat.eq_or_lt_of_le hge with rfl | hlt
      · rwa [hfirst.unique hi.first]
      obtain ⟨-, hwrap | hfree⟩ := hmistaken hword
      · have hgap := h.looks.gap_le hi.looks hlt hfirst
        have hlow := hi.first.low
        unfold add32
        omega
      · -- nothing is in use where the search would look next
        have hgap := h.looks.gap_le hi.looks hlt hfirst
        obtain ⟨-, hle, htaken, -⟩ := h.looks.behind hi.looks hlt
        rw [hfree (i - 1) (by omega) (by omega)] at htaken
        cases htaken
    · refine ⟨index, first, ⟨h.looks, ?_, hfirst⟩, hmistaken hword⟩
      intro i hle hi
      rcases Nat.eq_or_lt_of_le hle with rfl | hlt
      · exact hroom
      · exact h.room i hlt hi
  · have hquiet : ∀ i first', index ≤ i → Finds bitmap totalBits nr base i first' →
        first' = first := by
      intro i first' hge hi
      rcases Nat.eq_or_lt_of_le hge with rfl | hlt
      · exact hfirst.unique hi.first
      · have hgap := h.looks.gap_le hi.looks hlt hfirst
        have hle := (h.looks.behind hi.looks hlt).2.1
        omega
    apply Pass.negative _ ((asInt32_neg_iff (by omega)).mpr hsign)
    · apply h.not_startsOver htotal
      intro i first' hge hi
      rwa [hquiet i first' hge hi]
    · apply h.not_mistakes htotal
      intro i first' hge hi hbad
      rw [hquiet i first' hge hi] at hbad
      exact absurd hbad.1 (Nat.not_lt.mpr hsign)

/-- A place from which nothing is free ends the search. -/
theorem Passed.full (h : Passed bitmap totalBits nr base index) (htotal : totalBits < 2 ^ 32)
    (hfull : ∀ j, index ≤ j → j < totalBits → bitmap.bit j = true) :
    ¬ StartsOver bitmap totalBits nr base ∧ ¬ Mistakes bitmap totalBits nr base := by
  have hnone : ∀ i first, index ≤ i → ¬ Finds bitmap totalBits nr base i first := by
    intro i first hge hi
    have hused := hfull first (hge.trans hi.first.low) hi.first.high
    rw [hi.first.free] at hused
    cases hused
  exact ⟨h.not_startsOver htotal fun i first hge hi => absurd hi (hnone i first hge),
    h.not_mistakes htotal fun i first hge hi => absurd hi (hnone i first hge)⟩

/-- So does one where the range is too long for what is left. -/
theorem Passed.short (h : Passed bitmap totalBits nr base index) (htotal : totalBits < 2 ^ 32)
    (hend : totalBits ≤ add32 index nr) :
    ¬ StartsOver bitmap totalBits nr base ∧ ¬ Mistakes bitmap totalBits nr base := by
  have hnone : ∀ i first, index ≤ i → ¬ Finds bitmap totalBits nr base i first := by
    intro i first hge hi
    exact absurd (hi.room index hge h.looks) (Nat.not_lt.mpr hend)
  exact ⟨h.not_startsOver htotal fun i first hge hi => absurd hi (hnone i first hge),
    h.not_mistakes htotal fun i first hge hi => absurd hi (hnone i first hge)⟩

theorem LooksFrom.le_word (h : LooksFrom bitmap base index) (hbase : base < 2 ^ 31) :
    index ≤ 2 ^ 31 := by
  obtain rfl | ⟨-, hword, -⟩ := h
  · exact hbase.le
  · exact hword

/-- **A pass** from a place on. -/
theorem Passed.pass (h : Passed bitmap totalBits nr base index) (htotal : totalBits < 2 ^ 32)
    (hnr : nr < 2 ^ 32) (hpos : 0 < nr) (hbase : base < 2 ^ 31)
    (hno : ¬ HasArea bitmap totalBits nr base) (rounds : Nat) :
    Pass bitmap totalBits nr base rounds index
      (findAreasLoop bitmap totalBits nr rounds index) := by
  induction rounds generalizing index with
  | zero =>
    have hword := h.looks.le_word hbase
    exact Pass.runsOut (by omega)
  | succ rounds ih =>
    have hword := h.looks.le_word hbase
    rcases Nat.lt_or_ge (add32 index nr) totalBits with hroom | hend
    swap
    · obtain ⟨hover, hright⟩ := h.short htotal hend
      rw [findAreasLoop_more hend]
      exact Pass.negative _ (by decide) hover hright
    have hround := findAreasLoop_round bitmap htotal hnr hroom rounds
    generalize findAreasLoop bitmap totalBits nr (rounds + 1) index = result at hround
    cases hround with
    | full hfull =>
      obtain ⟨hover, hright⟩ := h.full htotal hfull
      by_cases hfits : 0 < nr ∧ nr ≤ totalBits
      · rw [if_pos hfits]
        exact Pass.negative _ (by decide) hover hright
      · -- at 0 a range of so many numbers is too long
        rw [if_neg hfits]
        cases rounds with
        | zero => exact Pass.runsOut (by omega)
        | succ rounds =>
          have hend : totalBits ≤ add32 0 nr := by
            rw [add32_of_lt (by omega)]
            omega
          rw [findAreasLoop_more hend]
          exact Pass.negative _ (by decide) hover hright
    | refused first hfirst hend =>
      apply Pass.startsOver rounds (by omega) (by omega)
      refine ⟨index, first, ⟨h.looks, ?_, hfirst⟩, hend⟩
      intro i hle hi
      rcases Nat.eq_or_lt_of_le hle with rfl | hlt
      · exact hroom
      · exact h.room i hlt hi
    | wraps first hfirst hend hwrap =>
      apply h.returns htotal hnr hroom hfirst hend
      · exact fun hword => ⟨hword, Or.inl hwrap⟩
      · intro _ hin
        omega
    | row first hfirst hend hrun =>
      have hsign : ¬ first < 2 ^ 31 := fun hword =>
        hno ⟨first, h.looks.base_le.trans hfirst.low, hend, hword, hrun⟩
      apply h.returns htotal hnr hroom hfirst (by rwa [add32_of_lt (by omega)])
      · exact fun hword => absurd hword hsign
      · exact fun hword => absurd hword hsign
    | gap first used hfirst hend hused =>
      have hlow := hfirst.low
      have hlow' := hused.low
      by_cases hword' : used < 2 ^ 31
      · rw [if_pos hword']
        exact (ih (h.next hroom hfirst hend hused hword')).more (by omega)
      · rw [if_neg hword']
        apply h.returns htotal hnr hroom hfirst (by rwa [add32_of_lt (by omega)])
        · exact fun hword => ⟨hword, Or.inr fun j hj hlt => hused.free j hj (by omega)⟩
        · intro _ _ hrun
          have hfree := hrun used hlow'.le hused.high
          rw [hused.taken] at hfree
          cases hfree

/-- A search that starts over from 0 does so for ever. -/
theorem findAreasLoop_spins (htotal : totalBits < 2 ^ 32) (hnr : nr < 2 ^ 32) (hpos : 0 < nr)
    (hno : ¬ HasArea bitmap totalBits nr 0) (hover : StartsOver bitmap totalBits nr 0)
    (rounds : Nat) : findAreasLoop bitmap totalBits nr rounds 0 = .error .spins := by
  induction rounds using Nat.strong_induction_on with
  | _ rounds ih =>
    have hpass := (Passed.start bitmap totalBits nr 0).pass htotal hnr hpos (by decide) hno rounds
    generalize hcall : findAreasLoop bitmap totalBits nr rounds 0 = result at hpass
    cases hpass with
    | runsOut hfew => rfl
    | negative r hneg hnot hright => exact absurd hover hnot
    | mistakes first hnone hnot hwrong => exact absurd hover hnot
    | startsOver left hless hmany _ => exact ih left hless

/-! ## When the search is right -/

/-- The search ends, with the first number of a free range at or above the base, or with a negative
code if there is none. -/
def FindsArea (bitmap : Bitmap) (irqBase : Int) (totalBits nrIrqs : Nat)
    (result : Except Stop Int) : Prop :=
  ∃ r, result = .ok r ∧
    (0 ≤ r → max irqBase 0 ≤ r ∧ r + nrIrqs ≤ totalBits ∧ FreeRun bitmap r.toNat nrIrqs) ∧
    (r < 0 → ∀ v : Nat, max irqBase 0 ≤ v → v + nrIrqs ≤ totalBits → ¬ FreeRun bitmap v nrIrqs)

/-- Without a range to return a pass from the base gives up rightly: where it starts over, the pass
from 0 has to. -/
def GivesUp (bitmap : Bitmap) (totalBits nr base : Nat) : Prop :=
  (StartsOver bitmap totalBits nr base →
    ¬ HasArea bitmap totalBits nr 0 ∧ ¬ StartsOver bitmap totalBits nr 0 ∧
      ¬ Mistakes bitmap totalBits nr 0) ∧
  (¬ StartsOver bitmap totalBits nr base → ¬ Mistakes bitmap totalBits nr base)

/-- There is no free range at or above the base. -/
def NoArea (bitmap : Bitmap) (totalBits nr base : Nat) : Prop :=
  ∀ v, base ≤ v → v + nr ≤ totalBits → ¬ FreeRun bitmap v nr

variable {irqBase : Int}

theorem findsArea_neg {r : Int} (hneg : r < 0) :
    FindsArea bitmap irqBase totalBits nr (.ok r) ↔ NoArea bitmap totalBits nr irqBase.toNat := by
  constructor
  · rintro ⟨r', hr', -, hnone⟩ v hv hend
    cases hr'
    exact hnone hneg v (by omega) hend
  · intro hnone
    refine ⟨r, rfl, fun hpos => ?_, fun _ v hv hend => hnone v (by omega) hend⟩
    omega

theorem findsArea_nat {w : Nat} :
    FindsArea bitmap irqBase totalBits nr (.ok (w : Int)) ↔
      irqBase.toNat ≤ w ∧ w + nr ≤ totalBits ∧ FreeRun bitmap w nr := by
  constructor
  · rintro ⟨r, hr, harea, -⟩
    cases hr
    obtain ⟨hlow, hend, hrun⟩ := harea (Int.natCast_nonneg w)
    exact ⟨by omega, by omega, hrun⟩
  · rintro ⟨hlow, hend, hrun⟩
    refine ⟨w, rfl, fun _ => ⟨by omega, by omega, hrun⟩, fun hneg => ?_⟩
    omega

theorem not_findsArea_spins : ¬ FindsArea bitmap irqBase totalBits nr (.error .spins) := by
  rintro ⟨r, hr, -⟩
  cases hr

/-- With a range to return, the search returns one. -/
theorem HasArea.found (h : HasArea bitmap totalBits nr base) (htotal : totalBits < 2 ^ 32)
    (hpos : 0 < nr) (rounds : Nat) (hrounds : 2 ^ 31 ≤ rounds) :
    ∃ w : Nat, findAreasLoop bitmap totalBits nr rounds base = .ok w ∧ base ≤ w ∧
      w + nr < totalBits ∧ w < 2 ^ 31 ∧ FreeRun bitmap w nr := by
  obtain ⟨v, hlow, hend, hword, hrun⟩ := h
  have hzero : bitmap.bit v = false := hrun v (le_refl _) (by omega)
  obtain ⟨w, hcall, hw, hwv, hwrun⟩ :=
    findAreasLoop_spec rounds htotal hend hword hzero hrun hlow (by omega)
  exact ⟨w, hcall, hw, by omega, by omega, hwrun⟩

/-- The pass from 0, after the search has started over. -/
theorem findsArea_over (htotal : totalBits < 2 ^ 32) (hnr : nr < 2 ^ 32) (hpos : 0 < nr)
    (hno : ¬ HasArea bitmap totalBits nr irqBase.toNat) {rounds : Nat}
    (hrounds : 2 ^ 31 + 1 < rounds) :
    FindsArea bitmap irqBase totalBits nr (findAreasLoop bitmap totalBits nr rounds 0) ↔
      NoArea bitmap totalBits nr irqBase.toNat ∧ ¬ HasArea bitmap totalBits nr 0 ∧
        ¬ StartsOver bitmap totalBits nr 0 ∧ ¬ Mistakes bitmap totalBits nr 0 := by
  by_cases hhas : HasArea bitmap totalBits nr 0
  · -- a range below the base is returned
    obtain ⟨w, hcall, -, hend, hword, hrun⟩ := hhas.found htotal hpos rounds (by omega)
    rw [hcall, findsArea_nat]
    refine iff_of_false ?_ fun hright => hright.2.1 hhas
    rintro ⟨hlow, -, -⟩
    exact hno ⟨w, hlow, hend, hword, hrun⟩
  have hpass := (Passed.start bitmap totalBits nr 0).pass htotal hnr hpos (by decide) hhas rounds
  have hspins := findAreasLoop_spins htotal hnr hpos hhas
  generalize findAreasLoop bitmap totalBits nr rounds 0 = result at hpass
  cases hpass with
  | runsOut hfew => omega
  | negative r hneg hover hright =>
    rw [findsArea_neg hneg, and_iff_left ⟨hhas, hover, hright⟩]
  | mistakes first hnone hover hwrong =>
    rw [findsArea_nat]
    exact iff_of_false (fun h => hnone h.2.1 h.2.2) fun h => h.2.2.2 hwrong
  | startsOver left hless hmany hover =>
    rw [hspins hover left]
    exact iff_of_false not_findsArea_spins fun h => h.2.2.1 hover

/-- **Finding a free range.**  The search is right exactly if there is a free range at or above the
base that ends below the last number and begins at no negative word, or if there is no free range
at or above the base and the search gives up. -/
theorem find_areas_iff (bitmap : Bitmap) (irqBase : Int) (totalBits nrIrqs : Nat)
    (hbase : irqBase < 2 ^ 31) (htotal : totalBits < 2 ^ 32) (hnr : nrIrqs < 2 ^ 32)
    (hpos : 1 ≤ nrIrqs) :
    FindsArea bitmap irqBase totalBits nrIrqs
        (fwkIrqBitmapFindAreas bitmap irqBase totalBits nrIrqs) ↔
      HasArea bitmap totalBits nrIrqs irqBase.toNat ∨
        (NoArea bitmap totalBits nrIrqs irqBase.toNat ∧
          GivesUp bitmap totalBits nrIrqs irqBase.toNat) := by
  have hstart : (if irqBase ≥ 0 then irqBase.toNat else 0) = irqBase.toNat := by
    split <;> omega
  have hrounds : walkRounds = 2 ^ 32 := rfl
  have hword : irqBase.toNat < 2 ^ 31 := by omega
  rw [fwkIrqBitmapFindAreas, hstart]
  by_cases hhas : HasArea bitmap totalBits nrIrqs irqBase.toNat
  · obtain ⟨w, hcall, hlow, hend, -, hrun⟩ :=
      hhas.found htotal hpos walkRounds (by omega)
    rw [hcall, findsArea_nat]
    exact iff_of_true ⟨hlow, by omega, hrun⟩ (Or.inl hhas)
  rw [or_iff_right hhas]
  have hpass := (Passed.start bitmap totalBits nrIrqs irqBase.toNat).pass htotal hnr hpos hword
    hhas walkRounds
  generalize findAreasLoop bitmap totalBits nrIrqs walkRounds irqBase.toNat = result at hpass
  cases hpass with
  | runsOut hfew => omega
  | negative r hneg hover hright =>
    rw [findsArea_neg hneg, and_iff_left]
    exact ⟨fun h => absurd h hover, fun _ => hright⟩
  | mistakes first hnone hover hwrong =>
    rw [findsArea_nat]
    exact iff_of_false (fun h => hnone h.2.1 h.2.2) fun h => h.2.2 hover hwrong
  | startsOver left hless hmany hover =>
    rw [findsArea_over htotal hnr hpos hhas (by omega), GivesUp, imp_iff_right hover]
    simp only [hover, not_true_eq_false, false_imp_iff, and_true]

/-- Two numbers out of 1024 that are all free. -/
theorem find_areas_iff_empty :
    FindsArea (fun _ => 0) (-1) 1024 2 (fwkIrqBitmapFindAreas (fun _ => 0) (-1) 1024 2) := by
  refine (find_areas_iff (fun _ => 0) (-1) 1024 2 (by decide) (by decide) (by decide)
    (by decide)).mpr (Or.inl ⟨0, by decide, by decide, by decide, ?_⟩)
  intro j _ _
  simp [Bitmap.bit_eq]

/-- All numbers are in use but the last of 1024. -/
def lastFree : Bitmap := fun byte => if byte = 127 then 0x7f else 0xff

/-- With only the last number free the search never ends. -/
theorem last_number_spins :
    ¬ FindsArea lastFree (-1) 1024 1 (fwkIrqBitmapFindAreas lastFree (-1) 1024 1) := by
  have hplace : asUint32 (bitmapFindFirstZeroBit lastFree 0 1024) = 1023 := by decide +kernel
  have htemp : asUint32 (bitmapFindNrZeroBit lastFree 1023 1024 1) = 2 ^ 32 - 1 := by decide
  have hnext : add32 (2 ^ 32 - 1) 1 = 0 := by decide
  have hspins : ∀ rounds, findAreasLoop lastFree 1024 1 rounds 0 = .error .spins := by
    intro rounds
    induction rounds with
    | zero => rfl
    | succ rounds ih =>
      rw [findAreasLoop, if_neg (by decide)]
      simp only [hplace, htemp, hnext]
      rw [if_pos (by decide), ih]
  have hcall : fwkIrqBitmapFindAreas lastFree (-1) 1024 1 = .error .spins := hspins walkRounds
  rw [hcall]
  exact not_findsArea_spins

end IrqMaps

end HeavenFox.Platform
