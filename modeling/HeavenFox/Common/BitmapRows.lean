/-
# HeavenFox.Common.BitmapRows -- rows of bits

`bitmap_find_nr_bit` is asked whether all bits of a row have a value, and `bitmap_set_nr_bit`
gives it to all of them.  Both refuse a row that ends at the last bit, and the first returns the
place of a bit that has another value, which cannot be told from success at place 0.
`bitmap_rows_iff` says for which rows the two do what they are for.
-/
import HeavenFox.Common.IoStream

namespace HeavenFox.Common

open HeavenFox.Logic

/-- All bits of the row have the value. -/
def Bitmap.Row (bitmap : Bitmap) (start nr : Nat) (value : Bool) : Prop :=
  ∀ j, start ≤ j → j < start + nr → bitmap.bit j = value

/-- The first bit of the row that has another value. -/
structure Bitmap.FirstMiss (bitmap : Bitmap) (start nr : Nat) (value : Bool) (j : Nat) : Prop where
  low : start ≤ j
  high : j < start + nr
  miss : bitmap.bit j ≠ value
  before : ∀ i, start ≤ i → i < j → bitmap.bit i = value

/-- 0 is returned for a row inside the bitmap that has the value, and for no other. -/
def FindsRow (bitmap : Bitmap) (start totalBits nr : Nat) (value : Bool) : Prop :=
  bitmapFindNrBit bitmap start totalBits nr value = 0 ↔
    start + nr ≤ totalBits ∧ bitmap.Row start nr value

/-- A row inside the bitmap gets the value, and no other bit changes. -/
def SetsRow (bitmap : Bitmap) (start totalBits nr : Nat) (value : Bool) : Prop :=
  start + nr ≤ totalBits → ∀ j, (bitmapSetNrBit bitmap start totalBits nr value).bit j =
    if start ≤ j ∧ j < start + nr then value else bitmap.bit j

variable {bitmap : Bitmap} {start totalBits nr : Nat} {value : Bool}

theorem Bitmap.FirstMiss.not_row {j : Nat} (h : bitmap.FirstMiss start nr value j) :
    ¬ bitmap.Row start nr value :=
  fun hrow => h.miss (hrow j h.low h.high)

/-- A row that ends at the last bit, or behind it, is refused. -/
theorem bitmapFindNrBit_refused (hwrap : start + nr < 2 ^ 32) (hend : totalBits ≤ start + nr) :
    bitmapFindNrBit bitmap start totalBits nr value = -1 := by
  rw [bitmapFindNrBit, Nat.mod_eq_of_lt hwrap]
  exact if_pos hend

theorem bitmapSetNrBit_refused (hwrap : start + nr < 2 ^ 32) (hend : totalBits ≤ start + nr) :
    bitmapSetNrBit bitmap start totalBits nr value = bitmap := by
  rw [bitmapSetNrBit, Nat.mod_eq_of_lt hwrap]
  exact if_pos hend

/-- At the last bit one of the two goes wrong: the row has the value and is not found, or has not
and is not set. -/
theorem not_findsRow_setsRow (hwrap : start + nr < 2 ^ 32) (hend : start + nr = totalBits) :
    ¬ (FindsRow bitmap start totalBits nr value ∧ SetsRow bitmap start totalBits nr value) := by
  rintro ⟨hfind, hset⟩
  have hset := hset hend.le
  rw [bitmapSetNrBit_refused hwrap hend.ge] at hset
  have hrow : bitmap.Row start nr value := by
    intro j hlow hhigh
    rw [hset j, if_pos ⟨hlow, hhigh⟩]
  have hzero := hfind.mpr ⟨hend.le, hrow⟩
  rw [bitmapFindNrBit_refused hwrap hend.ge] at hzero
  exact absurd hzero (by decide)

/-- Below the last bit a row is found rightly unless the place of its first miss reads as 0. -/
theorem findsRow_iff (hend : start + nr < totalBits) (htotal : totalBits < 2 ^ 32) :
    FindsRow bitmap start totalBits nr value ↔
      ∀ j, bitmap.FirstMiss start nr value j → 0 < j ∧ j < 2 ^ 31 := by
  rw [FindsRow, and_iff_right hend.le]
  rcases bitmapFindNrBit_cases bitmap value hend htotal.le with
    ⟨hzero, hrow⟩ | ⟨index, hfind, hlow, hhigh, hbit, hbefore⟩
  · refine iff_of_true (iff_of_true hzero hrow) fun j hj => ?_
    exact absurd hrow hj.not_row
  · have hmiss : bitmap.FirstMiss start nr value index := by
      refine ⟨hlow, hhigh, ?_, hbefore⟩
      rw [hbit]
      cases value <;> decide
    have hunique : ∀ j, bitmap.FirstMiss start nr value j → j = index := by
      intro j hj
      rcases Nat.lt_trichotomy j index with hlt | heq | hgt
      · exact absurd (hbefore j hj.low hlt) hj.miss
      · exact heq
      · exact absurd (hj.before index hlow hgt) hmiss.miss
    rw [hfind, iff_false_right hmiss.not_row]
    constructor
    · intro hne j hj
      obtain rfl := hunique j hj
      split at hne <;> omega
    · intro h hzero
      obtain ⟨hpos, hword⟩ := h index hmiss
      rw [if_pos hword] at hzero
      omega

/-- **Rows of bits.**  Finding and setting a row whose end does not wrap are right exactly if the
row does not end at the last bit and, where it ends below, its first bit with another value is
neither the first of the bitmap nor at a place that is no signed word. -/
theorem bitmap_rows_iff (bitmap : Bitmap) (start nr totalBits : Nat) (value : Bool)
    (hwrap : start + nr < 2 ^ 32) (htotal : totalBits < 2 ^ 32) :
    (FindsRow bitmap start totalBits nr value ∧ SetsRow bitmap start totalBits nr value) ↔
      start + nr ≠ totalBits ∧
        (start + nr < totalBits → ∀ j, bitmap.FirstMiss start nr value j → 0 < j ∧ j < 2 ^ 31) := by
  rcases Nat.lt_trichotomy (start + nr) totalBits with hlt | heq | hgt
  · have hset : SetsRow bitmap start totalBits nr value := fun _ j =>
      bitmapSetNrBit_bit hlt htotal.le j
    rw [and_iff_left hset, findsRow_iff hlt htotal, and_iff_right hlt.ne]
    exact ⟨fun h _ => h, fun h => h hlt⟩
  · exact iff_of_false (not_findsRow_setsRow hwrap heq) fun h => h.1 heq
  · -- such a row is not inside the bitmap, and it is refused
    refine iff_of_true ⟨?_, fun hle => absurd hle (Nat.not_le.mpr hgt)⟩
      ⟨hgt.ne', fun hlt => absurd hlt (Nat.not_lt.mpr hgt.le)⟩
    rw [FindsRow, bitmapFindNrBit_refused hwrap hgt.le]
    exact iff_of_false (by decide) fun h => absurd h.1 (Nat.not_le.mpr hgt)

theorem Bitmap.bit_empty (j : Nat) : Bitmap.bit (fun _ => 0) j = false := by
  simp [Bitmap.bit_eq]

/-- Four bits in the middle of an empty bitmap. -/
theorem bitmap_rows_iff_middle :
    FindsRow (fun _ => 0) 8 1024 4 false ∧ SetsRow (fun _ => 0) 8 1024 4 false := by
  refine (bitmap_rows_iff (fun _ => 0) 8 4 1024 false (by decide) (by decide)).mpr
    ⟨by decide, fun _ j hj => absurd (Bitmap.bit_empty j) hj.miss⟩

/-- The last four bits of an empty bitmap are not found, and the first bit of a bitmap is found to be
set when it is not. -/
theorem rows_at_the_ends_go_wrong :
    ¬ FindsRow (fun _ => 0) 1020 1024 4 false ∧ ¬ FindsRow (fun _ => 0) 0 1024 4 true := by
  constructor
  · intro h
    have hzero := h.mpr ⟨by decide, fun j _ _ => Bitmap.bit_empty j⟩
    exact absurd hzero (by decide)
  · intro h
    have hbit := (h.mp (by decide)).2 0 (by decide) (by decide)
    rw [Bitmap.bit_empty] at hbit
    cases hbit

end HeavenFox.Common
