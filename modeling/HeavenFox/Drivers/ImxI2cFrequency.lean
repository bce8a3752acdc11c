/-
# HeavenFox.Drivers.ImxI2cFrequency -- the clock divider of `imx-i2c.c`

`imx_i2c_find_frequency` looks for the divider of a table that is nearest to the ideal one, with a
running minimum.  The search itself is right (`findLoop_firstLeast`).  But the ideal divider is kept
in 16 bits: below 1008 Hz the quotient does not fit, and the search goes for what is left of it.
The largest divider is meant there, so the answer is right only if it is also the nearest to the
rest (`divider_nearest_iff`).
-/
import HeavenFox.Common.ErrorTypes
import HeavenFox.Logic.FirstLeast
import HeavenFox.Platform.Basic

namespace HeavenFox.Drivers

open HeavenFox.Common HeavenFox.Logic HeavenFox.Platform

/-! ## The search -/

/-- `g_imx_i2c_ifdr_field`: register codes and their dividers. -/
def imxI2cIfdrField : List (Nat × Nat) :=
  [(0x00, 30), (0x10, 288), (0x20, 22), (0x30, 160),
   (0x01, 32), (0x11, 320), (0x21, 24), (0x31, 192),
   (0x02, 36), (0x12, 384), (0x22, 26), (0x32, 224),
   (0x03, 42), (0x13, 480), (0x23, 28), (0x33, 256),
   (0x04, 48), (0x14, 576), (0x24, 32), (0x34, 320),
   (0x05, 52), (0x15, 640), (0x25, 36), (0x35, 384),
   (0x06, 60), (0x16, 768), (0x26, 40), (0x36, 448),
   (0x07, 72), (0x17, 960), (0x27, 44), (0x37, 512),
   (0x08, 80), (0x18, 1152), (0x28, 48), (0x38, 640),
   (0x09, 88), (0x19, 1280), (0x29, 56), (0x39, 768),
   (0x0a, 104), (0x1a, 1536), (0x2a, 64), (0x3a, 896),
   (0x0b, 128), (0x1b, 1920), (0x2b, 72), (0x3b, 1024),
   (0x0c, 144), (0x1c, 2304), (0x2c, 80), (0x3c, 1280),
   (0x0d, 160), (0x1d, 2560), (0x2d, 96), (0x3d, 1536),
   (0x0e, 192), (0x1e, 3072), (0x2e, 112), (0x3e, 1792),
   (0x0f, 240), (0x1f, 3840), (0x2f, 128), (0x3f, 2048)]

/-- The loop of `imx_i2c_find_frequency`, from the entry `idx` on. -/
def findLoop (div : Nat) : List (Nat × Nat) → Nat → Nat → Nat → Nat
  | [], _, _, idxSatisfy => idxSatisfy
  | (_, field) :: rest, idx, lastTemp, idxSatisfy =>
    if field = div then idx
    else
      let curTemp := mrtUsub field div
      if curTemp < lastTemp then findLoop div rest (idx + 1) curTemp idx
      else findLoop div rest (idx + 1) lastTemp idxSatisfy

/-- `imx_i2c_find_frequency`; `div`, `last_temp` and `idx_satisfy` are `kuint16_t`. -/
def imxI2cFindFrequency (freq : Nat) : Int :=
  let div := 66000000 / freq % 2 ^ 16
  let idxSatisfy := findLoop div imxI2cIfdrField 0 0xffff 0xffff
  match imxI2cIfdrField[idxSatisfy]? with
  | some (code, _) => code
  | none => -erNotfound

/-! ## What it finds -/

/-- How far the divider of an entry is from the one that is looked for. -/
def offBy (div : Nat) (entry : Nat × Nat) : Nat := ((entry.2 : Int) - div).natAbs

theorem mrtUsub_eq (a b : Nat) : mrtUsub a b = ((a : Int) - b).natAbs := by
  unfold mrtUsub
  split <;> omega

/-- **The loop** goes on with the first of the nearest entries seen so far, and none of them is
exact. -/
theorem findLoop_best {div : Nat} {rest seen : List (Nat × Nat)} {idxSatisfy : Nat}
    {entry : Nat × Nat} (h : FirstLeast (offBy div) seen idxSatisfy entry)
    (hoff : 0 < offBy div entry) :
    ∃ best, FirstLeast (offBy div) (seen ++ rest)
      (findLoop div rest seen.length (offBy div entry) idxSatisfy) best := by
  induction rest generalizing seen idxSatisfy entry with
  | nil =>
    rw [List.append_nil]
    exact ⟨entry, h⟩
  | cons next rest ih =>
    have hsplit : seen ++ next :: rest = seen ++ [next] ++ rest := by simp
    have hlength : (seen ++ [next]).length = seen.length + 1 := List.length_append
    have hcur : mrtUsub next.2 div = offBy div next := mrtUsub_eq next.2 div
    rw [hsplit, findLoop]
    by_cases hexact : next.2 = div
    · -- nothing is nearer than an exact divider
      have hzero : offBy div next = 0 := by simp [offBy, hexact]
      rw [if_pos hexact]
      refine ⟨next, (FirstLeast.better (h.worse ?_)).append ?_⟩
      · rwa [hzero]
      · intro other _
        rw [hzero]
        exact Nat.zero_le _
    · have hnext : 0 < offBy div next := by
        unfold offBy
        omega
      rw [if_neg hexact, hcur]
      by_cases hcloser : offBy div next < offBy div entry
      · simp only [if_pos hcloser, ← hlength]
        exact ih (FirstLeast.better (h.worse hcloser)) hnext
      · simp only [if_neg hcloser, ← hlength]
        refine ih (h.append ?_) hoff
        intro other hother
        rw [List.mem_singleton.mp hother]
        exact Nat.le_of_not_lt hcloser

/-- **The search is right.**  It ends with the first of the nearest entries, if the first entry is
nearer than the mark that the minimum starts from. -/
theorem findLoop_firstLeast {div : Nat} {first : Nat × Nat} (rest : List (Nat × Nat))
    (h : offBy div first < 0xffff) :
    ∃ best, FirstLeast (offBy div) (first :: rest)
      (findLoop div (first :: rest) 0 0xffff 0xffff) best := by
  have hfirst : FirstLeast (offBy div) [first] 0 first := FirstLeast.better (l := []) (by simp)
  have hexactly : offBy div first = 0 → FirstLeast (offBy div) ([first] ++ rest) 0 first := by
    intro hzero
    refine hfirst.append fun other _ => ?_
    rw [hzero]
    exact Nat.zero_le _
  have hcur : mrtUsub first.2 div = offBy div first := mrtUsub_eq first.2 div
  rw [findLoop]
  by_cases hexact : first.2 = div
  · rw [if_pos hexact]
    exact ⟨first, hexactly (by simp [offBy, hexact])⟩
  · rw [if_neg hexact]
    simp only [hcur, if_pos h]
    refine findLoop_best hfirst ?_
    unfold offBy
    omega

/-- The answer is the code of the first of the entries that are nearest to the 16 bits kept. -/
theorem imxI2cFindFrequency_eq (freq : Nat) :
    ∃ idx best, FirstLeast (offBy (66000000 / freq % 2 ^ 16)) imxI2cIfdrField idx best ∧
      imxI2cFindFrequency freq = best.1 := by
  have hdiv : 66000000 / freq % 2 ^ 16 < 2 ^ 16 := Nat.mod_lt _ (by decide)
  have hmark : offBy (66000000 / freq % 2 ^ 16) (0x00, 30) < 0xffff := by
    unfold offBy
    omega
  obtain ⟨best, hbest⟩ := findLoop_firstLeast imxI2cIfdrField.tail hmark
  refine ⟨_, best, hbest, ?_⟩
  have hplace := hbest.place
  unfold imxI2cFindFrequency
  dsimp only
  rw [show imxI2cIfdrField = (0x00, 30) :: imxI2cIfdrField.tail from rfl, hplace]

/-! ## Which frequencies are answered right -/

/-- The answer is the code of an entry whose divider is nearest to `66000000 / freq`. -/
def FindsNearest (freq : Nat) : Prop :=
  ∃ entry ∈ imxI2cIfdrField, imxI2cFindFrequency freq = entry.1 ∧
    ∀ other ∈ imxI2cIfdrField, offBy (66000000 / freq) entry ≤ offBy (66000000 / freq) other

instance (freq : Nat) : Decidable (FindsNearest freq) :=
  inferInstanceAs (Decidable (∃ entry ∈ _, _ ∧ ∀ other ∈ _, _))

/-- The largest divider is far from the others, and it has a code of its own. -/
theorem largest_divider : ∀ entry ∈ imxI2cIfdrField,
    entry = (0x1f, 3840) ∨ entry.2 ≤ 3072 ∧ entry.1 ≠ 0x1f := by decide

/-- The entry before it. -/
theorem second_is_before : ∀ idx < imxI2cIfdrField.length,
    imxI2cIfdrField[idx]? = some (0x1f, 3840) → (0x1e, 3072) ∈ imxI2cIfdrField.take idx := by
  decide

/-- **When the divider is the nearest one.**  The ideal divider fits in 16 bits, or the largest
divider of the table is also the nearest to what these hold. -/
theorem divider_nearest_iff (freq : Nat) :
    FindsNearest freq ↔ 66000000 / freq < 2 ^ 16 ∨ 3456 < 66000000 / freq % 2 ^ 16 := by
  obtain ⟨idx, best, hbest, hcode⟩ := imxI2cFindFrequency_eq freq
  by_cases hfits : 66000000 / freq < 2 ^ 16
  · rw [Nat.mod_eq_of_lt hfits] at hbest
    exact iff_of_true ⟨best, hbest.mem, hcode, hbest.least⟩ (Or.inl hfits)
  have hlargest : ((0x1f, 3840) : Nat × Nat) ∈ imxI2cIfdrField := by decide
  rw [or_iff_right hfits]
  constructor
  · rintro ⟨entry, hmem, hentry, hnearest⟩
    -- only the largest divider is near to such a quotient
    have hle := hnearest _ hlargest
    obtain rfl : entry = (0x1f, 3840) := by
      rcases largest_divider entry hmem with h | ⟨hsmall, -⟩
      · exact h
      · unfold offBy at hle
        omega
    obtain rfl : best = (0x1f, 3840) := by
      rcases largest_divider best hbest.mem with h | ⟨-, hother⟩
      · exact h
      · rw [hcode] at hentry
        exact absurd (Int.ofNat.inj hentry) hother
    -- the search has passed the divider before it
    have hpassed := hbest.first _ (second_is_before idx hbest.lt_length hbest.place)
    unfold offBy at hpassed
    omega
  · intro hrest
    have hle := hbest.least _ hlargest
    obtain rfl : best = (0x1f, 3840) := by
      rcases largest_divider best hbest.mem with h | ⟨hsmall, -⟩
      · exact h
      · unfold offBy at hle
        omega
    refine ⟨_, hbest.mem, hcode, ?_⟩
    intro other hother
    unfold offBy
    rcases largest_divider other hother with rfl | ⟨hsmall, -⟩ <;> omega

/-- 1007 Hz: the quotient is 65541, of which 5 is kept, and the divider found is 22. -/
theorem quotient_is_cut : ¬ FindsNearest 1007 := by decide

end HeavenFox.Drivers
