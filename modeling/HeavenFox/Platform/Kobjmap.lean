/-
# HeavenFox.Platform.Kobjmap -- looking up device numbers

`fwk_kobjmap.c`: a domain has 255 lists of probes, one for each major, in the order of the
sizes of their ranges.  Mapping a range allocates one array with a probe for each of its
majors and threads every element into the list of its major; unmapping takes them off
again and frees the array by its first element.

`kobjmap_refines` says what this is for: at any time, looking up a number gives the data
of the mapped range that contains it, and the memory in use is that of the ranges mapped.
-/
import HeavenFox.Common.ErrorTypes
import HeavenFox.Logic.Ranges
import HeavenFox.Logic.Run
import HeavenFox.Platform.Basic
import Mathlib.Data.List.Sort

namespace HeavenFox.Platform

open HeavenFox.Common HeavenFox.Logic

/-! ## The calls -/

/-- A `struct fwk_probes` and its address; the link is its place in a list. -/
structure FwkProbes where
  addr : Nat
  devNum : Nat
  range : Nat
  data : Nat
  deriving DecidableEq, Repr

/-- `sizeof(struct fwk_probes)`. -/
abbrev probesSize : Nat := 16

/-- `sprt_probes`. -/
abbrev ProbeLists := Fin deviceMaxNum → List FwkProbes

/-- A `struct fwk_kobj_map`, and the blocks that were allocated for its probes. -/
structure FwkKobjMap where
  sprtProbes : ProbeLists
  heap : List Range

/-- A domain after `fwk_kobjmap_init`. -/
def fwkKobjmapInit : FwkKobjMap where
  sprtProbes := fun _ => []
  heap := []

/-- The first list a range is threaded into. -/
def firstMajor (devNum : Nat) : Nat := min deviceMaxNum (getDevMajor devNum)

/-- `majorCnt`. -/
def majorCnt (devNum range : Nat) : Nat :=
  let cnt := add32 (sub32 (getDevMajor (add32 devNum range)) (firstMajor devNum)) 1
  if deviceMaxNum < add32 (firstMajor devNum) cnt then deviceMaxNum - firstMajor devNum else cnt

/-- The list for element `i` of an array. -/
def probeIndex (devNum i : Nat) : Fin deviceMaxNum :=
  Fin.ofNat deviceMaxNum (add32 (firstMajor devNum) i)

/-- Put a probe in front of the first one that is not smaller. -/
def insertProbe (sprtTemp : FwkProbes) (probes : List FwkProbes) : List FwkProbes :=
  probes.orderedInsert (fun a b => a.range ≤ b.range) sprtTemp

/-- The lists after the first elements of the array at `sprtProbe` are threaded. -/
def mapLoop (sprtProbe devNum range data : Nat) (lists : ProbeLists) : Nat → ProbeLists
  | 0 => lists
  | i + 1 =>
    let lists := mapLoop sprtProbe devNum range data lists i
    let index := probeIndex devNum i
    Function.update lists index
      (insertProbe ⟨sprtProbe + i * probesSize, devNum, range, data⟩ (lists index))

/-- `fwk_kobj_map`; `kzalloc` is what the allocator returns. -/
def fwkKobjMap (kzalloc : Nat) (domain : FwkKobjMap) (devNum range data : Nat) :
    Int × FwkKobjMap :=
  if !isValid data then (-erFault, domain)
  else if !isValid kzalloc then (-erNomem, domain)
  else
    (erNormal,
      { sprtProbes :=
          mapLoop kzalloc devNum range data domain.sprtProbes (majorCnt devNum range)
        heap := ⟨kzalloc, probesSize * majorCnt devNum range⟩ :: domain.heap })

/-- The probe belongs to exactly this range. -/
def FwkProbes.isRange (devNum range : Nat) (probe : FwkProbes) : Bool :=
  decide (probe.devNum = devNum) && decide (probe.range = range)

/-- The lists after the first majors have been looked through, and the first probe found. -/
def unmapLoop (devNum range : Nat) (lists : ProbeLists) : Nat → ProbeLists × Option FwkProbes
  | 0 => (lists, none)
  | i + 1 =>
    let (lists, sprtRlt) := unmapLoop devNum range lists i
    let index := probeIndex devNum i
    (Function.update lists index ((lists index).eraseP (FwkProbes.isRange devNum range)),
      sprtRlt <|> (lists index).find? (FwkProbes.isRange devNum range))

/-- `kfree`: the address is one that `kzalloc` returned. -/
def kfreeBlock (heap : List Range) (addr : Nat) : Except Stop (List Range) :=
  if heap.any fun block => decide (block.base = addr) then
    .ok (heap.eraseP fun block => decide (block.base = addr))
  else .error .fault

/-- `fwk_kobj_unmap`. -/
def fwkKobjUnmap (domain : FwkKobjMap) (devNum range : Nat) : Except Stop (Int × FwkKobjMap) :=
  match unmapLoop devNum range domain.sprtProbes (majorCnt devNum range) with
  | (lists, none) => .ok (erNormal, { domain with sprtProbes := lists })
  | (lists, some sprtRlt) => do
    let heap ← kfreeBlock domain.heap sprtRlt.addr
    .ok (erNormal, ⟨lists, heap⟩)

/-- The number is in the range of the probe. -/
def FwkProbes.holds (devNum : Nat) (probe : FwkProbes) : Bool :=
  decide (probe.devNum ≤ devNum) && decide (devNum ≤ sub32 (add32 probe.devNum probe.range) 1)

/-- `fwk_kobjmap_lookup`. -/
def fwkKobjmapLookup (domain : FwkKobjMap) (devNum : Nat) : Nat :=
  match (domain.sprtProbes (Fin.ofNat deviceMaxNum (getDevMajor devNum))).find?
      (FwkProbes.holds devNum) with
  | some sprtTemp => sprtTemp.data
  | none => 0

/-! ## What the calls are for -/

/-- A range that is mapped, with its data and the block allocated for it. -/
structure Mapping where
  devNum : Nat
  range : Nat
  data : Nat
  block : Range
  deriving DecidableEq, Repr

namespace Mapping

/-- The device numbers. -/
def nums (m : Mapping) : Range := ⟨m.devNum, m.range⟩

/-- The range is not empty, does not wrap and stays below major 255. -/
def Fits (m : Mapping) : Prop := 0 < m.range ∧ m.devNum + m.range ≤ deviceMaxNum * 2 ^ 20

instance (m : Mapping) : Decidable m.Fits := inferInstanceAs (Decidable (_ ∧ _))

/-- The range has a probe in the list of this major. -/
def Covers (m : Mapping) (i : Nat) : Prop :=
  m.devNum / 2 ^ 20 ≤ i ∧ i < m.devNum / 2 ^ 20 + majorCnt m.devNum m.range

instance (m : Mapping) (i : Nat) : Decidable (m.Covers i) := inferInstanceAs (Decidable (_ ∧ _))

/-- That probe. -/
def probeOf (m : Mapping) (i : Nat) : FwkProbes :=
  ⟨m.block.base + (i - m.devNum / 2 ^ 20) * probesSize, m.devNum, m.range, m.data⟩

/-- What the list of a major has for the range. -/
def probe (m : Mapping) (i : Nat) : Option FwkProbes :=
  if m.Covers i then some (m.probeOf i) else none

/-- The mapping of exactly this range. -/
def isRange (devNum range : Nat) (m : Mapping) : Bool :=
  decide (m.devNum = devNum) && decide (m.range = range)

theorem isRange_iff {devNum range : Nat} {m : Mapping} :
    m.isRange devNum range = true ↔ m.devNum = devNum ∧ m.range = range := by
  simp [isRange]

theorem Fits.firstMajor_eq {m : Mapping} (h : m.Fits) : firstMajor m.devNum = m.devNum / 2 ^ 20 := by
  have hrange := h.1
  have hend := h.2
  unfold deviceMaxNum at hend
  rw [firstMajor, getDevMajor_eq]
  exact Nat.min_eq_right (by unfold deviceMaxNum; omega)

/-- How many probes: one for each major, and one more if the range ends with a major, unless that
was the last one. -/
theorem Fits.majorCnt_eq {m : Mapping} (h : m.Fits) :
    majorCnt m.devNum m.range =
      min ((m.devNum + m.range) / 2 ^ 20) 254 - m.devNum / 2 ^ 20 + 1 := by
  have hrange := h.1
  have hend := h.2
  unfold deviceMaxNum at hend
  have hle : m.devNum / 2 ^ 20 ≤ (m.devNum + m.range) / 2 ^ 20 :=
    Nat.div_le_div_right (Nat.le_add_right _ _)
  unfold majorCnt deviceMaxNum
  dsimp only
  rw [h.firstMajor_eq, add32_of_lt (show m.devNum + m.range < 2 ^ 32 by omega), getDevMajor_eq,
    sub32_of_le hle (by omega), add32_of_lt (a := _ - _) (by omega), add32_of_lt (by omega)]
  split <;> omega

/-- The majors covered have lists. -/
theorem Fits.covers_lt {m : Mapping} (h : m.Fits) {i : Nat} (hi : m.Covers i) :
    i < deviceMaxNum := by
  have hcnt := h.majorCnt_eq
  have hhi := hi.2
  have hrange := h.1
  have hend := h.2
  unfold deviceMaxNum at hend ⊢
  omega

theorem Fits.majorCnt_pos {m : Mapping} (h : m.Fits) : 0 < majorCnt m.devNum m.range := by
  rw [h.majorCnt_eq]
  exact Nat.succ_pos _

/-- The list for an element of the array. -/
theorem Fits.probeIndex_eq {m : Mapping} (h : m.Fits) {i : Nat}
    (hi : i < majorCnt m.devNum m.range) :
    ((probeIndex m.devNum i : Fin deviceMaxNum) : Nat) = m.devNum / 2 ^ 20 + i := by
  have hlt := h.covers_lt (i := m.devNum / 2 ^ 20 + i) ⟨by omega, by omega⟩
  unfold deviceMaxNum at hlt
  unfold probeIndex
  rw [h.firstMajor_eq, add32_of_lt (by omega)]
  exact Nat.mod_eq_of_lt hlt

/-- The list a number is looked up in has a probe of the range it is in. -/
theorem Fits.covers_of_holds {m : Mapping} (h : m.Fits) {d : Nat} (hd : m.nums.Holds d) :
    m.Covers (d / 2 ^ 20) := by
  have hcnt := h.majorCnt_eq
  have hlo : m.devNum ≤ d := hd.1
  have hhi : d < m.devNum + m.range := hd.2
  have hend := h.2
  unfold deviceMaxNum at hend
  unfold Covers
  omega

theorem Fits.holds_probeOf {m : Mapping} (h : m.Fits) (i d : Nat) :
    (m.probeOf i).holds d = true ↔ m.nums.Holds d := by
  have hrange := h.1
  have hend := h.2
  unfold deviceMaxNum at hend
  have hlast : sub32 (add32 m.devNum m.range) 1 = m.devNum + m.range - 1 := by
    rw [add32_of_lt (by omega), sub32_of_le (by omega) (by omega)]
  show (decide (m.devNum ≤ d) && decide (d ≤ sub32 (add32 m.devNum m.range) 1)) = true ↔
    m.devNum ≤ d ∧ d < m.devNum + m.range
  rw [hlast, Bool.and_eq_true, decide_eq_true_iff, decide_eq_true_iff]
  omega

theorem mem_probe {m : Mapping} {i : Nat} {probe : FwkProbes} :
    m.probe i = some probe ↔ m.Covers i ∧ probe = m.probeOf i := by
  unfold Mapping.probe
  by_cases h : m.Covers i
  · simp [h, eq_comm]
  · simp [h]

end Mapping

/-! ## The loops over the majors -/

/-- Threading the first elements of an array changes the lists of their majors only. -/
theorem mapLoop_apply {m : Mapping} (hm : m.Fits) (lists : ProbeLists) {n : Nat}
    (hn : n ≤ majorCnt m.devNum m.range) (j : Fin deviceMaxNum) :
    mapLoop m.block.base m.devNum m.range m.data lists n j =
      if m.devNum / 2 ^ 20 ≤ j ∧ j < m.devNum / 2 ^ 20 + n then
        insertProbe (m.probeOf j) (lists j)
      else lists j := by
  induction n with
  | zero => rw [if_neg (by omega), mapLoop]
  | succ n ih =>
    have hindex := hm.probeIndex_eq hn
    rw [mapLoop]
    by_cases hj : j = probeIndex m.devNum n
    · have hval : (j : Nat) = m.devNum / 2 ^ 20 + n := by rw [hj, hindex]
      have hsub : (j : Nat) - m.devNum / 2 ^ 20 = n := by omega
      rw [← hj, Function.update_self, ih (by omega), if_neg (by omega), if_pos (by omega),
        Mapping.probeOf, hsub]
    · have hval : (j : Nat) ≠ m.devNum / 2 ^ 20 + n := fun h => hj (Fin.ext (h.trans hindex.symm))
      rw [Function.update_of_ne hj, ih (by omega)]
      exact if_congr (by omega) rfl rfl

/-- Where no list has a probe of the range, nothing is found and nothing changes. -/
theorem unmapLoop_absent {devNum range : Nat} {lists : ProbeLists}
    (h : ∀ j, ∀ probe ∈ lists j, ¬ probe.isRange devNum range = true) (n : Nat) :
    unmapLoop devNum range lists n = (lists, none) := by
  induction n with
  | zero => rfl
  | succ n ih =>
    rw [unmapLoop, ih]
    dsimp only
    rw [List.eraseP_of_forall_not (h _), Function.update_eq_self, List.find?_eq_none.mpr (h _)]
    rfl

/-- Unmapping takes a probe off the lists of the first majors, and the probe it remembers is the one
found in the first of them. -/
theorem unmapLoop_apply {m : Mapping} (hm : m.Fits) {lists : ProbeLists} {i : Fin deviceMaxNum}
    {probe : FwkProbes} (hi : (i : Nat) = m.devNum / 2 ^ 20)
    (hfind : (lists i).find? (FwkProbes.isRange m.devNum m.range) = some probe) {n : Nat}
    (hn : n ≤ majorCnt m.devNum m.range) :
    (∀ j : Fin deviceMaxNum, (unmapLoop m.devNum m.range lists n).1 j =
      if m.devNum / 2 ^ 20 ≤ j ∧ j < m.devNum / 2 ^ 20 + n then
        (lists j).eraseP (FwkProbes.isRange m.devNum m.range)
      else lists j) ∧
      (0 < n → (unmapLoop m.devNum m.range lists n).2 = some probe) := by
  induction n with
  | zero =>
    refine ⟨fun j => ?_, fun h => absurd h (Nat.lt_irrefl 0)⟩
    rw [if_neg (by omega), unmapLoop]
  | succ n ih =>
    obtain ⟨hlists, hrlt⟩ := ih (by omega)
    have hindex := hm.probeIndex_eq hn
    constructor
    · intro j
      show Function.update _ _ _ j = _
      by_cases hj : j = probeIndex m.devNum n
      · have hval : (j : Nat) = m.devNum / 2 ^ 20 + n := by rw [hj, hindex]
        rw [← hj, Function.update_self, hlists, if_neg (by omega), if_pos (by omega)]
      · have hval : (j : Nat) ≠ m.devNum / 2 ^ 20 + n := fun h => hj (Fin.ext (h.trans hindex.symm))
        rw [Function.update_of_ne hj, hlists]
        exact if_congr (by omega) rfl rfl
    · intro _
      show ((unmapLoop m.devNum m.range lists n).2 <|> _) = some probe
      cases n with
      | zero =>
        have hfirst : probeIndex m.devNum 0 = i := Fin.ext (by rw [hindex, hi]; rfl)
        show (none <|> (lists _).find? _) = _
        rw [hfirst, hfind]
        rfl
      | succ n =>
        rw [hrlt (Nat.succ_pos n)]
        rfl

/-! ## What every call keeps -/

/-- A domain, next to the ranges that are mapped in it. -/
structure KobjRun where
  domain : FwkKobjMap
  mapped : List Mapping

def KobjRun.start : KobjRun := ⟨fwkKobjmapInit, []⟩

/-- The ranges are apart, and so are their blocks; the lists have their probes and the heap has their
blocks. -/
structure KobjRun.Kept (s : KobjRun) : Prop where
  fits : ∀ m ∈ s.mapped, m.Fits
  apart : s.mapped.Pairwise fun m m' => m.nums.Apart m'.nums
  size : ∀ m ∈ s.mapped, m.block.count = probesSize * majorCnt m.devNum m.range
  blocks : s.mapped.Pairwise fun m m' => m.block.Apart m'.block
  heap : s.domain.heap = s.mapped.map Mapping.block
  lists : ∀ i, (s.domain.sprtProbes i).Perm (s.mapped.filterMap fun m => m.probe i)

namespace KobjRun

theorem start_kept : start.Kept where
  fits := fun _ h => absurd h List.not_mem_nil
  apart := List.Pairwise.nil
  size := fun _ h => absurd h List.not_mem_nil
  blocks := List.Pairwise.nil
  heap := rfl
  lists := fun _ => List.Perm.refl []

/-- A probe on a list is that of a mapped range. -/
theorem Kept.mem_list {s : KobjRun} (h : s.Kept) {i : Fin deviceMaxNum} {probe : FwkProbes} :
    probe ∈ s.domain.sprtProbes i ↔ ∃ m ∈ s.mapped, m.Covers i ∧ probe = m.probeOf i := by
  rw [(h.lists i).mem_iff, List.mem_filterMap]
  simp only [Mapping.mem_probe]

/-- A number is in one mapped range at most. -/
theorem Kept.eq_of_holds {s : KobjRun} (h : s.Kept) {m m' : Mapping} (hm : m ∈ s.mapped)
    (hm' : m' ∈ s.mapped) {d : Nat} (hd : m.nums.Holds d) (hd' : m'.nums.Holds d) : m = m' :=
  Range.eq_of_holds h.apart hm hm' hd hd'

/-- The mapping of a range is determined by it. -/
theorem Kept.eq_of_isRange {s : KobjRun} (h : s.Kept) {m m' : Mapping} (hm : m ∈ s.mapped)
    (hm' : m' ∈ s.mapped) (heq : m'.isRange m.devNum m.range = true) : m = m' := by
  obtain ⟨hdev, hrange⟩ := Mapping.isRange_iff.mp heq
  have hpos := (h.fits m hm).1
  refine h.eq_of_holds hm hm' (d := m.devNum) ⟨Nat.le_refl _, Nat.lt_add_of_pos_right hpos⟩ ?_
  show m'.devNum ≤ m.devNum ∧ m.devNum < m'.devNum + m'.range
  omega

/-- The first byte of a block is in it. -/
theorem Kept.block_holds {s : KobjRun} (h : s.Kept) {m : Mapping} (hm : m ∈ s.mapped) :
    m.block.Holds m.block.base := by
  have hpos := (h.fits m hm).majorCnt_pos
  have hsize := h.size m hm
  unfold probesSize at hsize
  unfold Range.Holds
  omega

/-! ## Looking up -/

/-- **A number of a mapped range.** -/
theorem Kept.lookup_mapped {s : KobjRun} (h : s.Kept) {m : Mapping} (hm : m ∈ s.mapped) {d : Nat}
    (hd : m.nums.Holds d) : fwkKobjmapLookup s.domain d = m.data := by
  have hcovers := (h.fits m hm).covers_of_holds hd
  have hindex : ((Fin.ofNat deviceMaxNum (getDevMajor d) : Fin deviceMaxNum) : Nat) = d / 2 ^ 20 := by
    rw [getDevMajor_eq]
    exact Nat.mod_eq_of_lt ((h.fits m hm).covers_lt hcovers)
  unfold fwkKobjmapLookup
  cases hfind : (s.domain.sprtProbes (Fin.ofNat deviceMaxNum (getDevMajor d))).find?
      (FwkProbes.holds d) with
  | none =>
    have hmem : m.probeOf (d / 2 ^ 20) ∈
        s.domain.sprtProbes (Fin.ofNat deviceMaxNum (getDevMajor d)) :=
      h.mem_list.mpr ⟨m, hm, by rwa [hindex], by rw [hindex]⟩
    exact absurd (((h.fits m hm).holds_probeOf _ d).mpr hd) (List.find?_eq_none.mp hfind _ hmem)
  | some probe =>
    obtain ⟨m', hm', -, rfl⟩ := h.mem_list.mp (List.mem_of_find?_eq_some hfind)
    have hd' := ((h.fits m' hm').holds_probeOf _ d).mp (List.find?_some hfind)
    rw [h.eq_of_holds hm hm' hd hd']
    rfl

/-- **A number of no mapped range.** -/
theorem Kept.lookup_unmapped {s : KobjRun} (h : s.Kept) {d : Nat}
    (hd : ∀ m ∈ s.mapped, ¬ m.nums.Holds d) : fwkKobjmapLookup s.domain d = 0 := by
  have hnone : (s.domain.sprtProbes (Fin.ofNat deviceMaxNum (getDevMajor d))).find?
      (FwkProbes.holds d) = none := by
    refine List.find?_eq_none.mpr fun probe hprobe hholds => ?_
    obtain ⟨m, hm, -, rfl⟩ := h.mem_list.mp hprobe
    exact hd m hm (((h.fits m hm).holds_probeOf _ d).mp hholds)
  rw [fwkKobjmapLookup, hnone]

/-! ## Mapping -/

/-- A new range that is apart from the mapped ones, in memory that is not in use. -/
theorem Kept.map {s : KobjRun} (h : s.Kept) {m : Mapping} (hm : m.Fits)
    (hapart : ∀ m' ∈ s.mapped, m.nums.Apart m'.nums)
    (hsize : m.block.count = probesSize * majorCnt m.devNum m.range)
    (hfresh : ∀ m' ∈ s.mapped, m.block.Apart m'.block) :
    KobjRun.Kept
      ⟨⟨mapLoop m.block.base m.devNum m.range m.data s.domain.sprtProbes
          (majorCnt m.devNum m.range), m.block :: s.domain.heap⟩, m :: s.mapped⟩ where
  fits := List.forall_mem_cons.mpr ⟨hm, h.fits⟩
  apart := List.pairwise_cons.mpr ⟨hapart, h.apart⟩
  size := List.forall_mem_cons.mpr ⟨hsize, h.size⟩
  blocks := List.pairwise_cons.mpr ⟨hfresh, h.blocks⟩
  heap := by rw [h.heap]; rfl
  lists := by
    intro i
    show (mapLoop _ _ _ _ _ _ i).Perm ((m :: s.mapped).filterMap _)
    rw [mapLoop_apply hm _ (Nat.le_refl _), List.filterMap_cons]
    by_cases hi : m.Covers i
    · rw [if_pos (by exact hi), Mapping.probe, if_pos hi]
      exact (List.perm_orderedInsert _ _ _).trans ((h.lists i).cons _)
    · rw [if_neg (by exact hi), Mapping.probe, if_neg hi]
      exact h.lists i

/-! ## Unmapping -/

/-- A range that is not mapped. -/
theorem Kept.unmap_absent {s : KobjRun} (h : s.Kept) {devNum range : Nat}
    (habsent : ∀ m ∈ s.mapped, ¬ m.isRange devNum range = true) :
    fwkKobjUnmap s.domain devNum range = .ok (erNormal, s.domain) := by
  have hnone : ∀ j, ∀ probe ∈ s.domain.sprtProbes j, ¬ probe.isRange devNum range = true := by
    intro j probe hprobe
    obtain ⟨m, hm, -, rfl⟩ := h.mem_list.mp hprobe
    exact habsent m hm
  rw [fwkKobjUnmap, unmapLoop_absent hnone]

/-- A list has one probe of the range. -/
theorem Kept.probe_unique {s : KobjRun} (h : s.Kept) {m : Mapping} (hm : m ∈ s.mapped)
    {i : Fin deviceMaxNum} {probe : FwkProbes} (hprobe : probe ∈ s.domain.sprtProbes i)
    (hrange : probe.isRange m.devNum m.range = true) : probe = m.probeOf i := by
  obtain ⟨m', hm', -, rfl⟩ := h.mem_list.mp hprobe
  rw [h.eq_of_isRange hm hm' hrange]

theorem isRange_probeOf (m : Mapping) (i : Nat) :
    (m.probeOf i).isRange m.devNum m.range = true := Mapping.isRange_iff.mpr ⟨rfl, rfl⟩

/-- What is found in a list of the range is its probe. -/
theorem Kept.find_probe {s : KobjRun} (h : s.Kept) {m : Mapping} (hm : m ∈ s.mapped)
    {i : Fin deviceMaxNum} (hi : m.Covers i) :
    (s.domain.sprtProbes i).find? (FwkProbes.isRange m.devNum m.range) = some (m.probeOf i) := by
  cases hfind : (s.domain.sprtProbes i).find? (FwkProbes.isRange m.devNum m.range) with
  | none =>
    have hmem := h.mem_list.mpr ⟨m, hm, hi, rfl⟩
    exact absurd (isRange_probeOf m i) (List.find?_eq_none.mp hfind _ hmem)
  | some probe =>
    rw [h.probe_unique hm (List.mem_of_find?_eq_some hfind) (List.find?_some hfind)]

/-- Taking the probe of the range off a list. -/
theorem Kept.erase_probe {s : KobjRun} (h : s.Kept) {m : Mapping} {l₁ l₂ : List Mapping}
    (hmapped : s.mapped = l₁ ++ m :: l₂) {i : Fin deviceMaxNum} (hi : m.Covers i) :
    ((s.domain.sprtProbes i).eraseP (FwkProbes.isRange m.devNum m.range)).Perm
      ((l₁ ++ l₂).filterMap fun m => m.probe i) := by
  have hm : m ∈ s.mapped := by simp [hmapped]
  have hmem := h.mem_list.mpr ⟨m, hm, hi, rfl⟩
  obtain ⟨probe, k₁, k₂, -, hprobe, hsplit, herase⟩ :=
    List.exists_of_eraseP hmem (isRange_probeOf m i)
  obtain rfl : probe = m.probeOf i := h.probe_unique hm (by simp [hsplit]) hprobe
  have hcover : m.probe i = some (m.probeOf i) := if_pos hi
  have hlists := h.lists i
  rw [hmapped, hsplit, List.filterMap_append, List.filterMap_cons, hcover] at hlists
  rw [herase, List.filterMap_append]
  exact (List.perm_middle.symm.trans (hlists.trans List.perm_middle)).cons_inv

/-- The block of the range is freed, and only that. -/
theorem Kept.free_block {s : KobjRun} (h : s.Kept) {m : Mapping} {l₁ l₂ : List Mapping}
    (hmapped : s.mapped = l₁ ++ m :: l₂) :
    kfreeBlock s.domain.heap m.block.base = .ok ((l₁ ++ l₂).map Mapping.block) := by
  have hblocks := h.blocks
  rw [hmapped] at hblocks
  have hfront : ∀ block ∈ l₁.map Mapping.block, ¬ decide (block.base = m.block.base) = true := by
    intro block hblock
    obtain ⟨m', hm', rfl⟩ := List.mem_map.mp hblock
    have hapart := (List.pairwise_append.mp hblocks).2.2 m' hm' m List.mem_cons_self
    rw [decide_eq_true_iff]
    intro heq
    refine hapart.not_holds (h.block_holds (by simp [hmapped, hm'])) ?_
    rw [heq]
    exact h.block_holds (by simp [hmapped])
  rw [kfreeBlock, h.heap, hmapped, List.map_append, List.map_cons, if_pos (by simp),
    List.eraseP_append_right _ hfront, List.eraseP_cons_of_pos (by simp), List.map_append]

/-- A range that is mapped. -/
theorem Kept.unmap_present {s : KobjRun} (h : s.Kept) {m : Mapping} {l₁ l₂ : List Mapping}
    (hmapped : s.mapped = l₁ ++ m :: l₂) :
    ∃ domain, fwkKobjUnmap s.domain m.devNum m.range = .ok (erNormal, domain) ∧
      KobjRun.Kept ⟨domain, l₁ ++ l₂⟩ := by
  have hm : m ∈ s.mapped := by simp [hmapped]
  have hfits := h.fits m hm
  have hfirst : m.Covers (m.devNum / 2 ^ 20) :=
    ⟨Nat.le_refl _, Nat.lt_add_of_pos_right hfits.majorCnt_pos⟩
  have hfind := h.find_probe hm (i := ⟨m.devNum / 2 ^ 20, hfits.covers_lt hfirst⟩) hfirst
  obtain ⟨hlists, hrlt⟩ := unmapLoop_apply hfits rfl hfind (Nat.le_refl _)
  have hbase : (m.probeOf (m.devNum / 2 ^ 20)).addr = m.block.base := by
    rw [Mapping.probeOf, Nat.sub_self, Nat.zero_mul, Nat.add_zero]
  have hsub : (l₁ ++ l₂).Sublist s.mapped := by simp [hmapped]
  refine ⟨⟨(unmapLoop m.devNum m.range s.domain.sprtProbes (majorCnt m.devNum m.range)).1,
    (l₁ ++ l₂).map Mapping.block⟩, ?_, ?_⟩
  · rw [fwkKobjUnmap]
    cases hloop : unmapLoop m.devNum m.range s.domain.sprtProbes (majorCnt m.devNum m.range) with
    | mk lists sprtRlt =>
      rw [hloop] at hrlt
      obtain rfl : sprtRlt = _ := hrlt hfits.majorCnt_pos
      simp only [hbase, h.free_block hmapped, bind, Except.bind]
  · refine ⟨fun m' hm' => h.fits m' (hsub.subset hm'), h.apart.sublist hsub,
      fun m' hm' => h.size m' (hsub.subset hm'), h.blocks.sublist hsub, rfl, fun i => ?_⟩
    show ((unmapLoop m.devNum m.range s.domain.sprtProbes (majorCnt m.devNum m.range)).1 i).Perm _
    rw [hlists]
    by_cases hi : m.Covers i
    · rw [if_pos (by exact hi)]
      exact h.erase_probe hmapped hi
    · rw [if_neg (by exact hi)]
      have hlist := h.lists i
      have hcover : m.probe i = none := if_neg hi
      rwa [hmapped, List.filterMap_append, List.filterMap_cons, hcover,
        ← List.filterMap_append] at hlist

end KobjRun

/-! ## Any sequence of calls -/

/-- A call, with its arguments and with what the allocator returns. -/
inductive KobjCall where
  | map (devNum range data kzalloc : UInt32)
  | unmap (devNum range : UInt32)
  deriving DecidableEq, Repr

/-- What a call with these arguments maps. -/
def newMapping (devNum range data kzalloc : Nat) : Mapping where
  devNum := devNum
  range := range
  data := data
  block := ⟨kzalloc, probesSize * majorCnt devNum range⟩

/-- The call on the domain, and what it means for the mapped ranges: a range with data is mapped
unless there is no memory for it, and a mapped range is unmapped. -/
def kobjStep (s : KobjRun) : KobjCall → Option KobjRun
  | .map devNum range data kzalloc =>
    some ⟨(fwkKobjMap kzalloc.toNat s.domain devNum.toNat range.toNat data.toNat).2,
      if isValid data.toNat && isValid kzalloc.toNat then
        newMapping devNum.toNat range.toNat data.toNat kzalloc.toNat :: s.mapped
      else s.mapped⟩
  | .unmap devNum range =>
    match fwkKobjUnmap s.domain devNum.toNat range.toNat with
    | .error _ => none
    | .ok r => some ⟨r.2, s.mapped.eraseP (Mapping.isRange devNum.toNat range.toNat)⟩

/-- What is mapped is apart from what is mapped already, and what is allocated was not in use. -/
def KobjCall.Allowed (s : KobjRun) : KobjCall → Prop
  | .map devNum range data kzalloc =>
    let m := newMapping devNum.toNat range.toNat data.toNat kzalloc.toNat
    isValid data.toNat = true → isValid kzalloc.toNat = true →
      m.Fits ∧ (∀ m' ∈ s.mapped, m.nums.Apart m'.nums) ∧
        ∀ block ∈ s.domain.heap, m.block.Apart block
  | .unmap _ _ => True

instance (s : KobjRun) : (call : KobjCall) → Decidable (call.Allowed s)
  | .map _ _ _ _ => inferInstanceAs (Decidable (_ → _ → _ ∧ _ ∧ _))
  | .unmap _ _ => isTrue trivial

/-- **One call.** -/
theorem kobjStep_kept (s : KobjRun) (call : KobjCall) (hs : s.Kept) (h : call.Allowed s) :
    ∃ s', kobjStep s call = some s' ∧ s'.Kept := by
  cases call with
  | map devNum range data kzalloc =>
    refine ⟨_, rfl, ?_⟩
    unfold fwkKobjMap
    cases hdata : isValid data.toNat with
    | false => exact hs
    | true =>
      cases hmem : isValid kzalloc.toNat with
      | false => exact hs
      | true =>
        obtain ⟨hfits, hapart, hfresh⟩ := h hdata hmem
        refine hs.map hfits hapart rfl fun m' hm' => hfresh _ ?_
        rw [hs.heap]
        exact List.mem_map_of_mem hm'
  | unmap devNum range =>
    by_cases hmapped : ∃ m ∈ s.mapped, m.isRange devNum.toNat range.toNat = true
    · obtain ⟨m, hm, hrange⟩ := hmapped
      obtain ⟨m, l₁, l₂, -, hrange, hsplit, herase⟩ := List.exists_of_eraseP hm hrange
      obtain ⟨hdev, hrng⟩ := Mapping.isRange_iff.mp hrange
      obtain ⟨domain, hcall, hkept⟩ := hs.unmap_present hsplit
      rw [hdev, hrng] at hcall
      exact ⟨⟨domain, l₁ ++ l₂⟩, by rw [kobjStep, hcall, herase], hkept⟩
    · have habsent : ∀ m ∈ s.mapped, ¬ m.isRange devNum.toNat range.toNat = true :=
        fun m hm hrange => hmapped ⟨m, hm, hrange⟩
      refine ⟨s, ?_, hs⟩
      rw [kobjStep, hs.unmap_absent habsent, List.eraseP_of_forall_not habsent]

/-- The domain finds what is mapped and nothing else, all its probes are in the blocks of mapped
ranges, and these blocks are all that is in use. -/
structure KobjRun.Refines (s : KobjRun) : Prop where
  lookup_mapped : ∀ m ∈ s.mapped, ∀ d, m.nums.Holds d → fwkKobjmapLookup s.domain d = m.data
  lookup_unmapped : ∀ d, (∀ m ∈ s.mapped, ¬ m.nums.Holds d) → fwkKobjmapLookup s.domain d = 0
  heap : s.domain.heap = s.mapped.map Mapping.block
  live : ∀ i, ∀ probe ∈ s.domain.sprtProbes i, ∃ block ∈ s.domain.heap,
    block.base ≤ probe.addr ∧ probe.addr + probesSize ≤ block.base + block.count

theorem KobjRun.Kept.refines {s : KobjRun} (h : s.Kept) : s.Refines where
  lookup_mapped := fun _ hm _ hd => h.lookup_mapped hm hd
  lookup_unmapped := fun _ hd => h.lookup_unmapped hd
  heap := h.heap
  live := by
    intro i probe hprobe
    obtain ⟨m, hm, hcovers, rfl⟩ := h.mem_list.mp hprobe
    refine ⟨m.block, by rw [h.heap]; exact List.mem_map_of_mem hm, ?_⟩
    have hsize := h.size m hm
    have hlo := hcovers.1
    have hhi := hcovers.2
    unfold probesSize at hsize
    unfold Mapping.probeOf probesSize
    dsimp only
    omega

/-- **The domain is the set of the mapped ranges.**  All along any sequence of calls looking up a
number gives the data of the mapped range that contains it, and null if there is none; and what is
in use is the blocks of the mapped ranges, so unmapping one frees its block and nothing else. -/
theorem kobjmap_refines (calls : List KobjCall)
    (h : Meets kobjStep (fun s call => call.Allowed s) .start calls) :
    (∃ s, exec kobjStep .start calls = some s) ∧ Always kobjStep KobjRun.Refines .start calls := by
  have hrun := run_of_meets kobjStep_kept KobjRun.start_kept h
  exact ⟨hrun.1, Always.imp (fun _ hs => hs.refines) hrun.2⟩

/-- A range over three majors, one behind it in the last of them, one there is no memory for, and the
first one unmapped. -/
theorem kobjmap_refines_example :
    (∃ s, exec kobjStep .start
      [.map 0x2ffff0 0x100020 0x71000 0x72000, .map 0x400020 8 0x71100 0x72100, .map 0x500000 8 0x71200 0,
        .unmap 0x2ffff0 0x100020] = some s) ∧
    Always kobjStep KobjRun.Refines .start
      [.map 0x2ffff0 0x100020 0x71000 0x72000, .map 0x400020 8 0x71100 0x72100, .map 0x500000 8 0x71200 0,
        .unmap 0x2ffff0 0x100020] :=
  kobjmap_refines _ (by decide)

end HeavenFox.Platform
