/-
# HeavenFox.Common.MemPrimitives -- when `mem_manage.h` does what it is for

What is expected of the three functions, on ranges that do not wrap around and lie outside the
variables of the function; and, for each, exactly when it is so.

`memory_set` misses null pointers and ranges that end with the last byte of memory.  `memory_copy`
returns the pointer that its listing has advanced and stored back, the end of the range and not its
beginning.  `memory_compare` stores a word to the address of a byte: where the bytes differ, it
writes the three bytes behind `flag` as well.
-/
import HeavenFox.Common.MemManageRuns

namespace HeavenFox.Common

open HeavenFox.Logic

/-! ## What a call leaves alone -/

section Framed

variable {rounds : Nat} {m : Mem}

theorem inlineAsm_framed {listing : Listing} {s t : Cpu} (h : s.Framed m)
    (hcall : inlineAsm listing rounds s = .ok t) : t.Framed m := by
  unfold inlineAsm at hcall
  split at hcall
  · cases hcall
  · rename_i hrun
    cases hcall
    exact Listing.run_framed h hrun

/-- **`memory_set`** leaves alone what is not in its log. -/
theorem memorySet_framed {v : SetVars} {dest size : Nat} {data : UInt8} {done : MemDone Unit}
    (h : memorySet v rounds m dest data size = .ok done) :
    ∀ a, a ∉ done.wrote → done.mem a = m a := by
  unfold memorySet at h
  split at h
  · cases h
    exact fun _ _ => rfl
  · obtain ⟨t, hcall, h⟩ := except_bind.mp h
    cases h
    exact inlineAsm_framed ((Cpu.framed_enter _ m).storeWord _ _) hcall

/-- **`memory_copy`** leaves alone what is not in its log. -/
theorem memoryCopy_framed {v : CopyVars} {dest src size : Nat} {done : MemDone Nat}
    (h : memoryCopy v rounds m dest src size = .ok done) :
    ∀ a, a ∉ done.wrote → done.mem a = m a := by
  unfold memoryCopy at h
  split at h
  · cases h
    exact fun _ _ => rfl
  · obtain ⟨t, hcall, h⟩ := except_bind.mp h
    cases h
    exact inlineAsm_framed (((Cpu.framed_enter _ m).storeWord _ _).storeWord _ _) hcall

/-- **`memory_compare`** leaves alone what is not in its log. -/
theorem memoryCompare_framed {v : CompareVars} {s1 s2 size : Nat} {done : MemDone UInt8}
    (h : memoryCompare v rounds m s1 s2 size = .ok done) :
    ∀ a, a ∉ done.wrote → done.mem a = m a := by
  obtain ⟨t, hcall, h⟩ := except_bind.mp h
  cases h
  exact inlineAsm_framed
    ((((Cpu.framed_enter _ m).storeByte _ _).storeWord _ _).storeWord _ _) hcall

end Framed

/-! ## What is expected -/

/-- A range of memory that does not wrap around. -/
structure Fits (base size : Nat) : Prop where
  base_lt : base < 2 ^ 32
  size_lt : size < 2 ^ 32
  fits : base + size ≤ 2 ^ 32

/-- No byte of the range is one of `own`. -/
def Outside (own : Nat → Prop) (base size : Nat) : Prop := ∀ i < size, ¬ own (base + i)

section Expected

variable (others : Nat → Prop) (m : Mem)

/-- `memory_set` gives each byte of the range the value, and writes nothing besides them but its own
variables. -/
def SetMeets (v : SetVars) (dest : Nat) (data : UInt8) (size : Nat) : Prop :=
  ∃ done, TerminatesWith (fun rounds => memorySet v rounds m dest data size) done ∧
    (∀ i < size, done.mem (dest + i) = data) ∧
    ∀ a, ¬ v.Own others a → (a ∈ done.wrote ↔ dest ≤ a ∧ a < dest + size)

/-- `memory_copy` gives the bytes of the one range those of the other, changes nothing else but its
own variables, and returns `dest`. -/
def CopyMeets (v : CopyVars) (dest src size : Nat) : Prop :=
  ∃ done, TerminatesWith (fun rounds => memoryCopy v rounds m dest src size) done ∧
    (∀ i < size, done.mem (dest + i) = m (src + i)) ∧
    (∀ a, ¬ v.Own others a → ¬ (dest ≤ a ∧ a < dest + size) → done.mem a = m a) ∧
    done.ret = dest

/-- `memory_compare` returns 0 exactly for equal ranges, and writes nothing but its own variables. -/
def CompareMeets (v : CompareVars) (s1 s2 size : Nat) : Prop :=
  ∃ done, TerminatesWith (fun rounds => memoryCompare v rounds m s1 s2 size) done ∧
    (done.ret = 0 ↔ ∀ i < size, m (s1 + i) = m (s2 + i)) ∧
    ∀ a ∈ done.wrote, v.Own others a

end Expected

/-! ## When it is so -/

section Meets

variable {others : Nat → Prop} {m : Mem} {base dest src s1 s2 size : Nat} {data : UInt8}

/-- How many bytes a loop sees that begins at `base`. -/
theorem loop_count (h : Fits base size) :
    add32 base size - base = if base + size < 2 ^ 32 then size else 0 := by
  have hfits := h.fits
  split
  · rename_i hlt
    rw [add32_of_lt hlt, Nat.add_sub_cancel_left]
  · have hend : base + size = 2 ^ 32 := by omega
    rw [add32, hend, Nat.mod_self, Nat.zero_sub]

theorem loop_count_le (h : Fits base size) : add32 base size - base ≤ size := by
  rw [loop_count h]
  split
  · exact Nat.le_refl size
  · exact Nat.zero_le size

/-- Ranges outside the variables of `memory_copy`. -/
theorem copyApart_of_outside {v : CopyVars} (hdest : Fits dest size) (hsrc : Fits src size)
    (hranges : dest + size ≤ src ∨ src + size ≤ dest) (hsrcOwn : Outside (v.Own others) src size) :
    CopyApart v dest src (add32 src size - src) := by
  have hle := loop_count_le hsrc
  have hfits := hdest.fits
  refine ⟨by omega, by omega, fun i hi => ⟨fun hword => ?_, fun hword => ?_⟩⟩
  · exact hsrcOwn i (by omega) (Or.inl hword)
  · exact hsrcOwn i (by omega) (Or.inr (Or.inl hword))

/-- Ranges outside the variables of `memory_compare`. -/
theorem compareApart_of_outside {v : CompareVars} (h1 : Fits s1 size) (h2 : Fits s2 size)
    (hown1 : Outside (v.Own others) s1 size) (hown2 : Outside (v.Own others) s2 size) :
    CompareApart v s1 s2 (add32 s2 size - s2) := by
  have hle := loop_count_le h2
  have hfits := h1.fits
  have hvars : ∀ {a}, ¬ v.Own others a →
      a ≠ v.flag ∧ ¬ WordAt v.s1Addr a ∧ ¬ WordAt v.s2Addr a := fun hnot =>
    ⟨fun heq => hnot (Or.inl heq), fun hword => hnot (Or.inr (Or.inl hword)),
      fun hword => hnot (Or.inr (Or.inr (Or.inl hword)))⟩
  exact ⟨by omega, fun i hi => hvars (hown1 i (by omega)), fun i hi => hvars (hown2 i (by omega))⟩

/-- A call of `memory_set` with a null pointer writes nothing. -/
theorem memorySet_null_iff (v : SetVars) (hdest : dest = 0)
    (hown : Outside (v.Own others) dest size) :
    SetMeets others m v dest data size ↔ size = 0 := by
  have hnull : TerminatesWith (fun rounds => memorySet v rounds m dest data size) ⟨(), m, []⟩ :=
    ⟨0, fun rounds _ => if_pos hdest⟩
  constructor
  · rintro ⟨done, hdone, -, hwrote⟩
    refine Nat.eq_zero_of_not_pos fun hpos => ?_
    -- the first byte of the range would have been written
    have hin := (hwrote (dest + 0) (hown 0 hpos)).mpr ⟨Nat.le_refl _, by omega⟩
    rw [hdone.unique hnull] at hin
    exact List.not_mem_nil hin
  · rintro rfl
    exact ⟨_, hnull, fun i hi => absurd hi (Nat.not_lt_zero i), fun a _ =>
      iff_of_false List.not_mem_nil (by omega)⟩

/-- **`memory_set`** does what is expected for ranges without a byte, and for pointers that are not
null to ranges that end below the last byte of memory. -/
theorem memorySet_iff (v : SetVars) (hfits : Fits dest size)
    (hown : Outside (v.Own others) dest size) :
    SetMeets others m v dest data size ↔ size = 0 ∨ dest ≠ 0 ∧ dest + size < 2 ^ 32 := by
  by_cases hdest : dest = 0
  · rw [memorySet_null_iff v hdest hown]
    exact (or_iff_left fun h => h.1 hdest).symm
  · obtain ⟨done, hdone, hfilled, hwrote⟩ :=
      memorySet_run (v := v) m data size hdest hfits.base_lt
    rw [loop_count hfits] at hfilled hwrote
    constructor
    · rintro ⟨done', hdone', -, hwrote'⟩
      by_contra hnot
      obtain ⟨hpos, hend⟩ : 0 < size ∧ ¬ dest + size < 2 ^ 32 := by omega
      rw [if_neg hend] at hwrote
      have hin := (hwrote' (dest + 0) (hown 0 hpos)).mpr ⟨Nat.le_refl _, by omega⟩
      rw [hdone'.unique hdone, hwrote] at hin
      rcases hin with hword | hrange
      · exact hown 0 hpos (Or.inl hword)
      · omega
    · intro hcond
      have hcount : (if dest + size < 2 ^ 32 then size else 0) = size := by
        split
        · rfl
        · omega
      rw [hcount] at hfilled hwrote
      refine ⟨done, hdone, fun i hi => hfilled i hi fun hword => hown i hi (Or.inl hword),
        fun a ha => ?_⟩
      rw [hwrote]
      exact or_iff_right fun hword => ha (Or.inl hword)

/-- A call of `memory_copy` with a null pointer returns null and changes nothing. -/
theorem memoryCopy_null_iff (v : CopyVars) (hnull : dest = 0 ∨ src = 0) :
    CopyMeets others m v dest src size ↔ (∀ i < size, m (dest + i) = m (src + i)) ∧ dest = 0 := by
  have hcall : TerminatesWith (fun rounds => memoryCopy v rounds m dest src size) ⟨0, m, []⟩ :=
    ⟨0, fun rounds _ => if_pos hnull⟩
  constructor
  · rintro ⟨done, hdone, hcopied, -, hret⟩
    rw [hdone.unique hcall] at hcopied hret
    exact ⟨hcopied, hret.symm⟩
  · rintro ⟨hsame, hzero⟩
    exact ⟨_, hcall, hsame, fun _ _ _ => rfl, hzero.symm⟩

/-- A call of `memory_copy` with two pointers: it copies what its loop sees, changes nothing else
but its own variables, and returns the end of what it has copied to. -/
theorem memoryCopy_effect (v : CopyVars) (hdestNe : dest ≠ 0) (hsrcNe : src ≠ 0)
    (hdest : Fits dest size) (hsrc : Fits src size)
    (hranges : dest + size ≤ src ∨ src + size ≤ dest)
    (hdestOwn : Outside (v.Own others) dest size) (hsrcOwn : Outside (v.Own others) src size) :
    ∃ done, TerminatesWith (fun rounds => memoryCopy v rounds m dest src size) done ∧
      done.ret = add32 dest (add32 src size - src) ∧
      (∀ i < add32 src size - src, done.mem (dest + i) = m (src + i)) ∧
      ∀ a, ¬ v.Own others a → ¬ (dest ≤ a ∧ a < dest + (add32 src size - src)) →
        done.mem a = m a := by
  have hle := loop_count_le hsrc
  obtain ⟨done, hdone, hret, hcopied, hwrote⟩ :=
    memoryCopy_run m hdestNe hsrcNe hdest.base_lt hsrc.base_lt
      (copyApart_of_outside hdest hsrc hranges hsrcOwn)
  obtain ⟨rounds, hrounds⟩ := hdone
  have hframed := memoryCopy_framed (hrounds rounds (Nat.le_refl rounds))
  refine ⟨done, ⟨rounds, hrounds⟩, hret, fun i hi => ?_, fun a ha hout => ?_⟩
  · have hnot := hdestOwn i (by omega)
    exact hcopied i hi (fun hword => hnot (Or.inl hword)) fun hword => hnot (Or.inr (Or.inl hword))
  · apply hframed
    rw [hwrote]
    rintro (hword | hword | hrange)
    · exact ha (Or.inl hword)
    · exact ha (Or.inr (Or.inl hword))
    · exact hout hrange

/-- **`memory_copy`** does what is expected where nothing is to be done: the bytes are the same
already, and the loop is not entered. -/
theorem memoryCopy_iff (v : CopyVars) (hdest : Fits dest size) (hsrc : Fits src size)
    (hranges : dest + size ≤ src ∨ src + size ≤ dest) (hdestOwn : Outside (v.Own others) dest size)
    (hsrcOwn : Outside (v.Own others) src size) :
    CopyMeets others m v dest src size ↔
      (∀ i < size, m (dest + i) = m (src + i)) ∧
        (dest = 0 ∨ src ≠ 0 ∧ (size = 0 ∨ src + size = 2 ^ 32)) := by
  by_cases hnull : dest = 0 ∨ src = 0
  · rw [memoryCopy_null_iff v hnull]
    refine and_congr_right fun _ => ⟨Or.inl, fun hcond => ?_⟩
    rcases hcond with hzero | ⟨hne, -⟩
    · exact hzero
    · exact hnull.resolve_right hne
  · obtain ⟨hdestNe, hsrcNe⟩ := not_or.mp hnull
    have hcount := loop_count hsrc
    have hle := loop_count_le hsrc
    have hbase := hdest.base_lt
    have hsize := hdest.size_lt
    obtain ⟨done, hdone, hret, -, hframe⟩ :=
      memoryCopy_effect (m := m) v hdestNe hsrcNe hdest hsrc hranges hdestOwn hsrcOwn
    -- where the loop is not entered the range keeps its bytes
    have hkept : add32 src size - src = 0 → ∀ i < size, done.mem (dest + i) = m (dest + i) :=
      fun hzero i hi => hframe _ (hdestOwn i hi) (by omega)
    constructor
    · rintro ⟨done', hdone', hsame, -, hret'⟩
      rw [hdone'.unique hdone] at hsame hret'
      have hzero : add32 src size - src = 0 := by
        rw [hret, add32] at hret'
        omega
      refine ⟨fun i hi => ?_, Or.inr ⟨hsrcNe, ?_⟩⟩
      · rw [← hkept hzero i hi]
        exact hsame i hi
      · rw [hzero] at hcount
        have hfits := hsrc.fits
        split at hcount
        · exact Or.inl hcount.symm
        · exact Or.inr (by omega)
    · rintro ⟨hsame, hcond⟩
      have hzero : add32 src size - src = 0 := by
        rw [hcount]
        split
        · omega
        · rfl
      refine ⟨done, hdone, fun i hi => ?_, fun a ha hout => hframe a ha (by omega), ?_⟩
      · rw [hkept hzero i hi]
        exact hsame i hi
      · rw [hret, hzero]
        exact add32_of_lt hbase

/-- **`memory_compare`** does what is expected for equal ranges, and where the three bytes behind
`flag` are its own as well, for a second range that ends below the last byte of memory. -/
theorem memoryCompare_iff (v : CompareVars) (h1 : Fits s1 size) (h2 : Fits s2 size)
    (hown1 : Outside (v.Own others) s1 size) (hown2 : Outside (v.Own others) s2 size) :
    CompareMeets others m v s1 s2 size ↔
      (∀ i < size, m (s1 + i) = m (s2 + i)) ∨
        s2 + size < 2 ^ 32 ∧ v.Own others (v.flag + 1) ∧ v.Own others (v.flag + 2) ∧
          v.Own others (v.flag + 3) := by
  have hcount := loop_count h2
  have hle := loop_count_le h2
  obtain ⟨done, hdone, hret, hwrote⟩ := memoryCompare_run m h1.base_lt h2.base_lt
    (compareApart_of_outside h1 h2 hown1 hown2)
  have hsub : (∀ i < size, m (s1 + i) = m (s2 + i)) →
      ∀ i < add32 s2 size - s2, m (s1 + i) = m (s2 + i) := fun hall i hi => hall i (by omega)
  constructor
  · rintro ⟨done', hdone', hret', hown⟩
    rw [hdone'.unique hdone] at hret' hown
    by_cases hall : ∀ i < size, m (s1 + i) = m (s2 + i)
    · exact Or.inl hall
    · -- the call tells the ranges apart, so it has stored to `flag`
      have hnot : ¬ ∀ i < add32 s2 size - s2, m (s1 + i) = m (s2 + i) :=
        fun hseen => hall (hret'.mp (hret.mpr hseen))
      have hflag : ∀ j < 4, v.Own others (v.flag + j) := fun j hj =>
        hown _ ((hwrote _).mpr (Or.inr (Or.inr (Or.inr ⟨hnot, by omega, by omega⟩))))
      refine Or.inr ⟨?_, hflag 1 (by decide), hflag 2 (by decide), hflag 3 (by decide)⟩
      by_contra hend
      rw [hcount, if_neg hend] at hnot
      exact hnot fun i hi => absurd hi (Nat.not_lt_zero i)
  · intro hcond
    refine ⟨done, hdone, hret.trans ⟨fun hseen => ?_, hsub⟩, fun a ha => ?_⟩
    · rcases hcond with hall | ⟨hend, -⟩
      · exact hall
      · rw [hcount, if_pos hend] at hseen
        exact hseen
    · rcases (hwrote a).mp ha with hflag | hword | hword | ⟨hnot, hlow, hhigh⟩
      · exact Or.inl hflag
      · exact Or.inr (Or.inl hword)
      · exact Or.inr (Or.inr (Or.inl hword))
      · obtain ⟨-, hb1, hb2, hb3⟩ := hcond.resolve_left fun hall => hnot (hsub hall)
        obtain rfl | rfl | rfl | rfl :
          a = v.flag ∨ a = v.flag + 1 ∨ a = v.flag + 2 ∨ a = v.flag + 3 := by omega
        · exact Or.inl rfl
        · exact hb1
        · exact hb2
        · exact hb3

/-- **The three functions** do what is expected of them, on ranges that do not wrap around and lie
outside the variables of the function, in exactly the cases named here: `memory_set` for no bytes, or
a pointer that is not null to a range that ends below the last byte of memory; `memory_copy` only
where there is nothing to copy; `memory_compare` for equal ranges, or where the three bytes behind
`flag` belong to the function. -/
theorem memoryPrimitives_iff (others : Nat → Prop) (m : Mem) (size : Nat) :
    (∀ (v : SetVars) (dest : Nat) (data : UInt8),
      Fits dest size → Outside (v.Own others) dest size →
        (SetMeets others m v dest data size ↔ size = 0 ∨ dest ≠ 0 ∧ dest + size < 2 ^ 32)) ∧
    (∀ (v : CopyVars) (dest src : Nat),
      Fits dest size → Fits src size → (dest + size ≤ src ∨ src + size ≤ dest) →
        Outside (v.Own others) dest size → Outside (v.Own others) src size →
          (CopyMeets others m v dest src size ↔
            (∀ i < size, m (dest + i) = m (src + i)) ∧
              (dest = 0 ∨ src ≠ 0 ∧ (size = 0 ∨ src + size = 2 ^ 32)))) ∧
    (∀ (v : CompareVars) (s1 s2 : Nat),
      Fits s1 size → Fits s2 size →
        Outside (v.Own others) s1 size → Outside (v.Own others) s2 size →
          (CompareMeets others m v s1 s2 size ↔
            (∀ i < size, m (s1 + i) = m (s2 + i)) ∨
              s2 + size < 2 ^ 32 ∧ v.Own others (v.flag + 1) ∧ v.Own others (v.flag + 2) ∧
                v.Own others (v.flag + 3))) := by
  refine ⟨?_, ?_, ?_⟩
  · intro v dest data hfits hown
    exact memorySet_iff v hfits hown
  · intro v dest src hdest hsrc hranges hdestOwn hsrcOwn
    exact memoryCopy_iff v hdest hsrc hranges hdestOwn hsrcOwn
  · intro v s1 s2 h1 h2 hown1 hown2
    exact memoryCompare_iff v h1 h2 hown1 hown2

end Meets

/-! ## `mem_malloc.c` -/

namespace MemMalloc

variable {others : Nat → Prop} {m : Mem} {dest src s1 s2 size : Nat}

/-- **`memset`** fills its range and returns its beginning, for a pointer that is not null to a range
that ends below the last byte of memory. -/
theorem memset_fills (v : SetVars) (c : Int) (hdest : dest ≠ 0) (hend : dest + size < 2 ^ 32)
    (hown : Outside (v.Own others) dest size) :
    ∃ done, TerminatesWith (fun rounds => memset v rounds m dest c size) done ∧ done.ret = dest ∧
      (∀ i < size, done.mem (dest + i) = UInt8.ofNat (asUint32 c)) ∧
      ∀ a, ¬ v.Own others a → ¬ (dest ≤ a ∧ a < dest + size) → done.mem a = m a := by
  have hfits : Fits dest size := ⟨by omega, by omega, by omega⟩
  have hset : SetMeets others m v dest (UInt8.ofNat (asUint32 c)) size :=
    (memorySet_iff v hfits hown).mpr (Or.inr ⟨hdest, hend⟩)
  obtain ⟨done, ⟨rounds, hrounds⟩, hfilled, hwrote⟩ := hset
  have hframed := memorySet_framed (hrounds rounds (Nat.le_refl rounds))
  have hcall : TerminatesWith (fun rounds => memset v rounds m dest c size)
      ⟨dest, done.mem, done.wrote⟩ :=
    TerminatesWith.map (fun done : MemDone Unit => MemDone.mk dest done.mem done.wrote)
      ⟨rounds, hrounds⟩
  exact ⟨_, hcall, rfl, hfilled, fun a ha hout =>
    hframed a fun hin => hout ((hwrote a ha).mp hin)⟩

/-- **`memcpy`** copies its range, and returns the end of where it has copied to. -/
theorem memcpy_copies (v : CopyVars) (hdest : dest ≠ 0) (hsrc : src ≠ 0) (hdestFits : Fits dest size)
    (hend : src + size < 2 ^ 32) (hranges : dest + size ≤ src ∨ src + size ≤ dest)
    (hdestOwn : Outside (v.Own others) dest size) (hsrcOwn : Outside (v.Own others) src size) :
    ∃ done, TerminatesWith (fun rounds => memcpy v rounds m dest src size) done ∧
      done.ret = add32 dest size ∧ ∀ i < size, done.mem (dest + i) = m (src + i) := by
  have hsrcFits : Fits src size := ⟨by omega, hdestFits.size_lt, by omega⟩
  have hcount : add32 src size - src = size := (loop_count hsrcFits).trans (if_pos hend)
  obtain ⟨done, hdone, hret, hcopied, -⟩ :=
    memoryCopy_effect (m := m) v hdest hsrc hdestFits hsrcFits hranges hdestOwn hsrcOwn
  rw [hcount] at hret hcopied
  exact ⟨done, hdone, hret, hcopied⟩

/-- **`memcmp`** returns 0 exactly for equal ranges. -/
theorem memcmp_zero_iff (v : CompareVars) (h1 : Fits s1 size) (hend : s2 + size < 2 ^ 32)
    (hown1 : Outside (v.Own others) s1 size) (hown2 : Outside (v.Own others) s2 size) :
    ∃ done, TerminatesWith (fun rounds => memcmp v rounds m s1 s2 size) done ∧
      (done.ret = 0 ↔ ∀ i < size, m (s1 + i) = m (s2 + i)) := by
  have h2 : Fits s2 size := ⟨by omega, h1.size_lt, by omega⟩
  have hcount : add32 s2 size - s2 = size := (loop_count h2).trans (if_pos hend)
  obtain ⟨done, hdone, hret, -⟩ := memoryCompare_run m h1.base_lt h2.base_lt
    (compareApart_of_outside h1 h2 hown1 hown2)
  rw [hcount] at hret
  have hcall : TerminatesWith (fun rounds => memcmp v rounds m s1 s2 size)
      ⟨done.ret.toNat, done.mem, done.wrote⟩ :=
    hdone.map fun done : MemDone UInt8 => MemDone.mk (done.ret.toNat : Int) done.mem done.wrote
  refine ⟨_, hcall, ?_⟩
  rw [← hret]
  show (done.ret.toNat : Int) = 0 ↔ done.ret = 0
  rw [Int.natCast_eq_zero]
  exact UInt8.toNat_inj (b := 0)

end MemMalloc

/-! ## Two calls -/

section Calls

/-- Two words on a stack, with a byte behind them. -/
def stackVars : CompareVars where
  s1Addr := 0xd8000
  s2Addr := 0xd8004
  inMemory := by decide
  apart := Or.inl (by decide)
  flag := 0xd8008
  flagInMemory := by decide
  flagApart := ⟨fun h => absurd h.2 (by decide), fun h => absurd h.2 (by decide)⟩

/-- The same word, as the variable of `memory_set`. -/
def stackSetVars : SetVars := ⟨0xd8000, by decide⟩

/-- Memory that holds 1 and 2 at two places, and nothing else. -/
def twoBytes : Mem := fun a => if a = 0xd1000 then 1 else if a = 0xd2000 then 2 else 0

/-- Two lines of bytes, which begin alike: each byte is the last one of its address, but for the one
at `0xd2007`. -/
def twoLines : Mem := fun a => if a = 0xd2007 then 0 else UInt8.ofNat a

section Below

variable {base size : Nat}

theorem fits_below (h : base + size ≤ 0xd8000) : Fits base size := ⟨by omega, by omega, by omega⟩

theorem outside_stackSetVars (h : base + size ≤ 0xd8000) :
    Outside (stackSetVars.Own fun _ => False) base size := by
  intro i hi hown
  simp only [SetVars.Own, stackSetVars, WordAt, or_false] at hown
  omega

/-- A range below the variables. -/
theorem outside_stackVars (h : base + size ≤ 0xd8000) :
    Outside (stackVars.Own fun _ => False) base size ∧
      Outside (stackVars.toCopyVars.Own fun _ => False) base size := by
  have hout : ∀ i < size, ¬ stackVars.Own (fun _ => False) (base + i) := by
    intro i hi hown
    simp only [CompareVars.Own, CopyVars.Own, stackVars, WordAt, or_false] at hown
    omega
  exact ⟨hout, fun i hi hown => hout i hi (Or.inr hown)⟩

end Below

/-- Sixteen bytes are set, copied to another place, and compared. -/
theorem memoryPrimitives_iff_lines :
    (SetMeets (fun _ => False) twoLines stackSetVars 0xd1000 0x5a 16 ↔
      16 = 0 ∨ 0xd1000 ≠ 0 ∧ 0xd1000 + 16 < 2 ^ 32) ∧
    (CopyMeets (fun _ => False) twoLines stackVars.toCopyVars 0xd1000 0xd2000 16 ↔
      (∀ i < 16, twoLines (0xd1000 + i) = twoLines (0xd2000 + i)) ∧
        (0xd1000 = 0 ∨ 0xd2000 ≠ 0 ∧ (16 = 0 ∨ 0xd2000 + 16 = 2 ^ 32))) ∧
    (CompareMeets (fun _ => False) twoLines stackVars 0xd1000 0xd2000 16 ↔
      (∀ i < 16, twoLines (0xd1000 + i) = twoLines (0xd2000 + i)) ∨
        0xd2000 + 16 < 2 ^ 32 ∧ stackVars.Own (fun _ => False) (stackVars.flag + 1) ∧
          stackVars.Own (fun _ => False) (stackVars.flag + 2) ∧
          stackVars.Own (fun _ => False) (stackVars.flag + 3)) := by
  obtain ⟨hset, hcopy, hcompare⟩ := memoryPrimitives_iff (fun _ => False) twoLines 16
  have hdest : Fits 0xd1000 16 := fits_below (by decide)
  have hsrc : Fits 0xd2000 16 := fits_below (by decide)
  obtain ⟨hdestCompare, hdestCopy⟩ := @outside_stackVars 0xd1000 16 (by decide)
  obtain ⟨hsrcCompare, hsrcCopy⟩ := @outside_stackVars 0xd2000 16 (by decide)
  refine ⟨?_, ?_, ?_⟩
  · exact hset stackSetVars 0xd1000 0x5a hdest (outside_stackSetVars (by decide))
  · exact hcopy stackVars.toCopyVars 0xd1000 0xd2000 hdest hsrc (Or.inl (by decide)) hdestCopy
      hsrcCopy
  · exact hcompare stackVars 0xd1000 0xd2000 hdest hsrc hdestCompare hsrcCompare

/-- `memory_copy` of one byte to `0xd1000` returns `0xd1001`; and `memory_compare` of a byte 1 and a
byte 2 stores to the three bytes behind its `flag`. -/
theorem memoryPrimitives_slips :
    ((memoryCopy stackVars.toCopyVars 20 twoBytes 0xd1000 0xd2000 1).map MemDone.ret =
        .ok 0xd1001 ∧
      ¬ CopyMeets (fun _ => False) twoBytes stackVars.toCopyVars 0xd1000 0xd2000 1) ∧
    ((memoryCompare stackVars 20 twoBytes 0xd1000 0xd2000 1).map (fun done => done.wrote.take 12) =
        .ok [0xd8004, 0xd8005, 0xd8006, 0xd8007, 0xd8000, 0xd8001, 0xd8002, 0xd8003, 0xd8008,
          0xd8009, 0xd800a, 0xd800b] ∧
      ¬ CompareMeets (fun _ => False) twoBytes stackVars 0xd1000 0xd2000 1) := by
  have hdiffer : ¬ ∀ i < 1, twoBytes (0xd1000 + i) = twoBytes (0xd2000 + i) := by decide
  refine ⟨⟨rfl, fun h => ?_⟩, rfl, fun h => ?_⟩
  · have hcopy := (memoryCopy_iff stackVars.toCopyVars (fits_below (by decide))
      (fits_below (by decide)) (Or.inl (by decide)) (outside_stackVars (by decide)).2
      (outside_stackVars (by decide)).2).mp h
    exact hdiffer hcopy.1
  · have hcompare := (memoryCompare_iff stackVars (fits_below (by decide)) (fits_below (by decide))
      (outside_stackVars (by decide)).1 (outside_stackVars (by decide)).1).mp h
    obtain ⟨-, hbehind, -⟩ := hcompare.resolve_left hdiffer
    simp only [CompareVars.Own, CopyVars.Own, stackVars, WordAt, or_false] at hbehind
    omega

end Calls

end HeavenFox.Common
