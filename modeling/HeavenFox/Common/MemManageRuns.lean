/-
# HeavenFox.Common.MemManageRuns -- what the loops of `mem_manage.h` do

Each of the three listings is a loop.  For each there is a lemma about one round, one about every way
out of it, an invariant that a round carries from `k` to `k + 1`, and what the call leaves for all
pointers and sizes: `memorySet_run`, `memoryCopy_run` and `memoryCompare_run`.

The end of a range is computed as a word.  So a range that ends with the last byte of memory has its
end below its beginning, and the loop is over before its first round.
-/
import HeavenFox.Common.MemManage

namespace HeavenFox.Common

open HeavenFox.Logic

/-- A call that runs a listing from `s` and reads its result off the last state. -/
theorem terminates_of_run {β : Type} {listing : Listing} {s t : Cpu} {n : Nat}
    {call : Nat → Except Stop β} (result : Cpu → β)
    (hcall : ∀ rounds, call rounds = (do
      let s ← inlineAsm listing rounds s
      .ok (result s)))
    (hlead : Leads listing.run n s t) (hend : listing[t.pc]? = none) :
    TerminatesWith call (result t) := by
  refine ⟨n + 1, fun rounds hrounds => ?_⟩
  rw [hcall, inlineAsm, Listing.run_of_leads hlead hend hrounds]
  rfl

/-! ## `memory_set` -/

section Set

variable {s : Cpu}

/-- A round that stores a byte. -/
theorem memorySetAsm_round (hpc : s.pc = 1) (hlt : s.regs 0 < s.regs 2) :
    ∃ t, Leads memorySetAsm.run 6 s t ∧ t.pc = 1 ∧
      t.regs = Function.update s.regs 0 (add32 (s.regs 0) 1) ∧
      t.mem = store8 s.mem (s.regs 0) (UInt8.ofNat (s.regs 3)) ∧ t.wrote = s.regs 0 :: s.wrote := by
  obtain ⟨regs, higherSame, equal, pc, mem, wrote⟩ := s
  subst hpc
  have hhs : decide (regs 2 ≤ regs 0) = false := decide_eq_false (Nat.not_le.mpr hlt)
  apply Exists.intro
  apply And.intro
  · apply leads_step rfl
    apply leads_step rfl
    apply leads_no_branch rfl rfl hhs
    apply leads_step rfl
    apply leads_step rfl
    apply leads_step rfl
    exact Leads.refl _
  · exact ⟨rfl, rfl, rfl, rfl⟩

/-- The way out of the loop. -/
theorem memorySetAsm_exit (hpc : s.pc = 1) (hge : s.regs 2 ≤ s.regs 0) :
    ∃ t, Leads memorySetAsm.run 5 s t ∧ memorySetAsm[t.pc]? = none ∧
      t.mem = store32 s.mem (s.regs 1) (s.regs 0) ∧
      t.wrote = (s.storeWord (s.regs 1) (s.regs 0)).wrote := by
  obtain ⟨regs, higherSame, equal, pc, mem, wrote⟩ := s
  subst hpc
  have hhs : decide (regs 2 ≤ regs 0) = true := decide_eq_true hge
  apply Exists.intro
  apply And.intro
  · apply leads_step rfl
    apply leads_step rfl
    apply leads_branch rfl rfl hhs
    apply leads_step rfl
    apply leads_step rfl
    exact Leads.refl _
  · exact ⟨rfl, rfl, rfl⟩

variable {v : SetVars} {m : Mem} {dest size k : Nat} {data : UInt8}

/-- The loop of `memory_set` after `k` rounds. -/
structure SetLoop (v : SetVars) (dest size : Nat) (data : UInt8) (k : Nat) (s : Cpu) : Prop where
  pc : s.pc = 1
  result : s.regs 0 = dest + k
  startAddr : s.regs 1 = v.startAddr
  endAddr : s.regs 2 = add32 dest size
  byte : s.regs 3 = data.toNat
  filled : ∀ i < k, s.mem (dest + i) = data
  wrote : ∀ a, a ∈ s.wrote ↔ WordAt v.startAddr a ∨ dest ≤ a ∧ a < dest + k

theorem SetLoop.round (h : SetLoop v dest size data k s) (hlt : dest + k < add32 dest size) :
    ∃ t, Leads memorySetAsm.run 6 s t ∧ SetLoop v dest size data (k + 1) t := by
  have hnext : add32 (dest + k) 1 = dest + (k + 1) :=
    add32_of_lt (Nat.lt_of_le_of_lt hlt (add32_lt dest size))
  obtain ⟨t, hlead, hpc, hregs, hmem, hwrote⟩ :=
    memorySetAsm_round h.pc (by rw [h.result, h.endAddr]; exact hlt)
  rw [h.result, hnext] at hregs
  rw [h.result, h.byte, UInt8.ofNat_toNat] at hmem
  rw [h.result] at hwrote
  refine ⟨t, hlead, hpc, by rw [hregs]; rfl, by rw [hregs]; exact h.startAddr,
    by rw [hregs]; exact h.endAddr, by rw [hregs]; exact h.byte, fun i hi => ?_, fun a => ?_⟩
  · rw [hmem]
    show (if dest + i = dest + k then data else s.mem (dest + i)) = data
    by_cases hik : i = k
    · rw [if_pos (by omega)]
    · rw [if_neg (by omega)]
      exact h.filled i (by omega)
  · rw [hwrote, List.mem_cons, h.wrote]
    unfold WordAt
    omega

/-- Memory and log of `memory_set` when its variable has been set. -/
def setEntry (v : SetVars) (m : Mem) (dest : Nat) (data : UInt8) (size : Nat) : Cpu :=
  (Cpu.enter (memorySetOperands v (add32 dest size) data) m).storeWord v.startAddr dest

/-- The first instruction loads the pointer that has been stored. -/
theorem setEntry_loop (m : Mem) (data : UInt8) (size : Nat) (hlt : dest < 2 ^ 32) :
    ∃ t, Leads memorySetAsm.run 1 (setEntry v m dest data size) t ∧
      SetLoop v dest size data 0 t := by
  have hload : load32 (setEntry v m dest data size).mem v.startAddr = dest := by
    show load32 (store32 m v.startAddr dest) v.startAddr = dest
    rw [load32_store32_same, Nat.mod_eq_of_lt hlt]
  refine ⟨_, leads_step rfl (Leads.refl _), rfl, hload, rfl, rfl, rfl,
    fun i hi => absurd hi (Nat.not_lt_zero i), fun a => ?_⟩
  show a ∈ [v.startAddr, v.startAddr + 1, v.startAddr + 2, v.startAddr + 3] ↔ _
  simp only [List.mem_cons, List.not_mem_nil, or_false, WordAt]
  omega

/-- **`memory_set`**, for a pointer that is not null: from `dest` on it writes up to the sum of `dest`
and `size`, as a word. -/
theorem memorySet_run (m : Mem) (data : UInt8) (size : Nat) (hdest : dest ≠ 0)
    (hlt : dest < 2 ^ 32) :
    ∃ done, TerminatesWith (fun rounds => memorySet v rounds m dest data size) done ∧
      (∀ i < add32 dest size - dest, ¬ WordAt v.startAddr (dest + i) →
        done.mem (dest + i) = data) ∧
      ∀ a, a ∈ done.wrote ↔
        WordAt v.startAddr a ∨ dest ≤ a ∧ a < dest + (add32 dest size - dest) := by
  have hcall : ∀ rounds, memorySet v rounds m dest data size = (do
      let s ← inlineAsm memorySetAsm rounds (setEntry v m dest data size)
      .ok ⟨(), s.mem, s.wrote⟩) := by
    intro rounds
    rw [memorySet, if_neg hdest, setEntry]
  obtain ⟨s₁, hfirst, hstart⟩ := setEntry_loop (v := v) m data size hlt
  obtain ⟨n, s, hloop, hs⟩ := leads_counted (I := SetLoop v dest size data)
    (n := add32 dest size - dest) (fun k hk s hs => by
      obtain ⟨t, hlead, ht⟩ := hs.round (by omega)
      exact ⟨6, t, hlead, ht⟩) hstart
  obtain ⟨t, hexit, hend, hmem, hwrote⟩ :=
    memorySetAsm_exit hs.pc (by rw [hs.endAddr, hs.result]; omega)
  rw [hs.startAddr] at hmem hwrote
  refine ⟨_, terminates_of_run (fun t => MemDone.mk () t.mem t.wrote) hcall
    ((hfirst.trans hloop).trans hexit) hend, fun i hi hout => ?_, fun a => ?_⟩
  · show t.mem (dest + i) = data
    rw [hmem, store32_of_outside (by unfold WordAt at hout; omega)]
    exact hs.filled i hi
  · show a ∈ t.wrote ↔ _
    rw [hwrote]
    show a ∈ v.startAddr :: (v.startAddr + 1) :: (v.startAddr + 2) :: (v.startAddr + 3) :: s.wrote ↔ _
    simp only [List.mem_cons, hs.wrote, WordAt]
    omega

end Set

/-! ## `memory_copy` -/

section Copy

variable {s : Cpu}

/-- A round that copies a byte. -/
theorem memoryCopyAsm_round (hpc : s.pc = 2) (hlt : s.regs 1 < s.regs 5) :
    ∃ t, Leads memoryCopyAsm.run 8 s t ∧ t.pc = 2 ∧
      t.regs = Function.update (Function.update (Function.update s.regs 2
        (s.mem (s.regs 1)).toNat) 0 (add32 (s.regs 0) 1)) 1 (add32 (s.regs 1) 1) ∧
      t.mem = store8 s.mem (s.regs 0) (UInt8.ofNat (s.mem (s.regs 1)).toNat) ∧
      t.wrote = s.regs 0 :: s.wrote := by
  obtain ⟨regs, higherSame, equal, pc, mem, wrote⟩ := s
  subst hpc
  have hhs : decide (regs 5 ≤ regs 1) = false := decide_eq_false (Nat.not_le.mpr hlt)
  apply Exists.intro
  apply And.intro
  · apply leads_step rfl
    apply leads_step rfl
    apply leads_no_branch rfl rfl hhs
    apply leads_step rfl
    apply leads_step rfl
    apply leads_step rfl
    apply leads_step rfl
    apply leads_step rfl
    exact Leads.refl _
  · exact ⟨rfl, rfl, rfl, rfl⟩

/-- The way out of the loop. -/
theorem memoryCopyAsm_exit (hpc : s.pc = 2) (hge : s.regs 5 ≤ s.regs 1) :
    ∃ t, Leads memoryCopyAsm.run 6 s t ∧ memoryCopyAsm[t.pc]? = none ∧
      t.mem = store32 (store32 s.mem (s.regs 3) (s.regs 0)) (s.regs 4) (s.regs 1) ∧
      t.wrote = ((s.storeWord (s.regs 3) (s.regs 0)).storeWord (s.regs 4) (s.regs 1)).wrote := by
  obtain ⟨regs, higherSame, equal, pc, mem, wrote⟩ := s
  subst hpc
  have hhs : decide (regs 5 ≤ regs 1) = true := decide_eq_true hge
  apply Exists.intro
  apply And.intro
  · apply leads_step rfl
    apply leads_step rfl
    apply leads_branch rfl rfl hhs
    apply leads_step rfl
    apply leads_step rfl
    apply leads_step rfl
    exact Leads.refl _
  · exact ⟨rfl, rfl, rfl⟩

variable {v : CopyVars} {m : Mem} {dest src size k : Nat}

/-- The loop of `memory_copy` after `k` rounds; `m` is the memory before the call. -/
structure CopyLoop (v : CopyVars) (m : Mem) (dest src size k : Nat) (s : Cpu) : Prop where
  pc : s.pc = 2
  result1 : s.regs 0 = add32 dest k
  result2 : s.regs 1 = src + k
  s1Addr : s.regs 3 = v.s1Addr
  s2Addr : s.regs 4 = v.s2Addr
  endAddr : s.regs 5 = add32 src size
  copied : ∀ i < k, s.mem (dest + i) = m (src + i)
  rest : ∀ x, (x < dest ∨ dest + k ≤ x) → ¬ WordAt v.s1Addr x → ¬ WordAt v.s2Addr x → s.mem x = m x
  wrote : ∀ a, a ∈ s.wrote ↔
    WordAt v.s1Addr a ∨ WordAt v.s2Addr a ∨ dest ≤ a ∧ a < dest + k

/-- The bytes to copy and where they go to: the ranges are apart, and no byte to copy is one of the
variables. -/
structure CopyApart (v : CopyVars) (dest src count : Nat) : Prop where
  fits : dest + count ≤ 2 ^ 32
  ranges : dest + count ≤ src ∨ src + count ≤ dest
  vars : ∀ i < count, ¬ WordAt v.s1Addr (src + i) ∧ ¬ WordAt v.s2Addr (src + i)

theorem CopyLoop.round (hapart : CopyApart v dest src (add32 src size - src))
    (h : CopyLoop v m dest src size k s) (hlt : src + k < add32 src size) :
    ∃ t, Leads memoryCopyAsm.run 8 s t ∧ CopyLoop v m dest src size (k + 1) t := by
  have hfits := hapart.fits
  have hranges := hapart.ranges
  have hvars := hapart.vars k (by omega)
  have hnext : add32 (src + k) 1 = src + (k + 1) :=
    add32_of_lt (Nat.lt_of_le_of_lt hlt (add32_lt src size))
  have hdest : add32 dest k = dest + k := add32_of_lt (by omega)
  have hbyte : s.mem (src + k) = m (src + k) :=
    h.rest (src + k) (by omega) hvars.1 hvars.2
  obtain ⟨t, hlead, hpc, hregs, hmem, hwrote⟩ :=
    memoryCopyAsm_round h.pc (by rw [h.result2, h.endAddr]; exact hlt)
  rw [h.result1, h.result2, hnext, hdest] at hregs
  rw [h.result1, h.result2, hdest, UInt8.ofNat_toNat, hbyte] at hmem
  rw [h.result1, hdest] at hwrote
  refine ⟨t, hlead, hpc, by rw [hregs]; rfl, by rw [hregs]; rfl, by rw [hregs]; exact h.s1Addr,
    by rw [hregs]; exact h.s2Addr, by rw [hregs]; exact h.endAddr, fun i hi => ?_,
    fun x hx hs1 hs2 => ?_, fun a => ?_⟩
  · rw [hmem]
    show (if dest + i = dest + k then m (src + k) else s.mem (dest + i)) = m (src + i)
    by_cases hik : i = k
    · rw [if_pos (by omega), hik]
    · rw [if_neg (by omega)]
      exact h.copied i (by omega)
  · rw [hmem]
    show (if x = dest + k then m (src + k) else s.mem x) = m x
    rw [if_neg (by omega)]
    exact h.rest x (by omega) hs1 hs2
  · rw [hwrote, List.mem_cons, h.wrote]
    unfold WordAt
    omega

/-- Memory and log of `memory_copy` when its variables have been set. -/
def copyEntry (v : CopyVars) (m : Mem) (dest src size : Nat) : Cpu :=
  ((Cpu.enter (memoryCopyOperands v (add32 src size)) m).storeWord v.s1Addr dest).storeWord v.s2Addr
    src

/-- The first two instructions load the pointers that have been stored. -/
theorem copyEntry_loop (m : Mem) (size : Nat) (hdest : dest < 2 ^ 32) (hsrc : src < 2 ^ 32) :
    ∃ t, Leads memoryCopyAsm.run 2 (copyEntry v m dest src size) t ∧
      CopyLoop v m dest src size 0 t := by
  have hload1 : load32 (copyEntry v m dest src size).mem v.s1Addr = dest := by
    show load32 (store32 (store32 m v.s1Addr dest) v.s2Addr src) v.s1Addr = dest
    rw [load32_store32_of_disjoint v.apart.symm, load32_store32_same, Nat.mod_eq_of_lt hdest]
  have hload2 : load32 (copyEntry v m dest src size).mem v.s2Addr = src := by
    show load32 (store32 (store32 m v.s1Addr dest) v.s2Addr src) v.s2Addr = src
    rw [load32_store32_same, Nat.mod_eq_of_lt hsrc]
  have hzero : add32 dest 0 = dest := add32_of_lt hdest
  refine ⟨_, leads_step rfl (leads_step rfl (Leads.refl _)), rfl, hload1.trans hzero.symm, hload2,
    rfl, rfl, rfl, fun i hi => absurd hi (Nat.not_lt_zero i), fun x _ h1 h2 => ?_, fun a => ?_⟩
  · show store32 (store32 m v.s1Addr dest) v.s2Addr src x = m x
    unfold WordAt at h1 h2
    rw [store32_of_outside (by omega), store32_of_outside (by omega)]
  · show a ∈ [v.s2Addr, v.s2Addr + 1, v.s2Addr + 2, v.s2Addr + 3, v.s1Addr, v.s1Addr + 1,
      v.s1Addr + 2, v.s1Addr + 3] ↔ _
    simp only [List.mem_cons, List.not_mem_nil, or_false, WordAt]
    omega

/-- **`memory_copy`**, for pointers that are not null.  It copies as many bytes as lie between `src`
and the sum of `src` and `size`, as a word, and returns the end of where they go to. -/
theorem memoryCopy_run (m : Mem) (hdest : dest ≠ 0) (hsrc : src ≠ 0) (hdest32 : dest < 2 ^ 32)
    (hsrc32 : src < 2 ^ 32) (hapart : CopyApart v dest src (add32 src size - src)) :
    ∃ done, TerminatesWith (fun rounds => memoryCopy v rounds m dest src size) done ∧
      done.ret = add32 dest (add32 src size - src) ∧
      (∀ i < add32 src size - src, ¬ WordAt v.s1Addr (dest + i) → ¬ WordAt v.s2Addr (dest + i) →
        done.mem (dest + i) = m (src + i)) ∧
      ∀ a, a ∈ done.wrote ↔ WordAt v.s1Addr a ∨ WordAt v.s2Addr a ∨
        dest ≤ a ∧ a < dest + (add32 src size - src) := by
  have hcall : ∀ rounds, memoryCopy v rounds m dest src size = (do
      let s ← inlineAsm memoryCopyAsm rounds (copyEntry v m dest src size)
      .ok ⟨load32 s.mem v.s1Addr, s.mem, s.wrote⟩) := by
    intro rounds
    rw [memoryCopy, if_neg (not_or.mpr ⟨hdest, hsrc⟩), copyEntry]
  obtain ⟨s₁, hfirst, hstart⟩ := copyEntry_loop (v := v) m size hdest32 hsrc32
  obtain ⟨n, s, hloop, hs⟩ := leads_counted (I := CopyLoop v m dest src size)
    (n := add32 src size - src) (fun k hk s hs => by
      obtain ⟨t, hlead, ht⟩ := hs.round hapart (by omega)
      exact ⟨8, t, hlead, ht⟩) hstart
  obtain ⟨t, hexit, hend, hmem, hwrote⟩ :=
    memoryCopyAsm_exit hs.pc (by rw [hs.endAddr, hs.result2]; omega)
  rw [hs.s1Addr, hs.s2Addr] at hmem hwrote
  refine ⟨_, terminates_of_run (fun t => MemDone.mk (load32 t.mem v.s1Addr) t.mem t.wrote) hcall
    ((hfirst.trans hloop).trans hexit) hend, ?_, fun i hi h1 h2 => ?_, fun a => ?_⟩
  · show load32 t.mem v.s1Addr = _
    rw [hmem, load32_store32_of_disjoint v.apart.symm, load32_store32_same, hs.result1]
    exact Nat.mod_eq_of_lt (add32_lt _ _)
  · show t.mem (dest + i) = m (src + i)
    unfold WordAt at h1 h2
    rw [hmem, store32_of_outside (by omega), store32_of_outside (by omega)]
    exact hs.copied i hi
  · show a ∈ t.wrote ↔ _
    rw [hwrote]
    show a ∈ v.s2Addr :: (v.s2Addr + 1) :: (v.s2Addr + 2) :: (v.s2Addr + 3) :: v.s1Addr ::
      (v.s1Addr + 1) :: (v.s1Addr + 2) :: (v.s1Addr + 3) :: s.wrote ↔ _
    simp only [List.mem_cons, hs.wrote, WordAt]
    omega

end Copy

/-! ## `memory_compare` -/

/-- The first of `n` places where something fails, or `n`. -/
theorem exists_first (p : Nat → Prop) (n : Nat) :
    ∃ d ≤ n, (∀ i < d, p i) ∧ (d = n ∨ ¬ p d) := by
  induction n with
  | zero => exact ⟨0, Nat.le_refl 0, fun i hi => absurd hi (Nat.not_lt_zero i), Or.inl rfl⟩
  | succ n ih =>
    obtain ⟨d, hd, hbefore, rfl | hfail⟩ := ih
    · by_cases hp : p d
      · refine ⟨d + 1, Nat.le_refl _, fun i hi => ?_, Or.inl rfl⟩
        rcases Nat.lt_succ_iff_lt_or_eq.mp hi with hlt | rfl
        · exact hbefore i hlt
        · exact hp
      · exact ⟨d, hd.trans (Nat.le_succ d), hbefore, Or.inr hp⟩
    · exact ⟨d, hd.trans (Nat.le_succ n), hbefore, Or.inr hfail⟩

section Compare

variable {s : Cpu}

/-- A round that finds equal bytes. -/
theorem memoryCompareAsm_round (hpc : s.pc = 2) (hlt : s.regs 1 < s.regs 6)
    (heq : s.mem (s.regs 0) = s.mem (s.regs 1)) :
    ∃ t, Leads memoryCompareAsm.run 10 s t ∧ t.pc = 2 ∧
      t.regs = Function.update (Function.update (Function.update (Function.update s.regs 2
        (s.mem (s.regs 0)).toNat) 3 (s.mem (s.regs 1)).toNat) 0 (add32 (s.regs 0) 1)) 1
          (add32 (s.regs 1) 1) ∧
      t.mem = s.mem ∧ t.wrote = s.wrote := by
  obtain ⟨regs, higherSame, equal, pc, mem, wrote⟩ := s
  subst hpc
  have hhs : decide (regs 6 ≤ regs 1) = false := decide_eq_false (Nat.not_le.mpr hlt)
  have hne : (!decide ((mem (regs 0)).toNat = (mem (regs 1)).toNat)) = false := by
    rw [decide_eq_true (congrArg UInt8.toNat heq)]
    rfl
  apply Exists.intro
  apply And.intro
  · apply leads_step rfl
    apply leads_step rfl
    apply leads_no_branch rfl rfl hhs
    apply leads_step rfl
    apply leads_step rfl
    apply leads_step rfl
    apply leads_no_branch rfl rfl hne
    apply leads_step rfl
    apply leads_step rfl
    apply leads_step rfl
    exact Leads.refl _
  · exact ⟨rfl, rfl, rfl, rfl⟩

/-- The way out of the loop at the end of the ranges. -/
theorem memoryCompareAsm_end (hpc : s.pc = 2) (hge : s.regs 6 ≤ s.regs 1) :
    ∃ t, Leads memoryCompareAsm.run 6 s t ∧ memoryCompareAsm[t.pc]? = none ∧
      t.mem = store32 (store32 s.mem (s.regs 4) (s.regs 0)) (s.regs 5) (s.regs 1) ∧
      t.wrote = ((s.storeWord (s.regs 4) (s.regs 0)).storeWord (s.regs 5) (s.regs 1)).wrote := by
  obtain ⟨regs, higherSame, equal, pc, mem, wrote⟩ := s
  subst hpc
  have hhs : decide (regs 6 ≤ regs 1) = true := decide_eq_true hge
  apply Exists.intro
  apply And.intro
  · apply leads_step rfl
    apply leads_step rfl
    apply leads_branch rfl rfl hhs
    apply leads_step rfl
    apply leads_step rfl
    apply leads_step rfl
    exact Leads.refl _
  · exact ⟨rfl, rfl, rfl⟩

/-- The way out of the loop at bytes that differ: a word goes to the address of `flag`. -/
theorem memoryCompareAsm_differ (hpc : s.pc = 2) (hlt : s.regs 1 < s.regs 6)
    (hdiff : s.mem (s.regs 0) ≠ s.mem (s.regs 1)) :
    ∃ t, Leads memoryCompareAsm.run 13 s t ∧ memoryCompareAsm[t.pc]? = none ∧
      t.mem = store32 (store32 (store32 s.mem (s.regs 7) 1) (s.regs 4) (s.regs 0)) (s.regs 5)
        (s.regs 1) ∧
      t.wrote = (((s.storeWord (s.regs 7) 1).storeWord (s.regs 4) (s.regs 0)).storeWord (s.regs 5)
        (s.regs 1)).wrote := by
  obtain ⟨regs, higherSame, equal, pc, mem, wrote⟩ := s
  subst hpc
  have hhs : decide (regs 6 ≤ regs 1) = false := decide_eq_false (Nat.not_le.mpr hlt)
  have hne : (!decide ((mem (regs 0)).toNat = (mem (regs 1)).toNat)) = true := by
    rw [decide_eq_false fun hnat => hdiff (UInt8.toNat_inj.mp hnat)]
    rfl
  apply Exists.intro
  apply And.intro
  · apply leads_step rfl
    apply leads_step rfl
    apply leads_no_branch rfl rfl hhs
    apply leads_step rfl
    apply leads_step rfl
    apply leads_step rfl
    apply leads_branch rfl rfl hne
    apply leads_step rfl
    apply leads_step rfl
    apply leads_step rfl
    apply leads_step rfl
    apply leads_step rfl
    apply leads_step rfl
    exact Leads.refl _
  · exact ⟨rfl, rfl, rfl⟩

variable {v : CompareVars} {m : Mem} {s1 s2 size k : Nat}

/-- Memory and log of `memory_compare` when its variables have been set. -/
def compareEntry (v : CompareVars) (m : Mem) (s1 s2 size : Nat) : Cpu :=
  (((Cpu.enter (memoryCompareOperands v (add32 s2 size)) m).storeByte v.flag 0).storeWord v.s1Addr
    s1).storeWord v.s2Addr s2

/-- The loop of `memory_compare` after `k` rounds. -/
structure CompareLoop (v : CompareVars) (m : Mem) (s1 s2 size k : Nat) (s : Cpu) : Prop where
  pc : s.pc = 2
  result1 : s.regs 0 = add32 s1 k
  result2 : s.regs 1 = s2 + k
  s1Addr : s.regs 4 = v.s1Addr
  s2Addr : s.regs 5 = v.s2Addr
  endAddr : s.regs 6 = add32 s2 size
  flag : s.regs 7 = v.flag
  mem : s.mem = (compareEntry v m s1 s2 size).mem
  wrote : s.wrote = (compareEntry v m s1 s2 size).wrote

/-- A byte that is none of the variables of `memory_compare` is what it was before the call. -/
theorem compareEntry_mem {x : Nat} (hflag : x ≠ v.flag) (h1 : ¬ WordAt v.s1Addr x)
    (h2 : ¬ WordAt v.s2Addr x) : (compareEntry v m s1 s2 size).mem x = m x := by
  unfold WordAt at h1 h2
  show store32 (store32 (store8 m v.flag 0) v.s1Addr s1) v.s2Addr s2 x = m x
  rw [store32_of_outside (by omega), store32_of_outside (by omega)]
  exact if_neg hflag

theorem compareEntry_flag : (compareEntry v m s1 s2 size).mem v.flag = 0 := by
  have h1 := v.flagApart.1
  have h2 := v.flagApart.2
  unfold WordAt at h1 h2
  show store32 (store32 (store8 m v.flag 0) v.s1Addr s1) v.s2Addr s2 v.flag = 0
  rw [store32_of_outside (by omega), store32_of_outside (by omega)]
  exact if_pos rfl

theorem mem_compareEntry_wrote {a : Nat} :
    a ∈ (compareEntry v m s1 s2 size).wrote ↔
      a = v.flag ∨ WordAt v.s1Addr a ∨ WordAt v.s2Addr a := by
  show a ∈ [v.s2Addr, v.s2Addr + 1, v.s2Addr + 2, v.s2Addr + 3, v.s1Addr, v.s1Addr + 1,
    v.s1Addr + 2, v.s1Addr + 3, v.flag] ↔ _
  simp only [List.mem_cons, List.not_mem_nil, or_false, WordAt]
  omega

/-- No byte that is compared is one of the variables. -/
structure CompareApart (v : CompareVars) (s1 s2 count : Nat) : Prop where
  fits : s1 + count ≤ 2 ^ 32
  vars1 : ∀ i < count, s1 + i ≠ v.flag ∧ ¬ WordAt v.s1Addr (s1 + i) ∧ ¬ WordAt v.s2Addr (s1 + i)
  vars2 : ∀ i < count, s2 + i ≠ v.flag ∧ ¬ WordAt v.s1Addr (s2 + i) ∧ ¬ WordAt v.s2Addr (s2 + i)

/-- The bytes that a round sees. -/
theorem CompareLoop.bytes (hapart : CompareApart v s1 s2 (add32 s2 size - s2))
    (h : CompareLoop v m s1 s2 size k s) (hlt : s2 + k < add32 s2 size) :
    s.mem (s.regs 0) = m (s1 + k) ∧ s.mem (s.regs 1) = m (s2 + k) := by
  have hfits := hapart.fits
  obtain ⟨hflag1, h11, h12⟩ := hapart.vars1 k (by omega)
  obtain ⟨hflag2, h21, h22⟩ := hapart.vars2 k (by omega)
  have hk : add32 s1 k = s1 + k := add32_of_lt (by omega)
  rw [h.mem, h.result1, h.result2, hk]
  exact ⟨compareEntry_mem hflag1 h11 h12, compareEntry_mem hflag2 h21 h22⟩

theorem CompareLoop.round (hapart : CompareApart v s1 s2 (add32 s2 size - s2))
    (h : CompareLoop v m s1 s2 size k s) (hlt : s2 + k < add32 s2 size)
    (heq : m (s1 + k) = m (s2 + k)) :
    ∃ t, Leads memoryCompareAsm.run 10 s t ∧ CompareLoop v m s1 s2 size (k + 1) t := by
  have hfits := hapart.fits
  obtain ⟨hbyte1, hbyte2⟩ := h.bytes hapart hlt
  have hnext1 : add32 (add32 s1 k) 1 = add32 s1 (k + 1) := by
    unfold add32
    omega
  have hnext2 : add32 (s2 + k) 1 = s2 + (k + 1) :=
    add32_of_lt (Nat.lt_of_le_of_lt hlt (add32_lt s2 size))
  obtain ⟨t, hlead, hpc, hregs, hmem, hwrote⟩ := memoryCompareAsm_round h.pc
    (by rw [h.result2, h.endAddr]; exact hlt) (by rw [hbyte1, hbyte2]; exact heq)
  rw [h.result1, h.result2, hnext1, hnext2] at hregs
  exact ⟨t, hlead, hpc, by rw [hregs]; rfl, by rw [hregs]; rfl, by rw [hregs]; exact h.s1Addr,
    by rw [hregs]; exact h.s2Addr, by rw [hregs]; exact h.endAddr, by rw [hregs]; exact h.flag,
    hmem.trans h.mem, hwrote.trans h.wrote⟩

/-- The first two instructions load the pointers that have been stored. -/
theorem compareEntry_loop (m : Mem) (size : Nat) (h1 : s1 < 2 ^ 32) (h2 : s2 < 2 ^ 32) :
    ∃ t, Leads memoryCompareAsm.run 2 (compareEntry v m s1 s2 size) t ∧
      CompareLoop v m s1 s2 size 0 t := by
  have hload1 : load32 (compareEntry v m s1 s2 size).mem v.s1Addr = s1 := by
    show load32 (store32 (store32 (store8 m v.flag 0) v.s1Addr s1) v.s2Addr s2) v.s1Addr = s1
    rw [load32_store32_of_disjoint v.apart.symm, load32_store32_same, Nat.mod_eq_of_lt h1]
  have hload2 : load32 (compareEntry v m s1 s2 size).mem v.s2Addr = s2 := by
    show load32 (store32 (store32 (store8 m v.flag 0) v.s1Addr s1) v.s2Addr s2) v.s2Addr = s2
    rw [load32_store32_same, Nat.mod_eq_of_lt h2]
  have hzero : add32 s1 0 = s1 := add32_of_lt h1
  exact ⟨_, leads_step rfl (leads_step rfl (Leads.refl _)), rfl, hload1.trans hzero.symm, hload2,
    rfl, rfl, rfl, rfl, rfl, rfl⟩

/-- What `memory_compare` leaves: a result that tells whether the bytes are equal; and where they are
not, the log has the three bytes behind `flag` as well. -/
structure Compared (v : CompareVars) (equal : Prop) (done : MemDone UInt8) : Prop where
  ret : done.ret = 0 ↔ equal
  wrote : ∀ a, a ∈ done.wrote ↔
    a = v.flag ∨ WordAt v.s1Addr a ∨ WordAt v.s2Addr a ∨ ¬ equal ∧ WordAt v.flag a

/-- The loop has met bytes that differ. -/
theorem CompareLoop.differ {equal : Prop} (hapart : CompareApart v s1 s2 (add32 s2 size - s2))
    (h : CompareLoop v m s1 s2 size k s) (hlt : s2 + k < add32 s2 size)
    (hdiff : m (s1 + k) ≠ m (s2 + k)) (hnot : ¬ equal) :
    ∃ t, Leads memoryCompareAsm.run 13 s t ∧ memoryCompareAsm[t.pc]? = none ∧
      Compared v equal ⟨t.mem v.flag, t.mem, t.wrote⟩ := by
  have hflag1 := v.flagApart.1
  have hflag2 := v.flagApart.2
  unfold WordAt at hflag1 hflag2
  obtain ⟨hbyte1, hbyte2⟩ := h.bytes hapart hlt
  obtain ⟨t, hexit, hlast, hmem, hwrote⟩ := memoryCompareAsm_differ h.pc
    (by rw [h.result2, h.endAddr]; exact hlt) (by rw [hbyte1, hbyte2]; exact hdiff)
  rw [h.s1Addr, h.s2Addr, h.flag] at hmem hwrote
  refine ⟨t, hexit, hlast, iff_of_false ?_ hnot, fun a => ?_⟩
  · show t.mem v.flag ≠ 0
    rw [hmem, store32_of_outside (by omega), store32_of_outside (by omega), store32, if_pos rfl]
    decide
  · show a ∈ t.wrote ↔ _
    rw [hwrote]
    show a ∈ v.s2Addr :: (v.s2Addr + 1) :: (v.s2Addr + 2) :: (v.s2Addr + 3) :: v.s1Addr ::
      (v.s1Addr + 1) :: (v.s1Addr + 2) :: (v.s1Addr + 3) :: v.flag :: (v.flag + 1) ::
      (v.flag + 2) :: (v.flag + 3) :: s.wrote ↔ _
    simp only [List.mem_cons, h.wrote, mem_compareEntry_wrote, WordAt, hnot, not_false_eq_true,
      true_and]
    omega

/-- The loop has come to the end of the ranges. -/
theorem CompareLoop.finish {equal : Prop} (h : CompareLoop v m s1 s2 size k s)
    (hge : add32 s2 size ≤ s2 + k) (hall : equal) :
    ∃ t, Leads memoryCompareAsm.run 6 s t ∧ memoryCompareAsm[t.pc]? = none ∧
      Compared v equal ⟨t.mem v.flag, t.mem, t.wrote⟩ := by
  have hflag1 := v.flagApart.1
  have hflag2 := v.flagApart.2
  unfold WordAt at hflag1 hflag2
  obtain ⟨t, hexit, hlast, hmem, hwrote⟩ :=
    memoryCompareAsm_end h.pc (by rw [h.result2, h.endAddr]; exact hge)
  rw [h.s1Addr, h.s2Addr] at hmem hwrote
  refine ⟨t, hexit, hlast, iff_of_true ?_ hall, fun a => ?_⟩
  · show t.mem v.flag = 0
    rw [hmem, store32_of_outside (by omega), store32_of_outside (by omega), h.mem]
    exact compareEntry_flag
  · show a ∈ t.wrote ↔ _
    rw [hwrote]
    show a ∈ v.s2Addr :: (v.s2Addr + 1) :: (v.s2Addr + 2) :: (v.s2Addr + 3) :: v.s1Addr ::
      (v.s1Addr + 1) :: (v.s1Addr + 2) :: (v.s1Addr + 3) :: s.wrote ↔ _
    simp only [List.mem_cons, h.wrote, mem_compareEntry_wrote, WordAt, not_true_eq_false,
      false_and, or_false, eq_true hall]
    omega

/-- **`memory_compare`** compares as many bytes as lie between `s2` and the sum of `s2` and `size`, as
a word. -/
theorem memoryCompare_run (m : Mem) (h1 : s1 < 2 ^ 32) (h2 : s2 < 2 ^ 32)
    (hapart : CompareApart v s1 s2 (add32 s2 size - s2)) :
    ∃ done, TerminatesWith (fun rounds => memoryCompare v rounds m s1 s2 size) done ∧
      Compared v (∀ i < add32 s2 size - s2, m (s1 + i) = m (s2 + i)) done := by
  obtain ⟨s₁, hfirst, hstart⟩ := compareEntry_loop (v := v) m size h1 h2
  obtain ⟨d, hd, hbefore, hstop⟩ :=
    exists_first (fun i => m (s1 + i) = m (s2 + i)) (add32 s2 size - s2)
  obtain ⟨n, s, hloop, hs⟩ := leads_counted (I := CompareLoop v m s1 s2 size) (n := d)
    (fun k hk s hs => by
      obtain ⟨t, hlead, ht⟩ := hs.round hapart (by omega) (hbefore k hk)
      exact ⟨10, t, hlead, ht⟩) hstart
  have hdone : ∀ (k : Nat) (t : Cpu), Leads memoryCompareAsm.run k s t →
      memoryCompareAsm[t.pc]? = none →
      TerminatesWith (fun rounds => memoryCompare v rounds m s1 s2 size)
        ⟨t.mem v.flag, t.mem, t.wrote⟩ := by
    intro k t hexit hend
    exact terminates_of_run (fun t => MemDone.mk (t.mem v.flag) t.mem t.wrote) (fun _ => rfl)
      ((hfirst.trans hloop).trans hexit) hend
  by_cases hend : s2 + d < add32 s2 size
  · have hdiff : m (s1 + d) ≠ m (s2 + d) := hstop.resolve_left (by omega)
    have hnot : ¬ ∀ i < add32 s2 size - s2, m (s1 + i) = m (s2 + i) :=
      fun hall => hdiff (hall d (by omega))
    obtain ⟨t, hexit, hlast, hcompared⟩ := hs.differ hapart hend hdiff hnot
    exact ⟨_, hdone 13 t hexit hlast, hcompared⟩
  · have hall : ∀ i < add32 s2 size - s2, m (s1 + i) = m (s2 + i) :=
      fun i hi => hbefore i (by omega)
    obtain ⟨t, hexit, hlast, hcompared⟩ := hs.finish (Nat.le_of_not_lt hend) hall
    exact ⟨_, hdone 6 t hexit hlast, hcompared⟩

end Compare

end HeavenFox.Common
