/-
# HeavenFox.Platform.FwkMempool -- the kernel's memory pool

`kmalloc` and `kcalloc` of `fwk_mempool.c`: a simple pool behind a spin lock.

The size of a request goes through three additions and multiplications of 32-bit numbers
before it is compared with what is left in a block: `kcalloc` multiplies, and the pool
rounds up to a multiple of four and adds a block header.  Any of them can wrap, and then a
huge request is served by a small block.  `requests_fit_iff` says exactly which requests
are answered with as many bytes as were asked for.
-/
import HeavenFox.Common.MemPoolRuns
import HeavenFox.Kernel.Spinlock

namespace HeavenFox.Platform

open HeavenFox.Common HeavenFox.Common.MemPool HeavenFox.Kernel HeavenFox.Logic

/-! ## Data -/

/-- `NR_KMEM_ZERO`, which is `GFP_ZERO`. -/
def nrKmemZero : Nat := 1

/-- `NR_KMEM_NORMAL`. -/
def nrKmemNormal : Nat := 2

/-- `NR_KMEM_WAIT`. -/
def nrKmemWait : Nat := 4

/-- `GFP_KERNEL`. -/
def gfpKernel : Nat := nrKmemWait ||| nrKmemNormal

/-- `sgrt_kernel_mempool`, the memory it lies in, and the core; `sgrtLock` is the address of its lock. -/
structure FwkMempool where
  mem : Mem
  sprtInfo : MemInfo
  cpu : CpuState
  sgrtLock : Nat

/-! ## Calls -/

/-- `memory_reset`: the end address is a 32-bit sum. -/
def memoryReset (m : Mem) (dest size : Nat) : Mem := fun x =>
  if dest ≠ 0 ∧ dest ≤ x ∧ x < add32 dest size then 0 else m x

/-- `kmalloc`.  With one core nobody releases the lock while this call waits for it. -/
def kmalloc (s : FwkMempool) (size flags : Nat) : Except Stop (FwkMempool × Nat) :=
  if flags &&& nrKmemNormal = 0 then .ok (s, 0)
  else if flags &&& nrKmemWait ≠ 0 ∧ spinIsLocked s.cpu s.sgrtLock then .error .spins
  else do
    let cpu ← spinLockIrqsave s.cpu s.sgrtLock
    let (p, mem) ← allocSpareSimpleMemory s.mem s.sprtInfo.sprtMem size
    if !isValid p then pure ({ s with mem, cpu := spinUnlockIrqrestore cpu s.sgrtLock }, 0)
    else
      let mem := if flags &&& nrKmemZero ≠ 0 then memoryReset mem p size else mem
      pure ({ s with mem, cpu := spinUnlockIrqrestore cpu s.sgrtLock }, p)

/-- `kcalloc`: the product is a 32-bit number. -/
def kcalloc (s : FwkMempool) (size n flags : Nat) : Except Stop (FwkMempool × Nat) :=
  kmalloc s (size * n % 2 ^ 32) flags

/-! ## Well-formed pools -/

/-- The walk from the pool's first block meets the headers of `bs` and ends; the blocks lie in the
pool, which starts at a multiple of four. -/
structure WellFormed (m : Mem) (info : MemInfo) (bs : List Blk) : Prop where
  headed : info.sprtMem = info.base
  aligned : 4 ∣ info.base
  fits : info.base + info.lenth < 2 ^ 32
  walk : ∃ e, isValid e = false ∧ Seg m info.base bs e
  nodup : (bs.map Blk.addr).Nodup
  inside : ∀ b ∈ bs, info.base ≤ b.addr ∧ b.addr + b.lenth ≤ info.base + info.lenth ∧
    b.remain ≤ b.lenth

/-- What a request for `size` bytes is compared with. -/
def request (size : Nat) : Nat := add32 (mrtNumAlign4 size) memBlockHeaderSize

/-- The address behind a header at the start of what is left in the block. -/
def spare (b : Blk) : Nat := b.addr + 24 + (b.lenth - b.remain)

/-- The first block that serves a request for `size` bytes. -/
def serving (bs : List Blk) (size : Nat) : Option Blk :=
  bs.find? fun b => decide (request size ≤ b.remain)

/-- `p` is null, or has `total` bytes before the end of the pool. -/
def InPool (info : MemInfo) (p total : Nat) : Prop := p = 0 ∨ p + total ≤ info.base + info.lenth

/-- When a call that is to provide `total` bytes, and asks the pool for `total % 2 ^ 32`, keeps its
word: it is refused at once, or nothing wraps, or no block is served, or the address of what is
left of the block that is reads as an error code or wraps itself. -/
def Fits (bs : List Blk) (flags total : Nat) : Prop :=
  flags &&& nrKmemNormal = 0 ∨ total + 28 ≤ 2 ^ 32 ∨
    ∀ b, serving bs (total % 2 ^ 32) = some b →
      isValid (spare b % 2 ^ 32) = false ∨ (total < 2 ^ 32 ∧ 2 ^ 32 ≤ spare b)

variable {m : Mem} {info : MemInfo} {bs : List Blk} {size flags total : Nat} {b : Blk}
  {s : FwkMempool}

theorem WellFormed.length_lt (h : WellFormed m info bs) : bs.length < walkRounds := by
  obtain ⟨e, -, hseg⟩ := h.walk
  have hvalid : ∀ p ∈ bs.map Blk.addr, isValid p = true := by
    intro p hp
    obtain ⟨b, hb, rfl⟩ := List.mem_map.mp hp
    exact (hseg.mem hb).1
  have hlen := length_of_nodup_isValid h.nodup hvalid
  rw [List.length_map] at hlen
  unfold walkRounds
  omega

/-- A pool with a block starts at a valid address. -/
theorem WellFormed.base_pos (h : WellFormed m info bs) (hb : b ∈ bs) : 4 ≤ info.base := by
  obtain ⟨e, -, hseg⟩ := h.walk
  have hvalid : isValid info.base = true := by
    cases bs with
    | nil => exact absurd hb List.not_mem_nil
    | cons c bs =>
      rw [hseg.1]
      exact hseg.2.1
  exact Nat.le_of_dvd (isValid_iff.mp hvalid).1 h.aligned

theorem fresh_aligned (r : Region) (m : Mem) : 4 ∣ (fresh r m).info.base := by
  have hnull : isValid 0 = false := by decide
  have hsize : ¬ r.size ≤ memBlockHeaderSize := Nat.not_le.mpr r.longer
  simp only [fresh, memorySimpleBlockCreate, hsize, hnull, if_false, Bool.false_eq_true,
    Option.getD_some, mrtNumAlign4_eq]
  exact Nat.dvd_mul_left 4 _

theorem nodup_of_tiles {a e : Nat} (h : Tiles a bs e) : (bs.map Blk.addr).Nodup := by
  induction bs generalizing a with
  | nil => exact List.nodup_nil
  | cons b bs ih =>
    obtain ⟨-, hlen, -, hrest⟩ := h
    rw [List.map_cons, List.nodup_cons]
    refine ⟨?_, ih hrest⟩
    intro hmem
    obtain ⟨c, hc, heq⟩ := List.mem_map.mp hmem
    have := (hrest.mem hc).1
    omega

/-- A pool of one block. -/
theorem wellFormed_of_whole (hheaded : info.sprtMem = info.base) (haligned : 4 ∣ info.base)
    (hfits : info.base + info.lenth < 2 ^ 32) (hwhole : Whole m info)
    (hvalid : isValid info.base = true) :
    WellFormed m info [⟨info.base, info.lenth, info.lenth⟩] := by
  refine ⟨hheaded, haligned, hfits, ⟨0, by decide, hwhole.seg hvalid⟩, List.nodup_singleton _, ?_⟩
  intro b hb
  rw [List.mem_singleton.mp hb]
  exact ⟨Nat.le_refl _, Nat.le_refl _, Nat.le_refl _⟩

/-- A pool that was created on a region of memory is well formed, and stays so over every run. -/
theorem wellFormed_of_inv {strict : Prop} {r : Region} {t : State}
    (h : Inv strict (fresh r m).info t) : ∃ bs, WellFormed t.mem t.info bs := by
  have haligned : 4 ∣ t.info.base := by
    rw [h.1]
    exact fresh_aligned r m
  obtain ⟨-, hidle | ⟨bs, top, e, hholds⟩⟩ := h
  · cases hvalid : isValid t.info.base with
    | false =>
      exact ⟨[], hidle.headed, haligned, hidle.fits, ⟨t.info.base, hvalid, rfl⟩, List.nodup_nil,
        fun b hb => absurd hb List.not_mem_nil⟩
    | true =>
      exact ⟨_, wellFormed_of_whole hidle.headed haligned hidle.fits hidle.whole hvalid⟩
  · refine ⟨bs, hholds.headed, haligned, hholds.fits, ⟨e, hholds.ended, hholds.seg⟩,
      nodup_of_tiles hholds.tiles, ?_⟩
    intro b hb
    have := hholds.tiles.mem hb
    have := hholds.topLe
    omega

/-! ## One request -/

/-- The pointer that `kmalloc` returns for a request that it does not refuse at once. -/
def answer (bs : List Blk) (size : Nat) : Nat :=
  match serving bs size with
  | none => 0
  | some b => if isValid (spare b % 2 ^ 32) then spare b % 2 ^ 32 else 0

theorem takeFrom_fst (hb : Describes m b) (hle : b.remain ≤ b.lenth) (req : Nat) :
    (takeFrom m b.addr req).1 = spare b % 2 ^ 32 := by
  have hlenth : b.lenth < 2 ^ 32 := hb.lenth ▸ get_lt m _ _
  have hptr : (takeFrom m b.addr req).1 =
      add32 (get m b.addr .base) (sub32 (get m b.addr .lenth) (get m b.addr .remain)) := by
    simp only [takeFrom, apply_ite Prod.fst, ite_self]
  rw [hptr, hb.base, hb.lenth, hb.remain, sub32_of_le hle hlenth, add32, spare]

/-- The pool answers with the first block that has enough left. -/
theorem WellFormed.alloc (h : WellFormed m info bs) (size : Nat) :
    ∃ m', allocSpareSimpleMemory m info.sprtMem size =
      .ok ((serving bs size).elim 0 fun b => spare b % 2 ^ 32, m') := by
  obtain ⟨e, he, hseg⟩ := h.walk
  rw [allocSpareSimpleMemory, h.headed]
  cases hvalid : isValid info.base with
  | false =>
    cases bs with
    | nil =>
      rw [if_neg Bool.false_ne_true]
      exact ⟨m, rfl⟩
    | cons b bs =>
      rw [hseg.1, hseg.2.1] at hvalid
      cases hvalid
  | true =>
    rw [if_pos rfl, allocLoop_seg _ hseg he h.length_lt, serving, request]
    cases hserving : bs.find? fun b =>
        decide (add32 (mrtNumAlign4 size) memBlockHeaderSize ≤ b.remain) with
    | none => exact ⟨m, rfl⟩
    | some b =>
      have hb : b ∈ bs := List.mem_of_find?_eq_some hserving
      have hptr := takeFrom_fst (hseg.mem hb).2 (h.inside b hb).2.2
        (add32 (mrtNumAlign4 size) memBlockHeaderSize)
      exact ⟨_, congrArg Except.ok (Prod.ext hptr rfl)⟩

/-- **`kmalloc`** with a free lock. -/
theorem kmalloc_eq (h : WellFormed s.mem s.sprtInfo bs)
    (hfree : (s.cpu.locks s.sgrtLock).sgrtAtc = 0) (size flags : Nat) :
    ∃ s', kmalloc s size flags =
      .ok (s', if flags &&& nrKmemNormal = 0 then 0 else answer bs size) := by
  have hunlocked : spinIsLocked s.cpu s.sgrtLock = false := by
    rw [spinIsLocked, hfree]
    rfl
  by_cases hflags : flags &&& nrKmemNormal = 0
  · refine ⟨s, ?_⟩
    rw [kmalloc, if_pos hflags, if_pos hflags]
  · obtain ⟨mem, halloc⟩ := h.alloc size
    rw [kmalloc, if_neg hflags, if_neg hflags, if_neg (by simp [hunlocked])]
    simp only [spinLockIrqsave, spinLock, hunlocked, Bool.false_eq_true, if_false, halloc, bind,
      Except.bind, pure, Except.pure]
    rw [answer]
    cases serving bs size with
    | none => exact ⟨_, rfl⟩
    | some b =>
      dsimp only [Option.elim_some]
      by_cases hvalid : isValid (spare b % 2 ^ 32) = true
      · simp only [hvalid, Bool.not_true, Bool.false_eq_true, if_false, if_true]
        exact ⟨_, rfl⟩
      · simp only [hvalid, Bool.not_false, if_true, if_false, Bool.false_eq_true]
        exact ⟨_, rfl⟩

/-! ## Requests that wrap -/

/-- **The arithmetic.**  A request that does not wrap gets what it asks for; one that does is longer
than the address space behind any pointer it can get. -/
theorem inPool_answer_iff (h : WellFormed m info bs) (total : Nat) :
    InPool info (answer bs (total % 2 ^ 32)) total ↔
      total + 28 ≤ 2 ^ 32 ∨ ∀ b, serving bs (total % 2 ^ 32) = some b →
        isValid (spare b % 2 ^ 32) = false ∨ (total < 2 ^ 32 ∧ 2 ^ 32 ≤ spare b) := by
  cases hserving : serving bs (total % 2 ^ 32) with
  | none =>
    rw [answer, hserving]
    exact ⟨fun _ => Or.inr nofun, fun _ => Or.inl rfl⟩
  | some b =>
    have hb : b ∈ bs := List.mem_of_find?_eq_some hserving
    have hreq : request (total % 2 ^ 32) ≤ b.remain := by
      simpa using List.find?_some hserving
    obtain ⟨hbase, hend, hremain⟩ := h.inside b hb
    have hfits := h.fits
    have hpos := h.base_pos hb
    rw [request, mrtNumAlign4_eq, memBlockHeaderSize_eq] at hreq
    unfold add32 at hreq
    rw [answer, hserving]
    dsimp only
    cases hvalid : isValid (spare b % 2 ^ 32) with
    | false =>
      refine ⟨fun _ => Or.inr ?_, fun _ => Or.inl rfl⟩
      intro c hc
      cases hc
      exact Or.inl hvalid
    | true =>
      have hptr := isValid_iff.mp hvalid
      rw [if_pos rfl]
      unfold InPool
      unfold spare at hptr ⊢
      constructor
      · intro hin
        refine or_iff_not_imp_left.mpr fun hwraps c hc => Or.inr ?_
        cases hc
        omega
      · rintro (hsmall | hwraps)
        · omega
        · rcases hwraps b rfl with hrefused | hwrapped
          · cases hvalid.symm.trans hrefused
          · omega

/-- **`kmalloc` and `kcalloc`** return, and what they return lies in the pool as far as the caller
believes it to exactly when the request fits. -/
theorem requests_fit_iff (s : FwkMempool) (bs : List Blk) (size n flags : Nat)
    (h : WellFormed s.mem s.sprtInfo bs) (hfree : (s.cpu.locks s.sgrtLock).sgrtAtc = 0)
    (hsize : size < 2 ^ 32) :
    (∃ s' p, kmalloc s size flags = .ok (s', p) ∧
      (InPool s.sprtInfo p size ↔ Fits bs flags size)) ∧
    ∃ s' p, kcalloc s size n flags = .ok (s', p) ∧
      (InPool s.sprtInfo p (size * n) ↔ Fits bs flags (size * n)) := by
  have hboth : ∀ total, ∃ s' p, kmalloc s (total % 2 ^ 32) flags = .ok (s', p) ∧
      (InPool s.sprtInfo p total ↔ Fits bs flags total) := by
    intro total
    obtain ⟨s', hrun⟩ := kmalloc_eq h hfree (total % 2 ^ 32) flags
    refine ⟨s', _, hrun, ?_⟩
    by_cases hflags : flags &&& nrKmemNormal = 0
    · rw [if_pos hflags]
      exact ⟨fun _ => Or.inl hflags, fun _ => Or.inl rfl⟩
    · rw [if_neg hflags, inPool_answer_iff h total, Fits, or_iff_right hflags]
  refine ⟨?_, hboth (size * n)⟩
  have hone := hboth size
  rwa [Nat.mod_eq_of_lt hsize] at hone

/-! ## A pool of one page -/

/-- The core with all locks free, and a pool just created on a page of memory. -/
def pageMempool : FwkMempool where
  mem := (fresh page fun _ => 0).mem
  sprtInfo := (fresh page fun _ => 0).info
  cpu := ⟨0x13, 0, fun _ => ⟨0, 0⟩⟩
  sgrtLock := 0x8f000

/-- The only block of that pool. -/
def pageBlk : Blk := ⟨0x80000000, 0x1000, 0x1000⟩

theorem pageMempool_wellFormed : WellFormed pageMempool.mem pageMempool.sprtInfo [pageBlk] :=
  wellFormed_of_whole rfl (by decide) (by decide) (fresh_whole page _) (by decide)

theorem requests_fit_iff_page :
    (∃ s' p, kmalloc pageMempool 100 gfpKernel = .ok (s', p) ∧
      (InPool pageMempool.sprtInfo p 100 ↔ Fits [pageBlk] gfpKernel 100)) ∧
    ∃ s' p, kcalloc pageMempool 100 7 gfpKernel = .ok (s', p) ∧
      (InPool pageMempool.sprtInfo p (100 * 7) ↔ Fits [pageBlk] gfpKernel (100 * 7)) :=
  requests_fit_iff pageMempool [pageBlk] 100 7 gfpKernel pageMempool_wellFormed rfl (by decide)

/-- 4 GB less one byte, and twice 2 GB, are found in one page. -/
theorem huge_requests_served :
    (∃ s', kmalloc pageMempool 0xffffffff gfpKernel = .ok (s', 0x80000018)) ∧
    (∃ s', kcalloc pageMempool 0x80000000 2 gfpKernel = .ok (s', 0x80000018)) ∧
    ¬ InPool pageMempool.sprtInfo 0x80000018 0xffffffff ∧
    ¬ InPool pageMempool.sprtInfo 0x80000018 (0x80000000 * 2) := by
  have hmalloc := kmalloc_eq pageMempool_wellFormed rfl 0xffffffff gfpKernel
  have hcalloc := kmalloc_eq pageMempool_wellFormed rfl (0x80000000 * 2 % 2 ^ 32) gfpKernel
  rw [show (if gfpKernel &&& nrKmemNormal = 0 then 0 else answer [pageBlk] 0xffffffff) = 0x80000018
    by decide] at hmalloc
  rw [show (if gfpKernel &&& nrKmemNormal = 0 then 0
    else answer [pageBlk] (0x80000000 * 2 % 2 ^ 32)) = 0x80000018 by decide] at hcalloc
  have hpage : pageMempool.sprtInfo = ⟨0x80000000, 0x1000, 0x80000000⟩ := rfl
  refine ⟨hmalloc, hcalloc, ?_, ?_⟩
  · rw [InPool, hpage]
    decide
  · rw [InPool, hpage]
    decide

end HeavenFox.Platform
