/-
# HeavenFox.Common.MemPoolInvariant -- the block list of a pool, and what keeps it

Two layers.  The upper one forgets memory: a pool is a list of blocks that tile
the pool from its base on (`Tiles`), and every live allocation owns the used part
of one of them (`Owned`).  The lower one says that the headers in memory are
that list (`Seg`), followed through `sprt_next` from the pool's base to the first
pointer that is not valid.

Blocks whose header lies in the top 4 KB are a corner of their own: their address
reads as an error code, so every walk stops in front of them.  They are kept as
the part of the pool from `top` on.
-/
import HeavenFox.Common.MemPool

namespace HeavenFox.Common.MemPool

open HeavenFox.Logic

/-! ## Blocks that tile the pool -/

/-- A block of the list: where its header is, and its `lenth` and `remain`. -/
structure Blk where
  addr : Nat
  lenth : Nat
  remain : Nat

/-- The blocks lie one after another from `a` to `e`, each with room for its header. -/
def Tiles : Nat → List Blk → Nat → Prop
  | a, [], e => a = e
  | a, b :: bs, e =>
    b.addr = a ∧ 24 ≤ b.lenth ∧ b.remain ≤ b.lenth ∧ Tiles (b.addr + b.lenth) bs e

theorem tiles_append {a e : Nat} {xs ys : List Blk} :
    Tiles a (xs ++ ys) e ↔ ∃ c, Tiles a xs c ∧ Tiles c ys e := by
  induction xs generalizing a with
  | nil => simp [Tiles]
  | cons b xs ih => simp [Tiles, ih, and_assoc]

theorem Tiles.le {a e : Nat} {bs : List Blk} (h : Tiles a bs e) : a + 24 * bs.length ≤ e := by
  induction bs generalizing a with
  | nil => exact Nat.le_of_eq h
  | cons b bs ih =>
    obtain ⟨haddr, hlen, -, hrest⟩ := h
    have := ih hrest
    simp only [List.length_cons]
    omega

theorem Tiles.mem {a e : Nat} {bs : List Blk} (h : Tiles a bs e) {b : Blk} (hb : b ∈ bs) :
    a ≤ b.addr ∧ b.addr + b.lenth ≤ e ∧ 24 ≤ b.lenth ∧ b.remain ≤ b.lenth := by
  obtain ⟨xs, ys, rfl⟩ := List.append_of_mem hb
  obtain ⟨c, hxs, haddr, hlen, hremain, hys⟩ := tiles_append.mp h
  have h1 := hxs.le
  have h2 := hys.le
  omega

theorem mem_middle {xs ys : List Blk} {b c : Blk} :
    c ∈ xs ++ b :: ys ↔ c = b ∨ c ∈ xs ++ ys := by
  simp only [List.mem_append, List.mem_cons]
  tauto

/-- Blocks on either side of a block end before it or begin behind it. -/
theorem Tiles.apart {a e : Nat} {xs ys : List Blk} {b c : Blk} (h : Tiles a (xs ++ b :: ys) e)
    (hc : c ∈ xs ++ ys) : c.addr + c.lenth ≤ b.addr ∨ b.addr + b.lenth ≤ c.addr := by
  obtain ⟨d, hxs, haddr, -, -, hys⟩ := tiles_append.mp h
  rcases List.mem_append.mp hc with hc | hc
  · have := hxs.mem hc
    omega
  · have := hys.mem hc
    omega

/-! ## Live allocations own used parts -/

/-- The allocation is the used part of a block of the list, or lies from `top` on behind a header
whose address is not valid. -/
def Owned (bs : List Blk) (top stop : Nat) (a : Allocation) : Prop :=
  (∃ b ∈ bs, a.ptr = b.addr + 24 ∧ b.remain + (24 + mrtNumAlign4 a.size) = b.lenth) ∨
    (top + 24 ≤ a.ptr ∧ a.stop ≤ stop ∧ isValid (a.ptr - 24) = false)

theorem Owned.inside {base top stop : Nat} {bs : List Blk} {a : Allocation}
    (ht : Tiles base bs top) (htop : top ≤ stop) (h : Owned bs top stop a) :
    base ≤ a.start ∧ a.stop ≤ stop := by
  have hle := ht.le
  unfold Allocation.start Allocation.stop
  rw [memBlockHeaderSize_eq]
  rcases h with ⟨b, hb, hptr, hused⟩ | ⟨hlow, hstop, -⟩
  · have := ht.mem hb
    omega
  · unfold Allocation.stop at hstop
    omega

/-- An allocation cut from what remains in a block meets none that is owned already. -/
theorem Owned.disjoint_of_spare {base top stop : Nat} {xs ys : List Blk} {b : Blk}
    {a new : Allocation} (ht : Tiles base (xs ++ b :: ys) top)
    (h : Owned (xs ++ b :: ys) top stop a) (hlow : b.addr + b.lenth ≤ new.start + b.remain)
    (hhigh : new.stop ≤ b.addr + b.lenth) : new.Disjoint a := by
  have hb := ht.mem (b := b) (by simp)
  unfold Allocation.Disjoint Allocation.start Allocation.stop at *
  rw [memBlockHeaderSize_eq] at *
  rcases h with ⟨c, hc, hptr, hused⟩ | ⟨hlive, -, -⟩
  · rcases mem_middle.mp hc with rfl | hc
    · omega
    · have := ht.apart hc
      omega
  · omega

/-! ## Headers in memory -/

/-- The header at `b.addr` says what the block is. -/
structure Describes (m : Mem) (b : Blk) : Prop where
  magic : get m b.addr .magic = memoryPoolMagic
  base : get m b.addr .base = b.addr + 24
  lenth : get m b.addr .lenth = b.lenth
  remain : get m b.addr .remain = b.remain

theorem Describes.congr {m m' : Mem} {b : Blk} (h : Describes m b)
    (hm : ∀ f, get m' b.addr f = get m b.addr f) : Describes m' b :=
  ⟨(hm _).trans h.magic, (hm _).trans h.base, (hm _).trans h.lenth, (hm _).trans h.remain⟩

/-- Following `sprt_next` from `a` meets the headers of `bs` and comes to `e`. -/
def Seg (m : Mem) : Nat → List Blk → Nat → Prop
  | a, [], e => a = e
  | a, b :: bs, e =>
    a = b.addr ∧ isValid b.addr = true ∧ Describes m b ∧ Seg m (get m b.addr .sprtNext) bs e

theorem seg_append {m : Mem} {a e : Nat} {xs ys : List Blk} :
    Seg m a (xs ++ ys) e ↔ ∃ c, Seg m a xs c ∧ Seg m c ys e := by
  induction xs generalizing a with
  | nil => simp [Seg]
  | cons b xs ih => simp [Seg, ih, and_assoc]

/-- A walk reads only the headers it meets. -/
theorem Seg.congr {m m' : Mem} {a e : Nat} {bs : List Blk} (h : Seg m a bs e)
    (hm : ∀ b ∈ bs, ∀ f, get m' b.addr f = get m b.addr f) : Seg m' a bs e := by
  induction bs generalizing a with
  | nil => exact h
  | cons b bs ih =>
    obtain ⟨ha, hv, hd, hrest⟩ := h
    have hb := hm b (by simp)
    refine ⟨ha, hv, hd.congr hb, ?_⟩
    rw [hb]
    exact ih hrest fun c hc => hm c (List.mem_cons_of_mem b hc)

theorem Seg.mem {m : Mem} {a e : Nat} {bs : List Blk} (h : Seg m a bs e) {b : Blk} (hb : b ∈ bs) :
    isValid b.addr = true ∧ Describes m b := by
  obtain ⟨xs, ys, rfl⟩ := List.append_of_mem hb
  obtain ⟨c, -, -, hv, hd, -⟩ := seg_append.mp h
  exact ⟨hv, hd⟩

/-- The search of `alloc_spare_simple_memory` takes the first block with enough left. -/
theorem allocLoop_seg {m : Mem} {a e n : Nat} {bs : List Blk} (req : Nat) (h : Seg m a bs e)
    (he : isValid e = false) (hn : bs.length < n) :
    allocLoop m req n a =
      .ok (match bs.find? fun b => decide (req ≤ b.remain) with
        | some b => takeFrom m b.addr req
        | none => (0, m)) := by
  induction bs generalizing a n with
  | nil =>
    obtain ⟨k, rfl⟩ : ∃ k, n = k + 1 := ⟨n - 1, by simp at hn; omega⟩
    obtain rfl : a = e := h
    simp [allocLoop, he]
  | cons b bs ih =>
    obtain ⟨k, rfl⟩ : ∃ k, n = k + 1 := ⟨n - 1, by simp at hn; omega⟩
    obtain ⟨rfl, hv, hd, hrest⟩ := h
    rw [allocLoop, if_pos hv, hd.remain]
    by_cases hreq : req ≤ b.remain
    · simp [hreq]
    · rw [if_neg hreq, ih hrest (by simp at hn; omega)]
      simp [hreq]

/-- The search of `check_employ_simple_memory` finds a block exactly when the pointer is the base of
one. -/
theorem findBase_seg {m : Mem} {a e n : Nat} {bs : List Blk} (ptr : Nat) (h : Seg m a bs e)
    (he : isValid e = false) (hn : bs.length < n) :
    findBase m ptr n a =
      .ok (match bs.find? fun b => decide (b.addr + 24 = ptr) with
        | some b => b.addr
        | none => e) := by
  induction bs generalizing a n with
  | nil =>
    obtain ⟨k, rfl⟩ : ∃ k, n = k + 1 := ⟨n - 1, by simp at hn; omega⟩
    obtain rfl : a = e := h
    simp [findBase, he]
  | cons b bs ih =>
    obtain ⟨k, rfl⟩ : ∃ k, n = k + 1 := ⟨n - 1, by simp at hn; omega⟩
    obtain ⟨rfl, hv, hd, hrest⟩ := h
    rw [findBase, if_pos hv, hd.base]
    by_cases hptr : b.addr + 24 = ptr
    · simp [hptr]
    · rw [if_neg hptr, ih hrest (by simp at hn; omega)]
      simp [hptr]

/-! ## What one request does to the headers -/

/-- A request on a whole block only shortens what remains of it. -/
theorem takeFrom_whole {m : Mem} {b : Blk} {req : Nat} (hd : Describes m b)
    (hwhole : b.remain = b.lenth) (hreq : req ≤ b.remain) (haddr : b.addr + 24 < 2 ^ 32) :
    takeFrom m b.addr req = (b.addr + 24, set m b.addr .remain (b.remain - req)) := by
  have hr : b.remain < 2 ^ 32 := hd.remain ▸ get_lt m _ _
  have hzero : sub32 b.lenth b.remain = 0 := by
    rw [hwhole, sub32_of_le (Nat.le_refl _) (hwhole ▸ hr), Nat.sub_self]
  simp only [takeFrom, hd.lenth, hd.remain, hd.base, hwhole, ne_eq, not_true, if_false]
  rw [hwhole] at hzero hr hreq
  rw [hzero, add32_of_lt (by omega), sub32_of_le hreq hr, Nat.add_zero]

/-- The memory after a split: two headers are written and no other header is touched. -/
structure SplitAt (m m' : Mem) (b : Blk) (new req : Nat) : Prop where
  front : Describes m' ⟨b.addr, b.lenth - b.remain, 0⟩
  frontNext : get m' b.addr .sprtNext = new
  frontPrev : get m' b.addr .sprtPrev = get m b.addr .sprtPrev
  back : Describes m' ⟨new, b.remain, b.remain - req⟩
  backNext : get m' new .sprtNext = get m b.addr .sprtNext
  frame : ∀ c f, (c + 24 ≤ b.addr ∨ b.addr + 24 ≤ c) → (c + 24 ≤ new ∨ new + 24 ≤ c) →
    get m' c f = get m c f

/-- A request on a block that is in use splits off what remains of it. -/
theorem takeFrom_split {m : Mem} {b : Blk} {req new : Nat} (hd : Describes m b)
    (hused : b.remain + 24 ≤ b.lenth) (hreq : req ≤ b.remain)
    (haddr : b.addr + b.lenth < 2 ^ 32) (hpos : 24 ≤ req)
    (hnew : new = b.addr + (b.lenth - b.remain)) :
    ∃ m', takeFrom m b.addr req = (new + 24, m') ∧ SplitAt m m' b new req := by
  have hoff : sub32 b.lenth b.remain = b.lenth - b.remain := sub32_of_le (by omega) (by omega)
  have hptr : add32 (b.addr + 24) (b.lenth - b.remain) = new + 24 := by
    rw [add32_of_lt (by omega)]
    omega
  have hsub : sub32 (new + 24) 24 = new := by
    rw [sub32_of_le (by omega) (by omega)]
    omega
  have hrem : sub32 b.remain req = b.remain - req := sub32_of_le hreq (by omega)
  have hnil : sub32 b.remain b.remain = 0 := by
    rw [sub32_of_le (Nat.le_refl _) (by omega), Nat.sub_self]
  have hapart : new + 24 ≤ b.addr ∨ b.addr + 24 ≤ new := by omega
  have hnext : get m b.addr .sprtNext < 2 ^ 32 := get_lt m _ _
  have hne : ¬ b.lenth = b.remain := by omega
  have hmagic : memoryPoolMagic < 2 ^ 32 := by decide
  simp only [takeFrom, memBlockHeaderSize_eq, hd.lenth, hd.remain, hd.base, hoff, hptr, hsub,
    ne_eq, hne, not_false_eq_true, if_true]
  refine ⟨_, rfl, ?_⟩
  constructor
  · constructor <;> simp (disch := first | decide | omega) only
      [get_set_same, get_set_field, get_set_apart, hd.magic, hd.base, hd.remain, hrem, hnil]
  · simp (disch := first | decide | omega) only [get_set_same]
  · simp (disch := first | decide | omega) only [get_set_field, get_set_apart]
  · constructor <;> simp (disch := first | decide | omega) only
      [get_set_same, get_set_field, get_set_apart, hd.remain, hrem]
  · simp (disch := first | decide | omega) only [get_set_same, get_set_field, get_set_apart]
  · intro c f hcb hcn
    have hbc : b.addr + 24 ≤ c ∨ c + 24 ≤ b.addr := hcb.symm
    have hnc : new + 24 ≤ c ∨ c + 24 ≤ new := hcn.symm
    simp only [get_set_apart hbc, get_set_apart hnc]

/-! ## What one release does to the headers -/

/-- The memory after a block has been joined to the one in front of it. -/
structure JoinAt (m m' : Mem) (q b : Blk) : Prop where
  front : Describes m' ⟨q.addr, q.lenth + b.lenth, q.remain + b.lenth⟩
  frontNext : get m' q.addr .sprtNext = get m b.addr .sprtNext
  frontPrev : get m' q.addr .sprtPrev = get m q.addr .sprtPrev
  frame : ∀ c f, (c + 24 ≤ q.addr ∨ q.addr + 24 ≤ c) → (c + 24 ≤ b.addr ∨ b.addr + 24 ≤ c) →
    get m' c f = get m c f

/-- A release whose `sprt_prev` names a block joins the two. -/
theorem mergePrev_join {m : Mem} {q b : Blk} (hq : Describes m q) (hb : Describes m b)
    (hprev : get m b.addr .sprtPrev = q.addr) (hvalid : isValid q.addr = true)
    (hapart : q.addr + 24 ≤ b.addr ∨ b.addr + 24 ≤ q.addr) (hlen : q.lenth + b.lenth < 2 ^ 32)
    (hrem : q.remain + b.lenth < 2 ^ 32) :
    JoinAt m (mergePrev m b.addr) q b := by
  have hblen : b.lenth < 2 ^ 32 := by omega
  have hnext : get m b.addr .sprtNext < 2 ^ 32 := get_lt m _ _
  have hapart' := hapart.symm
  simp only [mergePrev, hprev, hvalid, if_true]
  constructor
  · constructor <;> simp (disch := first | decide | assumption) only
      [get_set_same, get_set_field, get_set_apart, hq.magic, hq.base, hq.lenth, hq.remain,
        hb.lenth, add32_of_lt]
  · simp (disch := first | decide | assumption) only [get_set_same, get_set_field, get_set_apart]
  · simp (disch := first | decide | assumption) only [get_set_field, get_set_apart]
  · intro c f hcq hcb
    simp only [get_set_apart hcq.symm, get_set_apart hcb.symm]

/-- A release with a null `sprt_prev` makes its own block whole. -/
theorem mergePrev_whole {m : Mem} {b : Blk} (hb : Describes m b)
    (hprev : get m b.addr .sprtPrev = 0) :
    mergePrev m b.addr = set m b.addr .remain b.lenth := by
  have hnull : isValid 0 = false := by decide
  simp only [mergePrev, hprev, hnull, hb.lenth, Bool.false_eq_true, if_false]

/-- A following block that is in use, or none at all, is not joined. -/
theorem mergeNext_skip {m : Mem} {a e blk : Nat} {ys : List Blk} (hseg : Seg m a ys e)
    (he : isValid e = false) (hys : ∀ c ∈ ys, c.remain ≠ c.lenth) : mergeNext m blk a = m := by
  cases ys with
  | nil =>
    obtain rfl : a = e := hseg
    simp [mergeNext, he]
  | cons c ys =>
    obtain ⟨rfl, -, hd, -⟩ := hseg
    have hne : c.lenth ≠ c.remain := (hys c (by simp)).symm
    simp [mergeNext, hd.lenth, hd.remain, hne]

/-! ## The block in front -/

/-- No block leads to one that only stands first in the list. -/
theorem listPrev_first {m : Mem} {a e blk n : Nat} {bs : List Blk} (h : Seg m a bs e)
    (he : isValid e = false) (hblk : isValid blk = true) (hbs : ∀ c ∈ bs.tail, c.addr ≠ blk) :
    listPrev m blk n a = 0 := by
  induction bs generalizing a n with
  | nil =>
    obtain rfl : a = e := h
    cases n <;> simp [listPrev, he]
  | cons b bs ih =>
    obtain ⟨rfl, hv, -, hrest⟩ := h
    have hne : get m b.addr .sprtNext ≠ blk := by
      cases bs with
      | nil =>
        rintro rfl
        rw [show get m b.addr .sprtNext = e from hrest, he] at hblk
        cases hblk
      | cons c bs =>
        rw [hrest.1]
        exact hbs c (by simp)
    cases n with
    | zero => rfl
    | succ n =>
      rw [listPrev, if_pos hv, if_neg hne]
      exact ih hrest fun c hc => hbs c (List.mem_of_mem_tail hc)

/-- The walk for the block in front stops at the one whose `sprt_next` it is. -/
theorem listPrev_behind {m : Mem} {a e n : Nat} {xs ys : List Blk} {q b : Blk}
    (h : Seg m a (xs ++ q :: b :: ys) e) (hne : ∀ c ∈ xs ++ [q], c.addr ≠ b.addr)
    (hn : xs.length < n) : listPrev m b.addr n a = q.addr := by
  induction xs generalizing a n with
  | nil =>
    obtain ⟨k, rfl⟩ : ∃ k, n = k + 1 := ⟨n - 1, by simp at hn; omega⟩
    obtain ⟨rfl, hv, -, hnext, -⟩ := h
    rw [listPrev, if_pos hv, if_pos hnext]
  | cons x xs ih =>
    obtain ⟨k, rfl⟩ : ∃ k, n = k + 1 := ⟨n - 1, by simp at hn; omega⟩
    obtain ⟨rfl, hv, -, hrest⟩ := h
    have hskip : get m x.addr .sprtNext ≠ b.addr := by
      cases xs with
      | nil =>
        rw [hrest.1]
        exact hne q (by simp)
      | cons c xs =>
        rw [hrest.1]
        exact hne c (by simp)
    rw [listPrev, if_pos hv, if_neg hskip]
    exact ih hrest (fun c hc => hne c (by simp_all)) (by simpa using hn)

/-! ## Replacing a stretch of the list -/

/-- Blocks in the middle of the list replaced by others that lead to the same place. -/
theorem Seg.splice {m m' : Mem} {a e : Nat} {xs ys : List Blk} (us zs : List Blk)
    (h : Seg m a (xs ++ (us ++ ys)) e) (hm : ∀ c ∈ xs ++ ys, ∀ f, get m' c.addr f = get m c.addr f)
    (hz : ∀ c d, Seg m c us d → Seg m' c zs d) : Seg m' a (xs ++ (zs ++ ys)) e := by
  obtain ⟨c, hxs, hrest⟩ := seg_append.mp h
  obtain ⟨d, hus, hys⟩ := seg_append.mp hrest
  refine seg_append.mpr ⟨c, hxs.congr fun b hb => hm b (List.mem_append_left _ hb), ?_⟩
  exact seg_append.mpr ⟨d, hz c d hus, hys.congr fun b hb => hm b (List.mem_append_right _ hb)⟩

theorem Tiles.splice {a e : Nat} {xs ys : List Blk} (us zs : List Blk)
    (h : Tiles a (xs ++ (us ++ ys)) e)
    (hz : ∀ c d, Tiles c us d → Tiles c zs d) : Tiles a (xs ++ (zs ++ ys)) e := by
  obtain ⟨c, hxs, hrest⟩ := tiles_append.mp h
  obtain ⟨d, hus, hys⟩ := tiles_append.mp hrest
  exact tiles_append.mpr ⟨c, hxs, tiles_append.mpr ⟨d, hz c d hus, hys⟩⟩

/-! ## The invariant -/

/-- The pool `s` consists of the blocks `bs`, which end at `top`; the walk through them ends at the
pointer `e`.  With `strict`, no release has been lost to a pointer that reads as an error code. -/
structure Holds (strict : Prop) (s : State) (bs : List Blk) (top e : Nat) : Prop where
  headed : s.info.sprtMem = s.info.base
  fits : s.info.base + s.info.lenth < 2 ^ 32
  nonempty : bs ≠ []
  seg : Seg s.mem s.info.base bs e
  ended : isValid e = false
  tiles : Tiles s.info.base bs top
  topLe : top ≤ s.info.base + s.info.lenth
  headPrev : get s.mem s.info.base .sprtPrev = 0
  used : ∀ b ∈ bs, b.remain + 24 ≤ b.lenth ∨ b.remain = b.lenth ∧ b.addr = s.info.base
  owned : ∀ a ∈ s.live, Owned bs top (s.info.base + s.info.lenth) a
  disjoint : s.live.Pairwise Allocation.Disjoint
  inUse : ∀ b ∈ bs, b.remain ≠ b.lenth →
    (∃ a ∈ s.live, a.ptr = b.addr + 24) ∨ ¬ strict ∧ isValid (b.addr + 24) = false
  hidden : strict → (e = 0 ∧ top = s.info.base + s.info.lenth) ∨
    ∃ a ∈ s.live, isValid (a.ptr - 24) = false

namespace Holds

variable {strict : Prop} {s : State} {bs : List Blk} {top e : Nat}

theorem safe (h : Holds strict s bs top e) : Safe s :=
  ⟨h.disjoint, fun a ha => (h.owned a ha).inside h.tiles h.topLe⟩

theorem length_lt (h : Holds strict s bs top e) : bs.length < walkRounds := by
  have h1 := h.tiles.le
  have h2 := h.topLe
  have h3 := h.fits
  unfold walkRounds
  omega

theorem base_valid (h : Holds strict s bs top e) : isValid s.info.base = true := by
  have hseg := h.seg
  cases bs with
  | nil => exact absurd rfl h.nonempty
  | cons b bs =>
    rw [hseg.1]
    exact hseg.2.1

/-- Headers of different blocks share no byte. -/
theorem header_apart {xs ys : List Blk} {b c : Blk} (h : Holds strict s (xs ++ b :: ys) top e)
    (hc : c ∈ xs ++ ys) : b.addr + 24 ≤ c.addr ∨ c.addr + 24 ≤ b.addr := by
  have hsep := h.tiles.apart hc
  have hb := h.tiles.mem (b := b) (by simp)
  have hc' := h.tiles.mem (mem_middle.mpr (Or.inr hc))
  omega

end Holds

end HeavenFox.Common.MemPool
