/-
# HeavenFox.Common.MemPoolSteps -- every call keeps the block list

One lemma for each of the three things a caller can do.  Each says that the call
returns and that the invariant `Holds` is there again, with the new block list
spelled out by the proof: a request shortens a whole block or splits one that is
in use, a release makes the first block whole or joins a block to the one in
front of it.
-/
import HeavenFox.Common.MemPoolInvariant

namespace HeavenFox.Common.MemPool

open HeavenFox.Logic

namespace Holds

variable {strict : Prop} {s : State} {bs xs ys : List Blk} {b : Blk} {top e : Nat}

/-- Writing `lenth`, `remain` or `sprt_next` anywhere in the list leaves `sprt_prev` of the first
block alone. -/
theorem headPrev_congr {m' : Mem} (h : Holds strict s (xs ++ b :: ys) top e)
    (hb : get m' b.addr .sprtPrev = get s.mem b.addr .sprtPrev)
    (hm : ∀ c ∈ xs ++ ys, ∀ f, get m' c.addr f = get s.mem c.addr f) :
    get m' s.info.base .sprtPrev = 0 := by
  have hseg := h.seg
  cases xs with
  | nil =>
    obtain ⟨ha, -⟩ := hseg
    rw [ha, hb, ← ha]
    exact h.headPrev
  | cons c xs =>
    obtain ⟨ha, -⟩ := hseg
    rw [ha, hm c (by simp), ← ha]
    exact h.headPrev

/-! ## Requests -/

/-- What a request has to show.  Every block keeps its place and the length of its used part, the
new allocation is owned and meets no live one, and no other block has come into use. -/
theorem request {m' : Mem} {zs : List Blk} {top' e' : Nat} (new : Allocation)
    (h : Holds strict s bs top e) (hne : zs ≠ []) (hseg : Seg m' s.info.base zs e')
    (hended : isValid e' = false) (htiles : Tiles s.info.base zs top') (htop : top' ≤ top)
    (hprev : get m' s.info.base .sprtPrev = 0)
    (hused : ∀ d ∈ zs, d.remain + 24 ≤ d.lenth ∨ d.remain = d.lenth ∧ d.addr = s.info.base)
    (hkeep : ∀ c ∈ bs, ∃ d ∈ zs, d.addr = c.addr ∧
      ∀ k, 24 ≤ k → c.remain + k = c.lenth → d.remain + k = d.lenth)
    (hnew : Owned zs top' (s.info.base + s.info.lenth) new)
    (hdisjoint : ∀ a ∈ s.live, new.Disjoint a)
    (hback : ∀ d ∈ zs, d.remain ≠ d.lenth →
      new.ptr = d.addr + 24 ∨ ∃ c ∈ bs, c.addr = d.addr ∧ c.remain ≠ c.lenth)
    (hhidden : (e' = e ∧ top' = top) ∨ isValid (new.ptr - 24) = false) :
    Holds strict { s with mem := m', live := new :: s.live } zs top' e' := by
  refine
    { headed := h.headed, fits := h.fits, nonempty := hne, seg := hseg, ended := hended,
      tiles := htiles, topLe := htop.trans h.topLe, headPrev := hprev, used := hused, owned := ?_,
      disjoint := List.pairwise_cons.mpr ⟨hdisjoint, h.disjoint⟩, inUse := ?_, hidden := ?_ }
  · intro a ha
    rcases List.mem_cons.mp ha with rfl | ha
    · exact hnew
    · rcases h.owned a ha with ⟨c, hc, hptr, hk⟩ | ⟨hlow, hstop, hinvalid⟩
      · obtain ⟨d, hd, haddr, hd'⟩ := hkeep c hc
        exact Or.inl ⟨d, hd, haddr ▸ hptr, hd' _ (Nat.le_add_right 24 _) hk⟩
      · exact Or.inr ⟨by omega, hstop, hinvalid⟩
  · intro d hd hdne
    rcases hback d hd hdne with hptr | ⟨c, hc, haddr, hcne⟩
    · exact Or.inl ⟨new, List.mem_cons_self, hptr⟩
    · rw [← haddr]
      exact (h.inUse c hc hcne).imp
        (fun ⟨a, ha, hptr⟩ => ⟨a, List.mem_cons_of_mem _ ha, hptr⟩) id
  · intro hs
    rcases hhidden with ⟨rfl, rfl⟩ | hhid
    · exact (h.hidden hs).imp id fun ⟨a, ha, hptr⟩ => ⟨a, List.mem_cons_of_mem _ ha, hptr⟩
    · exact Or.inr ⟨new, List.mem_cons_self, hhid⟩

/-- An allocation cut from what remains of a block meets no live one. -/
theorem disjoint_spare {ptr size : Nat} (h : Holds strict s (xs ++ b :: ys) top e)
    (hlow : b.addr + b.lenth ≤ ptr - 24 + b.remain)
    (hhigh : ptr + mrtNumAlign4 size ≤ b.addr + b.lenth) :
    ∀ a ∈ s.live, (⟨ptr, size⟩ : Allocation).Disjoint a :=
  fun _ ha => (h.owned _ ha).disjoint_of_spare h.tiles hlow hhigh

/-- A request served from the first block while that is whole. -/
theorem takeWhole {size req : Nat} (h : Holds strict s (xs ++ b :: ys) top e)
    (hreq : req = 24 + mrtNumAlign4 size) (hle : req ≤ b.remain) (hwhole : b.remain = b.lenth) :
    Holds strict
      { s with
        mem := set s.mem b.addr .remain (b.remain - req)
        live := ⟨b.addr + 24, size⟩ :: s.live }
      (xs ++ { b with remain := b.remain - req } :: ys) top e := by
  have hmem : b ∈ xs ++ b :: ys := by simp
  obtain ⟨hlow, hhigh, hlen, hrem⟩ := h.tiles.mem hmem
  obtain ⟨hvalid, hdesc⟩ := h.seg.mem hmem
  have hfits := h.fits
  have htop := h.topLe
  have hframe : ∀ c ∈ xs ++ ys, ∀ f,
      get (set s.mem b.addr .remain (b.remain - req)) c.addr f = get s.mem c.addr f :=
    fun c hc f => get_set_apart (h.header_apart hc)
  have hdesc' : Describes (set s.mem b.addr .remain (b.remain - req))
      { b with remain := b.remain - req } := by
    have hlt : b.remain - req < 2 ^ 32 := by omega
    constructor <;> simp (disch := first | decide | assumption) only
      [get_set_same, get_set_field, hdesc.magic, hdesc.base, hdesc.lenth]
  refine h.request _ (by simp) ?_ h.ended ?_ (Nat.le_refl top) ?_ ?_ ?_ ?_ ?_ ?_
    (Or.inl ⟨rfl, rfl⟩)
  · refine Seg.splice [b] [{ b with remain := b.remain - req }] h.seg hframe ?_
    rintro c d ⟨rfl, -, -, hnext⟩
    refine ⟨rfl, hvalid, hdesc', ?_⟩
    rw [get_set_field (by decide)]
    exact hnext
  · refine Tiles.splice [b] [{ b with remain := b.remain - req }] h.tiles ?_
    rintro c d ⟨rfl, -, -, hd⟩
    exact ⟨rfl, hlen, by simp only; omega, hd⟩
  · exact h.headPrev_congr (get_set_field (by decide)) hframe
  · intro c hc
    rcases mem_middle.mp hc with rfl | hc
    · left
      simp only
      omega
    · exact h.used c (mem_middle.mpr (Or.inr hc))
  · intro c hc
    rcases mem_middle.mp hc with rfl | hc
    · -- nothing of a whole block is used
      exact ⟨_, mem_middle.mpr (Or.inl rfl), rfl, fun k hk hk' => by omega⟩
    · exact ⟨c, mem_middle.mpr (Or.inr hc), rfl, fun k _ hk => hk⟩
  · left
    exact ⟨{ b with remain := b.remain - req }, by simp, rfl, by simp only; omega⟩
  · exact h.disjoint_spare (by omega) (by omega)
  · intro c hc hne
    rcases mem_middle.mp hc with rfl | hc
    · exact Or.inl rfl
    · exact Or.inr ⟨c, mem_middle.mpr (Or.inr hc), rfl, hne⟩

/-- Both headers of a split lie in the block that is split, so no other header is written. -/
theorem split_frame {m' : Mem} {new req : Nat} (h : Holds strict s (xs ++ b :: ys) top e)
    (hsplit : SplitAt s.mem m' b new req) (hnew : new = b.addr + (b.lenth - b.remain))
    (hused : b.remain + 24 ≤ b.lenth) (hle : req ≤ b.remain) (hpos : 24 ≤ req) :
    ∀ c ∈ xs ++ ys, ∀ f, get m' c.addr f = get s.mem c.addr f := by
  intro c hc f
  have hsep := h.tiles.apart hc
  have hheader := h.header_apart hc
  have hc' := h.tiles.mem (mem_middle.mpr (Or.inr hc))
  refine hsplit.frame c.addr f hheader.symm ?_
  omega

/-- A request served by splitting a block, with the new header at a valid address. -/
theorem split {m' : Mem} {new req size : Nat} (h : Holds strict s (xs ++ b :: ys) top e)
    (hsplit : SplitAt s.mem m' b new req) (hnew : new = b.addr + (b.lenth - b.remain))
    (hused : b.remain + 24 ≤ b.lenth) (hreq : req = 24 + mrtNumAlign4 size)
    (hle : req ≤ b.remain) (hvalid : isValid new = true) :
    Holds strict { s with mem := m', live := ⟨new + 24, size⟩ :: s.live }
      (xs ++ ⟨b.addr, b.lenth - b.remain, 0⟩ :: ⟨new, b.remain, b.remain - req⟩ :: ys) top e := by
  have hmem : b ∈ xs ++ b :: ys := by simp
  obtain ⟨hlow, hhigh, hlen, hrem⟩ := h.tiles.mem hmem
  have hframe := h.split_frame hsplit hnew hused hle (by omega)
  have hcases : ∀ c, c ∈ xs ++
      ⟨b.addr, b.lenth - b.remain, 0⟩ :: ⟨new, b.remain, b.remain - req⟩ :: ys ↔
      c = ⟨b.addr, b.lenth - b.remain, 0⟩ ∨ c = ⟨new, b.remain, b.remain - req⟩ ∨
        c ∈ xs ++ ys := by
    intro c
    rw [mem_middle, mem_middle]
  refine h.request _ (by simp) ?_ h.ended ?_ (Nat.le_refl top) ?_ ?_ ?_ ?_ ?_ ?_
    (Or.inl ⟨rfl, rfl⟩)
  · refine Seg.splice [b] [_, _] h.seg hframe ?_
    rintro c d ⟨rfl, hv, -, hnext⟩
    refine ⟨rfl, hv, hsplit.front, ?_⟩
    refine ⟨hsplit.frontNext, hvalid, hsplit.back, ?_⟩
    rw [hsplit.backNext]
    exact hnext
  · refine Tiles.splice [b] [_, _] h.tiles ?_
    rintro c d ⟨rfl, -, -, hd⟩
    refine ⟨rfl, ?_, ?_, ?_⟩
    · simp only
      omega
    · exact Nat.zero_le _
    · refine ⟨hnew, ?_, ?_, ?_⟩
      · simp only
        omega
      · exact Nat.sub_le _ _
      · have hd' : b.addr + b.lenth = d := hd
        show new + b.remain = d
        omega
  · exact h.headPrev_congr hsplit.frontPrev hframe
  · intro c hc
    rcases (hcases c).mp hc with rfl | rfl | hc
    · left
      simp only
      omega
    · left
      simp only
      omega
    · exact h.used c (mem_middle.mpr (Or.inr hc))
  · intro c hc
    rcases mem_middle.mp hc with rfl | hc
    · refine ⟨_, (hcases _).mpr (Or.inl rfl), rfl, fun k _ hk => ?_⟩
      simp only
      omega
    · exact ⟨c, (hcases c).mpr (Or.inr (Or.inr hc)), rfl, fun k _ hk => hk⟩
  · left
    refine ⟨⟨new, b.remain, b.remain - req⟩, by simp, rfl, ?_⟩
    simp only
    omega
  · exact h.disjoint_spare (by omega) (by omega)
  · intro c hc hne
    rcases (hcases c).mp hc with rfl | rfl | hc
    · exact Or.inr ⟨b, hmem, rfl, by omega⟩
    · exact Or.inl rfl
    · exact Or.inr ⟨c, mem_middle.mpr (Or.inr hc), rfl, hne⟩

/-- A block behind one that ends in front of an invalid address would start higher still, at an
address that is not valid either. -/
theorem last_of_invalid {new : Nat} (h : Holds strict s (xs ++ b :: ys) top e)
    (hlow : b.addr ≤ new) (hhigh : new ≤ b.addr + b.lenth) (hvalid : isValid new = false) :
    ys = [] := by
  cases ys with
  | nil => rfl
  | cons c ys =>
    have hc : isValid c.addr = true := (h.seg.mem (b := c) (by simp)).1
    have hb : isValid b.addr = true := (h.seg.mem (b := b) (by simp)).1
    obtain ⟨-, -, -, -, -, hcaddr, -⟩ := tiles_append.mp h.tiles
    rw [isValid_iff] at hc hb
    have : isValid new = true := isValid_iff.mpr (by omega)
    simp [this] at hvalid

/-- A request served by splitting the last block where the new header's address reads as an error
code: the list ends in front of it. -/
theorem splitHidden {m' : Mem} {new req size : Nat} (h : Holds strict s (xs ++ b :: ys) top e)
    (hsplit : SplitAt s.mem m' b new req) (hnew : new = b.addr + (b.lenth - b.remain))
    (hused : b.remain + 24 ≤ b.lenth) (hreq : req = 24 + mrtNumAlign4 size)
    (hle : req ≤ b.remain) (hvalid : isValid new = false) :
    Holds strict { s with mem := m', live := ⟨new + 24, size⟩ :: s.live }
      (xs ++ [⟨b.addr, b.lenth - b.remain, 0⟩]) new new := by
  have hmem : b ∈ xs ++ b :: ys := by simp
  obtain ⟨hlow, hhigh, hlen, hrem⟩ := h.tiles.mem hmem
  have htop := h.topLe
  have hframe := h.split_frame hsplit hnew hused hle (by omega)
  obtain rfl := h.last_of_invalid (by omega) (by omega) hvalid
  obtain ⟨c, hsegx, hsegb⟩ := seg_append.mp h.seg
  obtain ⟨c', htilex, htileb⟩ := tiles_append.mp h.tiles
  refine h.request _ (by simp) ?_ hvalid ?_ (by omega) ?_ ?_ ?_ ?_ ?_ ?_
    (Or.inr (by simpa using hvalid))
  · refine seg_append.mpr ⟨c, hsegx.congr fun d hd => hframe d (List.mem_append_left _ hd), ?_⟩
    exact ⟨hsegb.1, hsegb.2.1, hsplit.front, hsplit.frontNext⟩
  · refine tiles_append.mpr ⟨c', htilex, htileb.1, ?_, Nat.zero_le _, ?_⟩
    · simp only
      omega
    · exact hnew.symm
  · exact h.headPrev_congr hsplit.frontPrev hframe
  · intro d hd
    rcases mem_middle.mp hd with rfl | hd
    · left
      simp only
      omega
    · exact h.used d (mem_middle.mpr (Or.inr hd))
  · intro d hd
    rcases mem_middle.mp hd with rfl | hd
    · refine ⟨_, mem_middle.mpr (Or.inl rfl), rfl, fun k _ hk => ?_⟩
      simp only
      omega
    · exact ⟨d, mem_middle.mpr (Or.inr hd), rfl, fun k _ hk => hk⟩
  · right
    refine ⟨Nat.le_refl _, ?_, by simpa using hvalid⟩
    simp only [Allocation.stop]
    omega
  · exact h.disjoint_spare (by omega) (by omega)
  · intro d hd hne
    rcases mem_middle.mp hd with rfl | hd
    · exact Or.inr ⟨b, hmem, rfl, by omega⟩
    · exact Or.inr ⟨d, mem_middle.mpr (Or.inr hd), rfl, hne⟩

/-- **Every request returns and keeps the invariant.** -/
theorem step_alloc {size : Nat} (h : Holds strict s bs top e) (hlegal : Legal s (.alloc size)) :
    ∃ s', step s (.alloc size) = some s' ∧ s'.info = s.info ∧
      ∃ bs' top' e', Holds strict s' bs' top' e' := by
  have hreq : add32 (mrtNumAlign4 size) memBlockHeaderSize = 24 + mrtNumAlign4 size := by
    rw [add32_of_lt hlegal.2, memBlockHeaderSize_eq, Nat.add_comm]
  have hcall := allocLoop_seg (24 + mrtNumAlign4 size) h.seg h.ended h.length_lt
  simp only [step, allocSpareSimpleMemory, h.headed, h.base_valid, if_true, hreq, hcall]
  cases hfind : bs.find? fun b => decide (24 + mrtNumAlign4 size ≤ b.remain) with
  | none => exact ⟨s, by simp, rfl, bs, top, e, h⟩
  | some b =>
    obtain ⟨hle, xs, ys, rfl, -⟩ := List.find?_eq_some_iff_append.mp hfind
    rw [decide_eq_true_eq] at hle
    have hmem : b ∈ xs ++ b :: ys := by simp
    obtain ⟨hlow, hhigh, hlen, hrem⟩ := h.tiles.mem hmem
    obtain ⟨hvalid, hdesc⟩ := h.seg.mem hmem
    have hfits := h.fits
    have htop := h.topLe
    rcases h.used b hmem with hused | ⟨hwhole, -⟩
    · obtain ⟨m', htake, hsplit⟩ :=
        takeFrom_split hdesc hused hle (by omega) (Nat.le_add_right 24 _) rfl
      refine ⟨_, rfl, rfl, ?_⟩
      simp only [htake, Nat.succ_ne_zero, if_false]
      by_cases hv : isValid (b.addr + (b.lenth - b.remain)) = true
      · exact ⟨_, _, _, h.split hsplit rfl hused rfl hle hv⟩
      · exact ⟨_, _, _, h.splitHidden hsplit rfl hused rfl hle (by simpa using hv)⟩
    · have htake := takeFrom_whole hdesc hwhole hle (by omega)
      refine ⟨_, rfl, rfl, ?_⟩
      simp only [htake, Nat.succ_ne_zero, if_false]
      exact ⟨_, _, _, h.takeWhole rfl hle hwhole⟩

/-! ## Releases -/

/-- A release that the pointer checks turn away: the callers have given the allocation up, the pool
has not taken it back. -/
theorem drop {ptr : Nat} (h : Holds strict s bs top e) (hns : ¬ strict)
    (hlost : ∀ b ∈ bs, b.addr + 24 = ptr → isValid (b.addr + 24) = false) :
    Holds strict { s with live := s.live.filter fun a => a.ptr ≠ ptr } bs top e := by
  refine
    { h with
      owned := fun a ha => h.owned a (List.mem_filter.mp ha).1
      disjoint := h.disjoint.filter _
      inUse := ?_
      hidden := fun hs => absurd hs hns }
  intro b hb hne
  rcases h.inUse b hb hne with ⟨a, ha, hptr⟩ | hlost'
  · by_cases hp : a.ptr = ptr
    · exact Or.inr ⟨hns, hlost b hb (hptr ▸ hp)⟩
    · exact Or.inl ⟨a, by simp [ha, hp], hptr⟩
  · exact Or.inr hlost'

/-- What a release has to show.  The blocks other than the released one keep their place and the
length of their used part, and no block is in use that was not. -/
theorem release {m' : Mem} {zs : List Blk} (h : Holds strict s bs top e)
    (hb : isValid b.addr = true) (hseg : Seg m' s.info.base zs e)
    (htiles : Tiles s.info.base zs top) (hprev : get m' s.info.base .sprtPrev = 0)
    (hused : ∀ d ∈ zs, d.remain + 24 ≤ d.lenth ∨ d.remain = d.lenth ∧ d.addr = s.info.base)
    (hkeep : ∀ c ∈ bs, c.addr ≠ b.addr → ∃ d ∈ zs, d.addr = c.addr ∧
      ∀ k, c.remain + k = c.lenth → d.remain + k = d.lenth)
    (hback : ∀ d ∈ zs, d.remain ≠ d.lenth →
      d.addr ≠ b.addr ∧ ∃ c ∈ bs, c.addr = d.addr ∧ c.remain ≠ c.lenth)
    (hne : zs ≠ []) :
    Holds strict { s with mem := m', live := s.live.filter fun a => a.ptr ≠ b.addr + 24 }
      zs top e := by
  refine
    { headed := h.headed, fits := h.fits, nonempty := hne, seg := hseg, ended := h.ended,
      tiles := htiles, topLe := h.topLe, headPrev := hprev, used := hused, owned := ?_,
      disjoint := h.disjoint.filter _, inUse := ?_, hidden := ?_ }
  · intro a ha
    obtain ⟨ha, hptr⟩ := List.mem_filter.mp ha
    rw [decide_eq_true_eq] at hptr
    rcases h.owned a ha with ⟨c, hc, hc', hk⟩ | hhid
    · obtain ⟨d, hd, haddr, hd'⟩ := hkeep c hc (by omega)
      exact Or.inl ⟨d, hd, by rw [haddr]; exact hc', hd' _ hk⟩
    · exact Or.inr hhid
  · intro d hd hne
    obtain ⟨hdb, c, hc, haddr, hc'⟩ := hback d hd hne
    rw [← haddr] at hdb ⊢
    rcases h.inUse c hc hc' with ⟨a, ha, hptr⟩ | hlost
    · have hkept : a.ptr ≠ b.addr + 24 := by omega
      exact Or.inl ⟨a, by simp [ha, hkept], hptr⟩
    · exact Or.inr hlost
  · intro hs
    refine (h.hidden hs).imp id fun ⟨a, ha, hhid⟩ => ?_
    have hkept : a.ptr ≠ b.addr + 24 := by
      intro heq
      rw [heq, Nat.add_sub_cancel, hb] at hhid
      cases hhid
    exact ⟨a, by simp [ha, hkept], hhid⟩

/-- Only the first block can be whole. -/
theorem not_whole (h : Holds strict s (xs ++ b :: ys) top e) :
    ∀ c ∈ ys, c.remain ≠ c.lenth := by
  intro c hc
  obtain ⟨d, hxs, haddr, hlen, -, hys⟩ := tiles_append.mp h.tiles
  have hlow := hxs.le
  have hcmem := hys.mem hc
  have := h.used c (List.mem_append_right _ (List.mem_cons_of_mem b hc))
  omega

/-- Different blocks have different addresses. -/
theorem addr_ne {c : Blk} (h : Holds strict s (xs ++ b :: ys) top e) (hc : c ∈ xs ++ ys) :
    c.addr ≠ b.addr := by
  have := h.header_apart hc
  omega

/-- The release of the first block. -/
theorem freeFirst (h : Holds strict s (b :: ys) top e) :
    Holds strict
      { s with
        mem := set s.mem b.addr .remain b.lenth
        live := s.live.filter fun a => a.ptr ≠ b.addr + 24 }
      ({ b with remain := b.lenth } :: ys) top e := by
  have h₀ : Holds strict s ([] ++ b :: ys) top e := h
  have hmem : b ∈ [] ++ b :: ys := by simp
  obtain ⟨hlow, hhigh, hlen, hrem⟩ := h.tiles.mem hmem
  obtain ⟨hvalid, hdesc⟩ := h.seg.mem hmem
  have hfits := h.fits
  have htop := h.topLe
  have hlt : b.lenth < 2 ^ 32 := by omega
  have hbase : s.info.base = b.addr := h.seg.1
  have hframe : ∀ c ∈ [] ++ ys, ∀ f,
      get (set s.mem b.addr .remain b.lenth) c.addr f = get s.mem c.addr f :=
    fun c hc f => get_set_apart (h₀.header_apart hc)
  refine h.release hvalid ?_ ?_ ?_ ?_ ?_ ?_ (by simp)
  · refine Seg.splice [b] [{ b with remain := b.lenth }] h₀.seg hframe ?_
    rintro c d ⟨rfl, -, -, hnext⟩
    refine ⟨rfl, hvalid, ?_, ?_⟩
    · constructor <;> simp (disch := first | decide | assumption) only
        [get_set_same, get_set_field, hdesc.magic, hdesc.base, hdesc.lenth]
    · rw [get_set_field (by decide)]
      exact hnext
  · refine Tiles.splice [b] [{ b with remain := b.lenth }] h₀.tiles ?_
    rintro c d ⟨rfl, -, -, hd⟩
    exact ⟨rfl, hlen, Nat.le_refl _, hd⟩
  · rw [hbase, get_set_field (by decide), ← hbase]
    exact h.headPrev
  · intro d hd
    rcases List.mem_cons.mp hd with rfl | hd
    · exact Or.inr ⟨rfl, hbase.symm⟩
    · exact h.used d (List.mem_cons_of_mem b hd)
  · intro c hc hcb
    rcases List.mem_cons.mp hc with rfl | hc
    · exact absurd rfl hcb
    · exact ⟨c, List.mem_cons_of_mem _ hc, rfl, fun k hk => hk⟩
  · intro d hd hne
    rcases List.mem_cons.mp hd with rfl | hd
    · exact absurd rfl hne
    · exact ⟨h₀.addr_ne hd, d, List.mem_cons_of_mem b hd, rfl, hne⟩

/-- The release of a block behind another one. -/
theorem freeBehind {m' : Mem} {q : Blk} (h : Holds strict s (xs ++ q :: b :: ys) top e)
    (hjoin : JoinAt s.mem m' q b) :
    Holds strict
      { s with
        mem := m'
        live := s.live.filter fun a => a.ptr ≠ b.addr + 24 }
      (xs ++ ⟨q.addr, q.lenth + b.lenth, q.remain + b.lenth⟩ :: ys) top e := by
  have hb : Holds strict s ((xs ++ [q]) ++ b :: ys) top e := by simpa using h
  have hqmem := h.tiles.mem (b := q) (by simp)
  have hbmem := h.tiles.mem (b := b) (by simp)
  have hbehind : ∀ c ∈ xs ++ ys, c ∈ (xs ++ [q]) ++ ys := by
    intro c hc
    rw [List.append_assoc, List.singleton_append]
    exact mem_middle.mpr (Or.inr hc)
  have hframe : ∀ c ∈ xs ++ ys, ∀ f, get m' c.addr f = get s.mem c.addr f := by
    intro c hc f
    exact hjoin.frame c.addr f (h.header_apart (mem_middle.mpr (Or.inr hc))).symm
      (hb.header_apart (hbehind c hc)).symm
  have hold : ∀ c ∈ xs ++ ys, c ∈ xs ++ q :: b :: ys :=
    fun c hc => mem_middle.mpr (Or.inr (mem_middle.mpr (Or.inr hc)))
  have hqb : q.addr ≠ b.addr := hb.addr_ne (by simp)
  refine h.release (h.seg.mem (b := b) (by simp)).1 ?_ ?_ ?_ ?_ ?_ ?_ (by simp)
  · refine Seg.splice [q, b] [_] h.seg hframe ?_
    rintro c d ⟨rfl, hv, -, -, -, -, hnext⟩
    exact ⟨rfl, hv, hjoin.front, hjoin.frontNext.trans hnext⟩
  · refine Tiles.splice [q, b] [_] h.tiles ?_
    rintro c d ⟨rfl, hlen, hrem, haddr, hlen', -, hd⟩
    have hd' : b.addr + b.lenth = d := hd
    refine ⟨rfl, ?_, ?_, ?_⟩
    · simp only
      omega
    · simp only
      omega
    · show q.addr + (q.lenth + b.lenth) = d
      omega
  · have hseg := h.seg
    cases xs with
    | nil =>
      rw [hseg.1, hjoin.frontPrev, ← hseg.1]
      exact h.headPrev
    | cons c xs =>
      rw [hseg.1, hframe c (by simp), ← hseg.1]
      exact h.headPrev
  · intro d hd
    rcases mem_middle.mp hd with rfl | hd
    · have hq := h.used q (by simp)
      simp only
      omega
    · exact h.used d (hold d hd)
  · intro c hc hcb
    rcases mem_middle.mp hc with rfl | hc
    · refine ⟨_, mem_middle.mpr (Or.inl rfl), rfl, fun k hk => ?_⟩
      simp only
      omega
    · rcases mem_middle.mp hc with rfl | hc
      · exact absurd rfl hcb
      · exact ⟨c, mem_middle.mpr (Or.inr hc), rfl, fun k hk => hk⟩
  · intro d hd hne
    rcases mem_middle.mp hd with rfl | hd
    · exact ⟨hqb, q, by simp, rfl, by simp only at hne; omega⟩
    · exact ⟨hb.addr_ne (hbehind d hd), d, hold d hd, rfl, hne⟩

/-- The pointer checks let the base of a block of the list through. -/
theorem checkEmploy_found (h : Holds strict s (xs ++ b :: ys) top e) :
    checkEmploySimpleMemory s.mem s.info.base (b.addr + 24) = .ok b.addr := by
  have hmem : b ∈ xs ++ b :: ys := by simp
  obtain ⟨hlow, hhigh, hlen, hrem⟩ := h.tiles.mem hmem
  obtain ⟨hvalid, hdesc⟩ := h.seg.mem hmem
  have hfits := h.fits
  have htop := h.topLe
  have hblock : sub32 (b.addr + 24) memBlockHeaderSize = b.addr := by
    rw [memBlockHeaderSize_eq, sub32_of_le (by omega) (by omega), Nat.add_sub_cancel]
  have hfound := findBase_seg (b.addr + 24) h.seg h.ended h.length_lt
  simp only [checkEmploySimpleMemory, hblock, hvalid, hdesc.magic, hfound, ne_eq, not_true,
    Bool.true_eq_false, or_self, if_false]
  cases hfind : (xs ++ b :: ys).find? fun c => decide (c.addr + 24 = b.addr + 24) with
  | none =>
    have := List.find?_eq_none.mp hfind b hmem
    simp at this
  | some c =>
    have hc := (h.seg.mem (List.mem_of_find?_eq_some hfind)).1
    simp [hc]

/-- The block in front of the first one is none. -/
theorem listPrev_head (h : Holds strict s (b :: ys) top e) :
    listPrev s.mem b.addr walkRounds s.info.base = 0 := by
  have h₀ : Holds strict s ([] ++ b :: ys) top e := h
  exact listPrev_first h.seg h.ended (h.seg.mem (b := b) (by simp)).1 fun _ hc => h₀.addr_ne hc

theorem listPrev_next {q : Blk} (h : Holds strict s (xs ++ q :: b :: ys) top e) :
    listPrev s.mem b.addr walkRounds s.info.base = q.addr := by
  have hb : Holds strict s ((xs ++ [q]) ++ b :: ys) top e := by simpa using h
  have hlen : xs.length < walkRounds := by
    have := h.length_lt
    simp only [List.length_append, List.length_cons] at this
    omega
  exact listPrev_behind h.seg (fun c hc => hb.addr_ne (List.mem_append_left _ hc)) hlen

/-- The release of the first block only writes its `remain`. -/
theorem free_first (h : Holds strict s (b :: ys) top e) (hptr : isValid (b.addr + 24) = true)
    (hprev : get s.mem b.addr .sprtPrev = 0) :
    freeEmploySimpleMemory s.mem s.info.base (b.addr + 24) =
      .ok (set s.mem b.addr .remain b.lenth) := by
  have h₀ : Holds strict s ([] ++ b :: ys) top e := h
  obtain ⟨-, hbvalid, hdesc, hsegy⟩ := h.seg
  have hskip : mergeNext (set s.mem b.addr .remain b.lenth) b.addr (get s.mem b.addr .sprtNext)
      = set s.mem b.addr .remain b.lenth := by
    refine mergeNext_skip (hsegy.congr fun c hc f => ?_) h.ended h₀.not_whole
    exact get_set_apart (h₀.header_apart hc)
  refine (freeEmploy_of_check hptr h₀.checkEmploy_found hbvalid).trans ?_
  have hblock : mergedBlock s.mem b.addr = b.addr := by
    rw [mergedBlock, hprev]
    exact if_neg (by decide)
  rw [releaseBlock, mergePrev_whole hdesc hprev, hblock, hskip]

/-- The release of a block behind another one joins the two. -/
theorem free_behind {q : Blk} (h : Holds strict s (xs ++ q :: b :: ys) top e)
    (hptr : isValid (b.addr + 24) = true) (hprev : get s.mem b.addr .sprtPrev = q.addr) :
    freeEmploySimpleMemory s.mem s.info.base (b.addr + 24) = .ok (mergePrev s.mem b.addr) ∧
      JoinAt s.mem (mergePrev s.mem b.addr) q b := by
  have hb : Holds strict s ((xs ++ [q]) ++ b :: ys) top e := by simpa using h
  have hqmem := h.tiles.mem (b := q) (by simp)
  have hbmem := h.tiles.mem (b := b) (by simp)
  have hfits := h.fits
  have htop := h.topLe
  obtain ⟨hqvalid, hqdesc⟩ := h.seg.mem (b := q) (by simp)
  obtain ⟨hbvalid, hdesc⟩ := h.seg.mem (b := b) (by simp)
  obtain ⟨c, -, -, -, -, -, -, -, hsegy⟩ := seg_append.mp h.seg
  obtain ⟨d, -, hqaddr, -, -, hbaddr, -, -, -⟩ := tiles_append.mp h.tiles
  have hjoin :=
    mergePrev_join hqdesc hdesc hprev hqvalid (by omega) (by omega) (by omega)
  have hskip : mergeNext (mergePrev s.mem b.addr) q.addr (get s.mem b.addr .sprtNext) =
      mergePrev s.mem b.addr := by
    refine mergeNext_skip (hsegy.congr fun c hc f => ?_) h.ended hb.not_whole
    refine hjoin.frame c.addr f (h.header_apart ?_).symm (hb.header_apart ?_).symm
    · exact List.mem_append_right _ (List.mem_cons_of_mem b hc)
    · exact List.mem_append_right _ hc
  have hblock : mergedBlock s.mem b.addr = q.addr := by
    rw [mergedBlock, hprev, if_pos hqvalid]
  refine ⟨?_, hjoin⟩
  refine (freeEmploy_of_check hptr hb.checkEmploy_found hbvalid).trans ?_
  rw [releaseBlock, hblock, hskip]

theorem step_free_eq {m' : Mem} {ptr : Nat}
    (h : freeEmploySimpleMemory s.mem s.info.sprtMem ptr = .ok m') :
    step s (.free ptr) =
      some { s with mem := m', live := s.live.filter fun a => a.ptr ≠ ptr } := by
  simp only [step, h]

/-- The header of a block, as a release computes it from the pointer. -/
theorem sub32_header (h : Holds strict s (xs ++ b :: ys) top e) :
    sub32 (b.addr + 24) memBlockHeaderSize = b.addr := by
  have hb := h.tiles.mem (b := b) (by simp)
  have hfits := h.fits
  have htop := h.topLe
  rw [memBlockHeaderSize_eq, sub32_of_le (by omega) (by omega), Nat.add_sub_cancel]

/-- A live pointer that passes the pointer checks is the base of a block of the list. -/
theorem live_block {a : Allocation} (h : Holds strict s bs top e) (ha : a ∈ s.live)
    (hblock : isValid (sub32 a.ptr memBlockHeaderSize) = true) :
    ∃ b xs ys, bs = xs ++ b :: ys ∧ a.ptr = b.addr + 24 := by
  rcases h.owned a ha with ⟨b, hb, haddr, -⟩ | ⟨hlow, hstop, hhid⟩
  · obtain ⟨xs, ys, rfl⟩ := List.append_of_mem hb
    exact ⟨b, xs, ys, rfl, haddr⟩
  · have hfits := h.fits
    simp only [Allocation.stop] at hstop
    rw [memBlockHeaderSize_eq, sub32_of_le (by omega) (by omega), hhid] at hblock
    cases hblock

/-- **Every release of a live pointer returns and keeps the invariant**, when the `sprt_prev` it goes
by is current. -/
theorem step_free {ptr : Nat} (h : Holds strict s bs top e) (hlegal : Legal s (.free ptr))
    (hcur : PrevCurrent s (.free ptr)) (hvalid : strict → PtrValid (.free ptr)) :
    ∃ s', step s (.free ptr) = some s' ∧ s'.info = s.info ∧
      ∃ bs' top' e', Holds strict s' bs' top' e' := by
  by_cases hpass : isValid ptr = true ∧ isValid (sub32 ptr memBlockHeaderSize) = true
  · obtain ⟨hptr, hblock⟩ := hpass
    obtain ⟨a, ha, rfl⟩ := hlegal
    have hprev := hcur hptr hblock
    obtain ⟨b, xs, ys, rfl, haddr⟩ := h.live_block ha hblock
    rw [haddr, h.sub32_header, h.headed] at hprev
    rw [haddr] at hptr ⊢
    -- the block in front decides what the release joins
    rcases xs.eq_nil_or_concat with rfl | ⟨xs, q, rfl⟩
    · have hfree := Holds.free_first h hptr (hprev.trans (Holds.listPrev_head h))
      rw [← h.headed] at hfree
      exact ⟨_, step_free_eq hfree, rfl, _, _, _, Holds.freeFirst h⟩
    · have h' : Holds strict s (xs ++ q :: b :: ys) top e := by simpa using h
      obtain ⟨hfree, hjoin⟩ := h'.free_behind hptr (hprev.trans h'.listPrev_next)
      rw [← h.headed] at hfree
      exact ⟨_, step_free_eq hfree, rfl, _, _, _, h'.freeBehind hjoin⟩
  · have hfree : freeEmploySimpleMemory s.mem s.info.sprtMem ptr = .ok s.mem :=
      freeEmploy_of_refused fun hptr => checkEmploy_invalid (by simpa [hptr] using hpass)
    refine ⟨_, step_free_eq hfree, rfl, bs, top, e, ?_⟩
    refine h.drop (fun hs => hpass (hvalid hs)) fun b hb haddr => ?_
    obtain ⟨xs, ys, rfl⟩ := List.append_of_mem hb
    have hbvalid := (h.seg.mem hb).1
    rw [← haddr, h.sub32_header, hbvalid] at hpass
    simpa using hpass

/-! ## Stores -/

/-- A caller's store into its own memory writes no header. -/
theorem step_write {addr : Nat} {v : UInt8} (h : Holds strict s bs top e)
    (hlegal : Legal s (.write addr v)) :
    Holds strict { s with mem := store8 s.mem addr v } bs top e := by
  obtain ⟨a, ha, hlow, hhigh⟩ := hlegal
  have hframe : ∀ c ∈ bs, ∀ f, get (store8 s.mem addr v) c.addr f = get s.mem c.addr f := by
    intro c hc f
    have hcmem := h.tiles.mem hc
    refine get_store8_of_outside ?_
    simp only [Allocation.stop] at hhigh
    rcases h.owned a ha with ⟨b, hb, hptr, hused⟩ | ⟨htop, -, -⟩
    · obtain ⟨xs, ys, rfl⟩ := List.append_of_mem hb
      have hbmem := h.tiles.mem hb
      rcases mem_middle.mp hc with rfl | hc
      · omega
      · have hsep := h.tiles.apart hc
        omega
    · omega
  have hprev : get (store8 s.mem addr v) s.info.base .sprtPrev = 0 := by
    have hseg := h.seg
    cases bs with
    | nil => exact absurd rfl h.nonempty
    | cons b bs =>
      rw [hseg.1, hframe b (by simp), ← hseg.1]
      exact h.headPrev
  exact { h with seg := h.seg.congr hframe, headPrev := hprev }

end Holds

end HeavenFox.Common.MemPool
