/-
# HeavenFox.Common.MemPoolRuns -- what a pool guarantees over whole runs

The three guarantees of a pool: live allocations never meet, a pool that nobody
uses is whole again, and a pointer that is not live is ignored.  Each holds along
every run in which no release goes by a stale `sprt_prev`.  A split and a merge
leave the `sprt_prev` of the following block as it was, so runs that miss the
condition exist, and one run of that kind stands behind each guarantee.
-/
import HeavenFox.Common.MemPoolSteps

namespace HeavenFox.Common.MemPool

open HeavenFox.Logic

/-! ## A pool just created -/

/-- The pool is a single block as long as the pool, and nothing of it is given away. -/
structure Whole (m : Mem) (info : MemInfo) : Prop where
  magic : get m info.base .magic = memoryPoolMagic
  base : get m info.base .base = add32 info.base memBlockHeaderSize
  lenth : get m info.base .lenth = info.lenth
  remain : get m info.base .remain = info.lenth
  sprtPrev : get m info.base .sprtPrev = 0
  sprtNext : get m info.base .sprtNext = 0

instance (m : Mem) (info : MemInfo) : Decidable (Whole m info) :=
  decidable_of_iff
    (get m info.base .magic = memoryPoolMagic ∧
      get m info.base .base = add32 info.base memBlockHeaderSize ∧
      get m info.base .lenth = info.lenth ∧ get m info.base .remain = info.lenth ∧
      get m info.base .sprtPrev = 0 ∧ get m info.base .sprtNext = 0)
    ⟨fun ⟨h1, h2, h3, h4, h5, h6⟩ => ⟨h1, h2, h3, h4, h5, h6⟩,
      fun ⟨h1, h2, h3, h4, h5, h6⟩ => ⟨h1, h2, h3, h4, h5, h6⟩⟩

/-- Creation succeeds on every region; the rounding of its start is taken off its length. -/
theorem fresh_info (r : Region) (m : Mem) :
    (fresh r m).live = [] ∧ (fresh r m).info.sprtMem = (fresh r m).info.base ∧
      (fresh r m).info.base + (fresh r m).info.lenth = r.memAddr + r.size := by
  have hfits := r.fits
  have hlong := r.longer
  rw [memBlockHeaderSize_eq] at hlong
  obtain ⟨hlow, hhigh⟩ := mrtNumAlign4_bounds (x := r.memAddr) (by omega)
  have hround : sub32 (mrtNumAlign4 r.memAddr) r.memAddr = mrtNumAlign4 r.memAddr - r.memAddr :=
    sub32_of_le hlow (by omega)
  have hlenth : sub32 r.size (mrtNumAlign4 r.memAddr - r.memAddr) =
      r.size - (mrtNumAlign4 r.memAddr - r.memAddr) := sub32_of_le (by omega) (by omega)
  have hnull : isValid 0 = false := by decide
  have hsize : ¬ r.size ≤ memBlockHeaderSize := by
    rw [memBlockHeaderSize_eq]
    omega
  simp only [fresh, memorySimpleBlockCreate, hsize, hnull, if_false, Bool.false_eq_true,
    Option.getD_some, hround, hlenth, true_and]
  omega

theorem fresh_whole (r : Region) (m : Mem) : Whole (fresh r m).mem (fresh r m).info := by
  have hnull : isValid 0 = false := by decide
  have hsize : ¬ r.size ≤ memBlockHeaderSize := Nat.not_le.mpr r.longer
  have hmagic : memoryPoolMagic < 2 ^ 32 := by decide
  have hzero : 0 < 2 ^ 32 := by decide
  simp only [fresh, memorySimpleBlockCreate, hsize, hnull, if_false, Bool.false_eq_true,
    Option.getD_some]
  constructor <;>
    simp (disch := first | decide | assumption | exact add32_lt _ _ | exact sub32_lt _ _) only
      [get_set_same, get_set_field]

/-- A whole pool at a valid address is a list of one block. -/
theorem Whole.seg {m : Mem} {info : MemInfo} (h : Whole m info) (hvalid : isValid info.base = true) :
    Seg m info.base [⟨info.base, info.lenth, info.lenth⟩] 0 := by
  have hbase : add32 info.base memBlockHeaderSize = info.base + 24 := by
    rw [isValid_iff] at hvalid
    rw [memBlockHeaderSize_eq, add32_of_lt (by omega)]
  exact ⟨rfl, hvalid, ⟨h.magic, h.base.trans hbase, h.lenth, h.remain⟩, h.sprtNext⟩

/-! ## The invariant of a run -/

/-- A pool too short for one request, or built at an address that reads as an error code.  No request
on it succeeds. -/
structure Idle (s : State) : Prop where
  live : s.live = []
  headed : s.info.sprtMem = s.info.base
  fits : s.info.base + s.info.lenth < 2 ^ 32
  whole : Whole s.mem s.info
  useless : isValid s.info.base = true → s.info.lenth < 24

/-- What every state of a run satisfies. -/
def Inv (strict : Prop) (info : MemInfo) (s : State) : Prop :=
  s.info = info ∧ (Idle s ∨ ∃ bs top e, Holds strict s bs top e)

theorem fresh_inv (strict : Prop) (r : Region) (m : Mem) :
    Inv strict (fresh r m).info (fresh r m) := by
  obtain ⟨hlive, hheaded, hend⟩ := fresh_info r m
  have hwhole := fresh_whole r m
  have hfits : (fresh r m).info.base + (fresh r m).info.lenth < 2 ^ 32 := hend ▸ r.fits
  refine ⟨rfl, ?_⟩
  by_cases hok : isValid (fresh r m).info.base = true ∧ 24 ≤ (fresh r m).info.lenth
  · obtain ⟨hvalid, hlong⟩ := hok
    refine Or.inr ⟨_, _, _,
      { headed := hheaded, fits := hfits, nonempty := by simp, seg := hwhole.seg hvalid,
        ended := by decide, tiles := ⟨rfl, hlong, Nat.le_refl _, rfl⟩, topLe := Nat.le_refl _,
        headPrev := hwhole.sprtPrev, used := ?_, owned := ?_, disjoint := ?_, inUse := ?_,
        hidden := fun _ => Or.inl ⟨rfl, rfl⟩ }⟩
    · simp
    · simp [hlive]
    · simp [hlive]
    · simp
  · exact Or.inl ⟨hlive, hheaded, hfits, hwhole,
      fun hvalid => Nat.lt_of_not_le fun hlong => hok ⟨hvalid, hlong⟩⟩

/-- No request on an idle pool succeeds. -/
theorem Idle.alloc {s : State} (h : Idle s) {size : Nat} (hlegal : Legal s (.alloc size)) :
    allocSpareSimpleMemory s.mem s.info.sprtMem size = .ok (0, s.mem) := by
  have hreq : add32 (mrtNumAlign4 size) memBlockHeaderSize = 24 + mrtNumAlign4 size := by
    rw [add32_of_lt hlegal.2, memBlockHeaderSize_eq, Nat.add_comm]
  by_cases hvalid : isValid s.info.base = true
  · have hshort := h.useless hvalid
    have hnone : ¬ 24 + mrtNumAlign4 size ≤ s.info.lenth := by omega
    rw [allocSpareSimpleMemory, h.headed, if_pos hvalid, hreq,
      allocLoop_seg _ (h.whole.seg hvalid) (by decide) (by simp [walkRounds])]
    simp [hnone]
  · rw [allocSpareSimpleMemory, h.headed, if_neg hvalid]

/-- **One step.**  A call that meets the condition returns and keeps the invariant. -/
theorem inv_step {strict : Prop} {info : MemInfo} {s : State} {op : Op} (h : Inv strict info s)
    (hlegal : Legal s op) (hcur : PrevCurrent s op) (hvalid : strict → PtrValid op) :
    ∃ s', step s op = some s' ∧ Inv strict info s' := by
  obtain ⟨rfl, hidle | ⟨bs, top, e, hholds⟩⟩ := h
  · cases op with
    | alloc size =>
      refine ⟨s, ?_, rfl, Or.inl hidle⟩
      simp only [step, hidle.alloc hlegal, if_true]
    | free ptr =>
      obtain ⟨a, ha, -⟩ := hlegal
      simp [hidle.live] at ha
    | write addr v =>
      obtain ⟨a, ha, -⟩ := hlegal
      simp [hidle.live] at ha
  · cases op with
    | alloc size =>
      obtain ⟨s', hstep, hinfo, hholds'⟩ := hholds.step_alloc hlegal
      exact ⟨s', hstep, hinfo, Or.inr hholds'⟩
    | free ptr =>
      obtain ⟨s', hstep, hinfo, hholds'⟩ := hholds.step_free hlegal hcur hvalid
      exact ⟨s', hstep, hinfo, Or.inr hholds'⟩
    | write addr v => exact ⟨_, rfl, rfl, Or.inr ⟨bs, top, e, hholds.step_write hlegal⟩⟩

/-- **One run.**  Calls that meet the condition all return, and the invariant holds throughout. -/
theorem inv_run (strict : Prop) {c : State → Op → Prop}
    (hc : ∀ s op, c s op → Legal s op ∧ PrevCurrent s op ∧ (strict → PtrValid op)) (r : Region)
    (m : Mem) {ops : List Op} (h : Meets step c (fresh r m) ops) :
    (∃ s, exec step (fresh r m) ops = some s) ∧
      Always step (Inv strict (fresh r m).info) (fresh r m) ops := by
  have hstep : ∀ s op, Inv strict (fresh r m).info s → c s op →
      ∃ s', step s op = some s' ∧ Inv strict (fresh r m).info s' := by
    intro s op hinv hop
    obtain ⟨hlegal, hcur, hvalid⟩ := hc s op hop
    exact inv_step hinv hlegal hcur hvalid
  refine ⟨exec_of_meets hstep (fresh_inv strict r m) h, ?_⟩
  refine always_of_meets (fun s op t hinv hop ht => ?_) (fresh_inv strict r m) h
  obtain ⟨t', ht', hinv'⟩ := hstep s op hinv hop
  obtain rfl : t' = t := Option.some.inj (ht'.symm.trans ht)
  exact hinv'

/-! ## Live allocations never meet -/

theorem Inv.safe {strict : Prop} {info : MemInfo} {s : State} (h : Inv strict info s) : Safe s := by
  obtain ⟨-, hidle | ⟨bs, top, e, hholds⟩⟩ := h
  · simp [Safe, hidle.live]
  · exact hholds.safe

/-- **Safety.**  Along every run of requests, releases of live pointers and stores into owned memory
in which no release finds a stale `sprt_prev`, every call returns and the live allocations with
their headers are disjoint and inside the pool. -/
theorem live_allocations_disjoint (r : Region) (m : Mem) (ops : List Op)
    (h : Meets step (fun s op => Legal s op ∧ PrevCurrent s op) (fresh r m) ops) :
    (∃ s, exec step (fresh r m) ops = some s) ∧ Always step Safe (fresh r m) ops := by
  obtain ⟨hexec, hinv⟩ := inv_run False
    (fun s op hop => ⟨hop.1, hop.2, False.elim⟩) r m h
  exact ⟨hexec, hinv.imp fun _ => Inv.safe⟩

/-- The region of the concrete runs below: 4 KB of memory. -/
def page : Region := ⟨0x80000000, 0x1000, by decide, by decide⟩

/-- Two splits, a store, a release in the middle and one at the end. -/
theorem live_allocations_disjoint_page :
    Always step Safe (fresh page fun _ => 0)
      [.alloc 4, .alloc 100, .alloc 4, .write 0x80000034 0xff, .free 0x80000034, .alloc 8,
        .free 0x80000018] :=
  (live_allocations_disjoint page (fun _ => 0) _ (by decide +kernel)).2

/-- Without the condition a request returns memory that is in use.  The third block goes on naming
the second one after a split has put a new block between the two.  Its release joins it to the
second block all the same, and the block in between leaves the list while it is in use. -/
theorem live_allocations_can_meet :
    ¬ ∀ (r : Region) (m : Mem) (ops : List Op), Meets step Legal (fresh r m) ops →
      Always step Safe (fresh r m) ops := by
  intro h
  have hrun := h page (fun _ => 0)
    [.alloc 4, .alloc 100, .alloc 4, .free 0x80000034, .alloc 4, .alloc 4, .free 0x800000b0,
      .alloc 4] (by decide +kernel)
  revert hrun
  decide +kernel

/-! ## A pool that nobody uses is whole -/

/-- Where a whole pool puts a request depends on nothing but its place and length. -/
theorem Whole.alloc {m : Mem} {info : MemInfo} (h : Whole m info) (size : Nat) :
    ∃ m', allocSpareSimpleMemory m info.base size =
      .ok (if isValid info.base = true ∧
          add32 (mrtNumAlign4 size) memBlockHeaderSize ≤ info.lenth then info.base + 24 else 0, m') := by
  by_cases hvalid : isValid info.base = true
  · rw [allocSpareSimpleMemory, if_pos hvalid,
      allocLoop_seg _ (h.seg hvalid) (by decide) (by simp [walkRounds])]
    by_cases hle : add32 (mrtNumAlign4 size) memBlockHeaderSize ≤ info.lenth
    · obtain ⟨-, -, hdesc, -⟩ := h.seg hvalid
      have htake := takeFrom_whole hdesc rfl hle (by
        rw [isValid_iff] at hvalid
        simp only
        omega)
      simp [hle, hvalid, htake]
    · simp [hle]
  · rw [allocSpareSimpleMemory, if_neg hvalid]
    simp [hvalid]

/-- Every request that the pool `s₀` serves is served by `s`, at the same address. -/
def Serves (s₀ s : State) : Prop :=
  ∀ size ptr mem, allocSpareSimpleMemory s₀.mem s₀.info.sprtMem size = .ok (ptr, mem) → ptr ≠ 0 →
    ∃ mem', allocSpareSimpleMemory s.mem s.info.sprtMem size = .ok (ptr, mem')

/-- Once nothing is live, the pool `s` is the single block that `s₀` was and can do what it could. -/
def Restored (s₀ s : State) : Prop := s.live = [] → Whole s.mem s₀.info ∧ Serves s₀ s

theorem Holds.whole {s : State} {bs : List Blk} {top e : Nat} (h : Holds True s bs top e)
    (hlive : s.live = []) : Whole s.mem s.info := by
  have hwhole : ∀ b ∈ bs, b.remain = b.lenth := by
    intro b hb
    by_contra hne
    rcases h.inUse b hb hne with ⟨a, ha, -⟩ | ⟨hns, -⟩
    · simp [hlive] at ha
    · exact hns trivial
  obtain ⟨rfl, htop⟩ : e = 0 ∧ top = s.info.base + s.info.lenth := by
    rcases h.hidden trivial with hend | ⟨a, ha, -⟩
    · exact hend
    · simp [hlive] at ha
  have hbase := h.base_valid
  rw [isValid_iff] at hbase
  -- only the first block can be whole, so there is no second one
  match bs, h with
  | [], h => exact absurd rfl h.nonempty
  | b :: c :: ys, h =>
    have h₀ : Holds True s ([] ++ b :: c :: ys) top 0 := h
    exact absurd (hwhole c (by simp)) (h₀.not_whole c (by simp))
  | [b], h =>
    obtain ⟨haddr, -, hdesc, hnext⟩ := h.seg
    obtain ⟨-, -, -, hlenth⟩ := h.tiles
    have hlenth' : b.lenth = s.info.lenth := by
      have : b.addr + b.lenth = top := hlenth
      omega
    have hrem := hwhole b (by simp)
    refine ⟨?_, ?_, ?_, ?_, h.headPrev, ?_⟩
    · rw [haddr, hdesc.magic]
    · rw [haddr, hdesc.base, memBlockHeaderSize_eq, add32_of_lt (by omega)]
    · rw [haddr, hdesc.lenth, hlenth']
    · rw [haddr, hdesc.remain, hrem, hlenth']
    · rw [haddr]
      exact hnext

theorem Inv.restored {r : Region} {m : Mem} {s : State} (h : Inv True (fresh r m).info s) :
    Restored (fresh r m) s := by
  intro hlive
  obtain ⟨hinfo, hcase⟩ := h
  have hwhole : Whole s.mem s.info ∧ s.info.sprtMem = s.info.base := by
    rcases hcase with hidle | ⟨bs, top, e, hholds⟩
    · exact ⟨hidle.whole, hidle.headed⟩
    · exact ⟨hholds.whole hlive, hholds.headed⟩
  refine ⟨hinfo ▸ hwhole.1, fun size ptr mem hptr _ => ?_⟩
  obtain ⟨m₀, h₀⟩ := (fresh_whole r m).alloc size
  obtain ⟨m₁, h₁⟩ := hwhole.1.alloc size
  rw [(fresh_info r m).2.1, h₀] at hptr
  cases hptr
  rw [hwhole.2, h₁, hinfo]
  exact ⟨m₁, rfl⟩

/-- **Capacity.**  Along every run as above in which, moreover, no released pointer reads as an error
code, the pool is whole again whenever nothing is live, and every request that succeeded on the
fresh pool succeeds again. -/
theorem pool_capacity_restored (r : Region) (m : Mem) (ops : List Op)
    (h : Meets step (fun s op => Legal s op ∧ PrevCurrent s op ∧ PtrValid op) (fresh r m) ops) :
    (∃ s, exec step (fresh r m) ops = some s) ∧
      Always step (Restored (fresh r m)) (fresh r m) ops := by
  obtain ⟨hexec, hinv⟩ := inv_run True
    (fun s op hop => ⟨hop.1, hop.2.1, fun _ => hop.2.2⟩) r m h
  exact ⟨hexec, hinv.imp fun _ => Inv.restored⟩

/-- Three allocations released from the last to the first. -/
theorem pool_capacity_restored_page :
    Always step (Restored (fresh page fun _ => 0)) (fresh page fun _ => 0)
      [.alloc 4, .alloc 4, .alloc 4, .free 0x80000050, .free 0x80000034, .free 0x80000018] :=
  (pool_capacity_restored page (fun _ => 0) _ (by decide +kernel)).2

/-- Released from the first to the last, the same three allocations leave two blocks: the third one
is joined to the second, which has already left the list. -/
theorem pool_capacity_can_shrink :
    ¬ ∀ (r : Region) (m : Mem) (ops : List Op), Meets step Legal (fresh r m) ops →
      Always step (Restored (fresh r m)) (fresh r m) ops := by
  intro h
  have hrun := h page (fun _ => 0)
    [.alloc 4, .alloc 4, .alloc 4, .free 0x80000018, .free 0x80000034, .free 0x80000050]
    (by decide +kernel)
  have hwhole : Always step
      (fun s => s.live = [] → Whole s.mem (fresh page fun _ => 0).info) (fresh page fun _ => 0)
      [.alloc 4, .alloc 4, .alloc 4, .free 0x80000018, .free 0x80000034, .free 0x80000050] :=
    hrun.imp fun s hs hlive => (hs hlive).1
  revert hwhole
  decide +kernel

/-! ## A pointer that is not live is ignored -/

/-- The block list with the `lenth` and `remain` of every block. -/
def blockList (m : Mem) : Nat → Nat → List (Nat × Nat × Nat)
  | 0, _ => []
  | n + 1, a =>
    if isValid a then
      (a, get m a .lenth, get m a .remain) :: blockList m n (get m a .sprtNext)
    else []

/-- A release that returned and left the block list as it was. -/
def Unchanged (s : State) : Except Stop Mem → Prop
  | .error _ => False
  | .ok m => blockList m walkRounds s.info.sprtMem = blockList s.mem walkRounds s.info.sprtMem

instance (s : State) (res : Except Stop Mem) : Decidable (Unchanged s res) := by
  cases res <;> unfold Unchanged <;> infer_instance

/-- Releasing an address of the pool that is not live changes nothing. -/
def IgnoresStray (s : State) : Prop :=
  ∀ p, s.info.base ≤ p → p < s.info.base + s.info.lenth → (∀ a ∈ s.live, a.ptr ≠ p) →
    Unchanged s (freeEmploySimpleMemory s.mem s.info.sprtMem p) ∧
      Unchanged s (kfree s.mem s.info p)

/-- An address that is the base of no block fails the checks, whatever its bytes look like. -/
theorem checkEmploy_absent {m : Mem} {a e p : Nat} {bs : List Blk} (h : Seg m a bs e)
    (he : isValid e = false) (hlen : bs.length < walkRounds) (hp : ∀ b ∈ bs, b.addr + 24 ≠ p) :
    checkEmploySimpleMemory m a p = .ok 0 := by
  have hnone : (bs.find? fun b => decide (b.addr + 24 = p)) = none :=
    List.find?_eq_none.mpr fun b hb => by simpa using hp b hb
  rw [checkEmploySimpleMemory, findBase_seg _ h he hlen, hnone]
  split
  · rfl
  · exact if_neg (by simp [he])

theorem Idle.stray {s : State} (h : Idle s) {p : Nat} (hp : p < s.info.base + s.info.lenth) :
    freeEmploySimpleMemory s.mem s.info.base p = .ok s.mem := by
  refine freeEmploy_of_refused fun _ => ?_
  by_cases hvalid : isValid s.info.base = true
  · have hshort := h.useless hvalid
    refine checkEmploy_absent (h.whole.seg hvalid) (by decide) (by simp [walkRounds]) ?_
    simp only [List.mem_singleton, forall_eq]
    omega
  · have hseg : Seg s.mem s.info.base [] s.info.base := rfl
    exact checkEmploy_absent hseg (by simpa using hvalid) (by simp [walkRounds]) (by simp)

theorem Holds.stray {strict : Prop} {s : State} {bs : List Blk} {top e p : Nat}
    (h : Holds strict s bs top e) (hp : ∀ a ∈ s.live, a.ptr ≠ p) :
    freeEmploySimpleMemory s.mem s.info.base p = .ok s.mem := by
  by_cases hptr : isValid p = true
  swap
  · exact freeEmploy_of_refused fun hptr' => absurd hptr' hptr
  by_cases hblock : ∃ b ∈ bs, b.addr + 24 = p
  · obtain ⟨b, hb, rfl⟩ := hblock
    -- a block that is not in use is the first one, and whole already
    have hwhole : b.remain = b.lenth := by
      by_contra hne
      rcases h.inUse b hb hne with ⟨a, ha, haddr⟩ | ⟨-, hlost⟩
      · exact hp a ha haddr
      · rw [hlost] at hptr
        cases hptr
    obtain ⟨xs, ys, rfl⟩ := List.append_of_mem hb
    have hxs : xs = [] := by
      cases xs with
      | nil => rfl
      | cons c xs =>
        have h₀ : Holds strict s ([] ++ c :: (xs ++ b :: ys)) top e := h
        exact absurd hwhole (h₀.not_whole b (by simp))
    subst hxs
    obtain ⟨haddr, -, hdesc, -⟩ := h.seg
    rw [Holds.free_first h hptr (haddr ▸ h.headPrev), ← hwhole, ← hdesc.remain, set_get_self]
  · refine freeEmploy_of_refused fun _ => checkEmploy_absent h.seg h.ended h.length_lt ?_
    exact fun b hb hbp => hblock ⟨b, hb, hbp⟩

theorem Inv.ignoresStray {strict : Prop} {info : MemInfo} {s : State} (h : Inv strict info s) :
    IgnoresStray s := by
  intro p hlow hhigh hp
  obtain ⟨-, hcase⟩ := h
  have hfree : freeEmploySimpleMemory s.mem s.info.sprtMem p = .ok s.mem ∧
      s.info.base + s.info.lenth < 2 ^ 32 := by
    rcases hcase with hidle | ⟨bs, top, e, hholds⟩
    · exact ⟨hidle.headed ▸ hidle.stray hhigh, hidle.fits⟩
    · exact ⟨hholds.headed ▸ hholds.stray hp, hholds.fits⟩
  have hkfree : kfree s.mem s.info p = .ok s.mem := by
    rw [kfree, if_neg (by omega), if_neg (by rw [add32_of_lt hfree.2]; omega), hfree.1]
  rw [hfree.1, hkfree]
  exact ⟨rfl, rfl⟩

/-- **Stray pointers.**  Along every run in which no release finds a stale `sprt_prev`, releasing an
address of the pool that is not a live pointer leaves the block list and every block's `lenth` and
`remain` as they were. -/
theorem stray_release_ignored (r : Region) (m : Mem) (ops : List Op)
    (h : Meets step (fun s op => Legal s op ∧ PrevCurrent s op) (fresh r m) ops) :
    Always step IgnoresStray (fresh r m) ops :=
  (inv_run False (fun _ _ hop => ⟨hop.1, hop.2, False.elim⟩) r m h).2.imp fun _ =>
    Inv.ignoresStray

/-- Four calls, after each of which all addresses that are not live are ignored. -/
theorem stray_release_ignored_page :
    Always step IgnoresStray (fresh page fun _ => 0)
      [.alloc 4, .alloc 100, .free 0x80000018, .alloc 8] :=
  stray_release_ignored page (fun _ => 0) _ (by decide +kernel)

/-- After the three releases from the first to the last, releasing the first pointer once more joins
the block that was left over. -/
theorem stray_release_can_merge :
    ¬ ∀ (r : Region) (m : Mem) (ops : List Op), Meets step Legal (fresh r m) ops →
      Always step IgnoresStray (fresh r m) ops := by
  intro h
  have hrun := h page (fun _ => 0)
    [.alloc 4, .alloc 4, .alloc 4, .free 0x80000018, .free 0x80000034, .free 0x80000050]
    (by decide +kernel)
  have hstray : Always step
      (fun s => s.info.base ≤ 0x80000018 → 0x80000018 < s.info.base + s.info.lenth →
        (∀ a ∈ s.live, a.ptr ≠ 0x80000018) → Unchanged s (kfree s.mem s.info 0x80000018))
      (fresh page fun _ => 0)
      [.alloc 4, .alloc 4, .alloc 4, .free 0x80000018, .free 0x80000034, .free 0x80000050] :=
    hrun.imp fun s hs hlow hhigh hlive => (hs _ hlow hhigh hlive).2
  revert hstray
  decide +kernel

end HeavenFox.Common.MemPool
