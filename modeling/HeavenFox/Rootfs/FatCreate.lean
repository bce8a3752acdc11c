/-
# HeavenFox.Rootfs.FatCreate -- `create_chain`

`create_chain` goes to the next cluster of a chain, or looks for a free one behind the last one it
found and links it.  The search comes to every cluster of the volume, so it says that none is free
only if that is so (`createLoop_scan`).  Where the drive fails, what has been done so far stays: a
cluster may be marked that is in no chain, and no chain is touched.
-/
import HeavenFox.Common.ErrorTypes
import HeavenFox.Rootfs.FatLinks

namespace HeavenFox.Rootfs

open HeavenFox.Common HeavenFox.Logic

/-! ## `create_chain` -/

/-- How the search for a free cluster ends: with a cluster, or with a value to return. -/
inductive Scan where
  | found (ncl : Nat)
  | stop (ret : Nat)
  deriving DecidableEq, Repr

/-- The loop of `create_chain`. -/
def createLoop (scl : Nat) : Nat → Fatfs → Nat → Except Stop (Scan × Fatfs)
  | 0, _, _ => .error .spins
  | rounds + 1, fs, ncl =>
    let wrap := fs.nFatent ≤ add32 ncl 1
    let ncl := if wrap then 2 else add32 ncl 1
    if wrap ∧ scl < ncl then .ok (.stop 0, fs)
    else
      let (cs, fs) := getFat fs ncl
      if cs = 0 then .ok (.found ncl, fs)
      else if cs = 1 ∨ cs = diskError then .ok (.stop cs, fs)
      else if ncl = scl then .ok (.stop 0, fs)
      else createLoop scl rounds fs ncl

/-- The end of `create_chain`: update FSINFO if it succeeded. -/
def createDone (ncl : Nat) (r : FResult × Fatfs) : Nat × Fatfs :=
  let fs := r.2
  if r.1 = .ok then
    (ncl, { fs with
      lastClst := ncl
      freeClst := if fs.freeClst ≤ sub32 fs.nFatent 2 then sub32 fs.freeClst 1 else fs.freeClst
      fsiFlag := fs.fsiFlag ||| 1 })
  else (if r.1 = .diskErr then diskError else 1, fs)

/-- `create_chain` once a free cluster has been found. -/
def createLink (fs : Fatfs) (clst ncl : Nat) : Nat × Fatfs :=
  let r := putFat fs ncl 0xffffffff
  createDone ncl (if r.1 = .ok ∧ clst ≠ 0 then putFat r.2 clst ncl else r)

/-- `create_chain` from the search on. -/
def createFrom (rounds : Nat) (fs : Fatfs) (clst scl : Nat) : Except Stop (Nat × Fatfs) := do
  let (scan, fs) ← createLoop scl rounds fs scl
  match scan with
  | .stop ret => .ok (ret, fs)
  | .found ncl => .ok (createLink fs clst ncl)

/-- `create_chain` -/
def createChain (rounds : Nat) (fs : Fatfs) (clst : Nat) : Except Stop (Nat × Fatfs) :=
  if clst = 0 then
    let scl := fs.lastClst
    createFrom rounds fs clst (if scl = 0 ∨ fs.nFatent ≤ scl then 1 else scl)
  else
    let (cs, fs) := getFat fs clst
    if cs < 2 then .ok (1, fs)
    else if cs = diskError then .ok (cs, fs)
    else if cs < fs.nFatent then .ok (cs, fs)
    else createFrom rounds fs clst clst

/-! ## The search for a free cluster -/

/-- The cluster that round `k` of the search looks at: behind `scl`, then from 2 on. -/
def nthCluster (n scl k : Nat) : Nat := if scl + k < n then scl + k else scl + k + 2 - n

theorem nthCluster_zero {n scl : Nat} (hscl : scl < n) : nthCluster n scl 0 = scl := if_pos hscl

theorem nthCluster_succ {n scl k : Nat} (hscl : scl < n) (hk : k + 3 ≤ n) :
    nthCluster n scl (k + 1) =
      if n ≤ nthCluster n scl k + 1 then 2 else nthCluster n scl k + 1 := by
  unfold nthCluster
  split_ifs <;> omega

/-- The search comes to every cluster. -/
theorem nthCluster_surj {n scl c : Nat} (hscl : 1 ≤ scl) (hn : scl < n) (hlo : 2 ≤ c) (hhi : c < n) :
    ∃ k, 1 ≤ k ∧ k + 2 ≤ n ∧ nthCluster n scl k = c := by
  unfold nthCluster
  by_cases hc : scl < c
  · exact ⟨c - scl, by omega, by omega, by split_ifs <;> omega⟩
  · exact ⟨n - scl + c - 2, by omega, by omega, by split_ifs <;> omega⟩

/-- What the search says: the first free cluster, that there is none, or why it does not know. -/
def Fatfs.ScanOk (fs : Fatfs) (scl : Nat) : Scan → Prop
  | .found c => ∃ k, 1 ≤ k ∧ k + 2 ≤ fs.nFatent ∧ nthCluster fs.nFatent scl k = c ∧
      fs.links c = .free ∧ ∀ j, 1 ≤ j → j < k → fs.links (nthCluster fs.nFatent scl j) ≠ .free
  | .stop ret => (ret = 0 ∧ ∀ c, 2 ≤ c → c < fs.nFatent → fs.links c ≠ .free) ∨
      (ret = 1 ∧ ∃ c, 2 ≤ c ∧ c < fs.nFatent ∧ fs.links c = .broken) ∨
      (ret = diskError ∧ ¬ fs.disk.Reliable)

theorem Fatfs.ScanOk.of_still {fs fs' : Fatfs} {scl : Nat} {scan : Scan} (h : fs.Still fs')
    (hscan : fs'.ScanOk scl scan) : fs.ScanOk scl scan := by
  have hn := h.toNear.nFatent
  cases scan with
  | found c =>
    unfold Fatfs.ScanOk at hscan ⊢
    rwa [hn, h.links] at hscan
  | stop ret =>
    unfold Fatfs.ScanOk at hscan ⊢
    rw [hn, h.links] at hscan
    exact hscan.imp_right (Or.imp_right fun hfail => ⟨hfail.1, mt h.reliable hfail.2⟩)

/-- One round of the search. -/
theorem createLoop_round {fs : Fatfs} (hs : fs.Sound) {scl rounds k : Nat} (hscl : 1 ≤ scl)
    (hlt : scl < fs.nFatent) (hk : k + 3 ≤ fs.nFatent) :
    createLoop scl (rounds + 1) fs (nthCluster fs.nFatent scl k) =
      let c := nthCluster fs.nFatent scl (k + 1)
      let r := getFat fs c
      if r.1 = 0 then .ok (.found c, r.2)
      else if r.1 = 1 ∨ r.1 = diskError then .ok (.stop r.1, r.2)
      else if c = scl then .ok (.stop 0, r.2)
      else createLoop scl rounds r.2 c := by
  have hmax := Nat.lt_of_lt_of_le hs.table.ends fs.fsType.values_le
  have hadd : add32 (nthCluster fs.nFatent scl k) 1 = nthCluster fs.nFatent scl k + 1 := by
    apply add32_of_lt
    unfold nthCluster
    split_ifs <;> omega
  have hgo : ¬ (fs.nFatent ≤ nthCluster fs.nFatent scl k + 1 ∧
      scl < nthCluster fs.nFatent scl (k + 1)) := by
    unfold nthCluster
    split_ifs <;> omega
  rw [createLoop]
  simp only [hadd]
  rw [← nthCluster_succ hlt hk, if_neg hgo]

/-- A search that began at 1 and has come to the end of the volume. -/
theorem createLoop_end {fs : Fatfs} (hs : fs.Sound) {rounds k : Nat} (hlt : 1 < fs.nFatent)
    (hk : k + 2 = fs.nFatent) :
    createLoop 1 (rounds + 1) fs (nthCluster fs.nFatent 1 k) = .ok (.stop 0, fs) := by
  have hmax := Nat.lt_of_lt_of_le hs.table.ends fs.fsType.values_le
  have hpos : nthCluster fs.nFatent 1 k + 1 = fs.nFatent := by
    unfold nthCluster
    split_ifs <;> omega
  have hfits : nthCluster fs.nFatent 1 k + 1 < 2 ^ 32 := by omega
  have hadd : add32 (nthCluster fs.nFatent 1 k) 1 = fs.nFatent := (add32_of_lt hfits).trans hpos
  rw [createLoop]
  simp only [hadd]
  rw [if_pos (Nat.le_refl _)]
  exact if_pos ⟨Nat.le_refl _, by decide⟩

/-- A search that has looked at as many clusters as there are has looked at all of them. -/
theorem no_free_of_past {fs : Fatfs} {scl k : Nat} (hscl : 1 ≤ scl) (hlt : scl < fs.nFatent)
    (hk : k + 2 = fs.nFatent)
    (hpast : ∀ j, 1 ≤ j → j ≤ k → fs.links (nthCluster fs.nFatent scl j) ≠ .free) (c : Nat)
    (hlo : 2 ≤ c) (hhi : c < fs.nFatent) : fs.links c ≠ .free := by
  obtain ⟨j, hj, hjn, rfl⟩ := nthCluster_surj hscl hlt hlo hhi
  exact hpast j hj (by omega)

/-- **The search looks at all clusters.** -/
theorem createLoop_scan {scl : Nat} (hscl : 1 ≤ scl) {fs : Fatfs} (hs : fs.Sound)
    (hlt : scl < fs.nFatent) {rounds k : Nat} (hk : k + 2 ≤ fs.nFatent)
    (hlast : scl = 1 ∨ k + 3 ≤ fs.nFatent)
    (hpast : ∀ j, 1 ≤ j → j ≤ k → fs.links (nthCluster fs.nFatent scl j) ≠ .free)
    (hrounds : fs.nFatent < rounds + k + 2) :
    ∃ scan fs', createLoop scl rounds fs (nthCluster fs.nFatent scl k) = .ok (scan, fs') ∧
      fs.Still fs' ∧ fs.ScanOk scl scan := by
  induction rounds generalizing fs k with
  | zero => omega
  | succ rounds ih =>
    by_cases hend : k + 2 = fs.nFatent
    · obtain rfl : scl = 1 := by omega
      exact ⟨_, _, createLoop_end hs hlt hend, Fatfs.Still.refl hs,
        Or.inl ⟨rfl, no_free_of_past hscl hlt hend hpast⟩⟩
    · rw [createLoop_round hs hscl hlt (by omega)]
      generalize hc : nthCluster fs.nFatent scl (k + 1) = c
      have hvalid : 2 ≤ c ∧ c < fs.nFatent := by
        rw [← hc]
        unfold nthCluster
        split_ifs <;> omega
      obtain ⟨hstill, hval⟩ := getFat_still hs hvalid.1 hvalid.2
      have hlink := links_of_valid hvalid.1 hvalid.2
      dsimp only
      split_ifs with hfree hstop hback
      · have hzero : fs.entry c = 0 := by
          rcases hval with ⟨heq, -⟩ | ⟨heq, -⟩
          · rw [← heq, hfree]
          · rw [heq] at hfree
            cases hfree
        refine ⟨_, _, rfl, hstill, k + 1, by omega, by omega, hc, ?_, fun j hj hjk => ?_⟩
        · rw [hlink, decodeEntry_free_iff, hzero]
        · exact hpast j hj (by omega)
      · refine ⟨_, _, rfl, hstill, Or.inr ?_⟩
        rcases hval with ⟨heq, hne⟩ | hfail
        · refine Or.inl ⟨hstop.resolve_right hne, c, hvalid.1, hvalid.2, ?_⟩
          rw [hlink, decodeEntry_broken_iff, ← heq]
          exact hstop.resolve_right hne
        · exact Or.inr hfail
      all_goals
        -- the cluster is in use
        have hpast' : ∀ j, 1 ≤ j → j ≤ k + 1 →
            fs.links (nthCluster fs.nFatent scl j) ≠ .free := by
          intro j hj hjk
          by_cases heq : j = k + 1
          · rw [heq, hc, hlink, Ne, decodeEntry_free_iff]
            rcases hval with ⟨hentry, -⟩ | ⟨herr, -⟩
            · rwa [← hentry]
            · exact absurd (Or.inr herr) hstop
          · exact hpast j hj (by omega)
      · have hround : k + 1 + 2 = fs.nFatent := by
          rw [← hc] at hback
          unfold nthCluster at hback
          split_ifs at hback <;> omega
        exact ⟨_, _, rfl, hstill, Or.inl ⟨rfl, no_free_of_past hscl hlt hround hpast'⟩⟩
      · have hn := hstill.toNear.nFatent
        have hround : scl = 1 ∨ k + 1 + 3 ≤ fs.nFatent := by
          rw [← hc] at hback
          unfold nthCluster at hback
          split_ifs at hback <;> omega
        obtain ⟨scan, fs', hrun, hstill', hscan⟩ := ih (k := k + 1) hstill.sound (hn ▸ hlt)
          (by omega) (hn ▸ hround) (by rwa [hn, hstill.links]) (by omega)
        rw [hn, hc] at hrun
        exact ⟨scan, fs', hrun, hstill.trans hstill', hscan.of_still hstill⟩

/-! ## Allocation -/

/-- The table with cluster `ncl` at the end of a chain: of a new one, or behind `clst`. -/
def linkTo (t : Nat → Link Nat) (clst ncl : Nat) : Nat → Link Nat :=
  if clst = 0 then Function.update t ncl .last
  else Function.update (Function.update t ncl .last) clst (.next ncl)

/-- What `create_chain` comes to when it has to find a cluster: the value it returns, and the
volume. -/
inductive Fatfs.Created (fs : Fatfs) (clst : Nat) : Nat → Fatfs → Prop where
  /-- The cluster is linked and counted. -/
  | linked {ncl : Nat} {fs' : Fatfs} (near : fs.Near fs') (free : fs.links ncl = .free)
      (links : fs'.links = linkTo fs.links clst ncl) (lastClst : fs'.lastClst = ncl)
      (freeClst : fs'.freeClst =
        if fs.freeClst ≤ fs.nFatent - 2 then sub32 fs.freeClst 1 else fs.freeClst) :
      Created fs clst ncl fs'
  /-- No cluster is free. -/
  | full {fs' : Fatfs} (still : fs.Still fs')
      (none : ∀ c, 2 ≤ c → c < fs.nFatent → fs.links c ≠ .free) : Created fs clst 0 fs'
  /-- The table has an entry that no chain has. -/
  | broken {fs' : Fatfs} (still : fs.Still fs')
      (entry : ∃ c, 2 ≤ c ∧ c < fs.nFatent ∧ fs.links c = .broken) : Created fs clst 1 fs'
  /-- The drive has failed: nothing is linked, and a cluster may be marked that is in no chain. -/
  | failed {fs' : Fatfs} (near : fs.Near fs') (fault : ¬ fs.disk.Reliable)
      (links : fs'.links = fs.links ∨
        ∃ b, fs.links b = .free ∧ fs'.links = Function.update fs.links b .last) :
      Created fs clst diskError fs'

theorem Fatfs.Created.of_still {fs fs' fs'' : Fatfs} {clst ret : Nat} (h : fs.Still fs')
    (hc : fs'.Created clst ret fs'') : fs.Created clst ret fs'' := by
  have hn := h.toNear.nFatent
  cases hc with
  | linked near free links lastClst freeClst =>
    rw [h.links] at free links
    rw [hn, h.freeClst] at freeClst
    exact .linked (h.toNear.trans near) free links lastClst freeClst
  | full still none =>
    rw [hn, h.links] at none
    exact .full (h.trans still) none
  | broken still entry =>
    rw [hn, h.links] at entry
    exact .broken (h.trans still) entry
  | failed near fault links =>
    rw [h.links] at links
    exact .failed (h.toNear.trans near) (mt h.reliable fault) links

section Allocation

variable {fs : Fatfs} (hs : fs.Sound) (hsteady : fs.Steady)
include hs hsteady

omit hsteady in
/-- The chain is linked, and the counters follow. -/
theorem createDone_created {clst ncl : Nat} {r : FResult × Fatfs} (hnear : fs.Near r.2)
    (hfree : fs.links ncl = .free) (hcount : r.2.freeClst = fs.freeClst)
    (hput : r.1 = .ok ∧ r.2.links = linkTo fs.links clst ncl ∨
      r.1 = .diskErr ∧ ¬ fs.disk.Reliable ∧ (r.2.links = fs.links ∨
        ∃ b, fs.links b = .free ∧ r.2.links = Function.update fs.links b .last)) :
    fs.Created clst (createDone ncl r).1 (createDone ncl r).2 := by
  obtain ⟨res, fs'⟩ := r
  dsimp only at hnear hcount hput
  unfold createDone
  rcases hput with ⟨rfl, hlinks⟩ | ⟨rfl, hrel, hlinks⟩
  · have hsub : sub32 fs.nFatent 2 = fs.nFatent - 2 := by
      have hmax := Nat.lt_of_lt_of_le hs.table.ends fs.fsType.values_le
      have hvalid := valid_of_free hfree
      exact sub32_of_le (by omega) (by omega)
    refine .linked (near_of_counters hnear _ _ _) hfree hlinks rfl ?_
    show (if fs'.freeClst ≤ sub32 fs'.nFatent 2 then _ else _) = _
    rw [hcount, hnear.nFatent, hsub]
  · exact .failed hnear hrel hlinks

theorem createLink_created {clst ncl : Nat} (hfree : fs.links ncl = .free)
    (hclst : clst = 0 ∨ 2 ≤ clst ∧ clst < fs.nFatent) :
    fs.Created clst (createLink fs clst ncl).1 (createLink fs clst ncl).2 := by
  obtain ⟨hlo, hhi⟩ := valid_of_free hfree
  obtain ⟨hnear, hlast, hcount, hput⟩ := putFat_links hs hsteady 0xffffffff hlo hhi
  rw [decodeEntry_eoc hs] at hput
  unfold createLink
  generalize putFat fs ncl 0xffffffff = r at hnear hlast hcount hput
  dsimp only
  split_ifs with hgo
  · -- the chain of `clst` goes on
    have hn := hnear.nFatent
    obtain ⟨hclo, hchi⟩ := hclst.resolve_left hgo.2
    have hlinks : r.2.links = Function.update fs.links ncl .last := by
      rcases hput with hok | hfail
      · exact hok.2
      · cases hgo.1.symm.trans hfail.1
    obtain ⟨hnear', hlast', hcount', hput'⟩ :=
      putFat_links hnear.sound (hnear.steady hsteady) ncl hclo (hn ▸ hchi)
    rw [decodeEntry_next hnear.sound hlo (hn ▸ hhi), hlinks] at hput'
    refine createDone_created hs (hnear.trans hnear') hfree (hcount'.trans hcount)
      (hput'.imp (fun hok => ⟨hok.1, ?_⟩) fun hfail => ⟨hfail.1, ?_, Or.inr ⟨ncl, hfree, ?_⟩⟩)
    · rw [hok.2, linkTo, if_neg hgo.2]
    · exact mt hnear.reliable hfail.2.1
    · exact hfail.2.2
  · refine createDone_created hs hnear hfree hcount
      (hput.imp (fun hok => ⟨hok.1, ?_⟩) fun hfail => ⟨hfail.1, hfail.2.1, Or.inl hfail.2.2⟩)
    have hzero : clst = 0 := by
      by_contra hne
      exact hgo ⟨hok.1, hne⟩
    rw [hok.2, linkTo, if_pos hzero]

theorem createFrom_created {clst scl rounds : Nat} (hscl : 1 ≤ scl) (hlt : scl < fs.nFatent)
    (hclst : clst = 0 ∨ 2 ≤ clst ∧ clst < fs.nFatent) (hsize : 3 ≤ fs.nFatent)
    (hrounds : fs.nFatent ≤ rounds) :
    ∃ ret fs', createFrom rounds fs clst scl = .ok (ret, fs') ∧ fs.Created clst ret fs' := by
  have hloop : ∃ scan fs', createLoop scl rounds fs (nthCluster fs.nFatent scl 0) = .ok (scan, fs') ∧
      fs.Still fs' ∧ fs.ScanOk scl scan :=
    createLoop_scan hscl hs hlt (by omega) (Or.inr hsize) (fun j hj hjk => by omega) (by omega)
  rw [nthCluster_zero hlt] at hloop
  obtain ⟨scan, fs', hrun, hstill, hscan⟩ := hloop
  unfold createFrom
  rw [hrun]
  cases scan with
  | stop ret =>
    refine ⟨ret, fs', rfl, ?_⟩
    rcases hscan with ⟨rfl, hnone⟩ | ⟨rfl, hbroken⟩ | ⟨rfl, hrel⟩
    · exact .full hstill hnone
    · exact .broken hstill hbroken
    · exact .failed hstill.toNear hrel (Or.inl hstill.links)
  | found ncl =>
    obtain ⟨k, -, -, -, hfree, -⟩ := hscan
    have hclst' : clst = 0 ∨ 2 ≤ clst ∧ clst < fs'.nFatent := by rwa [hstill.toNear.nFatent]
    have hcreated := createLink_created hstill.sound (hstill.toNear.steady hsteady)
      (by rwa [hstill.links]) hclst'
    exact ⟨_, _, rfl, hcreated.of_still hstill⟩

/-- **`create_chain` for a new chain.** -/
theorem createChain_new {rounds : Nat} (hsize : 3 ≤ fs.nFatent) (hrounds : fs.nFatent ≤ rounds) :
    ∃ ret fs', createChain rounds fs 0 = .ok (ret, fs') ∧ fs.Created 0 ret fs' := by
  unfold createChain
  rw [if_pos rfl]
  dsimp only
  split_ifs with hbad
  · exact createFrom_created hs hsteady (Nat.le_refl 1) (by omega) (Or.inl rfl) hsize hrounds
  · exact createFrom_created hs hsteady (by omega) (by omega) (Or.inl rfl) hsize hrounds

/-- **`create_chain` at the end of a chain.** -/
theorem createChain_stretch {clst rounds : Nat} (hlast : fs.links clst = .last)
    (hrounds : fs.nFatent ≤ rounds) :
    ∃ ret fs', createChain rounds fs clst = .ok (ret, fs') ∧ fs.Created clst ret fs' := by
  obtain ⟨hlo, hhi⟩ := valid_of_links (c := clst) (by rw [hlast]; decide)
  rw [links_of_valid hlo hhi, decodeEntry_last_iff] at hlast
  obtain ⟨hstill, hval⟩ := getFat_still hs hlo hhi
  have hn := hstill.toNear.nFatent
  unfold createChain
  rw [if_neg (by omega)]
  generalize getFat fs clst = r at hstill hval hn
  obtain ⟨cs, fs'⟩ := r
  dsimp only at hstill hval hn ⊢
  rcases hval with ⟨rfl, hne⟩ | ⟨rfl, hrel⟩
  · rw [if_neg (by omega), if_neg hne, if_neg (by omega)]
    have hcreate : ∃ ret fs'', createFrom rounds fs' clst clst = .ok (ret, fs'') ∧
        fs'.Created clst ret fs'' :=
      createFrom_created hstill.sound (hstill.toNear.steady hsteady) (by omega) (by omega)
        (Or.inr ⟨hlo, by omega⟩) (by omega) (by omega)
    obtain ⟨ret, fs'', hrun, hcreated⟩ := hcreate
    exact ⟨ret, fs'', hrun, hcreated.of_still hstill⟩
  · exact ⟨diskError, fs', rfl, .failed hstill.toNear hrel (Or.inl hstill.links)⟩

omit hsteady in
/-- **`create_chain` inside a chain** goes to the next cluster. -/
theorem createChain_follow {clst c rounds : Nat} (hnext : fs.links clst = .next c) :
    ∃ ret fs', createChain rounds fs clst = .ok (ret, fs') ∧ fs.Still fs' ∧
      (ret = c ∨ ret = diskError ∧ ¬ fs.disk.Reliable) := by
  obtain ⟨hlo, hhi⟩ := valid_of_links (c := clst) (by rw [hnext]; exact fun h => by cases h)
  rw [links_of_valid hlo hhi, decodeEntry_next_iff] at hnext
  obtain ⟨hstill, hval⟩ := getFat_still hs hlo hhi
  have hn := hstill.toNear.nFatent
  unfold createChain
  rw [if_neg (by omega)]
  generalize getFat fs clst = r at hstill hval hn
  obtain ⟨cs, fs'⟩ := r
  dsimp only at hstill hval hn ⊢
  rcases hval with ⟨rfl, hne⟩ | ⟨rfl, hrel⟩
  · rw [if_neg (by omega), if_neg hne, if_pos (by omega)]
    exact ⟨_, fs', rfl, hstill, Or.inl hnext.1⟩
  · exact ⟨diskError, fs', rfl, hstill, Or.inr ⟨rfl, hrel⟩⟩

end Allocation

/-- **`create_chain` finds a free cluster as long as there is one.**  On a drive that does not fail,
with no entry that no chain has, it returns 0 exactly where the volume is full; otherwise it links a
cluster that was free behind `clst`, or starts a chain with it. -/
theorem createChain_finds {fs : Fatfs} {clst rounds : Nat} (hs : fs.Sound)
    (hrel : fs.disk.Reliable) (hsize : 3 ≤ fs.nFatent) (hrounds : fs.nFatent ≤ rounds)
    (hclst : clst = 0 ∨ fs.links clst = .last)
    (hclean : ∀ c, 2 ≤ c → c < fs.nFatent → fs.links c ≠ .broken) :
    ∃ ret fs', createChain rounds fs clst = .ok (ret, fs') ∧
      (ret = 0 ↔ ∀ c, 2 ≤ c → c < fs.nFatent → fs.links c ≠ .free) ∧
      (ret ≠ 0 → fs.links ret = .free ∧ fs'.links = linkTo fs.links clst ret) := by
  have hsteady : fs.Steady := fun _ => hrel
  have hcreated : ∃ ret fs', createChain rounds fs clst = .ok (ret, fs') ∧
      fs.Created clst ret fs' := by
    rcases hclst with rfl | hlast
    · exact createChain_new hs hsteady hsize hrounds
    · exact createChain_stretch hs hsteady hlast hrounds
  obtain ⟨ret, fs', hrun, hcreated⟩ := hcreated
  refine ⟨ret, fs', hrun, ?_⟩
  cases hcreated with
  | linked near free links lastClst freeClst =>
    obtain ⟨hlo, hhi⟩ := valid_of_free free
    exact ⟨⟨fun h => by omega, fun h => absurd free (h ret hlo hhi)⟩, fun _ => ⟨free, links⟩⟩
  | full still none => exact ⟨⟨fun _ => none, fun _ => rfl⟩, fun h => absurd rfl h⟩
  | broken still entry =>
    obtain ⟨c, hlo, hhi, hbroken⟩ := entry
    exact absurd hbroken (hclean c hlo hhi)
  | failed near fault links => exact absurd hrel fault

/-- Behind the last cluster of the volume the search goes on from the first, which is in use. -/
theorem createChain_finds_small :
    ∃ fs', createChain 6 usedFatfs 5 = .ok (3, fs') ∧
      fs'.links = Function.update (Function.update usedFatfs.links 3 .last) 5 (.next 3) := by
  have hclean : ∀ c < 6, 2 ≤ c → usedFatfs.links c ≠ .broken := by decide
  have honly : ∀ c < 6, usedFatfs.links c = .free → c = 3 := by decide
  obtain ⟨ret, fs', hrun, hzero, hlinked⟩ := createChain_finds usedFatfs_sound
    (smallOn_reliable _ _) (by decide) (Nat.le_refl 6) (Or.inr (show usedFatfs.links 5 = .last by decide))
    fun c hlo hhi => hclean c hhi hlo
  have hfound : ret ≠ 0 := fun h => hzero.mp h 3 (by decide) (by decide) (by decide)
  obtain ⟨hfree, hlinks⟩ := hlinked hfound
  obtain rfl : ret = 3 := honly ret (valid_of_free hfree).2 hfree
  exact ⟨fs', hrun, hlinks⟩

end HeavenFox.Rootfs
