/-
# HeavenFox.Rootfs.FatRemove -- `remove_chain`

`remove_chain` follows a chain and frees its clusters one by one, behind a cluster that the chain is
to end at if there is one.  It returns on every volume, also where the table is damaged and a chain
runs into itself (`removeLoop_returns`), and it frees a chain that is in order, and nothing else
(`removeLoop_chain`).  A right count of free clusters stays right, and one that is not known is left
alone.  All this is for a drive that may fail, but on FAT12, where an entry is changed in two steps,
for one that does not.
-/
import HeavenFox.Common.ErrorTypes
import HeavenFox.Rootfs.FatLinks
import Mathlib.Order.Interval.Finset.Nat

namespace HeavenFox.Rootfs

open HeavenFox.Common HeavenFox.Logic

/-! ## `remove_chain` -/

/-- The count of free clusters in `remove_chain`. -/
def countFree (fs : Fatfs) : Fatfs :=
  if fs.freeClst < sub32 fs.nFatent 2 then
    { fs with freeClst := fs.freeClst + 1, fsiFlag := fs.fsiFlag ||| 1 }
  else fs

/-- The loop of `remove_chain`. -/
def removeLoop : Nat → Fatfs → Nat → Except Stop (FResult × Fatfs)
  | 0, _, _ => .error .spins
  | rounds + 1, fs, clst =>
    let (nxt, fs) := getFat fs clst
    if nxt = 0 then .ok (.ok, fs)
    else if nxt = 1 then .ok (.intErr, fs)
    else if nxt = diskError then .ok (.diskErr, fs)
    else
      let (res, fs) := putFat fs clst 0
      if res = .ok then
        let fs := countFree fs
        if nxt < fs.nFatent then removeLoop rounds fs nxt else .ok (.ok, fs)
      else .ok (res, fs)

/-- `remove_chain` -/
def removeChain (rounds : Nat) (fs : Fatfs) (clst pclst : Nat) : Except Stop (FResult × Fatfs) :=
  if clst < 2 ∨ fs.nFatent ≤ clst then .ok (.intErr, fs)
  else if pclst ≠ 0 then
    let (res, fs) := putFat fs pclst 0xffffffff
    if res = .ok then removeLoop rounds fs clst else .ok (res, fs)
  else removeLoop rounds fs clst

/-! ## Removal -/

/-- The clusters of the volume. -/
def Fatfs.clusters (fs : Fatfs) : Finset Nat := Finset.Ico 2 fs.nFatent

/-- The count of free clusters is right. -/
def Fatfs.Counted (fs : Fatfs) : Prop := fs.freeClst = (freeCells fs.links fs.clusters).card

instance (fs : Fatfs) : Decidable fs.Counted := inferInstanceAs (Decidable (_ = _))

/-- The count of free clusters is out of range: it is not known. -/
def Fatfs.Uncounted (fs : Fatfs) : Prop := fs.nFatent - 2 < fs.freeClst

/-- A count that is right stays right, and one that is not known is left alone. -/
structure Fatfs.KeepsCount (fs fs' : Fatfs) : Prop where
  counted : fs.Counted → fs'.Counted
  uncounted : fs.Uncounted → fs'.freeClst = fs.freeClst

/-- One cluster is freed and counted. -/
structure Fatfs.Frees (fs : Fatfs) (clst : Nat) (fs' : Fatfs) : Prop where
  near : fs.Near fs'
  links : fs'.links = Function.update fs.links clst .free
  lastClst : fs'.lastClst = fs.lastClst
  freeClst : fs'.freeClst =
    if fs.freeClst < fs.nFatent - 2 then fs.freeClst + 1 else fs.freeClst

theorem Fatfs.Frees.self {fs fs' : Fatfs} {clst : Nat} (h : fs.Frees clst fs') :
    fs'.links clst = .free := by
  rw [h.links, Function.update_self]

theorem Fatfs.Frees.other {fs fs' : Fatfs} {clst c : Nat} (h : fs.Frees clst fs')
    (hc : c ≠ clst) : fs'.links c = fs.links c := by
  rw [h.links, Function.update_of_ne hc]

theorem Fatfs.Frees.each {fs fs' : Fatfs} {clst : Nat} (h : fs.Frees clst fs') (c : Nat) :
    fs'.links c = fs.links c ∨ fs'.links c = .free := by
  by_cases hc : c = clst
  · exact Or.inr (by rw [hc, h.self])
  · exact Or.inl (h.other hc)

theorem mem_clusters {fs : Fatfs} {c : Nat} : c ∈ fs.clusters ↔ 2 ≤ c ∧ c < fs.nFatent :=
  Finset.mem_Ico

theorem Fatfs.KeepsCount.refl (fs : Fatfs) : fs.KeepsCount fs := ⟨id, fun _ => rfl⟩

theorem Fatfs.KeepsCount.trans {fs fs' fs'' : Fatfs} (hn : fs'.nFatent = fs.nFatent)
    (h : fs.KeepsCount fs') (h' : fs'.KeepsCount fs'') : fs.KeepsCount fs'' where
  counted := h'.counted ∘ h.counted
  uncounted hout := by
    have hsame := h.uncounted hout
    have hout' : fs'.Uncounted := by
      unfold Uncounted at hout ⊢
      rwa [hn, hsame]
    exact (h'.uncounted hout').trans hsame

/-- The same clusters are free, and the count is the same. -/
theorem keepsCount_of_free {fs fs' : Fatfs} (hn : fs'.nFatent = fs.nFatent)
    (hcount : fs'.freeClst = fs.freeClst)
    (hfree : ∀ c, fs'.links c = .free ↔ fs.links c = .free) : fs.KeepsCount fs' where
  counted h := by
    have hcells : freeCells fs'.links fs.clusters = freeCells fs.links fs.clusters :=
      freeCells_congr fun c _ => hfree c
    unfold Fatfs.Counted Fatfs.clusters at h ⊢
    unfold Fatfs.clusters at hcells
    rwa [hcount, hn, hcells]
  uncounted _ := hcount

theorem Fatfs.Still.keepsCount {fs fs' : Fatfs} (h : fs.Still fs') : fs.KeepsCount fs' :=
  keepsCount_of_free h.toNear.nFatent h.freeClst fun c => by rw [h.links]

theorem card_freeCells_le (fs : Fatfs) :
    (freeCells fs.links fs.clusters).card ≤ fs.nFatent - 2 := by
  have hsub := Finset.card_le_card (Finset.filter_subset (fun a => fs.links a = .free) fs.clusters)
  rwa [Fatfs.clusters, Nat.card_Ico] at hsub

/-- There is one free cluster more when one is freed that was in use. -/
theorem freeCells_freed {fs fs' : Fatfs} {clst : Nat} (h : fs.Frees clst fs')
    (hvalid : 2 ≤ clst ∧ clst < fs.nFatent) (hused : fs.links clst ≠ .free) :
    (freeCells fs'.links fs'.clusters).card = (freeCells fs.links fs.clusters).card + 1 := by
  have hn := h.near.nFatent
  have hnot : clst ∉ freeCells fs.links fs.clusters := fun hin => hused (mem_freeCells.mp hin).2
  have hcells : freeCells fs'.links fs.clusters = insert clst (freeCells fs.links fs.clusters) :=
    freeCells_give (mem_clusters.mpr hvalid) h.self fun _ ha => by rw [h.other ha]
  rw [Fatfs.clusters, hn, ← Fatfs.clusters, hcells, Finset.card_insert_of_notMem hnot]

/-- The count follows. -/
theorem Fatfs.Frees.keepsCount {fs fs' : Fatfs} {clst : Nat} (h : fs.Frees clst fs')
    (hvalid : 2 ≤ clst ∧ clst < fs.nFatent) (hused : fs.links clst ≠ .free) :
    fs.KeepsCount fs' where
  counted hcount := by
    have hn := h.near.nFatent
    have hcard := freeCells_freed h hvalid hused
    have hle := card_freeCells_le fs'
    unfold Counted at hcount ⊢
    rw [h.freeClst, if_pos (by omega), hcount, hcard]
  uncounted hout := by
    unfold Uncounted at hout
    rw [h.freeClst, if_neg (by omega)]

section Removal

variable {fs : Fatfs} (hs : fs.Sound) (hsteady : fs.Steady)
include hs hsteady

omit hsteady in
/-- A cluster that has been freed is counted. -/
theorem countFree_frees {clst : Nat} {fs' : Fatfs} (hvalid : clst < fs.nFatent) (hlo : 2 ≤ clst)
    (hnear : fs.Near fs') (hlast : fs'.lastClst = fs.lastClst)
    (hcount : fs'.freeClst = fs.freeClst)
    (hlinks : fs'.links = Function.update fs.links clst .free) :
    fs.Frees clst (countFree fs') := by
  have hsub : sub32 fs'.nFatent 2 = fs.nFatent - 2 := by
    have hmax := Nat.lt_of_lt_of_le hs.table.ends fs.fsType.values_le
    rw [hnear.nFatent]
    exact sub32_of_le (by omega) (by omega)
  unfold countFree
  rw [hsub, hcount]
  split_ifs with hroom
  · refine ⟨near_of_counters hnear _ _ _, hlinks, hlast, ?_⟩
    rw [if_pos hroom]
  · exact ⟨hnear, hlinks, hlast, by rw [if_neg hroom, hcount]⟩

/-- What a round of `remove_chain` can do. -/
theorem removeLoop_cases {clst : Nat} (rounds : Nat) (hlo : 2 ≤ clst) (hhi : clst < fs.nFatent) :
    (∃ res fs', removeLoop (rounds + 1) fs clst = .ok (res, fs') ∧ fs.Still fs' ∧
      (res = .ok ∧ fs.links clst = .free ∨ res = .intErr ∧ fs.links clst = .broken ∨
        res = .diskErr ∧ ¬ fs.disk.Reliable)) ∨
    (∃ fs', fs.Frees clst fs' ∧
      (fs.links clst = .last ∧ removeLoop (rounds + 1) fs clst = .ok (.ok, fs') ∨
        ∃ c, fs.links clst = .next c ∧
          removeLoop (rounds + 1) fs clst = removeLoop rounds fs' c)) := by
  obtain ⟨hstill, hval⟩ := getFat_still hs hlo hhi
  have hlink := links_of_valid hlo hhi
  have hn := hstill.toNear.nFatent
  rw [removeLoop]
  generalize getFat fs clst = r at hstill hval hn
  obtain ⟨nxt, fs₁⟩ := r
  dsimp only at hstill hval hn ⊢
  have hentry : nxt ≠ diskError → nxt = fs.entry clst := fun hne =>
    hval.elim And.left fun hfail => absurd hfail.1 hne
  by_cases hzero : nxt = 0
  · have hfree : fs.entry clst = 0 := by
      rw [← hentry (by rw [hzero]; decide), hzero]
    rw [if_pos hzero]
    exact Or.inl ⟨_, fs₁, rfl, hstill, Or.inl ⟨rfl, by rw [hlink, decodeEntry_free_iff, hfree]⟩⟩
  by_cases hone : nxt = 1
  · have hbroken : fs.entry clst = 1 := by
      rw [← hentry (by rw [hone]; decide), hone]
    rw [if_neg hzero, if_pos hone]
    exact Or.inl ⟨_, fs₁, rfl, hstill,
      Or.inr (Or.inl ⟨rfl, by rw [hlink, decodeEntry_broken_iff, hbroken]⟩)⟩
  by_cases herr : nxt = diskError
  · rw [if_neg hzero, if_neg hone, if_pos herr]
    refine Or.inl ⟨_, fs₁, rfl, hstill, Or.inr (Or.inr ⟨rfl, ?_⟩)⟩
    exact hval.elim (fun hok => absurd herr hok.2) And.right
  · -- the cluster is in use
    rw [if_neg hzero, if_neg hone, if_neg herr]
    obtain rfl := hentry herr
    obtain ⟨hnear, hlast, hcount, hput⟩ :=
      putFat_links hstill.sound (hstill.toNear.steady hsteady) 0 hlo (hn ▸ hhi)
    rw [hn, hstill.links, Nat.zero_mod, decodeEntry_free_iff.mpr rfl] at hput
    generalize putFat fs₁ clst 0 = r at hnear hlast hcount hput
    obtain ⟨res, fs₂⟩ := r
    dsimp only at hnear hlast hcount hput ⊢
    cases hput with
    | inl hok =>
      have hfrees := countFree_frees hs hhi hlo (hstill.toNear.trans hnear)
        (hlast.trans hstill.lastClst) (hcount.trans hstill.freeClst) hok.2
      refine Or.inr ⟨countFree fs₂, hfrees, ?_⟩
      rw [if_pos hok.1, hfrees.near.nFatent]
      split_ifs with hnext
      · refine Or.inr ⟨_, ?_, rfl⟩
        rw [hlink, decodeEntry_next_iff]
        exact ⟨rfl, by omega, hnext⟩
      · refine Or.inl ⟨?_, rfl⟩
        rw [hlink, decodeEntry_last_iff]
        omega
    | inr hfail =>
      rw [if_neg (by rw [hfail.1]; decide)]
      exact Or.inl ⟨res, fs₂, rfl, ⟨hstill.toNear.trans hnear, hfail.2.2,
        hlast.trans hstill.lastClst, hcount.trans hstill.freeClst⟩,
        Or.inr (Or.inr ⟨hfail.1, mt hstill.reliable hfail.2.1⟩)⟩

/-- **The loop comes to an end on every volume**, whatever the table holds: also where a chain runs
into itself, every round frees a cluster. -/
theorem removeLoop_returns {clst rounds : Nat} (hlo : 2 ≤ clst) (hhi : clst < fs.nFatent)
    (hrounds : fs.nFatent < rounds + (freeCells fs.links fs.clusters).card + 2) :
    ∃ res fs', removeLoop rounds fs clst = .ok (res, fs') ∧ fs.Near fs' ∧ fs.KeepsCount fs' ∧
      (∀ c, fs'.links c = fs.links c ∨ fs'.links c = .free) ∧
      (res = .ok → FreedFrom fs.links fs'.links clst) := by
  induction rounds generalizing fs clst with
  | zero =>
    have hle := card_freeCells_le fs
    omega
  | succ rounds ih =>
    rcases removeLoop_cases hs hsteady rounds hlo hhi with
      ⟨res, fs', hrun, hstill, hend⟩ | ⟨fs', hfrees, hgo⟩
    · refine ⟨res, fs', hrun, hstill.toNear, hstill.keepsCount,
        fun c => Or.inl (congrFun hstill.links c), fun hres => ?_⟩
      -- the loop stops without an error only at a cluster that is free
      have hfree : fs.links clst = .free := by
        rcases hend with ⟨-, hfree⟩ | ⟨herr, -⟩ | ⟨herr, -⟩
        · exact hfree
        · cases hres.symm.trans herr
        · cases hres.symm.trans herr
      rw [hstill.links]
      exact .of_end (fun c hc => by cases hfree.symm.trans hc) hfree fun _ _ => rfl
    · have hused : fs.links clst ≠ .free := by
        rcases hgo with ⟨hlast, -⟩ | ⟨c, hnext, -⟩
        · rw [hlast]
          decide
        · rw [hnext]
          exact fun h => by cases h
      have hcount := hfrees.keepsCount ⟨hlo, hhi⟩ hused
      rcases hgo with ⟨hlast, hrun⟩ | ⟨c, hnext, hrun⟩
      · have hend : ∀ c, fs.links clst ≠ .next c := fun c hc => by
          cases hlast.symm.trans hc
        exact ⟨_, fs', hrun, hfrees.near, hcount, hfrees.each, fun _ =>
          .of_end hend hfrees.self fun _ => hfrees.other⟩
      · have hn := hfrees.near.nFatent
        have hmore := freeCells_freed hfrees ⟨hlo, hhi⟩ hused
        have hvalid : 2 ≤ c ∧ c < fs.nFatent := by
          have hentry := hnext
          rw [links_of_valid hlo hhi, decodeEntry_next_iff] at hentry
          exact hentry.2
        obtain ⟨res, fs'', hrun', hnear', hcount', hone', hfreed⟩ := ih hfrees.near.sound
          (hfrees.near.steady hsteady) hvalid.1 (hn ▸ hvalid.2) (by omega)
        refine ⟨res, fs'', hrun.trans hrun', hfrees.near.trans hnear', hcount.trans hn hcount',
          fun d => ?_, fun hres => .of_next hnext hfrees.self (fun _ => hfrees.other) (hfreed hres)⟩
        rcases hone' d with hsame | hfree
        · exact (hfrees.each d).imp hsame.trans hsame.trans
        · exact Or.inr hfree

end Removal

/-- What `remove_chain` does to a chain. -/
structure Fatfs.Removed (fs : Fatfs) (l : List Nat) (res : FResult) (fs' : Fatfs) : Prop where
  near : fs.Near fs'
  lastClst : fs'.lastClst = fs.lastClst
  others : ∀ c, c ∉ l → fs'.links c = fs.links c
  all : res = .ok → ∀ c ∈ l, fs'.links c = .free
  failed : res ≠ .ok → res = .diskErr ∧ ¬ fs.disk.Reliable
  count : fs.KeepsCount fs'

theorem Fatfs.Removed.nil {fs : Fatfs} (hs : fs.Sound) : fs.Removed [] .ok fs where
  near := Near.refl hs
  lastClst := rfl
  others _ _ := rfl
  all _ c hc := by cases hc
  failed h := absurd rfl h
  count := .refl fs

theorem Fatfs.Still.removed {fs fs' : Fatfs} {l : List Nat} (h : fs.Still fs')
    (hrel : ¬ fs.disk.Reliable) : fs.Removed l .diskErr fs' where
  near := h.toNear
  lastClst := h.lastClst
  others c _ := congrFun h.links c
  all := FResult.noConfusion
  failed _ := ⟨rfl, hrel⟩
  count := h.keepsCount

/-- One cluster in front of the others. -/
theorem Fatfs.Removed.cons {fs fs' fs'' : Fatfs} {clst : Nat} {l : List Nat} {res : FResult}
    (h : fs.Frees clst fs') (hvalid : 2 ≤ clst ∧ clst < fs.nFatent) (hused : fs.links clst ≠ .free)
    (hrest : fs'.Removed l res fs'') : fs.Removed (clst :: l) res fs'' where
  near := h.near.trans hrest.near
  lastClst := hrest.lastClst.trans h.lastClst
  others c hc := by
    rw [List.mem_cons, not_or] at hc
    rw [hrest.others c hc.2, h.other hc.1]
  all hres c hc := by
    by_cases hl : c ∈ l
    · exact hrest.all hres c hl
    · obtain rfl : c = clst := (List.mem_cons.mp hc).resolve_right hl
      rw [hrest.others c hl, h.self]
  failed hres := (hrest.failed hres).imp_right (mt h.near.reliable)
  count := (h.keepsCount hvalid hused).trans h.near.nFatent hrest.count

/-- **`remove_chain` frees a chain**, all of it unless the drive fails, and nothing else. -/
theorem removeLoop_chain {fs : Fatfs} (hs : fs.Sound) (hsteady : fs.Steady) {clst rounds : Nat}
    {l : List Nat} (hchain : Chain fs.links (clst :: l)) (hrounds : l.length < rounds) :
    ∃ res fs', removeLoop rounds fs clst = .ok (res, fs') ∧ fs.Removed (clst :: l) res fs' := by
  induction l generalizing fs clst rounds with
  | nil =>
    have hlast : fs.links clst = .last := hchain
    have hvalid : 2 ≤ clst ∧ clst < fs.nFatent := valid_of_used hchain List.mem_cons_self
    obtain ⟨rounds, rfl⟩ : ∃ r, rounds = r + 1 := ⟨rounds - 1, by omega⟩
    rcases removeLoop_cases hs hsteady rounds hvalid.1 hvalid.2 with
      ⟨res, fs', hrun, hstill, hend⟩ | ⟨fs', hfrees, ⟨-, hrun⟩ | ⟨c, hnext, -⟩⟩
    · rw [hlast] at hend
      obtain ⟨rfl, hrel⟩ := (hend.resolve_left (by simp)).resolve_left (by simp)
      exact ⟨_, fs', hrun, hstill.removed hrel⟩
    · exact ⟨_, fs', hrun, .cons hfrees hvalid (by rw [hlast]; decide) (.nil hfrees.near.sound)⟩
    · cases hlast.symm.trans hnext
  | cons c l ih =>
    have hnext : fs.links clst = .next c := hchain.1
    have hused : fs.links clst ≠ .free := hchain.ne_free List.mem_cons_self
    have hvalid : 2 ≤ clst ∧ clst < fs.nFatent := valid_of_used hchain List.mem_cons_self
    obtain ⟨rounds, rfl⟩ : ∃ r, rounds = r + 1 := ⟨rounds - 1, by omega⟩
    rcases removeLoop_cases hs hsteady rounds hvalid.1 hvalid.2 with
      ⟨res, fs', hrun, hstill, hend⟩ | ⟨fs', hfrees, ⟨hlast, -⟩ | ⟨d, hnext', hrun⟩⟩
    · rw [hnext] at hend
      obtain ⟨rfl, hrel⟩ := (hend.resolve_left (by simp)).resolve_left (by simp)
      exact ⟨_, fs', hrun, hstill.removed hrel⟩
    · cases hnext.symm.trans hlast
    · obtain rfl : c = d := Link.next.inj (hnext.symm.trans hnext')
      -- the rest of the chain is as it was
      have hrest : Chain fs'.links (c :: l) := by
        refine hchain.tail.congr fun d hd => hfrees.other ?_
        rintro rfl
        exact (List.nodup_cons.mp hchain.nodup).1 hd
      rw [List.length_cons] at hrounds
      obtain ⟨res, fs'', hrun', hremoved⟩ :=
        ih hfrees.near.sound (hfrees.near.steady hsteady) hrest (show l.length < rounds by omega)
      exact ⟨res, fs'', hrun.trans hrun', .cons hfrees hvalid hused hremoved⟩

/-- A chain is no longer than the volume has clusters. -/
theorem chain_length_lt {fs : Fatfs} {l : List Nat} (hchain : Chain fs.links l)
    (hsize : 3 ≤ fs.nFatent) : l.length < fs.nFatent := by
  have hsub : l.toFinset ⊆ fs.clusters := by
    intro c hc
    exact mem_clusters.mpr (valid_of_used hchain (List.mem_toFinset.mp hc))
  have hcard := Finset.card_le_card hsub
  rw [List.toFinset_card_of_nodup hchain.nodup, Fatfs.clusters, Nat.card_Ico] at hcard
  omega

/-- **`remove_chain` for an entire chain.** -/
theorem removeChain_all {fs : Fatfs} (hs : fs.Sound) (hsteady : fs.Steady) {clst rounds : Nat}
    {l : List Nat} (hchain : Chain fs.links (clst :: l)) (hrounds : fs.nFatent ≤ rounds) :
    ∃ res fs', removeChain rounds fs clst 0 = .ok (res, fs') ∧ fs.Removed (clst :: l) res fs' := by
  have hvalid : 2 ≤ clst ∧ clst < fs.nFatent := valid_of_used hchain List.mem_cons_self
  have hlen := chain_length_lt hchain (by omega)
  rw [List.length_cons] at hlen
  have hloop := removeLoop_chain hs hsteady hchain (show l.length < rounds by omega)
  unfold removeChain
  rw [if_neg (by omega), if_neg (fun h => h rfl)]
  exact hloop

/-- What `remove_chain` does to a chain that is to end at `a`: the rest `r` is freed, or the drive
has failed before the chain was cut. -/
structure Fatfs.Truncated (fs : Fatfs) (a : Nat) (r : List Nat) (res : FResult) (fs' : Fatfs) :
    Prop where
  near : fs.Near fs'
  count : fs.KeepsCount fs'
  failed : res ≠ .ok → res = .diskErr ∧ ¬ fs.disk.Reliable
  cut : (fs'.links a = .last ∧ (∀ c, c ≠ a → c ∉ r → fs'.links c = fs.links c) ∧
      (res = .ok → ∀ c ∈ r, fs'.links c = .free)) ∨
    (fs'.links = fs.links ∧ res ≠ .ok)

/-- A used cluster stays in use. -/
theorem keepsCount_of_update {fs fs' : Fatfs} {a : Nat} (hnear : fs.Near fs')
    (hcount : fs'.freeClst = fs.freeClst) (hlinks : fs'.links = Function.update fs.links a .last)
    (hused : fs.links a ≠ .free) : fs.KeepsCount fs' := by
  refine keepsCount_of_free hnear.nFatent hcount fun c => ?_
  rw [hlinks]
  by_cases hc : c = a
  · rw [hc, Function.update_self]
    exact ⟨fun h => absurd h (by decide), fun h => absurd h hused⟩
  · rw [Function.update_of_ne hc]

/-- **`remove_chain` for the end of a chain.** -/
theorem removeChain_cut {fs : Fatfs} (hs : fs.Sound) (hsteady : fs.Steady) {a clst rounds : Nat}
    {l r : List Nat} (hchain : Chain fs.links (l ++ a :: clst :: r))
    (hrounds : fs.nFatent ≤ rounds) :
    ∃ res fs', removeChain rounds fs clst a = .ok (res, fs') ∧
      fs.Truncated a (clst :: r) res fs' := by
  have hsuffix : Chain fs.links (a :: clst :: r) := hchain.suffix
  have hnext : fs.links a = .next clst := hsuffix.1
  have hused : fs.links a ≠ .free := hsuffix.ne_free List.mem_cons_self
  have hvalid : 2 ≤ clst ∧ clst < fs.nFatent := valid_of_used hsuffix.2 List.mem_cons_self
  have hvalid' : 2 ≤ a ∧ a < fs.nFatent := valid_of_used hsuffix List.mem_cons_self
  obtain ⟨hnear, hlast, hcount, hput⟩ := putFat_links hs hsteady 0xffffffff hvalid'.1 hvalid'.2
  rw [decodeEntry_eoc hs] at hput
  unfold removeChain
  rw [if_neg (by omega), if_pos (by omega)]
  generalize putFat fs a 0xffffffff = p at hnear hlast hcount hput
  obtain ⟨res, fs'⟩ := p
  dsimp only at hnear hlast hcount hput ⊢
  rcases hput with ⟨rfl, hlinks⟩ | ⟨rfl, hrel, hlinks⟩
  · -- the rest is still a chain
    have hnot : a ∉ clst :: r := (List.nodup_cons.mp hsuffix.nodup).1
    have hrest : Chain fs'.links (clst :: r) := by
      refine hsuffix.2.congr fun c hc => ?_
      rw [hlinks, Function.update_of_ne]
      rintro rfl
      exact hnot hc
    have hlen := chain_length_lt hrest (by rw [hnear.nFatent]; omega)
    rw [hnear.nFatent, List.length_cons] at hlen
    obtain ⟨res, fs'', hrun, hremoved⟩ := removeLoop_chain hnear.sound (hnear.steady hsteady) hrest
      (show r.length < rounds by omega)
    refine ⟨res, fs'', hrun, hnear.trans hremoved.near,
      (keepsCount_of_update hnear hcount hlinks hused).trans hnear.nFatent hremoved.count,
      fun hres => (hremoved.failed hres).imp_right (mt hnear.reliable),
      Or.inl ⟨?_, fun c hc hcr => ?_, hremoved.all⟩⟩
    · rw [hremoved.others a hnot, hlinks, Function.update_self]
    · rw [hremoved.others c hcr, hlinks, Function.update_of_ne hc]
  · have hstill : fs.Still fs' := ⟨hnear, hlinks, hlast, hcount⟩
    exact ⟨_, fs', rfl, hnear, hstill.keepsCount, fun _ => ⟨rfl, hrel⟩,
      Or.inr ⟨hlinks, by decide⟩⟩

/-- The table with the mark of the end at `pclst`; 0 stands for no cluster. -/
def endAt (t : Nat → Link Nat) (pclst : Nat) : Nat → Link Nat :=
  if pclst = 0 then t else Function.update t pclst .last

/-- The cluster that the chain is to end at gets the mark of the end, or nothing changes. -/
theorem putFat_end {fs : Fatfs} (hs : fs.Sound) (hsteady : fs.Steady) (pclst : Nat) :
    fs.Near (putFat fs pclst 0xffffffff).2 ∧
      (fs.links pclst ≠ .free → fs.KeepsCount (putFat fs pclst 0xffffffff).2) ∧
      ((putFat fs pclst 0xffffffff).2.links = Function.update fs.links pclst .last ∨
        (putFat fs pclst 0xffffffff).1 ≠ .ok ∧
          (putFat fs pclst 0xffffffff).2.links = fs.links) := by
  by_cases hvalid : 2 ≤ pclst ∧ pclst < fs.nFatent
  · obtain ⟨hnear, hlast, hcount, hput⟩ :=
      putFat_links hs hsteady 0xffffffff hvalid.1 hvalid.2
    rw [decodeEntry_eoc hs] at hput
    rcases hput with ⟨-, hlinks⟩ | ⟨hres, -, hlinks⟩
    · exact ⟨hnear, keepsCount_of_update hnear hcount hlinks, Or.inl hlinks⟩
    · exact ⟨hnear, fun _ => Fatfs.Still.keepsCount ⟨hnear, hlinks, hlast, hcount⟩,
        Or.inr ⟨by rw [hres]; decide, hlinks⟩⟩
  · -- no cluster of the volume: `put_fat` refuses
    have hrefused : putFat fs pclst 0xffffffff = (.intErr, fs) := if_neg hvalid
    rw [hrefused]
    exact ⟨.refl hs, fun _ => .refl fs, Or.inr ⟨by simp, rfl⟩⟩

/-- **`remove_chain` returns on every volume**, whatever the table holds, also where a chain runs
into itself, and whether the drive fails or not (FAT12 apart, where it must not).  No entry changes
but that of `pclst`, if that is not 0, which gets the mark of the end, and those that are freed; and
if it returns `FR_OK`, the end is marked and exactly the clusters that the first one then leads to
have been freed.  A count of free clusters that was right is right again, and one that was not known
is left alone. -/
theorem removeChain_returns {fs : Fatfs} (hs : fs.Sound) (hsteady : fs.Steady) (clst pclst : Nat)
    {rounds : Nat} (hrounds : fs.nFatent ≤ rounds) :
    ∃ res fs', removeChain rounds fs clst pclst = .ok (res, fs') ∧ fs.Near fs' ∧
      (pclst = 0 ∨ fs.links pclst ≠ .free → fs.KeepsCount fs') ∧
      (∀ c, fs'.links c = fs.links c ∨ fs'.links c = .free ∨ c = pclst ∧ fs'.links c = .last) ∧
      (res = .ok → FreedFrom (endAt fs.links pclst) fs'.links clst) := by
  unfold removeChain
  by_cases hbad : clst < 2 ∨ fs.nFatent ≤ clst
  · rw [if_pos hbad]
    exact ⟨_, fs, rfl, .refl hs, fun _ => .refl fs, fun _ => Or.inl rfl, FResult.noConfusion⟩
  rw [if_neg hbad]
  by_cases hcut : pclst ≠ 0
  · obtain ⟨hnear, hcount, hends⟩ := putFat_end hs hsteady pclst
    have hn := hnear.nFatent
    have hmark : endAt fs.links pclst = Function.update fs.links pclst .last := if_neg hcut
    rw [if_pos hcut]
    generalize putFat fs pclst 0xffffffff = r at hnear hcount hends hn
    obtain ⟨res, fs'⟩ := r
    dsimp only at hnear hcount hends hn ⊢
    have hone : ∀ c, fs'.links c = fs.links c ∨ c = pclst ∧ fs'.links c = .last := by
      intro c
      rcases hends with hlinks | ⟨-, hlinks⟩
      · rw [hlinks]
        by_cases hc : c = pclst
        · exact Or.inr ⟨hc, by rw [hc, Function.update_self]⟩
        · exact Or.inl (Function.update_of_ne hc _ _)
      · exact Or.inl (congrFun hlinks c)
    by_cases hres : res = .ok
    · obtain ⟨res', fs'', hrun, hnear', hcount', hfrees, hfreed⟩ := @removeLoop_returns fs'
        hnear.sound (hnear.steady hsteady) clst rounds (by omega) (by omega) (by omega)
      rw [if_pos hres]
      refine ⟨res', fs'', hrun, hnear.trans hnear', fun hused => ?_, fun c => ?_, fun hres' => ?_⟩
      · exact (hcount (hused.resolve_left hcut)).trans hn hcount'
      · rcases hfrees c with hsame | hfree
        · rw [hsame]
          exact (hone c).imp_right Or.inr
        · exact Or.inr (Or.inl hfree)
      · rw [hmark, ← hends.resolve_right fun hfail => hfail.1 hres]
        exact hfreed hres'
    · rw [if_neg hres]
      exact ⟨res, fs', rfl, hnear, fun hused => hcount (hused.resolve_left hcut),
        fun c => (hone c).imp_right Or.inr, fun hok => absurd hok hres⟩
  · have hmark : endAt fs.links pclst = fs.links := if_pos (not_not.mp hcut)
    rw [if_neg hcut, hmark]
    obtain ⟨res, fs', hrun, hnear, hcount, hfrees, hfreed⟩ :=
      @removeLoop_returns fs hs hsteady clst rounds (by omega) (by omega) (by omega)
    exact ⟨res, fs', hrun, hnear, fun _ => hcount, fun c => (hfrees c).imp_right Or.inl, hfreed⟩

/-- Of the chain that runs into itself nothing is left behind the cluster it is to end at. -/
theorem removeChain_returns_small :
    ∃ fs', removeChain 6 loopedFatfs 3 2 = .ok (.ok, fs') ∧ loopedFatfs.Near fs' ∧ fs'.Counted ∧
      FreedFrom (endAt loopedFatfs.links 2) fs'.links 3 ∧
      fs'.links 2 = .last ∧ fs'.links 3 = .free ∧ fs'.links 4 = .free ∧ fs'.links 5 = .free := by
  obtain ⟨res, fs', hrun, hnear, hcount, -, hfreed⟩ := removeChain_returns loopedFatfs_sound
    (fun _ => smallOn_reliable _ _) 3 2 (Nat.le_refl 6)
  have hdone : (removeChain 6 loopedFatfs 3 2).toOption.map
      (fun r => (r.1, r.2.links 2, r.2.links 3, r.2.links 4, r.2.links 5)) =
        some (.ok, .last, .free, .free, .free) := by decide
  rw [hrun] at hdone
  obtain ⟨rfl, hlinks⟩ := Prod.mk.inj (Option.some.inj hdone)
  simp only [Prod.mk.injEq] at hlinks
  refine ⟨fs', hrun, hnear, (hcount (Or.inr ?_)).counted ?_, hfreed rfl, hlinks⟩
  · decide
  · decide

end HeavenFox.Rootfs
