/-
# HeavenFox.Rootfs.FatRead -- what `f_read` reads

What a file holds is on the drive, but for the sector in the file's buffer (`Stream.view`), and the
bytes of the file are the blocks of its chain in their order (`Stream.byte`).  A pass of the loop of
`f_read` takes whole sectors from the drive or a part of the buffer, and either way it comes to the
next bytes of the file (`readRound_gives`).
-/
import HeavenFox.Logic.Outcome
import HeavenFox.Rootfs.FatFile

namespace HeavenFox.Rootfs

open HeavenFox.Common HeavenFox.Logic

/-! ## What a file holds -/

/-- The buffer of the file as a line in front of the drive. -/
def Fil.line (fp : Fil) : Line Nat Mem := ⟨fp.sect, fp.buf, fp.dirty⟩

/-- What the sectors hold for the file, its buffer first. -/
def Stream.view (s : Stream) : Nat → Mem := s.fp.line.overlay s.fs.disk.cell

/-- Byte `k` of the file whose clusters are `l`. -/
def Stream.byte (s : Stream) (l : List Nat) : Nat → UInt8 := flat ss (s.fs.page l) s.view

/-- A file object for the clusters `l`: the window of the volume is on none of its sectors, and a
buffer that has not been changed holds what the drive does. -/
structure Stream.Held (s : Stream) (l : List Nat) : Prop where
  chain : Chain s.fs.links l
  aside : ∀ c ∈ l, ∀ i < s.fs.csize, s.fs.winsect ≠ s.fs.sector c i
  start : s.fp.sclust = l.headD 0
  room : s.fp.objsize ≤ s.fs.blocks l * ss
  bound : s.fp.objsize < 2 ^ 32
  cache : s.fp.sect = 0 ∧ s.fp.dirty = false ∨ s.fs.Own l s.fp.sect
  clean : s.fp.dirty = false → s.fs.Own l s.fp.sect →
    ∀ o < ss, s.fs.disk.cell s.fp.sect o = s.fp.buf o

/-- Between two calls: the file pointer is inside of the file, and the cluster and the sector are
those of the byte before it. -/
structure Stream.FileOk (s : Stream) (l : List Nat) : Prop extends s.Held l where
  fptr : s.fp.fptr ≤ s.fp.objsize
  clust : 0 < s.fp.fptr → l[(s.fp.fptr - 1) / ss / s.fs.csize]? = some s.fp.clust
  sect : s.fp.fptr % ss ≠ 0 → s.fp.sect = s.fs.page l (s.fp.fptr / ss)

/-- The volume and the buffer may have changed, what the file holds has not. -/
structure Stream.Kept (s s' : Stream) (l : List Nat) : Prop where
  serves : s.fs.Serves s'.fs (s.fs.Own l)
  held : s'.Held l
  mode : s'.fp.toFilMode = s.fp.toFilMode
  objsize : s'.fp.objsize = s.fp.objsize
  err : s'.fp.err = s.fp.err
  view : ∀ c, s.fs.Own l c → ∀ o < ss, s'.view c o = s.view c o

/-- A call that is given up: the drive has failed, and nothing but the file's own sectors has
changed. -/
def Lost {σ : Type} (f : σ → Stream) (s : Stream) (l : List Nat) : Break σ → Prop
  | .abort res t => res ≠ .ok ∧ s.fs.Serves (f t).fs (s.fs.Own l) ∧ ¬ s.fs.disk.Reliable
  | .stop _ => False

section Kept

variable {s s' s'' : Stream} {l : List Nat}

theorem Stream.Kept.geometry (h : s.Kept s' l) : s'.fs.toFatGeometry = s.fs.toFatGeometry :=
  h.serves.geometry

theorem Stream.Kept.refl (hs : s.fs.Sound) (h : s.Held l) : s.Kept s l :=
  ⟨.refl hs, h, rfl, rfl, rfl, fun _ _ _ _ => rfl⟩

theorem Stream.Kept.trans (h : s.Kept s' l) (h' : s'.Kept s'' l) : s.Kept s'' l where
  serves := by
    have hserves := h'.serves
    rw [h.geometry] at hserves
    exact h.serves.trans hserves
  held := h'.held
  mode := h'.mode.trans h.mode
  objsize := h'.objsize.trans h.objsize
  err := h'.err.trans h.err
  view c hc o ho := by
    rw [← h.view c hc o ho]
    refine h'.view c ?_ o ho
    rwa [h.geometry]

/-- What is given up behind a part that kept the file. -/
theorem Stream.Kept.lost {σ : Type} {f : σ → Stream} {b : Break σ} (h : s.Kept s' l)
    (hb : Lost f s' l b) : Lost f s l b := by
  cases b with
  | abort res t =>
    obtain ⟨hres, hserves, hrel⟩ := hb
    rw [h.geometry] at hserves
    exact ⟨hres, h.serves.trans hserves, mt h.serves.reliable hrel⟩
  | stop reason => exact hb

/-- The part of a transfer that does not look at the caller's buffer. -/
theorem on_gives {t : Transfer} {x : Except (Break Stream) Stream} {P : Stream → Prop}
    (h : Gives x P (Lost id s l)) :
    Gives (t.on x) (fun u => P u.toStream ∧ u = { t with toStream := u.toStream })
      (Lost Transfer.toStream s l) := by
  cases h with
  | ok hu => exact .ok ⟨hu, rfl⟩
  | @error b _ _ hb =>
    cases b with
    | abort res u => exact .error hb
    | stop reason => exact .error hb

end Kept

/-! ## The buffer of the file -/

section Buffer

variable {s : Stream} {l : List Nat} (hr : s.fs.Ready) (h : s.Held l)
include hr h

omit hr in
theorem Stream.Held.valid {c : Nat} (hc : c ∈ l) : 2 ≤ c ∧ c < s.fs.nFatent :=
  valid_of_used h.chain hc

theorem Stream.Held.plain {c : Nat} (hc : s.fs.Own l c) : s.fs.Plain c := by
  obtain ⟨a, ha, i, hi, rfl⟩ := hc
  exact hr.plain (h.valid ha) hi (h.aside a ha i hi)

theorem Stream.Held.own_range {c : Nat} (hc : s.fs.Own l c) : 0 < c ∧ c < noSector := by
  obtain ⟨a, ha, i, hi, rfl⟩ := hc
  have hvalid := h.valid ha
  have hroom := hr.data.sector_room hvalid.1 hvalid.2 hi
  have hpos := hr.data.positive
  omega

omit hr in
/-- What a buffer that has not been changed does not show differently. -/
theorem Stream.Held.view_of_clean (hd : s.fp.dirty = false) {c o : Nat} (hc : s.fs.Own l c)
    (ho : o < ss) : s.view c o = s.fs.disk.cell c o := by
  by_cases heq : c = s.fp.sect
  · rw [heq] at hc
    rw [heq, h.clean hd hc o ho]
    exact congrFun (Line.overlay_tag (l := s.fp.line)) o
  · exact congrFun (Line.overlay_of_ne (l := s.fp.line) heq) o

/-- Another volume with the same sectors on the drive. -/
theorem Stream.Held.of_serves {fs' : Fatfs} (hserves : s.fs.Serves fs' (s.fs.Own l))
    (hcell : ∀ c, s.fs.Own l c → fs'.disk.cell c = s.fs.disk.cell c) :
    s.Kept { s with fs := fs' } l where
  serves := hserves
  held :=
    { chain := by
        rw [hserves.links]
        exact h.chain
      aside := fun c hc i hi => by
        have hgeo := hserves.geometry
        rw [hgeo] at hi ⊢
        exact (hserves.plain (hr.plain (h.valid hc) hi (h.aside c hc i hi))).window
      start := h.start
      room := by
        rw [hserves.geometry]
        exact h.room
      bound := h.bound
      cache := by
        rw [hserves.geometry]
        exact h.cache
      clean := fun hd hown o ho => by
        rw [hserves.geometry] at hown
        rw [hcell _ hown]
        exact h.clean hd hown o ho }
  mode := rfl
  objsize := rfl
  err := rfl
  view c hc o ho := congrFun (Line.overlay_congr fun _ => hcell c hc) o

/-- `flush` -/
theorem flush_gives :
    Gives (flush s) (fun s' => s.Kept s' l ∧ s'.fp.dirty = false ∧ s'.fp.sect = s.fp.sect ∧
      s'.fp.fptr = s.fp.fptr ∧ s'.fp.clust = s.fp.clust) (Lost id s l) := by
  unfold flush
  by_cases hd : s.fp.dirty = true
  · rw [if_pos hd]
    have hown : s.fs.Own l s.fp.sect :=
      h.cache.resolve_left fun hno => Bool.false_ne_true (hno.2.symm.trans hd)
    -- the request writes one sector, and that is the file's
    have hone : ∀ c, s.fp.sect ≤ c ∧ c < s.fp.sect + 1 → c = s.fp.sect := fun c hc => by omega
    have hserves : s.fs.Serves
        { s.fs with disk := written s.fs.disk (fun _ => s.fp.buf) s.fp.sect 1 }
        fun c => s.fp.sect ≤ c ∧ c < s.fp.sect + 1 :=
      serves_written hr.sound fun c hlo hhi => hone c ⟨hlo, hhi⟩ ▸ h.plain hr hown
    have hmine := hserves.mono (T := s.fs.Own l) fun c hc => hone c hc ▸ hown
    unfold diskWrite
    dsimp only
    by_cases hw : s.fs.disk.works = true
    · rw [if_pos hw]
      have hsect : (written s.fs.disk (fun _ => s.fp.buf) s.fp.sect 1).cell s.fp.sect = s.fp.buf :=
        written_self hw
      refine .ok ⟨⟨hmine, ?_, rfl, rfl, rfl, fun c hc o ho => ?_⟩, rfl, rfl, rfl, rfl⟩
      · exact
          { chain := by
              show Chain (Fatfs.links { s.fs with disk := _ }) l
              rw [hmine.links]
              exact h.chain
            aside := h.aside
            start := h.start
            room := h.room
            bound := h.bound
            cache := Or.inr hown
            clean := fun _ _ o ho => congrFun hsect o }
      · refine congrFun (Line.overlay_congr fun hne => ?_) o
        show (written s.fs.disk (fun _ => s.fp.buf) s.fp.sect 1).cell c = _
        exact written_of_ne hne
    · rw [if_neg hw]
      -- what a write that fails leaves in the sector is not known
      exact .error ⟨nofun, hmine, fun hrel => hw hrel.works⟩
  · rw [if_neg hd]
    exact .ok ⟨.refl hr.sound h, Bool.eq_false_iff.mpr hd, rfl, rfl, rfl⟩

/-- A sector of the file is in the buffer. -/
theorem readSector_gives {sect : Nat} (hown : s.fs.Own l sect) :
    Gives (readSector sect s) (fun s' => s.Kept s' l ∧ s'.fp.sect = sect ∧
      s'.fp.fptr = s.fp.fptr ∧ s'.fp.clust = s.fp.clust) (Lost id s l) := by
  unfold readSector
  by_cases hne : s.fp.sect ≠ sect
  · rw [if_pos hne]
    refine (flush_gives hr h).bind fun s₁ ⟨hk, hd, hs₁, hf, hc⟩ => ?_
    have hr₁ := hk.serves.ready hr
    have hown₁ : s₁.fs.Own l sect := by rwa [hk.geometry]
    have hserves := serves_next (S := s₁.fs.Own l) hr₁.sound
    unfold fill diskRead
    dsimp only
    by_cases hw : s₁.fs.disk.works = true
    · rw [if_pos hw]
      have hans : s₁.fs.disk.answer (sect + 0) = s₁.fs.disk.cell sect := by
        rw [Device.answer_of_works hw, Nat.add_zero]
      refine .ok ⟨hk.trans ⟨hserves, ?_, rfl, rfl, rfl, fun c hc o ho => ?_⟩, rfl, hf, hc⟩
      · exact
          { chain := hk.held.chain
            aside := hk.held.aside
            start := hk.held.start
            room := hk.held.room
            bound := hk.held.bound
            cache := Or.inr hown₁
            clean := fun _ _ o ho => (congrFun hans o).symm }
      · -- nothing is lost with the old buffer, for `flush` has left it clean
        rw [hk.held.view_of_clean hd hc ho]
        by_cases heq : c = sect
        · rw [heq]
          exact (congrFun (Line.overlay_tag (l := ⟨sect, _, _⟩)) o).trans (congrFun hans o)
        · exact congrFun (Line.overlay_of_ne (l := ⟨sect, _, _⟩) heq) o
    · rw [if_neg hw]
      refine .error (hk.lost (b := .abort _ _) ?_)
      exact ⟨nofun, hserves, fun hrel => hw hrel.works⟩
  · rw [if_neg hne]
    exact .ok ⟨.refl hr.sound h, not_not.mp hne, rfl, rfl⟩

end Buffer

/-! ## The place of a byte -/

theorem pred_div_of_mod_ne {b n : Nat} (hn : 0 < n) (h : b % n ≠ 0) : (b - 1) / n = b / n := by
  have hsum := Nat.div_add_mod b n
  have hlt := Nat.mod_lt b hn
  rw [Nat.mul_comm] at hsum
  exact Nat.div_eq_of_lt_le (by omega) (by rw [Nat.succ_mul]; omega)

theorem pred_div_of_mod_eq {b n : Nat} (hb : 0 < b) (h : b % n = 0) : (b - 1) / n + 1 = b / n := by
  obtain ⟨q, rfl⟩ := Nat.dvd_of_mod_eq_zero h
  have hn : 0 < n := Nat.pos_of_mul_pos_right hb
  have hq : 0 < q := Nat.pos_of_mul_pos_left hb
  obtain ⟨p, rfl⟩ : ∃ p, q = p + 1 := ⟨q - 1, by omega⟩
  have hlast : (n * (p + 1) - 1) / n = p := by
    rw [Nat.mul_succ]
    exact Nat.div_eq_of_lt_le (by rw [Nat.mul_comm]; omega) (by rw [Nat.succ_mul, Nat.mul_comm]; omega)
  rw [hlast, Nat.mul_div_cancel_left _ hn]

/-- The sector of a block whose cluster is known. -/
theorem page_of_cluster {g : FatGeometry} {l : List Nat} {b clst : Nat}
    (hc : l[b / g.csize]? = some clst) : g.page l b = g.sector clst (b % g.csize) := by
  rw [FatGeometry.page, List.getD_eq_getElem?_getD, hc]
  rfl

/-- The bytes of a file depend on what its sectors hold. -/
theorem Stream.Kept.byte {s s' : Stream} {l : List Nat} (hr : s.fs.Ready)
    (h : s.Kept s' l) {k : Nat} (hk : k / ss < s.fs.blocks l) : s'.byte l k = s.byte l k := by
  unfold Stream.byte flat
  rw [h.geometry]
  exact h.view _ (hr.data.page_own hk) _ (Nat.mod_lt k (by decide))

/-- The file pointer and the cluster do not matter for what a file holds. -/
theorem Stream.Kept.point {s s' : Stream} {l : List Nat} (h : s.Kept s' l) (clust fptr : Nat) :
    s.Kept { s' with fp.clust := clust, fp.fptr := fptr } l where
  serves := h.serves
  held := ⟨h.held.chain, h.held.aside, h.held.start, h.held.room, h.held.bound, h.held.cache,
    h.held.clean⟩
  mode := h.mode
  objsize := h.objsize
  err := h.err
  view := h.view

/-! ## The cluster of the file pointer -/

/-- `get_fat` inside a chain. -/
theorem getFat_follow {fs : Fatfs} (hs : fs.Sound) {clst c : Nat} (hnext : fs.links clst = .next c) :
    fs.Still (getFat fs clst).2 ∧
      ((getFat fs clst).1 = c ∨ (getFat fs clst).1 = diskError ∧ ¬ fs.disk.Reliable) := by
  obtain ⟨hlo, hhi⟩ := valid_of_links (c := clst) (by rw [hnext]; exact nofun)
  rw [links_of_valid hlo hhi, decodeEntry_next_iff] at hnext
  obtain ⟨hstill, hval⟩ := getFat_still hs hlo hhi
  exact ⟨hstill, hval.imp_left fun heq => heq.1.trans hnext.1⟩

section Cluster

variable {s : Stream} {l : List Nat} (hr : s.fs.Ready) (h : s.FileOk l)
include hr h

omit hr in
/-- The byte at the file pointer has a block, and the block a cluster. -/
theorem Stream.FileOk.block (hlt : s.fp.fptr < s.fp.objsize) :
    s.fp.fptr / ss < s.fs.blocks l ∧
      ∃ c ∈ l, l[s.fp.fptr / ss / s.fs.csize]? = some c := by
  have hroom := h.room
  have hblock : s.fp.fptr / ss < s.fs.blocks l :=
    Nat.div_lt_of_lt_mul (by rw [Nat.mul_comm]; omega)
  have hq := FatGeometry.div_lt_length hblock
  exact ⟨hblock, l[s.fp.fptr / ss / s.fs.csize], List.getElem_mem hq, List.getElem?_eq_getElem hq⟩

/-- The cluster of the file pointer where that is on no cluster boundary. -/
theorem Stream.FileOk.inside (hin : s.fp.fptr % ss ≠ 0 ∨ s.fp.fptr / ss % s.fs.csize ≠ 0) :
    l[s.fp.fptr / ss / s.fs.csize]? = some s.fp.clust := by
  have hpos : 0 < s.fp.fptr := by
    by_contra hzero
    obtain hzero : s.fp.fptr = 0 := by omega
    rw [hzero] at hin
    simp at hin
  rw [← h.clust hpos]
  by_cases hmid : s.fp.fptr % ss = 0
  · have hpred : (s.fp.fptr - 1) / ss = s.fp.fptr / ss - 1 := by
      unfold ss at hmid ⊢
      omega
    rw [hpred, pred_div_of_mod_ne hr.data.csize_pos (hin.resolve_left fun hne => hne hmid)]
  · have hpred : (s.fp.fptr - 1) / ss = s.fp.fptr / ss := by
      unfold ss at hmid ⊢
      omega
    rw [hpred]

theorem readCluster_gives (hmid : s.fp.fptr % ss = 0) (hlt : s.fp.fptr < s.fp.objsize) :
    Gives (readCluster s) (fun s' => s.Kept s' l ∧ s'.fp.fptr = s.fp.fptr ∧
      l[s.fp.fptr / ss / s.fs.csize]? = some s'.fp.clust) (Lost id s l) := by
  obtain ⟨hblock, c, hmem, hc⟩ := h.block hlt
  have hvalid := h.valid hmem
  have hmax := Nat.lt_of_lt_of_le hr.sound.table.ends s.fs.fsType.values_le
  have hnum : c ≠ diskError := by
    unfold diskError
    omega
  unfold readCluster sectorOffset
  rw [hr.data.and_csize]
  by_cases hcs : s.fp.fptr / ss % s.fs.csize = 0
  · rw [if_pos hcs]
    by_cases hzero : s.fp.fptr = 0
    · have hhead : s.fp.sclust = c := by
        rw [hzero, Nat.zero_div, Nat.zero_div] at hc
        rw [h.start]
        cases l with
        | nil => cases hc
        | cons a r => exact Option.some.inj hc
      rw [if_pos hzero]
      dsimp only
      -- there is a byte to read, so the file has a first cluster
      rw [if_neg (by omega), if_neg (hhead ▸ hnum)]
      refine .ok ⟨(Stream.Kept.refl hr.sound h.toHeld).point s.fp.sclust _, rfl, ?_⟩
      rw [hc, hhead]
    · rw [if_neg hzero]
      have hpred : (s.fp.fptr - 1) / ss = s.fp.fptr / ss - 1 := by
        unfold ss at hmid ⊢
        omega
      have hb : 0 < s.fp.fptr / ss := by
        unfold ss at hmid ⊢
        omega
      -- the cluster is that of the byte before, and the chain does not end there
      have hbefore := h.clust (by omega)
      rw [hpred] at hbefore
      rw [← pred_div_of_mod_eq hb hcs] at hc
      obtain ⟨hstill, hval⟩ := getFat_follow hr.sound (h.chain.next hbefore hc)
      rw [pred_div_of_mod_eq hb hcs] at hc
      have hroams := getFat_roams hr.data.copies hr.sound.table s.fp.clust
      have hnone := hstill.serves (S := fun _ => False) hroams
      have hk := h.toHeld.of_serves hr (hstill.serves hroams) fun a ha =>
        hnone.cell (h.toHeld.plain hr ha) not_false
      dsimp only
      rcases hval with heq | ⟨heq, hrel⟩
      · rw [heq, if_neg (by omega), if_neg hnum]
        exact .ok ⟨hk.point c _, rfl, hc⟩
      · rw [heq, if_neg (by decide), if_pos rfl]
        exact .error ⟨nofun, hk.serves, hrel⟩
  · rw [if_neg hcs]
    exact .ok ⟨.refl hr.sound h.toHeld, rfl, h.inside hr (Or.inr hcs)⟩

end Cluster

/-! ## One pass -/

/-- `n` bytes have been read: they are the next ones of the file. -/
structure Transfer.Reads (t t' : Transfer) (l : List Nat) (n : Nat) : Prop where
  kept : t.toStream.Kept t'.toStream l
  ok : t'.toStream.FileOk l
  fptr : t'.fp.fptr = t.fp.fptr + n
  count : t'.count = t.count + n
  left : t'.left = t.left - n
  buff : t'.buff = splice t.buff t.count n fun k => t.byte l (t.fp.fptr + k)

section Pass

variable {t t' t'' : Transfer} {l : List Nat} {n m : Nat}

/-- Bytes inside of the file are in its blocks. -/
theorem Stream.Held.in_blocks {s : Stream} (h : s.Held l) {k : Nat} (hk : k < s.fp.objsize) :
    k / ss < s.fs.blocks l := by
  have hroom := h.room
  exact Nat.div_lt_of_lt_mul (by rw [Nat.mul_comm]; omega)

/-- A part in front that does not move the file pointer. -/
theorem Transfer.Reads.behind (hr : t.fs.Ready) (hk : t.toStream.Kept t'.toStream l)
    (hsame : t' = { t with toStream := t'.toStream }) (hfptr : t'.fp.fptr = t.fp.fptr)
    (hend : t.fp.fptr + n ≤ t.fp.objsize) (h : t'.Reads t'' l n) : t.Reads t'' l n where
  kept := hk.trans h.kept
  ok := h.ok
  fptr := h.fptr.trans (by rw [hfptr])
  count := by
    rw [h.count, hsame]
  left := by
    rw [h.left, hsame]
  buff := by
    rw [h.buff, hfptr, hsame]
    funext k
    refine splice_congr rfl fun i hi => hk.byte hr ?_
    have hin : t.fp.fptr + i < t'.fp.objsize := by
      rw [hk.objsize]
      omega
    rw [← hk.geometry]
    exact hk.held.in_blocks hin

/-- Two passes, one behind the other. -/
theorem Transfer.Reads.trans (hr : t.fs.Ready) (hend : t.fp.fptr + (n + m) ≤ t.fp.objsize)
    (h : t.Reads t' l n) (h' : t'.Reads t'' l m) : t.Reads t'' l (n + m) where
  kept := h.kept.trans h'.kept
  ok := h'.ok
  fptr := by
    rw [h'.fptr, h.fptr, Nat.add_assoc]
  count := by
    rw [h'.count, h.count, Nat.add_assoc]
  left := by
    rw [h'.left, h.left, Nat.sub_sub]
  buff := by
    rw [h'.buff, h.count, h.fptr, h.buff, ← splice_splice]
    funext k
    refine splice_congr rfl fun i hi => ?_
    rw [Nat.add_assoc]
    refine h.kept.byte hr ?_
    have hin : t.fp.fptr + (n + i) < t'.fp.objsize := by
      rw [h.kept.objsize]
      omega
    rw [← h.kept.geometry]
    exact h.kept.held.in_blocks hin

variable (hr : t.fs.Ready) (h : t.toStream.Held l)
  (hend : t.fp.fptr + t.left ≤ t.fp.objsize)
include hr h hend

/-- A part of the buffer. -/
theorem readPart_reads (hleft : 0 < t.left) (hsect : t.fp.sect = t.fs.page l (t.fp.fptr / ss))
    (hc : l[t.fp.fptr / ss / t.fs.csize]? = some t.fp.clust) :
    t.Reads (readPart t) l (min (ss - t.fp.fptr % ss) t.left) := by
  have hbound := h.bound
  have hmod : t.fp.fptr % ss < ss := Nat.mod_lt _ (by decide)
  generalize hn : min (ss - t.fp.fptr % ss) t.left = n
  have hadd : add32 t.fp.fptr n = t.fp.fptr + n := add32_of_lt (by omega)
  have hpart : readPart t = { t with
      fp.fptr := t.fp.fptr + n
      buff := splice t.buff t.count n fun k => t.fp.buf (t.fp.fptr % ss + k)
      count := t.count + n
      left := t.left - n } := by
    unfold readPart Transfer.skip
    dsimp only
    rw [hn, hadd]
  rw [hpart]
  have hk := (Stream.Kept.refl hr.sound h).point t.fp.clust (t.fp.fptr + n)
  refine ⟨hk, ?_, rfl, rfl, rfl, ?_⟩
  · refine ⟨hk.held, ?_, fun _ => ?_, fun hin => ?_⟩
    · show t.fp.fptr + n ≤ t.fp.objsize
      omega
    · show l[(t.fp.fptr + n - 1) / ss / t.fs.csize]? = some t.fp.clust
      have hblock : (t.fp.fptr + n - 1) / ss = t.fp.fptr / ss := by
        unfold ss at hn hmod ⊢
        omega
      rw [hblock, hc]
    · show t.fp.sect = t.fs.page l ((t.fp.fptr + n) / ss)
      have hblock : (t.fp.fptr + n) / ss = t.fp.fptr / ss := by
        change (t.fp.fptr + n) % ss ≠ 0 at hin
        unfold ss at hn hmod hin ⊢
        omega
      rw [hblock, hsect]
  · funext k
    show splice t.buff t.count n (fun k => t.fp.buf (t.fp.fptr % ss + k)) k = _
    refine splice_congr rfl fun i hi => ?_
    have hblock : (t.fp.fptr + i) / ss = t.fp.fptr / ss := by
      unfold ss at hn hmod ⊢
      omega
    have hoff : (t.fp.fptr + i) % ss = t.fp.fptr % ss + i := by
      unfold ss at hn hmod ⊢
      omega
    show _ = t.view (t.fs.page l ((t.fp.fptr + i) / ss)) ((t.fp.fptr + i) % ss)
    rw [hblock, hoff, ← hsect]
    exact (congrFun (Line.overlay_tag (l := t.fp.line)) _).symm

omit hr hend in
/-- The cached sector among those of a row. -/
theorem first_lt_iff (hr : t.fs.Ready) {sect cc : Nat} (hsect : sect + cc ≤ noSector) :
    sub32 t.fp.sect sect < cc ↔ sect ≤ t.fp.sect ∧ t.fp.sect < sect + cc := by
  have hlt : t.fp.sect < noSector := by
    rcases h.cache with hzero | hown
    · rw [hzero.1]
      decide
    · exact (h.own_range hr hown).2
  unfold noSector at hsect hlt
  unfold sub32
  omega

section Row

variable {b cc : Nat} (hptr : t.fp.fptr = b * ss) (hcc : 0 < cc)
  (hin : b % t.fs.csize + cc ≤ t.fs.csize) (hfits : cc * ss ≤ t.left)
include hptr hcc hin hfits

omit hcc in
/-- The sectors of a row are the file's. -/
theorem row_own {i : Nat} (hi : i < cc) : t.fs.Own l (t.fs.page l b + i) := by
  have hlt : (b + i) * ss < t.fp.objsize := by
    have hrow : (i + 1) * ss ≤ cc * ss := Nat.mul_le_mul_right ss hi
    have hpos : 0 < ss := by decide
    rw [Nat.succ_mul] at hrow
    rw [Nat.add_mul]
    omega
  have hblock := h.in_blocks hlt
  rw [Nat.mul_div_cancel _ (by decide)] at hblock
  rw [← FatGeometry.page_add l (by omega)]
  exact hr.data.page_own hblock

/-- Behind a row, whatever has been put into the buffer. -/
theorem skip_reads (hc : l[b / t.fs.csize]? = some t.fp.clust) {buff : Mem}
    (hbuff : buff = splice t.buff t.count (cc * ss) fun k => t.byte l (t.fp.fptr + k)) :
    t.Reads (Transfer.skip { t with fs.disk := t.fs.disk.next, buff := buff } (cc * ss)) l
      (cc * ss) := by
  have hbound := h.bound
  have hpos : 0 < cc * ss := Nat.mul_pos hcc (by decide)
  have hadd : add32 t.fp.fptr (cc * ss) = t.fp.fptr + cc * ss := add32_of_lt (by omega)
  have hk : t.toStream.Kept { t.toStream with fs.disk := t.fs.disk.next } l :=
    h.of_serves hr (serves_next hr.sound) fun _ _ => rfl
  have hk' := hk.point t.fp.clust (t.fp.fptr + cc * ss)
  unfold Transfer.skip
  dsimp only
  rw [hadd]
  refine ⟨hk', ⟨hk'.held, ?_, fun _ => ?_, fun hne => absurd ?_ hne⟩, rfl, rfl, rfl, hbuff⟩
  · show t.fp.fptr + cc * ss ≤ t.fp.objsize
    omega
  · show l[(t.fp.fptr + cc * ss - 1) / ss / t.fs.csize]? = some t.fp.clust
    have hlast : (t.fp.fptr + cc * ss - 1) / ss = b + (cc - 1) := by
      rw [hptr]
      unfold ss
      omega
    rw [hlast, FatGeometry.div_add_of_lt (by omega), hc]
  · show (t.fp.fptr + cc * ss) % ss = 0
    rw [hptr, ← Nat.add_mul, Nat.mul_mod_left]

omit hr h hend hcc hfits in
/-- Byte `k` of a row is in its sector `k / ss`. -/
theorem row_byte {k : Nat} (hk : k < cc * ss) :
    t.byte l (t.fp.fptr + k) = t.view (t.fs.page l b + k / ss) (k % ss) := by
  have hsect : k / ss < cc := Nat.div_lt_of_lt_mul (by rwa [Nat.mul_comm])
  rw [hptr]
  unfold Stream.byte
  rw [flat_add (by decide), FatGeometry.page_add l (by omega)]

omit hr h hend hcc hfits in
/-- The sector in the buffer of the file replaces the one of the drive. -/
theorem row_replaced (hw : t.fs.disk.works = true) {first : Nat}
    (hsect : t.fp.sect = t.fs.page l b + first) {k : Nat} (hk : k < cc * ss) :
    splice (fun k => t.fs.disk.answer (t.fs.page l b + k / ss) (k % ss)) (first * ss) ss
      t.fp.buf k = t.byte l (t.fp.fptr + k) := by
  have hsum := Nat.div_add_mod k ss
  have hmod := Nat.mod_lt k (show 0 < ss by decide)
  rw [row_byte hptr hin hk]
  by_cases hhit : k / ss = first
  · have hpos : first * ss = ss * (k / ss) := by rw [hhit, Nat.mul_comm]
    rw [splice_of_in (by omega) (by omega), hhit, ← hsect, show k - first * ss = k % ss by omega]
    exact (congrFun (Line.overlay_tag (l := t.fp.line)) _).symm
  · rw [splice_of_out fun hout => hhit ?_, Device.answer_of_works hw]
    · refine (congrFun (Line.overlay_of_ne (l := t.fp.line) fun heq => hhit ?_) _).symm
      change t.fs.page l b + k / ss = t.fp.sect at heq
      generalize k / ss = q at heq ⊢
      omega
    · exact Nat.div_eq_of_lt_le hout.1 (by rw [Nat.succ_mul]; exact hout.2)

/-- Whole sectors. -/
theorem readRow_gives (hc : l[b / t.fs.csize]? = some t.fp.clust) :
    Gives (readRow (t.fs.page l b) cc t) (fun t' => t.Reads t' l (cc * ss))
      (Lost Transfer.toStream t.toStream l) := by
  have hown : ∀ i < cc, t.fs.Own l (t.fs.page l b + i) :=
    fun i hi => row_own hr h hend hptr hin hfits hi
  have hroom : t.fs.page l b + cc ≤ noSector := by
    have hrange := (h.own_range hr (hown (cc - 1) (by omega))).2
    omega
  unfold readRow diskRead
  dsimp only
  by_cases hw : t.fs.disk.works = true
  · rw [if_pos hw]
    -- a buffer that has been changed counts only if its sector is in the row
    by_cases hd : t.fp.dirty = true ∧ sub32 t.fp.sect (t.fs.page l b) < cc
    · rw [if_pos hd]
      have hfirst := (first_lt_iff h hr hroom).mp hd.2
      have hlt : t.fp.sect < noSector := by omega
      rw [sub32_of_le hfirst.1 (by unfold noSector at hlt; omega)]
      obtain ⟨first, hsect⟩ : ∃ first, t.fp.sect = t.fs.page l b + first :=
        ⟨t.fp.sect - t.fs.page l b, by omega⟩
      have hfirst' : first < cc := by omega
      have hlast : (first + 1) * ss ≤ cc * ss := Nat.mul_le_mul_right ss hfirst'
      rw [Nat.succ_mul] at hlast
      rw [show t.fp.sect - t.fs.page l b = first by omega, splice_inside hlast]
      refine .ok (skip_reads hr h hend hptr hcc hin hfits hc ?_)
      funext k
      exact splice_congr rfl fun i hi => row_replaced hptr hin hw hsect hi
    · rw [if_neg hd]
      refine .ok (skip_reads hr h hend hptr hcc hin hfits hc ?_)
      funext k
      refine splice_congr rfl fun i hi => ?_
      have hsect : i / ss < cc := Nat.div_lt_of_lt_mul (by rwa [Nat.mul_comm])
      rw [row_byte hptr hin hi, Device.answer_of_works hw]
      by_cases hclean : t.fp.dirty = false
      · exact (h.view_of_clean hclean (hown _ hsect) (Nat.mod_lt i (by decide))).symm
      · refine (congrFun (Line.overlay_of_ne (l := t.fp.line) fun heq => hd ⟨?_, ?_⟩) _).symm
        · exact Bool.eq_true_of_not_eq_false hclean
        · rw [first_lt_iff h hr hroom]
          change t.fs.page l b + i / ss = t.fp.sect at heq
          generalize i / ss = q at hsect heq
          omega
  · rw [if_neg hw]
    exact .error ⟨nofun, serves_next hr.sound, fun hrel => hw hrel.works⟩

end Row

end Pass

/-! ## The loop -/

section Loop

variable {t : Transfer} {l : List Nat}

theorem clipped_fits {csize csect cc : Nat} (hcc : cc ≠ 0) (hcs : csect < csize) :
    0 < clipped csize csect cc ∧ csect + clipped csize csect cc ≤ csize ∧
      clipped csize csect cc ≤ cc := by
  unfold clipped
  split_ifs <;> omega

/-- The sector that a pass computes. -/
theorem sector_of_pass {s : Stream} (hr : s.fs.Ready) (h : s.Held l) {b : Nat}
    (hc : l[b / s.fs.csize]? = some s.fp.clust) :
    clust2sect s.fs s.fp.clust ≠ 0 ∧
      add32 (clust2sect s.fs s.fp.clust) (b % s.fs.csize) = s.fs.page l b := by
  have hvalid := h.valid (List.mem_of_getElem? hc)
  have hmax := Nat.lt_of_lt_of_le hr.sound.table.ends s.fs.fsType.values_le
  have hlt := Nat.mod_lt b hr.data.csize_pos
  have hroom := hr.data.sector_room hvalid.1 hvalid.2 hlt
  have hfirst := hr.data.sector_room hvalid.1 hvalid.2 hr.data.csize_pos
  have hpos := hr.data.positive
  have hsum : s.fs.sector s.fp.clust 0 + b % s.fs.csize =
      s.fs.sector s.fp.clust (b % s.fs.csize) := by
    unfold FatGeometry.sector
    omega
  rw [clust2sect_eq hr.data (by omega) hvalid.1 hvalid.2, page_of_cluster hc]
  unfold noSector at hroom
  refine ⟨by omega, ?_⟩
  rw [add32_of_lt (by omega), hsum]

/-- A pass reads something: some of the next bytes of the file. -/
def Transfer.Advances (t t' : Transfer) (l : List Nat) : Prop :=
  ∃ n, 0 < n ∧ n ≤ t.left ∧ t.Reads t' l n

/-- A part of the pass in front that does not move the file pointer. -/
theorem Transfer.Advances.behind {t' t'' : Transfer} (hr : t.fs.Ready)
    (hk : t.toStream.Kept t'.toStream l) (hsame : t' = { t with toStream := t'.toStream })
    (hfptr : t'.fp.fptr = t.fp.fptr) (hend : t.fp.fptr + t.left ≤ t.fp.objsize)
    (h : t'.Advances t'' l) : t.Advances t'' l := by
  obtain ⟨n, hpos, hle, hreads⟩ := h
  have hleft : t'.left = t.left := by rw [hsame]
  exact ⟨n, hpos, by omega, hreads.behind hr hk hsame hfptr (by omega)⟩

section From

variable (hr : t.fs.Ready) (h : t.toStream.Held l) (hend : t.fp.fptr + t.left ≤ t.fp.objsize)
  (hmid : t.fp.fptr % ss = 0) (hc : l[t.fp.fptr / ss / t.fs.csize]? = some t.fp.clust)
include hr h hend hmid hc

/-- As many whole sectors as are left in the cluster and asked for. -/
theorem readFrom_row (hcc : t.left / ss ≠ 0) :
    Gives (readRow (t.fs.page l (t.fp.fptr / ss))
        (clipped t.fs.csize (t.fp.fptr / ss % t.fs.csize) (t.left / ss)) t)
      (fun t' => t.Advances t' l) (Lost Transfer.toStream t.toStream l) := by
  obtain ⟨hpos, hin, hle⟩ := clipped_fits hcc (Nat.mod_lt (t.fp.fptr / ss) hr.data.csize_pos)
  generalize clipped t.fs.csize (t.fp.fptr / ss % t.fs.csize) (t.left / ss) = cc at hpos hin hle ⊢
  have hfits : cc * ss ≤ t.left :=
    Nat.le_trans (Nat.mul_le_mul_right ss hle) (Nat.div_mul_le_self _ _)
  have hptr : t.fp.fptr = t.fp.fptr / ss * ss :=
    (Nat.div_mul_cancel (Nat.dvd_of_mod_eq_zero hmid)).symm
  exact (readRow_gives hr h hend hptr hpos hin hfits hc).imp
    (fun t' hreads => ⟨cc * ss, Nat.mul_pos hpos (by decide), hfits, hreads⟩) fun _ => id

omit hmid in
/-- The beginning of a sector, which comes into the buffer of the file first. -/
theorem readFrom_sector (hleft : 0 < t.left) :
    Gives (t.on (readSector (t.fs.page l (t.fp.fptr / ss)) t.toStream) >>= fun t => .ok (readPart t))
      (fun t' => t.Advances t' l) (Lost Transfer.toStream t.toStream l) := by
  have hown : t.fs.Own l (t.fs.page l (t.fp.fptr / ss)) :=
    hr.data.page_own (h.in_blocks (by omega))
  refine (on_gives (readSector_gives hr h hown)).bind ?_
  rintro t' ⟨⟨hk, hs, hf, hclust⟩, hsame⟩
  have hleft' : t'.left = t.left := by rw [hsame]
  have hend' : t'.fp.fptr + t'.left ≤ t'.fp.objsize := by
    rw [hf, hleft', hk.objsize]
    exact hend
  have hreads := readPart_reads (hk.serves.ready hr) hk.held hend' (by omega)
    (by rw [hs, hk.geometry, hf]) (by rw [hk.geometry, hf, hclust, hc])
  have hpos : 0 < ss - t'.fp.fptr % ss := Nat.sub_pos_of_lt (Nat.mod_lt _ (by decide))
  exact .ok (Transfer.Advances.behind hr hk hsame hf hend ⟨_, by omega, by omega, hreads⟩)

theorem readFrom_gives (hleft : 0 < t.left) :
    Gives (readFrom (t.fp.fptr / ss % t.fs.csize) t) (fun t' => t.Advances t' l)
      (Lost Transfer.toStream t.toStream l) := by
  obtain ⟨hne, hsect⟩ := sector_of_pass hr h hc
  unfold readFrom
  dsimp only
  rw [if_neg hne, hsect]
  by_cases hcc : t.left / ss ≠ 0
  · rw [if_pos hcc]
    exact readFrom_row hr h hend hmid hc hcc
  · rw [if_neg hcc]
    exact readFrom_sector hr h hend hc hleft

end From

/-- **A pass of the loop reads the next bytes of the file.** -/
theorem readRound_gives (hr : t.fs.Ready) (h : t.toStream.FileOk l) (hleft : 0 < t.left)
    (hend : t.fp.fptr + t.left ≤ t.fp.objsize) :
    Gives (readRound t) (fun t' => t.Advances t' l) (Lost Transfer.toStream t.toStream l) := by
  unfold readRound
  by_cases hmid : t.fp.fptr % ss = 0
  · rw [if_pos hmid]
    refine (on_gives (readCluster_gives hr h hmid (by omega))).bind ?_
    rintro t' ⟨⟨hk, hf, hc⟩, hsame⟩
    have hleft' : t'.left = t.left := by rw [hsame]
    have hoff : sectorOffset t.toStream = t'.fp.fptr / ss % t'.fs.csize := by
      unfold sectorOffset
      rw [hr.data.and_csize, hf, hk.geometry]
    have hend' : t'.fp.fptr + t'.left ≤ t'.fp.objsize := by
      rw [hf, hleft', hk.objsize]
      exact hend
    rw [← hf] at hmid
    rw [← hf, ← hk.geometry] at hc
    have hfrom := readFrom_gives (hk.serves.ready hr) hk.held hend' hmid hc (by omega)
    rw [hoff]
    exact hfrom.imp (fun _ hreads => hreads.behind hr hk hsame hf hend) fun _ hb => hk.lost hb
  · rw [if_neg hmid]
    -- the file pointer is inside of the sector that the buffer holds
    have hpos : 0 < ss - t.fp.fptr % ss := Nat.sub_pos_of_lt (Nat.mod_lt _ (by decide))
    exact .ok ⟨_, by omega, by omega, readPart_reads hr h.toHeld hend hleft (h.sect hmid)
      (h.inside hr (Or.inl hmid))⟩

theorem readLoop_gives (hr : t.fs.Ready) (h : t.toStream.FileOk l)
    (hend : t.fp.fptr + t.left ≤ t.fp.objsize) {passes : Nat} (hpasses : t.left ≤ passes) :
    Gives (readLoop passes t) (fun t' => t.Reads t' l t.left)
      (Lost Transfer.toStream t.toStream l) := by
  induction passes generalizing t with
  | zero =>
    have hzero : t.left = 0 := by omega
    rw [readLoop, if_pos hzero, hzero]
    exact .ok ⟨.refl hr.sound h.toHeld, h, rfl, rfl, rfl, splice_zero.symm⟩
  | succ passes ih =>
    rw [readLoop]
    by_cases hzero : t.left = 0
    · rw [if_pos hzero, hzero]
      exact .ok ⟨.refl hr.sound h.toHeld, h, rfl, rfl, rfl, splice_zero.symm⟩
    · rw [if_neg hzero]
      refine (readRound_gives hr h (by omega) hend).bind ?_
      rintro t₁ ⟨n, hpos, hle, hreads⟩
      have hleft := hreads.left
      have hrest : Gives (readLoop passes t₁) (fun t' => t₁.Reads t' l t₁.left)
          (Lost Transfer.toStream t₁.toStream l) := by
        refine ih (hreads.kept.serves.ready hr) hreads.ok ?_ (by omega)
        rw [hreads.fptr, hreads.kept.objsize]
        omega
      refine hrest.imp (fun t' hreads' => ?_) fun b hb => hreads.kept.lost hb
      have hall := hreads.trans hr (by omega) hreads'
      rwa [hleft, Nat.add_sub_cancel' hle] at hall

end Loop

/-! ## `f_read` -/

/-- The file is open for reading, and no call on it has been given up. -/
structure Stream.Readable (stat : DStatus) (id : Nat) (s : Stream) (l : List Nat) : Prop extends
    s.FileOk l where
  valid : validate stat id s = .ok
  err : s.fp.err = .ok
  mode : s.fp.read = true

section Read

variable {stat : DStatus} {id : Nat} {s s' : Stream} {l : List Nat}

theorem validate_of_kept (h : s.Kept s' l) : validate stat id s' = validate stat id s := by
  have hfs : s'.fp.fs = s.fp.fs := congrArg FilMode.fs h.mode
  have hid : s'.fp.id = s.fp.id := congrArg FilMode.id h.mode
  have htype : s'.fs.fsType = s.fs.fsType := congrArg FatGeometry.fsType h.geometry
  unfold validate
  rw [hfs, hid, htype]

/-- **`f_read` reads the file.**  What it puts into the buffer are the bytes of the file from the
file pointer on, as many as were asked for or as there are, whether they are on the drive or in the
file's own buffer.  It fails only where the drive does, and either way no sector of anything else
changes. -/
theorem fRead_reads (buff : Mem) (btr : Nat) (hr : s.fs.Ready) (h : s.Readable stat id l) :
    ∃ res t, fRead stat id s buff btr = .ok (res, t) ∧
      s.fs.Serves t.fs (s.fs.Own l) ∧ (res ≠ .ok → ¬ s.fs.disk.Reliable) ∧
      (res = .ok → s.Kept t.toStream l ∧ t.toStream.Readable stat id l ∧
        t.count = min btr (s.fp.objsize - s.fp.fptr) ∧ t.fp.fptr = s.fp.fptr + t.count ∧
        ∀ k < t.count, t.buff k = s.byte l (s.fp.fptr + k)) := by
  have hfptr := h.fptr
  have hbound := h.bound
  have hrun : fRead stat id s buff btr =
      returns (readLoop btr ⟨s, buff, 0, min btr (s.fp.objsize - s.fp.fptr)⟩) := by
    unfold fRead
    dsimp only
    rw [if_neg (not_not.mpr h.valid), if_neg (not_not.mpr h.err),
      if_neg (by rw [h.mode]; decide), sub32_of_le hfptr (by omega)]
  generalize hn : min btr (s.fp.objsize - s.fp.fptr) = n at hrun
  have hloop : Gives (readLoop btr ⟨s, buff, 0, n⟩) _ _ :=
    readLoop_gives (t := ⟨s, buff, 0, n⟩) hr h.toFileOk
      (by show s.fp.fptr + n ≤ s.fp.objsize; omega) (by show n ≤ btr; omega)
  rw [hrun]
  revert hloop
  generalize readLoop btr ⟨s, buff, 0, n⟩ = run
  intro hloop
  cases hloop with
  | @ok t _ _ hloop =>
    have hk := hloop.kept
    have hcount : t.count = n := hloop.count.trans (Nat.zero_add n)
    refine ⟨.ok, t, rfl, hk.serves, fun hne => absurd rfl hne, fun _ => ?_⟩
    refine ⟨hk, ?_, hcount, ?_, ?_⟩
    · exact
        { hloop.ok with
          valid := (validate_of_kept hk).trans h.valid
          err := hk.err.trans h.err
          mode := (congrArg FilMode.read hk.mode).trans h.mode }
    · rw [hcount]
      exact hloop.fptr
    · intro k hin
      rw [hcount] at hin
      rw [hloop.buff]
      exact splice_of_in (Nat.zero_le k) (by show k < 0 + n; omega)
  | @error b _ _ hlost =>
    cases b with
    | abort res t =>
      exact ⟨res, t, rfl, hlost.2.1, fun _ => hlost.2.2, fun hok => absurd hok hlost.1⟩
    | stop reason => exact hlost.elim

/-! ## A file that is read in pieces -/

/-- Calls of `f_read` for so many bytes each, up to the first that fails, with the bytes that they
have read. -/
def readRun (stat : DStatus) (id : Nat) (buff : Mem) :
    List Nat → Stream → Except Stop (FResult × List UInt8 × Stream)
  | [], s => .ok (.ok, [], s)
  | btr :: rest, s => do
    let (res, t) ← fRead stat id s buff btr
    if res ≠ .ok then .ok (res, [], t.toStream)
    else do
      let (res, bytes, s) ← readRun stat id buff rest t.toStream
      .ok (res, (List.range t.count).map t.buff ++ bytes, s)

/-- The next `n` bytes of the file. -/
def Stream.ahead (s : Stream) (l : List Nat) (n : Nat) : List UInt8 :=
  (List.range n).map fun k => s.byte l (s.fp.fptr + k)

/-- **A file that is read in pieces comes out whole**, whatever the pieces are: the bytes of all
calls together are those of the file from where the file pointer was, as many as were asked for or
as there are.  A call fails only where the drive does, and no sector of anything else changes. -/
theorem readRun_reads (buff : Mem) (pieces : List Nat) (hr : s.fs.Ready)
    (h : s.Readable stat id l) :
    ∃ res bytes s', readRun stat id buff pieces s = .ok (res, bytes, s') ∧
      s.fs.Serves s'.fs (s.fs.Own l) ∧ (res ≠ .ok → ¬ s.fs.disk.Reliable) ∧
      (res = .ok → s.Kept s' l ∧ s'.Readable stat id l ∧
        bytes = s.ahead l (min pieces.sum (s.fp.objsize - s.fp.fptr)) ∧
        s'.fp.fptr = s.fp.fptr + bytes.length) := by
  induction pieces generalizing s with
  | nil =>
    refine ⟨.ok, [], s, rfl, .refl hr.sound, fun hne => absurd rfl hne, fun _ => ?_⟩
    refine ⟨.refl hr.sound h.toHeld, h, ?_, rfl⟩
    rw [List.sum_nil, Nat.zero_min]
    rfl
  | cons btr rest ih =>
    obtain ⟨res, t, hrun, hserves, hfault, hok⟩ := fRead_reads buff btr hr h
    unfold readRun
    rw [hrun]
    by_cases hres : res = .ok
    · obtain ⟨hk, hreadable, hcount, hfptr, hbuff⟩ := hok hres
      obtain ⟨res', bytes, s', hrun', hserves', hfault', hok'⟩ :=
        ih (hk.serves.ready hr) hreadable
      have hall : s.fs.Serves s'.fs (s.fs.Own l) := by
        rw [hk.geometry] at hserves'
        exact hserves.trans hserves'
      refine ⟨res', (List.range t.count).map t.buff ++ bytes, s', ?_, hall,
        fun hne => mt hserves.reliable (hfault' hne), fun hdone => ?_⟩
      · show (if res ≠ .ok then _ else (readRun stat id buff rest t.toStream >>= _)) = _
        rw [if_neg (not_not.mpr hres), hrun']
        rfl
      · obtain ⟨hk', hreadable', hbytes, hfptr'⟩ := hok' hdone
        rw [hk.objsize, hfptr] at hbytes
        generalize hn : min rest.sum (s.fp.objsize - (s.fp.fptr + t.count)) = n at hbytes
        have hend : s.fp.fptr + (t.count + n) ≤ s.fp.objsize := by
          have hle := h.fptr
          omega
        have hfirst : (List.range t.count).map t.buff = s.ahead l t.count :=
          List.map_congr_left fun k hk => hbuff k (List.mem_range.mp hk)
        have hrest : bytes =
            (List.range n).map fun k => s.byte l (s.fp.fptr + (t.count + k)) := by
          rw [hbytes]
          refine List.map_congr_left fun k hin => ?_
          have hlt := List.mem_range.mp hin
          rw [hfptr, Nat.add_assoc]
          exact hk.byte hr (h.in_blocks (by omega))
        have htotal : min (btr :: rest).sum (s.fp.objsize - s.fp.fptr) = t.count + n := by
          rw [List.sum_cons]
          omega
        have hlength : bytes.length = n := by
          rw [hrest, List.length_map, List.length_range]
        refine ⟨hk.trans hk', hreadable', ?_, ?_⟩
        · rw [htotal, hfirst, hrest, Stream.ahead, Stream.ahead, List.range_add, List.map_append,
            List.map_map]
          rfl
        · rw [hfptr', hfptr, List.length_append, List.length_map, List.length_range, Nat.add_assoc]
    · refine ⟨res, [], t.toStream, ?_, hserves, hfault, fun hdone => absurd hdone hres⟩
      show (if res ≠ .ok then _ else _) = _
      rw [if_pos hres]

end Read

/-- A file on the small volume once it has been mounted.  Its clusters are 2 and 4, it has been read
up to the last two bytes of the first, and these have been changed in its buffer. -/
def smallStream : Stream where
  fs := smallOn (store32 (store16 (fun _ => 0) 3 0x004) 6 0xfff)
    fun s => if s = 6 then store32 (fun _ => 0) 0 0x786f462e else fun _ => 0
  fp :=
    { fs := true
      id := 0
      read := true
      sclust := 2
      objsize := 516
      dirty := true
      err := .ok
      fptr := 510
      clust := 2
      sect := 4
      buf := store16 (fun _ => 0) 510 0x6b6f }

/-- The drive before it is mounted. -/
def smallStreamDrive : Drive := ⟨smallStream.fs.disk.cell, fun _ => none, 0⟩

set_option maxRecDepth 8000 in
theorem smallStream_ready : smallStream.fs.Ready := by
  have hmount : findVolume ⟨false, false⟩ true { blankFatfs with disk := smallStreamDrive } =
      (.ok, smallStream.fs) := rfl
  have hready := @findVolume_ready ⟨false, false⟩ true
    { blankFatfs with disk := smallStreamDrive } rfl
  rw [hmount] at hready
  exact hready rfl smallBoot_fits

theorem smallStream_readable : smallStream.Readable ⟨false, false⟩ 0 [2, 4] where
  chain := by
    show smallStream.fs.links 2 = .next 4 ∧ smallStream.fs.links 4 = .last
    decide
  aside := by decide
  start := rfl
  room := by decide
  bound := by decide
  cache := Or.inr ⟨2, List.mem_cons_self, 0, by decide, rfl⟩
  clean hclean := Bool.noConfusion hclean
  fptr := by decide
  clust _ := rfl
  sect _ := rfl
  valid := by decide
  err := rfl
  mode := rfl

/-- Two bytes are in the buffer, the rest is in the next cluster. -/
theorem readRun_reads_small :
    ∃ s', readRun ⟨false, false⟩ 0 (fun _ => 0) [1, 3, 600] smallStream =
      .ok (.ok, [0x6f, 0x6b, 0x2e, 0x46, 0x6f, 0x78], s') ∧ s'.fp.fptr = 516 := by
  obtain ⟨res, bytes, s', hrun, -, hfault, hok⟩ :=
    readRun_reads (fun _ => 0) [1, 3, 600] smallStream_ready smallStream_readable
  have hres : res = .ok := by
    by_contra hne
    exact hfault hne fun _ _ => rfl
  obtain ⟨-, -, hbytes, hfptr⟩ := hok hres
  have hahead : smallStream.ahead [2, 4] 6 = [0x6f, 0x6b, 0x2e, 0x46, 0x6f, 0x78] := rfl
  rw [hres, hbytes] at hrun
  rw [hbytes] at hfptr
  exact ⟨s', hahead ▸ hrun, hfptr⟩

end HeavenFox.Rootfs
