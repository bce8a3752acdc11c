/-
# HeavenFox.Rootfs.FatRuns -- a volume and the files on it, over whole runs

The callers of `create_chain` and `remove_chain` are the file functions: `f_write` starts and
stretches the chain of a file, `f_truncate` cuts it, `f_unlink` gives it up; directories are changed
through the window, and `sync_fs` is called at any time.  A run is any sequence of these calls.  The
drive may fail at any request, except on FAT12: there an entry is changed in two steps, and a failure
between them leaves half an entry.

Along every run the files keep their chains and share no cluster (`run_owned`), and nothing outside
the table changes that was not written (`run_contents`).  On a drive that does not fail the count of
free clusters stays right (`run_count`) and the copies of the FAT stay alike (`run_mirrored`).
-/
import HeavenFox.Logic.Run
import HeavenFox.Rootfs.FatCreate
import HeavenFox.Rootfs.FatRemove

namespace HeavenFox.Rootfs

open HeavenFox.Common HeavenFox.Logic

/-! ## Volumes with files -/

/-- A volume and the clusters of its files, as the files' owners know them. -/
structure Volume (ι : Type*) where
  fs : Fatfs
  own : ι → List Nat

/-- A call of the file functions. -/
inductive VolumeOp (ι : Type*) where
  /-- The first cluster of a file. -/
  | create (i : ι)
  /-- A cluster behind the last one. -/
  | stretch (i : ι)
  /-- Only the first `k` clusters stay. -/
  | truncate (i : ι) (k : Nat)
  /-- None stays. -/
  | remove (i : ι)
  /-- A sector is changed in the window. -/
  | write (sector : Nat) (win : Mem)
  | sync

/-- The values of `create_chain` that are clusters. -/
def IsCluster (ret : Nat) : Prop := ret ≠ 0 ∧ ret ≠ 1 ∧ ret ≠ diskError

instance (ret : Nat) : Decidable (IsCluster ret) := inferInstanceAs (Decidable (_ ∧ _))

section Steps

variable {ι : Type*} [DecidableEq ι] (rounds : Nat)

/-- The file `i` with the cluster that `create_chain` returned. -/
def Volume.grow (v : Volume ι) (i : ι) (r : Nat × Fatfs) : Volume ι :=
  { fs := r.2, own := if IsCluster r.1 then Function.update v.own i (v.own i ++ [r.1]) else v.own }

/-- `create_chain` behind the last cluster of the file. -/
def Volume.stretch (v : Volume ι) (i : ι) : Option (Volume ι) :=
  (v.own i).getLast?.bind fun clst => (createChain rounds v.fs clst).toOption.map (v.grow i)

/-- `remove_chain` behind the first `k` clusters of the file. -/
def Volume.truncate (v : Volume ι) (i : ι) (k : Nat) : Option (Volume ι) :=
  (v.own i)[k - 1]?.bind fun pclst => (v.own i)[k]?.bind fun clst =>
    (removeChain rounds v.fs clst pclst).toOption.map fun r =>
      { fs := r.2
        own := if r.2.links pclst = .last then Function.update v.own i ((v.own i).take k)
          else v.own }

/-- `remove_chain` for all clusters of the file. -/
def Volume.remove (v : Volume ι) (i : ι) : Option (Volume ι) :=
  (v.own i).head?.bind fun clst =>
    (removeChain rounds v.fs clst 0).toOption.map fun r =>
      { fs := r.2, own := Function.update v.own i [] }

/-- One call.  A call that does not return makes no step. -/
def volumeStep (v : Volume ι) : VolumeOp ι → Option (Volume ι)
  | .create i => (createChain rounds v.fs 0).toOption.map (v.grow i)
  | .stretch i => v.stretch rounds i
  | .truncate i k => v.truncate rounds i k
  | .remove i => v.remove rounds i
  | .write sector win =>
    let r := moveWindow v.fs sector
    some { v with fs := if r.1 = .ok then r.2.poke win else r.2 }
  | .sync => some { v with fs := (syncFs v.fs).2 }

/-- What the file functions ask for: the first cluster of a file that has none, another one or fewer
of a file that has some, sectors that are not part of a FAT and not the FSInfo sector. -/
def VolumeLegal (v : Volume ι) : VolumeOp ι → Prop
  | .create i => v.own i = []
  | .stretch i => v.own i ≠ []
  | .truncate i k => 0 < k ∧ k < (v.own i).length
  | .remove i => v.own i ≠ []
  | .write sector _ => sector < noSector ∧ ¬ v.fs.Loose sector ∧ ¬ v.fs.InFat sector
  | .sync => True

instance (v : Volume ι) : ∀ op, Decidable (VolumeLegal v op)
  | .create i => inferInstanceAs (Decidable (v.own i = []))
  | .stretch i => inferInstanceAs (Decidable (v.own i ≠ []))
  | .truncate _ _ => inferInstanceAs (Decidable (_ ∧ _))
  | .remove i => inferInstanceAs (Decidable (v.own i ≠ []))
  | .write _ _ => inferInstanceAs (Decidable (_ ∧ _))
  | .sync => isTrue trivial

/-- The volume is in order, and the files have the chains they know of. -/
structure Volume.Ok (v : Volume ι) : Prop where
  sound : v.fs.Sound
  size : 3 ≤ v.fs.nFatent
  rounds : v.fs.nFatent ≤ rounds
  owned : Owned v.fs.links v.own

/-- The sector that a call changes in the window. -/
def VolumeOp.Writes : VolumeOp ι → Nat → Prop
  | .write sector _, s => s = sector
  | _, _ => False

instance : ∀ (op : VolumeOp ι) (s : Nat), Decidable (op.Writes s)
  | .create _, _ => isFalse id
  | .stretch _, _ => isFalse id
  | .truncate _ _, _ => isFalse id
  | .remove _, _ => isFalse id
  | .write sector _, s => inferInstanceAs (Decidable (s = sector))
  | .sync, _ => isFalse id

/-- What a call leaves: the volume in order, the count kept if the drive has not failed, and every
sector outside the table that was not written. -/
structure Volume.After (v : Volume ι) (op : VolumeOp ι) (u : Volume ι) : Prop where
  ok : u.Ok rounds
  geometry : u.fs.toFatGeometry = v.fs.toFatGeometry
  reliable : v.fs.disk.Reliable → u.fs.disk.Reliable
  mirrored : v.fs.disk.Reliable → v.fs.Mirrored v.fs.disk.cell → u.fs.Mirrored u.fs.disk.cell
  count : v.fs.disk.Reliable → v.fs.KeepsCount u.fs
  contents : ∀ s, ¬ v.fs.Loose s → ¬ v.fs.InFat s → ¬ op.Writes s →
    u.fs.contents s = v.fs.contents s

variable {rounds} {v : Volume ι}

omit [DecidableEq ι] in
theorem Volume.After.steady {op : VolumeOp ι} {u : Volume ι} (h : v.After rounds op u)
    (hsteady : v.fs.Steady) : u.fs.Steady := by
  intro htype
  rw [h.geometry] at htype
  exact h.reliable (hsteady htype)

omit [DecidableEq ι] in
theorem Volume.Ok.of_near (hv : v.Ok rounds) {fs : Fatfs} {own : ι → List Nat} (op : VolumeOp ι)
    (h : v.fs.Near fs) (howned : Owned fs.links own)
    (hcount : v.fs.disk.Reliable → v.fs.KeepsCount fs) :
    v.After rounds op (Volume.mk fs own) where
  ok := ⟨h.sound, by rw [h.nFatent]; exact hv.size, by rw [h.nFatent]; exact hv.rounds, howned⟩
  geometry := h.geometry
  reliable := h.reliable
  mirrored := h.mirrored
  count := hcount
  contents s hs hin _ := h.frame s hs hin

omit [DecidableEq ι] in
theorem isCluster_of_valid {n ret : Nat} (hlo : 2 ≤ ret) (hhi : ret < n) (hn : n < 2 ^ 28) :
    IsCluster ret := by
  unfold IsCluster diskError
  omega

omit [DecidableEq ι] in
/-- One cluster less is free when a free one is linked. -/
theorem freeCells_linkTo {t : Nat → Link Nat} {cells : Finset Nat} {clst ncl : Nat}
    (hfree : t ncl = .free) (hclst : clst = 0 ∨ clst ≠ 0 ∧ t clst ≠ .free) :
    freeCells (linkTo t clst ncl) cells = (freeCells t cells).erase ncl := by
  unfold linkTo
  rcases hclst with rfl | ⟨hzero, hused⟩
  · rw [if_pos rfl]
    apply freeCells_take
    · rw [Function.update_self]
      decide
    · intro a ha
      rw [Function.update_of_ne ha]
  · have hne : ncl ≠ clst := fun heq => hused (heq ▸ hfree)
    rw [if_neg hzero]
    apply freeCells_take
    · rw [Function.update_of_ne hne, Function.update_self]
      decide
    · intro a ha
      by_cases hac : a = clst
      · rw [hac, Function.update_self]
        exact ⟨fun h => absurd h (fun h => by cases h), fun h => absurd h hused⟩
      · rw [Function.update_of_ne hac, Function.update_of_ne ha]

omit [DecidableEq ι] in
/-- The count follows when a free cluster is linked. -/
theorem linkTo_keepsCount {fs fs' : Fatfs} {clst ncl : Nat} (hnear : fs.Near fs')
    (hfree : fs.links ncl = .free) (hclst : clst = 0 ∨ clst ≠ 0 ∧ fs.links clst ≠ .free)
    (hlinks : fs'.links = linkTo fs.links clst ncl)
    (hcount : fs'.freeClst =
      if fs.freeClst ≤ fs.nFatent - 2 then sub32 fs.freeClst 1 else fs.freeClst) :
    fs.KeepsCount fs' where
  counted hok := by
    have hmem : ncl ∈ freeCells fs.links fs.clusters :=
      mem_freeCells.mpr ⟨mem_clusters.mpr (valid_of_free hfree), hfree⟩
    have hcells : freeCells (linkTo fs.links clst ncl) fs.clusters =
        (freeCells fs.links fs.clusters).erase ncl := freeCells_linkTo hfree hclst
    have hpos := Finset.card_pos.mpr ⟨ncl, hmem⟩
    have hle := card_freeCells_le fs
    have hmax := Nat.lt_of_lt_of_le hnear.sound.table.ends fs'.fsType.values_le
    have hn := hnear.nFatent
    unfold Fatfs.Counted at hok ⊢
    rw [hcount, if_pos (by omega), sub32_of_le (by omega) (by omega), Fatfs.clusters, hn,
      ← Fatfs.clusters, hlinks, hcells, Finset.card_erase_of_mem hmem, hok]
  uncounted hout := by
    unfold Fatfs.Uncounted at hout
    rw [hcount, if_neg (by omega)]

/-- What `create_chain` returns is a cluster only if it is the new one. -/
theorem grow_after (hv : v.Ok rounds) (op : VolumeOp ι) {i : ι} {clst ret : Nat} {fs : Fatfs}
    (hcreated : v.fs.Created clst ret fs)
    (hclst : clst = 0 ∨ clst ≠ 0 ∧ v.fs.links clst ≠ .free)
    (hlinked : v.fs.links ret = .free →
      Owned (linkTo v.fs.links clst ret) (Function.update v.own i (v.own i ++ [ret]))) :
    v.After rounds op (v.grow i (ret, fs)) := by
  cases hcreated with
  | linked near free links lastClst freeClst =>
    have hvalid := valid_of_free free
    have hmax := Nat.lt_of_lt_of_le hv.sound.table.ends v.fs.fsType.values_le
    unfold Volume.grow
    rw [if_pos (isCluster_of_valid hvalid.1 hvalid.2 (by omega))]
    exact hv.of_near op near (by rw [links]; exact hlinked free)
      fun _ => linkTo_keepsCount near free hclst links freeClst
  | full still none =>
    exact hv.of_near op still.toNear (by rw [still.links]; exact hv.owned) fun _ => still.keepsCount
  | broken still entry =>
    exact hv.of_near op still.toNear (by rw [still.links]; exact hv.owned) fun _ => still.keepsCount
  | failed near fault links =>
    refine hv.of_near op near ?_ fun hrel => absurd hrel fault
    rcases links with hsame | ⟨b, hfree, hmark⟩
    · rw [hsame]
      exact hv.owned
    · -- the marked cluster belongs to no file
      rw [hmark]
      refine hv.owned.frame fun j a ha => Function.update_of_ne ?_ _ _
      rintro rfl
      exact hv.owned.not_mem_of_free hfree j ha

/-- A list around two neighbours. -/
theorem split_at_two {α : Type*} (l : List α) {m : Nat} (h : m + 1 < l.length) :
    l = l.take m ++ l[m] :: l[m + 1] :: l.drop (m + 2) := by
  rw [List.getElem_cons_drop, List.getElem_cons_drop, List.take_append_drop]

theorem create_after (hv : v.Ok rounds) (hsteady : v.fs.Steady) {i : ι} (hi : v.own i = []) :
    ∃ u, volumeStep rounds v (.create i) = some u ∧ v.After rounds (.create i) u := by
  obtain ⟨ret, fs, hrun, hcreated⟩ := createChain_new hv.sound hsteady hv.size hv.rounds
  refine ⟨v.grow i (ret, fs), ?_, grow_after hv _ hcreated (Or.inl rfl) fun hfree => ?_⟩
  · show (createChain rounds v.fs 0).toOption.map (v.grow i) = _
    rw [hrun]
    rfl
  · rw [hi, linkTo, if_pos rfl]
    exact hv.owned.create hfree (Function.update_self _ _ _)
      fun a ha => Function.update_of_ne ha _ _

theorem stretch_after (hv : v.Ok rounds) (hsteady : v.fs.Steady) {i : ι} (hi : v.own i ≠ []) :
    ∃ u, volumeStep rounds v (.stretch i) = some u ∧ v.After rounds (.stretch i) u := by
  obtain ⟨l, clst, hl⟩ := List.eq_nil_or_concat (v.own i) |>.resolve_left hi
  have hchain := hv.owned.chain i
  rw [hl, List.concat_eq_append] at hchain
  have hlast : v.fs.links clst = .last := hchain.suffix
  have hvalid := valid_of_used hchain (List.mem_append_right l (List.mem_singleton_self clst))
  obtain ⟨ret, fs, hrun, hcreated⟩ := createChain_stretch hv.sound hsteady hlast hv.rounds
  refine ⟨v.grow i (ret, fs), ?_,
    grow_after hv _ hcreated (Or.inr ⟨by omega, by rw [hlast]; decide⟩) fun hfree => ?_⟩
  · show (v.own i).getLast?.bind _ = _
    rw [hl, List.concat_eq_append, List.getLast?_append_of_ne_nil l (List.cons_ne_nil clst [])]
    show (createChain rounds v.fs clst).toOption.map (v.grow i) = _
    rw [hrun]
    rfl
  · have hne : clst ≠ ret := by
      rintro rfl
      cases hlast.symm.trans hfree
    have hown : v.own i ++ [ret] = l ++ [clst, ret] := by
      rw [hl, List.concat_eq_append, List.append_assoc]
      rfl
    rw [hown, linkTo, if_neg (by omega)]
    refine hv.owned.stretch (by rw [hl, List.concat_eq_append]) hfree (Function.update_self _ _ _)
      ?_ fun c hc hc' => ?_
    · rw [Function.update_of_ne (Ne.symm hne), Function.update_self]
    · rw [Function.update_of_ne hc, Function.update_of_ne hc']

theorem truncate_after (hv : v.Ok rounds) (hsteady : v.fs.Steady) {i : ι} {k : Nat} (hpos : 0 < k)
    (hk : k < (v.own i).length) :
    ∃ u, volumeStep rounds v (.truncate i k) = some u ∧ v.After rounds (.truncate i k) u := by
  obtain ⟨m, rfl⟩ : ∃ m, k = m + 1 := ⟨k - 1, by omega⟩
  -- the clusters that stay but the last of them, that one, and the rest
  have hl := split_at_two (v.own i) hk
  generalize ha : (v.own i)[m] = a at hl
  generalize hclst : (v.own i)[m + 1] = clst at hl
  have hchain := hv.owned.chain i
  rw [hl] at hchain
  obtain ⟨res, fs, hrun, htrunc⟩ := removeChain_cut hv.sound hsteady hchain hv.rounds
  refine ⟨⟨fs, if fs.links a = .last then Function.update v.own i ((v.own i).take (m + 1))
    else v.own⟩, ?_, ?_⟩
  · show (v.own i)[m]?.bind _ = _
    rw [List.getElem?_eq_getElem (by omega), ha]
    show (v.own i)[m + 1]?.bind _ = _
    rw [List.getElem?_eq_getElem hk, hclst]
    show (removeChain rounds v.fs clst a).toOption.map _ = _
    rw [hrun]
    rfl
  · rcases htrunc.cut with ⟨hlast, hothers, -⟩ | ⟨hsame, -⟩
    · have htake : (v.own i).take (m + 1) = (v.own i).take m ++ [a] := by
        rw [← ha]
        exact List.take_succ_eq_append_getElem (by omega)
      refine hv.of_near _ htrunc.near ?_ fun _ => htrunc.count
      rw [if_pos hlast, htake]
      exact hv.owned.cut hl hlast hothers
    · have hnext : fs.links a ≠ .last := by
        rw [hsame, hchain.suffix.1]
        exact fun h => by cases h
      refine hv.of_near _ htrunc.near ?_ fun _ => htrunc.count
      rw [if_neg hnext, hsame]
      exact hv.owned

theorem remove_after (hv : v.Ok rounds) (hsteady : v.fs.Steady) {i : ι} (hi : v.own i ≠ []) :
    ∃ u, volumeStep rounds v (.remove i) = some u ∧ v.After rounds (.remove i) u := by
  obtain ⟨clst, l, hl⟩ := List.exists_cons_of_ne_nil hi
  have hchain := hv.owned.chain i
  rw [hl] at hchain
  obtain ⟨res, fs, hrun, hremoved⟩ := removeChain_all hv.sound hsteady hchain hv.rounds
  refine ⟨⟨fs, Function.update v.own i []⟩, ?_,
    hv.of_near _ hremoved.near (hv.owned.drop fun c hc => ?_) fun _ => hremoved.count⟩
  · show (v.own i).head?.bind _ = _
    rw [hl]
    show (removeChain rounds v.fs clst 0).toOption.map _ = _
    rw [hrun]
    rfl
  · rw [hl] at hc
    exact hremoved.others c hc

omit [DecidableEq ι] in
/-- A change of a sector that is not part of the table: it comes about, or the drive has failed. -/
theorem write_becomes (hs : v.fs.Sound) {sector : Nat} (win : Mem) (hsector : sector < noSector)
    (hloose : ¬ v.fs.Loose sector) :
    let r := moveWindow v.fs sector
    let fs := if r.1 = .ok then r.2.poke win else r.2
    v.fs.Becomes fs (if r.1 = .ok then Function.update v.fs.contents sector win
      else v.fs.contents) := by
  have hmove := moveWindow_moved hs.window (Nat.le_of_lt hsector)
    fun hcopy => hloose (Or.inl hcopy)
  dsimp only
  split_ifs with hres
  · exact hmove.poke hres win
  · exact hmove.keeps

theorem write_after (hv : v.Ok rounds) {sector : Nat} (win : Mem) (hsector : sector < noSector)
    (hloose : ¬ v.fs.Loose sector) (hfat : ¬ v.fs.InFat sector) :
    ∃ u, volumeStep rounds v (.write sector win) = some u ∧
      v.After rounds (.write sector win) u := by
  have h := write_becomes hv.sound win hsector hloose
  refine ⟨_, rfl, ?_⟩
  dsimp only at h ⊢
  generalize (if (moveWindow v.fs sector).1 = .ok then (moveWindow v.fs sector).2.poke win
    else (moveWindow v.fs sector).2) = fs at h ⊢
  have hgeo := h.geometry
  have hother {s : Nat} (hs : s ≠ sector) :
      (if (moveWindow v.fs sector).1 = .ok then Function.update v.fs.contents sector win
        else v.fs.contents) s = v.fs.contents s := by
    split_ifs
    · exact Function.update_of_ne hs _ _
    · rfl
  have hlinks : fs.links = v.fs.links := by
    refine links_of_contents hv.sound hgeo fun s hs hin => (h.contents s hs).trans (hother ?_)
    rintro rfl
    exact hfat hin
  refine ⟨⟨⟨h.ok, ?_, ?_⟩, ?_, ?_, ?_⟩, hgeo, h.reliable, h.mirrored, fun _ => ?_,
    fun s hs _ hne => (h.contents s hs).trans (hother hne)⟩
  · rw [hgeo]
    exact hv.sound.table
  · rw [hgeo]
    exact hv.sound.mounted
  · rw [hgeo]
    exact hv.size
  · rw [hgeo]
    exact hv.rounds
  · rw [hlinks]
    exact hv.owned
  · exact keepsCount_of_free (by rw [hgeo]) h.freeClst fun c => by rw [hlinks]

theorem sync_after (hv : v.Ok rounds) :
    ∃ u, volumeStep rounds v .sync = some u ∧ v.After rounds .sync u := by
  have hstill := (syncFs_durable hv.sound.window).1.still hv.sound
  exact ⟨_, rfl, hv.of_near _ hstill.toNear (by rw [hstill.links]; exact hv.owned)
    fun _ => hstill.keepsCount⟩

/-- Every call returns and leaves the volume in order. -/
theorem volumeStep_after (hv : v.Ok rounds) (hsteady : v.fs.Steady) {op : VolumeOp ι}
    (hlegal : VolumeLegal v op) :
    ∃ u, volumeStep rounds v op = some u ∧ v.After rounds op u := by
  cases op with
  | create i => exact create_after hv hsteady hlegal
  | stretch i => exact stretch_after hv hsteady hlegal
  | truncate i k => exact truncate_after hv hsteady hlegal.1 hlegal.2
  | remove i => exact remove_after hv hsteady hlegal
  | write sector win => exact write_after hv win hlegal.1 hlegal.2.1 hlegal.2.2
  | sync => exact sync_after hv

/-- A step from a volume in order is the one that the calls make. -/
theorem Volume.Ok.after (hv : v.Ok rounds) (hsteady : v.fs.Steady) {op : VolumeOp ι}
    (hlegal : VolumeLegal v op) {u : Volume ι} (h : volumeStep rounds v op = some u) :
    v.After rounds op u := by
  obtain ⟨u', hu', hafter⟩ := volumeStep_after hv hsteady hlegal
  obtain rfl : u' = u := Option.some.inj (hu'.symm.trans h)
  exact hafter

/-! ## Runs -/

/-- A boot sector of FAT16: one reserved sector, two FATs of 16 sectors each, 16 root entries, 4086
clusters of one sector. -/
def wideBoot : Mem := store16 (store16 smallBoot 19 4120) 22 16

/-- A drive with nothing else on it. -/
def wideDrive (fault : Nat → Option (Nat → Mem)) : Drive :=
  ⟨fun s => if s = 0 then wideBoot else fun _ => 0, fault, 1⟩

/-- The volume on it once it has been mounted. -/
def wideFatfs (fault : Nat → Option (Nat → Mem)) : Fatfs :=
  { smallFatfs with
    fsType := .fat16
    nFatent := 4088
    fsize := 16
    dirbase := 33
    database := 34
    win := wideBoot
    disk := wideDrive fault }

/-- Two files that have no cluster, on a drive of which two requests fail. -/
def wideVolume : Volume Bool :=
  { fs := wideFatfs fun n => if n = 2 ∨ n = 7 then some fun _ _ => 0xff else none
    own := fun _ => [] }

/-- The files grow in turns; a sector is written, which fails at first; the table cannot be read for
a file that is to grow, and then it can. -/
def wideOps : List (VolumeOp Bool) :=
  [.create false, .create true, .stretch false, .stretch false, .stretch true, .truncate false 1,
    .write 40 smallBoot, .write 40 smallBoot, .stretch true, .stretch true, .remove false, .sync]

theorem wideFatfs_sound (fault : Nat → Option (Nat → Mem)) : (wideFatfs fault).Sound where
  window :=
    { copies := by
        show 1 + 2 * 16 ≤ noSector
        decide
      info := FsType.noConfusion
      winsect := Nat.zero_le _
      first := fun hcopy => absurd hcopy.1 (show ¬ 1 + 16 ≤ 0 by decide)
      clean := fun _ _ => rfl }
  table :=
    { nFats := show 1 ≤ 2 by decide
      fits := fun c hc => by
        have hlt : c < 4088 := hc
        show 2 * c + 2 ≤ 16 * 512
        omega
      ends := show 4088 < 2 ^ 16 by decide }
  mounted := FsType.noConfusion

theorem wideVolume_ok : wideVolume.Ok 4088 where
  sound := wideFatfs_sound _
  size := show 3 ≤ 4088 by decide
  rounds := show 4088 ≤ 4088 from Nat.le_refl _
  owned := ⟨fun _ => trivial, fun _ _ _ => List.disjoint_nil_left _⟩

theorem wideVolume_steady : wideVolume.fs.Steady := FsType.noConfusion

theorem wideVolume_meets : Meets (volumeStep 4088) VolumeLegal wideVolume wideOps := by
  decide

/-- The small volume with the files whose chains are on it. -/
def usedVolume : Volume Bool := ⟨usedFatfs, fun i => if i then [4, 5] else [2]⟩

/-- A file is cut, the other one gets what is free then; one is removed and started again. -/
def usedOps : List (VolumeOp Bool) :=
  [.truncate true 1, .stretch false, .write 4 smallBoot, .remove true, .create true, .sync]

theorem usedVolume_ok : usedVolume.Ok 6 where
  sound := usedFatfs_sound
  size := show 3 ≤ 6 by decide
  rounds := show 6 ≤ 6 from Nat.le_refl _
  owned :=
    { chain := fun
        | false => show usedFatfs.links 2 = .last by decide
        | true => show usedFatfs.links 4 = .next 5 ∧ usedFatfs.links 5 = .last by decide
      disjoint := by
        have hapart : ∀ c ∈ [2], c ∉ [4, 5] := by decide
        rintro (_ | _) (_ | _) hne
        · exact absurd rfl hne
        · exact fun c hc hc' => hapart c hc hc'
        · exact fun c hc hc' => hapart c hc' hc
        · exact absurd rfl hne }

theorem usedVolume_meets : Meets (volumeStep 6) VolumeLegal usedVolume usedOps := by
  decide

/-- **The files keep their chains.**  Whatever is done to them, in any order and on a drive that may
fail at any request (on FAT12, that does not fail), every call returns, and in every state the table
holds a chain for each file and no cluster for two of them. -/
theorem run_owned {ops : List (VolumeOp ι)} (hv : v.Ok rounds) (hsteady : v.fs.Steady)
    (hlegal : Meets (volumeStep rounds) VolumeLegal v ops) :
    (∃ u, exec (volumeStep rounds) v ops = some u) ∧
      Always (volumeStep rounds) (fun u => Owned u.fs.links u.own) v ops := by
  have hstep : ∀ (v : Volume ι) op, v.Ok rounds ∧ v.fs.Steady → VolumeLegal v op →
      ∃ u, volumeStep rounds v op = some u ∧ u.Ok rounds ∧ u.fs.Steady := by
    intro v op hv hl
    obtain ⟨u, hu, hafter⟩ := volumeStep_after hv.1 hv.2 hl
    exact ⟨u, hu, hafter.ok, hafter.steady hv.2⟩
  obtain ⟨hrun, halways⟩ := run_of_meets hstep ⟨hv, hsteady⟩ hlegal
  exact ⟨hrun, Always.imp (fun _ hu => hu.1.owned) halways⟩

theorem run_owned_small :
    (∃ u, exec (volumeStep 4088) wideVolume wideOps = some u) ∧
      Always (volumeStep 4088) (fun u => Owned u.fs.links u.own) wideVolume wideOps :=
  run_owned wideVolume_ok wideVolume_steady wideVolume_meets

/-- **The count of free clusters stays right** in every state of a run on a drive that does not fail,
if it was right at first; a count that was not known stays what it was. -/
theorem run_count {ops : List (VolumeOp ι)} (hv : v.Ok rounds) (hrel : v.fs.disk.Reliable)
    (hlegal : Meets (volumeStep rounds) VolumeLegal v ops) :
    (v.fs.Counted → Always (volumeStep rounds) (fun u => u.fs.Counted) v ops) ∧
      (v.fs.Uncounted →
        Always (volumeStep rounds) (fun u => u.fs.freeClst = v.fs.freeClst) v ops) := by
  have hstep : ∀ (w : Volume ι) op u,
      (w.Ok rounds ∧ w.fs.disk.Reliable ∧ w.fs.nFatent = v.fs.nFatent ∧ v.fs.KeepsCount w.fs) →
      VolumeLegal w op → volumeStep rounds w op = some u →
      u.Ok rounds ∧ u.fs.disk.Reliable ∧ u.fs.nFatent = v.fs.nFatent ∧ v.fs.KeepsCount u.fs := by
    rintro w op u ⟨hw, hrel, hn, hcount⟩ hl hu
    have hafter := hw.after (fun _ => hrel) hl hu
    refine ⟨hafter.ok, hafter.reliable hrel, ?_, hcount.trans hn (hafter.count hrel)⟩
    rw [hafter.geometry, hn]
  have halways := always_of_meets hstep ⟨hv, hrel, rfl, .refl v.fs⟩ hlegal
  exact ⟨fun hright => Always.imp (fun _ hu => hu.2.2.2.counted hright) halways,
    fun hout => Always.imp (fun _ hu => hu.2.2.2.uncounted hout) halways⟩

theorem run_count_small :
    Always (volumeStep 6) (fun u => u.fs.Counted) usedVolume usedOps :=
  (run_count usedVolume_ok (smallOn_reliable _ _) usedVolume_meets).1
    (show usedFatfs.Counted by decide)

/-- What a run keeps: the volume in order, its geometry, and the sectors that no call changes. -/
theorem along_run {ops : List (VolumeOp ι)} (hv : v.Ok rounds) (hsteady : v.fs.Steady)
    {S : Nat → Prop} (hS : ∀ s, S s → ¬ v.fs.Loose s ∧ ¬ v.fs.InFat s)
    (hops : ∀ op ∈ ops, ∀ s, S s → ¬ op.Writes s)
    (hlegal : Meets (volumeStep rounds) VolumeLegal v ops) :
    Always (volumeStep rounds)
      (fun u => (u.Ok rounds ∧ u.fs.Steady ∧ u.fs.toFatGeometry = v.fs.toFatGeometry) ∧
        ∀ s, S s → u.fs.contents s = v.fs.contents s) v ops := by
  have hstep : ∀ (w : Volume ι) op u,
      ((w.Ok rounds ∧ w.fs.Steady ∧ w.fs.toFatGeometry = v.fs.toFatGeometry) ∧
        ∀ s, S s → w.fs.contents s = v.fs.contents s) →
      (VolumeLegal w op ∧ ∀ s, S s → ¬ op.Writes s) → volumeStep rounds w op = some u →
      (u.Ok rounds ∧ u.fs.Steady ∧ u.fs.toFatGeometry = v.fs.toFatGeometry) ∧
        ∀ s, S s → u.fs.contents s = v.fs.contents s := by
    rintro w op u ⟨⟨hw, hsteady, hgeo⟩, hsame⟩ ⟨hl, hop⟩ hu
    have hafter := hw.after hsteady hl hu
    refine ⟨⟨hafter.ok, hafter.steady hsteady, hafter.geometry.trans hgeo⟩, fun s hs => ?_⟩
    obtain ⟨hloose, hfat⟩ := hS s hs
    have hkeep := hafter.contents s (by rwa [hgeo]) (by rwa [hgeo]) (hop s hs)
    exact hkeep.trans (hsame s hs)
  exact always_of_meets hstep ⟨⟨hv, hsteady, rfl⟩, fun _ _ => rfl⟩
    (hlegal.and (meets_of_forall hops))

/-- **What is not written stays.**  In every state of a run a sector that no call changes holds what
it held at first, whatever chains are started, stretched, cut or given up, if it is not part of a FAT
and not the FSInfo sector. -/
theorem run_contents {ops : List (VolumeOp ι)} (hv : v.Ok rounds) (hsteady : v.fs.Steady) {s : Nat}
    (hloose : ¬ v.fs.Loose s) (hfat : ¬ v.fs.InFat s) (hops : ∀ op ∈ ops, ¬ op.Writes s)
    (hlegal : Meets (volumeStep rounds) VolumeLegal v ops) :
    Always (volumeStep rounds) (fun u => u.fs.contents s = v.fs.contents s) v ops := by
  have hS : ∀ s', s' = s → ¬ v.fs.Loose s' ∧ ¬ v.fs.InFat s' := by
    rintro s' rfl
    exact ⟨hloose, hfat⟩
  have hops' : ∀ op ∈ ops, ∀ s', s' = s → ¬ op.Writes s' := by
    rintro op hop s' rfl
    exact hops op hop
  exact Always.imp (fun _ hu => hu.2 s rfl) (along_run hv hsteady hS hops' hlegal)

/-- The boot sector stays, though the drive fails. -/
theorem run_contents_small :
    Always (volumeStep 4088) (fun u => u.fs.contents 0 = wideVolume.fs.contents 0) wideVolume
      wideOps :=
  run_contents wideVolume_ok wideVolume_steady (by decide) (by decide) (by decide) wideVolume_meets

/-- **The copies of the FAT stay alike** on a drive that does not fail. -/
theorem run_mirrored {ops : List (VolumeOp ι)} (hv : v.Ok rounds) (hrel : v.fs.disk.Reliable)
    (hmir : v.fs.Mirrored v.fs.disk.cell) (hlegal : Meets (volumeStep rounds) VolumeLegal v ops) :
    Always (volumeStep rounds) (fun u => u.fs.Mirrored u.fs.disk.cell) v ops := by
  have hstep : ∀ (v : Volume ι) op u,
      (v.Ok rounds ∧ v.fs.disk.Reliable ∧ v.fs.Mirrored v.fs.disk.cell) → VolumeLegal v op →
      volumeStep rounds v op = some u →
      u.Ok rounds ∧ u.fs.disk.Reliable ∧ u.fs.Mirrored u.fs.disk.cell := by
    rintro v op u ⟨hv, hrel, hmir⟩ hl hu
    have hafter := hv.after (fun _ => hrel) hl hu
    exact ⟨hafter.ok, hafter.reliable hrel, hafter.mirrored hrel hmir⟩
  exact Always.imp (fun _ hu => hu.2.2) (always_of_meets hstep ⟨hv, hrel, hmir⟩ hlegal)

theorem run_mirrored_small :
    Always (volumeStep 6) (fun u => u.fs.Mirrored u.fs.disk.cell) usedVolume usedOps := by
  refine run_mirrored usedVolume_ok (smallOn_reliable _ _) (fun s hs k hk => ?_) usedVolume_meets
  obtain ⟨hlo, hhi⟩ : 1 ≤ s ∧ s < 2 := hs
  have hcopies : k < 2 := hk
  show smallCells usedFat (fun _ _ => 0) (s + k * 1) = smallCells usedFat (fun _ _ => 0) s
  unfold smallCells
  rw [if_neg (by omega), if_pos (by omega), if_neg (by omega), if_pos (by omega)]

end Steps

end HeavenFox.Rootfs
