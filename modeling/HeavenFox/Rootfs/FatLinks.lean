/-
# HeavenFox.Rootfs.FatLinks -- the table as links between clusters

An entry of the table says that its cluster is free, which cluster follows, or that the chain ends.
`get_fat` and `put_fat` are told here by what they do to this table of links: on any drive `put_fat`
sets one link or none (`putFat_links`), except that on FAT12 a failure may fall between the halves of
an entry.
-/
import HeavenFox.Logic.LinkTable
import HeavenFox.Rootfs.FatTable

namespace HeavenFox.Rootfs

open HeavenFox.Logic

/-! ## The table of links -/

/-- What an entry means on a volume of `n` entries. -/
def decodeEntry (n v : Nat) : Link Nat :=
  if v = 0 then .free else if v = 1 then .broken else if v < n then .next v else .last

/-- The table of links; clusters that the volume does not have are not in it. -/
def Fatfs.links (fs : Fatfs) : Nat → Link Nat :=
  fun c => if 2 ≤ c ∧ c < fs.nFatent then decodeEntry fs.nFatent (fs.entry c) else .broken

/-- A mounted volume whose window and table are in order. -/
structure Fatfs.Sound (fs : Fatfs) : Prop where
  window : fs.WindowOk
  table : fs.TableOk
  mounted : fs.fsType ≠ .none

/-- The drive does not fail where an entry may be changed in two steps. -/
def Fatfs.Steady (fs : Fatfs) : Prop := fs.fsType = .fat12 → fs.disk.Reliable

/-- What every call on the table keeps. -/
structure Fatfs.Near (fs fs' : Fatfs) : Prop where
  sound : fs'.Sound
  geometry : fs'.toFatGeometry = fs.toFatGeometry
  frame : ∀ s, ¬ fs.Loose s → ¬ fs.InFat s → fs'.contents s = fs.contents s
  reliable : fs.disk.Reliable → fs'.disk.Reliable
  mirrored : fs.disk.Reliable → fs.Mirrored fs.disk.cell → fs'.Mirrored fs'.disk.cell

/-- A call that leaves the table and the counters alone. -/
structure Fatfs.Still (fs fs' : Fatfs) : Prop extends fs.Near fs' where
  links : fs'.links = fs.links
  lastClst : fs'.lastClst = fs.lastClst
  freeClst : fs'.freeClst = fs.freeClst

theorem Fatfs.Near.refl {fs : Fatfs} (hs : fs.Sound) : fs.Near fs :=
  ⟨hs, rfl, fun _ _ _ => rfl, id, fun _ => id⟩

theorem Fatfs.Near.trans {fs fs' fs'' : Fatfs} (h : fs.Near fs') (h' : fs'.Near fs'') :
    fs.Near fs'' where
  sound := h'.sound
  geometry := h'.geometry.trans h.geometry
  frame s hs hin := by
    have hs' : ¬ fs'.Loose s := by rwa [h.geometry]
    have hin' : ¬ fs'.InFat s := by rwa [h.geometry]
    exact (h'.frame s hs' hin').trans (h.frame s hs hin)
  reliable := h'.reliable ∘ h.reliable
  mirrored hrel hmir := h'.mirrored (h.reliable hrel) (h.mirrored hrel hmir)

theorem Fatfs.Near.nFatent {fs fs' : Fatfs} (h : fs.Near fs') : fs'.nFatent = fs.nFatent := by
  rw [h.geometry]

theorem Fatfs.Near.steady {fs fs' : Fatfs} (h : fs.Near fs') (hsteady : fs.Steady) :
    fs'.Steady := by
  intro htype
  rw [h.geometry] at htype
  exact h.reliable (hsteady htype)

theorem Fatfs.Still.refl {fs : Fatfs} (hs : fs.Sound) : fs.Still fs :=
  ⟨Near.refl hs, rfl, rfl, rfl⟩

theorem Fatfs.Still.trans {fs fs' fs'' : Fatfs} (h : fs.Still fs') (h' : fs'.Still fs'') :
    fs.Still fs'' where
  toNear := h.toNear.trans h'.toNear
  links := h'.links.trans h.links
  lastClst := h'.lastClst.trans h.lastClst
  freeClst := h'.freeClst.trans h.freeClst

theorem links_of_valid {fs : Fatfs} {c : Nat} (hlo : 2 ≤ c) (hhi : c < fs.nFatent) :
    fs.links c = decodeEntry fs.nFatent (fs.entry c) := if_pos ⟨hlo, hhi⟩

/-- Whatever is in the table is a cluster of the volume. -/
theorem valid_of_links {fs : Fatfs} {c : Nat} (h : fs.links c ≠ .broken) :
    2 ≤ c ∧ c < fs.nFatent := by
  by_contra hvalid
  exact h (if_neg hvalid)

theorem valid_of_used {fs : Fatfs} {c : Nat} {l : List Nat} (h : Chain fs.links l) (hc : c ∈ l) :
    2 ≤ c ∧ c < fs.nFatent := by
  apply valid_of_links
  rcases h.used hc with hlast | ⟨b, hnext⟩
  · rw [hlast]
    decide
  · rw [hnext]
    exact fun h => by cases h

/-- Two volumes of one size have the same links where they have the same entries. -/
theorem links_congr {fs fs' : Fatfs} (hn : fs'.nFatent = fs.nFatent) {c : Nat}
    (hc : c < fs.nFatent → fs'.entry c = fs.entry c) : fs'.links c = fs.links c := by
  unfold Fatfs.links
  rw [hn]
  split_ifs with hvalid
  · rw [hc hvalid.2]
  · rfl

/-- The links are what the sectors of the table hold. -/
theorem links_of_contents {fs fs' : Fatfs} (hs : fs.Sound)
    (hgeo : fs'.toFatGeometry = fs.toFatGeometry)
    (hfat : ∀ s, ¬ fs.Loose s → fs.InFat s → fs'.contents s = fs.contents s) :
    fs'.links = fs.links := by
  have hbyte {k : Nat} (hk : k < fs.fsize * ss) : fs'.fat k = fs.fat k := by
    have hq := div_lt_fsize hk
    have hloose := fatSector_not_loose hs.window hs.table hq
    unfold Fatfs.fat
    rw [show fs'.fatbase = fs.fatbase by rw [hgeo]]
    rw [hfat _ hloose ⟨Nat.le_add_right _ _, Nat.add_lt_add_left hq _⟩]
  funext c
  refine links_congr (by rw [hgeo]) fun hc => ?_
  have hfits := hs.table.fits c hc
  unfold Fatfs.entry
  rw [show fs'.fsType = fs.fsType by rw [hgeo]]
  exact FsType.load_congr fun k _ hk => hbyte (by omega)

theorem Fatfs.Keeps.still {fs fs' : Fatfs} (hs : fs.Sound) (h : fs.Keeps fs') : fs.Still fs' where
  sound := ⟨h.ok, by rw [h.geometry]; exact hs.table, by rw [h.geometry]; exact hs.mounted⟩
  geometry := h.geometry
  frame s hloose _ := h.contents s hloose
  reliable := h.reliable
  mirrored := h.mirrored
  links := by
    funext c
    exact links_congr (by rw [h.geometry]) fun hc => entry_of_keeps hs.window hs.table h hc
  lastClst := h.lastClst
  freeClst := h.freeClst

theorem decodeEntry_free_iff {n v : Nat} : decodeEntry n v = .free ↔ v = 0 := by
  unfold decodeEntry
  split_ifs <;> simp_all

theorem decodeEntry_next_iff {n v c : Nat} :
    decodeEntry n v = .next c ↔ v = c ∧ 2 ≤ c ∧ c < n := by
  unfold decodeEntry
  split_ifs <;> simp only [Link.next.injEq, false_iff] <;> omega

theorem decodeEntry_last_iff {n v : Nat} : decodeEntry n v = .last ↔ 2 ≤ v ∧ n ≤ v := by
  unfold decodeEntry
  split_ifs <;> simp only [false_iff, true_iff] <;> omega

theorem decodeEntry_broken_iff {n v : Nat} : decodeEntry n v = .broken ↔ v = 1 := by
  unfold decodeEntry
  split_ifs <;> simp_all

theorem valid_of_free {fs : Fatfs} {c : Nat} (h : fs.links c = .free) : 2 ≤ c ∧ c < fs.nFatent :=
  valid_of_links (by rw [h]; decide)

/-- The volume with the counters set. -/
theorem near_of_counters {fs fs' : Fatfs} (h : fs.Near fs') (lastClst freeClst : Nat)
    (fsiFlag : UInt8) : fs.Near { fs' with lastClst, freeClst, fsiFlag } where
  sound := ⟨⟨h.sound.window.copies, h.sound.window.info, h.sound.window.winsect,
    h.sound.window.first, h.sound.window.clean⟩, h.sound.table, h.sound.mounted⟩
  geometry := h.geometry
  frame := h.frame
  reliable := h.reliable
  mirrored := h.mirrored

/-! ## One entry -/

theorem FsType.values_le (t : FsType) : t.values ≤ 2 ^ 28 := by
  cases t <;> decide

/-- The value that ends a chain is the largest one of its entry. -/
theorem FsType.eoc {t : FsType} (ht : t ≠ .none) :
    0xffffffff % t.values = t.values - 1 ∧ 2 ^ 12 ≤ t.values := by
  cases t with
  | none => exact absurd rfl ht
  | fat12 => decide
  | fat16 => decide
  | fat32 => decide

theorem entry_lt (fs : Fatfs) (c : Nat) : fs.entry c < 2 ^ 28 :=
  Nat.lt_of_lt_of_le (FsType.load_lt fs.fat c) fs.fsType.values_le

section Entry

variable {fs : Fatfs} (hs : fs.Sound)
include hs

/-- What `get_fat` returns for a cluster of the volume. -/
theorem getFat_still {clst : Nat} (hlo : 2 ≤ clst) (hhi : clst < fs.nFatent) :
    fs.Still (getFat fs clst).2 ∧
      ((getFat fs clst).1 = fs.entry clst ∧ (getFat fs clst).1 ≠ diskError ∨
        (getFat fs clst).1 = diskError ∧ ¬ fs.disk.Reliable) := by
  have hgot := getFat_got hs.window hs.table hlo hhi
  refine ⟨hgot.keeps.still hs, hgot.value.imp_left fun heq => ⟨heq, ?_⟩⟩
  have hlt := entry_lt fs clst
  rw [heq]
  unfold diskError
  omega

/-- Nothing that ends a chain is taken for a cluster. -/
theorem decodeEntry_eoc : decodeEntry fs.nFatent (0xffffffff % fs.fsType.values) = .last := by
  have hends := hs.table.ends
  obtain ⟨hmask, hlarge⟩ := FsType.eoc hs.mounted
  unfold decodeEntry
  rw [hmask, if_neg (by omega), if_neg (by omega), if_neg (by omega)]

theorem decodeEntry_next {c : Nat} (hlo : 2 ≤ c) (hhi : c < fs.nFatent) :
    decodeEntry fs.nFatent (c % fs.fsType.values) = .next c := by
  have hends := hs.table.ends
  unfold decodeEntry
  rw [Nat.mod_eq_of_lt (by omega), if_neg (by omega), if_neg (by omega), if_pos hhi]

/-- **`put_fat` on the table of links.**  It sets one entry or, at a failure of the drive, none. -/
theorem putFat_links (hsteady : fs.Steady) {clst : Nat} (val : Nat) (hlo : 2 ≤ clst)
    (hhi : clst < fs.nFatent) :
    fs.Near (putFat fs clst val).2 ∧ (putFat fs clst val).2.lastClst = fs.lastClst ∧
      (putFat fs clst val).2.freeClst = fs.freeClst ∧
      ((putFat fs clst val).1 = .ok ∧ (putFat fs clst val).2.links =
          Function.update fs.links clst (decodeEntry fs.nFatent (val % fs.fsType.values)) ∨
        (putFat fs clst val).1 = .diskErr ∧ ¬ fs.disk.Reliable ∧
          (putFat fs clst val).2.links = fs.links) := by
  have hput := putFat_put hs.window hs.table val hlo hhi hs.mounted
  generalize putFat fs clst val = r at hput
  have hgeo := hput.becomes.geometry
  have hn : r.2.nFatent = fs.nFatent := by rw [hgeo]
  have hothers {c : Nat} (hc : c ≠ clst) : r.2.links c = fs.links c :=
    links_congr hn fun h => hput.others c h hc
  have hsound : r.2.Sound :=
    ⟨hput.becomes.ok, by rw [hgeo]; exact hs.table, by rw [hgeo]; exact hs.mounted⟩
  refine ⟨⟨hsound, hgeo, hput.frame, hput.becomes.reliable, hput.becomes.mirrored⟩,
    hput.becomes.lastClst, hput.becomes.freeClst, ?_⟩
  by_cases hres : r.1 = .ok
  · refine Or.inl ⟨hres, ?_⟩
    funext c
    by_cases hc : c = clst
    · rw [hc, Function.update_self, links_of_valid hlo (hn ▸ hhi), hn, hput.set hres]
    · rw [Function.update_of_ne hc, hothers hc]
  · obtain ⟨herr, hrel⟩ := hput.failed hres
    refine Or.inr ⟨herr, hrel, ?_⟩
    funext c
    by_cases hc : c = clst
    · rw [hc]
      exact links_congr hn fun _ => hput.atomic hres fun htype => hrel (hsteady htype)
    · exact hothers hc

end Entry

/-! ## A small volume -/

/-- A boot sector: one reserved sector, two FATs of a sector each, 16 root entries, four clusters of
one sector. -/
def smallBoot : Mem :=
  let win : Mem := fun _ => 0
  let win := store8 (store8 win 0 0xeb) 2 0x90
  let win := store32 (store16 win 510 0xaa55) 54 0x20544146
  let win := store16 (store8 win 13 1) 11 512
  let win := store16 (store8 win 16 2) 14 1
  store16 (store16 (store16 win 17 16) 19 8) 22 1

/-- A drive with nothing else on it, that does not fail. -/
def smallDrive : Drive := ⟨fun s => if s = 0 then smallBoot else fun _ => 0, fun _ => none, 0⟩

/-- The small volume once it has been mounted. -/
def smallFatfs : Fatfs where
  fsType := .fat12
  nFats := 2
  csize := 1
  nRootdir := 16
  nFatent := 6
  fsize := 1
  volbase := 0
  fatbase := 1
  dirbase := 3
  database := 4
  wflag := false
  fsiFlag := 0x80
  lastClst := 0xffffffff
  freeClst := 0xffffffff
  winsect := 0
  win := smallBoot
  disk := smallDrive.next

theorem smallFatfs_sound : smallFatfs.Sound where
  window :=
    { copies := by decide
      info := FsType.noConfusion
      winsect := by decide
      first := fun hcopy => absurd hcopy.1 (by decide)
      clean := fun _ _ => rfl }
  table :=
    { nFats := by decide
      fits := by decide
      ends := by decide }
  mounted := FsType.noConfusion

/-- The boot sector, the two FATs, and what is behind them. -/
def smallCells (fat : Mem) (data : Nat → Mem) (s : Nat) : Mem :=
  if s = 0 then smallBoot else if s ≤ 2 then fat else data s

/-- The small volume with files on it, on a drive that does not fail either. -/
def smallOn (fat : Mem) (data : Nat → Mem) : Fatfs :=
  { smallFatfs with disk := ⟨smallCells fat data, fun _ => none, 1⟩ }

theorem smallOn_reliable (fat : Mem) (data : Nat → Mem) : (smallOn fat data).disk.Reliable :=
  fun _ _ => rfl

theorem smallOn_sound (fat : Mem) (data : Nat → Mem) : (smallOn fat data).Sound where
  window :=
    { copies := smallFatfs_sound.window.copies
      info := smallFatfs_sound.window.info
      winsect := smallFatfs_sound.window.winsect
      first := smallFatfs_sound.window.first
      clean := fun _ _ => rfl }
  table := smallFatfs_sound.table
  mounted := smallFatfs_sound.mounted

/-- Cluster 2 and clusters 4 and 5 are chains, cluster 3 is free. -/
def usedFat : Mem := store32 (store16 (fun _ => 0) 3 0x0fff) 6 0x00fff005

/-- A chain 2, 3, 4 that runs into itself at 3; cluster 5 is free. -/
def loopedFat : Mem := store32 (store32 (fun _ => 0) 3 0x00004003) 6 0x00000003

/-- The small volume with two chains, and with the count of its free clusters. -/
def usedFatfs : Fatfs := { smallOn usedFat (fun _ _ => 0) with freeClst := 1 }

/-- The small volume with a chain that runs into itself. -/
def loopedFatfs : Fatfs := { smallOn loopedFat (fun _ _ => 0) with freeClst := 1 }

theorem usedFatfs_sound : usedFatfs.Sound :=
  (near_of_counters (.refl (smallOn_sound _ _)) _ 1 _).sound

theorem loopedFatfs_sound : loopedFatfs.Sound :=
  (near_of_counters (.refl (smallOn_sound _ _)) _ 1 _).sound

end HeavenFox.Rootfs
