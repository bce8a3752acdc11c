/-
# HeavenFox.Rootfs.FatData -- the data area of a volume

The sectors of the clusters lie behind the FATs.  They are read and written in two ways: FatFs looks
at directories through the window, and file data goes past it.  This is sound as long as the window
is not on a sector of file data, and it never gets there on its own: `get_fat` leaves it where it is,
on no sector, or on a FAT (`getFat_roams`).
-/
import HeavenFox.Rootfs.FatMount

namespace HeavenFox.Rootfs

open HeavenFox.Logic

/-! ## Sectors of clusters -/

namespace FatGeometry

variable (g : FatGeometry)

/-- Sector `i` of cluster `c`. -/
def sector (c i : Nat) : Nat := g.database + (c - 2) * g.csize + i

/-- The sector of block `b` of a file whose clusters are `l`. -/
def page (l : List Nat) (b : Nat) : Nat := g.sector (l.getD (b / g.csize) 0) (b % g.csize)

/-- How many blocks the clusters have. -/
def blocks (l : List Nat) : Nat := l.length * g.csize

/-- A sector of the clusters. -/
def Own (l : List Nat) (s : Nat) : Prop := ∃ c ∈ l, ∃ i < g.csize, s = g.sector c i

/-- The clusters are a power of two of sectors, and these lie behind the FATs and have numbers. -/
structure DataOk : Prop where
  csize : ∃ m, g.csize = 2 ^ m
  positive : 0 < g.database
  behind : g.fatbase + g.nFats * g.fsize ≤ g.database
  volume : g.database + (g.nFatent - 2) * g.csize ≤ noSector

variable {g} (hd : g.DataOk)
include hd

theorem DataOk.csize_pos : 0 < g.csize := by
  obtain ⟨m, hm⟩ := hd.csize
  rw [hm]
  exact Nat.two_pow_pos m

theorem DataOk.copies : g.fatbase + g.nFats * g.fsize ≤ noSector := by
  have hbehind := hd.behind
  have hvolume := hd.volume
  omega

/-- The mask of the sector offset. -/
theorem DataOk.and_csize (k : Nat) : k &&& (g.csize - 1) = k % g.csize := by
  obtain ⟨m, hm⟩ := hd.csize
  rw [hm, Nat.and_two_pow_sub_one_eq_mod]

/-- A sector of a cluster lies on the volume. -/
theorem DataOk.sector_room {c i : Nat} (hlo : 2 ≤ c) (hhi : c < g.nFatent) (hi : i < g.csize) :
    g.database ≤ g.sector c i ∧ g.sector c i < noSector := by
  have hlast := hd.volume
  have hrow : (c - 2 + 1) * g.csize ≤ (g.nFatent - 2) * g.csize :=
    Nat.mul_le_mul_right _ (by omega)
  rw [Nat.succ_mul] at hrow
  unfold sector
  omega

omit hd in
theorem div_lt_length {l : List Nat} {b : Nat} (hb : b < g.blocks l) : b / g.csize < l.length := by
  rw [blocks, Nat.mul_comm] at hb
  exact Nat.div_lt_of_lt_mul hb

theorem DataOk.page_own {l : List Nat} {b : Nat} (hb : b < g.blocks l) : g.Own l (g.page l b) := by
  have hq := div_lt_length hb
  refine ⟨l[b / g.csize], List.getElem_mem hq, b % g.csize, Nat.mod_lt b hd.csize_pos, ?_⟩
  rw [page, List.getD_eq_getElem l 0 hq]

omit hd in
/-- Blocks of one cluster. -/
theorem div_add_of_lt {b i : Nat} (h : b % g.csize + i < g.csize) :
    (b + i) / g.csize = b / g.csize := by
  have hsum := Nat.div_add_mod b g.csize
  rw [Nat.mul_comm] at hsum
  exact Nat.div_eq_of_lt_le (by omega) (by rw [Nat.succ_mul]; omega)

omit hd in
/-- They lie one behind the other. -/
theorem page_add (l : List Nat) {b i : Nat} (h : b % g.csize + i < g.csize) :
    g.page l (b + i) = g.page l b + i := by
  have hdiv := div_add_of_lt h
  have hmod : (b + i) % g.csize = b % g.csize + i := by
    have hsum := Nat.div_add_mod b g.csize
    have hsum' := Nat.div_add_mod (b + i) g.csize
    rw [hdiv] at hsum'
    omega
  rw [page, page, hdiv, hmod]
  unfold sector
  omega

/-- The sectors of the clusters have nothing to do with the FATs and the FSInfo sector. -/
theorem DataOk.sector_apart (hinfo : g.fsType = .fat32 → g.volbase + 1 < g.fatbase)
    (hfats : 1 ≤ g.nFats) {c i : Nat} (hlo : 2 ≤ c) (hhi : c < g.nFatent) (hi : i < g.csize) :
    ¬ g.Loose (g.sector c i) ∧ ¬ g.InFat (g.sector c i) := by
  have hbehind := hd.behind
  have hroom := hd.sector_room hlo hhi hi
  constructor
  · rintro (hcopy | hfsinfo | hnone)
    · have hcopy := hcopy.2
      omega
    · have hbefore := hinfo hfsinfo.1
      have hsect := hfsinfo.2
      omega
    · omega
  · rintro ⟨-, hfat⟩
    have hone : 1 * g.fsize ≤ g.nFats * g.fsize := Nat.mul_le_mul_right _ hfats
    omega

end FatGeometry

open FatGeometry

/-- `clust2sect` for a cluster of the volume. -/
theorem clust2sect_eq {fs : Fatfs} (hd : fs.DataOk) {c : Nat} (hn : fs.nFatent < 2 ^ 32)
    (hlo : 2 ≤ c) (hhi : c < fs.nFatent) : clust2sect fs c = fs.sector c 0 := by
  have hlast := hd.volume
  have hrow : (c - 2 + 1) * fs.csize ≤ (fs.nFatent - 2) * fs.csize :=
    Nat.mul_le_mul_right _ (by omega)
  rw [Nat.succ_mul] at hrow
  unfold noSector at hlast
  unfold clust2sect FatGeometry.sector
  rw [sub32_of_le hlo (by omega), sub32_of_le (by omega) hn, if_neg (by omega),
    Nat.mod_eq_of_lt (by omega), add32_of_lt (by omega)]
  omega

/-! ## Where the window goes -/

/-- The window has stayed, is on no sector, or is on the FAT. -/
structure Fatfs.Roams (fs fs' : Fatfs) : Prop where
  geometry : fs'.toFatGeometry = fs.toFatGeometry
  winsect : fs'.winsect = fs.winsect ∨ fs'.winsect = noSector ∨ fs.InFat fs'.winsect

theorem Fatfs.Roams.refl (fs : Fatfs) : fs.Roams fs := ⟨rfl, Or.inl rfl⟩

theorem Fatfs.Roams.trans {fs fs' fs'' : Fatfs} (h : fs.Roams fs') (h' : fs'.Roams fs'') :
    fs.Roams fs'' where
  geometry := h'.geometry.trans h.geometry
  winsect := by
    have hlater := h'.winsect
    rw [h.geometry] at hlater
    rcases hlater with heq | hlater
    · rw [heq]
      exact h.winsect
    · exact Or.inr hlater

theorem syncWindow_roams (fs : Fatfs) : fs.Roams (syncWindow fs).2 := by
  obtain ⟨-, h⟩ | ⟨-, h⟩ | ⟨-, -, h⟩ := syncWindow_cases fs
  · rw [h]
    exact .refl fs
  · rw [h]
    exact ⟨rfl, Or.inl rfl⟩
  · rw [h]
    exact ⟨rfl, Or.inl rfl⟩

theorem moveWindow_roams {fs : Fatfs} {sector : Nat} (hs : fs.InFat sector) :
    fs.Roams (moveWindow fs sector).2 := by
  unfold moveWindow andThen
  split_ifs
  · exact .refl fs
  · refine (syncWindow_roams fs).trans ?_
    unfold fillWindow
    dsimp only
    split_ifs
    · refine ⟨rfl, Or.inr (Or.inr ?_)⟩
      rwa [(syncWindow_roams fs).geometry]
    · exact ⟨rfl, Or.inr (Or.inl rfl)⟩
  · exact syncWindow_roams fs

section Roams

variable {fs : Fatfs} (hcopies : fs.fatbase + fs.nFats * fs.fsize ≤ noSector) (ht : fs.TableOk)
include hcopies ht

/-- A sector of the FAT, as the code comes to it. -/
theorem inFat_add32 {k : Nat} (hk : k < fs.fsize * ss) : fs.InFat (add32 fs.fatbase (k / ss)) := by
  have hq := div_lt_fsize hk
  have hone : 1 * fs.fsize ≤ fs.nFats * fs.fsize := Nat.mul_le_mul_right _ ht.nFats
  unfold noSector at hcopies
  rw [add32_of_lt (by omega)]
  exact ⟨Nat.le_add_right _ _, Nat.add_lt_add_left hq _⟩

theorem inWindow_roams {k : Nat} {next : Fatfs → Nat × Fatfs} (hk : k < fs.fsize * ss)
    (hnext : ∀ fs', fs.Roams fs' → fs'.Roams (next fs').2) :
    fs.Roams (inWindow fs (add32 fs.fatbase (k / ss)) next).2 := by
  have hmove := moveWindow_roams (inFat_add32 hcopies ht hk)
  unfold inWindow
  split_ifs
  · exact hmove.trans (hnext _ hmove)
  · exact hmove

theorem getFat_roams (clst : Nat) : fs.Roams (getFat fs clst).2 := by
  unfold getFat
  by_cases hvalid : clst < 2 ∨ fs.nFatent ≤ clst
  · rw [if_pos hvalid]
    exact .refl fs
  rw [if_neg hvalid]
  have hfits := ht.fits clst (by omega)
  cases htype : fs.fsType with
  | none => exact .refl fs
  | fat12 =>
    rw [htype] at hfits
    have hlen : clst + clst / 2 + 2 ≤ fs.fsize * ss := hfits
    refine inWindow_roams hcopies ht (by omega) fun fs' hroams => ?_
    have hgeo := hroams.geometry
    exact inWindow_roams (hgeo ▸ hcopies) (hgeo ▸ ht) (by rw [hgeo]; omega) fun fs' _ => .refl fs'
  | fat16 =>
    rw [htype] at hfits
    have hlen : 2 * clst + 2 ≤ fs.fsize * ss := hfits
    have hsect : clst / (ss / 2) = 2 * clst / ss := by
      unfold ss
      omega
    show fs.Roams (inWindow fs (add32 fs.fatbase (clst / (ss / 2))) _).2
    rw [hsect]
    exact inWindow_roams hcopies ht (by omega) fun fs' _ => .refl fs'
  | fat32 =>
    rw [htype] at hfits
    have hlen : 4 * clst + 4 ≤ fs.fsize * ss := hfits
    have hsect : clst / (ss / 4) = 4 * clst / ss := by
      unfold ss
      omega
    show fs.Roams (inWindow fs (add32 fs.fatbase (clst / (ss / 4))) _).2
    rw [hsect]
    exact inWindow_roams hcopies ht (by omega) fun fs' _ => .refl fs'

end Roams

/-! ## What a file asks of the volume -/

/-- A sector that is part of no FAT, that FatFs does not write without looking at the result, and
that the window is not on: its contents are on the drive. -/
structure Fatfs.Plain (fs : Fatfs) (s : Nat) : Prop where
  loose : ¬ fs.Loose s
  fat : ¬ fs.InFat s
  window : fs.winsect ≠ s

/-- What the calls for one file do to the volume: the links stay, and of the sectors outside the FAT
only some in `S` change. -/
structure Fatfs.Serves (fs fs' : Fatfs) (S : Nat → Prop) : Prop extends fs.Roams fs' where
  sound : fs'.Sound
  reliable : fs.disk.Reliable → fs'.disk.Reliable
  frame : ∀ s, ¬ fs.Loose s → ¬ fs.InFat s → ¬ S s → fs'.contents s = fs.contents s
  links : fs'.links = fs.links

section Serves

variable {fs fs' fs'' : Fatfs} {S T : Nat → Prop}

theorem Fatfs.Still.serves (h : fs.Still fs') (hroams : fs.Roams fs') : fs.Serves fs' S where
  toRoams := hroams
  sound := h.sound
  reliable := h.reliable
  frame s hs hin _ := h.frame s hs hin
  links := h.links

theorem Fatfs.Serves.refl (hs : fs.Sound) : fs.Serves fs S :=
  (Fatfs.Still.refl hs).serves (.refl fs)

theorem Fatfs.Serves.mono (h : fs.Serves fs' S) (hST : ∀ s, S s → T s) : fs.Serves fs' T :=
  { h with frame := fun s hs hin hT => h.frame s hs hin fun hS => hT (hST s hS) }

theorem Fatfs.Serves.trans (h : fs.Serves fs' S) (h' : fs'.Serves fs'' S) : fs.Serves fs'' S where
  toRoams := h.toRoams.trans h'.toRoams
  sound := h'.sound
  reliable := h'.reliable ∘ h.reliable
  frame s hs hin hS := by
    rw [← h.frame s hs hin hS]
    apply h'.frame s
    · rwa [h.geometry]
    · rwa [h.geometry]
    · exact hS
  links := h'.links.trans h.links

theorem Fatfs.Serves.plain {s : Nat} (h : fs.Serves fs' S) (hs : fs.Plain s) : fs'.Plain s where
  loose := by
    rw [h.geometry]
    exact hs.loose
  fat := by
    rw [h.geometry]
    exact hs.fat
  window heq := by
    rcases h.winsect with hsame | hnone | hfat
    · exact hs.window (hsame.symm.trans heq)
    · exact hs.loose (Or.inr (Or.inr (heq.symm.trans hnone)))
    · exact hs.fat (heq ▸ hfat)

theorem contents_of_plain {s : Nat} (hs : fs.Plain s) : fs.contents s = fs.disk.cell s :=
  Line.overlay_of_ne hs.window.symm

/-- A sector past the window that is not in `S` stays on the drive. -/
theorem Fatfs.Serves.cell {s : Nat} (h : fs.Serves fs' S) (hs : fs.Plain s) (hS : ¬ S s) :
    fs'.disk.cell s = fs.disk.cell s := by
  rw [← contents_of_plain hs, ← contents_of_plain (h.plain hs)]
  exact h.frame s hs.loose hs.fat hS

/-- A request to read. -/
theorem serves_next (hs : fs.Sound) : fs.Serves { fs with disk := fs.disk.next } S := by
  have hkeeps : fs.Keeps { fs with disk := fs.disk.next } :=
    ⟨rfl, rfl, rfl, fun _ _ => rfl, ⟨hs.window.copies, hs.window.info, hs.window.winsect,
      hs.window.first, hs.window.clean⟩, Device.Reliable.next, fun _ => id⟩
  exact (hkeeps.still hs).serves ⟨rfl, Or.inl rfl⟩

/-- A request to write to sectors past the window, whether it works or not. -/
theorem serves_written {buff : Nat → Mem} {sect cc : Nat} (hs : fs.Sound)
    (hplain : ∀ s, sect ≤ s → s < sect + cc → fs.Plain s) :
    fs.Serves { fs with disk := written fs.disk buff sect cc }
      fun s => sect ≤ s ∧ s < sect + cc := by
  have hcell : ∀ s, ¬ (sect ≤ s ∧ s < sect + cc) →
      (written fs.disk buff sect cc).cell s = fs.disk.cell s :=
    fun s hout => Device.write_of_not (by simpa using hout)
  have hcontents : ∀ s, ¬ (sect ≤ s ∧ s < sect + cc) →
      Fatfs.contents { fs with disk := written fs.disk buff sect cc } s = fs.contents s :=
    fun s hout => Line.overlay_congr fun _ => hcell s hout
  have hlinks : Fatfs.links { fs with disk := written fs.disk buff sect cc } = fs.links :=
    links_of_contents hs rfl fun s _ hin =>
      hcontents s fun hrange => (hplain s hrange.1 hrange.2).fat hin
  have hclean : ¬ fs.Loose fs.winsect →
      fs.line.Clean (written fs.disk buff sect cc).cell := by
    intro hloose hdirty
    show (written fs.disk buff sect cc).cell fs.winsect = _
    rw [hcell fs.winsect fun hrange => (hplain _ hrange.1 hrange.2).window rfl]
    exact hs.window.clean hloose hdirty
  exact
    { geometry := rfl
      winsect := Or.inl rfl
      sound := ⟨⟨hs.window.copies, hs.window.info, hs.window.winsect, hs.window.first, hclean⟩,
        hs.table, hs.mounted⟩
      reliable := Device.Reliable.write
      frame := fun s _ _ hout => hcontents s hout
      links := hlinks }

end Serves

/-- A volume that files are worked on. -/
structure Fatfs.Ready (fs : Fatfs) : Prop where
  sound : fs.Sound
  data : fs.DataOk

theorem Fatfs.Ready.plain {fs : Fatfs} (h : fs.Ready) {c i : Nat} (hvalid : 2 ≤ c ∧ c < fs.nFatent)
    (hi : i < fs.csize) (hwin : fs.winsect ≠ fs.sector c i) : fs.Plain (fs.sector c i) := by
  obtain ⟨hloose, hfat⟩ := h.data.sector_apart h.sound.window.info h.sound.table.nFats
    hvalid.1 hvalid.2 hi
  exact ⟨hloose, hfat, hwin⟩

/-- The volume stays in order. -/
theorem Fatfs.Serves.ready {fs fs' : Fatfs} {S : Nat → Prop} (h : fs.Ready)
    (hserves : fs.Serves fs' S) : fs'.Ready where
  sound := hserves.sound
  data := by
    rw [hserves.geometry]
    exact h.data

/-- Where the boot sector of a volume lays its clusters out. -/
theorem FatGeometry.Layout.data {g : FatGeometry} {win : Mem} {bsect : Nat}
    (h : g.Layout win bsect) (hfits : BpbFits win bsect) : g.DataOk where
  csize := (Nat.and_sub_one_eq_zero_iff_isPowerOfTwo (Nat.ne_of_gt h.csize.1)).mp h.csize.2
  positive := by
    have hfatbase := h.fatbase
    have hreserved := h.reserved
    have hbehind : g.fatbase ≤ g.database := by
      rw [h.database, Nat.add_assoc]
      exact Nat.le_add_right _ _
    omega
  behind := by
    rw [h.database]
    exact Nat.le_add_right _ _
  volume := by
    have hvolume := h.volume
    have hlast := hfits.volume
    rw [h.nFatent, Nat.add_sub_cancel]
    omega

/-- **A volume that is mounted is ready for files**, if the boot sector that `find_volume` accepts
promises what is not checked. -/
theorem findVolume_ready {stat : DStatus} {mode : Bool} {fs : Fatfs} (hnew : fs.fsType = .none)
    (h : (findVolume stat mode fs).1 = .ok)
    (hfits : BpbFits (fs.disk.cell (findVolume stat mode fs).2.volbase)
      (findVolume stat mode fs).2.volbase) : (findVolume stat mode fs).2.Ready := by
  obtain ⟨-, hlayout, hsound⟩ := findVolume_sound hnew h hfits
  exact ⟨hsound, hlayout.data hfits⟩

end HeavenFox.Rootfs
