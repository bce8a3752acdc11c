/-
# HeavenFox.Rootfs.FatWindow -- the disk access window of `ff.c`

A mounted volume sees its drive through one sector, `win`: `move_window` changes the sector,
`sync_window` writes it back, and a sector of the FAT is written to all copies of the FAT.  Every
request to the drive may fail.  `Fatfs.contents` is what the volume holds for FatFs, the window
first and the drive behind it, and no failure of the drive changes it (`moveWindow_keeps`).  The
exceptions are the sectors FatFs writes without looking at the result: the further copies of the
FAT and the FSInfo sector.
-/
import HeavenFox.Logic.Device
import HeavenFox.Logic.PackedTable

namespace HeavenFox.Rootfs

open HeavenFox.Logic

/-! ## The volume -/

/-- `FRESULT`, the codes of the calls below. -/
inductive FResult where
  | ok
  | diskErr
  | intErr
  | notReady
  | denied
  | invalidObject
  | noFilesystem
  | writeProtected
  deriving DecidableEq, Repr

/-- `fs_type`; exFAT is configured out. -/
inductive FsType where
  | none
  | fat12
  | fat16
  | fat32
  deriving DecidableEq, Repr

/-- The fields of `FATFS` that mounting sets. -/
structure FatGeometry where
  fsType : FsType
  nFats : Nat
  csize : Nat
  nRootdir : Nat
  nFatent : Nat
  fsize : Nat
  volbase : Nat
  fatbase : Nat
  dirbase : Nat
  database : Nat
  deriving DecidableEq, Repr

/-- The drive.  A sector is a `Mem` of which `SS(fs)` bytes are used. -/
abbrev Drive := Device Nat Mem

/-- `FATFS`, with the drive it is on. -/
structure Fatfs extends FatGeometry where
  wflag : Bool
  fsiFlag : UInt8
  lastClst : Nat
  freeClst : Nat
  winsect : Nat
  win : Mem
  disk : Drive

/-- `SS(fs)`: `_MIN_SS` and `_MAX_SS` are equal. -/
def ss : Nat := 512

/-- The `winsect` of a window that holds no sector. -/
def noSector : Nat := 0xffffffff

/-! ## Requests

A buffer of a request is given by its blocks of `SS(fs)` bytes. -/

/-- `disk_read`: whether it worked, the buffer, and the drive. -/
def diskRead (disk : Drive) (sector : Nat) : Bool × (Nat → Mem) × Drive :=
  (disk.works, fun i => disk.answer (sector + i), disk.next)

/-- The drive after a write. -/
def written (disk : Drive) (buff : Nat → Mem) (sector count : Nat) : Drive :=
  disk.write (fun s => decide (sector ≤ s ∧ s < sector + count)) fun s => buff (s - sector)

/-- `disk_write` -/
def diskWrite (disk : Drive) (buff : Nat → Mem) (sector count : Nat) : Bool × Drive :=
  (disk.works, written disk buff sector count)

/-- `disk_ioctl` with `CTRL_SYNC`: `fwk_sdfatfs_ioctl` has nothing to do for it. -/
def diskCtrlSync : Bool := true

/-! ## The window -/

/-- The loop over `nf` in `sync_window`, with what is left of `n_fats`.  What the requests come to
is not looked at. -/
def reflectLoop (win : Mem) (fsize : Nat) : Nat → Nat → Drive → Drive
  | 0, _, disk => disk
  | nf + 1, wsect, disk =>
    let wsect := add32 wsect fsize
    reflectLoop win fsize nf wsect (diskWrite disk (fun _ => win) wsect 1).2

/-- A sector of the FAT area goes to all copies. -/
def reflectCopies (fs : Fatfs) (disk : Drive) : Drive :=
  if sub32 fs.winsect fs.fatbase < fs.fsize then
    reflectLoop fs.win fs.fsize (fs.nFats - 1) fs.winsect disk
  else disk

/-- `sync_window` -/
def syncWindow (fs : Fatfs) : FResult × Fatfs :=
  if fs.wflag then
    let (works, disk) := diskWrite fs.disk (fun _ => fs.win) fs.winsect 1
    if works then (.ok, { fs with wflag := false, disk := reflectCopies fs disk })
    else (.diskErr, { fs with disk })
  else (.ok, fs)

/-- `if (res == FR_OK)` after a call. -/
def andThen (r : FResult × Fatfs) (next : Fatfs → FResult × Fatfs) : FResult × Fatfs :=
  if r.1 = .ok then next r.2 else r

/-- `move_window` behind `sync_window`: fill the window with new data. -/
def fillWindow (fs : Fatfs) (sector : Nat) : FResult × Fatfs :=
  let (works, win, disk) := diskRead fs.disk sector
  if works then (.ok, { fs with win := win 0, winsect := sector, disk })
  else (.diskErr, { fs with win := win 0, winsect := noSector, disk })

/-- `move_window` -/
def moveWindow (fs : Fatfs) (sector : Nat) : FResult × Fatfs :=
  if sector = fs.winsect then (.ok, fs)
  else andThen (syncWindow fs) fun fs => fillWindow fs sector

/-- The sector that `sync_fs` creates: the FSInfo structure. -/
def fsInfoSector (freeClst lastClst : Nat) : Mem :=
  let win : Mem := fun _ => 0
  let win := store16 win 510 0xaa55
  let win := store32 win 0 0x41615252
  let win := store32 win 484 0x61417272
  let win := store32 win 488 freeClst
  store32 win 492 lastClst

/-- `sync_fs` behind `sync_window`: update the FSInfo sector if needed. -/
def syncFsInfo (fs : Fatfs) : FResult × Fatfs :=
  let fs :=
    if fs.fsType = .fat32 ∧ fs.fsiFlag = 1 then
      let win := fsInfoSector fs.freeClst fs.lastClst
      let winsect := add32 fs.volbase 1
      -- what the request comes to is not looked at
      let disk := (diskWrite fs.disk (fun _ => win) winsect 1).2
      { fs with win, winsect, disk, fsiFlag := 0 }
    else fs
  (if diskCtrlSync then .ok else .diskErr, fs)

/-- `sync_fs` -/
def syncFs (fs : Fatfs) : FResult × Fatfs := andThen (syncWindow fs) syncFsInfo

/-! ## What the volume holds -/

/-- The window as a line in front of the drive. -/
def Fatfs.line (fs : Fatfs) : Line Nat Mem := ⟨fs.winsect, fs.win, fs.wflag⟩

/-- What the volume holds for FatFs. -/
def Fatfs.contents (fs : Fatfs) : Nat → Mem := fs.line.overlay fs.disk.cell

namespace FatGeometry

variable (g : FatGeometry)

/-- A sector of the second and the further copies of the FAT. -/
def IsCopy (s : Nat) : Prop := g.fatbase + g.fsize ≤ s ∧ s < g.fatbase + g.nFats * g.fsize

/-- The FSInfo sector. -/
def IsInfo (s : Nat) : Prop := g.fsType = .fat32 ∧ s = g.volbase + 1

/-- A sector of the first copy of the FAT. -/
def InFat (s : Nat) : Prop := g.fatbase ≤ s ∧ s < g.fatbase + g.fsize

/-- All copies of the FAT hold the same. -/
def Mirrored (cell : Nat → Mem) : Prop :=
  ∀ s, g.InFat s → ∀ k < g.nFats, cell (s + k * g.fsize) = cell s

/-- The sectors that FatFs writes without looking at the result, and the number of none. -/
def Loose (s : Nat) : Prop := g.IsCopy s ∨ g.IsInfo s ∨ s = noSector

instance (s : Nat) : Decidable (g.IsCopy s) := inferInstanceAs (Decidable (_ ∧ _))

instance (s : Nat) : Decidable (g.IsInfo s) := inferInstanceAs (Decidable (_ ∧ _))

instance (s : Nat) : Decidable (g.InFat s) := inferInstanceAs (Decidable (_ ∧ _))

instance (s : Nat) : Decidable (g.Loose s) := inferInstanceAs (Decidable (_ ∨ _ ∨ _))

end FatGeometry

/-- The FAT copies lie among the sectors that have a number and the FSInfo sector before them, the
window is not on a further copy, and one that has not been changed holds what the drive does. -/
structure Fatfs.WindowOk (fs : Fatfs) : Prop where
  copies : fs.fatbase + fs.nFats * fs.fsize ≤ noSector
  info : fs.fsType = .fat32 → fs.volbase + 1 < fs.fatbase
  winsect : fs.winsect ≤ noSector
  first : ¬ fs.IsCopy fs.winsect
  clean : ¬ fs.Loose fs.winsect → fs.line.Clean fs.disk.cell

/-- What becomes of a volume: `after` is what it holds then, the sectors written without looking at
the result apart. -/
structure Fatfs.Becomes (fs fs' : Fatfs) (after : Nat → Mem) : Prop where
  geometry : fs'.toFatGeometry = fs.toFatGeometry
  lastClst : fs'.lastClst = fs.lastClst
  freeClst : fs'.freeClst = fs.freeClst
  contents : ∀ s, ¬ fs.Loose s → fs'.contents s = after s
  ok : fs'.WindowOk
  reliable : fs.disk.Reliable → fs'.disk.Reliable
  mirrored : fs.disk.Reliable → fs.Mirrored fs.disk.cell → fs'.Mirrored fs'.disk.cell

/-- The volume holds what it held. -/
def Fatfs.Keeps (fs fs' : Fatfs) : Prop := fs.Becomes fs' fs.contents

theorem Fatfs.Keeps.refl {fs : Fatfs} (h : fs.WindowOk) : fs.Keeps fs where
  geometry := rfl
  lastClst := rfl
  freeClst := rfl
  contents _ _ := rfl
  ok := h
  reliable := id
  mirrored _ := id

theorem Fatfs.Becomes.trans {fs fs' fs'' : Fatfs} {after after' after'' : Nat → Mem}
    (h : fs.Becomes fs' after) (h' : fs'.Becomes fs'' after')
    (hafter : ∀ s, ¬ fs.Loose s → after' s = after'' s) : fs.Becomes fs'' after'' where
  geometry := h'.geometry.trans h.geometry
  lastClst := h'.lastClst.trans h.lastClst
  freeClst := h'.freeClst.trans h.freeClst
  contents s hs := by
    have hs' : ¬ fs'.Loose s := by rwa [h.geometry]
    exact (h'.contents s hs').trans (hafter s hs)
  ok := h'.ok
  reliable := h'.reliable ∘ h.reliable
  mirrored hrel hmir := h'.mirrored (h.reliable hrel) (h.mirrored hrel hmir)

theorem Fatfs.Keeps.trans {fs fs' fs'' : Fatfs} (h : fs.Keeps fs') (h' : fs'.Keeps fs'') :
    fs.Keeps fs'' :=
  Becomes.trans h h' h.contents

/-! ## Writing the window back -/

theorem written_of_ne {disk : Drive} {buff : Nat → Mem} {sector s : Nat} (h : s ≠ sector) :
    (written disk buff sector 1).cell s = disk.cell s := by
  apply Device.write_of_not
  simp only [decide_eq_true_eq]
  omega

theorem written_self {disk : Drive} {win : Mem} {sector : Nat} (h : disk.works = true) :
    (written disk (fun _ => win) sector 1).cell sector = win :=
  Device.write_of_works h (by simp)

/-- The copies that are left are written to, and nothing else is. -/
theorem reflectLoop_cell {win : Mem} {fsize nf wsect : Nat} {disk : Drive} {s : Nat}
    (hfit : wsect + nf * fsize < 2 ^ 32)
    (hs : ∀ k, 1 ≤ k → k ≤ nf → s ≠ wsect + k * fsize) :
    (reflectLoop win fsize nf wsect disk).cell s = disk.cell s := by
  induction nf generalizing wsect disk with
  | zero => rfl
  | succ nf ih =>
    rw [Nat.succ_mul] at hfit
    have hnext : add32 wsect fsize = wsect + fsize := add32_of_lt (by omega)
    have hfirst : s ≠ wsect + fsize := by
      have h := hs 1 (Nat.le_refl 1) (by omega)
      rwa [Nat.one_mul] at h
    have hlater : ∀ k, 1 ≤ k → k ≤ nf → s ≠ wsect + fsize + k * fsize := by
      intro k hk hkn
      have h := hs (k + 1) (by omega) (by omega)
      rw [Nat.succ_mul] at h
      omega
    show (reflectLoop win fsize nf (add32 wsect fsize)
      (written disk (fun _ => win) (add32 wsect fsize) 1)).cell s = _
    rw [hnext, ih (by omega) hlater, written_of_ne hfirst]

/-- Every copy that is left takes the window, on a drive that works. -/
theorem reflectLoop_hit {win : Mem} {fsize nf wsect k : Nat} {disk : Drive}
    (hrel : disk.Reliable) (hsize : 0 < fsize) (hfit : wsect + nf * fsize < 2 ^ 32) (hk : 1 ≤ k)
    (hkn : k ≤ nf) : (reflectLoop win fsize nf wsect disk).cell (wsect + k * fsize) = win := by
  induction nf generalizing wsect disk k with
  | zero => omega
  | succ nf ih =>
    rw [Nat.succ_mul] at hfit
    have hnext : add32 wsect fsize = wsect + fsize := add32_of_lt (by omega)
    show (reflectLoop win fsize nf (add32 wsect fsize)
      (written disk (fun _ => win) (add32 wsect fsize) 1)).cell _ = _
    rw [hnext]
    obtain rfl | hlater := Nat.eq_or_lt_of_le hk
    · -- the copies behind it lie elsewhere
      rw [Nat.one_mul, reflectLoop_cell (by omega), written_self hrel.works]
      intro j hj _
      have hone : 1 * fsize ≤ j * fsize := Nat.mul_le_mul_right _ hj
      omega
    · obtain ⟨j, rfl⟩ : ∃ j, k = j + 1 := ⟨k - 1, by omega⟩
      have hsect : wsect + (j + 1) * fsize = wsect + fsize + j * fsize := by
        rw [Nat.succ_mul]
        omega
      rw [hsect]
      exact ih hrel.write (by omega) (by omega) (by omega)

theorem reflectLoop_reliable {win : Mem} {fsize nf wsect : Nat} {disk : Drive}
    (h : disk.Reliable) : (reflectLoop win fsize nf wsect disk).Reliable := by
  induction nf generalizing wsect disk with
  | zero => exact h
  | succ nf ih => exact ih h.write

/-- What `sync_window` can do. -/
theorem syncWindow_cases (fs : Fatfs) :
    (fs.wflag = false ∧ syncWindow fs = (.ok, fs)) ∨
    (fs.disk.works = true ∧ syncWindow fs = (.ok, { fs with
      wflag := false
      disk := reflectCopies fs (written fs.disk (fun _ => fs.win) fs.winsect 1) })) ∨
    (fs.wflag = true ∧ fs.disk.works = false ∧ syncWindow fs =
      (.diskErr, { fs with disk := written fs.disk (fun _ => fs.win) fs.winsect 1 })) := by
  unfold syncWindow diskWrite
  cases hdirty : fs.wflag with
  | false => exact Or.inl ⟨rfl, rfl⟩
  | true =>
    cases hworks : fs.disk.works with
    | false => exact Or.inr (Or.inr ⟨rfl, rfl, by simp⟩)
    | true => exact Or.inr (Or.inl ⟨rfl, by simp⟩)

section Window

variable {fs : Fatfs} (hok : fs.WindowOk)
include hok

/-- The copies of the sector that the window holds. -/
theorem reflect_hits {k : Nat} (hfat : sub32 fs.winsect fs.fatbase < fs.fsize) (hk : 1 ≤ k)
    (hkn : k ≤ fs.nFats - 1) : fs.IsCopy (fs.winsect + k * fs.fsize) := by
  have hcopies := hok.copies
  have hsect := hok.winsect
  have hone : 1 * fs.fsize ≤ k * fs.fsize := Nat.mul_le_mul_right _ hk
  have hall : (k + 1) * fs.fsize ≤ fs.nFats * fs.fsize := Nat.mul_le_mul_right _ (by omega)
  rw [Nat.succ_mul] at hall
  unfold sub32 at hfat
  unfold noSector at hcopies hsect
  unfold FatGeometry.IsCopy
  omega

theorem reflect_fits (hfat : sub32 fs.winsect fs.fatbase < fs.fsize) :
    fs.winsect + (fs.nFats - 1) * fs.fsize < 2 ^ 32 := by
  have hcopies := hok.copies
  have hsect := hok.winsect
  unfold noSector at hcopies hsect
  by_cases hn : 1 ≤ fs.nFats - 1
  · have hlast := (reflect_hits hok hfat hn (Nat.le_refl _)).2
    omega
  · rw [Nat.eq_zero_of_not_pos hn]
    omega

/-- Only copies of the FAT are written to behind the window's sector. -/
theorem reflectCopies_cell {disk : Drive} {s : Nat} (hs : ¬ fs.IsCopy s) :
    (reflectCopies fs disk).cell s = disk.cell s := by
  unfold reflectCopies
  split_ifs with hfat
  · refine reflectLoop_cell (reflect_fits hok hfat) ?_
    rintro k hk hkn rfl
    exact hs (reflect_hits hok hfat hk hkn)
  · rfl

/-- A sector of the first copy goes to all copies, on a drive that works. -/
theorem reflectCopies_hit {disk : Drive} {k : Nat} (hin : fs.InFat fs.winsect) (hk : k < fs.nFats)
    (hdisk : disk.cell fs.winsect = fs.win) (hrel : disk.Reliable) :
    (reflectCopies fs disk).cell (fs.winsect + k * fs.fsize) = fs.win := by
  obtain ⟨hlo, hhi⟩ := hin
  rcases Nat.eq_zero_or_pos k with rfl | hpos
  · rw [Nat.zero_mul, Nat.add_zero, reflectCopies_cell hok hok.first, hdisk]
  · have hsect := hok.winsect
    have hfat : sub32 fs.winsect fs.fatbase < fs.fsize := by
      unfold noSector at hsect
      rw [sub32_of_le hlo (by omega)]
      omega
    unfold reflectCopies
    rw [if_pos hfat]
    exact reflectLoop_hit hrel (by omega) (reflect_fits hok hfat) hpos (by omega)

omit hok in
/-- Two sectors of one copy lie at different places in every copy. -/
theorem copies_apart {s s' k k' : Nat} (hs : fs.InFat s) (hs' : fs.InFat s')
    (h : s + k * fs.fsize = s' + k' * fs.fsize) : s = s' := by
  obtain ⟨hlo, hhi⟩ := hs
  obtain ⟨hlo', hhi'⟩ := hs'
  rcases Nat.lt_trichotomy k k' with hlt | rfl | hlt
  · have hrow : (k + 1) * fs.fsize ≤ k' * fs.fsize := Nat.mul_le_mul_right _ hlt
    rw [Nat.succ_mul] at hrow
    omega
  · omega
  · have hrow : (k' + 1) * fs.fsize ≤ k * fs.fsize := Nat.mul_le_mul_right _ hlt
    rw [Nat.succ_mul] at hrow
    omega

/-- The other sectors of the copies stay. -/
theorem reflectCopies_other {s k : Nat} (hs : fs.InFat s) (hk : k < fs.nFats)
    (hne : s ≠ fs.winsect) :
    (reflectCopies fs (written fs.disk (fun _ => fs.win) fs.winsect 1)).cell (s + k * fs.fsize) =
      fs.disk.cell (s + k * fs.fsize) := by
  have hplace : s + k * fs.fsize ≠ fs.winsect := by
    intro heq
    rcases Nat.eq_zero_or_pos k with rfl | hpos
    · omega
    · refine hok.first ⟨?_, ?_⟩
      · have hone : 1 * fs.fsize ≤ k * fs.fsize := Nat.mul_le_mul_right _ hpos
        have hlo := hs.1
        omega
      · have hall : (k + 1) * fs.fsize ≤ fs.nFats * fs.fsize := Nat.mul_le_mul_right _ hk
        rw [Nat.succ_mul] at hall
        have hhi := hs.2
        omega
  unfold reflectCopies
  split_ifs with hfat
  · rw [reflectLoop_cell (reflect_fits hok hfat) fun j hj hjn heq => ?_, written_of_ne hplace]
    have hcopy := reflect_hits hok hfat hj hjn
    refine hne (copies_apart hs ?_ heq)
    have hcopies := hok.copies
    have hsect := hok.winsect
    have hone : 1 * fs.fsize ≤ fs.nFats * fs.fsize := Nat.mul_le_mul_right _ (by omega)
    unfold noSector at hcopies hsect
    unfold sub32 at hfat
    unfold FatGeometry.InFat
    omega
  · exact written_of_ne hplace

/-- **The copies of the FAT stay alike** when the window is written back. -/
theorem reflectCopies_mirrored (hrel : fs.disk.Reliable) (hmir : fs.Mirrored fs.disk.cell) :
    fs.Mirrored (reflectCopies fs (written fs.disk (fun _ => fs.win) fs.winsect 1)).cell := by
  intro s hs k hk
  by_cases hwin : s = fs.winsect
  · rw [hwin] at hs ⊢
    rw [reflectCopies_hit hok hs hk (written_self hrel.works) hrel.write,
      reflectCopies_cell hok hok.first, written_self hrel.works]
  · have hfirst := reflectCopies_other hok hs (k := 0) (by omega) hwin
    rw [Nat.zero_mul, Nat.add_zero] at hfirst
    rw [reflectCopies_other hok hs hk hwin, hfirst, hmir s hs k hk]

/-- What a write of the window leaves, whether it works or not. -/
theorem contents_of_writeBack {disk : Drive} {dirty : Bool}
    (hdisk : ∀ s, ¬ fs.Loose s → s ≠ fs.winsect → disk.cell s = fs.disk.cell s)
    (hclean : ¬ fs.Loose fs.winsect → dirty = false → disk.cell fs.winsect = fs.win)
    (hrel : fs.disk.Reliable → disk.Reliable)
    (hmir : fs.disk.Reliable → fs.Mirrored fs.disk.cell → fs.Mirrored disk.cell) :
    fs.Keeps { fs with wflag := dirty, disk } where
  geometry := rfl
  lastClst := rfl
  freeClst := rfl
  contents s hs := Line.overlay_congr fun hne => hdisk s hs hne
  ok := ⟨hok.copies, hok.info, hok.winsect, hok.first, hclean⟩
  reliable := hrel
  mirrored := hmir

/-- **Writing the window back changes nothing that the volume holds.** -/
theorem syncWindow_keeps : fs.Keeps (syncWindow fs).2 := by
  have hne {s : Nat} (h : s ≠ fs.winsect) :
      (written fs.disk (fun _ => fs.win) fs.winsect 1).cell s = fs.disk.cell s := written_of_ne h
  obtain ⟨-, h⟩ | ⟨hworks, h⟩ | ⟨hdirty, hfault, h⟩ := syncWindow_cases fs
  · rw [h]
    exact Fatfs.Keeps.refl hok
  · rw [h]
    refine contents_of_writeBack hok ?_ ?_ ?_ (reflectCopies_mirrored hok)
    · intro s hs hs'
      rw [reflectCopies_cell hok fun hc => hs (Or.inl hc), hne hs']
    · intro hs _
      rw [reflectCopies_cell hok fun hc => hs (Or.inl hc), written_self hworks]
    · intro hrel
      unfold reflectCopies
      split_ifs
      · exact reflectLoop_reliable hrel.write
      · exact hrel.write
  · rw [h]
    refine contents_of_writeBack hok (fun s _ hs => hne hs) ?_ Device.Reliable.write ?_
    · intro _ hfalse
      rw [hdirty] at hfalse
      cases hfalse
    · intro hrel
      rw [hrel.works] at hfault
      cases hfault

/-- A window that is not dirty is not seen. -/
theorem contents_of_not_dirty (hdirty : fs.wflag = false) {s : Nat} (hs : ¬ fs.Loose s) :
    fs.contents s = fs.disk.cell s := by
  by_cases hwin : s = fs.winsect
  · have hclean : fs.disk.cell fs.winsect = fs.win := hok.clean (hwin ▸ hs) hdirty
    rw [hwin, hclean]
    exact Line.overlay_tag
  · exact Line.overlay_of_ne hwin

/-- A window that is filled again, or left without a sector. -/
theorem contents_of_refill {disk : Drive} {win : Mem} {sector : Nat} (hdirty : fs.wflag = false)
    (hsector : sector ≤ noSector) (hfirst : ¬ fs.IsCopy sector) (hcell : disk.cell = fs.disk.cell)
    (hwin : ¬ fs.Loose sector → win = fs.disk.cell sector)
    (hrel : fs.disk.Reliable → disk.Reliable) :
    fs.Keeps { fs with win, winsect := sector, disk } where
  geometry := rfl
  lastClst := rfl
  freeClst := rfl
  contents s hs := by
    rw [contents_of_not_dirty hok hdirty hs, ← hcell]
    by_cases heq : s = sector
    · rw [heq, hcell, ← hwin (heq ▸ hs)]
      exact Line.overlay_tag
    · exact Line.overlay_of_ne heq
  ok := ⟨hok.copies, hok.info, hsector, hfirst,
    fun hs _ => (congrFun hcell sector).trans (hwin hs).symm⟩
  reliable := hrel
  mirrored _ hmir := by rwa [hcell]

end Window

/-- A window that could be written back is clean, and only a drive that fails stops it. -/
theorem syncWindow_res (fs : Fatfs) :
    ((syncWindow fs).1 = .ok ∧ (syncWindow fs).2.wflag = false) ∨
    ((syncWindow fs).1 = .diskErr ∧ fs.disk.works = false) := by
  obtain ⟨hclean, h⟩ | ⟨-, h⟩ | ⟨-, hfault, h⟩ := syncWindow_cases fs
  · exact Or.inl (by rw [h]; exact ⟨rfl, hclean⟩)
  · exact Or.inl (by rw [h]; exact ⟨rfl, rfl⟩)
  · exact Or.inr (by rw [h]; exact ⟨rfl, hfault⟩)

/-- What a call that moves the window to a sector does to the volume. -/
structure Fatfs.Moved (fs : Fatfs) (sector : Nat) (r : FResult × Fatfs) : Prop where
  keeps : fs.Keeps r.2
  res : r.1 = .ok ∨ r.1 = .diskErr
  winsect : r.1 = .ok → r.2.winsect = sector
  reliable : fs.disk.Reliable → r.1 = .ok

/-- The window then holds what the volume does. -/
theorem Fatfs.Moved.win {fs : Fatfs} {sector : Nat} {r : FResult × Fatfs} (h : fs.Moved sector r)
    (hs : ¬ fs.Loose sector) (hres : r.1 = .ok) : r.2.win = fs.contents sector := by
  rw [← h.keeps.contents sector hs, ← h.winsect hres]
  exact (Line.overlay_tag (l := r.2.line)).symm

theorem fillWindow_moved {fs : Fatfs} (hok : fs.WindowOk) (hdirty : fs.wflag = false) {sector : Nat}
    (hsector : sector ≤ noSector) (hfirst : ¬ fs.IsCopy sector) :
    fs.Moved sector (fillWindow fs sector) := by
  cases hread : fs.disk.works with
  | true =>
    have heq : fillWindow fs sector =
        (.ok, { fs with win := fs.disk.answer sector, winsect := sector, disk := fs.disk.next }) := by
      simp [fillWindow, diskRead, hread]
    rw [heq]
    refine ⟨contents_of_refill hok hdirty hsector hfirst rfl ?_ Device.Reliable.next, Or.inl rfl,
      fun _ => rfl, fun _ => rfl⟩
    intro _
    rw [Device.answer_of_works hread]
  | false =>
    -- the buffer holds nothing that is of use
    have heq : fillWindow fs sector = (.diskErr,
        { fs with win := fs.disk.answer sector, winsect := noSector, disk := fs.disk.next }) := by
      simp [fillWindow, diskRead, hread]
    rw [heq]
    have hnone : ¬ fs.IsCopy noSector := by
      have hcopies := hok.copies
      exact fun hcopy => absurd hcopy.2 (Nat.not_lt.mpr hcopies)
    refine ⟨contents_of_refill hok hdirty (Nat.le_refl _) hnone rfl ?_ Device.Reliable.next,
      Or.inr rfl, FResult.noConfusion, fun hrel => ?_⟩
    · exact fun hs => absurd (Or.inr (Or.inr rfl)) hs
    · rw [hrel.works] at hread
      cases hread

/-- **Moving the window changes nothing that the volume holds**, whatever the drive does. -/
theorem moveWindow_moved {fs : Fatfs} (hok : fs.WindowOk) {sector : Nat}
    (hsector : sector ≤ noSector) (hfirst : ¬ fs.IsCopy sector) :
    fs.Moved sector (moveWindow fs sector) := by
  unfold moveWindow
  split_ifs with hsame
  · exact ⟨Fatfs.Keeps.refl hok, Or.inl rfl, fun _ => hsame.symm, fun _ => rfl⟩
  · have hsync := syncWindow_keeps hok
    obtain ⟨hres, hdirty⟩ | ⟨hres, hfault⟩ := syncWindow_res fs
    · have hfill := fillWindow_moved hsync.ok hdirty hsector (by rwa [hsync.geometry])
      rw [andThen, if_pos hres]
      exact ⟨hsync.trans hfill.keeps, hfill.res, hfill.winsect,
        fun hrel => hfill.reliable (hsync.reliable hrel)⟩
    · have hstop : ¬ (syncWindow fs).1 = .ok := by
        rw [hres]
        exact FResult.noConfusion
      rw [andThen, if_neg hstop]
      refine ⟨hsync, Or.inr hres, fun h => absurd h hstop, fun hrel => ?_⟩
      rw [hrel.works] at hfault
      cases hfault

/-! ## Changing the window -/

/-- The window with new bytes in it. -/
def Fatfs.poke (fs : Fatfs) (win : Mem) : Fatfs := { fs with win, wflag := true }

/-- A changed window is a change of the one sector that the window was moved to. -/
theorem Fatfs.Moved.poke {fs : Fatfs} {sector : Nat} {r : FResult × Fatfs} (h : fs.Moved sector r)
    (hres : r.1 = .ok) (win : Mem) :
    fs.Becomes (r.2.poke win) (Function.update fs.contents sector win) where
  geometry := h.keeps.geometry
  lastClst := h.keeps.lastClst
  freeClst := h.keeps.freeClst
  contents s hs := by
    have hset : (r.2.poke win).contents = Function.update r.2.contents r.2.winsect win :=
      Line.overlay_set (l := r.2.line) true
    rw [hset, h.winsect hres]
    by_cases heq : s = sector
    · rw [heq, Function.update_self, Function.update_self]
    · rw [Function.update_of_ne heq, Function.update_of_ne heq, h.keeps.contents s hs]
  ok := ⟨h.keeps.ok.copies, h.keeps.ok.info, h.keeps.ok.winsect, h.keeps.ok.first,
    fun _ hdirty => by cases hdirty⟩
  reliable := h.keeps.reliable
  mirrored := h.keeps.mirrored

/-! ## Synchronizing -/

/-- A sector in front of the FAT has nothing to do with the copies. -/
theorem mirrored_of_before {g : FatGeometry} {disk : Drive} {buff : Nat → Mem} {sector : Nat}
    (hsector : sector < g.fatbase) (h : g.Mirrored disk.cell) :
    g.Mirrored (written disk buff sector 1).cell := by
  intro s hs k hk
  have hlo := hs.1
  rw [written_of_ne (by omega), written_of_ne (by omega), h s hs k hk]

/-- The FSInfo sector takes the place of a window that is clean, and the window stays clean. -/
theorem syncFsInfo_keeps {fs : Fatfs} (hok : fs.WindowOk) (hdirty : fs.wflag = false) :
    fs.Keeps (syncFsInfo fs).2 ∧ (syncFsInfo fs).2.wflag = false := by
  simp only [syncFsInfo]
  split_ifs with hinfo
  · have hbefore := hok.info hinfo.1
    have hlt : fs.volbase + 1 < noSector := by
      have hcopies := hok.copies
      omega
    have hsect : add32 fs.volbase 1 = fs.volbase + 1 := by
      unfold noSector at hlt
      exact add32_of_lt (by omega)
    have hloose : fs.Loose (fs.volbase + 1) := Or.inr (Or.inl ⟨hinfo.1, rfl⟩)
    simp only [diskWrite, hsect]
    refine ⟨⟨rfl, rfl, rfl, ?_, ?_, Device.Reliable.write, ?_⟩, hdirty⟩
    · intro s hs
      have hne : s ≠ fs.volbase + 1 := fun heq => hs (heq ▸ hloose)
      have hcell : (written fs.disk (fun _ => fsInfoSector fs.freeClst fs.lastClst)
          (fs.volbase + 1) 1).cell s = fs.disk.cell s := written_of_ne hne
      rw [contents_of_not_dirty hok hdirty hs, ← hcell]
      exact Line.overlay_of_ne hne
    · refine ⟨hok.copies, hok.info, Nat.le_of_lt hlt, ?_, fun hs => absurd hloose hs⟩
      intro hcopy
      have hlo : fs.fatbase + fs.fsize ≤ fs.volbase + 1 := hcopy.1
      omega
    · exact fun _ => mirrored_of_before hbefore
  · exact ⟨Fatfs.Keeps.refl hok, hdirty⟩

/-- **What is synchronized is on the drive.**  `sync_fs` changes nothing that the volume holds,
whatever the drive does, and once it returns `FR_OK` the drive alone holds it. -/
theorem syncFs_durable {fs : Fatfs} (hok : fs.WindowOk) :
    fs.Keeps (syncFs fs).2 ∧ (fs.disk.Reliable → (syncFs fs).1 = .ok) ∧
      ((syncFs fs).1 = .ok → ∀ s, ¬ fs.Loose s → (syncFs fs).2.disk.cell s = fs.contents s) := by
  have hsync := syncWindow_keeps hok
  unfold syncFs andThen
  obtain ⟨hres, hdirty⟩ | ⟨hres, hfault⟩ := syncWindow_res fs
  · rw [if_pos hres]
    obtain ⟨hinfo, hclean⟩ := syncFsInfo_keeps hsync.ok hdirty
    have hkeeps := hsync.trans hinfo
    refine ⟨hkeeps, fun _ => rfl, fun _ s hs => ?_⟩
    have hs' : ¬ (syncFsInfo (syncWindow fs).2).2.Loose s := by rwa [hkeeps.geometry]
    rw [← hkeeps.contents s hs, contents_of_not_dirty hkeeps.ok hclean hs']
  · have hstop : ¬ (syncWindow fs).1 = .ok := by
      rw [hres]
      exact FResult.noConfusion
    rw [if_neg hstop]
    refine ⟨hsync, fun hrel => ?_, fun h => absurd h hstop⟩
    rw [hrel.works] at hfault
    cases hfault

end HeavenFox.Rootfs
