/-
# HeavenFox.Rootfs.FatMount -- finding and mounting the volume on a drive

`find_volume` takes sector 0 for a boot sector, then tries the four partitions of the table in it,
and computes where things lie from the fields of the boot sector it accepts.  It checks that the
table has room for its entries, but not that the sums it forms fit in 32 bits; `BpbFits` is what a
boot sector has to promise beyond the checks, and a volume mounted from one that does is in order
(`mountVolume_sound`), its clusters on the volume, apart from each other and behind the table
(`clust2sect_apart`).  Which volume is found depends on nothing but the sectors that `find_volume`
looks at (`findVolume_same`).
-/
import HeavenFox.Rootfs.FatLinks

namespace HeavenFox.Rootfs

open HeavenFox.Logic

/-! ## The boot sector -/

/-- What `check_fs` returns; exFAT is configured out. -/
inductive BootSector where
  | fat
  | notFat
  | notBoot
  | diskErr
  deriving DecidableEq, Repr

/-- `check_fs` on the sector in the window. -/
def checkBoot (win : Mem) : BootSector :=
  if load16 win 510 ≠ 0xaa55 then .notBoot
  else if (win 0 = 0xe9 ∨ win 0 = 0xeb ∧ win 2 = 0x90) ∧
      (load32 win 54 &&& 0xffffff = 0x544146 ∨ load32 win 82 = 0x33544146) then .fat
  else .notFat

/-- `check_fs` -/
def checkFs (fs : Fatfs) (sect : Nat) : BootSector × Fatfs :=
  let r := moveWindow { fs with wflag := false, winsect := noSector } sect
  (if r.1 = .ok then checkBoot r.2.win else .diskErr, r.2)

/-- The first sectors of the partitions, `br`. -/
def partitions (win : Mem) : List Nat :=
  (List.range 4).map fun i =>
    let pt := 446 + i * 16
    if win (pt + 4) ≠ 0 then load32 win (pt + 8) else 0

/-- The loop over the partitions that are left: the last `bsect` tried, and what it is. -/
def tryPartitions (fs : Fatfs) (fmt : BootSector) (bsect : Nat) :
    List Nat → Nat × BootSector × Fatfs
  | [] => (bsect, fmt, fs)
  | sect :: br =>
    let r := if sect ≠ 0 then checkFs fs sect else (.notBoot, fs)
    if r.1 = .fat then (sect, r) else tryPartitions r.2 r.1 sect br

/-- Find a FAT partition on the drive. -/
def locateVolume (fs : Fatfs) : Nat × BootSector × Fatfs :=
  let r := checkFs fs 0
  if r.1 = .notFat then tryPartitions r.2 r.1 0 (partitions r.2.win) else (0, r)

/-! ## The parameter block -/

/-- `BPB_FATSz16`, and `BPB_FATSz32` where it is zero. -/
def bpbFatSize (win : Mem) : Nat := if load16 win 22 = 0 then load32 win 36 else load16 win 22

/-- `BPB_TotSec16`, and `BPB_TotSec32` where it is zero. -/
def bpbTotSec (win : Mem) : Nat := if load16 win 19 = 0 then load32 win 32 else load16 win 19

/-- The FAT sub type, from the number of clusters. -/
def fatSubType (nclst : Nat) : FsType :=
  if nclst ≤ 0xff5 then .fat12 else if nclst ≤ 0xfff5 then .fat16 else .fat32

/-- The size of a FAT in bytes, `szbfat`. -/
def neededFatSize (fmt : FsType) (nFatent : Nat) : Nat :=
  match fmt with
  | .fat32 => nFatent * 4 % 2 ^ 32
  | .fat16 => nFatent * 2 % 2 ^ 32
  | _ => add32 (nFatent * 3 % 2 ^ 32 / 2) (nFatent % 2)

/-- Get FSINFO if available. -/
def loadFsInfo (fs : Fatfs) (fmt : FsType) (bsect : Nat) : Fatfs :=
  let fs := { fs with lastClst := 0xffffffff, freeClst := 0xffffffff, fsiFlag := 0x80 }
  if fmt = .fat32 ∧ load16 fs.win 48 = 1 then
    let r := moveWindow fs (add32 bsect 1)
    if r.1 = .ok then
      let fs := { r.2 with fsiFlag := 0 }
      if load16 fs.win 510 = 0xaa55 ∧ load32 fs.win 0 = 0x41615252 ∧
          load32 fs.win 484 = 0x61417272 then
        { fs with freeClst := load32 fs.win 488, lastClst := load32 fs.win 492 }
      else fs
    else r.2
  else fs

/-- The start of the root directory: a cluster on FAT32, or else a sector. -/
def rootStart (fs : Fatfs) (fmt : FsType) (fasize : Nat) : Nat :=
  if fmt = .fat32 then load32 fs.win 44 else add32 fs.fatbase fasize

/-- `find_volume` behind the FAT sub type: the limits, and the rest of the fields. -/
def setLimits (fs : Fatfs) (fmt : FsType) (bsect fasize : Nat) : FResult × Fatfs :=
  if fmt = .fat32 ∧ load16 fs.win 42 ≠ 0 then (.noFilesystem, fs)
  else if fmt = .fat32 ∧ fs.nRootdir ≠ 0 then (.noFilesystem, fs)
  else if fmt ≠ .fat32 ∧ fs.nRootdir = 0 then (.noFilesystem, fs)
  else
    let fs := { fs with dirbase := rootStart fs fmt fasize }
    if fs.fsize < add32 (neededFatSize fmt fs.nFatent) (ss - 1) / ss then (.noFilesystem, fs)
    else (.ok, { loadFsInfo fs fmt bsect with fsType := fmt })

/-- `find_volume` once a boot sector is in the window. -/
def mountVolume (fs : Fatfs) (bsect : Nat) : FResult × Fatfs :=
  if load16 fs.win 11 ≠ ss then (.noFilesystem, fs)
  else
    let fasize := bpbFatSize fs.win
    let fs := { fs with fsize := fasize, nFats := (fs.win 16).toNat }
    if fs.nFats ≠ 1 ∧ fs.nFats ≠ 2 then (.noFilesystem, fs)
    else
      let fasize := fasize * fs.nFats % 2 ^ 32
      let fs := { fs with csize := (fs.win 13).toNat }
      if fs.csize = 0 ∨ fs.csize &&& (fs.csize - 1) ≠ 0 then (.noFilesystem, fs)
      else
        let fs := { fs with nRootdir := load16 fs.win 17 }
        if fs.nRootdir % (ss / 32) ≠ 0 then (.noFilesystem, fs)
        else
          let tsect := bpbTotSec fs.win
          let nrsv := load16 fs.win 14
          if nrsv = 0 then (.noFilesystem, fs)
          else
            let sysect := add32 (add32 nrsv fasize) (fs.nRootdir / (ss / 32))
            if tsect < sysect then (.noFilesystem, fs)
            else
              let nclst := (tsect - sysect) / fs.csize
              if nclst = 0 then (.noFilesystem, fs)
              else
                let fs := { fs with
                  nFatent := add32 nclst 2
                  volbase := bsect
                  fatbase := add32 bsect nrsv
                  database := add32 bsect sysect }
                setLimits fs (fatSubType nclst) bsect fasize

/-- `find_volume` once a boot sector has been looked for. -/
def mountLocated (r : Nat × BootSector × Fatfs) : FResult × Fatfs :=
  match r.2.1 with
  | .fat => mountVolume r.2.2 r.1
  | .diskErr => (.diskErr, r.2.2)
  | _ => (.noFilesystem, r.2.2)

/-- `disk_status` -/
structure DStatus where
  noInit : Bool
  protect : Bool
  deriving DecidableEq, Repr

/-- `find_volume` behind the lookup of the volume's `FATFS`; `mode` is set for a write access. -/
def findVolume (stat : DStatus) (mode : Bool) (fs : Fatfs) : FResult × Fatfs :=
  if fs.fsType ≠ .none ∧ stat.noInit = false then
    (if mode ∧ stat.protect then .writeProtected else .ok, fs)
  else
    let fs := { fs with fsType := .none }
    if stat.noInit then (.notReady, fs)
    else if mode ∧ stat.protect then (.writeProtected, fs)
    else mountLocated (locateVolume fs)

/-! ## The layout of a volume -/

/-- The reserved sectors, the FATs and the root directory, as the sizes are meant. -/
def bpbSysSect (win : Mem) : Nat :=
  load16 win 14 + bpbFatSize win * (win 16).toNat + load16 win 17 / (ss / 32)

/-- The number of clusters, as it is meant. -/
def bpbClusters (win : Mem) : Nat := (bpbTotSec win - bpbSysSect win) / (win 13).toNat

/-- What a boot sector has to promise and `find_volume` does not check: the sectors of the volume
have numbers, and a FAT32 volume has a sector for its FSInfo and entries that hold its clusters. -/
structure BpbFits (win : Mem) (bsect : Nat) : Prop where
  place : bsect < noSector
  sysArea : bpbSysSect win < 2 ^ 32
  volume : bsect + bpbTotSec win ≤ noSector
  large : 0xfff5 < bpbClusters win → 2 ≤ load16 win 14 ∧ bpbClusters win + 2 < 2 ^ 28

/-- Where things lie on the volume of a boot sector. -/
structure FatGeometry.Layout (g : FatGeometry) (win : Mem) (bsect : Nat) : Prop where
  fsType : g.fsType = fatSubType (bpbClusters win)
  nFats : g.nFats = 1 ∨ g.nFats = 2
  csize : 0 < g.csize ∧ g.csize &&& (g.csize - 1) = 0
  nFatent : g.nFatent = bpbClusters win + 2
  clusters : 0 < bpbClusters win
  volbase : g.volbase = bsect
  reserved : 0 < load16 win 14
  fatbase : g.fatbase = bsect + load16 win 14
  fits : ∀ c < g.nFatent, g.fsType.pos c + g.fsType.width ≤ g.fsize * ss
  dirbase : g.fsType ≠ .fat32 → g.dirbase = g.fatbase + g.nFats * g.fsize
  database : g.database = g.fatbase + g.nFats * g.fsize + g.nRootdir / (ss / 32)
  volume : g.database + bpbClusters win * g.csize ≤ bsect + bpbTotSec win

/-- What `setLimits` has checked, and what it leaves. -/
theorem setLimits_ok {fs : Fatfs} {fmt : FsType} {bsect fasize : Nat}
    (h : (setLimits fs fmt bsect fasize).1 = .ok) :
    (fmt = .fat32 ↔ fs.nRootdir = 0) ∧
      add32 (neededFatSize fmt fs.nFatent) (ss - 1) / ss ≤ fs.fsize ∧
      (setLimits fs fmt bsect fasize).2 =
        { loadFsInfo { fs with dirbase := rootStart fs fmt fasize } fmt bsect with
          fsType := fmt } := by
  unfold setLimits at h ⊢
  dsimp only at h ⊢
  split_ifs at h ⊢ with hver hroot hroot' hsize
  refine ⟨⟨fun h32 => ?_, fun hzero => ?_⟩, Nat.not_lt.mp hsize, rfl⟩
  · exact not_not.mp fun hne => hroot ⟨h32, hne⟩
  · exact not_not.mp fun hne => hroot' ⟨hne, hzero⟩

/-- The volume with the fields that `mountVolume` sets. -/
def Fatfs.laidOut (fs : Fatfs) (bsect : Nat) : Fatfs :=
  { fs with
    fsize := bpbFatSize fs.win
    nFats := (fs.win 16).toNat
    csize := (fs.win 13).toNat
    nRootdir := load16 fs.win 17
    nFatent := add32 (bpbClusters fs.win) 2
    volbase := bsect
    fatbase := add32 bsect (load16 fs.win 14)
    database := add32 bsect (bpbSysSect fs.win) }

/-- What `mountVolume` has checked, where the sums fit. -/
theorem mountVolume_ok {fs : Fatfs} {bsect : Nat} (h : (mountVolume fs bsect).1 = .ok)
    (hfits : BpbFits fs.win bsect) :
    ((fs.win 16).toNat = 1 ∨ (fs.win 16).toNat = 2) ∧
      (0 < (fs.win 13).toNat ∧ (fs.win 13).toNat &&& ((fs.win 13).toNat - 1) = 0) ∧
      0 < load16 fs.win 14 ∧ bpbSysSect fs.win ≤ bpbTotSec fs.win ∧ 0 < bpbClusters fs.win ∧
      mountVolume fs bsect = setLimits (fs.laidOut bsect) (fatSubType (bpbClusters fs.win)) bsect
        (bpbFatSize fs.win * (fs.win 16).toNat) := by
  have hsys := hfits.sysArea
  have harea : load16 fs.win 14 + bpbFatSize fs.win * (fs.win 16).toNat ≤ bpbSysSect fs.win :=
    Nat.le_add_right _ _
  have hfa : bpbFatSize fs.win * (fs.win 16).toNat % 2 ^ 32 = bpbFatSize fs.win * (fs.win 16).toNat :=
    Nat.mod_eq_of_lt (by omega)
  have hsum : add32 (add32 (load16 fs.win 14) (bpbFatSize fs.win * (fs.win 16).toNat))
      (load16 fs.win 17 / (ss / 32)) = bpbSysSect fs.win := by
    rw [add32_of_lt (a := load16 fs.win 14) (by omega)]
    exact add32_of_lt hsys
  unfold mountVolume at h ⊢
  simp only [hfa, hsum] at h ⊢
  split_ifs at h ⊢ with hsect hfats hcsize hroot hnrsv htot hclst
  refine ⟨?_, ?_, Nat.pos_of_ne_zero hnrsv, Nat.not_lt.mp htot, Nat.pos_of_ne_zero hclst, rfl⟩
  · by_contra hne
    exact hfats (not_or.mp hne)
  · obtain ⟨hzero, hpow⟩ := not_or.mp hcsize
    exact ⟨Nat.pos_of_ne_zero hzero, not_not.mp hpow⟩

theorem fatSubType_ne_none (nclst : Nat) : fatSubType nclst ≠ .none := by
  unfold fatSubType
  split_ifs <;> exact FsType.noConfusion

/-- The clusters of a volume have numbers that are no marks of its entries. -/
theorem BpbFits.values {win : Mem} {bsect : Nat} (h : BpbFits win bsect) :
    bpbClusters win + 2 < (fatSubType (bpbClusters win)).values := by
  have hlarge := h.large
  unfold fatSubType
  split_ifs
  · show _ < 2 ^ 12
    omega
  · show _ < 2 ^ 16
    omega
  · show _ < 2 ^ 28
    omega

/-- **A table of the needed size has room for its entries.** -/
theorem fits_of_neededFatSize {t : FsType} {n fsize : Nat} (ht : t ≠ .none) (hn : n < t.values)
    (hsize : add32 (neededFatSize t n) (ss - 1) / ss ≤ fsize) :
    ∀ c < n, t.pos c + t.width ≤ fsize * ss := by
  intro c hc
  have hmax := Nat.lt_of_lt_of_le hn t.values_le
  unfold ss at hsize ⊢
  cases t with
  | none => exact absurd rfl ht
  | fat12 =>
    have hn' : n < 2 ^ 12 := hn
    have hneeded : neededFatSize .fat12 n = n * 3 / 2 + n % 2 := by
      show add32 (n * 3 % 2 ^ 32 / 2) (n % 2) = _
      rw [Nat.mod_eq_of_lt (by omega), add32_of_lt (by omega)]
    -- an odd number of entries takes half a byte more
    have hlast : c + c / 2 + 2 ≤ n * 3 / 2 + n % 2 := by
      obtain ⟨m, hm⟩ := Nat.even_or_odd' n
      omega
    show c + c / 2 + 2 ≤ _
    rw [hneeded, add32_of_lt (by omega)] at hsize
    omega
  | fat16 =>
    have hneeded : neededFatSize .fat16 n = n * 2 := Nat.mod_eq_of_lt (by omega)
    show 2 * c + 2 ≤ _
    rw [hneeded, add32_of_lt (by omega)] at hsize
    omega
  | fat32 =>
    have hneeded : neededFatSize .fat32 n = n * 4 := Nat.mod_eq_of_lt (by omega)
    show 4 * c + 4 ≤ _
    rw [hneeded, add32_of_lt (by omega)] at hsize
    omega

/-! ## The window while a volume is looked for -/

/-- A window that shows what the drive holds, or no sector. -/
structure Fatfs.Fresh (fs : Fatfs) : Prop where
  wflag : fs.wflag = false
  winsect : fs.winsect ≤ noSector
  win : fs.winsect ≠ noSector → fs.disk.cell fs.winsect = fs.win

theorem Fatfs.Fresh.counters {fs : Fatfs} (h : fs.Fresh) (lastClst freeClst : Nat)
    (fsiFlag : UInt8) : Fatfs.Fresh { fs with lastClst, freeClst, fsiFlag } :=
  ⟨h.wflag, h.winsect, h.win⟩

/-- What a call that looks at a sector leaves. -/
structure Fatfs.Peeks (fs : Fatfs) (sector : Nat) (r : FResult × Fatfs) : Prop where
  fresh : r.2.Fresh
  geometry : r.2.toFatGeometry = fs.toFatGeometry
  cell : r.2.disk.cell = fs.disk.cell
  reliable : fs.disk.Reliable → r.2.disk.Reliable ∧ r.1 = .ok
  winsect : r.2.winsect = sector ∨ r.1 ≠ .ok ∧ r.2.winsect = noSector

/-- A fresh window is moved without a write. -/
theorem moveWindow_peeks {fs : Fatfs} (h : fs.Fresh) {sector : Nat} (hsector : sector ≤ noSector) :
    fs.Peeks sector (moveWindow fs sector) := by
  unfold moveWindow
  split_ifs with hsame
  · exact ⟨h, rfl, rfl, fun hrel => ⟨hrel, rfl⟩, Or.inl hsame.symm⟩
  · have hsync : syncWindow fs = (.ok, fs) := by
      unfold syncWindow
      rw [h.wflag]
      rfl
    rw [hsync]
    show fs.Peeks sector (fillWindow fs sector)
    unfold fillWindow diskRead
    cases hworks : fs.disk.works with
    | true =>
      refine ⟨⟨h.wflag, hsector, fun _ => ?_⟩, rfl, rfl, fun hrel => ⟨hrel.next, rfl⟩, Or.inl rfl⟩
      show fs.disk.cell sector = fs.disk.answer sector
      rw [Device.answer_of_works hworks]
    | false =>
      refine ⟨⟨h.wflag, Nat.le_refl _, fun hne => absurd rfl hne⟩, rfl, rfl, fun hrel => ?_,
        Or.inr ⟨FResult.noConfusion, rfl⟩⟩
      rw [hrel.works] at hworks
      cases hworks

/-- The FSInfo sector is looked at, and nothing else. -/
theorem loadFsInfo_peeks {fs : Fatfs} (h : fs.Fresh) (fmt : FsType) (bsect : Nat) :
    (loadFsInfo fs fmt bsect).Fresh ∧
      (loadFsInfo fs fmt bsect).toFatGeometry = fs.toFatGeometry ∧
      (loadFsInfo fs fmt bsect).disk.cell = fs.disk.cell ∧
      (fs.disk.Reliable → (loadFsInfo fs fmt bsect).disk.Reliable) ∧
      ((loadFsInfo fs fmt bsect).winsect = fs.winsect ∨
        fmt = .fat32 ∧ (loadFsInfo fs fmt bsect).winsect = add32 bsect 1 ∨
        (loadFsInfo fs fmt bsect).winsect = noSector) := by
  have hsect : add32 bsect 1 ≤ noSector :=
    Nat.le_of_lt_succ (Nat.mod_lt (bsect + 1) (Nat.two_pow_pos 32))
  have hpeek := moveWindow_peeks (h.counters 0xffffffff 0xffffffff 0x80) hsect
  unfold loadFsInfo
  dsimp only
  generalize moveWindow _ _ = r at hpeek ⊢
  have hrel : fs.disk.Reliable → r.2.disk.Reliable := fun hrel => (hpeek.reliable hrel).1
  split_ifs with hinfo hok hsig
  · refine ⟨hpeek.fresh.counters _ _ _, hpeek.geometry, hpeek.cell, hrel, Or.inr (Or.inl ⟨hinfo.1, ?_⟩)⟩
    exact hpeek.winsect.resolve_right fun hfail => hfail.1 hok
  · refine ⟨hpeek.fresh.counters _ _ _, hpeek.geometry, hpeek.cell, hrel, Or.inr (Or.inl ⟨hinfo.1, ?_⟩)⟩
    exact hpeek.winsect.resolve_right fun hfail => hfail.1 hok
  · refine ⟨hpeek.fresh, hpeek.geometry, hpeek.cell, hrel, Or.inr ?_⟩
    exact hpeek.winsect.imp (fun hsame => ⟨hinfo.1, hsame⟩) And.right
  · exact ⟨h.counters _ _ _, rfl, rfl, id, Or.inl rfl⟩

theorem moveWindow_geometry (fs : Fatfs) (sector : Nat) :
    (moveWindow fs sector).2.toFatGeometry = fs.toFatGeometry := by
  have hfill (f : Fatfs) : (fillWindow f sector).2.toFatGeometry = f.toFatGeometry := by
    unfold fillWindow
    dsimp only
    split_ifs <;> rfl
  have hsync : (syncWindow fs).2.toFatGeometry = fs.toFatGeometry := by
    obtain ⟨-, h⟩ | ⟨-, h⟩ | ⟨-, -, h⟩ := syncWindow_cases fs <;> rw [h]
  unfold moveWindow andThen
  split_ifs
  · rfl
  · exact (hfill _).trans hsync
  · exact hsync

theorem loadFsInfo_geometry (fs : Fatfs) (fmt : FsType) (bsect : Nat) :
    (loadFsInfo fs fmt bsect).toFatGeometry = fs.toFatGeometry := by
  have hmove := moveWindow_geometry
    { fs with lastClst := 0xffffffff, freeClst := 0xffffffff, fsiFlag := 0x80 } (add32 bsect 1)
  unfold loadFsInfo
  dsimp only
  split_ifs
  · exact hmove
  · exact hmove
  · exact hmove
  · rfl

theorem setLimits_keeps {fs : Fatfs} {fmt : FsType} {bsect fasize : Nat} (hfresh : fs.Fresh)
    (h : (setLimits fs fmt bsect fasize).1 = .ok) :
    (setLimits fs fmt bsect fasize).2.volbase = fs.volbase ∧
      (setLimits fs fmt bsect fasize).2.Fresh ∧
      (setLimits fs fmt bsect fasize).2.disk.cell = fs.disk.cell := by
  have hready : Fatfs.Fresh { fs with dirbase := rootStart fs fmt fasize } :=
    ⟨hfresh.wflag, hfresh.winsect, hfresh.win⟩
  obtain ⟨hdone, hgeo, hcell, -⟩ := loadFsInfo_peeks hready fmt bsect
  have hbase := congrArg FatGeometry.volbase hgeo
  rw [(setLimits_ok h).2.2]
  exact ⟨hbase, ⟨hdone.wflag, hdone.winsect, hdone.win⟩, hcell⟩

/-- The boot sector's place, and the window, whatever the sizes are. -/
theorem mountVolume_keeps {fs : Fatfs} {bsect : Nat} (hfresh : fs.Fresh)
    (h : (mountVolume fs bsect).1 = .ok) :
    (mountVolume fs bsect).2.volbase = bsect ∧ (mountVolume fs bsect).2.Fresh ∧
      (mountVolume fs bsect).2.disk.cell = fs.disk.cell := by
  unfold mountVolume at h ⊢
  dsimp only at h ⊢
  split_ifs at h ⊢
  exact setLimits_keeps ⟨hfresh.wflag, hfresh.winsect, hfresh.win⟩ h

/-! ## The mounted volume -/

theorem load16_le_bpbSysSect (win : Mem) : load16 win 14 ≤ bpbSysSect win :=
  Nat.le_trans (Nat.le_add_right _ _) (Nat.le_add_right _ _)

namespace FatGeometry.Layout

variable {g : FatGeometry} {win : Mem} {bsect : Nat} (h : g.Layout win bsect)
  (hfits : BpbFits win bsect)
include h hfits

theorem database_lt : g.fatbase + g.nFats * g.fsize ≤ g.database ∧ g.database < noSector := by
  have hbase : g.fatbase + g.nFats * g.fsize ≤ g.database := by
    rw [h.database]
    exact Nat.le_add_right _ _
  have hvolume := h.volume
  have hlast := hfits.volume
  have hroom : 0 < bpbClusters win * g.csize := Nat.mul_pos h.clusters h.csize.1
  omega

theorem table : g.TableOk where
  nFats := by
    have hn := h.nFats
    omega
  fits := h.fits
  ends := by
    rw [h.nFatent, h.fsType]
    exact hfits.values

theorem info (h32 : g.fsType = .fat32) : g.volbase + 1 < g.fatbase := by
  rw [h.fsType] at h32
  have hlarge : 0xfff5 < bpbClusters win := by
    unfold fatSubType at h32
    split_ifs at h32
    omega
  have hrsv := (hfits.large hlarge).1
  rw [h.volbase, h.fatbase]
  omega

/-- The boot sector and the FSInfo sector are in front of the FATs. -/
theorem first {s : Nat} (hs : s = bsect ∨ g.fsType = .fat32 ∧ s = bsect + 1 ∨ s = noSector) :
    ¬ g.IsCopy s := by
  rintro ⟨hlo, hhi⟩
  have harea := h.database_lt hfits
  have hbase := h.fatbase
  have hrsv := h.reserved
  rcases hs with rfl | ⟨h32, rfl⟩ | rfl
  · omega
  · have hbefore := h.info hfits h32
    rw [h.volbase] at hbefore
    omega
  · omega

end FatGeometry.Layout

/-- The fields that `mountVolume` sets are the layout of the boot sector. -/
theorem laidOut_layout {fs : Fatfs} {bsect : Nat}
    (hnFats : (fs.win 16).toNat = 1 ∨ (fs.win 16).toNat = 2)
    (hcsize : 0 < (fs.win 13).toNat ∧ (fs.win 13).toNat &&& ((fs.win 13).toNat - 1) = 0)
    (hnrsv : 0 < load16 fs.win 14) (htot : bpbSysSect fs.win ≤ bpbTotSec fs.win)
    (hclst : 0 < bpbClusters fs.win) (hfits : BpbFits fs.win bsect)
    (hsize : add32 (neededFatSize (fatSubType (bpbClusters fs.win)) (fs.laidOut bsect).nFatent)
      (ss - 1) / ss ≤ bpbFatSize fs.win) :
    FatGeometry.Layout { (fs.laidOut bsect).toFatGeometry with
      dirbase := rootStart (fs.laidOut bsect) (fatSubType (bpbClusters fs.win))
        (bpbFatSize fs.win * (fs.win 16).toNat)
      fsType := fatSubType (bpbClusters fs.win) } fs.win bsect := by
  have hvolume := hfits.volume
  have hvalues := hfits.values
  have hmax := (fatSubType (bpbClusters fs.win)).values_le
  have hrsv := load16_le_bpbSysSect fs.win
  unfold noSector at hvolume
  have hnFatent : (fs.laidOut bsect).nFatent = bpbClusters fs.win + 2 := add32_of_lt (by omega)
  have hfatbase : (fs.laidOut bsect).fatbase = bsect + load16 fs.win 14 := add32_of_lt (by omega)
  have hdatabase : (fs.laidOut bsect).database = bsect + bpbSysSect fs.win :=
    add32_of_lt (by omega)
  refine ⟨rfl, hnFats, hcsize, hnFatent, hclst, rfl, hnrsv, hfatbase, ?_, fun h32 => ?_, ?_, ?_⟩
  · have hvalid : (fs.laidOut bsect).nFatent < (fatSubType (bpbClusters fs.win)).values := by
      omega
    exact fits_of_neededFatSize (fatSubType_ne_none _) hvalid hsize
  · show rootStart _ _ _ = (fs.laidOut bsect).fatbase + (fs.win 16).toNat * bpbFatSize fs.win
    have harea : load16 fs.win 14 + bpbFatSize fs.win * (fs.win 16).toNat ≤ bpbSysSect fs.win :=
      Nat.le_add_right _ _
    unfold rootStart
    rw [if_neg h32, add32_of_lt (by omega), Nat.mul_comm]
  · show (fs.laidOut bsect).database = (fs.laidOut bsect).fatbase +
      (fs.win 16).toNat * bpbFatSize fs.win + load16 fs.win 17 / (ss / 32)
    rw [hdatabase, hfatbase, bpbSysSect, Nat.mul_comm (fs.win 16).toNat, Nat.add_assoc bsect,
      Nat.add_assoc bsect]
  · show (fs.laidOut bsect).database + bpbClusters fs.win * (fs.win 13).toNat ≤ _
    have hroom : bpbClusters fs.win * (fs.win 13).toNat ≤ bpbTotSec fs.win - bpbSysSect fs.win :=
      Nat.div_mul_le_self _ _
    omega

/-- **A volume that is mounted is in order**, if its boot sector promises what is not checked: things
lie where the boot sector says, and the window and the table are as `get_fat` and `put_fat` need
them. -/
theorem mountVolume_sound {fs : Fatfs} {bsect : Nat} (hfresh : fs.Fresh) (hwin : fs.winsect = bsect)
    (hfits : BpbFits fs.win bsect) (h : (mountVolume fs bsect).1 = .ok) :
    (mountVolume fs bsect).2.Layout fs.win bsect ∧ (mountVolume fs bsect).2.Sound := by
  obtain ⟨hnFats, hcsize, hnrsv, htot, hclst, hset⟩ := mountVolume_ok h hfits
  rw [hset] at h ⊢
  obtain ⟨-, hsize, hres⟩ := setLimits_ok h
  rw [hres]
  have hinfo : add32 bsect 1 = bsect + 1 := by
    have hlt := hfits.place
    unfold noSector at hlt
    exact add32_of_lt (by omega)
  -- the volume with its root directory, and with the counters
  have hready : Fatfs.Fresh { fs.laidOut bsect with
      dirbase := rootStart (fs.laidOut bsect) (fatSubType (bpbClusters fs.win))
        (bpbFatSize fs.win * (fs.win 16).toNat) } := ⟨hfresh.wflag, hfresh.winsect, hfresh.win⟩
  obtain ⟨hdone, hgeo, hcell, -, hplace⟩ :=
    loadFsInfo_peeks hready (fatSubType (bpbClusters fs.win)) bsect
  rw [hinfo] at hplace
  revert hdone hgeo hcell hplace
  generalize loadFsInfo _ _ _ = fs'
  intro hdone hgeo hcell hplace
  have hlayout : FatGeometry.Layout { fs'.toFatGeometry with
      fsType := fatSubType (bpbClusters fs.win) } fs.win bsect := by
    rw [hgeo]
    exact laidOut_layout hnFats hcsize hnrsv htot hclst hfits hsize
  refine ⟨hlayout, ⟨⟨?_, hlayout.info hfits, hdone.winsect, ?_, ?_⟩, hlayout.table hfits,
    fatSubType_ne_none _⟩⟩
  · exact (hlayout.database_lt hfits).1.trans (Nat.le_of_lt (hlayout.database_lt hfits).2)
  · exact hlayout.first hfits (hplace.imp_left fun hsame => hsame.trans hwin)
  · exact fun hloose _ => hdone.win fun hnone => hloose (Or.inr (Or.inr hnone))

/-! ## The clusters on the drive -/

section Clusters

variable {fs : Fatfs} {win : Mem} {bsect : Nat} (h : fs.Layout win bsect)
  (hfits : BpbFits win bsect)
include h hfits

theorem clust2sect_of_valid {clst : Nat} (hlo : 2 ≤ clst) (hhi : clst < fs.nFatent) :
    clust2sect fs clst = fs.database + (clst - 2) * fs.csize := by
  have hn := h.nFatent
  have hvolume := h.volume
  have hlast := hfits.volume
  have hmax := Nat.lt_of_lt_of_le hfits.values (fatSubType (bpbClusters win)).values_le
  have hroom : (clst - 2) * fs.csize ≤ bpbClusters win * fs.csize :=
    Nat.mul_le_mul_right _ (by omega)
  unfold noSector at hlast
  unfold clust2sect
  rw [sub32_of_le hlo (by omega), sub32_of_le (by omega) (by omega), if_neg (by omega),
    Nat.mod_eq_of_lt (by omega), add32_of_lt (by omega), Nat.add_comm]

/-- What is no cluster has no sector. -/
theorem clust2sect_of_invalid {clst : Nat} (hclst : clst < 2 ^ 32)
    (hvalid : ¬ (2 ≤ clst ∧ clst < fs.nFatent)) : clust2sect fs clst = 0 := by
  have hn := h.nFatent
  have hmax := Nat.lt_of_lt_of_le hfits.values (fatSubType (bpbClusters win)).values_le
  unfold clust2sect
  rw [sub32_of_le (a := fs.nFatent) (by omega) (by omega)]
  refine if_pos ?_
  by_cases hlo : 2 ≤ clst
  · rw [sub32_of_le hlo hclst]
    omega
  · unfold sub32
    omega

/-- The sectors of a cluster lie behind the FATs and the root directory, on the volume. -/
theorem clust2sect_room {clst i : Nat} (hlo : 2 ≤ clst) (hhi : clst < fs.nFatent)
    (hi : i < fs.csize) :
    fs.database ≤ clust2sect fs clst + i ∧ clust2sect fs clst + i < bsect + bpbTotSec win := by
  have hn := h.nFatent
  have hvolume := h.volume
  have hrow : (clst - 2 + 1) * fs.csize ≤ bpbClusters win * fs.csize :=
    Nat.mul_le_mul_right _ (by omega)
  rw [Nat.succ_mul] at hrow
  rw [clust2sect_of_valid h hfits hlo hhi]
  omega

/-- **Every cluster has sectors of its own.**  They lie in the data area and before the end of the
volume, they are not in a FAT and not the FSInfo sector, and no two clusters share one. -/
theorem clust2sect_apart {clst clst' i i' : Nat} (hlo : 2 ≤ clst) (hhi : clst < fs.nFatent)
    (hlo' : 2 ≤ clst') (hhi' : clst' < fs.nFatent) (hi : i < fs.csize) (hi' : i' < fs.csize) :
    (¬ fs.Loose (clust2sect fs clst + i) ∧ ¬ fs.InFat (clust2sect fs clst + i) ∧
      fs.database ≤ clust2sect fs clst + i ∧
      clust2sect fs clst + i < bsect + bpbTotSec win) ∧
    (clust2sect fs clst + i = clust2sect fs clst' + i' → clst = clst' ∧ i = i') := by
  have hroom := clust2sect_room h hfits hlo hhi hi
  have harea := h.database_lt hfits
  have hlast := hfits.volume
  refine ⟨⟨?_, ?_, hroom⟩, fun heq => ?_⟩
  · rintro (hcopy | hinfo | hnone)
    · have hhi := hcopy.2
      omega
    · have hbefore := h.info hfits hinfo.1
      have hsect := hinfo.2
      omega
    · omega
  · rintro ⟨-, hhi⟩
    have hone : 1 * fs.fsize ≤ fs.nFats * fs.fsize :=
      Nat.mul_le_mul_right _ (h.table hfits).nFats
    omega
  · rw [clust2sect_of_valid h hfits hlo hhi, clust2sect_of_valid h hfits hlo' hhi'] at heq
    have hsum : (clst - 2) * fs.csize + i = (clst' - 2) * fs.csize + i' := by omega
    rcases Nat.lt_trichotomy (clst - 2) (clst' - 2) with hlt | hsame | hlt
    · have hrow : (clst - 2 + 1) * fs.csize ≤ (clst' - 2) * fs.csize := Nat.mul_le_mul_right _ hlt
      rw [Nat.succ_mul] at hrow
      omega
    · rw [hsame] at hsum
      omega
    · have hrow : (clst' - 2 + 1) * fs.csize ≤ (clst - 2) * fs.csize := Nat.mul_le_mul_right _ hlt
      rw [Nat.succ_mul] at hrow
      omega

end Clusters

theorem smallBoot_fits : BpbFits smallBoot 0 where
  place := by decide
  sysArea := by decide
  volume := by decide
  large := by decide

theorem clust2sect_apart_small :
    (¬ smallFatfs.Loose (clust2sect smallFatfs 2 + 0) ∧
      ¬ smallFatfs.InFat (clust2sect smallFatfs 2 + 0) ∧
      smallFatfs.database ≤ clust2sect smallFatfs 2 + 0 ∧
      clust2sect smallFatfs 2 + 0 < 0 + bpbTotSec smallBoot) ∧
    (clust2sect smallFatfs 2 + 0 = clust2sect smallFatfs 3 + 0 → 2 = 3 ∧ 0 = 0) := by
  have hlayout : smallFatfs.Layout smallBoot 0 :=
    ⟨by decide, by decide, by decide, by decide, by decide, by decide, by decide, by decide,
      by decide, fun _ => by decide, by decide, by decide⟩
  exact clust2sect_apart hlayout smallBoot_fits (by decide) (by decide) (by decide) (by decide)
    (by decide) (by decide)

/-! ## Finding the volume -/

theorem partitions_le {win : Mem} {sect : Nat} (h : sect ∈ partitions win) : sect ≤ noSector := by
  obtain ⟨i, -, rfl⟩ := List.mem_map.mp h
  have hlt := load32_lt win (446 + i * 16 + 8)
  unfold noSector
  dsimp only
  split_ifs <;> omega

/-- What looking for a boot sector leaves: the last sector tried is in the window. -/
structure Fatfs.Finds (fs : Fatfs) (r : Nat × BootSector × Fatfs) : Prop where
  fresh : r.2.2.Fresh
  geometry : r.2.2.toFatGeometry = fs.toFatGeometry
  cell : r.2.2.disk.cell = fs.disk.cell
  reliable : fs.disk.Reliable → r.2.2.disk.Reliable
  fat : r.2.1 = .fat → r.2.2.winsect = r.1 ∧ checkBoot r.2.2.win = .fat

theorem checkFs_peeks (fs : Fatfs) {sect : Nat} (hsect : sect ≤ noSector) :
    fs.Peeks sect (moveWindow { fs with wflag := false, winsect := noSector } sect) := by
  have hfresh : Fatfs.Fresh { fs with wflag := false, winsect := noSector } :=
    ⟨rfl, Nat.le_refl _, fun hne => absurd rfl hne⟩
  have hpeek := moveWindow_peeks hfresh hsect
  exact ⟨hpeek.fresh, hpeek.geometry, hpeek.cell, hpeek.reliable, hpeek.winsect⟩

theorem checkFs_finds (fs : Fatfs) {sect : Nat} (hsect : sect ≤ noSector) :
    fs.Finds (sect, checkFs fs sect) := by
  have hpeek := checkFs_peeks fs hsect
  unfold checkFs
  refine ⟨hpeek.fresh, hpeek.geometry, hpeek.cell, fun hrel => (hpeek.reliable hrel).1, ?_⟩
  dsimp only
  split_ifs with hok
  · exact fun hfat => ⟨hpeek.winsect.resolve_right fun hfail => hfail.1 hok, hfat⟩
  · exact False.elim

/-- What `check_fs` sees where the drive does not fail: the sector, if it has a number. -/
theorem checkFs_seen (fs : Fatfs) {sect : Nat} (hsect : sect ≤ noSector)
    (h : (checkFs fs sect).1 ≠ .diskErr) (hnum : sect ≠ noSector) :
    (checkFs fs sect).2.win = fs.disk.cell sect ∧
      (checkFs fs sect).1 = checkBoot (fs.disk.cell sect) := by
  have hpeek := checkFs_peeks fs hsect
  unfold checkFs at h ⊢
  dsimp only at h ⊢
  split_ifs at h ⊢ with hok
  · have hplace := hpeek.winsect.resolve_right fun hfail => hfail.1 hok
    have hwin := hpeek.fresh.win (by rwa [hplace])
    rw [hpeek.cell, hplace] at hwin
    rw [← hwin]
    exact ⟨rfl, rfl⟩
  · exact absurd rfl h

theorem tryPartitions_finds {fs : Fatfs} (hfresh : fs.Fresh) {fmt : BootSector}
    (hfmt : fmt ≠ .fat) (bsect : Nat) {br : List Nat} (hbr : ∀ sect ∈ br, sect ≤ noSector) :
    fs.Finds (tryPartitions fs fmt bsect br) ∧
      ((tryPartitions fs fmt bsect br).2.1 = .fat → (tryPartitions fs fmt bsect br).1 ∈ br) := by
  induction br generalizing fs fmt bsect with
  | nil => exact ⟨⟨hfresh, rfl, rfl, id, fun h => absurd h hfmt⟩, fun h => absurd h hfmt⟩
  | cons sect br ih =>
    have hfinds : fs.Finds (sect, if sect ≠ 0 then checkFs fs sect else (.notBoot, fs)) := by
      split_ifs
      · exact checkFs_finds fs (hbr sect List.mem_cons_self)
      · exact ⟨hfresh, rfl, rfl, id, BootSector.noConfusion⟩
    rw [tryPartitions]
    generalize (if sect ≠ 0 then checkFs fs sect else (.notBoot, fs)) = r at hfinds ⊢
    split_ifs with hfat
    · exact ⟨hfinds, fun _ => List.mem_cons_self⟩
    · obtain ⟨hrest, hmem⟩ := ih hfinds.fresh hfat sect
        fun s hs => hbr s (List.mem_cons_of_mem _ hs)
      refine ⟨⟨hrest.fresh, hrest.geometry.trans hfinds.geometry, hrest.cell.trans hfinds.cell,
        hrest.reliable ∘ hfinds.reliable, hrest.fat⟩, fun h => List.mem_cons_of_mem _ (hmem h)⟩

/-- The sectors that may be the volume's boot sector. -/
def BootCandidate (cell : Nat → Mem) (s : Nat) : Prop := s = 0 ∨ s ∈ partitions (cell 0)

theorem locateVolume_finds (fs : Fatfs) :
    fs.Finds (locateVolume fs) ∧
      ((locateVolume fs).2.1 = .fat → BootCandidate fs.disk.cell (locateVolume fs).1) := by
  have hfirst := checkFs_finds fs (Nat.zero_le noSector)
  have hseen := checkFs_seen fs (Nat.zero_le noSector)
  unfold locateVolume
  generalize checkFs fs 0 = r at hfirst hseen
  dsimp only
  split_ifs with hnot
  · have hne : r.1 ≠ .fat := by
      rw [hnot]
      exact BootSector.noConfusion
    have herr : r.1 ≠ .diskErr := by
      rw [hnot]
      exact BootSector.noConfusion
    have hbr : ∀ sect ∈ partitions r.2.win, sect ≤ noSector := fun _ => partitions_le
    obtain ⟨hrest, hmem⟩ := tryPartitions_finds hfirst.fresh hne 0 hbr
    refine ⟨⟨hrest.fresh, hrest.geometry.trans hfirst.geometry, hrest.cell.trans hfirst.cell,
      hrest.reliable ∘ hfirst.reliable, hrest.fat⟩, fun h => Or.inr ?_⟩
    rw [← (hseen herr (by decide)).1]
    exact hmem h
  · exact ⟨hfirst, fun _ => Or.inl rfl⟩

/-- `find_volume` on a volume that is not mounted. -/
theorem findVolume_new (stat : DStatus) (mode : Bool) {fs : Fatfs} (hnew : fs.fsType = .none) :
    findVolume stat mode fs = if stat.noInit then (.notReady, fs)
      else if mode ∧ stat.protect then (.writeProtected, fs)
      else mountLocated (locateVolume fs) := by
  have hsame : { fs with fsType := .none } = fs := by
    rw [← hnew]
  unfold findVolume
  rw [if_neg fun hold => hold.1 hnew, hsame]

theorem mountLocated_ok {r : Nat × BootSector × Fatfs} (h : (mountLocated r).1 = .ok) :
    r.2.1 = .fat ∧ mountLocated r = mountVolume r.2.2 r.1 := by
  unfold mountLocated at h ⊢
  cases hfmt : r.2.1 with
  | fat => exact ⟨rfl, rfl⟩
  | diskErr =>
    rw [hfmt] at h
    cases h
  | notFat =>
    rw [hfmt] at h
    cases h
  | notBoot =>
    rw [hfmt] at h
    cases h

/-- Only a boot sector that was found lets `find_volume` succeed. -/
theorem findVolume_ok {stat : DStatus} {mode : Bool} {fs : Fatfs} (hnew : fs.fsType = .none)
    (h : (findVolume stat mode fs).1 = .ok) :
    (locateVolume fs).2.1 = .fat ∧
      findVolume stat mode fs = mountVolume (locateVolume fs).2.2 (locateVolume fs).1 := by
  rw [findVolume_new stat mode hnew] at h ⊢
  split_ifs at h ⊢
  exact mountLocated_ok h

/-- **`find_volume` writes nothing**, and the volume that it finds lies behind a sector that may be
a boot sector. -/
theorem findVolume_keeps {stat : DStatus} {mode : Bool} {fs : Fatfs} (hnew : fs.fsType = .none)
    (h : (findVolume stat mode fs).1 = .ok) :
    BootCandidate fs.disk.cell (findVolume stat mode fs).2.volbase ∧
      (findVolume stat mode fs).2.Fresh ∧
      (findVolume stat mode fs).2.disk.cell = fs.disk.cell := by
  obtain ⟨hfat, heq⟩ := findVolume_ok hnew h
  obtain ⟨hfinds, hcand⟩ := locateVolume_finds fs
  rw [heq] at h ⊢
  obtain ⟨hbase, hfresh, hcell⟩ := mountVolume_keeps hfinds.fresh h
  rw [hbase]
  exact ⟨hcand hfat, hfresh, hcell.trans hfinds.cell⟩

/-- **`find_volume` finds a volume in order**, whatever is on the drive and whether the drive fails
or not, as soon as the boot sector that it accepts promises what it does not check. -/
theorem findVolume_sound {stat : DStatus} {mode : Bool} {fs : Fatfs} (hnew : fs.fsType = .none)
    (h : (findVolume stat mode fs).1 = .ok)
    (hfits : BpbFits (fs.disk.cell (findVolume stat mode fs).2.volbase)
      (findVolume stat mode fs).2.volbase) :
    checkBoot (fs.disk.cell (findVolume stat mode fs).2.volbase) = .fat ∧
      (findVolume stat mode fs).2.Layout (fs.disk.cell (findVolume stat mode fs).2.volbase)
        (findVolume stat mode fs).2.volbase ∧
      (findVolume stat mode fs).2.Sound := by
  obtain ⟨hfat, heq⟩ := findVolume_ok hnew h
  obtain ⟨hfinds, -⟩ := locateVolume_finds fs
  obtain ⟨hplace, hboot⟩ := hfinds.fat hfat
  rw [heq] at h hfits ⊢
  rw [(mountVolume_keeps hfinds.fresh h).1] at hfits ⊢
  have hwin := hfinds.fresh.win (by rw [hplace]; exact Nat.ne_of_lt hfits.place)
  rw [hfinds.cell, hplace] at hwin
  rw [hwin] at hfits ⊢
  exact ⟨hboot, mountVolume_sound hfinds.fresh hplace hfits h⟩

/-- A `FATFS` that has not been mounted, for the small drive. -/
def blankFatfs : Fatfs :=
  { smallFatfs with
    fsType := .none
    nFats := 0
    csize := 0
    nRootdir := 0
    nFatent := 0
    fsize := 0
    volbase := 0
    fatbase := 0
    dirbase := 0
    database := 0
    fsiFlag := 0
    win := fun _ => 0
    disk := smallDrive }

set_option maxRecDepth 8000 in
/-- The small volume is what is found on the small drive. -/
theorem findVolume_small : findVolume ⟨false, false⟩ true blankFatfs = (.ok, smallFatfs) := (rfl)

theorem findVolume_sound_small :
    checkBoot smallBoot = .fat ∧ smallFatfs.Layout smallBoot 0 ∧ smallFatfs.Sound := by
  have hsound := @findVolume_sound ⟨false, false⟩ true blankFatfs rfl
  rw [findVolume_small] at hsound
  exact hsound rfl smallBoot_fits

/-! ## The same volume again -/

theorem checkFs_works {fs : Fatfs} (hrel : fs.disk.Reliable) {sect : Nat}
    (hsect : sect ≤ noSector) : (checkFs fs sect).1 ≠ .diskErr := by
  unfold checkFs checkBoot
  dsimp only
  rw [if_pos ((checkFs_peeks fs hsect).reliable hrel).2]
  split_ifs <;> exact BootSector.noConfusion

/-- Two drives that do not fail show the same in a sector. -/
theorem checkFs_same {fs fs' : Fatfs} (hrel : fs.disk.Reliable) (hrel' : fs'.disk.Reliable)
    {sect : Nat} (hsect : sect ≤ noSector)
    (hcell : sect ≠ noSector → fs'.disk.cell sect = fs.disk.cell sect)
    (hwin : sect = noSector → fs'.win = fs.win) :
    (checkFs fs' sect).1 = (checkFs fs sect).1 ∧
      (checkFs fs' sect).2.win = (checkFs fs sect).2.win := by
  by_cases hnum : sect = noSector
  · -- the number of no sector: the window stays as it was
    have hstay (f : Fatfs) : checkFs f sect =
        (checkBoot f.win, { f with wflag := false, winsect := noSector }) := by
      unfold checkFs moveWindow
      rw [if_pos hnum]
      rfl
    rw [hstay, hstay, hwin hnum]
    exact ⟨rfl, rfl⟩
  · obtain ⟨hs, hb⟩ := checkFs_seen fs hsect (checkFs_works hrel hsect) hnum
    obtain ⟨hs', hb'⟩ := checkFs_seen fs' hsect (checkFs_works hrel' hsect) hnum
    rw [hs, hs', hb, hb', hcell hnum]
    exact ⟨rfl, rfl⟩

theorem tryPartitions_same {fs fs' : Fatfs} (hrel : fs.disk.Reliable) (hrel' : fs'.disk.Reliable)
    (hwin : fs'.win = fs.win) (fmt : BootSector) (bsect : Nat) {br : List Nat}
    (hbr : ∀ sect ∈ br, sect ≤ noSector)
    (hcell : ∀ sect ∈ br, sect ≠ noSector → fs'.disk.cell sect = fs.disk.cell sect) :
    (tryPartitions fs' fmt bsect br).1 = (tryPartitions fs fmt bsect br).1 ∧
      (tryPartitions fs' fmt bsect br).2.1 = (tryPartitions fs fmt bsect br).2.1 ∧
      (tryPartitions fs' fmt bsect br).2.2.win = (tryPartitions fs fmt bsect br).2.2.win := by
  induction br generalizing fs fs' fmt bsect with
  | nil => exact ⟨rfl, rfl, hwin⟩
  | cons sect br ih =>
    have hsect := hbr sect List.mem_cons_self
    have hfinds (f : Fatfs) := checkFs_finds f hsect
    have hcell' := hcell sect List.mem_cons_self
    rw [tryPartitions, tryPartitions]
    by_cases hzero : sect = 0
    · rw [if_neg (not_not.mpr hzero), if_neg (not_not.mpr hzero)]
      exact ih hrel hrel' hwin .notBoot sect (fun s hs => hbr s (List.mem_cons_of_mem _ hs))
        fun s hs => hcell s (List.mem_cons_of_mem _ hs)
    · obtain ⟨hfmt, hwin'⟩ := checkFs_same hrel hrel' hsect hcell' fun _ => hwin
      rw [if_pos hzero, if_pos hzero, hfmt]
      split_ifs with hfat
      · exact ⟨rfl, hfmt, hwin'⟩
      · refine ih ((hfinds fs).reliable hrel) ((hfinds fs').reliable hrel') hwin' _ sect
          (fun s hs => hbr s (List.mem_cons_of_mem _ hs)) fun s hs hnum => ?_
        rw [(hfinds fs).cell, (hfinds fs').cell]
        exact hcell s (List.mem_cons_of_mem _ hs) hnum

theorem locateVolume_same {fs fs' : Fatfs} (hrel : fs.disk.Reliable) (hrel' : fs'.disk.Reliable)
    (hcell : ∀ s, BootCandidate fs.disk.cell s → fs'.disk.cell s = fs.disk.cell s) :
    (locateVolume fs').1 = (locateVolume fs).1 ∧
      (locateVolume fs').2.1 = (locateVolume fs).2.1 ∧
      (locateVolume fs').2.2.win = (locateVolume fs).2.2.win := by
  have hzero := Nat.zero_le noSector
  have hsame := checkFs_same hrel hrel' hzero (fun _ => hcell 0 (Or.inl rfl)) fun h => by cases h
  have hseen := (checkFs_seen fs hzero (checkFs_works hrel hzero) (by decide)).1
  have hfinds := checkFs_finds fs hzero
  have hfinds' := checkFs_finds fs' hzero
  unfold locateVolume
  generalize checkFs fs 0 = r at hsame hseen hfinds
  generalize checkFs fs' 0 = r' at hsame hfinds'
  obtain ⟨hfmt, hwin⟩ := hsame
  dsimp only
  rw [hfmt, hwin]
  split_ifs with hnot
  · have hbr : ∀ sect ∈ partitions r.2.win, sect ≤ noSector := fun _ => partitions_le
    refine tryPartitions_same (hfinds.reliable hrel) (hfinds'.reliable hrel') hwin _ 0 hbr
      fun s hs _ => ?_
    rw [hfinds.cell, hfinds'.cell]
    rw [hseen] at hs
    exact hcell s (Or.inr hs)
  · exact ⟨rfl, hfmt, hwin⟩

theorem setLimits_same {fs fs' : Fatfs} {fmt : FsType} {bsect fasize : Nat}
    (hwin : fs'.win = fs.win) {dirbase : Nat} {fsType : FsType}
    (hgeo : fs'.toFatGeometry = { fs.toFatGeometry with dirbase, fsType }) :
    (setLimits fs' fmt bsect fasize).1 = (setLimits fs fmt bsect fasize).1 ∧
      ((setLimits fs fmt bsect fasize).1 = .ok →
        (setLimits fs' fmt bsect fasize).2.toFatGeometry =
          (setLimits fs fmt bsect fasize).2.toFatGeometry) := by
  have hroot : rootStart fs' fmt fasize = rootStart fs fmt fasize := by
    unfold rootStart
    rw [hwin, hgeo]
  unfold setLimits
  rw [hwin, hgeo, hroot]
  dsimp only
  split_ifs
  · exact ⟨rfl, False.elim⟩
  · exact ⟨rfl, False.elim⟩
  · exact ⟨rfl, False.elim⟩
  · exact ⟨rfl, False.elim⟩
  · refine ⟨rfl, fun _ => ?_⟩
    show { (loadFsInfo _ fmt bsect).toFatGeometry with fsType := fmt } =
      { (loadFsInfo _ fmt bsect).toFatGeometry with fsType := fmt }
    rw [loadFsInfo_geometry, loadFsInfo_geometry]

/-- What a boot sector says does not depend on what the volume was before. -/
theorem mountVolume_same {fs fs' : Fatfs} (hwin : fs'.win = fs.win) (bsect : Nat) :
    (mountVolume fs' bsect).1 = (mountVolume fs bsect).1 ∧
      ((mountVolume fs bsect).1 = .ok →
        (mountVolume fs' bsect).2.toFatGeometry = (mountVolume fs bsect).2.toFatGeometry) := by
  unfold mountVolume
  dsimp only
  rw [hwin]
  split_ifs
  -- a check that fails, fails for both
  · exact ⟨rfl, False.elim⟩
  · exact ⟨rfl, False.elim⟩
  · exact ⟨rfl, False.elim⟩
  · exact ⟨rfl, False.elim⟩
  · exact ⟨rfl, False.elim⟩
  · exact ⟨rfl, False.elim⟩
  · exact ⟨rfl, False.elim⟩
  · apply setLimits_same
    · rfl
    · rfl

/-- **Mounting depends on nothing but the drive.**  Where neither drive fails, and the sectors that
may be a boot sector are the same, `find_volume` finds the same volume or the same error, whatever
the `FATFS` held before. -/
theorem findVolume_same (stat : DStatus) (mode : Bool) {fs fs' : Fatfs} (hnew : fs.fsType = .none)
    (hnew' : fs'.fsType = .none) (hrel : fs.disk.Reliable) (hrel' : fs'.disk.Reliable)
    (hcell : ∀ s, BootCandidate fs.disk.cell s → fs'.disk.cell s = fs.disk.cell s) :
    (findVolume stat mode fs').1 = (findVolume stat mode fs).1 ∧
      ((findVolume stat mode fs).1 = .ok → (findVolume stat mode fs').2.toFatGeometry =
        (findVolume stat mode fs).2.toFatGeometry) := by
  obtain ⟨hsect, hfmt, hwin⟩ := locateVolume_same hrel hrel' hcell
  rw [findVolume_new stat mode hnew, findVolume_new stat mode hnew']
  split_ifs
  · exact ⟨rfl, False.elim⟩
  · exact ⟨rfl, False.elim⟩
  · unfold mountLocated
    rw [hfmt, hsect]
    cases (locateVolume fs).2.1 with
    | fat =>
      dsimp only
      exact mountVolume_same hwin _
    | diskErr => exact ⟨rfl, FResult.noConfusion⟩
    | notFat => exact ⟨rfl, FResult.noConfusion⟩
    | notBoot => exact ⟨rfl, FResult.noConfusion⟩

end HeavenFox.Rootfs
