/-
# HeavenFox.Rootfs.FatSessions -- what is found when the volume is mounted again

A volume is mounted, its files are worked on, `sync_fs` returns `FR_OK`, and the power goes.  What a
later `find_volume` finds on the drive is what the files' owners had: the sectors that were written
(`run_durable`) and the chains of the files (`run_remount`), though any request may have failed in
between, if the volume is not one of FAT12.  The further copies of the FAT and the FSInfo sector are
left out, for FatFs does not look at what becomes of them.
-/
import HeavenFox.Rootfs.FatMount
import HeavenFox.Rootfs.FatRuns

namespace HeavenFox.Rootfs

open HeavenFox.Common HeavenFox.Logic

variable {ι : Type*} [DecidableEq ι] {rounds : Nat} {v : Volume ι}

/-! ## A sector that was written -/

/-- **No acknowledged write is lost.**  A sector is written in the window, any calls follow that do
not write it, on a drive that may fail at any request (on FAT12, that does not fail), and `sync_fs`
returns `FR_OK`: then the drive holds what was written. -/
theorem run_durable {sector : Nat} {win : Mem} {ops : List (VolumeOp ι)} {u : Volume ι}
    (hv : v.Ok rounds) (hsteady : v.fs.Steady)
    (hlegal : Meets (volumeStep rounds) VolumeLegal v (.write sector win :: ops))
    (hres : (moveWindow v.fs sector).1 = .ok) (hops : ∀ op ∈ ops, ¬ op.Writes sector)
    (hrun : exec (volumeStep rounds) v (.write sector win :: ops) = some u)
    (hsync : (syncFs u.fs).1 = .ok) : (syncFs u.fs).2.disk.cell sector = win := by
  obtain ⟨t, ht, hrest⟩ := exec_cons hrun
  obtain ⟨hsector, hloose, hfat⟩ := hlegal.1
  have hafter := hv.after hsteady hlegal.1 ht
  have hwritten : t.fs.contents sector = win := by
    have hbecomes := write_becomes hv.sound win hsector hloose
    have ht' : t.fs = (moveWindow v.fs sector).2.poke win := by
      rw [← Option.some.inj ht]
      exact if_pos hres
    dsimp only at hbecomes
    rw [if_pos hres, if_pos hres, ← ht'] at hbecomes
    rw [hbecomes.contents sector hloose, Function.update_self]
  have hgeo := hafter.geometry
  have hS : ∀ s, s = sector → ¬ t.fs.Loose s ∧ ¬ t.fs.InFat s := by
    rintro s rfl
    exact ⟨by rwa [hgeo], by rwa [hgeo]⟩
  have hops' : ∀ op ∈ ops, ∀ s, s = sector → ¬ op.Writes s := by
    rintro op hop s rfl
    exact hops op hop
  obtain ⟨⟨hu, -, hgeo'⟩, hsame⟩ :=
    always_last (along_run hafter.ok (hafter.steady hsteady) hS hops' (hlegal.2 t ht)) hrest
  rw [(syncFs_durable hu.sound.window).2.2 hsync sector (by rwa [hgeo', hgeo]),
    hsame sector rfl, hwritten]

/-- The calls behind the change of sector 40: the first of them fails, for the drive does. -/
def durableOps : List (VolumeOp Bool) :=
  [.create false, .create false, .create true, .stretch false, .truncate false 1, .stretch true,
    .remove true]

theorem run_durable_small :
    ∃ u, exec (volumeStep 4088) wideVolume (.write 40 smallBoot :: durableOps) = some u ∧
      u.own false = [2] ∧ u.own true = [] ∧ (syncFs u.fs).2.disk.cell 40 = smallBoot := by
  have hlegal : Meets (volumeStep 4088) VolumeLegal wideVolume (.write 40 smallBoot :: durableOps) :=
    by decide
  have hruns :
      (exec (volumeStep 4088) wideVolume (.write 40 smallBoot :: durableOps)).isSome = true := by
    decide
  obtain ⟨u, hu⟩ := Option.isSome_iff_exists.mp hruns
  have hend : (exec (volumeStep 4088) wideVolume (.write 40 smallBoot :: durableOps)).map
      (fun u => (u.own false, u.own true, (syncFs u.fs).1)) = some ([2], [], .ok) := by decide
  rw [hu] at hend
  obtain ⟨hfalse, hrest⟩ := Prod.mk.inj (Option.some.inj hend)
  obtain ⟨htrue, hsync⟩ := Prod.mk.inj hrest
  exact ⟨u, hu, hfalse, htrue, run_durable wideVolume_ok wideVolume_steady hlegal (by decide)
    (by decide) hu hsync⟩

/-! ## The volume mounted again -/

/-- A volume that was mounted shows what the drive holds. -/
theorem contents_of_fresh {fs : Fatfs} (h : fs.Fresh) {s : Nat} (hs : ¬ fs.Loose s) :
    fs.contents s = fs.disk.cell s := by
  by_cases hwin : s = fs.winsect
  · have hnum : fs.winsect ≠ noSector := fun hnone => hs (Or.inr (Or.inr (hwin.trans hnone)))
    rw [hwin, h.win hnum]
    exact Line.overlay_tag (l := fs.line)
  · exact Line.overlay_of_ne hwin

/-- **The files are found again.**  A volume is mounted from a drive that does not fail meanwhile, and
from then on any request may fail, if the volume is not one of FAT12.  No call writes a sector that
may be a boot sector, and none of these is part of a FAT.  In every state of a run in which `sync_fs`
returns `FR_OK`, mounting what is on the drive, if it does not fail then, finds the same volume, with
the same contents and with the chain of each file. -/
theorem run_remount {stat : DStatus} {mode : Bool} {fs : Fatfs} {disk : Drive}
    {own : ι → List Nat} {ops : List (VolumeOp ι)} (hnew : fs.fsType = .none)
    (hrel : fs.disk.Reliable) (hmount : (findVolume stat mode fs).1 = .ok)
    (hdisk : disk.cell = fs.disk.cell)
    (hv : (Volume.mk { (findVolume stat mode fs).2 with disk } own).Ok rounds)
    (hsteady : Fatfs.Steady { (findVolume stat mode fs).2 with disk })
    (hlegal : Meets (volumeStep rounds) VolumeLegal
      (Volume.mk { (findVolume stat mode fs).2 with disk } own) ops)
    (hboot : ∀ s, BootCandidate disk.cell s → ¬ (findVolume stat mode fs).2.Loose s ∧
      ¬ (findVolume stat mode fs).2.InFat s ∧ ∀ op ∈ ops, ¬ op.Writes s) :
    Always (volumeStep rounds)
      (fun u => (syncFs u.fs).1 = .ok → ∀ fs' : Fatfs, fs'.fsType = .none → fs'.disk.Reliable →
        fs'.disk.cell = (syncFs u.fs).2.disk.cell →
        (findVolume stat mode fs').1 = .ok ∧
          (findVolume stat mode fs').2.toFatGeometry = u.fs.toFatGeometry ∧
          (∀ s, ¬ u.fs.Loose s → (findVolume stat mode fs').2.contents s = u.fs.contents s) ∧
          Owned (findVolume stat mode fs').2.links u.own)
      (Volume.mk { (findVolume stat mode fs).2 with disk } own) ops := by
  obtain ⟨-, hfresh, hcell⟩ := findVolume_keeps hnew hmount
  have hfresh₀ : Fatfs.Fresh { (findVolume stat mode fs).2 with disk } :=
    ⟨hfresh.wflag, hfresh.winsect, fun hne => by rw [← hfresh.win hne, hcell, ← hdisk]⟩
  have halong := along_run hv hsteady (fun s hs => ⟨(hboot s hs).1, (hboot s hs).2.1⟩)
    (fun op hop s hs => (hboot s hs).2.2 op hop) hlegal
  refine Always.imp ?_ halong
  rintro u ⟨⟨hu, -, hgeo⟩, hsame⟩ hsync fs' hnew' hrel' hcell'
  have hgeo₀ : u.fs.toFatGeometry = (findVolume stat mode fs).2.toFatGeometry := hgeo
  -- the drive holds what the volume does, so the boot sectors are those of the first time
  have hdurable := (syncFs_durable hu.sound.window).2.2 hsync
  have hsame' : ∀ s, BootCandidate fs.disk.cell s → fs'.disk.cell s = fs.disk.cell s := by
    intro s hs
    rw [← hdisk] at hs ⊢
    have hloose := (hboot s hs).1
    rw [hcell', hdurable s (by rwa [hgeo₀]), hsame s hs, contents_of_fresh hfresh₀ hloose]
  obtain ⟨hres, hgeo'⟩ := findVolume_same stat mode hnew hnew' hrel hrel' hsame'
  have hok : (findVolume stat mode fs').1 = .ok := hres.trans hmount
  have hgeo'' : (findVolume stat mode fs').2.toFatGeometry = u.fs.toFatGeometry :=
    (hgeo' hmount).trans hgeo₀.symm
  obtain ⟨-, hfresh', hdrive⟩ := findVolume_keeps hnew' hok
  have hcontents : ∀ s, ¬ u.fs.Loose s →
      (findVolume stat mode fs').2.contents s = u.fs.contents s := by
    intro s hs
    rw [contents_of_fresh hfresh' (by rwa [hgeo'']), hdrive, hcell', hdurable s hs]
  have hlinks : (findVolume stat mode fs').2.links = u.fs.links :=
    links_of_contents hu.sound hgeo'' fun s hs _ => hcontents s hs
  refine ⟨hok, hgeo'', hcontents, ?_⟩
  rw [hlinks]
  exact hu.owned

/-- A `FATFS` that has not been mounted, for the drive of the FAT16 volume. -/
def wideBlank : Fatfs :=
  { blankFatfs with disk := ⟨(wideDrive fun _ => none).cell, fun _ => none, 0⟩ }

set_option maxRecDepth 8000 in
theorem findVolume_wide :
    findVolume ⟨false, false⟩ true wideBlank = (.ok, wideFatfs fun _ => none) := (rfl)

theorem run_remount_small :
    Always (volumeStep 4088)
      (fun u => (syncFs u.fs).1 = .ok → ∀ fs' : Fatfs, fs'.fsType = .none → fs'.disk.Reliable →
        fs'.disk.cell = (syncFs u.fs).2.disk.cell →
        (findVolume ⟨false, false⟩ true fs').1 = .ok ∧
          (findVolume ⟨false, false⟩ true fs').2.toFatGeometry = u.fs.toFatGeometry ∧
          (∀ s, ¬ u.fs.Loose s →
            (findVolume ⟨false, false⟩ true fs').2.contents s = u.fs.contents s) ∧
          Owned (findVolume ⟨false, false⟩ true fs').2.links u.own)
      wideVolume wideOps := by
  have hremount := @run_remount Bool _ 4088 ⟨false, false⟩ true wideBlank wideVolume.fs.disk
    (fun _ => []) wideOps rfl fun _ _ => rfl
  rw [findVolume_wide] at hremount
  refine hremount rfl rfl wideVolume_ok wideVolume_steady wideVolume_meets fun s hs => ?_
  -- there is no partition table on the drive, and the boot sector is the first sector
  have hzero : s = 0 := by
    rcases hs with hzero | hpart
    · exact hzero
    · have hnone : ∀ t ∈ partitions wideBoot, t = 0 := by decide
      exact hnone s hpart
  rw [hzero]
  decide

end HeavenFox.Rootfs
