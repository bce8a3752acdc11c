/-
# HeavenFox.Drivers.At24cxxProbe -- the device number of `at24cxx.c`

`at24cxx_driver_probe` registers one device number, of major 222, and every failure behind that goes
back through the label that unregisters it.  But `fwk_unregister_chrdev` is told a count of 0 there,
and in `at24cxx_driver_remove` too, and a count of 0 takes nothing off the registry.

So a number that was once registered stays (`at24cxx_undone_iff`), and no later probe can have it
(`later_probe_refused`).
-/
import HeavenFox.Drivers.At24cxx
import HeavenFox.Platform.ChrdevRegister
import HeavenFox.Platform.FwkDevice
import HeavenFox.Platform.FwkI2c

namespace HeavenFox.Drivers

open HeavenFox.Common HeavenFox.Logic HeavenFox.Platform

/-! ## The driver -/

/-- `AT24CXX_DRVIVER_MAJOR` -/
def at24cxxDrviverMajor : Nat := 222

/-- `AT24C01_PAGE_SIZE` -/
def at24c01PageSize : Nat := 8

/-- `AT24C01_PAGE_COUNT` -/
def at24c01PageCount : Nat := 16

/-- `devnum` of the probe. -/
def at24cxxDevnum : Nat := mkeDevNum at24cxxDrviverMajor 0

/-- A `struct at24cxx_drv_info`, with what belongs to the character device. -/
structure At24cxxDevice extends At24cxxDrvInfo where
  devnum : Nat
  sprtCdev : FwkCdev
  sprtIdev : Nat

/-- The registry of device numbers, `sprt_fwk_chrdev_map`, the tree with the devices, and the driver
data of the client. -/
structure EepromSystem where
  chrdevs : Chrdevs
  map : FwkKobjMap
  devs : DeviceTables
  clientData : Option At24cxxDevice

/-- What the memory gives to a probe: the info, the entry of the registry, the `struct fwk_cdev`,
the probes of the map, and the device. -/
structure ProbeMem where
  info : Nat
  chrdev : Bool
  cdev : Nat
  probes : Nat
  device : DeviceMem

/-- A property of one word, or a default. -/
def propertyOr (t : DeviceTree) (sprtNode : Option ObjPtr) (ptrName : List UInt8) (value : Nat) :
    Except Stop Nat := do
  let (retval, read) ← fwkOfPropertyReadU32 t sprtNode ptrName
  pure (if retval ≠ 0 then value else read.headD 0)

section Calls

variable (root : Nat) (t : DeviceTree) (nodeName : ObjPtr → List Char)

/-- The way back from `fail2` on. -/
def probeFail2 (s : EepromSystem) : Except Stop (Int × EepromSystem) := do
  let chrdevs ← fwkUnregisterChrdev s.chrdevs at24cxxDevnum 0
  pure (-erError, { s with chrdevs })

/-- The way back from `fail4` on; the memory of `sprtCdev` is released. -/
def probeFail4 (sprtCdev : FwkCdev) (s : EepromSystem) : Except Stop (Int × EepromSystem) := do
  let (_, map) ← fwkCdevDel s.map sprtCdev
  probeFail2 { s with map }

/-- The probe behind the registration of the number. -/
def probeRegistered (mem : ProbeMem) (client : FwkI2cClient) (info : At24cxxDrvInfo)
    (s : EepromSystem) : Except Stop (Int × EepromSystem) :=
  let sprtCdev := fwkCdevAlloc mem.cdev
  if !isValid sprtCdev.addr then probeFail2 s
  else
    let (retval, sprtCdev, map) := fwkCdevAdd mem.probes s.map sprtCdev at24cxxDevnum 1
    let s := { s with map }
    if retval ≠ 0 then probeFail2 s
    else
      match client.sprtNode with
      | none => .error .fault
      | some n => do
        let (sprtIdev, devs) ←
          fwkDeviceCreate root mem.device s.devs nrTypeChrdev at24cxxDevnum (nodeName n)
        let s := { s with devs }
        match sprtIdev with
        | .error _ => probeFail4 sprtCdev s
        | .ok sprtIdev =>
          let sprtInfo := { info with devnum := at24cxxDevnum, sprtCdev, sprtIdev }
          pure (erNormal, { s with clientData := some sprtInfo })

/-- `at24cxx_driver_probe`. -/
def at24cxxDriverProbe (mem : ProbeMem) (client : FwkI2cClient) (s : EepromSystem) :
    Except Stop (Int × EepromSystem) :=
  if !isValid mem.info then .ok (-erNomem, s)
  else do
    let pageSize ← propertyOr t client.sprtNode (cstring "page_size") at24c01PageSize
    let pages ← propertyOr t client.sprtNode (cstring "pages") at24c01PageCount
    let info := { addr := client.addr, pageSize, totalSize := pageSize * pages % 2 ^ 32 }
    let (retval, chrdevs) ← fwkRegisterChrdev (fun _ => mem.chrdev) s.chrdevs at24cxxDevnum 1
    let s := { s with chrdevs }
    if retval ≠ 0 then pure (-erError, s) else probeRegistered root nodeName mem client info s

/-- `at24cxx_driver_remove`. -/
def at24cxxDriverRemove (s : EepromSystem) : Except Stop (Int × EepromSystem) :=
  match s.clientData with
  | none => .error .fault
  | some sprtInfo => do
    let (_, devs) ← fwkDeviceDestroy root s.devs sprtInfo.sprtIdev
    let (_, map) ← fwkCdevDel s.map sprtInfo.sprtCdev
    let chrdevs ← fwkUnregisterChrdev s.chrdevs sprtInfo.devnum 0
    pure (erNormal, { chrdevs, map, devs, clientData := none })

end Calls

/-! ## The registration -/

/-- The list of the major. -/
def eepromSlot : Fin deviceMaxNum := Fin.ofNat deviceMaxNum at24cxxDrviverMajor

/-- The entry of the driver. -/
def eepromEntry : FwkCharDevice := ⟨at24cxxDrviverMajor, 0, 1⟩

/-- The list of the major begins with an entry for minor 0. -/
def MinorTaken (s : Chrdevs) : Prop := ∃ dev ∈ (s eepromSlot).head?, dev.baseminor = 0

/-- The registry with the entry of the driver. -/
def withEntry (s : Chrdevs) : Chrdevs :=
  Function.update s eepromSlot (eepromEntry :: s eepromSlot)

theorem withEntry_ne (s : Chrdevs) : withEntry s ≠ s := by
  intro h
  have hslot := congrArg List.length (congrFun h eepromSlot)
  rw [withEntry, Function.update_self, List.length_cons] at hslot
  exact absurd hslot (Nat.succ_ne_self _)

theorem withEntry_taken (s : Chrdevs) : MinorTaken (withEntry s) := by
  refine ⟨eepromEntry, ?_, rfl⟩
  rw [withEntry, Function.update_self]
  exact rfl

/-- Minor 0 goes in front, or the first entry has it. -/
theorem insertChrdev_first (devs : List FwkCharDevice) :
    ((∃ dev ∈ devs.head?, dev.baseminor = 0) ∧ insertChrdev eepromEntry devs = none) ∨
      ((¬ ∃ dev ∈ devs.head?, dev.baseminor = 0) ∧
        insertChrdev eepromEntry devs = some (eepromEntry :: devs)) := by
  cases devs with
  | nil => exact Or.inr ⟨by simp, rfl⟩
  | cons dev rest =>
    have hstop : dev.stopsAt eepromEntry = true := by
      simp [FwkCharDevice.stopsAt, eepromEntry]
    have hlast : eepromEntry.lastMinor = 0 := by decide
    have hoverlap : dev.overlaps eepromEntry = decide (dev.baseminor = 0) := by
      rw [FwkCharDevice.overlaps, hlast]
      simp [eepromEntry]
    rw [insertChrdev, if_pos hstop, hoverlap]
    by_cases hzero : dev.baseminor = 0
    · exact Or.inl ⟨⟨dev, rfl, hzero⟩, if_pos (decide_eq_true hzero)⟩
    · refine Or.inr ⟨?_, if_neg (by simpa using hzero)⟩
      rintro ⟨dev', hhead, hzero'⟩
      cases hhead
      exact hzero hzero'

/-- One number is one part. -/
theorem register_eq (kmalloc : Bool) (s : Chrdevs) :
    fwkRegisterChrdev (fun _ => kmalloc) s at24cxxDevnum 1 =
      match __fwkRegisterChrdev kmalloc s at24cxxDrviverMajor 0 1 with
      | (none, s) => .ok (-erFaild, s)
      | (some _, s) => .ok (erNormal, s) := by
  have hlast : add32 at24cxxDevnum 1 = at24cxxDevnum + 1 := by decide
  have hmajor : getDevMajor at24cxxDevnum = at24cxxDrviverMajor := by decide
  have hminor : getDevMinor at24cxxDevnum = 0 := by decide
  have hnext : nextPart at24cxxDevnum (at24cxxDevnum + 1) = at24cxxDevnum + 1 := by decide
  have hcount : sub32 (at24cxxDevnum + 1) at24cxxDevnum = 1 := by decide
  have hnone : sub32 at24cxxDevnum at24cxxDevnum = 0 := by decide
  rw [fwkRegisterChrdev, hlast, registerLoop, if_pos (Nat.lt_succ_self _), hnext, hcount, hmajor,
    hminor, hnone]
  cases hcall : __fwkRegisterChrdev kmalloc s at24cxxDrviverMajor 0 1 with
  | mk sprtChrdev s' =>
    cases sprtChrdev with
    | none =>
      -- there is nothing to roll back
      simp only [fwkUnregisterChrdev_zero, bind, Except.bind]
    | some dev => exact registerLoop_done (Nat.le_refl _)

/-- **The registration** is refused, or the entry is in front of the list. -/
theorem register_cases (kmalloc : Bool) (s : Chrdevs) :
    ((kmalloc = false ∨ MinorTaken s) ∧
        fwkRegisterChrdev (fun _ => kmalloc) s at24cxxDevnum 1 = .ok (-erFaild, s)) ∨
      (¬ (kmalloc = false ∨ MinorTaken s) ∧
        fwkRegisterChrdev (fun _ => kmalloc) s at24cxxDevnum 1 = .ok (erNormal, withEntry s)) := by
  have hslot : (eepromSlot : Nat) = at24cxxDrviverMajor := by decide
  have hpick : (if at24cxxDrviverMajor = 0 then emptyMajor s deviceMaxNum
      else some at24cxxDrviverMajor) = some (eepromSlot : Nat) := by
    rw [if_neg (by decide), hslot]
  have hentry : (⟨eepromSlot, 0, 1⟩ : FwkCharDevice) = eepromEntry := by decide
  rw [register_eq]
  have hrefuse : kmalloc = false ∨ insertChrdev eepromEntry (s eepromSlot) = none →
      __fwkRegisterChrdev kmalloc s at24cxxDrviverMajor 0 1 = (none, s) := by
    intro h
    rw [← hentry] at h
    exact registerEntry_refused Nat.one_pos hpick h
  rcases insertChrdev_first (s eepromSlot) with ⟨htaken, hinsert⟩ | ⟨hfree, hinsert⟩
  · rw [hrefuse (Or.inr hinsert)]
    exact Or.inl ⟨Or.inr htaken, rfl⟩
  · cases kmalloc with
    | false =>
      rw [hrefuse (Or.inl rfl)]
      exact Or.inl ⟨Or.inl rfl, rfl⟩
    | true =>
      rw [← hentry] at hinsert
      rw [registerEntry_entered Nat.one_pos hpick hinsert, hentry]
      exact Or.inr ⟨fun h => h.elim Bool.noConfusion hfree, rfl⟩

/-! ## What stays -/

section Runs

variable {root : Nat} {t : DeviceTree} {nodeName : ObjPtr → List Char} {mem : ProbeMem}
  {client : FwkI2cClient} {s s' : EepromSystem} {retval : Int}

theorem probeFail2_eq (s : EepromSystem) : probeFail2 s = .ok (-erError, s) := by
  rw [probeFail2, fwkUnregisterChrdev_zero]
  rfl

theorem probeFail4_chrdevs {sprtCdev : FwkCdev} (h : probeFail4 sprtCdev s = .ok (retval, s')) :
    retval = -erError ∧ s'.chrdevs = s.chrdevs := by
  obtain ⟨⟨code, map⟩, -, hrest⟩ := except_bind.mp h
  have hfail : probeFail2 { s with map } = .ok (retval, s') := hrest
  rw [probeFail2_eq] at hfail
  cases hfail
  exact ⟨rfl, rfl⟩

/-- **Whatever happens** behind the registration, the registry stays. -/
theorem probeRegistered_chrdevs {info : At24cxxDrvInfo}
    (h : probeRegistered root nodeName mem client info s = .ok (retval, s')) :
    s'.chrdevs = s.chrdevs := by
  unfold probeRegistered at h
  -- every way out ends in `fail2` or `fail4`, and these unregister no numbers
  by_cases hcdev : (!isValid (fwkCdevAlloc mem.cdev).addr) = true
  · simp only [hcdev, if_true, probeFail2_eq] at h
    cases h
    rfl
  rcases hadd : fwkCdevAdd mem.probes s.map (fwkCdevAlloc mem.cdev) at24cxxDevnum 1 with
    ⟨code, sprtCdev, map⟩
  simp only [hcdev, hadd] at h
  by_cases hcode : code ≠ 0
  · simp only [ne_eq, hcode, not_false_eq_true, if_true, probeFail2_eq] at h
    cases h
    rfl
  simp only [hcode, if_false] at h
  cases hnode : client.sprtNode with
  | none =>
    rw [hnode] at h
    cases h
  | some n =>
    rw [hnode] at h
    obtain ⟨⟨sprtIdev, devs⟩, -, hrest⟩ := except_bind.mp h
    cases sprtIdev with
    | error code => exact (probeFail4_chrdevs hrest).2
    | ok sprtIdev =>
      cases hrest
      rfl

/-- **Removing** the driver leaves the registry as it is. -/
theorem remove_chrdevs (h : at24cxxDriverRemove root s = .ok (retval, s')) :
    s'.chrdevs = s.chrdevs := by
  unfold at24cxxDriverRemove at h
  cases hdata : s.clientData with
  | none =>
    rw [hdata] at h
    cases h
  | some sprtInfo =>
    rw [hdata] at h
    obtain ⟨⟨_, devs⟩, -, h⟩ := except_bind.mp h
    obtain ⟨⟨_, map⟩, -, h⟩ := except_bind.mp h
    obtain ⟨chrdevs, hunregister, h⟩ := except_bind.mp h
    -- it unregisters a count of 0
    rw [fwkUnregisterChrdev_zero] at hunregister
    cases hunregister
    cases h
    rfl

/-- No memory, or a number that is taken. -/
def NeverRegisters (mem : ProbeMem) (s : Chrdevs) : Prop :=
  isValid mem.info = false ∨ mem.chrdev = false ∨ MinorTaken s

theorem propertyOr_returns (t : DeviceTree) (sprtNode : Option ObjPtr) (ptrName : List UInt8)
    (value : Nat) : ∃ result, propertyOr t sprtNode ptrName value = .ok result := by
  rw [propertyOr, fwkOfPropertyReadU32_eq]
  exact ⟨_, rfl⟩

/-- **The probe** fails and changes nothing, or the number is registered and stays so. -/
theorem probe_cases (root : Nat) (t : DeviceTree) (nodeName : ObjPtr → List Char) (mem : ProbeMem)
    (client : FwkI2cClient) (s : EepromSystem) :
    (NeverRegisters mem s.chrdevs ∧ ∃ retval, retval ≠ erNormal ∧
        at24cxxDriverProbe root t nodeName mem client s = .ok (retval, s)) ∨
      (¬ NeverRegisters mem s.chrdevs ∧ ∀ retval s',
        at24cxxDriverProbe root t nodeName mem client s = .ok (retval, s') →
          s'.chrdevs = withEntry s.chrdevs) := by
  unfold at24cxxDriverProbe NeverRegisters
  by_cases hinfo : isValid mem.info = false
  · rw [hinfo]
    exact Or.inl ⟨Or.inl rfl, -erNomem, by decide, rfl⟩
  obtain ⟨pageSize, hpageSize⟩ :=
    propertyOr_returns t client.sprtNode (cstring "page_size") at24c01PageSize
  obtain ⟨pages, hpages⟩ := propertyOr_returns t client.sprtNode (cstring "pages") at24c01PageCount
  rw [if_neg (by simpa using hinfo)]
  simp only [hpageSize, hpages, hinfo, Bool.true_eq_false, false_or, bind, Except.bind]
  rcases register_cases mem.chrdev s.chrdevs with ⟨hrefused, hreg⟩ | ⟨hfree, hreg⟩
  · rw [hreg]
    exact Or.inl ⟨hrefused, -erError, by decide, rfl⟩
  · rw [hreg]
    refine Or.inr ⟨hfree, fun retval s' h => ?_⟩
    exact probeRegistered_chrdevs h

/-! ## Undoing -/

/-- A probe that fails leaves the registry as it was, and after one that succeeds removing the
driver does. -/
def Undone (root : Nat) (t : DeviceTree) (nodeName : ObjPtr → List Char) (mem : ProbeMem)
    (client : FwkI2cClient) (s : EepromSystem) : Prop :=
  ∃ retval s', at24cxxDriverProbe root t nodeName mem client s = .ok (retval, s') ∧
    if retval = erNormal then
      ∃ retval' s'', at24cxxDriverRemove root s' = .ok (retval', s'') ∧ s''.chrdevs = s.chrdevs
    else s'.chrdevs = s.chrdevs

/-- What has come to the registry is not undone. -/
theorem not_undone (hfree : ¬ NeverRegisters mem s.chrdevs) :
    ¬ Undone root t nodeName mem client s := by
  rintro ⟨retval, s', hprobe, hundone⟩
  rcases probe_cases root t nodeName mem client s with ⟨hnever, -⟩ | ⟨-, hentry⟩
  · exact hfree hnever
  have hwith := hentry retval s' hprobe
  by_cases hret : retval = erNormal
  · rw [if_pos hret] at hundone
    obtain ⟨retval', s'', hremove, hsame⟩ := hundone
    apply withEntry_ne s.chrdevs
    rw [← hwith, ← remove_chrdevs hremove, hsame]
  · rw [if_neg hret] at hundone
    apply withEntry_ne s.chrdevs
    rw [← hwith, hundone]

/-- **When it is undone.**  From every registry, map and tree: exactly if the number is not
registered in the first place. -/
theorem at24cxx_undone_iff (root : Nat) (t : DeviceTree) (nodeName : ObjPtr → List Char)
    (mem : ProbeMem) (client : FwkI2cClient) (s : EepromSystem) :
    Undone root t nodeName mem client s ↔ NeverRegisters mem s.chrdevs := by
  constructor
  · intro hundone
    by_contra hfree
    exact not_undone hfree hundone
  · intro hnever
    rcases probe_cases root t nodeName mem client s with ⟨-, retval, hret, hprobe⟩ | ⟨hfree, -⟩
    · refine ⟨retval, s, hprobe, ?_⟩
      rw [if_neg hret]
    · exact absurd hnever hfree

/-- The first attempt is the last: once a probe has registered the number, no later probe succeeds,
from what it has left or after the driver was removed. -/
theorem later_probe_refused (hfree : ¬ NeverRegisters mem s.chrdevs)
    (hprobe : at24cxxDriverProbe root t nodeName mem client s = .ok (retval, s'))
    {later : EepromSystem}
    (hlater : later = s' ∨ ∃ retval', at24cxxDriverRemove root s' = .ok (retval', later))
    (mem' : ProbeMem) : ∃ retval', retval' ≠ erNormal ∧
      at24cxxDriverProbe root t nodeName mem' client later = .ok (retval', later) := by
  have hregistered : later.chrdevs = withEntry s.chrdevs := by
    rcases probe_cases root t nodeName mem client s with ⟨hnever, -⟩ | ⟨-, hentry⟩
    · exact absurd hnever hfree
    · rcases hlater with rfl | ⟨retval', hremove⟩
      · exact hentry _ _ hprobe
      · rw [remove_chrdevs hremove, hentry _ _ hprobe]
  have hnever : NeverRegisters mem' later.chrdevs := by
    rw [hregistered]
    exact Or.inr (Or.inr (withEntry_taken _))
  rcases probe_cases root t nodeName mem' client later with ⟨-, hrefused⟩ | ⟨hfree', -⟩
  · exact hrefused
  · exact absurd hnever hfree'

end Runs

/-- Nothing is registered, and there are no devices. -/
def bareSystem : EepromSystem where
  chrdevs := fwkChrdevInit
  map := fwkKobjmapInit
  devs :=
    { tree := fwkKobjectRootInit 0x8000
      inode := fun _ => none
      cfg := ⟨fun _ => blankDevice, fun _ => ⟨[], [], [], false, false, false⟩, fun _ => []⟩
      bus := ⟨[], [], [], fun _ => none, fun _ => none, fun _ => 0, []⟩ }
  clientData := none

/-- There is memory for the info and for the entry of the registry, and no more. -/
def shortMem : ProbeMem :=
  ⟨0x9000, true, 0, 0, ⟨false, fun _ => ⟨0, false, false, false⟩, 0, false⟩⟩

/-- The probe fails at the `struct fwk_cdev`, and the entry stays. -/
theorem failed_probe_keeps_number :
    ¬ Undone 0x8000 (listTree threeStringsProp) (fun _ => ['e']) shortMem
      ⟨0x50, ['e'], 0, true, some ⟨0x63000, by decide⟩⟩ bareSystem := by
  apply not_undone
  rintro (hinfo | hmemory | ⟨dev, hhead, -⟩)
  · exact absurd hinfo (by decide)
  · cases hmemory
  · cases hhead

end HeavenFox.Drivers
