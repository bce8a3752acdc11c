/-
# HeavenFox.Platform.FwkDevice -- devices with a node in the tree

What a driver does for its users in `fwk_cdev.c` and `fwk_platform.c`: it maps its device numbers to
a `struct fwk_cdev`, and makes a device with a file under `/dev/`.  Such a device is on no bus, so
no driver is looked for.
-/
import HeavenFox.Platform.BusType
import HeavenFox.Platform.Kobject
import HeavenFox.Platform.Kobjmap

namespace HeavenFox.Platform

open HeavenFox.Common HeavenFox.Logic

/-! ## `fwk_cdev.c` -/

/-- A `struct fwk_cdev` and its address. -/
structure FwkCdev where
  addr : Nat
  devNum : Nat
  count : Nat
  deriving DecidableEq

/-- `fwk_cdev_alloc`; null if there is no memory. -/
def fwkCdevAlloc (kzalloc : Nat) : FwkCdev := ⟨if isValid kzalloc then kzalloc else 0, 0, 0⟩

/-- `fwk_cdev_add`; `kzalloc` is for the probes of the range. -/
def fwkCdevAdd (kzalloc : Nat) (map : FwkKobjMap) (sprtCdev : FwkCdev) (devNum count : Nat) :
    Int × FwkCdev × FwkKobjMap :=
  if !isValid sprtCdev.addr then (-erNomem, sprtCdev, map)
  else
    let (retval, map) := fwkKobjMap kzalloc map devNum count sprtCdev.addr
    (retval, { sprtCdev with devNum, count }, map)

/-- `fwk_cdev_del`. -/
def fwkCdevDel (map : FwkKobjMap) (sprtCdev : FwkCdev) : Except Stop (Int × FwkKobjMap) :=
  if !isValid sprtCdev.addr then .ok (-erNomem, map)
  else do
    let (_, map) ← fwkKobjUnmap map sprtCdev.devNum sprtCdev.count
    pure (erNormal, map)

/-! ## `fwk_platform.c` -/

/-- `FWK_PATH_DEVICE` -/
def fwkPathDevice : List Char := "/dev/".toList

/-- `FWK_PATH_SYS_DEVICE` -/
def fwkPathSysDevice : List Char := "/sys/".toList

/-- `NR_TYPE_CHRDEV` -/
abbrev nrTypeChrdev : Nat := 1

/-- The tree of kobjects with the type and the number in the inode of each file, and the devices. -/
structure DeviceTables where
  tree : Kobjects
  inode : Nat → Option (Nat × Nat)
  cfg : PlatTable
  bus : PlatformBus

/-- What the memory gives for a device: its name, the file, the `struct fwk_device`, and the copy of
the name in that. -/
structure DeviceMem where
  vasprintk : Bool
  kobj : Nat → KobjMem
  kzalloc : Nat
  setName : Bool

/-- A `struct fwk_device` from `kzalloc`. -/
def blankDevice : PlatDev where
  name := []
  driverOverride := none
  initName := none
  sprtBus := false
  sprtNode := 0

namespace DeviceTables

/-- `fwk_inode_set_ops`. -/
def fwkInodeSetOps (s : DeviceTables) (x type devNum : Nat) : DeviceTables :=
  { s with inode := Function.update s.inode x (some (type, devNum)) }

/-- A device is allocated at `x`. -/
def newDevice (s : DeviceTables) (x : Nat) : DeviceTables :=
  { s with
    cfg := { s.cfg with dev := Function.update s.cfg.dev x blankDevice }
    bus := { (s.bus.setDriver x none) with kobjName := Function.update s.bus.kobjName x none } }

/-- The name of a device is set, or deleted. -/
def setName (s : DeviceTables) (x : Nat) (name : Option (List Char)) : DeviceTables :=
  { s with bus := { s.bus with kobjName := Function.update s.bus.kobjName x name } }

/-- `fwk_kset_kobject_remove`. -/
def removeKobj (s : DeviceTables) (x : Nat) : DeviceTables :=
  { s with tree := fwkKsetKobjectRemove s.tree x, inode := Function.update s.inode x none }

end DeviceTables

/-- `fwk_find_kobject_by_path`, as an address. -/
def findKobj (root : Nat) (tree : Kobjects) (head : Option Nat) (path : List Char) :
    Except Stop Nat := do
  let found ← fwkFindKobjectByPath root tree head path
  pure (found.getD 0)

/-- `fwk_device_initial`; the kset that it sets is not read. -/
def fwkDeviceInitial (root : Nat) (tree : Kobjects) : Except Stop Int := do
  let sprtKobj ← findKobj root tree none fwkPathSysDevice
  if !isValid sprtKobj then pure (ptrErr sprtKobj)
  else
    let sprtKset := (mrtFwkKsetGet tree sprtKobj).getD 0
    if !isValid sprtKset then pure (ptrErr sprtKset) else pure erNormal

/-- The part of `fwk_device_create` behind the file: the device, or the way back from `fail2` on. -/
def createDevice (root : Nat) (mem : DeviceMem) (s : DeviceTables) (sprtKobj : Nat)
    (name : List Char) : Except Stop (Except Int Nat × DeviceTables) :=
  let sprtDev := mem.kzalloc
  if !isValid sprtDev then .ok (.error (-erFaild), s.removeKobj sprtKobj)
  else do
    let s := s.newDevice sprtDev
    let retval ← fwkDeviceInitial root s.tree
    if retval ≠ erNormal then pure (.error (-erFaild), s.removeKobj sprtKobj)
    else
      let s := s.setName sprtDev (if mem.setName then some name else none)
      -- the device has no bus, so no callback is called
      let (retval, bus) ← fwkDeviceAdd s.cfg (fun _ _ => erNormal) s.bus sprtDev
      if retval ≠ erNormal then
        pure (.error (-erFaild), ({ s with bus }.setName sprtDev none).removeKobj sprtKobj)
      else pure (.ok sprtDev, { s with bus })

/-- `fwk_device_create`; `name` is what the format makes. -/
def fwkDeviceCreate (root : Nat) (mem : DeviceMem) (s : DeviceTables) (type devNum : Nat)
    (name : List Char) : Except Stop (Except Int Nat × DeviceTables) := do
  let sprtParent ← findKobj root s.tree none fwkPathDevice
  if !isValid sprtParent then pure (.error (-erNotfound), s)
  else if !mem.vasprintk then pure (.error (-erNomem), s)
  else
    let (made, tree) ← fwkKobjectPopulate root mem.kobj s.tree (some sprtParent) name
    let s := { s with tree }
    match made with
    | .error _ => pure (.error (-erFaild), s)
    | .ok sprtKobj =>
      let sprtKobj := sprtKobj.getD 0
      if !isValid sprtKobj then pure (.error (-erFaild), s)
      else
        let s := if (s.tree.kobj sprtKobj).isDir then s else s.fwkInodeSetOps sprtKobj type devNum
        createDevice root mem s sprtKobj name

/-- `fwk_device_destroy`.  A device without a name is found nowhere. -/
def fwkDeviceDestroy (root : Nat) (s : DeviceTables) (sprtDev : Nat) :
    Except Stop (Int × DeviceTables) :=
  if sprtDev = 0 then .ok (-erNomem, s)
  else do
    let sprtParent ← findKobj root s.tree none fwkPathDevice
    if !isValid sprtParent then pure (-erNotfound, s)
    else
      let sprtKobj ← (fwkDevGetName s.cfg s.bus sprtDev).elim (.ok 0)
        (findKobj root s.tree (some sprtParent))
      if !isValid sprtKobj then pure (-erNotfound, s)
      else
        let (_, bus) ← fwkDeviceDel s.cfg s.bus sprtDev
        pure (erNormal, { s with bus }.removeKobj sprtKobj)

end HeavenFox.Platform
