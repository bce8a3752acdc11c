/-
# HeavenFox.Platform.BusType -- the platform bus

`fwk_platform.c`, `fwk_platdev.c` and `fwk_platdrv.c`: devices and drivers on one bus.  A device
that is added looks for the first driver that accepts it, a driver that is registered takes every
device that has none and that it accepts.

A failed probe is answered with `-ER_PERMIT`, and the device keeps the driver that was set before
the probe.
-/
import HeavenFox.Common.ErrorTypes
import HeavenFox.Logic.Run

namespace HeavenFox.Platform

open HeavenFox.Common HeavenFox.Logic

/-! ## Devices and drivers -/

/-- A `struct fwk_platdev` with what is fixed of its `struct fwk_device`. -/
structure PlatDev where
  name : List Char
  driverOverride : Option (List Char)
  initName : Option (List Char)
  /-- Whether `sprt_bus` is the platform bus, or null. -/
  sprtBus : Bool
  sprtNode : Nat

/-- A `struct fwk_platdrv` with what is fixed of its `struct fwk_driver`; of the callbacks, whether
they are there. -/
structure PlatDrv where
  name : List Char
  sprtOfMatchTable : List (List Char)
  sprtIdTable : List (List Char)
  sprtBus : Bool
  probe : Bool
  remove : Bool

/-- The devices and drivers by their addresses, and the strings in the `compatible` property of
every node. -/
structure PlatTable where
  dev : Nat → PlatDev
  drv : Nat → PlatDrv
  compatible : Nat → List (List Char)

/-- What was done to a device: a driver was set, its `probe` was called and returned, its `remove`
was called, and the driver was taken off again. -/
inductive BusEvent where
  | matched (dev drv : Nat)
  | probe (dev drv : Nat) (retval : Int)
  | remove (dev drv : Nat)
  | released (dev drv : Nat)
  deriving DecidableEq, Repr

/-- The lists of the bus, the list of all devices, what changes in devices and drivers, and what was
done so far. -/
structure PlatformBus where
  devices : List Nat
  drivers : List Nat
  leaves : List Nat
  sprtDriver : Nat → Option Nat
  kobjName : Nat → Option (List Char)
  numMatches : Nat → Int
  events : List BusEvent

namespace PlatformBus

def setDriver (s : PlatformBus) (x : Nat) (d : Option Nat) : PlatformBus :=
  { s with sprtDriver := Function.update s.sprtDriver x d }

def setMatches (s : PlatformBus) (d : Nat) (n : Int) : PlatformBus :=
  { s with numMatches := Function.update s.numMatches d n }

def log (s : PlatformBus) (e : BusEvent) : PlatformBus := { s with events := s.events ++ [e] }

end PlatformBus

/-! ## Matching -/

/-- `fwk_of_device_is_compatible`. -/
def fwkOfDeviceIsCompatible (cfg : PlatTable) (node : Nat) (compat : List Char) : Bool :=
  (cfg.compatible node).any fun info => info == compat

/-- `fwk_of_node_try_matches`. -/
def fwkOfNodeTryMatches (cfg : PlatTable) (node : Nat) (table : List (List Char)) : Nat :=
  if !isValid node then 0
  else if table.any fun compat => fwkOfDeviceIsCompatible cfg node compat then node else 0

/-- `fwk_platform_match`. -/
def fwkPlatformMatch (cfg : PlatTable) (x d : Nat) : Int :=
  match (cfg.dev x).driverOverride with
  | some override => if override = (cfg.drv d).name then erNormal else -erFaild
  | none =>
    let np := fwkOfNodeTryMatches cfg (cfg.dev x).sprtNode (cfg.drv d).sprtOfMatchTable
    if isValid np && decide ((cfg.dev x).sprtNode = np) then erNormal
    else if (cfg.drv d).sprtIdTable.any fun name => (cfg.dev x).name == name then erNormal
    else if (cfg.dev x).name = (cfg.drv d).name then erNormal
    else -erNotfound

/-- `fwk_platform_probe`; `ret` is what the callbacks return. -/
def fwkPlatformProbe (cfg : PlatTable) (ret : Nat → Nat → Int) (s : PlatformBus) (x : Nat) :
    Int × PlatformBus :=
  match s.sprtDriver x with
  | none => (-erNotfound, s)
  | some d =>
    if !(cfg.drv d).probe then (-erPermit, s)
    else if 0 > ret x d then (-erPermit, s.log (.probe x d (ret x d)))
    else (erNormal, s.log (.probe x d (ret x d)))

/-- `fwk_platform_remove`; its answer is not used. -/
def fwkPlatformRemove (cfg : PlatTable) (s : PlatformBus) (x : Nat) : PlatformBus :=
  match s.sprtDriver x with
  | none => s
  | some d => if (cfg.drv d).remove then s.log (.remove x d) else s

/-- `fwk_device_driver_probe`; the pins of the device are bound and unbound beside it. -/
def fwkDeviceDriverProbe (cfg : PlatTable) (ret : Nat → Nat → Int) (s : PlatformBus) (x : Nat) :
    Int × PlatformBus :=
  fwkPlatformProbe cfg ret s x

/-- `fwk_device_driver_match`. -/
def fwkDeviceDriverMatch (cfg : PlatTable) (ret : Nat → Nat → Int) (s : PlatformBus) (x d : Nat) :
    Int × PlatformBus :=
  if fwkPlatformMatch cfg x d < 0 then (-erNotfound, s)
  else fwkDeviceDriverProbe cfg ret ((s.setDriver x (some d)).log (.matched x d)) x

/-! ## Devices -/

/-- `fwk_dev_get_name`. -/
def fwkDevGetName (cfg : PlatTable) (s : PlatformBus) (x : Nat) : Option (List Char) :=
  match (cfg.dev x).initName with
  | some name => some name
  | none => s.kobjName x

/-- `fwk_device_find`: whether it is there, by address or by name. -/
def fwkDeviceFind (cfg : PlatTable) (s : PlatformBus) (x : Nat) : List Nat → Except Stop Bool
  | [] => .ok false
  | leaf :: rest =>
    if leaf = x then .ok true
    else
      match fwkDevGetName cfg s leaf, fwkDevGetName cfg s x with
      | some nameLeaf, some name => if nameLeaf = name then .ok true else fwkDeviceFind cfg s x rest
      | _, _ => .error .fault

/-- The loop of `fwk_device_attach`. -/
def attachLoop (cfg : PlatTable) (ret : Nat → Nat → Int) (x : Nat) :
    List Nat → PlatformBus → Int × PlatformBus
  | [], s => (-erPermit, s)
  | d :: rest, s =>
    let (retval, s) := fwkDeviceDriverMatch cfg ret s x d
    if retval = 0 ∨ retval = -erPermit then (erNormal, s) else attachLoop cfg ret x rest s

/-- `fwk_device_attach`. -/
def fwkDeviceAttach (cfg : PlatTable) (ret : Nat → Nat → Int) (s : PlatformBus) (x : Nat) :
    Int × PlatformBus :=
  if (s.sprtDriver x).isSome then (erNormal, s) else attachLoop cfg ret x s.drivers s

/-- `fwk_device_detach`. -/
def fwkDeviceDetach (cfg : PlatTable) (s : PlatformBus) (x : Nat) : PlatformBus :=
  match s.sprtDriver x with
  | none => s
  | some d =>
    let s := ((fwkPlatformRemove cfg s x).setDriver x none).log (.released x d)
    s.setMatches d (s.numMatches d - 1)

/-- `fwk_device_to_bus`. -/
def fwkDeviceToBus (cfg : PlatTable) (ret : Nat → Nat → Int) (s : PlatformBus) (x : Nat) :
    Int × PlatformBus :=
  let (retval, s) := fwkDeviceAttach cfg ret { s with devices := s.devices ++ [x] } x
  (if retval = 0 ∨ retval = -erPermit then erNormal else retval, s)

/-- `fwk_bus_del_device`. -/
def fwkBusDelDevice (cfg : PlatTable) (s : PlatformBus) (x : Nat) : PlatformBus :=
  let s := fwkDeviceDetach cfg s x
  { s with devices := s.devices.erase x }

/-- `fwk_device_add`. -/
def fwkDeviceAdd (cfg : PlatTable) (ret : Nat → Nat → Int) (s : PlatformBus) (x : Nat) :
    Except Stop (Int × PlatformBus) := do
  if ← fwkDeviceFind cfg s x s.leaves then .ok (-erExisted, s)
  else if (cfg.dev x).sprtBus then
    let (retval, s) := fwkDeviceToBus cfg ret (s.setDriver x none) x
    if retval ≠ erNormal then .ok (retval, s)
    else .ok (erNormal, { s with leaves := s.leaves ++ [x] })
  else .ok (erNormal, { s with leaves := s.leaves ++ [x] })

/-- `fwk_device_del`.  A device that is found by the name of another one is not on the list, and
`list_head_del` of it writes through whatever its links are. -/
def fwkDeviceDel (cfg : PlatTable) (s : PlatformBus) (x : Nat) :
    Except Stop (Int × PlatformBus) := do
  if ← fwkDeviceFind cfg s x s.leaves then
    let s := if (cfg.dev x).sprtBus then fwkBusDelDevice cfg s x else s
    let s := { s with kobjName := Function.update s.kobjName x none }
    if x ∈ s.leaves then .ok (erNormal, { s with leaves := s.leaves.erase x })
    else .error .fault
  else .ok (-erNotfound, s)

/-! ## Drivers -/

/-- The loop of `fwk_driver_attach`, with the devices matched so far and the last answer. -/
def driverAttachLoop (cfg : PlatTable) (ret : Nat → Nat → Int) (d : Nat) :
    List Nat → Int → Int → PlatformBus → Int × Int × PlatformBus
  | [], n, retval, s => (n, retval, s)
  | x :: rest, n, retval, s =>
    if (s.sprtDriver x).isSome then driverAttachLoop cfg ret d rest n retval s
    else
      let (retval, s) := fwkDeviceDriverMatch cfg ret s x d
      driverAttachLoop cfg ret d rest (if retval = 0 ∨ retval = -erPermit then n + 1 else n) retval s

/-- `fwk_driver_attach`. -/
def fwkDriverAttach (cfg : PlatTable) (ret : Nat → Nat → Int) (s : PlatformBus) (d : Nat) :
    Int × PlatformBus :=
  let (n, retval, s) := driverAttachLoop cfg ret d s.devices 0 0 s
  (if retval = -erNotfound ∨ n ≠ 0 then n else retval, s.setMatches d (s.numMatches d + n))

/-- The loop of `fwk_driver_detach`. -/
def driverDetachLoop (cfg : PlatTable) (d : Nat) : List Nat → PlatformBus → PlatformBus
  | [], s => s
  | x :: rest, s =>
    if s.sprtDriver x ≠ some d then driverDetachLoop cfg d rest s
    else
      let s := ((fwkPlatformRemove cfg s x).setDriver x none).log (.released x d)
      driverDetachLoop cfg d rest (s.setMatches d (s.numMatches d - 1))

/-- `fwk_driver_find`. -/
def fwkDriverFind (cfg : PlatTable) (s : PlatformBus) (d : Nat) : Bool :=
  s.drivers.any fun drv => (cfg.drv drv).name == (cfg.drv d).name

/-- `fwk_driver_register`. -/
def fwkDriverRegister (cfg : PlatTable) (ret : Nat → Nat → Int) (s : PlatformBus) (d : Nat) :
    Int × PlatformBus :=
  if !(cfg.drv d).sprtBus then (-erError, s)
  else if fwkDriverFind cfg s d then (-erError, s)
  else
    let s := s.setMatches d 0
    -- `fwk_driver_to_bus`
    fwkDriverAttach cfg ret { s with drivers := s.drivers ++ [d] } d

/-- `fwk_driver_unregister`. -/
def fwkDriverUnregister (cfg : PlatTable) (s : PlatformBus) (d : Nat) : Int × PlatformBus :=
  if !(cfg.drv d).sprtBus then (-erError, s)
  else if !fwkDriverFind cfg s d then (-erError, s)
  else
    -- `fwk_bus_del_driver`
    let s := driverDetachLoop cfg d s.devices s
    (erNormal, { s with drivers := s.drivers.erase d })

end HeavenFox.Platform
