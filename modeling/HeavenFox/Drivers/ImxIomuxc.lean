/-
# HeavenFox.Drivers.ImxIomuxc -- pins of a device tree

`imx-iomuxc.c` reads the functions of an IOMUX controller, their groups and the pins of the groups
from the device tree: the children of its node, their children, and six cells of `fsl,pins` for
each pin.  It builds one array for the functions, one of groups for each function and one of pins
for each group, and takes all of them down again when something is wrong.

The register offset in the first cell of a pin, divided by 4, is the number of the pin.  It is an
index into two tables that have `npins` entries: the resources that the parse fills, and the
descriptors that are read when a group is mapped.
-/
import HeavenFox.Logic.HeapTable
import HeavenFox.Platform.OfDevice

namespace HeavenFox.Drivers

open HeavenFox.Common HeavenFox.Logic HeavenFox.Platform

/-! ## Pins -/

/-- `srt_hal_imx_pin_t` -/
structure HalImxPin where
  muxBase : Nat
  padBase : Nat
  inputBase : Nat
  optBase : Nat
  muxData : Nat
  padData : Nat
  inputData : Nat
  deriving DecidableEq

/-- What `kzalloc` makes of it. -/
def HalImxPin.zero : HalImxPin := ⟨0, 0, 0, 0, 0, 0, 0⟩

/-- `IMX6UL_MUX_CONF_SIZE` -/
abbrev imx6ulMuxConfSize : Nat := 6

/-- `hal_imx_pin_attribute_init`; `opt_base` is left as it is. -/
def halImxPinAttributeInit (sprtCfg : HalImxPin) (base muxOffset padOffset inputOffset muxData
    inputData padData functionality : Nat) : HalImxPin :=
  { sprtCfg with
    muxBase := add32 base muxOffset
    muxData := (muxData &&& 0xf) ||| (functionality <<< 4) % 2 ^ 32
    padBase := add32 base padOffset
    padData
    inputBase := if inputOffset ≠ 0 then add32 base inputOffset else 0
    inputData }

/-- `hal_imx_pin_auto_init`. -/
def halImxPinAutoInit (sprtCfg : HalImxPin) (base : Nat) (ptrValue : List Nat)
    (functionality size : Nat) : HalImxPin :=
  if size ≠ imx6ulMuxConfSize then sprtCfg
  else
    halImxPinAttributeInit sprtCfg base (ptrValue.getD 0 0) (ptrValue.getD 1 0) (ptrValue.getD 2 0)
      (ptrValue.getD 3 0) (ptrValue.getD 4 0) (ptrValue.getD 5 0) functionality

/-- `IMX6UL_MUX_PIN_CONFIG_SION` -/
abbrev imx6ulMuxPinConfigSion : Nat := 0x40000000

/-- The configuration of a pin from its six cells. -/
def pinConf (sprtConf : HalImxPin) (value : List Nat) : HalImxPin :=
  let pad := value.getD 5 0
  if pad &&& imx6ulMuxPinConfigSion ≠ 0 then
    let value := value.set 5 (pad &&& (2 ^ 32 - 1 - imx6ulMuxPinConfigSion))
    halImxPinAutoInit sprtConf 0 value 1 imx6ulMuxConfSize
  else halImxPinAutoInit sprtConf 0 value 0 imx6ulMuxConfSize

/-! ## The driver data -/

/-- `struct imx_iomuxc_pin` -/
structure ImxIomuxcPin where
  pin : Nat
  sgrtPin : HalImxPin
  deriving DecidableEq

/-- `struct imx_iomuxc_pin_grp`; `name` is the node whose name it is. -/
structure ImxIomuxcPinGrp where
  name : Option ObjPtr
  sprtPin : Option (HeapTable ImxIomuxcPin)
  npins : Nat

/-- `struct imx_iomuxc_pin_func`; `name` is the node whose name it is. -/
structure ImxIomuxcPinFunc where
  name : Option ObjPtr
  sprtPingrps : Option (HeapTable ImxIomuxcPinGrp)
  ngrps : Nat

/-- `srt_imx_iomuxc_pin_res_t` -/
structure ImxIomuxcPinRes where
  muxBase : Nat
  confBase : Nat

/-- Entries from `kzalloc`. -/
def ImxIomuxcPin.zero : ImxIomuxcPin := ⟨0, HalImxPin.zero⟩

def ImxIomuxcPinGrp.zero : ImxIomuxcPinGrp := ⟨none, none, 0⟩

def ImxIomuxcPinFunc.zero : ImxIomuxcPinFunc := ⟨none, none, 0⟩

/-- The resources of the pins, and the blocks of the parse. -/
structure IomuxcMem (npins : Nat) where
  sprtPins : Fin npins → ImxIomuxcPinRes
  log : BlockLog

/-- `srt_imx_iomuxc_data_t`, what the parse uses of it: `npins` is the number of resources and
that of descriptors. -/
structure ImxIomuxcData (npins : Nat) where
  sprtPinfuncs : Option (HeapTable ImxIomuxcPinFunc)
  nfuncs : Nat
  mem : IomuxcMem npins

/-- As the probe of the driver makes it. -/
def ImxIomuxcData.fresh (npins : Nat) : ImxIomuxcData npins where
  sprtPinfuncs := none
  nfuncs := 0
  mem := ⟨fun _ => ⟨0, 0⟩, BlockLog.start⟩

/-- `sizeof(struct imx_iomuxc_pin)` -/
abbrev pinBytes : Nat := 32

/-- The size of a group and of a function. -/
abbrev grpBytes : Nat := 12

/-- `kzalloc` of `n` entries; the block has as many as there is room for in 32 bits of bytes. -/
def kzallocTable {α : Type} (granted : Nat → Bool) (n size : Nat) (zero : α) (log : BlockLog) :
    Option (HeapTable α × BlockLog) :=
  if granted log.count then
    some (⟨log.count, List.replicate (n * size % 2 ^ 32 / size) zero⟩, log.handOut)
  else none

/-! ## The tree -/

/-- A device tree with the links and the names of its nodes.  The nodes are objects in a memory of
32 bits, larger than a group and a function are. -/
structure IomuxcTree extends DeviceTree where
  child : ObjPtr → Option ObjPtr
  sibling : ObjPtr → Option ObjPtr
  name : ObjPtr → List UInt8
  linked : ∀ n ∈ allNodes, Siblings sibling (child n) (toDeviceTree.childrenOf n)
  room : allNodes.length * grpBytes < 2 ^ 32

/-- The loop of `fwk_of_get_child_count`. -/
def childCountLoop (t : IomuxcTree) : Nat → Option ObjPtr → Nat → Except Stop Nat
  | 0, _, _ => .error .spins
  | _ + 1, none, num => .ok num
  | rounds + 1, some sprtChild, num => childCountLoop t rounds (t.sibling sprtChild) (add32 num 1)

/-- `fwk_of_get_child_count`. -/
def fwkOfGetChildCount (t : IomuxcTree) (sprtNode : ObjPtr) : Except Stop Nat :=
  childCountLoop t walkRounds (t.child sprtNode) 0

/-- `foreach_fwk_of_child` with a cursor into an array; the body says whether to go on. -/
def fillChildren {α σ : Type} (t : IomuxcTree)
    (body : ObjPtr → α → σ → Except Stop (Bool × α × σ)) :
    Nat → Option ObjPtr → Nat → List α → σ → Except Stop (Bool × List α × σ)
  | 0, _, _, _, _ => .error .spins
  | _ + 1, none, _, table, s => .ok (true, table, s)
  | rounds + 1, some n, i, table, s => do
    let a ← getAt .fault table i
    let (on, a, s) ← body n a s
    let table ← putAt .fault table i a
    if on then fillChildren t body rounds (t.sibling n) (i + 1) table s else pure (false, table, s)

/-! ## The parse

The loops say whether they go on; where they do not, the source goes to `fail`. -/

section Parse

variable {npins : Nat} (t : IomuxcTree) (granted : Nat → Bool)

/-- The loop over the pins of a group. -/
def pinLoop (sprtGrp : ObjPtr) : Nat → Nat → List ImxIomuxcPin → IomuxcMem npins →
    Except Stop (Bool × List ImxIomuxcPin × IomuxcMem npins)
  | 0, _, sprtPin, mem => .ok (true, sprtPin, mem)
  | rounds + 1, idx, sprtPin, mem => do
    let (retval, value) ← fwkOfPropertyReadU32ArrayIndex t.toDeviceTree (some sprtGrp)
      (cstring "fsl,pins") (idx * imx6ulMuxConfSize % 2 ^ 32) imx6ulMuxConfSize
    if retval ≠ 0 then pure (false, sprtPin, mem)
    else do
      let entry ← getAt .fault sprtPin idx
      let sprtConf := pinConf entry.sgrtPin value
      let sprtPin ← putAt .fault sprtPin idx { entry with sgrtPin := sprtConf }
      let pin := sprtConf.muxBase >>> 2
      if pin > npins then pure (false, sprtPin, mem)
      else do
        let sprtPin ← putAt .fault sprtPin idx ⟨pin, sprtConf⟩
        -- the number that is equal to `npins` was let through
        if h : pin < npins then
          let res := ⟨sprtConf.muxBase, sprtConf.padBase⟩
          pinLoop sprtGrp rounds (idx + 1) sprtPin
            { mem with sprtPins := Function.update mem.sprtPins ⟨pin, h⟩ res }
        else .error .fault

/-- The body of the loop over the groups. -/
def parseGroup (sprtGrp : ObjPtr) (sprtPingrp : ImxIomuxcPinGrp) (mem : IomuxcMem npins) :
    Except Stop (Bool × ImxIomuxcPinGrp × IomuxcMem npins) :=
  let sprtPingrp := { sprtPingrp with name := some sprtGrp }
  let (sprtProp, propSize) := fwkOfFindProperty t.toDeviceTree (some sprtGrp) (cstring "fsl,pins")
  let propSize := propSize >>> 2
  if propSize = 0 ∨ sprtProp.isNone ∨ propSize % imx6ulMuxConfSize ≠ 0 then
    .ok (true, sprtPingrp, mem)
  else
    let n := propSize / imx6ulMuxConfSize
    match kzallocTable granted n pinBytes ImxIomuxcPin.zero mem.log with
    | none => .ok (false, sprtPingrp, mem)
    | some (sprtPin, log) => do
      let (on, entries, mem) ← pinLoop t sprtGrp n 0 sprtPin.entries { mem with log }
      pure (on, { sprtPingrp with sprtPin := some ⟨sprtPin.block, entries⟩, npins := n }, mem)

/-- The body of the loop over the functions. -/
def parseFunc (sprtFunc : ObjPtr) (sprtPinfunc : ImxIomuxcPinFunc) (mem : IomuxcMem npins) :
    Except Stop (Bool × ImxIomuxcPinFunc × IomuxcMem npins) := do
  let sprtPinfunc := { sprtPinfunc with name := some sprtFunc }
  let ngrps ← fwkOfGetChildCount t sprtFunc
  if ngrps = 0 then pure (true, sprtPinfunc, mem)
  else
    match kzallocTable granted ngrps grpBytes ImxIomuxcPinGrp.zero mem.log with
    | none => pure (false, sprtPinfunc, mem)
    | some (sprtPingrps, log) => do
      let (on, entries, mem) ← fillChildren t (parseGroup t granted) walkRounds (t.child sprtFunc) 0
        sprtPingrps.entries { mem with log }
      pure (on, { sprtPinfunc with ngrps, sprtPingrps := some ⟨sprtPingrps.block, entries⟩ }, mem)

/-- The blocks of the pins of a group are released. -/
def removeGroup (sprtPingrp : ImxIomuxcPinGrp) (log : BlockLog) : Except Stop BlockLog :=
  match sprtPingrp.sprtPin with
  | none => .ok log
  | some sprtPin => .ok (log.release [sprtPin.block])

/-- Those of the groups of a function. -/
def removeFunc (sprtPinfunc : ImxIomuxcPinFunc) (log : BlockLog) : Except Stop BlockLog :=
  match sprtPinfunc.sprtPingrps with
  | none => .ok log
  | some sprtPingrps => do
    let log ← eachEntry .fault removeGroup sprtPingrps.entries sprtPinfunc.ngrps 0 log
    pure (log.release [sprtPingrps.block])

/-- `imx_iomuxc_driver_remove_dt`. -/
def imxIomuxcDriverRemoveDt (data : ImxIomuxcData npins) : Except Stop (ImxIomuxcData npins) :=
  match data.sprtPinfuncs with
  | none => .ok data
  | some sprtPinfuncs => do
    let log ← eachEntry .fault removeFunc sprtPinfuncs.entries data.nfuncs 0 data.mem.log
    pure
      { sprtPinfuncs := none
        nfuncs := 0
        mem := ⟨fun _ => ⟨0, 0⟩, log.release [sprtPinfuncs.block]⟩ }

/-- `imx_iomuxc_driver_probe_dt`. -/
def imxIomuxcDriverProbeDt (sprtNode : ObjPtr) (data : ImxIomuxcData npins) :
    Except Stop (Int × ImxIomuxcData npins) := do
  let nfuncs ← fwkOfGetChildCount t sprtNode
  if nfuncs = 0 then pure (-erEmpty, data)
  else
    match kzallocTable granted nfuncs grpBytes ImxIomuxcPinFunc.zero data.mem.log with
    | none => pure (-erNomem, data)
    | some (sprtPinfuncs, log) => do
      let (on, entries, mem) ← fillChildren t (parseFunc t granted) walkRounds (t.child sprtNode) 0
        sprtPinfuncs.entries { data.mem with log }
      let data := { sprtPinfuncs := some ⟨sprtPinfuncs.block, entries⟩, nfuncs, mem }
      if on then pure (erNormal, data)
      else do
        let data ← imxIomuxcDriverRemoveDt data
        pure (-erError, data)

end Parse

/-! ## Mapping a group -/

/-- A `struct fwk_pinctrl_map`: the nodes whose names it has, or the descriptor that it has the
name of and the configuration. -/
inductive FwkPinctrlMap where
  | mux (function group : ObjPtr)
  | conf (pdesc padData : Nat)
  deriving DecidableEq

section Map

variable {npins : Nat} (t : IomuxcTree)

/-- The group, if it has the name. -/
def testGroup (name : List UInt8) (sprtPingrp : ImxIomuxcPinGrp) :
    Except Stop (Option ImxIomuxcPinGrp) :=
  match sprtPingrp.name with
  | none => .error .fault
  | some n => .ok (if t.name n = name then some sprtPingrp else none)

/-- The groups of a function. -/
def testFunc (name : List UInt8) (sprtPinfunc : ImxIomuxcPinFunc) :
    Except Stop (Option ImxIomuxcPinGrp) :=
  findEntry .fault (testGroup t name) (sprtPinfunc.sprtPingrps.elim [] HeapTable.entries)
    sprtPinfunc.ngrps 0

/-- `imx_iomuxc_get_group_by_name`. -/
def imxIomuxcGetGroupByName (data : ImxIomuxcData npins) (name : List UInt8) :
    Except Stop (Option ImxIomuxcPinGrp) :=
  findEntry .fault (testFunc t name) (data.sprtPinfuncs.elim [] HeapTable.entries) data.nfuncs 0

/-- The loop of `imx_iomuxc_dt_node_to_map`: `sprt_pdesc` has `npins` entries. -/
def mapLoop (npins : Nat) (sprtPingrp : ImxIomuxcPinGrp) :
    Nat → Nat → List FwkPinctrlMap → Except Stop (List FwkPinctrlMap)
  | 0, _, sprtMap => .ok sprtMap
  | rounds + 1, i, sprtMap => do
    let sprtPin ← getAt .fault (sprtPingrp.sprtPin.elim [] HeapTable.entries) i
    if sprtPin.pin < npins then
      mapLoop npins sprtPingrp rounds (i + 1)
        (sprtMap ++ [.conf sprtPin.pin sprtPin.sgrtPin.padData])
    else .error .fault

/-- `imx_iomuxc_dt_node_to_map`; `kzalloc` is whether there is memory for the map. -/
def imxIomuxcDtNodeToMap (kzalloc : Bool) (data : ImxIomuxcData npins) (sprtNode : ObjPtr) :
    Except Stop (Int × List FwkPinctrlMap) := do
  match ← imxIomuxcGetGroupByName t data (t.name sprtNode) with
  | none => pure (-erNotfound, [])
  | some sprtPingrp =>
    if !kzalloc then pure (-erNomem, [])
    else
      match (t.node sprtNode).parent with
      | none => .error .fault
      | some sprtParent => do
        let sprtMap ← mapLoop npins sprtPingrp sprtPingrp.npins 0 [.mux sprtParent sprtNode]
        pure (erNormal, sprtMap)

end Map

end HeavenFox.Drivers
