/-
# HeavenFox.Platform.Pinctrl -- who has which pin control object

`fwk_pinctrl.c`: a device that is bound and a controller that is registered both keep a
`struct fwk_pinctrl` that was made for the device from its `pinctrl-0`, `pinctrl-1`, ...
properties.  There is one for each device, found again by the device, and no count of its users.

What owns what (`PinctrlOwners`) is kept apart from what is made out of the device tree
(`PinctrlWork`), which the walks through the tree change alone.
-/
import HeavenFox.Common.ErrorTypes
import HeavenFox.Logic.Run

namespace HeavenFox.Platform

open HeavenFox.Common HeavenFox.Logic

/-! ## Objects -/

/-- The part of a `struct fwk_pinctrl_desc` that is looked at: whether its three tables of operations are
there, and which operations are in them. -/
structure PinctrlDesc where
  ops : Bool
  dtNodeToMap : Bool
  setMux : Bool
  pinConfigSet : Bool

/-- A `struct fwk_pinctrl_dev`. -/
structure PinctrlDev where
  sprtDesc : PinctrlDesc
  sprtDev : Nat
  sprtPctl : Option Nat
  sprtHogDefault : Option Nat
  sprtHogSleep : Option Nat

/-- A `struct fwk_pinctrl_dev_info`; a state stands for its place in the list of states. -/
structure PinctrlDevInfo where
  sprtDev : Option Nat
  sprtPctl : Nat
  sprtDefault : Option Nat
  sprtIdle : Option Nat
  sprtSleep : Option Nat

/-- A `struct fwk_pinctrl_map`; the data of its type goes to the driver unread. -/
structure PinctrlMap where
  devName : List Char
  name : List Char
  type : Nat
  ctrlDevName : List Char

/-- A `struct fwk_pinctrl_maps`. -/
structure PinctrlMaps where
  addr : Nat
  sprtMaps : List PinctrlMap

/-- A `struct fwk_pinctrl_dt_map`. -/
structure PinctrlDtMap where
  sprtPctldev : Nat
  sprtMaps : Nat

/-- A `struct fwk_pinctrl_setting`. -/
structure PinctrlSetting where
  type : Nat
  sprtPctldev : Nat

/-- A `struct fwk_pinctrl_state`. -/
structure PinctrlState where
  name : List Char
  sgrtSettings : List PinctrlSetting

/-- Who has what: the info of every device, the infos, the registered controllers and their list, the
device of every `struct fwk_pinctrl` and the list of these; and what is allocated. -/
structure PinctrlOwners where
  sprtPctlinfo : Nat → Option Nat
  info : Nat → PinctrlDevInfo
  infoLive : Nat → Bool
  pctldev : Nat → PinctrlDev
  pctldevLive : Nat → Bool
  pctldevList : List Nat
  sprtDev : Nat → Nat
  pctlLive : Nat → Bool
  pctlList : List Nat

/-- The states of every `struct fwk_pinctrl`, its current one, its maps and all maps; and how often the
allocator and the drivers were asked. -/
structure PinctrlWork where
  sgrtStates : Nat → List PinctrlState
  sprtState : Nat → Option Nat
  sgrtDtMaps : Nat → List PinctrlDtMap
  mapList : List PinctrlMaps
  asked : Nat

structure Pinctrls where
  own : PinctrlOwners
  work : PinctrlWork

/-- A property `pinctrl-N`: its length and the handles in it. -/
structure PinctrlProp where
  lenth : Nat
  phandle : Nat → Nat

/-- The devices: their nodes and names, and of the device tree their `pinctrl-N` properties up to the
first that is missing, their `pinctrl-names`, and the node of every handle with those above it. -/
structure PinctrlTable where
  sprtNode : Nat → Nat
  devName : Nat → List Char
  props : Nat → List PinctrlProp
  pinctrlNames : Nat → Option (List (List Char))
  parents : Nat → Option (List Nat)

/-- What the allocator and the drivers answer, by the number of the question; and what the variable for
the name of a state holds before it is set. -/
structure PinctrlReplies where
  kzalloc : Nat → Nat
  stateName : Option (List Char)
  dtNodeToMap : Nat → Option (List Nat)
  call : Nat → Int

def stateDefault : List Char := ['d', 'e', 'f', 'a', 'u', 'l', 't']
def stateIdle : List Char := ['i', 'd', 'l', 'e']
def stateSleep : List Char := ['s', 'l', 'e', 'e', 'p']
def stateDummy : List Char := ['<', 'd', 'u', 'm', 'm', 'y', '>']

namespace PinctrlWork

def ask (w : PinctrlWork) : PinctrlWork := { w with asked := w.asked + 1 }

def setStates (w : PinctrlWork) (p : Nat) (states : List PinctrlState) : PinctrlWork :=
  { w with sgrtStates := Function.update w.sgrtStates p states }

def setDtMaps (w : PinctrlWork) (p : Nat) (maps : List PinctrlDtMap) : PinctrlWork :=
  { w with sgrtDtMaps := Function.update w.sgrtDtMaps p maps }

def setCurrent (w : PinctrlWork) (p : Nat) (i : Option Nat) : PinctrlWork :=
  { w with sprtState := Function.update w.sprtState p i }

end PinctrlWork

variable (cfg : PinctrlTable) (re : PinctrlReplies) (own : PinctrlOwners)

/-! ## Releasing -/

/-- `fwk_pinctrl_map_free`: the controller is asked how to release a map. -/
def fwkPinctrlMapFree (d : Nat) (maps : List PinctrlMap) : Except Stop Unit :=
  if maps = [] then .ok () else if own.pctldevLive d then .ok () else .error .fault

/-- `fwk_pinctrl_maps_free`. -/
def fwkPinctrlMapsFree (w : PinctrlWork) (d addr : Nat) : Except Stop PinctrlWork :=
  match w.mapList.find? fun maps => maps.addr = addr with
  | none => .error .fault
  | some maps => do
    fwkPinctrlMapFree own d maps.sprtMaps
    .ok { w with mapList := w.mapList.filter fun maps => maps.addr ≠ addr }

/-- The loop of `fwk_pinctrl_free` over the maps. -/
def freeDtMaps : List PinctrlDtMap → PinctrlWork → Except Stop PinctrlWork
  | [], w => .ok w
  | dt :: rest, w => do freeDtMaps rest (← fwkPinctrlMapsFree own w dt.sprtPctldev dt.sprtMaps)

/-- `fwk_pinctrl_free`. -/
def fwkPinctrlFree (w : PinctrlWork) (p : Nat) : Except Stop PinctrlWork := do
  let w := w.setStates p []
  let w ← freeDtMaps own (w.sgrtDtMaps p) w
  .ok (w.setDtMaps p [])

/-! ## Making states -/

/-- `fwk_get_pinctrl_dev_from_node`. -/
def fwkGetPinctrlDevFromNode (node : Nat) : Option Nat :=
  own.pctldevList.find? fun d => cfg.sprtNode (own.pctldev d).sprtDev = node

/-- `fwk_get_pinctrl_dev_from_name`. -/
def fwkGetPinctrlDevFromName (name : List Char) : Option Nat :=
  own.pctldevList.find? fun d => cfg.devName (own.pctldev d).sprtDev = name

/-- `fwk_pinctrl_find_state`. -/
def fwkPinctrlFindState (w : PinctrlWork) (p : Nat) (name : List Char) : Option Nat :=
  (w.sgrtStates p).findIdx? fun state => state.name = name

/-- What `state_name` holds after `fwk_of_property_read_string_index`: null without the property, and
what it held before where the property has no such entry. -/
def readStateName (names : Option (List (List Char))) (idx : Nat) (held : Option (List Char)) :
    Option (List Char) :=
  names.bind fun list => list[idx]?.or held

/-- The loop of `fwk_pinctrl_create_state` over the handles, `name` being the name of the maps: whether
it came to its end. -/
def createGroups (p : Nat) (name : List Char) :
    List Nat → PinctrlWork → Except Stop (Bool × PinctrlWork)
  | [], w => .ok (true, w)
  | phandle :: rest, w =>
    match (cfg.parents phandle).bind fun nodes => nodes.findSome? (fwkGetPinctrlDevFromNode cfg own) with
    | none => .ok (false, w)
    | some d =>
      if !(own.pctldev d).sprtDesc.dtNodeToMap then .ok (false, w)
      else
        match re.dtNodeToMap w.asked with
        | none => .ok (false, w.ask)
        | some types => do
          let w := w.ask
          let maps : List PinctrlMap := types.map fun type =>
            ⟨cfg.devName (own.sprtDev p), name, type, cfg.devName (own.pctldev d).sprtDev⟩
          let addr := re.kzalloc w.asked
          let w := w.ask
          if !isValid addr then
            fwkPinctrlMapFree own d maps
            .ok (false, w)
          else
            let made : PinctrlMaps := ⟨addr, maps⟩
            let w := { w with mapList := w.mapList ++ [made] }
            let dtMaps := re.kzalloc w.asked
            let w := w.ask
            if !isValid dtMaps then .ok (false, ← fwkPinctrlMapsFree own w d addr)
            else
              let dt : PinctrlDtMap := ⟨d, addr⟩
              createGroups p name rest (w.setDtMaps p (w.sgrtDtMaps p ++ [dt]))

/-- `fwk_pinctrl_create_state`. -/
def fwkPinctrlCreateState (w : PinctrlWork) (p : Nat) (prop : PinctrlProp)
    (stateName : Option (List Char)) : Except Stop (Option PinctrlState × PinctrlWork) := do
  let name := if prop.lenth ≠ 0 then stateName.getD stateDummy else stateDummy
  let (done, w) ← createGroups cfg re own p name
    ((List.range (prop.lenth / 4)).map prop.phandle) w
  if !done then .ok (none, ← fwkPinctrlFree own w p)
  else if !isValid (re.kzalloc w.asked) then .ok (none, ← fwkPinctrlFree own w.ask p)
  else .ok (some ⟨name, []⟩, w.ask)

/-- Whether a state has the name already; a null name is compared with those of the states. -/
def hasState (w : PinctrlWork) (p : Nat) : Option (List Char) → Except Stop Bool
  | some name => .ok (fwkPinctrlFindState w p name).isSome
  | none => if w.sgrtStates p = [] then .ok false else .error .fault

/-- The loop of `fwk_pinctrl_add_state` from `pinctrl-idx` on, `held` being in `state_name`. -/
def addStateLoop (p : Nat) :
    Nat → Option (List Char) → List PinctrlProp → PinctrlWork → Except Stop (Int × PinctrlWork)
  | idx, _, [], w => do
    if idx = 0 then .ok (-erFaild, ← fwkPinctrlFree own w p) else .ok (erNormal, w)
  | idx, held, prop :: rest, w => do
    let stateName := readStateName (cfg.pinctrlNames (own.sprtDev p)) idx held
    if ← hasState w p stateName then addStateLoop p (idx + 1) stateName rest w
    else
      match ← fwkPinctrlCreateState cfg re own w p prop stateName with
      | (none, w) => .ok (-erFaild, ← fwkPinctrlFree own w p)
      | (some state, w) =>
        addStateLoop p (idx + 1) stateName rest (w.setStates p (w.sgrtStates p ++ [state]))

/-- `fwk_pinctrl_add_state`. -/
def fwkPinctrlAddState (w : PinctrlWork) (p : Nat) : Except Stop (Int × PinctrlWork) :=
  addStateLoop cfg re own p 0 re.stateName (cfg.props (own.sprtDev p)) w

/-- The loop of `fwk_pinctrl_add_setting` over all maps: whether it came to its end. -/
def addSettingLoop (p : Nat) : List PinctrlMap → PinctrlWork → Bool × PinctrlWork
  | [], w => (true, w)
  | map :: rest, w =>
    if map.devName ≠ cfg.devName (own.sprtDev p) then addSettingLoop p rest w
    else
      match fwkPinctrlFindState w p map.name with
      | none => addSettingLoop p rest w
      | some i =>
        if !isValid (re.kzalloc w.asked) then (false, w.ask)
        else
          let w := w.ask
          match fwkGetPinctrlDevFromName cfg own map.ctrlDevName with
          | none => (false, w)
          | some d =>
            -- `fwk_pinmux_map_to_setting` and `fwk_pinconf_map_to_setting` ask the driver
            let known := decide (map.type = 0 ∨ map.type = 1)
            let retval := if known then re.call w.asked else 0
            let w := if known then w.ask else w
            if retval ≠ 0 then (false, w)
            else
              addSettingLoop p rest (w.setStates p ((w.sgrtStates p).modify i fun state =>
                { state with sgrtSettings := state.sgrtSettings ++ [⟨map.type, d⟩] }))

/-- `fwk_pinctrl_add_setting`. -/
def fwkPinctrlAddSetting (w : PinctrlWork) (p : Nat) : Except Stop (Int × PinctrlWork) := do
  if w.mapList.isEmpty then .ok (-erEmpty, w)
  else
    let (done, w) := addSettingLoop cfg re own p (w.mapList.flatMap PinctrlMaps.sprtMaps) w
    if done then .ok (erNormal, w) else .ok (-erFaild, ← fwkPinctrlFree own w p)

/-! ## Finding and making a `struct fwk_pinctrl` -/

/-- `fwk_find_pinctrl`. -/
def fwkFindPinctrl (dev : Nat) : Option Nat := own.pctlList.find? fun p => own.sprtDev p = dev

/-- `fwk_create_pinctrl`. -/
def fwkCreatePinctrl (s : Pinctrls) (dev : Nat) : Except Stop (Option Nat × Pinctrls) := do
  let p := re.kzalloc s.work.asked
  let w := s.work.ask
  if !isValid p then .ok (none, { s with work := w })
  else
    let made :=
      { s.own with
        sprtDev := Function.update s.own.sprtDev p dev
        pctlLive := Function.update s.own.pctlLive p true }
    let w := ((w.setStates p []).setDtMaps p []).setCurrent p none
    let (retval, w) ← fwkPinctrlAddState cfg re made w p
    let freed := { made with pctlLive := Function.update made.pctlLive p false }
    if retval ≠ 0 then .ok (none, ⟨freed, w⟩)
    else
      let (retval, w) ← fwkPinctrlAddSetting cfg re made w p
      if retval ≠ 0 then .ok (none, ⟨freed, ← fwkPinctrlFree made w p⟩)
      else .ok (some p, ⟨{ made with pctlList := made.pctlList ++ [p] }, w⟩)

/-- `fwk_pinctrl_get`. -/
def fwkPinctrlGet (s : Pinctrls) (dev : Nat) : Except Stop (Option Nat × Pinctrls) :=
  match fwkFindPinctrl s.own dev with
  | some p => .ok (some p, s)
  | none => fwkCreatePinctrl cfg re s dev

/-- `fwk_pinctrl_put`. -/
def fwkPinctrlPut (s : Pinctrls) (p : Nat) : Except Stop Pinctrls := do
  if !s.own.pctlLive p then .error .fault
  else
    let w ← fwkPinctrlFree s.own s.work p
    .ok ⟨{ s.own with
      pctlList := s.own.pctlList.erase p
      pctlLive := Function.update s.own.pctlLive p false }, w⟩

/-! ## States -/

/-- `fwk_pinctrl_lookup_state`. -/
def fwkPinctrlLookupState (w : PinctrlWork) (p : Nat) (stateName : List Char) : Option Nat :=
  match w.sprtState p with
  | some i =>
    if (w.sgrtStates p)[i]?.any fun state => state.name = stateName then some i
    else fwkPinctrlFindState w p stateName
  | none => fwkPinctrlFindState w p stateName

/-- The loop of `fwk_pinctrl_select_state` over the settings. -/
def selectLoop : List PinctrlSetting → PinctrlWork → Except Stop (Int × PinctrlWork)
  | [], w => .ok (0, w)
  | setting :: rest, w =>
    if !own.pctldevLive setting.sprtPctldev then .error .fault
    else
      let desc := (own.pctldev setting.sprtPctldev).sprtDesc
      if setting.type = 0 ∨ setting.type = 1 then
        let asks := if setting.type = 0 then desc.setMux else desc.pinConfigSet
        let retval := if asks then re.call w.asked else 0
        let w := if asks then w.ask else w
        if retval ≠ 0 then .ok (retval, w) else selectLoop rest w
      else .ok (-erFault, w)

/-- `fwk_pinctrl_select_state`. -/
def fwkPinctrlSelectState (w : PinctrlWork) (p i : Nat) : Except Stop (Int × PinctrlWork) :=
  if !own.pctlLive p then .error .fault
  else if w.sprtState p = some i then .ok (-erExisted, w)
  else
    match (w.sgrtStates p)[i]? with
    | none => .error .fault
    | some state => do
      let (retval, w) ← selectLoop re own state.sgrtSettings w
      if retval ≠ 0 then .ok (retval, w) else .ok (erNormal, w.setCurrent p (some i))

/-! ## Binding and registering -/

namespace Pinctrls

def ask (s : Pinctrls) : Pinctrls := { s with work := s.work.ask }

def setInfo (s : Pinctrls) (i : Nat) (info : PinctrlDevInfo) : Pinctrls :=
  { s with own := { s.own with info := Function.update s.own.info i info } }

def setInfoLive (s : Pinctrls) (i : Nat) (b : Bool) : Pinctrls :=
  { s with own := { s.own with infoLive := Function.update s.own.infoLive i b } }

def setPctlinfo (s : Pinctrls) (dev : Nat) (i : Option Nat) : Pinctrls :=
  { s with own := { s.own with sprtPctlinfo := Function.update s.own.sprtPctlinfo dev i } }

def setPctldev (s : Pinctrls) (d : Nat) (pctldev : PinctrlDev) : Pinctrls :=
  { s with own := { s.own with pctldev := Function.update s.own.pctldev d pctldev } }

/-- A new controller, at the end of their list. -/
def addPctldev (s : Pinctrls) (d : Nat) (pctldev : PinctrlDev) : Pinctrls :=
  { s with own := { s.own with
    pctldev := Function.update s.own.pctldev d pctldev
    pctldevList := s.own.pctldevList ++ [d]
    pctldevLive := Function.update s.own.pctldevLive d true } }

/-- Off the list of controllers, and freed. -/
def dropPctldev (s : Pinctrls) (d : Nat) : Pinctrls :=
  { s with own := { s.own with
    pctldevList := s.own.pctldevList.erase d
    pctldevLive := Function.update s.own.pctldevLive d false } }

end Pinctrls

/-- `fwk_pinctrl_bind_pins`. -/
def fwkPinctrlBindPins (s : Pinctrls) (dev : Nat) : Except Stop (Int × Pinctrls) := do
  let i := re.kzalloc s.work.asked
  if i = 0 then .ok (-erNomem, s.ask)
  else
    let (found, s) ← fwkPinctrlGet cfg re (s.ask.setInfoLive i true) dev
    match found with
    | none => .ok (-erError, s.setInfoLive i false)
    | some p =>
      let info : PinctrlDevInfo :=
        { sprtDev := none
          sprtPctl := p
          sprtDefault := none
          sprtIdle := fwkPinctrlLookupState s.work p stateIdle
          sprtSleep := fwkPinctrlLookupState s.work p stateSleep }
      let s := (s.setPctlinfo dev (some i)).setInfo i info
      match fwkPinctrlLookupState s.work p stateDefault with
      | none => .ok (erNormal, s)
      | some state => do
        let (retval, w) ← fwkPinctrlSelectState re s.own s.work p state
        let s := { s with work := w }
        if retval ≠ 0 then .ok (-erError, (← fwkPinctrlPut s p).setInfoLive i false)
        else .ok (erNormal, s.setInfo i { info with sprtDefault := some state })

/-- What `fwk_pinctrl_unbind_pins` selects before it lets go. -/
def unbindSelect (s : Pinctrls) (info : PinctrlDevInfo) : Except Stop Pinctrls :=
  match info.sprtSleep.or info.sprtIdle with
  | none => .ok s
  | some state => do
    let (_, w) ← fwkPinctrlSelectState re s.own s.work info.sprtPctl state
    .ok { s with work := w }

/-- `fwk_pinctrl_unbind_pins`. -/
def fwkPinctrlUnbindPins (s : Pinctrls) (dev : Nat) : Except Stop Pinctrls :=
  match s.own.sprtPctlinfo dev with
  | none => .ok s
  | some i =>
    if !s.own.infoLive i then .error .fault
    else do
      let s ← unbindSelect re s (s.own.info i)
      let s ← fwkPinctrlPut s (s.own.info i).sprtPctl
      .ok ((s.setInfoLive i false).setPctlinfo dev none)

/-- `fwk_pinctrl_register`: the controller, or null. -/
def fwkPinctrlRegister (s : Pinctrls) (desc : PinctrlDesc) (dev : Nat) :
    Except Stop (Option Nat × Pinctrls) := do
  let d := re.kzalloc s.work.asked
  if !desc.ops then .ok (none, s)
  else if !isValid d then .ok (none, s.ask)
  else
    let (found, s) ← fwkPinctrlGet cfg re (s.ask.addPctldev d ⟨desc, dev, none, none, none⟩) dev
    match found with
    | none => .ok (none, s.dropPctldev d)
    | some p =>
      let pctldev : PinctrlDev :=
        ⟨desc, dev, some p, none, fwkPinctrlLookupState s.work p stateSleep⟩
      let s := s.setPctldev d pctldev
      match fwkPinctrlLookupState s.work p stateDefault with
      | none => .ok (some d, s)
      | some state => do
        let (retval, w) ← fwkPinctrlSelectState re s.own s.work p state
        let s := { s with work := w }
        if retval ≠ 0 then .ok (none, (← fwkPinctrlPut s p).dropPctldev d)
        else .ok (some d, s.setPctldev d { pctldev with sprtHogDefault := some state })

/-- `fwk_pinctrl_unregister`. -/
def fwkPinctrlUnregister (s : Pinctrls) (d : Nat) : Except Stop Pinctrls := do
  if !s.own.pctldevLive d then .error .fault
  else
    match (s.own.pctldev d).sprtPctl with
    | none => .ok (s.dropPctldev d)
    | some p => .ok ((← fwkPinctrlPut s p).dropPctldev d)

end HeavenFox.Platform
