/-
# HeavenFox.Platform.PinctrlStates -- the states that a device gets

A device tells its states by `pinctrl-0`, `pinctrl-1`, ... and `pinctrl-names`: one property for each
state, with one handle for each group of pins, and a controller makes maps of every group.  The maps go
to the list of all maps (`PinctrlGroup.block`), and each is turned into a setting of the state
whose name it has.  For any device with a name of its own these are the settings that the properties
ask for, state by state and group by group (`pinctrl_get_put`).
-/
import HeavenFox.Logic.Filing
import HeavenFox.Platform.PinctrlPool

namespace HeavenFox.Platform

open HeavenFox.Common HeavenFox.Logic

/-! ## What is asked for -/

/-- The handles of the groups. -/
def PinctrlProp.groups (prop : PinctrlProp) : List Nat :=
  (List.range (prop.lenth / 4)).map prop.phandle

/-- The controller that owns a group: the first one up from the node of the group. -/
def groupOwner (cfg : PinctrlTable) (own : PinctrlOwners) (phandle : Nat) : Option Nat :=
  (cfg.parents phandle).bind fun nodes => nodes.findSome? (fwkGetPinctrlDevFromNode cfg own)

/-- A group that a controller has made maps of, these being at an address. -/
structure PinctrlGroup where
  owner : Nat
  addr : Nat
  types : List Nat

namespace PinctrlGroup

/-- Its maps, in a state of the device. -/
def block (cfg : PinctrlTable) (own : PinctrlOwners) (devName name : List Char) (g : PinctrlGroup) :
    PinctrlMaps :=
  ⟨g.addr, g.types.map fun type => ⟨devName, name, type, cfg.devName (own.pctldev g.owner).sprtDev⟩⟩

def dtMap (g : PinctrlGroup) : PinctrlDtMap := ⟨g.owner, g.addr⟩

/-- Its settings: one for each map, with the type of the map. -/
def settings (g : PinctrlGroup) : List PinctrlSetting := g.types.map fun type => ⟨type, g.owner⟩

end PinctrlGroup

/-- A state by its name, and its groups. -/
abbrev PinctrlWanted := List Char × List PinctrlGroup

variable (re : PinctrlReplies) (owner : Nat → Nat) (types : Nat → List Nat)

/-- The groups of one property, the first being asked for by question `k`: the driver is asked, and the
allocator twice. -/
def wantedGroups : List Nat → Nat → List PinctrlGroup
  | [], _ => []
  | h :: hs, k => ⟨owner h, re.kzalloc (k + 1), types k⟩ :: wantedGroups hs (k + 3)

/-- The states, each with its groups; the allocator is asked once more for a state. -/
def wantedStates : List (List Char × PinctrlProp) → Nat → List PinctrlWanted
  | [], _ => []
  | (name, prop) :: rest, k =>
    (name, wantedGroups re owner types prop.groups k) ::
      wantedStates rest (k + 3 * prop.groups.length + 1)

/-- How many questions the settings take: the allocator's, and the driver's where the type is known. -/
def settingQuestions (types : List Nat) : Nat :=
  (types.map fun type => if type = 0 ∨ type = 1 then 2 else 1).sum

/-- How many questions the states take. -/
def stateQuestions (props : List PinctrlProp) : Nat :=
  (props.map fun prop => 3 * prop.groups.length + 1).sum

variable {re owner types}

theorem settingQuestions_cons (type : Nat) (types : List Nat) :
    settingQuestions (type :: types) =
      (if type = 0 ∨ type = 1 then 2 else 1) + settingQuestions types := by
  rw [settingQuestions, List.map_cons, List.sum_cons, settingQuestions]

theorem stateQuestions_cons (prop : PinctrlProp) (props : List PinctrlProp) :
    stateQuestions (prop :: props) = 3 * prop.groups.length + 1 + stateQuestions props := by
  rw [stateQuestions, List.map_cons, List.sum_cons, stateQuestions]

theorem names_wantedStates (plan : List (List Char × PinctrlProp)) (k : Nat) :
    (wantedStates re owner types plan k).map Prod.fst = plan.map Prod.fst := by
  induction plan generalizing k with
  | nil => rfl
  | cons head rest ih => rw [wantedStates, List.map_cons, List.map_cons, ih]

/-! ## Growing -/

namespace PinctrlWork

/-- An object with more states and more maps, and these on the list of all. -/
def grow (w : PinctrlWork) (p : Nat) (states : List PinctrlState) (dts : List PinctrlDtMap)
    (blocks : List PinctrlMaps) (n : Nat) : PinctrlWork :=
  { w with
    sgrtStates := Function.update w.sgrtStates p (w.sgrtStates p ++ states)
    sgrtDtMaps := Function.update w.sgrtDtMaps p (w.sgrtDtMaps p ++ dts)
    mapList := w.mapList ++ blocks
    asked := w.asked + n }

variable {w : PinctrlWork} {p n m : Nat} {states states' : List PinctrlState}
  {dts dts' : List PinctrlDtMap} {blocks blocks' : List PinctrlMaps}

@[simp] theorem asked_grow : (w.grow p states dts blocks n).asked = w.asked + n := rfl

@[simp] theorem states_grow :
    (w.grow p states dts blocks n).sgrtStates p = w.sgrtStates p ++ states :=
  Function.update_self ..

@[simp] theorem dtMaps_grow : (w.grow p states dts blocks n).sgrtDtMaps p = w.sgrtDtMaps p ++ dts :=
  Function.update_self ..

theorem grow_zero : w.grow p [] [] [] 0 = w := by
  simp [grow]

theorem grow_grow : (w.grow p states dts blocks n).grow p states' dts' blocks' m =
    w.grow p (states ++ states') (dts ++ dts') (blocks ++ blocks') (n + m) := by
  simp [grow, Nat.add_assoc]

theorem ask_eq_grow (p : Nat) : w.ask = w.grow p [] [] [] 1 := by
  simp [ask, grow]

/-- The step of the loop over the groups. -/
theorem group_eq_grow (p : Nat) (block : PinctrlMaps) (dt : PinctrlDtMap) :
    ({ w with mapList := w.mapList ++ [block], asked := w.asked + 1 + 1 + 1 }.setDtMaps p
      (w.sgrtDtMaps p ++ [dt])) = w.grow p [] [dt] [block] 3 := by
  simp [grow, setDtMaps]

/-- The step of the loop over the properties. -/
theorem grow_setStates (p : Nat) (state : PinctrlState) :
    (w.grow p states dts blocks n).setStates p
      ((w.grow p states dts blocks n).sgrtStates p ++ [state]) =
        w.grow p (states ++ [state]) dts blocks n := by
  simp [grow, setStates]

end PinctrlWork

variable {cfg : PinctrlTable} {own : PinctrlOwners} {w : PinctrlWork} {p last : Nat}
  {name : List Char}

/-- **From a question on, and until another, all goes well**: the allocator gives memory, the drivers
make maps and agree to the settings. -/
structure AllWell (re : PinctrlReplies) (types : Nat → List Nat) (k last : Nat) : Prop where
  memory : ∀ n, k ≤ n → n < last → isValid (re.kzalloc n) = true
  maps : ∀ n, k ≤ n → n < last → re.dtNodeToMap n = some (types n)
  agree : ∀ n, k ≤ n → n < last → re.call n = 0

theorem AllWell.later {k m last : Nat} (h : AllWell re types k last) (hkm : k ≤ m) :
    AllWell re types m last where
  memory n hn := h.memory n (hkm.trans hn)
  maps n hn := h.maps n (hkm.trans hn)
  agree n hn := h.agree n (hkm.trans hn)

/-- A group below a controller that can make maps of it. -/
def IsGroupOf (cfg : PinctrlTable) (own : PinctrlOwners) (phandle d : Nat) : Prop :=
  groupOwner cfg own phandle = some d ∧ (own.pctldev d).sprtDesc.dtNodeToMap = true

/-- **The loop over the groups** makes one block for each, in order. -/
theorem createGroups_eq {hs : List Nat} (hgroups : ∀ h ∈ hs, IsGroupOf cfg own h (owner h))
    (hwell : AllWell re types w.asked last) (hlast : w.asked + 3 * hs.length ≤ last) :
    createGroups cfg re own p name hs w =
      .ok (true, w.grow p [] ((wantedGroups re owner types hs w.asked).map PinctrlGroup.dtMap)
        ((wantedGroups re owner types hs w.asked).map
          (PinctrlGroup.block cfg own (cfg.devName (own.sprtDev p)) name)) (3 * hs.length)) := by
  induction hs generalizing w with
  | nil =>
    show Except.ok (true, w) = _
    simp only [wantedGroups, List.map_nil, List.length_nil, Nat.mul_zero, PinctrlWork.grow_zero]
  | cons h hs ih =>
    obtain ⟨howner, hmaps⟩ := hgroups h List.mem_cons_self
    rw [List.length_cons] at hlast
    have hrest := ih (w := w.grow p [] [⟨owner h, re.kzalloc (w.asked + 1)⟩]
      [PinctrlGroup.block cfg own (cfg.devName (own.sprtDev p)) name
        ⟨owner h, re.kzalloc (w.asked + 1), types w.asked⟩] 3)
      (fun g hg => hgroups g (List.mem_cons_of_mem _ hg)) (hwell.later (by simp))
      (by rw [PinctrlWork.asked_grow]; omega)
    have hasked : re.dtNodeToMap w.asked = some (types w.asked) := hwell.maps _ le_rfl (by omega)
    have hone : isValid (re.kzalloc (w.asked + 1)) = true := hwell.memory _ (by omega) (by omega)
    have htwo : isValid (re.kzalloc (w.asked + 2)) = true := hwell.memory _ (by omega) (by omega)
    unfold groupOwner at howner
    rw [createGroups]
    simp only [howner, hmaps, hasked, Bool.not_true, Bool.false_eq_true, if_false,
      PinctrlWork.ask, hone, htwo]
    rw [PinctrlWork.group_eq_grow]
    refine hrest.trans ?_
    simp only [PinctrlWork.grow_grow, PinctrlWork.asked_grow, wantedGroups, List.map_cons,
      List.length_cons, List.append_nil, List.cons_append, List.nil_append]
    rw [Nat.mul_succ, Nat.add_comm 3]
    rfl

namespace PinctrlWanted

variable (cfg : PinctrlTable) (own : PinctrlOwners) (devName : List Char)

/-- The state before it has settings, -/
def bare (x : PinctrlWanted) : PinctrlState := ⟨x.1, []⟩

/-- and with them. -/
def state (x : PinctrlWanted) : PinctrlState := ⟨x.1, x.2.flatMap PinctrlGroup.settings⟩

def dtMaps (x : PinctrlWanted) : List PinctrlDtMap := x.2.map PinctrlGroup.dtMap

def blocks (x : PinctrlWanted) : List PinctrlMaps := x.2.map (PinctrlGroup.block cfg own devName x.1)

end PinctrlWanted

/-- A property as it has to be: handles, of groups below a controller. -/
def PinctrlProp.Usable (cfg : PinctrlTable) (own : PinctrlOwners) (owner : Nat → Nat)
    (prop : PinctrlProp) : Prop :=
  4 ≤ prop.lenth ∧ ∀ h ∈ prop.groups, IsGroupOf cfg own h (owner h)

theorem createState_eq {prop : PinctrlProp} (husable : prop.Usable cfg own owner)
    (hwell : AllWell re types w.asked last)
    (hlast : w.asked + (3 * prop.groups.length + 1) ≤ last) {x : PinctrlWanted}
    (hx : x = (name, wantedGroups re owner types prop.groups w.asked)) :
    fwkPinctrlCreateState cfg re own w p prop (some name) =
      .ok (some x.bare, w.grow p [] x.dtMaps (x.blocks cfg own (cfg.devName (own.sprtDev p)))
        (3 * prop.groups.length + 1)) := by
  have hlenth : prop.lenth ≠ 0 := by
    have := husable.1
    omega
  have hstate : isValid (re.kzalloc (w.asked + 3 * prop.groups.length)) = true :=
    hwell.memory _ (by omega) (by omega)
  have hgroups : createGroups cfg re own p name prop.groups w = _ :=
    createGroups_eq husable.2 hwell (by omega)
  subst hx
  rw [fwkPinctrlCreateState, if_pos hlenth, Option.getD_some]
  change (createGroups cfg re own p name prop.groups w >>= _) = _
  rw [hgroups]
  show (if !isValid (re.kzalloc (w.asked + 3 * prop.groups.length)) then _ else _) = _
  rw [hstate, PinctrlWork.ask_eq_grow p, PinctrlWork.grow_grow]
  simp only [Bool.not_true, Bool.false_eq_true, if_false, List.append_nil, PinctrlWanted.bare,
    PinctrlWanted.dtMaps, PinctrlWanted.blocks]

/-- **The loop over the properties** makes one state for each, in order, and as long as all names
are different. -/
theorem addStateLoop_eq {pre post : List (List Char)} {props : List PinctrlProp}
    {held : Option (List Char)} (hnames : cfg.pinctrlNames (own.sprtDev p) = some (pre ++ post))
    (hnodup : (pre ++ post).Nodup) (hlength : post.length = props.length)
    (hstates : (w.sgrtStates p).map PinctrlState.name = pre) (hsome : pre = [] → props ≠ [])
    (husable : ∀ prop ∈ props, prop.Usable cfg own owner) (hwell : AllWell re types w.asked last)
    (hlast : w.asked + stateQuestions props ≤ last)
    {made : List PinctrlWanted} (hmade : made = wantedStates re owner types (post.zip props) w.asked) :
    addStateLoop cfg re own p pre.length held props w =
      .ok (erNormal, w.grow p (made.map PinctrlWanted.bare) (made.flatMap PinctrlWanted.dtMaps)
        (made.flatMap (PinctrlWanted.blocks cfg own (cfg.devName (own.sprtDev p))))
        (stateQuestions props)) := by
  induction props generalizing pre post held w made with
  | nil =>
    have hpre : ¬ pre.length = 0 := fun hzero => hsome (List.eq_nil_of_length_eq_zero hzero) rfl
    subst hmade
    rw [addStateLoop, if_neg hpre, List.zip_nil_right]
    simp only [wantedStates, List.map_nil, List.flatMap_nil, stateQuestions, List.sum_nil,
      PinctrlWork.grow_zero]
  | cons prop props ih =>
    obtain ⟨name, post, rfl⟩ := List.exists_cons_of_length_pos
      (hlength ▸ Nat.succ_pos props.length : 0 < post.length)
    obtain ⟨hfirst, hrest⟩ := List.forall_mem_cons.mp husable
    have hread : readStateName (some (pre ++ name :: post)) pre.length held = some name := by
      simp [readStateName]
    -- a state with the name would be one of an earlier property
    have hnew : fwkPinctrlFindState w p name = none := by
      rw [fwkPinctrlFindState, List.findIdx?_eq_none_iff]
      intro state hstate
      apply decide_eq_false
      rintro rfl
      have hpre : state.name ∈ pre := hstates ▸ List.mem_map_of_mem hstate
      exact List.disjoint_of_nodup_append hnodup hpre List.mem_cons_self
    rw [stateQuestions_cons] at hlast
    rw [addStateLoop, hnames, hread]
    show (if (fwkPinctrlFindState w p name).isSome then _ else
      fwkPinctrlCreateState cfg re own w p prop (some name) >>= _) = _
    rw [hnew, createState_eq hfirst hwell (by omega) rfl]
    show addStateLoop cfg re own p (pre.length + 1) (some name) props (PinctrlWork.setStates _ p _) = _
    rw [PinctrlWork.grow_setStates]
    have hlen : pre.length + 1 = (pre ++ [name]).length := by simp
    rw [hlen]
    refine (ih ?_ ?_ (Nat.succ.inj hlength) ?_ ?_ hrest (hwell.later ?_) ?_ rfl).trans ?_
    · rw [hnames, List.append_assoc, List.singleton_append]
    · rwa [List.append_assoc, List.singleton_append]
    · simp [hstates, PinctrlWanted.bare]
    · simp
    · simp
    · rw [PinctrlWork.asked_grow]
      omega
    · subst hmade
      rw [PinctrlWork.grow_grow, PinctrlWork.asked_grow]
      rfl

/-! ## Settings -/

/-- An object with other states, after some questions. -/
def PinctrlWork.settle (w : PinctrlWork) (p : Nat) (states : List PinctrlState) (n : Nat) :
    PinctrlWork :=
  { w with sgrtStates := Function.update w.sgrtStates p states, asked := n }

/-- A state with the setting of a map, `ctl` being the controller of the map. -/
def addSetting (ctl : PinctrlMap → Nat) (map : PinctrlMap) (state : PinctrlState) : PinctrlState :=
  { state with sgrtSettings := state.sgrtSettings ++ [⟨map.type, ctl map⟩] }

/-- **The loop over all maps** files those of the device: each goes to the state with its name. -/
theorem addSettingLoop_eq {ctl : PinctrlMap → Nat} {maps : List PinctrlMap}
    (hctl : ∀ map ∈ maps, map.devName = cfg.devName (own.sprtDev p) →
      fwkGetPinctrlDevFromName cfg own map.ctrlDevName = some (ctl map))
    (hwell : AllWell re types w.asked last)
    (hlast : w.asked + settingQuestions ((maps.filter fun map =>
      map.devName = cfg.devName (own.sprtDev p)).map PinctrlMap.type) ≤ last) :
    ∃ n, addSettingLoop cfg re own p maps w = (true, w.settle p
      ((maps.filter fun map => map.devName = cfg.devName (own.sprtDev p)).foldl
        (fileItem PinctrlState.name PinctrlMap.name (addSetting ctl)) (w.sgrtStates p)) n) := by
  induction maps generalizing w with
  | nil => exact ⟨w.asked, by simp [addSettingLoop, PinctrlWork.settle]⟩
  | cons map maps ih =>
    obtain ⟨hfirst, hrest⟩ := List.forall_mem_cons.mp hctl
    by_cases hdev : map.devName = cfg.devName (own.sprtDev p)
    swap
    · rw [List.filter_cons_of_neg (by simpa using hdev)] at hlast ⊢
      rw [addSettingLoop, if_pos hdev]
      exact ih hrest hwell hlast
    rw [List.filter_cons_of_pos (by simpa using hdev), List.map_cons, settingQuestions_cons] at hlast
    rw [addSettingLoop, if_neg (not_not.mpr hdev), List.filter_cons_of_pos (by simpa using hdev),
      List.foldl_cons]
    cases hfind : fwkPinctrlFindState w p map.name with
    | none =>
      have hnowhere : fileItem PinctrlState.name PinctrlMap.name (addSetting ctl) (w.sgrtStates p) map =
          w.sgrtStates p := by
        rw [fwkPinctrlFindState] at hfind
        rw [fileItem, hfind]
      rw [hnowhere]
      exact ih hrest hwell (by omega)
    | some i =>
      have hstate : fileItem PinctrlState.name PinctrlMap.name (addSetting ctl) (w.sgrtStates p) map =
          (w.sgrtStates p).modify i (addSetting ctl map) := by
        rw [fwkPinctrlFindState] at hfind
        rw [fileItem, hfind]
      rw [hstate]
      have hnext : ∀ m, w.asked ≤ m → m + settingQuestions ((maps.filter fun map =>
          map.devName = cfg.devName (own.sprtDev p)).map PinctrlMap.type) ≤ last →
          ∃ n, addSettingLoop cfg re own p maps
            (w.settle p ((w.sgrtStates p).modify i (addSetting ctl map)) m) = (true, w.settle p
              ((maps.filter fun map => map.devName = cfg.devName (own.sprtDev p)).foldl
                (fileItem PinctrlState.name PinctrlMap.name (addSetting ctl))
                ((w.sgrtStates p).modify i (addSetting ctl map))) n) := by
        intro m hm hlast
        obtain ⟨n, hn⟩ := ih (w := w.settle p ((w.sgrtStates p).modify i (addSetting ctl map)) m)
          hrest (hwell.later hm) hlast
        refine ⟨n, hn.trans ?_⟩
        simp [PinctrlWork.settle]
      by_cases hknown : map.type = 0 ∨ map.type = 1
      · rw [if_pos hknown] at hlast
        have hmemory : isValid (re.kzalloc w.asked) = true := hwell.memory _ le_rfl (by omega)
        have hagree : re.call (w.asked + 1) = 0 := hwell.agree _ (by omega) (by omega)
        obtain ⟨n, hn⟩ := hnext (w.asked + 1 + 1) (by omega) (by omega)
        refine ⟨n, Eq.trans ?_ hn⟩
        simp only [hmemory, hfirst hdev, hknown, PinctrlWork.ask, hagree, decide_true, if_true,
          Bool.not_true, Bool.false_eq_true, if_false, ne_eq, not_true_eq_false]
        rfl
      · rw [if_neg hknown] at hlast
        have hmemory : isValid (re.kzalloc w.asked) = true := hwell.memory _ le_rfl (by omega)
        obtain ⟨n, hn⟩ := hnext (w.asked + 1) (by omega) (by omega)
        refine ⟨n, Eq.trans ?_ hn⟩
        simp only [hmemory, hfirst hdev, hknown, PinctrlWork.ask, decide_false, Bool.not_true,
          Bool.false_eq_true, if_false, ne_eq, not_true_eq_false]
        rfl

/-- The settings of many maps. -/
theorem foldl_addSetting (ctl : PinctrlMap → Nat) (maps : List PinctrlMap) (state : PinctrlState) :
    maps.foldl (fun state map => addSetting ctl map state) state =
      ⟨state.name, state.sgrtSettings ++ maps.map fun map => ⟨map.type, ctl map⟩⟩ := by
  induction maps generalizing state with
  | nil => simp
  | cons map maps ih =>
    rw [List.foldl_cons, ih]
    simp [addSetting]

/-- All maps of a state. -/
def PinctrlWanted.maps (cfg : PinctrlTable) (own : PinctrlOwners) (devName : List Char)
    (x : PinctrlWanted) : List PinctrlMap :=
  (x.blocks cfg own devName).flatMap PinctrlMaps.sprtMaps

section Wanted

variable {devName : List Char} {x : PinctrlWanted} {map : PinctrlMap}

/-- Its maps carry the names of the device, of the state and of the controller of their group. -/
theorem PinctrlWanted.mem_maps (h : map ∈ x.maps cfg own devName) :
    map.devName = devName ∧ map.name = x.1 ∧
      ∃ g ∈ x.2, map.ctrlDevName = cfg.devName (own.pctldev g.owner).sprtDev := by
  obtain ⟨block, hblock, hmap⟩ := List.mem_flatMap.mp h
  obtain ⟨g, hg, rfl⟩ := List.mem_map.mp hblock
  obtain ⟨type, -, rfl⟩ := List.mem_map.mp hmap
  exact ⟨rfl, rfl, g, hg, rfl⟩

/-- Where the controllers are told by their names, its settings are those of its groups. -/
theorem PinctrlWanted.settings_maps {ctl : PinctrlMap → Nat}
    (hctl : ∀ g ∈ x.2, ∀ type,
      ctl ⟨devName, x.1, type, cfg.devName (own.pctldev g.owner).sprtDev⟩ = g.owner) :
    ((x.maps cfg own devName).map fun map => (⟨map.type, ctl map⟩ : PinctrlSetting)) =
      x.2.flatMap PinctrlGroup.settings := by
  rw [maps, blocks, List.flatMap_map, List.map_flatMap]
  apply List.flatMap_congr
  intro g hg
  simp only [PinctrlGroup.block, PinctrlGroup.settings, List.map_map]
  apply List.map_congr_left
  intro type _
  show PinctrlSetting.mk type (ctl ⟨devName, x.1, type, _⟩) = _
  rw [hctl g hg]

theorem PinctrlWanted.types_maps :
    (x.maps cfg own devName).map PinctrlMap.type = x.2.flatMap PinctrlGroup.types := by
  rw [maps, blocks, List.flatMap_map, List.map_flatMap]
  apply List.flatMap_congr
  intro g _
  simp only [PinctrlGroup.block, List.map_map]
  exact List.map_id g.types

/-- **Filed by name, the maps of all states give each state its own.** -/
theorem file_wanted {ctl : PinctrlMap → Nat} {made : List PinctrlWanted}
    (hnames : (made.map Prod.fst).Nodup)
    (hctl : ∀ x ∈ made, ∀ g ∈ x.2, ∀ type,
      ctl ⟨devName, x.1, type, cfg.devName (own.pctldev g.owner).sprtDev⟩ = g.owner) :
    (made.flatMap (PinctrlWanted.maps cfg own devName)).foldl
        (fileItem PinctrlState.name PinctrlMap.name (addSetting ctl)) (made.map PinctrlWanted.bare) =
      made.map PinctrlWanted.state := by
  have hkeys : ((made.map PinctrlWanted.bare).map PinctrlState.name).Nodup := by
    rw [List.map_map]
    exact hnames
  refine (foldl_fileItem ?_ hkeys _).trans ?_
  · exact fun _ _ => rfl
  rw [List.map_map]
  apply List.map_congr_left
  intro x hx
  have hown : (made.flatMap (PinctrlWanted.maps cfg own devName)).filter
      (fun map => map.name = x.1) = x.maps cfg own devName :=
    filter_flatMap_label hnames (fun y _ map hmap => (PinctrlWanted.mem_maps hmap).2.1) hx
  show List.foldl _ x.bare (List.filter (fun map : PinctrlMap => map.name = x.1) _) = x.state
  rw [hown, foldl_addSetting, PinctrlWanted.settings_maps (hctl x hx)]
  rfl

end Wanted

/-- A controller that shares its name with no other device is found by it. -/
theorem fromName_of_owner {h d : Nat} (howner : groupOwner cfg own h = some d)
    (halone : ∀ e ∈ own.pctldevList, cfg.devName (own.pctldev e).sprtDev =
      cfg.devName (own.pctldev d).sprtDev → (own.pctldev e).sprtDev = (own.pctldev d).sprtDev) :
    fwkGetPinctrlDevFromName cfg own (cfg.devName (own.pctldev d).sprtDev) = some d := by
  obtain ⟨nodes, -, hnodes⟩ := Option.bind_eq_some_iff.mp howner
  obtain ⟨node, -, hnode⟩ := List.exists_of_findSome?_eq_some hnodes
  obtain ⟨hfound, before, after, hlist, hbefore⟩ := List.find?_eq_some_iff_append.mp hnode
  refine List.find?_eq_some_iff_append.mpr ⟨decide_eq_true rfl, before, after, hlist, ?_⟩
  intro e he
  -- one in front with the name would be of the same device, and found by its node
  have hnot : ¬ cfg.devName (own.pctldev e).sprtDev = cfg.devName (own.pctldev d).sprtDev := by
    intro hname
    have hmem : e ∈ own.pctldevList := hlist ▸ List.mem_append_left _ he
    have hnode := hbefore e he
    rw [halone e hmem hname] at hnode
    simp only [hfound, Bool.not_true, Bool.false_eq_true] at hnode
  simpa using hnot

theorem owner_mem {h d : Nat} (howner : groupOwner cfg own h = some d) : d ∈ own.pctldevList := by
  obtain ⟨nodes, -, hnodes⟩ := Option.bind_eq_some_iff.mp howner
  obtain ⟨node, -, hnode⟩ := List.exists_of_findSome?_eq_some hnodes
  exact List.mem_of_find?_eq_some hnode

/-! ## Where everything comes from -/

theorem mem_wantedGroups {hs : List Nat} {k : Nat} {g : PinctrlGroup}
    (h : g ∈ wantedGroups re owner types hs k) : ∃ x ∈ hs, g.owner = owner x := by
  induction hs generalizing k with
  | nil => exact absurd h List.not_mem_nil
  | cons x hs ih =>
    obtain rfl | hmem := List.mem_cons.mp h
    · exact ⟨x, List.mem_cons_self, rfl⟩
    · obtain ⟨y, hy, howner⟩ := ih hmem
      exact ⟨y, List.mem_cons_of_mem _ hy, howner⟩

theorem mem_wantedStates {plan : List (List Char × PinctrlProp)} {k : Nat} {x : PinctrlWanted}
    (h : x ∈ wantedStates re owner types plan k) {g : PinctrlGroup} (hg : g ∈ x.2) :
    ∃ entry ∈ plan, ∃ y ∈ entry.2.groups, g.owner = owner y := by
  induction plan generalizing k with
  | nil => exact absurd h List.not_mem_nil
  | cons entry rest ih =>
    obtain rfl | hmem := List.mem_cons.mp h
    · exact ⟨entry, List.mem_cons_self, mem_wantedGroups hg⟩
    · obtain ⟨e, he, howner⟩ := ih hmem
      exact ⟨e, List.mem_cons_of_mem _ he, howner⟩

/-- State by state: the question that each begins with. -/
theorem getElem?_wantedStates {plan : List (List Char × PinctrlProp)} {k i : Nat}
    {entry : List Char × PinctrlProp} (h : plan[i]? = some entry) :
    (wantedStates re owner types plan k)[i]? = some (entry.1, wantedGroups re owner types
      entry.2.groups (k + stateQuestions ((plan.map Prod.snd).take i))) := by
  induction plan generalizing k i with
  | nil => simp at h
  | cons head rest ih =>
    match i with
    | 0 =>
      rw [List.getElem?_cons_zero] at h
      obtain rfl := Option.some.inj h
      rfl
    | i + 1 =>
      rw [List.getElem?_cons_succ] at h
      rw [wantedStates, List.getElem?_cons_succ, ih h, List.map_cons, List.take_succ_cons,
        stateQuestions_cons]
      simp only [Nat.add_assoc]

/-- Group by group: the question for each. -/
theorem settings_wantedGroups (hs : List Nat) (k m : Nat) :
    (wantedGroups re owner types hs (k + 3 * m)).flatMap PinctrlGroup.settings =
      (hs.zipIdx m).flatMap fun (h, j) =>
        (types (k + 3 * j)).map fun type => ⟨type, owner h⟩ := by
  induction hs generalizing m with
  | nil => rfl
  | cons h hs ih =>
    have hnext : k + 3 * m + 3 = k + 3 * (m + 1) := by omega
    rw [wantedGroups, List.flatMap_cons, List.zipIdx_cons, List.flatMap_cons, hnext, ih (m + 1)]
    rfl

/-- Addresses that were given to different questions of a range. -/
def AskedIn (re : PinctrlReplies) (k last : Nat) (addrs : List Nat) : Prop :=
  ∃ qs : List Nat, addrs = qs.map re.kzalloc ∧ qs.Pairwise (· < ·) ∧ ∀ q ∈ qs, k ≤ q ∧ q < last

theorem AskedIn.append {k l m last : Nat} {as bs : List Nat} (ha : AskedIn re k l as)
    (hb : AskedIn re m last bs) (hkl : k ≤ l) (hlm : l ≤ m) (hlast : m ≤ last) :
    AskedIn re k last (as ++ bs) := by
  obtain ⟨ps, rfl, hps, hpr⟩ := ha
  obtain ⟨qs, rfl, hqs, hqr⟩ := hb
  refine ⟨ps ++ qs, List.map_append.symm, List.pairwise_append.mpr ⟨hps, hqs, ?_⟩, ?_⟩
  · exact fun a ha b hb => (hpr a ha).2.trans_le (hlm.trans (hqr b hb).1)
  · intro q hq
    obtain hq | hq := List.mem_append.mp hq
    · exact ⟨(hpr q hq).1, (hpr q hq).2.trans_le (hlm.trans hlast)⟩
    · exact ⟨(hkl.trans hlm).trans (hqr q hq).1, (hqr q hq).2⟩

theorem AskedIn.nil {k last : Nat} : AskedIn re k last [] :=
  ⟨[], rfl, List.Pairwise.nil, fun _ hq => absurd hq List.not_mem_nil⟩

theorem AskedIn.one {k q last : Nat} (hk : k ≤ q) (hlast : q < last) :
    AskedIn re k last [re.kzalloc q] :=
  ⟨[q], rfl, List.pairwise_singleton _ q, fun r hr => by
    rw [List.mem_singleton.mp hr]
    exact ⟨hk, hlast⟩⟩

theorem askedIn_wantedGroups (hs : List Nat) (k : Nat) :
    AskedIn re k (k + 3 * hs.length) ((wantedGroups re owner types hs k).map PinctrlGroup.addr) := by
  induction hs generalizing k with
  | nil => exact .nil
  | cons h hs ih =>
    have hone : AskedIn re k (k + 3) [re.kzalloc (k + 1)] := .one (by omega) (by omega)
    have hrest := ih (k + 3)
    have hend : k + 3 + 3 * hs.length = k + 3 * (h :: hs).length := by
      rw [List.length_cons]
      omega
    rw [hend] at hrest
    exact hone.append hrest (by omega) le_rfl (by omega)

theorem askedIn_wantedStates (names : List (List Char)) (props : List PinctrlProp) (k : Nat) :
    AskedIn re k (k + stateQuestions props)
      (((wantedStates re owner types (names.zip props) k).flatMap Prod.snd).map
        PinctrlGroup.addr) := by
  induction props generalizing names k with
  | nil =>
    rw [List.zip_nil_right]
    exact .nil
  | cons prop props ih =>
    match names with
    | [] => exact .nil
    | name :: names =>
      have hfirst : AskedIn re k (k + 3 * prop.groups.length)
          ((wantedGroups re owner types prop.groups k).map PinctrlGroup.addr) :=
        askedIn_wantedGroups prop.groups k
      have hrest := ih names (k + 3 * prop.groups.length + 1)
      have hend : k + 3 * prop.groups.length + 1 + stateQuestions props =
          k + stateQuestions (prop :: props) := by
        rw [stateQuestions_cons, Nat.add_assoc k, Nat.add_assoc k]
      rw [List.zip_cons_cons, wantedStates, List.flatMap_cons, List.map_append]
      rw [hend] at hrest
      exact hfirst.append hrest (by omega) (by omega) (by omega)

/-! ## Getting and putting -/

/-- **A device as it has to be**: without an object, with properties for its states and as many names,
all different.  No other device has its name, nor that of the device of a controller that owns one of
its groups. -/
structure PinctrlDevice (cfg : PinctrlTable) (own : PinctrlOwners) (owner : Nat → Nat) (dev : Nat)
    (names : List (List Char)) : Prop where
  new : fwkFindPinctrl own dev = none
  nonempty : cfg.props dev ≠ []
  usable : ∀ prop ∈ cfg.props dev, prop.Usable cfg own owner
  named : cfg.pinctrlNames dev = some names
  length : names.length = (cfg.props dev).length
  different : names.Nodup
  alone : ∀ p ∈ own.pctlList, cfg.devName (own.sprtDev p) = cfg.devName dev → own.sprtDev p = dev
  owners : ∀ prop ∈ cfg.props dev, ∀ h ∈ prop.groups, ∀ d ∈ own.pctldevList,
    cfg.devName (own.pctldev d).sprtDev = cfg.devName (own.pctldev (owner h)).sprtDev →
      (own.pctldev d).sprtDev = (own.pctldev (owner h)).sprtDev

/-- What the device is to have, the first group being asked for by question `k`. -/
def PinctrlTable.wanted (cfg : PinctrlTable) (re : PinctrlReplies) (owner : Nat → Nat)
    (types : Nat → List Nat) (dev : Nat) (names : List (List Char)) (k : Nat) : List PinctrlWanted :=
  wantedStates re owner types (names.zip (cfg.props dev)) k

section Device

variable {dev : Nat} {names : List (List Char)} {s : Pinctrls} {made : List PinctrlWanted}

/-- No map of another device has its name. -/
theorem PinctrlDevice.others (h : PinctrlDevice cfg s.own owner dev names) (hpool : Pooled cfg s) :
    (s.work.mapList.flatMap PinctrlMaps.sprtMaps).filter
      (fun map => map.devName = cfg.devName dev) = [] := by
  apply filter_label_eq_nil
  intro map hmap hname
  obtain ⟨block, hblock, hmem⟩ := List.mem_flatMap.mp hmap
  obtain ⟨q, hq, -, hnames⟩ := hpool.owned block hblock
  have hsame : s.own.sprtDev q = dev := h.alone q hq ((hnames map hmem).symm.trans hname)
  exact absurd hsame (by simpa using List.find?_eq_none.mp h.new q hq)

/-- Its maps are all its own. -/
theorem filter_maps (devName : List Char) (made : List PinctrlWanted) :
    (made.flatMap (PinctrlWanted.maps cfg own devName)).filter (fun map => map.devName = devName) =
      made.flatMap (PinctrlWanted.maps cfg own devName) := by
  rw [List.filter_eq_self]
  intro map hmap
  obtain ⟨x, -, hx⟩ := List.mem_flatMap.mp hmap
  exact decide_eq_true (PinctrlWanted.mem_maps hx).1

theorem PinctrlDevice.owned (h : PinctrlDevice cfg own owner dev names) {k : Nat}
    (hmade : made = cfg.wanted re owner types dev names k) {x : PinctrlWanted} (hx : x ∈ made)
    {g : PinctrlGroup} (hg : g ∈ x.2) : ∃ prop ∈ cfg.props dev, ∃ y ∈ prop.groups,
      g.owner = owner y ∧ groupOwner cfg own y = some g.owner := by
  subst hmade
  obtain ⟨entry, hentry, y, hy, howner⟩ := mem_wantedStates hx hg
  have hprop := (List.of_mem_zip hentry).2
  exact ⟨entry.2, hprop, y, hy, howner, howner ▸ ((h.usable _ hprop).2 y hy).1⟩

/-- The controllers of its groups are found by their names. -/
theorem PinctrlDevice.fromName (h : PinctrlDevice cfg own owner dev names) {k : Nat}
    (hmade : made = cfg.wanted re owner types dev names k) {x : PinctrlWanted} (hx : x ∈ made)
    {g : PinctrlGroup} (hg : g ∈ x.2) :
    fwkGetPinctrlDevFromName cfg own (cfg.devName (own.pctldev g.owner).sprtDev) = some g.owner := by
  obtain ⟨prop, hprop, y, hy, heq, howner⟩ := h.owned hmade hx hg
  apply fromName_of_owner howner
  rw [heq]
  exact h.owners prop hprop y hy

theorem PinctrlDevice.names_made (h : PinctrlDevice cfg own owner dev names) {k : Nat}
    (hmade : made = cfg.wanted re owner types dev names k) : made.map Prod.fst = names := by
  rw [hmade, PinctrlTable.wanted, names_wantedStates, List.map_fst_zip h.length.le]

end Device

/-- `fwk_pinctrl_add_state`. -/
theorem addState_eq {dev : Nat} {names : List (List Char)} {made : List PinctrlWanted}
    (hp : own.sprtDev p = dev) (hstates : w.sgrtStates p = []) (hnonempty : cfg.props dev ≠ [])
    (husable : ∀ prop ∈ cfg.props dev, prop.Usable cfg own owner)
    (hnamed : cfg.pinctrlNames dev = some names) (hlength : names.length = (cfg.props dev).length)
    (hdifferent : names.Nodup) (hwell : AllWell re types w.asked last)
    (hlast : w.asked + stateQuestions (cfg.props dev) ≤ last)
    (hmade : made = cfg.wanted re owner types dev names w.asked) :
    fwkPinctrlAddState cfg re own w p =
      .ok (erNormal, w.grow p (made.map PinctrlWanted.bare) (made.flatMap PinctrlWanted.dtMaps)
        (made.flatMap (PinctrlWanted.blocks cfg own (cfg.devName dev)))
        (stateQuestions (cfg.props dev))) := by
  subst hp
  have hnames : cfg.pinctrlNames (own.sprtDev p) = some ([] ++ names) := hnamed
  exact addStateLoop_eq hnames hdifferent hlength (by rw [hstates, List.map_nil])
    (fun _ => hnonempty) husable hwell hlast hmade

/-- `fwk_pinctrl_add_setting`, with the maps of others in front. -/
theorem addSetting_eq {dev : Nat} {made : List PinctrlWanted} {others : List PinctrlMaps}
    (hp : own.sprtDev p = dev) (hstates : w.sgrtStates p = made.map PinctrlWanted.bare)
    (hlist : w.mapList = others ++ made.flatMap (PinctrlWanted.blocks cfg own (cfg.devName dev)))
    (hothers : (others.flatMap PinctrlMaps.sprtMaps).filter
      (fun map => map.devName = cfg.devName dev) = []) (hnonempty : w.mapList ≠ [])
    (hnames : (made.map Prod.fst).Nodup)
    (hfrom : ∀ x ∈ made, ∀ g ∈ x.2,
      fwkGetPinctrlDevFromName cfg own (cfg.devName (own.pctldev g.owner).sprtDev) = some g.owner)
    (hwell : AllWell re types w.asked last)
    (hlast : w.asked + settingQuestions (made.flatMap fun x => x.2.flatMap PinctrlGroup.types) ≤
      last) :
    ∃ n, fwkPinctrlAddSetting cfg re own w p =
      .ok (erNormal, w.settle p (made.map PinctrlWanted.state) n) := by
  subst hp
  have hmine : (w.mapList.flatMap PinctrlMaps.sprtMaps).filter
      (fun map => map.devName = cfg.devName (own.sprtDev p)) =
        made.flatMap (PinctrlWanted.maps cfg own (cfg.devName (own.sprtDev p))) := by
    rw [hlist, List.flatMap_append, List.filter_append, hothers, List.nil_append, List.flatMap_assoc]
    exact filter_maps _ made
  have htypes : (made.flatMap (PinctrlWanted.maps cfg own (cfg.devName (own.sprtDev p)))).map
      PinctrlMap.type = made.flatMap fun x => x.2.flatMap PinctrlGroup.types := by
    rw [List.map_flatMap]
    exact List.flatMap_congr fun x _ => PinctrlWanted.types_maps
  obtain ⟨ctl, hctl⟩ : ∃ ctl : PinctrlMap → Nat, ∀ x ∈ made, ∀ g ∈ x.2, ∀ map : PinctrlMap,
      map.ctrlDevName = cfg.devName (own.pctldev g.owner).sprtDev →
        fwkGetPinctrlDevFromName cfg own map.ctrlDevName = some (ctl map) ∧ ctl map = g.owner := by
    refine ⟨fun map => (fwkGetPinctrlDevFromName cfg own map.ctrlDevName).getD 0, ?_⟩
    intro x hx g hg map hmap
    simp only [hmap, hfrom x hx g hg, Option.getD_some, and_self]
  have hfound : ∀ map ∈ w.mapList.flatMap PinctrlMaps.sprtMaps,
      map.devName = cfg.devName (own.sprtDev p) →
        fwkGetPinctrlDevFromName cfg own map.ctrlDevName = some (ctl map) := by
    intro map hmap hdev
    have hmem : map ∈ (w.mapList.flatMap PinctrlMaps.sprtMaps).filter
        (fun map => map.devName = cfg.devName (own.sprtDev p)) :=
      List.mem_filter.mpr ⟨hmap, decide_eq_true hdev⟩
    rw [hmine] at hmem
    obtain ⟨x, hx, hmem⟩ := List.mem_flatMap.mp hmem
    obtain ⟨-, -, g, hg, hctrl⟩ := PinctrlWanted.mem_maps hmem
    exact (hctl x hx g hg map hctrl).1
  obtain ⟨n, hn⟩ := addSettingLoop_eq hfound hwell (by rwa [hmine, htypes])
  rw [hmine, hstates, file_wanted hnames fun x hx g hg type => (hctl x hx g hg _ rfl).2] at hn
  refine ⟨n, ?_⟩
  rw [fwkPinctrlAddSetting, if_neg (by simpa using hnonempty), hn]
  rfl

/-- **Every block on the list, and every controller there, all are released.** -/
theorem freeDtMaps_returns {dts : List PinctrlDtMap}
    (hlive : ∀ dt ∈ dts, own.pctldevLive dt.sprtPctldev = true)
    (hdifferent : (dts.map PinctrlDtMap.sprtMaps).Nodup)
    (hthere : ∀ dt ∈ dts, ∃ block ∈ w.mapList, block.addr = dt.sprtMaps) :
    ∃ w', freeDtMaps own dts w = .ok w' := by
  induction dts generalizing w with
  | nil => exact ⟨w, rfl⟩
  | cons dt dts ih =>
    rw [List.map_cons, List.nodup_cons] at hdifferent
    obtain ⟨hfirst, hrest⟩ := List.forall_mem_cons.mp hlive
    obtain ⟨⟨block, hblock, haddr⟩, hthere⟩ := List.forall_mem_cons.mp hthere
    obtain ⟨found, hfound⟩ : ∃ found,
        w.mapList.find? (fun maps => maps.addr = dt.sprtMaps) = some found :=
      Option.isSome_iff_exists.mp (List.find?_isSome.mpr ⟨block, hblock, decide_eq_true haddr⟩)
    obtain ⟨u, hu⟩ : ∃ u, fwkPinctrlMapsFree own w dt.sprtPctldev dt.sprtMaps = .ok u := by
      simp only [fwkPinctrlMapsFree, hfound, fwkPinctrlMapFree, hfirst, if_true, ite_self]
      exact ⟨_, rfl⟩
    rw [freeDtMaps, hu]
    apply ih hrest hdifferent.2
    intro x hx
    obtain ⟨other, hother, hx'⟩ := hthere x hx
    refine ⟨other, ?_, hx'⟩
    rw [mapsFree_eq hu]
    refine List.mem_filter.mpr ⟨hother, decide_eq_true fun heq => ?_⟩
    exact hdifferent.1 (heq.symm.trans hx' ▸ List.mem_map_of_mem hx)

/-- `fwk_pinctrl_put`, where nothing that it releases is gone. -/
theorem put_returns {s : Pinctrls} (hlive : s.own.pctlLive p = true)
    (hdevs : ∀ dt ∈ s.work.sgrtDtMaps p, s.own.pctldevLive dt.sprtPctldev = true)
    (hdifferent : ((s.work.sgrtDtMaps p).map PinctrlDtMap.sprtMaps).Nodup)
    (hthere : ∀ dt ∈ s.work.sgrtDtMaps p, ∃ block ∈ s.work.mapList, block.addr = dt.sprtMaps) :
    ∃ t, fwkPinctrlPut s p = .ok t ∧ t.own.pctlList = s.own.pctlList.erase p ∧
      t.work.mapList = s.work.mapList.filter fun block =>
        ∀ dt ∈ s.work.sgrtDtMaps p, dt.sprtMaps ≠ block.addr := by
  obtain ⟨w, hw⟩ := freeDtMaps_returns (w := s.work.setStates p []) hdevs hdifferent hthere
  have hfree : fwkPinctrlFree s.own s.work p = .ok (w.setDtMaps p []) := by
    unfold fwkPinctrlFree
    change (freeDtMaps s.own (s.work.sgrtDtMaps p) (s.work.setStates p []) >>= _) = _
    rw [hw]
    rfl
  have hput : fwkPinctrlPut s p = .ok ⟨s.own.dropPctl p, w.setDtMaps p []⟩ := by
    unfold fwkPinctrlPut
    rw [hlive, hfree]
    rfl
  exact ⟨_, hput, rfl, congrArg PinctrlWork.mapList (pinctrlFree_filter hfree)⟩

section Device

variable {dev : Nat} {names : List (List Char)} {s : Pinctrls} {made : List PinctrlWanted}

/-- The device has a group, and with it maps. -/
theorem PinctrlDevice.blocks_ne_nil (h : PinctrlDevice cfg own owner dev names) {k : Nat}
    (hmade : made = cfg.wanted re owner types dev names k) :
    made.flatMap (PinctrlWanted.blocks cfg own (cfg.devName dev)) ≠ [] := by
  obtain ⟨prop, props, hprops⟩ := List.exists_cons_of_ne_nil h.nonempty
  obtain ⟨name, names, rfl⟩ : ∃ name rest, names = name :: rest :=
    List.exists_cons_of_length_pos (by rw [h.length, hprops]; exact Nat.succ_pos _)
  have hlenth : 4 ≤ prop.lenth := (h.usable prop (hprops ▸ List.mem_cons_self)).1
  obtain ⟨y, groups, hgroups⟩ : ∃ y groups, prop.groups = y :: groups := by
    apply List.exists_cons_of_length_pos
    rw [PinctrlProp.groups, List.length_map, List.length_range]
    omega
  rw [hmade, PinctrlTable.wanted, hprops, List.zip_cons_cons, wantedStates, hgroups]
  exact List.cons_ne_nil _ _

/-- A new object that is not on the list yet. -/
def PinctrlOwners.newPctl (own : PinctrlOwners) (p dev : Nat) : PinctrlOwners :=
  { own with
    sprtDev := Function.update own.sprtDev p dev
    pctlLive := Function.update own.pctlLive p true }

/-- **What `fwk_create_pinctrl` makes**: all the states, all the settings, and the maps behind those
of others. -/
theorem createPinctrl_eq (hpool : Pooled cfg s) (hdev : PinctrlDevice cfg s.own owner dev names)
    (hwell : AllWell re types s.work.asked last)
    (hmade : made = cfg.wanted re owner types dev names (s.work.asked + 1))
    (hlast : s.work.asked + 1 + stateQuestions (cfg.props dev) +
      settingQuestions (made.flatMap fun x => x.2.flatMap PinctrlGroup.types) ≤ last) :
    ∃ w, fwkCreatePinctrl cfg re s dev = .ok (some (re.kzalloc s.work.asked),
        ⟨s.own.addPctl (re.kzalloc s.work.asked) dev, w⟩) ∧
      w.sgrtStates (re.kzalloc s.work.asked) = made.map PinctrlWanted.state ∧
      w.sgrtDtMaps (re.kzalloc s.work.asked) = made.flatMap PinctrlWanted.dtMaps ∧
      w.mapList =
        s.work.mapList ++ made.flatMap (PinctrlWanted.blocks cfg s.own (cfg.devName dev)) := by
  have hmemory : isValid (re.kzalloc s.work.asked) = true := hwell.memory _ le_rfl (by omega)
  unfold fwkCreatePinctrl
  generalize re.kzalloc s.work.asked = p at hmemory ⊢
  have hp : (s.own.newPctl p dev).sprtDev p = dev := Function.update_self ..
  generalize hstart : ((s.work.ask.setStates p []).setDtMaps p []).setCurrent p none = w
  have hasked : w.asked = s.work.asked + 1 := hstart ▸ rfl
  have hlist : w.mapList = s.work.mapList := hstart ▸ rfl
  have hempty : w.sgrtStates p = [] := by
    rw [← hstart]
    exact Function.update_self ..
  have hdts : w.sgrtDtMaps p = [] := by
    rw [← hstart]
    exact Function.update_self ..
  rw [← hasked] at hmade
  have hstates : fwkPinctrlAddState cfg re (s.own.newPctl p dev) w p = _ :=
    addState_eq hp hempty hdev.nonempty hdev.usable hdev.named hdev.length hdev.different
      (hwell.later (by omega)) (by omega) hmade
  generalize hgrown : w.grow p _ _ _ _ = v at hstates
  have hvasked : v.asked = w.asked + stateQuestions (cfg.props dev) := hgrown ▸ rfl
  have hvstates : v.sgrtStates p = made.map PinctrlWanted.bare := by
    rw [← hgrown, PinctrlWork.states_grow, hempty, List.nil_append]
  have hvdts : v.sgrtDtMaps p = made.flatMap PinctrlWanted.dtMaps := by
    rw [← hgrown, PinctrlWork.dtMaps_grow, hdts, List.nil_append]
  have hvlist : v.mapList =
      s.work.mapList ++ made.flatMap (PinctrlWanted.blocks cfg s.own (cfg.devName dev)) := by
    rw [← hgrown, ← hlist]
    rfl
  obtain ⟨n, hsettings⟩ : ∃ n, fwkPinctrlAddSetting cfg re (s.own.newPctl p dev) v p =
      .ok (erNormal, v.settle p (made.map PinctrlWanted.state) n) := by
    refine addSetting_eq hp hvstates hvlist (hdev.others hpool) ?_ ?_ ?_ (hwell.later ?_) ?_
    · rw [hvlist]
      exact List.append_ne_nil_of_right_ne_nil _ (hdev.blocks_ne_nil hmade)
    · rw [hdev.names_made hmade]
      exact hdev.different
    · exact fun x hx g hg => hdev.fromName hmade hx hg
    · omega
    · omega
  refine ⟨v.settle p (made.map PinctrlWanted.state) n, ?_, Function.update_self .., hvdts, hvlist⟩
  change (if !isValid p then _ else fwkPinctrlAddState cfg re (s.own.newPctl p dev)
    (((s.work.ask.setStates p []).setDtMaps p []).setCurrent p none) p >>= _) = _
  rw [hmemory, hstart, hstates]
  change (fwkPinctrlAddSetting cfg re (s.own.newPctl p dev) v p >>= _) = _
  rw [hsettings]
  rfl

end Device

/-! ## What is released -/

theorem AskedIn.mem {k last a : Nat} {addrs : List Nat} (h : AskedIn re k last addrs)
    (ha : a ∈ addrs) : ∃ q, k ≤ q ∧ q < last ∧ re.kzalloc q = a := by
  obtain ⟨qs, rfl, -, hrange⟩ := h
  obtain ⟨q, hq, hqa⟩ := List.mem_map.mp ha
  exact ⟨q, (hrange q hq).1, (hrange q hq).2, hqa⟩

theorem AskedIn.nodup {k last : Nat} {addrs : List Nat} (h : AskedIn re k last addrs)
    (hdifferent : ∀ m n, k ≤ m → m < n → n < last → re.kzalloc m ≠ re.kzalloc n) :
    addrs.Nodup := by
  obtain ⟨qs, rfl, hsorted, hrange⟩ := h
  rw [List.Nodup, List.pairwise_map]
  apply hsorted.imp_of_mem
  intro m n hm hn hlt
  exact hdifferent m n (hrange m hm).1 hlt (hrange n hn).2

/-- The addresses of the maps of some states, as the object knows them, -/
theorem addrs_dtMaps (made : List PinctrlWanted) :
    (made.flatMap PinctrlWanted.dtMaps).map PinctrlDtMap.sprtMaps =
      (made.flatMap Prod.snd).map PinctrlGroup.addr := by
  rw [List.map_flatMap, List.map_flatMap]
  apply List.flatMap_congr
  intro x _
  rw [PinctrlWanted.dtMaps, List.map_map]
  rfl

theorem mem_dtMaps {made : List PinctrlWanted} {dt : PinctrlDtMap} :
    dt ∈ made.flatMap PinctrlWanted.dtMaps ↔ ∃ x ∈ made, ∃ g ∈ x.2, g.dtMap = dt := by
  simp only [List.mem_flatMap, PinctrlWanted.dtMaps, List.mem_map]

/-- and as the list of all maps does. -/
theorem mem_blocks {devName : List Char} {made : List PinctrlWanted} {block : PinctrlMaps} :
    block ∈ made.flatMap (PinctrlWanted.blocks cfg own devName) ↔
      ∃ x ∈ made, ∃ g ∈ x.2, g.block cfg own devName x.1 = block := by
  simp only [List.mem_flatMap, PinctrlWanted.blocks, List.mem_map]

/-- **What the allocator gives is new**: the object, and until a question every address. -/
structure FreshMemory (re : PinctrlReplies) (s : Pinctrls) (last : Nat) : Prop where
  object : s.own.pctlLive (re.kzalloc s.work.asked) = false
  maps : ∀ n, s.work.asked ≤ n → n < last → ∀ block ∈ s.work.mapList, block.addr ≠ re.kzalloc n
  different : ∀ m n, s.work.asked ≤ m → m < n → n < last → re.kzalloc m ≠ re.kzalloc n

/-- The question for group `j` of `pinctrl-i`, the first of all groups being question `k`. -/
def groupQuestion (props : List PinctrlProp) (k i j : Nat) : Nat :=
  k + stateQuestions (props.take i) + 3 * j

/-- **The states that the properties ask for**: their names, in order; and the settings of each, group
by group and map by map, with the type of the map and the controller that owns the group. -/
structure StatesAsked (props : List PinctrlProp) (owner : Nat → Nat) (types : Nat → List Nat)
    (names : List (List Char)) (k : Nat) (states : List PinctrlState) : Prop where
  names : states.map PinctrlState.name = names
  settings : ∀ (i : Nat) (prop : PinctrlProp), props[i]? = some prop →
    states[i]?.map PinctrlState.sgrtSettings = some (prop.groups.zipIdx.flatMap fun (h, j) =>
      (types (groupQuestion props k i j)).map fun type => ⟨type, owner h⟩)

theorem PinctrlDevice.statesAsked {dev k : Nat} {names : List (List Char)}
    {made : List PinctrlWanted} (h : PinctrlDevice cfg own owner dev names)
    (hmade : made = cfg.wanted re owner types dev names k) :
    StatesAsked (cfg.props dev) owner types names k (made.map PinctrlWanted.state) where
  names := by
    rw [List.map_map]
    exact h.names_made hmade
  settings i prop hprop := by
    obtain ⟨hi, -⟩ := List.getElem?_eq_some_iff.mp hprop
    obtain ⟨name, hname⟩ : ∃ name, names[i]? = some name :=
      ⟨_, List.getElem?_eq_getElem (h.length ▸ hi)⟩
    have hentry : (names.zip (cfg.props dev))[i]? = some (name, prop) :=
      List.getElem?_zip_eq_some.mpr ⟨hname, hprop⟩
    have hx : made[i]? = some (name, wantedGroups re owner types prop.groups
        (k + stateQuestions ((cfg.props dev).take i))) := by
      rw [hmade, PinctrlTable.wanted, getElem?_wantedStates hentry, List.map_snd_zip h.length.ge]
    rw [List.getElem?_map, hx]
    exact congrArg some (settings_wantedGroups prop.groups _ 0)

/-- **Putting what was just made** takes its maps off the list, and the object, and nothing else. -/
theorem put_wanted {s : Pinctrls} {dev : Nat} {names : List (List Char)} {made : List PinctrlWanted}
    (hpool : Pooled cfg s) (hdev : PinctrlDevice cfg s.own owner dev names)
    (hmade : made = cfg.wanted re owner types dev names (s.work.asked + 1))
    (hfresh : FreshMemory re s (s.work.asked + 1 + stateQuestions (cfg.props dev)))
    (hnew : p ∉ s.own.pctlList) (hdts : w.sgrtDtMaps p = made.flatMap PinctrlWanted.dtMaps)
    (hlist : w.mapList =
      s.work.mapList ++ made.flatMap (PinctrlWanted.blocks cfg s.own (cfg.devName dev))) :
    ∃ u, fwkPinctrlPut ⟨s.own.addPctl p dev, w⟩ p = .ok u ∧ u.work.mapList = s.work.mapList ∧
      u.own.pctlList = s.own.pctlList := by
  have hasked : AskedIn re (s.work.asked + 1) (s.work.asked + 1 + stateQuestions (cfg.props dev))
      ((made.flatMap Prod.snd).map PinctrlGroup.addr) :=
    hmade ▸ askedIn_wantedStates names (cfg.props dev) (s.work.asked + 1)
  obtain ⟨u, hput, hpctls, hmaps⟩ : ∃ u, fwkPinctrlPut ⟨s.own.addPctl p dev, w⟩ p = .ok u ∧ _ := by
    apply put_returns
    · exact Function.update_self ..
    · intro dt hdt
      obtain ⟨x, hx, g, hg, rfl⟩ := mem_dtMaps.mp (hdts ▸ hdt)
      obtain ⟨prop, -, y, -, -, howner⟩ := hdev.owned hmade hx hg
      exact hpool.registered _ (owner_mem howner)
    · rw [hdts, addrs_dtMaps]
      exact hasked.nodup fun m n hm => hfresh.different m n (by omega)
    · intro dt hdt
      obtain ⟨x, hx, g, hg, rfl⟩ := mem_dtMaps.mp (hdts ▸ hdt)
      refine ⟨g.block cfg s.own (cfg.devName dev) x.1, ?_, rfl⟩
      rw [hlist]
      exact List.mem_append_right _ (mem_blocks.mpr ⟨x, hx, g, hg, rfl⟩)
  have hothers : s.work.mapList.filter (fun block =>
      ∀ dt ∈ w.sgrtDtMaps p, dt.sprtMaps ≠ block.addr) = s.work.mapList := by
    rw [List.filter_eq_self]
    intro block hblock
    apply decide_eq_true
    intro dt hdt heq
    obtain ⟨x, hx, g, hg, rfl⟩ := mem_dtMaps.mp (hdts ▸ hdt)
    have hmem : g.addr ∈ (made.flatMap Prod.snd).map PinctrlGroup.addr :=
      List.mem_map_of_mem (List.mem_flatMap.mpr ⟨x, hx, hg⟩)
    obtain ⟨q, hfirst, hlast, hq⟩ := hasked.mem hmem
    exact hfresh.maps q (by omega) hlast block hblock (heq.symm.trans hq.symm)
  have hown : (made.flatMap (PinctrlWanted.blocks cfg s.own (cfg.devName dev))).filter
      (fun block => ∀ dt ∈ w.sgrtDtMaps p, dt.sprtMaps ≠ block.addr) = [] := by
    rw [List.filter_eq_nil_iff]
    intro block hblock hkept
    obtain ⟨x, hx, g, hg, rfl⟩ := mem_blocks.mp hblock
    have hmem : g.dtMap ∈ w.sgrtDtMaps p := hdts ▸ mem_dtMaps.mpr ⟨x, hx, g, hg, rfl⟩
    exact of_decide_eq_true hkept g.dtMap hmem rfl
  refine ⟨u, hput, ?_, ?_⟩
  · rw [hmaps]
    show w.mapList.filter _ = _
    rw [hlist, List.filter_append, hothers, hown, List.append_nil]
  · rw [hpctls]
    show (s.own.pctlList ++ [p]).erase p = _
    rw [List.erase_append_right _ hnew, List.erase_cons_head, List.append_nil]

/-- The question behind the last one, the first of all groups being question `k`. -/
def PinctrlTable.lastQuestion (cfg : PinctrlTable) (re : PinctrlReplies) (owner : Nat → Nat)
    (types : Nat → List Nat) (dev : Nat) (names : List (List Char)) (k : Nat) : Nat :=
  k + stateQuestions (cfg.props dev) + settingQuestions
    ((cfg.wanted re owner types dev names k).flatMap fun x => x.2.flatMap PinctrlGroup.types)

/-- **A device gets the states that its properties ask for**, wherever `fwk_pinctrl_get` is called,
whatever the other devices have, and as long as nothing is refused.  And `fwk_pinctrl_put` leaves the
list of maps and that of the objects as they were. -/
theorem pinctrl_get_put {s : Pinctrls} {dev : Nat} {names : List (List Char)}
    (hcalled : PinctrlGetCalled cfg s) (hdev : PinctrlDevice cfg s.own owner dev names)
    (hwell : AllWell re types s.work.asked
      (cfg.lastQuestion re owner types dev names (s.work.asked + 1)))
    (hfresh : FreshMemory re s (s.work.asked + 1 + stateQuestions (cfg.props dev))) :
    ∃ p t, fwkPinctrlGet cfg re s dev = .ok (some p, t) ∧
      StatesAsked (cfg.props dev) owner types names (s.work.asked + 1) (t.work.sgrtStates p) ∧
      ∃ u, fwkPinctrlPut t p = .ok u ∧ u.work.mapList = s.work.mapList ∧
        u.own.pctlList = s.own.pctlList := by
  have hpool := hcalled.pooled
  have hnew := hpool.not_mem hfresh.object
  obtain ⟨w, hcreate, hstates, hdts, hlist⟩ :=
    createPinctrl_eq hpool hdev hwell rfl le_rfl
  have hget : fwkPinctrlGet cfg re s dev = fwkCreatePinctrl cfg re s dev := by
    rw [fwkPinctrlGet, hdev.new]
  exact ⟨_, _, hget.trans hcreate, hstates ▸ hdev.statesAsked rfl,
    put_wanted hpool hdev rfl hfresh hnew hdts hlist⟩

/-- A controller 0x86000 at node 1, and a device 0x86100 with two groups of pins below it for the
default state and another one for sleep. -/
def statePinctrls : PinctrlTable :=
  { examplePinctrls with
    props := fun dev =>
      if dev = 0x86000 then [⟨4, fun _ => 7⟩] else [⟨8, fun k => 7 + k⟩, ⟨4, fun _ => 9⟩]
    pinctrlNames := fun dev =>
      some (if dev = 0x86000 then [stateDefault] else [stateDefault, stateSleep]) }

/-- Each group of the device has a mux and a configuration. -/
def stateReplies : PinctrlReplies :=
  { exampleReplies 0 with dtNodeToMap := fun _ => some [0, 1] }

/-- The device after its controller has come: two states, with four settings and two. -/
theorem pinctrl_get_put_example :
    ∃ s, exec (pinctrlUse statePinctrls) .start [.call exampleRegister] = some s ∧
      ∃ p t, fwkPinctrlGet statePinctrls stateReplies s 0x86100 = .ok (some p, t) ∧
        StatesAsked (statePinctrls.props 0x86100) (fun _ => 0x87000) (fun _ => [0, 1])
          [stateDefault, stateSleep] (s.work.asked + 1) (t.work.sgrtStates p) ∧
        ∃ u, fwkPinctrlPut t p = .ok u ∧ u.work.mapList = s.work.mapList ∧
          u.own.pctlList = s.own.pctlList := by
  obtain ⟨s, hrun, hasked, hobject, hdev, haddrs⟩ :
      ∃ s, exec (pinctrlUse statePinctrls) .start [.call exampleRegister] = some s ∧
        s.work.asked = 9 ∧ s.own.pctlLive 0x87048 = false ∧
        PinctrlDevice statePinctrls s.own (fun _ => 0x87000) 0x86100 [stateDefault, stateSleep] ∧
        s.work.mapList.map PinctrlMaps.addr = [0x87018] := by
    refine ⟨_, rfl, rfl, rfl, ⟨rfl, ?_, ?_, rfl, rfl, ?_, ?_, ?_⟩, rfl⟩
    · decide
    · intro prop hprop
      rcases List.mem_pair.mp hprop with rfl | rfl
      · exact ⟨by decide, fun h _ => ⟨rfl, rfl⟩⟩
      · exact ⟨by decide, fun h _ => ⟨rfl, rfl⟩⟩
    · decide
    · decide
    · decide
  have hlast : statePinctrls.lastQuestion stateReplies (fun _ => 0x87000) (fun _ => [0, 1])
      0x86100 [stateDefault, stateSleep] (s.work.asked + 1) = 33 := by
    rw [hasked]
    rfl
  have hwell : AllWell stateReplies (fun _ => [0, 1]) s.work.asked 33 := by
    refine ⟨fun n _ hn => isValid_iff.mpr ?_, fun _ _ _ => rfl, fun n hn _ => if_neg (by omega)⟩
    show 0 < 0x87000 + 8 * n ∧ 0x87000 + 8 * n < 0xfffff000
    omega
  have hfresh : FreshMemory stateReplies s
      (s.work.asked + 1 + stateQuestions (statePinctrls.props 0x86100)) := by
    refine ⟨by rw [hasked]; exact hobject, fun n hn _ block hblock => ?_, fun m n _ hmn _ => ?_⟩
    · have hmem := List.mem_map_of_mem (f := PinctrlMaps.addr) hblock
      rw [haddrs] at hmem
      show block.addr ≠ 0x87000 + 8 * n
      rw [List.mem_singleton.mp hmem]
      omega
    · show 0x87000 + 8 * m ≠ 0x87000 + 8 * n
      omega
  exact ⟨s, hrun, pinctrl_get_put (.driver hrun) hdev (hlast ▸ hwell) hfresh⟩

end HeavenFox.Platform
