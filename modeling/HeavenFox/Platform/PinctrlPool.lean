/-
# HeavenFox.Platform.PinctrlPool -- whose the maps are

The maps of all devices are in one list.  A map tells its device by name alone, and a block of maps
is told its `struct fwk_pinctrl` by nothing: only the object refers to the block.  Whatever is called,
and however it fails, every block on the list is one that a listed object refers to, and
its maps have the name of that object's device (`pooled_of_run`).
-/
import HeavenFox.Platform.PinctrlRuns

namespace HeavenFox.Platform

open HeavenFox.Common HeavenFox.Logic

namespace PinctrlWork

def setMaps (w : PinctrlWork) (maps : List PinctrlMaps) : PinctrlWork := { w with mapList := maps }

/-- Every block of maps is one that a user refers to, and its maps carry the name of that user's
device. -/
def OwnedBy (names : Nat → List Char) (users : Nat → Prop) (w : PinctrlWork) : Prop :=
  ∀ block ∈ w.mapList, ∃ p, users p ∧ (∃ dt ∈ w.sgrtDtMaps p, dt.sprtMaps = block.addr) ∧
    ∀ map ∈ block.sprtMaps, map.devName = names p

variable {names : Nat → List Char} {users users' : Nat → Prop} {w w' : PinctrlWork}

theorem OwnedBy.mono (h : w.OwnedBy names users) (husers : ∀ p, users p → users' p) :
    w.OwnedBy names users' := by
  intro block hblock
  obtain ⟨p, hp, hrest⟩ := h block hblock
  exact ⟨p, husers p hp, hrest⟩

/-- The questions and the states of the objects are no part of it. -/
theorem OwnedBy.frame (h : w.OwnedBy names users) (hlist : w'.mapList = w.mapList)
    (hmaps : w'.sgrtDtMaps = w.sgrtDtMaps) : w'.OwnedBy names users := by
  intro block hblock
  rw [hmaps]
  exact h block (hlist ▸ hblock)

/-- Nor is what nobody uses. -/
theorem OwnedBy.congr {names' : Nat → List Char} (h : w.OwnedBy names users)
    (hlist : w'.mapList = w.mapList) (hmaps : ∀ p, users p → w'.sgrtDtMaps p = w.sgrtDtMaps p)
    (hnames : ∀ p, users p → names' p = names p) : w'.OwnedBy names' users := by
  intro block hblock
  obtain ⟨p, hp, hdt, hname⟩ := h block (hlist ▸ hblock)
  exact ⟨p, hp, by rwa [hmaps p hp], fun map hmap => (hname map hmap).trans (hnames p hp).symm⟩

end PinctrlWork

variable {cfg : PinctrlTable} {re : PinctrlReplies} {own : PinctrlOwners} {w w' : PinctrlWork}
  {names : Nat → List Char} {users : Nat → Prop} {p d addr : Nat} {retval : Int}

/-! ## Releasing -/

theorem mapsFree_eq (h : fwkPinctrlMapsFree own w d addr = .ok w') :
    w' = w.setMaps (w.mapList.filter fun block => block.addr ≠ addr) := by
  unfold fwkPinctrlMapsFree at h
  split at h
  next => cases h
  next =>
    obtain ⟨-, -, h⟩ := except_bind.mp h
    exact (Except.ok.inj h).symm

/-- The blocks that are released are off the list, and nothing else is changed. -/
theorem freeDtMaps_filter {dts : List PinctrlDtMap} (h : freeDtMaps own dts w = .ok w') :
    w' = w.setMaps (w.mapList.filter fun block => ∀ dt ∈ dts, dt.sprtMaps ≠ block.addr) := by
  induction dts generalizing w with
  | nil =>
    cases h
    simp [PinctrlWork.setMaps]
  | cons dt dts ih =>
    obtain ⟨u, hfirst, hrest⟩ := except_bind.mp h
    rw [ih hrest, mapsFree_eq hfirst]
    simp only [PinctrlWork.setMaps, List.filter_filter]
    congr 1
    apply List.filter_congr
    intro block _
    rw [← Bool.decide_and, decide_eq_decide, List.forall_mem_cons, and_comm, ne_comm]

theorem pinctrlFree_filter (h : fwkPinctrlFree own w p = .ok w') :
    w' = ((w.setStates p []).setDtMaps p []).setMaps
      (w.mapList.filter fun block => ∀ dt ∈ w.sgrtDtMaps p, dt.sprtMaps ≠ block.addr) := by
  obtain ⟨u, hfree, h⟩ := except_bind.mp h
  obtain rfl := Except.ok.inj h
  rw [freeDtMaps_filter hfree]
  rfl

/-- **An object that is freed has no blocks left**, and nobody else lost one. -/
theorem ownedBy_free (h : w.OwnedBy names users) (hfree : fwkPinctrlFree own w p = .ok w') :
    w'.OwnedBy names fun q => users q ∧ q ≠ p := by
  rw [pinctrlFree_filter hfree]
  intro block hblock
  obtain ⟨hmem, hnot⟩ := List.mem_filter.mp hblock
  obtain ⟨q, hq, ⟨dt, hdt, haddr⟩, hname⟩ := h block hmem
  have hqp : q ≠ p := by
    rintro rfl
    exact of_decide_eq_true hnot dt hdt haddr
  refine ⟨q, ⟨hq, hqp⟩, ⟨dt, ?_, haddr⟩, hname⟩
  simpa [PinctrlWork.setMaps, PinctrlWork.setDtMaps, PinctrlWork.setStates, hqp] using hdt

/-! ## Making states -/

/-- A new block that is referred to. -/
theorem ownedBy_made (h : w.OwnedBy names users) (hp : users p) {block : PinctrlMaps} {n : Nat}
    (hname : ∀ map ∈ block.sprtMaps, map.devName = names p) :
    ({ w with mapList := w.mapList ++ [block], asked := n }.setDtMaps p
      (w.sgrtDtMaps p ++ [(⟨d, block.addr⟩ : PinctrlDtMap)])).OwnedBy names users := by
  intro b hb
  obtain hb | hb := List.mem_append.mp hb
  · obtain ⟨q, hq, ⟨dt, hdt, haddr⟩, hnames⟩ := h b hb
    refine ⟨q, hq, ⟨dt, ?_, haddr⟩, hnames⟩
    by_cases hqp : q = p
    · subst hqp
      simp [PinctrlWork.setDtMaps, hdt]
    · simpa [PinctrlWork.setDtMaps, hqp] using hdt
  · obtain rfl := List.mem_singleton.mp hb
    exact ⟨p, hp, ⟨⟨d, b.addr⟩, by simp [PinctrlWork.setDtMaps], rfl⟩, hname⟩

/-- A new block that is taken off again. -/
theorem ownedBy_unmade (h : w.OwnedBy names users) {block : PinctrlMaps} {n : Nat}
    (hfree : fwkPinctrlMapsFree own { w with mapList := w.mapList ++ [block], asked := n } d
      block.addr = .ok w') : w'.OwnedBy names users := by
  rw [mapsFree_eq hfree]
  intro b hb
  obtain ⟨hmem, hne⟩ := List.mem_filter.mp hb
  obtain hmem | hmem := List.mem_append.mp hmem
  · exact h b hmem
  · obtain rfl := List.mem_singleton.mp hmem
    exact absurd rfl (of_decide_eq_true hne)

/-- The loop over the groups, wherever it ends. -/
theorem ownedBy_createGroups {name : List Char} {hs : List Nat} {b : Bool}
    (h : w.OwnedBy names users) (hp : users p) (hname : names p = cfg.devName (own.sprtDev p))
    (hrun : createGroups cfg re own p name hs w = .ok (b, w')) : w'.OwnedBy names users := by
  induction hs generalizing w with
  | nil =>
    cases hrun
    exact h
  | cons phandle hs ih =>
    rw [createGroups] at hrun
    split at hrun
    next =>
      cases hrun
      exact h
    next d _ =>
      split at hrun
      next =>
        cases hrun
        exact h
      next =>
        split at hrun
        next =>
          cases hrun
          exact h
        next types _ =>
          simp only at hrun
          split at hrun
          next =>
            obtain ⟨-, -, hrun⟩ := except_bind.mp hrun
            cases hrun
            exact h
          next =>
            split at hrun
            next =>
              obtain ⟨u, hfree, hrun⟩ := except_bind.mp hrun
              cases hrun
              exact ownedBy_unmade h hfree
            next =>
              refine ih (ownedBy_made h hp fun map hmap => ?_) hrun
              obtain ⟨type, -, rfl⟩ := List.mem_map.mp hmap
              exact hname.symm

/-- A state that is not made takes everything of the object with it. -/
theorem ownedBy_createState {prop : PinctrlProp} {stateName : Option (List Char)}
    {found : Option PinctrlState} (h : w.OwnedBy names users) (hp : users p)
    (hname : names p = cfg.devName (own.sprtDev p))
    (hrun : fwkPinctrlCreateState cfg re own w p prop stateName = .ok (found, w')) :
    w'.OwnedBy names users := by
  obtain ⟨⟨done, u⟩, hgroups, hrun⟩ := except_bind.mp hrun
  have hu := ownedBy_createGroups h hp hname hgroups
  simp only at hrun
  split at hrun
  next =>
    obtain ⟨v, hfree, hrun⟩ := except_bind.mp hrun
    cases hrun
    exact (ownedBy_free hu hfree).mono fun _ hq => hq.1
  next =>
    split at hrun
    next =>
      obtain ⟨v, hfree, hrun⟩ := except_bind.mp hrun
      cases hrun
      have hask : u.ask.OwnedBy names users := hu.frame rfl rfl
      exact (ownedBy_free hask hfree).mono fun _ hq => hq.1
    next =>
      cases hrun
      exact hu

/-- The loop over the properties: where it fails, the object has no block left. -/
theorem ownedBy_addStateLoop {idx : Nat} {held : Option (List Char)} {props : List PinctrlProp}
    (h : w.OwnedBy names users) (hp : users p) (hname : names p = cfg.devName (own.sprtDev p))
    (hrun : addStateLoop cfg re own p idx held props w = .ok (retval, w')) :
    w'.OwnedBy names users ∧ (retval ≠ 0 → w'.OwnedBy names fun q => users q ∧ q ≠ p) := by
  have hfreed : ∀ {u v : PinctrlWork}, u.OwnedBy names users → fwkPinctrlFree own u p = .ok v →
      v.OwnedBy names users ∧ (retval ≠ 0 → v.OwnedBy names fun q => users q ∧ q ≠ p) := by
    intro u v hu hfree
    have hv := ownedBy_free hu hfree
    exact ⟨hv.mono fun _ hq => hq.1, fun _ => hv⟩
  induction props generalizing w idx held with
  | nil =>
    rw [addStateLoop] at hrun
    split at hrun
    next =>
      obtain ⟨u, hfree, hrun⟩ := except_bind.mp hrun
      cases hrun
      exact hfreed h hfree
    next =>
      cases hrun
      exact ⟨h, fun hne => absurd rfl hne⟩
  | cons prop props ih =>
    rw [addStateLoop] at hrun
    obtain ⟨b, -, hrun⟩ := except_bind.mp hrun
    split at hrun
    next => exact ih h hrun
    next =>
      obtain ⟨⟨found, u⟩, hstate, hrun⟩ := except_bind.mp hrun
      have hu := ownedBy_createState h hp hname hstate
      cases found with
      | none =>
        obtain ⟨v, hfree, hrun⟩ := except_bind.mp hrun
        cases hrun
        exact hfreed hu hfree
      | some state =>
        exact ih (w := u.setStates p (u.sgrtStates p ++ [state])) (hu.frame rfl rfl) hrun

/-! ## Making settings -/

/-- The loop over all maps leaves the maps alone. -/
theorem addSettingLoop_maps (cfg : PinctrlTable) (re : PinctrlReplies) (own : PinctrlOwners) (p : Nat)
    (maps : List PinctrlMap) (w : PinctrlWork) :
    (addSettingLoop cfg re own p maps w).2.mapList = w.mapList ∧
      (addSettingLoop cfg re own p maps w).2.sgrtDtMaps = w.sgrtDtMaps := by
  induction maps generalizing w with
  | nil => exact ⟨rfl, rfl⟩
  | cons map maps ih =>
    have hask : ∀ (known : Prop) [Decidable known] (u : PinctrlWork),
        (if known then u.ask else u).mapList = u.mapList ∧
          (if known then u.ask else u).sgrtDtMaps = u.sgrtDtMaps := by
      intro known _ u
      split
      · exact ⟨rfl, rfl⟩
      · exact ⟨rfl, rfl⟩
    rw [addSettingLoop]
    split
    next => exact ih w
    next =>
      split
      next => exact ih w
      next =>
        split
        next => exact ⟨rfl, rfl⟩
        next =>
          simp only
          split
          next => exact ⟨rfl, rfl⟩
          next =>
            obtain ⟨hlist, hmaps⟩ := hask (decide (map.type = 0 ∨ map.type = 1) = true) w.ask
            generalize (if decide (map.type = 0 ∨ map.type = 1) = true then w.ask.ask else w.ask) = u
              at hlist hmaps
            generalize (if decide (map.type = 0 ∨ map.type = 1) = true then re.call w.ask.asked
              else 0) = retval
            split
            · exact ⟨hlist, hmaps⟩
            · exact ⟨(ih _).1.trans hlist, (ih _).2.trans hmaps⟩

theorem ownedBy_addSetting (h : w.OwnedBy names users)
    (hrun : fwkPinctrlAddSetting cfg re own w p = .ok (retval, w')) : w'.OwnedBy names users := by
  unfold fwkPinctrlAddSetting at hrun
  split at hrun
  next =>
    cases hrun
    exact h
  next =>
    generalize hr : addSettingLoop cfg re own p (w.mapList.flatMap PinctrlMaps.sprtMaps) w = r
      at hrun
    obtain ⟨done, u⟩ := r
    have hu : u.OwnedBy names users := by
      obtain ⟨hlist, hmaps⟩ :=
        addSettingLoop_maps cfg re own p (w.mapList.flatMap PinctrlMaps.sprtMaps) w
      rw [hr] at hlist hmaps
      exact h.frame hlist hmaps
    simp only at hrun
    split at hrun
    next =>
      cases hrun
      exact hu
    next =>
      obtain ⟨v, hfree, hrun⟩ := except_bind.mp hrun
      cases hrun
      exact (ownedBy_free hu hfree).mono fun _ hq => hq.1

/-! ## Calls -/

/-- **The pool.**  The objects that are live are those on the list, each once; so are the controllers;
and the blocks of maps are those of the objects on the list. -/
structure Pooled (cfg : PinctrlTable) (s : Pinctrls) : Prop where
  live : ∀ p, s.own.pctlLive p = true ↔ p ∈ s.own.pctlList
  nodup : s.own.pctlList.Nodup
  registered : ∀ d ∈ s.own.pctldevList, s.own.pctldevLive d = true
  distinct : s.own.pctldevList.Nodup
  owned : s.work.OwnedBy (fun p => cfg.devName (s.own.sprtDev p)) (· ∈ s.own.pctlList)

variable {s t : Pinctrls} {dev i : Nat} {found : Option Nat}

/-- The infos and what is known of a controller are no part of it. -/
theorem Pooled.frame (h : Pooled cfg s) (hlive : t.own.pctlLive = s.own.pctlLive)
    (hlist : t.own.pctlList = s.own.pctlList) (hdevs : t.own.pctldevList = s.own.pctldevList)
    (hdevLive : t.own.pctldevLive = s.own.pctldevLive) (hdev : t.own.sprtDev = s.own.sprtDev)
    (hmaps : t.work.mapList = s.work.mapList) (hdt : t.work.sgrtDtMaps = s.work.sgrtDtMaps) :
    Pooled cfg t where
  live p := by rw [hlive, hlist, h.live]
  nodup := hlist ▸ h.nodup
  registered d hd := by
    rw [hdevs] at hd
    rw [hdevLive, h.registered d hd]
  distinct := hdevs ▸ h.distinct
  owned := by
    rw [hlist, hdev]
    exact h.owned.frame hmaps hdt

theorem Pooled.setWork (h : Pooled cfg s) (hmaps : w.mapList = s.work.mapList)
    (hdt : w.sgrtDtMaps = s.work.sgrtDtMaps) : Pooled cfg { s with work := w } :=
  h.frame rfl rfl rfl rfl rfl hmaps hdt

/-- What is live is found on the list of what is live. -/
theorem Pooled.not_mem (h : Pooled cfg s) (hp : s.own.pctlLive p = false) : p ∉ s.own.pctlList := by
  intro hmem
  rw [(h.live p).mpr hmem] at hp
  cases hp

/-- A new object that fails is as if it had not been. -/
theorem Pooled.gone (h : Pooled cfg s) (hp : p ∉ s.own.pctlList)
    (hw : w.OwnedBy (fun q => cfg.devName (Function.update s.own.sprtDev p dev q)) fun q =>
      (q ∈ s.own.pctlList ∨ q = p) ∧ q ≠ p) :
    Pooled cfg ⟨{ s.own with
      sprtDev := Function.update s.own.sprtDev p dev
      pctlLive := Function.update (Function.update s.own.pctlLive p true) p false }, w⟩ where
  live q := by
    by_cases hqp : q = p
    · simp [hqp, hp]
    · simpa [hqp] using h.live q
  nodup := h.nodup
  registered := h.registered
  distinct := h.distinct
  owned := hw.mono fun q hq => hq.1.resolve_right hq.2

/-- And one that is made is on the list. -/
theorem Pooled.added (h : Pooled cfg s) (hp : p ∉ s.own.pctlList)
    (hw : w.OwnedBy (fun q => cfg.devName (Function.update s.own.sprtDev p dev q)) fun q =>
      q ∈ s.own.pctlList ∨ q = p) :
    Pooled cfg ⟨s.own.addPctl p dev, w⟩ where
  live q := by
    by_cases hqp : q = p
    · simp [PinctrlOwners.addPctl, hqp]
    · simpa [PinctrlOwners.addPctl, hqp] using h.live q
  nodup := by
    show (s.own.pctlList ++ [p]).Nodup
    rw [List.nodup_append]
    exact ⟨h.nodup, List.nodup_singleton p, fun a ha b hb => by
      rw [List.mem_singleton.mp hb]
      exact ne_of_mem_of_not_mem ha hp⟩
  registered := h.registered
  distinct := h.distinct
  owned := hw.mono fun q hq => by simpa [PinctrlOwners.addPctl] using hq

/-- `fwk_create_pinctrl`. -/
theorem pooled_create (h : Pooled cfg s) (hp : re.kzalloc s.work.asked ∉ s.own.pctlList)
    (hrun : fwkCreatePinctrl cfg re s dev = .ok (found, t)) : Pooled cfg t := by
  unfold fwkCreatePinctrl at hrun
  simp only at hrun
  generalize re.kzalloc s.work.asked = p at hp hrun
  have hstart : (((s.work.ask.setStates p []).setDtMaps p []).setCurrent p none).OwnedBy
      (fun q => cfg.devName (Function.update s.own.sprtDev p dev q))
      fun q => q ∈ s.own.pctlList ∨ q = p := by
    have hlisted : (((s.work.ask.setStates p []).setDtMaps p []).setCurrent p none).OwnedBy
        (fun q => cfg.devName (Function.update s.own.sprtDev p dev q)) (· ∈ s.own.pctlList) := by
      refine h.owned.congr ?_ (fun q hq => ?_) fun q hq => ?_
      · rfl
      · have hqp : q ≠ p := ne_of_mem_of_not_mem hq hp
        simp [PinctrlWork.setCurrent, PinctrlWork.setDtMaps, PinctrlWork.setStates,
          PinctrlWork.ask, hqp]
      · have hqp : q ≠ p := ne_of_mem_of_not_mem hq hp
        simp [hqp]
    exact hlisted.mono fun _ => .inl
  split at hrun
  next =>
    cases hrun
    exact h.setWork rfl rfl
  next =>
    obtain ⟨⟨retval, u⟩, hstates, hrun⟩ := except_bind.mp hrun
    obtain ⟨hu, hfailed⟩ := ownedBy_addStateLoop hstart (.inr rfl) rfl hstates
    simp only at hrun
    split at hrun
    next hne =>
      cases hrun
      exact h.gone hp (hfailed hne)
    next =>
      obtain ⟨⟨retval, v⟩, hsettings, hrun⟩ := except_bind.mp hrun
      have hv := ownedBy_addSetting hu hsettings
      simp only at hrun
      split at hrun
      next =>
        obtain ⟨x, hfree, hrun⟩ := except_bind.mp hrun
        cases hrun
        exact h.gone hp (ownedBy_free hv hfree)
      next =>
        cases hrun
        exact h.added hp hv

/-- `fwk_pinctrl_get`. -/
theorem pooled_get (h : Pooled cfg s) (hp : s.own.pctlLive (re.kzalloc s.work.asked) = false)
    (hrun : fwkPinctrlGet cfg re s dev = .ok (found, t)) : Pooled cfg t := by
  unfold fwkPinctrlGet at hrun
  split at hrun
  next =>
    cases hrun
    exact h
  next => exact pooled_create h (h.not_mem hp) hrun

/-- `fwk_pinctrl_put`. -/
theorem pooled_put (h : Pooled cfg s) (hrun : fwkPinctrlPut s p = .ok t) : Pooled cfg t := by
  unfold fwkPinctrlPut at hrun
  split at hrun
  next => cases hrun
  next =>
    obtain ⟨u, hfree, hrun⟩ := except_bind.mp hrun
    cases hrun
    have hmem : ∀ q, q ∈ s.own.pctlList.erase p ↔ q ∈ s.own.pctlList ∧ q ≠ p := fun q => by
      rw [h.nodup.mem_erase_iff, and_comm]
    refine ⟨fun q => ?_, h.nodup.erase p, h.registered, h.distinct, ?_⟩
    · by_cases hqp : q = p
      · simp [hqp, h.nodup.mem_erase_iff]
      · simpa [hqp, h.nodup.mem_erase_iff] using h.live q
    · exact (ownedBy_free h.owned hfree).mono fun q hq => (hmem q).mpr hq

theorem selectLoop_maps {settings : List PinctrlSetting}
    (h : selectLoop re own settings w = .ok (retval, w')) :
    w'.mapList = w.mapList ∧ w'.sgrtDtMaps = w.sgrtDtMaps := by
  induction settings generalizing w with
  | nil =>
    cases h
    exact ⟨rfl, rfl⟩
  | cons setting settings ih =>
    rw [selectLoop] at h
    simp only at h
    have hask : ∀ (asks : Bool) (u : PinctrlWork), (if asks then u.ask else u).mapList = u.mapList ∧
        (if asks then u.ask else u).sgrtDtMaps = u.sgrtDtMaps := by
      rintro (_ | _) u
      · exact ⟨rfl, rfl⟩
      · exact ⟨rfl, rfl⟩
    split at h
    next => cases h
    next =>
      split at h
      next =>
        generalize (if setting.type = 0 then (own.pctldev setting.sprtPctldev).sprtDesc.setMux
          else (own.pctldev setting.sprtPctldev).sprtDesc.pinConfigSet) = asks at h
        obtain ⟨hlist, hmaps⟩ := hask asks w
        generalize (if asks then w.ask else w) = u at h hlist hmaps
        generalize (if asks then re.call w.asked else 0) = r at h
        split at h
        next =>
          cases h
          exact ⟨hlist, hmaps⟩
        next => exact ⟨(ih h).1.trans hlist, (ih h).2.trans hmaps⟩
      next =>
        cases h
        exact ⟨rfl, rfl⟩

/-- `fwk_pinctrl_select_state`. -/
theorem selectState_maps (h : fwkPinctrlSelectState re own w p i = .ok (retval, w')) :
    w'.mapList = w.mapList ∧ w'.sgrtDtMaps = w.sgrtDtMaps := by
  unfold fwkPinctrlSelectState at h
  split at h
  next => cases h
  next =>
    split at h
    next =>
      cases h
      exact ⟨rfl, rfl⟩
    next =>
      split at h
      next => cases h
      next =>
        obtain ⟨⟨retval, u⟩, hloop, h⟩ := except_bind.mp h
        have hu := selectLoop_maps hloop
        simp only at h
        split at h
        next =>
          cases h
          exact hu
        next =>
          cases h
          exact hu

theorem Pooled.select (h : Pooled cfg s)
    (hrun : fwkPinctrlSelectState re s.own s.work p i = .ok (retval, w)) :
    Pooled cfg { s with work := w } :=
  h.setWork (selectState_maps hrun).1 (selectState_maps hrun).2

/-- A controller that comes, -/
theorem Pooled.addPctldev (h : Pooled cfg s) (hd : s.own.pctldevLive d = false) (c : PinctrlDev) :
    Pooled cfg (s.ask.addPctldev d c) where
  live := h.live
  nodup := h.nodup
  registered e he := by
    by_cases hed : e = d
    · simp [Pinctrls.addPctldev, hed]
    · have hmem : e ∈ s.own.pctldevList := by
        simpa [Pinctrls.addPctldev, Pinctrls.ask, hed] using he
      simpa [Pinctrls.addPctldev, Pinctrls.ask, hed] using h.registered e hmem
  distinct := by
    show (s.own.pctldevList ++ [d]).Nodup
    rw [List.nodup_append]
    refine ⟨h.distinct, List.nodup_singleton d, fun a ha b hb => ?_⟩
    rw [List.mem_singleton.mp hb]
    rintro rfl
    rw [h.registered a ha] at hd
    cases hd
  owned := h.owned

/-- and one that goes. -/
theorem Pooled.dropPctldev (h : Pooled cfg s) : Pooled cfg (s.dropPctldev d) where
  live := h.live
  nodup := h.nodup
  registered e he := by
    obtain ⟨hed, hmem⟩ := h.distinct.mem_erase_iff.mp he
    simpa [Pinctrls.dropPctldev, hed] using h.registered e hmem
  distinct := h.distinct.erase d
  owned := h.owned

/-- `fwk_pinctrl_bind_pins`. -/
theorem pooled_bind (h : Pooled cfg s)
    (hp : s.own.pctlLive (re.kzalloc (s.work.asked + 1)) = false)
    (hrun : fwkPinctrlBindPins cfg re s dev = .ok (retval, t)) : Pooled cfg t := by
  simp only [fwkPinctrlBindPins] at hrun
  split at hrun
  next =>
    cases hrun
    exact h.setWork rfl rfl
  next =>
    obtain ⟨⟨found, u⟩, hget, hrun⟩ := except_bind.mp hrun
    have hask : Pooled cfg (s.ask.setInfoLive (re.kzalloc s.work.asked) true) :=
      h.frame rfl rfl rfl rfl rfl rfl rfl
    have hu := pooled_get hask hp hget
    cases found with
    | none =>
      cases hrun
      exact hu.frame rfl rfl rfl rfl rfl rfl rfl
    | some p =>
      simp only at hrun
      generalize hinfo : (u.setPctlinfo dev (some (re.kzalloc s.work.asked))).setInfo
        (re.kzalloc s.work.asked) _ = v at hrun
      have hv : Pooled cfg v := hinfo ▸ hu.frame rfl rfl rfl rfl rfl rfl rfl
      split at hrun
      next =>
        cases hrun
        exact hv
      next state _ =>
        obtain ⟨⟨r, w⟩, hsel, hrun⟩ := except_bind.mp hrun
        have hx := hv.select hsel
        simp only at hrun
        split at hrun
        next =>
          obtain ⟨y, hput, hrun⟩ := except_bind.mp hrun
          cases hrun
          exact (pooled_put hx hput).frame rfl rfl rfl rfl rfl rfl rfl
        next =>
          cases hrun
          exact hx.frame rfl rfl rfl rfl rfl rfl rfl

/-- `fwk_pinctrl_register`. -/
theorem pooled_register {desc : PinctrlDesc} (h : Pooled cfg s)
    (hd : s.own.pctldevLive (re.kzalloc s.work.asked) = false)
    (hp : s.own.pctlLive (re.kzalloc (s.work.asked + 1)) = false)
    (hrun : fwkPinctrlRegister cfg re s desc dev = .ok (found, t)) : Pooled cfg t := by
  simp only [fwkPinctrlRegister] at hrun
  split at hrun
  next =>
    cases hrun
    exact h
  next =>
    split at hrun
    next =>
      cases hrun
      exact h.setWork rfl rfl
    next =>
      obtain ⟨⟨found, u⟩, hget, hrun⟩ := except_bind.mp hrun
      have hu := pooled_get (h.addPctldev hd _) hp hget
      cases found with
      | none =>
        cases hrun
        exact hu.dropPctldev
      | some p =>
        simp only at hrun
        generalize hset : u.setPctldev (re.kzalloc s.work.asked) _ = v at hrun
        have hv : Pooled cfg v := hset ▸ hu.frame rfl rfl rfl rfl rfl rfl rfl
        split at hrun
        next =>
          cases hrun
          exact hv
        next state _ =>
          obtain ⟨⟨r, w⟩, hsel, hrun⟩ := except_bind.mp hrun
          have hx := hv.select hsel
          simp only at hrun
          split at hrun
          next =>
            obtain ⟨y, hput, hrun⟩ := except_bind.mp hrun
            cases hrun
            exact (pooled_put hx hput).dropPctldev
          next =>
            cases hrun
            exact hx.frame rfl rfl rfl rfl rfl rfl rfl

/-- `fwk_pinctrl_unbind_pins`. -/
theorem pooled_unbind (h : Pooled cfg s) (hrun : fwkPinctrlUnbindPins re s dev = .ok t) :
    Pooled cfg t := by
  unfold fwkPinctrlUnbindPins at hrun
  split at hrun
  next =>
    cases hrun
    exact h
  next i _ =>
    split at hrun
    next => cases hrun
    next =>
      obtain ⟨u, hsel, hrun⟩ := except_bind.mp hrun
      obtain ⟨v, hput, hrun⟩ := except_bind.mp hrun
      cases hrun
      have hu : Pooled cfg u := by
        unfold unbindSelect at hsel
        split at hsel
        next =>
          cases hsel
          exact h
        next =>
          obtain ⟨⟨r, w⟩, hstate, hsame⟩ := except_bind.mp hsel
          cases hsame
          exact h.select hstate
      exact (pooled_put hu hput).frame rfl rfl rfl rfl rfl rfl rfl

/-- `fwk_pinctrl_unregister`. -/
theorem pooled_unregister (h : Pooled cfg s) (hrun : fwkPinctrlUnregister s d = .ok t) :
    Pooled cfg t := by
  unfold fwkPinctrlUnregister at hrun
  split at hrun
  next => cases hrun
  next =>
    split at hrun
    next =>
      cases hrun
      exact h.dropPctldev
    next =>
      obtain ⟨u, hput, hrun⟩ := except_bind.mp hrun
      cases hrun
      exact (pooled_put h hput).dropPctldev

/-! ## Runs -/

/-- What is called: by the core of the devices and the controllers, or by a driver that takes an object
for a device of its own, selects states and gives it back. -/
inductive PinctrlUse where
  | call (c : PinctrlCall)
  | get (re : PinctrlReplies) (dev : Nat)
  | select (re : PinctrlReplies) (p i : Nat)
  | put (p : Nat)

/-- The allocator does not give away what is in use. -/
def pinctrlUse (cfg : PinctrlTable) (s : Pinctrls) : PinctrlUse → Option Pinctrls
  | .call c => pinctrlStep cfg s c
  | .get re dev =>
    if s.own.pctlLive (re.kzalloc s.work.asked) = false then
      (fwkPinctrlGet cfg re s dev).toOption.map Prod.snd
    else none
  | .select re p i => (fwkPinctrlSelectState re s.own s.work p i).toOption.map fun r =>
    { s with work := r.2 }
  | .put p => (fwkPinctrlPut s p).toOption

/-- **One call**, of whichever function and whether it succeeds or not. -/
theorem pooled_use (s : Pinctrls) (c : PinctrlUse) (t : Pinctrls) (h : Pooled cfg s)
    (hstep : pinctrlUse cfg s c = some t) : Pooled cfg t := by
  match c with
  | .call (.bindPins re dev) =>
    simp only [pinctrlUse, pinctrlStep] at hstep
    split at hstep
    next hfresh =>
      obtain ⟨⟨retval, u⟩, hbind, rfl⟩ := Option.map_eq_some_iff.mp hstep
      exact pooled_bind h hfresh.2.2 (toOption_eq_some hbind)
    next => cases hstep
  | .call (.unbindPins re dev) => exact pooled_unbind h (toOption_eq_some hstep)
  | .call (.register re desc dev) =>
    simp only [pinctrlUse, pinctrlStep] at hstep
    split at hstep
    next hfresh =>
      obtain ⟨⟨found, u⟩, hregister, rfl⟩ := Option.map_eq_some_iff.mp hstep
      exact pooled_register h hfresh.1 hfresh.2 (toOption_eq_some hregister)
    next => cases hstep
  | .call (.unregister d) =>
    simp only [pinctrlUse, pinctrlStep] at hstep
    split at hstep
    next => exact pooled_unregister h (toOption_eq_some hstep)
    next => cases hstep
  | .get re dev =>
    simp only [pinctrlUse] at hstep
    split at hstep
    next hfresh =>
      obtain ⟨⟨found, u⟩, hget, rfl⟩ := Option.map_eq_some_iff.mp hstep
      exact pooled_get h hfresh (toOption_eq_some hget)
    next => cases hstep
  | .select re p i =>
    obtain ⟨⟨retval, w⟩, hsel, rfl⟩ := Option.map_eq_some_iff.mp hstep
    exact h.select (toOption_eq_some hsel)
  | .put p => exact pooled_put h (toOption_eq_some hstep)

theorem pooled_start : Pooled cfg .start where
  live p := by simp [Pinctrls.start]
  nodup := List.nodup_nil
  registered _ hd := absurd hd List.not_mem_nil
  distinct := List.nodup_nil
  owned _ hblock := absurd hblock List.not_mem_nil

/-- **Every run keeps the pool.** -/
theorem pooled_of_run {is : List PinctrlUse} (h : exec (pinctrlUse cfg) .start is = some s) :
    Pooled cfg s :=
  invariant_of_exec pooled_use pooled_start h

/-- **When `fwk_pinctrl_get` is called**: by a driver between the other calls, by a bind that has
its info, and by a registration that has its controller on the list. -/
inductive PinctrlGetCalled (cfg : PinctrlTable) : Pinctrls → Prop
  | driver {is : List PinctrlUse} {s : Pinctrls} (hrun : exec (pinctrlUse cfg) .start is = some s) :
      PinctrlGetCalled cfg s
  | binding {is : List PinctrlUse} {s : Pinctrls} (hrun : exec (pinctrlUse cfg) .start is = some s)
      (i : Nat) : PinctrlGetCalled cfg (s.ask.setInfoLive i true)
  | registering {is : List PinctrlUse} {s : Pinctrls} {d : Nat}
      (hrun : exec (pinctrlUse cfg) .start is = some s) (hd : s.own.pctldevLive d = false)
      (desc : PinctrlDesc) (dev : Nat) :
      PinctrlGetCalled cfg (s.ask.addPctldev d ⟨desc, dev, none, none, none⟩)

theorem PinctrlGetCalled.pooled (h : PinctrlGetCalled cfg s) : Pooled cfg s := by
  match h with
  | .driver hrun => exact pooled_of_run hrun
  | .binding hrun i => exact (pooled_of_run hrun).frame rfl rfl rfl rfl rfl rfl rfl
  | .registering hrun hd desc dev => exact (pooled_of_run hrun).addPctldev hd _

end HeavenFox.Platform
