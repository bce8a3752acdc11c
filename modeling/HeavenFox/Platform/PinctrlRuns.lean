/-
# HeavenFox.Platform.PinctrlRuns -- who still has what was freed

A device and a controller that is registered for it have one `struct fwk_pinctrl` between them, and
each of the two frees it: the one that comes last, or stays, is left with what is gone.  A bind that
fails late frees the info that the device has been given.
-/
import HeavenFox.Platform.Pinctrl

namespace HeavenFox.Platform

open HeavenFox.Common HeavenFox.Logic

/-! ## Owners -/

namespace PinctrlOwners

/-- A new `struct fwk_pinctrl` of the device, at the end of the list. -/
def addPctl (own : PinctrlOwners) (p dev : Nat) : PinctrlOwners :=
  { own with
    sprtDev := Function.update own.sprtDev p dev
    pctlLive := Function.update own.pctlLive p true
    pctlList := own.pctlList ++ [p] }

/-- Off the list, and freed. -/
def dropPctl (own : PinctrlOwners) (p : Nat) : PinctrlOwners :=
  { own with
    pctlList := own.pctlList.erase p
    pctlLive := Function.update own.pctlLive p false }

/-- Live, and on the list exactly once. -/
def Listed (own : PinctrlOwners) (p : Nat) : Prop :=
  own.pctlLive p = true ∧ own.pctlList.count p = 1

/-- **What is promised.**  A device has no info or a live one, and the `struct fwk_pinctrl` of an info
that a device has, or of a registered controller, is live and listed once. -/
structure Kept (own : PinctrlOwners) : Prop where
  info : ∀ dev i, own.sprtPctlinfo dev = some i →
    own.infoLive i = true ∧ own.Listed (own.info i).sprtPctl
  registered : ∀ d ∈ own.pctldevList, ∀ p, (own.pctldev d).sprtPctl = some p → own.Listed p

/-- An info that a device has refers to it, or a registered controller. -/
def InUse (own : PinctrlOwners) (p : Nat) : Prop :=
  (∃ dev i, own.sprtPctlinfo dev = some i ∧ (own.info i).sprtPctl = p) ∨
    ∃ d ∈ own.pctldevList, (own.pctldev d).sprtPctl = some p

/-- What holds as long as nothing went wrong. -/
structure Sound (own : PinctrlOwners) : Prop where
  info : ∀ dev i, own.sprtPctlinfo dev = some i → own.infoLive i = true ∧
    (own.info i).sprtPctl ∈ own.pctlList ∧ own.sprtDev (own.info i).sprtPctl = dev
  registered : ∀ d ∈ own.pctldevList, own.pctldevLive d = true ∧
    ∃ p ∈ own.pctlList, (own.pctldev d).sprtPctl = some p
  live : ∀ p ∈ own.pctlList, own.pctlLive p = true
  used : ∀ p ∈ own.pctlList, own.InUse p
  nodup : own.pctlList.Nodup
  distinct : own.pctldevList.Nodup

/-- Whatever is referred to is as it was. -/
structure Same (own own' : PinctrlOwners) : Prop where
  sprtPctlinfo : own'.sprtPctlinfo = own.sprtPctlinfo
  pctlList : own'.pctlList = own.pctlList
  pctldevList : own'.pctldevList = own.pctldevList
  info : ∀ dev i, own.sprtPctlinfo dev = some i →
    own'.info i = own.info i ∧ own'.infoLive i = own.infoLive i
  pctl : ∀ p ∈ own.pctlList, own'.sprtDev p = own.sprtDev p ∧ own'.pctlLive p = own.pctlLive p
  pctldev : ∀ d ∈ own.pctldevList,
    own'.pctldev d = own.pctldev d ∧ own'.pctldevLive d = own.pctldevLive d

/-- `fwk_pinctrl_get` gave `p` for the device. -/
structure Gets (own own' : PinctrlOwners) (dev p : Nat) : Prop where
  rest : own' = { own with
    sprtDev := own'.sprtDev, pctlLive := own'.pctlLive, pctlList := own'.pctlList }
  mem : ∀ q, q ∈ own'.pctlList ↔ q ∈ own.pctlList ∨ q = p
  live : ∀ q ∈ own'.pctlList, own'.pctlLive q = true
  dev : own'.sprtDev p = dev
  sprtDev : ∀ q ∈ own.pctlList, own'.sprtDev q = own.sprtDev q
  nodup : own'.pctlList.Nodup

variable {own own' : PinctrlOwners} {dev i d p : Nat}

theorem Sound.kept (h : own.Sound) : own.Kept := by
  have hlisted : ∀ p ∈ own.pctlList, own.Listed p := fun p hp =>
    ⟨h.live p hp, List.count_eq_one_of_mem h.nodup hp⟩
  refine ⟨fun dev i hi => ?_, fun d hd p hp => ?_⟩
  · obtain ⟨hlive, hmem, -⟩ := h.info dev i hi
    exact ⟨hlive, hlisted _ hmem⟩
  · obtain ⟨-, q, hq, hqd⟩ := h.registered d hd
    obtain rfl := Option.some.inj (hqd.symm.trans hp)
    exact hlisted _ hq

theorem InUse.same (hsame : own.Same own') (h : own.InUse p) : own'.InUse p := by
  obtain ⟨dev, i, hi, hp⟩ | ⟨d, hd, hp⟩ := h
  · exact .inl ⟨dev, i, by rw [hsame.sprtPctlinfo, hi], by rw [(hsame.info dev i hi).1, hp]⟩
  · exact .inr ⟨d, by rwa [hsame.pctldevList], by rw [(hsame.pctldev d hd).1, hp]⟩

/-- **The frame rule.** -/
theorem Sound.same (h : own.Sound) (hsame : own.Same own') : own'.Sound where
  info dev i hi := by
    rw [hsame.sprtPctlinfo] at hi
    obtain ⟨hlive, hmem, hdev⟩ := h.info dev i hi
    obtain ⟨hinfo, hinfoLive⟩ := hsame.info dev i hi
    rw [hinfo, hinfoLive, hsame.pctlList, (hsame.pctl _ hmem).1]
    exact ⟨hlive, hmem, hdev⟩
  registered d hd := by
    rw [hsame.pctldevList] at hd
    obtain ⟨hpctldev, hpctldevLive⟩ := hsame.pctldev d hd
    rw [hpctldev, hpctldevLive, hsame.pctlList]
    exact h.registered d hd
  live p hp := by
    rw [hsame.pctlList] at hp
    rw [(hsame.pctl p hp).2, h.live p hp]
  used p hp := (h.used p (hsame.pctlList ▸ hp)).same hsame
  nodup := hsame.pctlList ▸ h.nodup
  distinct := hsame.pctldevList ▸ h.distinct

/-- A dropped object is not listed. -/
theorem not_listed_dropPctl : ¬ (own.dropPctl p).Listed p := by
  simp [Listed, dropPctl]

/-- Whoever uses what is freed has nothing left. -/
theorem InUse.not_kept (h : own.InUse p) : ¬ (own.dropPctl p).Kept := by
  intro hkept
  obtain ⟨dev, i, hi, rfl⟩ | ⟨d, hd, hp⟩ := h
  · exact not_listed_dropPctl (hkept.info dev i hi).2
  · exact not_listed_dropPctl (hkept.registered d hd p hp)

/-! ## What stays sound -/

theorem Gets.found (hlive : ∀ q ∈ own.pctlList, own.pctlLive q = true) (hnodup : own.pctlList.Nodup)
    (hp : p ∈ own.pctlList) (hdev : own.sprtDev p = dev) : own.Gets own dev p where
  rest := rfl
  mem _ := ⟨.inl, fun hq => hq.elim id fun heq => heq ▸ hp⟩
  live := hlive
  dev := hdev
  sprtDev _ _ := rfl
  nodup := hnodup

theorem Gets.added (hlive : ∀ q ∈ own.pctlList, own.pctlLive q = true) (hnodup : own.pctlList.Nodup)
    (hnew : p ∉ own.pctlList) : own.Gets (own.addPctl p dev) dev p where
  rest := rfl
  mem q := by simp [addPctl]
  live q hq := by
    by_cases hqp : q = p
    · simp [addPctl, hqp]
    · have hmem : q ∈ own.pctlList := by simpa [addPctl, hqp] using hq
      simp [addPctl, hqp, hlive q hmem]
  dev := by simp [addPctl]
  sprtDev q hq := by simp [addPctl, ne_of_mem_of_not_mem hq hnew]
  nodup := by
    rw [addPctl, List.nodup_append]
    exact ⟨hnodup, List.nodup_singleton p, fun a ha b hb => by
      rw [List.mem_singleton.mp hb]
      exact ne_of_mem_of_not_mem ha hnew⟩

theorem Same.refl : own.Same own :=
  ⟨rfl, rfl, rfl, fun _ _ _ => ⟨rfl, rfl⟩, fun _ _ => ⟨rfl, rfl⟩, fun _ _ => ⟨rfl, rfl⟩⟩

/-- An info that was just made is nobody's, -/
theorem Sound.info_ne (h : own.Sound) (hi : own.infoLive i = false) {x j : Nat}
    (hx : own.sprtPctlinfo x = some j) : j ≠ i := by
  rintro rfl
  simp [(h.info x j hx).1] at hi

/-- and so is a controller. -/
theorem Sound.pctldev_ne (h : own.Sound) (hd : own.pctldevLive d = false) {x : Nat}
    (hx : x ∈ own.pctldevList) : x ≠ d := by
  rintro rfl
  simp [(h.registered x hx).1] at hd

theorem Sound.same_info (h : own.Sound) (hi : own.infoLive i = false)
    (hsame : Same { own with infoLive := Function.update own.infoLive i true } own') :
    own.Same { own' with infoLive := Function.update own'.infoLive i false } where
  sprtPctlinfo := hsame.sprtPctlinfo
  pctlList := hsame.pctlList
  pctldevList := hsame.pctldevList
  info x j hx := by
    have hji := h.info_ne hi hx
    obtain ⟨hinfo, hlive⟩ := hsame.info x j hx
    exact ⟨hinfo, by simpa [hji] using hlive⟩
  pctl := hsame.pctl
  pctldev := hsame.pctldev

theorem Sound.same_pctldev (h : own.Sound) (hd : own.pctldevLive d = false) {c : PinctrlDev}
    (hsame : Same { own with
      pctldev := Function.update own.pctldev d c
      pctldevList := own.pctldevList ++ [d]
      pctldevLive := Function.update own.pctldevLive d true } own') {pctldev : Nat → PinctrlDev}
    (hpctldev : ∀ x, x ≠ d → pctldev x = own'.pctldev x) :
    own.Same { own' with
      pctldev := pctldev
      pctldevList := own'.pctldevList.erase d
      pctldevLive := Function.update own'.pctldevLive d false } where
  sprtPctlinfo := hsame.sprtPctlinfo
  pctlList := hsame.pctlList
  pctldevList := by
    have hnot : d ∉ own.pctldevList := fun hmem => h.pctldev_ne hd hmem rfl
    simp [hsame.pctldevList, List.erase_append_right _ hnot]
  info := hsame.info
  pctl := hsame.pctl
  pctldev x hx := by
    have hxd := h.pctldev_ne hd hx
    obtain ⟨hdev, hlive⟩ := hsame.pctldev x (List.mem_append_left _ hx)
    exact ⟨by simpa [hpctldev x hxd, hxd] using hdev, by simpa [hxd] using hlive⟩

/-- An object made and freed again is nobody's. -/
theorem Same.addDrop (hnew : p ∉ own.pctlList) : own.Same ((own.addPctl p dev).dropPctl p) where
  sprtPctlinfo := rfl
  pctlList := by
    simp [addPctl, dropPctl, List.erase_append_right _ hnew]
  pctldevList := rfl
  info _ _ _ := ⟨rfl, rfl⟩
  pctl q hq := by simp [addPctl, dropPctl, ne_of_mem_of_not_mem hq hnew]
  pctldev _ _ := ⟨rfl, rfl⟩

/-- A device that is bound. -/
theorem Sound.bound (h : own.Sound) (hdev : own.sprtPctlinfo dev = none)
    (hi : own.infoLive i = false) {info : PinctrlDevInfo} (hinfo : info.sprtPctl = p)
    (hget : Gets { own with infoLive := Function.update own.infoLive i true } own' dev p) :
    Sound { own' with
      sprtPctlinfo := Function.update own'.sprtPctlinfo dev (some i)
      info := Function.update own'.info i info } := by
  have hother : ∀ {x j}, own.sprtPctlinfo x = some j → x ≠ dev ∧ j ≠ i := by
    intro x j hx
    refine ⟨fun heq => ?_, h.info_ne hi hx⟩
    rw [heq, hdev] at hx
    cases hx
  obtain ⟨hrest, hmem, hlive, hgot, hsame, hnodup⟩ := hget
  rw [hrest]
  refine ⟨fun x j hx => ?_, fun d hd => ?_, hlive, fun q hq => ?_, hnodup, h.distinct⟩
  · by_cases hxd : x = dev
    · obtain rfl : i = j := by simpa [hxd] using hx
      simp [hinfo, hmem, hgot, hxd]
    · have hx' : own.sprtPctlinfo x = some j := by simpa [hxd] using hx
      have hji := (hother hx').2
      obtain ⟨hjlive, hjmem, hjdev⟩ := h.info x j hx'
      have hjlist := (hmem _).mpr (.inl hjmem)
      have hjsame := hsame _ hjmem
      simp [hji, hjlive, hjlist, hjsame, hjdev]
  · obtain ⟨hd', q, hq, hqd⟩ := h.registered d hd
    exact ⟨hd', q, (hmem q).mpr (.inl hq), hqd⟩
  · by_cases hqp : q = p
    · exact .inl ⟨dev, i, by simp, by simp [hinfo, hqp]⟩
    · have hq' : q ∈ own.pctlList := ((hmem q).mp hq).resolve_right hqp
      obtain ⟨x, j, hx, hj⟩ | ⟨d, hd, hj⟩ := h.used q hq'
      · obtain ⟨hxd, hji⟩ := hother hx
        exact .inl ⟨x, j, by simp [hxd, hx], by simp [hji, hj]⟩
      · exact .inr ⟨d, hd, hj⟩

/-- A controller that is registered. -/
theorem Sound.enlisted (h : own.Sound) (hd : own.pctldevLive d = false) {c c' : PinctrlDev}
    (hc : c'.sprtPctl = some p)
    (hget : Gets { own with
      pctldev := Function.update own.pctldev d c
      pctldevList := own.pctldevList ++ [d]
      pctldevLive := Function.update own.pctldevLive d true } own' dev p) :
    Sound { own' with pctldev := Function.update own'.pctldev d c' } := by
  have hother : ∀ x ∈ own.pctldevList, x ≠ d := fun x hx => h.pctldev_ne hd hx
  obtain ⟨hrest, hmem, hlive, hgot, hsame, hnodup⟩ := hget
  rw [hrest]
  refine ⟨fun x j hx => ?_, fun x hx => ?_, hlive, fun q hq => ?_, hnodup, ?_⟩
  · obtain ⟨hjlive, hjmem, hjdev⟩ := h.info x j hx
    exact ⟨hjlive, (hmem _).mpr (.inl hjmem), (hsame _ hjmem).trans hjdev⟩
  · by_cases hxd : x = d
    · exact ⟨by simp [hxd], p, (hmem p).mpr (.inr rfl), by simp [hxd, hc]⟩
    · have hx' : x ∈ own.pctldevList := by simpa [hxd] using hx
      obtain ⟨hxlive, q, hq, hqx⟩ := h.registered x hx'
      exact ⟨by simp [hxd, hxlive], q, (hmem q).mpr (.inl hq), by simp [hxd, hqx]⟩
  · by_cases hqp : q = p
    · exact .inr ⟨d, by simp, by simp [hc, hqp]⟩
    · have hq' : q ∈ own.pctlList := ((hmem q).mp hq).resolve_right hqp
      obtain ⟨x, j, hx, hj⟩ | ⟨x, hx, hj⟩ := h.used q hq'
      · exact .inl ⟨x, j, hx, hj⟩
      · exact .inr ⟨x, by simp [hx], by simp [hother x hx, hj]⟩
  · rw [List.nodup_append]
    exact ⟨h.distinct, List.nodup_singleton d, fun a ha b hb => by
      rw [List.mem_singleton.mp hb]
      exact hother a ha⟩

/-- A device that is let go, where no controller has what it had. -/
theorem Sound.unbound (h : own.Sound) (hi : own.sprtPctlinfo dev = some i)
    (hnone : ∀ d ∈ own.pctldevList, (own.pctldev d).sprtPctl ≠ some (own.info i).sprtPctl) :
    Sound { own.dropPctl (own.info i).sprtPctl with
      infoLive := Function.update own.infoLive i false
      sprtPctlinfo := Function.update own.sprtPctlinfo dev none } := by
  have hdev := (h.info dev i hi).2.2
  -- the info tells the object, and the object tells the device
  have hother : ∀ {x j}, own.sprtPctlinfo x = some j → x ≠ dev →
      j ≠ i ∧ (own.info j).sprtPctl ≠ (own.info i).sprtPctl := by
    intro x j hx hxd
    have hjdev := (h.info x j hx).2.2
    have hne : (own.info j).sprtPctl ≠ (own.info i).sprtPctl := fun heq =>
      hxd (by rw [← hjdev, heq, hdev])
    exact ⟨fun heq => hne (by rw [heq]), hne⟩
  have hmem : ∀ q, q ∈ own.pctlList.erase (own.info i).sprtPctl ↔
      q ≠ (own.info i).sprtPctl ∧ q ∈ own.pctlList := fun q => h.nodup.mem_erase_iff
  refine ⟨fun x j hx => ?_, fun d hd => ?_, fun q hq => ?_, fun q hq => ?_, h.nodup.erase _,
    h.distinct⟩
  · by_cases hxd : x = dev
    · simp [hxd] at hx
    · have hx' : own.sprtPctlinfo x = some j := by simpa [hxd] using hx
      obtain ⟨hji, hne⟩ := hother hx' hxd
      obtain ⟨hjlive, hjmem, hjdev⟩ := h.info x j hx'
      exact ⟨by simp [hji, hjlive], (hmem _).mpr ⟨hne, hjmem⟩, hjdev⟩
  · obtain ⟨hdlive, q, hq, hqd⟩ := h.registered d hd
    exact ⟨hdlive, q, (hmem q).mpr ⟨fun heq => hnone d hd (heq ▸ hqd), hq⟩, hqd⟩
  · obtain ⟨hne, hq'⟩ := (hmem q).mp hq
    simp [dropPctl, hne, h.live q hq']
  · obtain ⟨hne, hq'⟩ := (hmem q).mp hq
    obtain ⟨x, j, hx, hj⟩ | ⟨d, hd, hj⟩ := h.used q hq'
    · refine .inl ⟨x, j, ?_, hj⟩
      have hxd : x ≠ dev := by
        rintro rfl
        obtain rfl := Option.some.inj (hx.symm.trans hi)
        exact hne hj.symm
      simp [hxd, hx]
    · exact .inr ⟨d, hd, hj⟩

/-- A controller that is gone, where nobody else has what it had. -/
theorem Sound.delisted (h : own.Sound) (hd : (own.pctldev d).sprtPctl = some p)
    (hinfo : ∀ dev i, own.sprtPctlinfo dev = some i → (own.info i).sprtPctl ≠ p)
    (hnone : ∀ x ∈ own.pctldevList, x ≠ d → (own.pctldev x).sprtPctl ≠ some p) :
    Sound { own.dropPctl p with
      pctldevList := own.pctldevList.erase d
      pctldevLive := Function.update own.pctldevLive d false } := by
  have hmem : ∀ q, q ∈ own.pctlList.erase p ↔ q ≠ p ∧ q ∈ own.pctlList :=
    fun q => h.nodup.mem_erase_iff
  have hmemd : ∀ x, x ∈ own.pctldevList.erase d ↔ x ≠ d ∧ x ∈ own.pctldevList :=
    fun x => h.distinct.mem_erase_iff
  refine ⟨fun x j hx => ?_, fun x hx => ?_, fun q hq => ?_, fun q hq => ?_, h.nodup.erase _,
    h.distinct.erase _⟩
  · obtain ⟨hjlive, hjmem, hjdev⟩ := h.info x j hx
    exact ⟨hjlive, (hmem _).mpr ⟨hinfo x j hx, hjmem⟩, hjdev⟩
  · obtain ⟨hxd, hx'⟩ := (hmemd x).mp hx
    obtain ⟨hxlive, q, hq, hqx⟩ := h.registered x hx'
    exact ⟨by simp [hxd, hxlive], q,
      (hmem q).mpr ⟨fun heq => hnone x hx' hxd (heq ▸ hqx), hq⟩, hqx⟩
  · obtain ⟨hne, hq'⟩ := (hmem q).mp hq
    simp [dropPctl, hne, h.live q hq']
  · obtain ⟨hne, hq'⟩ := (hmem q).mp hq
    obtain ⟨x, j, hx, hj⟩ | ⟨x, hx, hj⟩ := h.used q hq'
    · exact .inl ⟨x, j, hx, hj⟩
    · have hxd : x ≠ d := by
        rintro rfl
        exact hne (Option.some.inj (hj.symm.trans hd))
      exact .inr ⟨x, (hmemd x).mpr ⟨hxd, hx⟩, hj⟩

end PinctrlOwners

/-! ## What the functions do to the owners -/

variable {cfg : PinctrlTable} {re : PinctrlReplies} {s t : Pinctrls} {dev d p i : Nat}
  {found : Option Nat} {retval : Int}

theorem findPinctrl_some (h : fwkFindPinctrl s.own dev = some p) :
    p ∈ s.own.pctlList ∧ s.own.sprtDev p = dev :=
  ⟨List.mem_of_find?_eq_some h, by simpa using List.find?_some h⟩

theorem pinctrlPut_effect (h : fwkPinctrlPut s p = .ok t) : t.own = s.own.dropPctl p := by
  unfold fwkPinctrlPut at h
  split at h
  next => cases h
  next =>
    obtain ⟨w, -, hw⟩ := except_bind.mp h
    obtain rfl := Except.ok.inj hw
    rfl

/-- What is made is on the list, or it is gone again. -/
theorem createPinctrl_effect (hnew : re.kzalloc s.work.asked ∉ s.own.pctlList)
    (h : fwkCreatePinctrl cfg re s dev = .ok (found, t)) :
    (found = none ∧ s.own.Same t.own) ∨
      found = some (re.kzalloc s.work.asked) ∧
        t.own = s.own.addPctl (re.kzalloc s.work.asked) dev := by
  have hgone : ∀ w, s.own.Same (Pinctrls.mk
      { s.own with
        sprtDev := Function.update s.own.sprtDev (re.kzalloc s.work.asked) dev
        pctlLive := Function.update (Function.update s.own.pctlLive (re.kzalloc s.work.asked) true)
          (re.kzalloc s.work.asked) false } w).own := fun _ =>
    { PinctrlOwners.Same.addDrop hnew with pctlList := rfl }
  simp only [fwkCreatePinctrl] at h
  split at h
  next =>
    cases h
    exact .inl ⟨rfl, rfl, rfl, rfl, fun _ _ _ => ⟨rfl, rfl⟩, fun _ _ => ⟨rfl, rfl⟩,
      fun _ _ => ⟨rfl, rfl⟩⟩
  next =>
    obtain ⟨⟨retval, w⟩, -, h⟩ := except_bind.mp h
    simp only at h
    split at h
    next =>
      cases h
      exact .inl ⟨rfl, hgone w⟩
    next =>
      obtain ⟨⟨retval, w⟩, -, h⟩ := except_bind.mp h
      simp only at h
      split at h
      next =>
        obtain ⟨w, -, h⟩ := except_bind.mp h
        cases h
        exact .inl ⟨rfl, hgone w⟩
      next =>
        cases h
        exact .inr ⟨rfl, rfl⟩

theorem pinctrlGet_found (h : fwkFindPinctrl s.own dev = some p) :
    fwkPinctrlGet cfg re s dev = .ok (some p, s) := by
  simp only [fwkPinctrlGet, h]

theorem pinctrlGet_none (h : fwkFindPinctrl s.own dev = none) :
    fwkPinctrlGet cfg re s dev = fwkCreatePinctrl cfg re s dev := by
  simp only [fwkPinctrlGet, h]

/-- What `fwk_pinctrl_get` gives was there before, or is new. -/
theorem pinctrlGet_effect (hnew : re.kzalloc s.work.asked ∉ s.own.pctlList)
    (h : fwkPinctrlGet cfg re s dev = .ok (found, t)) :
    (found = none ∧ s.own.Same t.own) ∨ ∃ p, found = some p ∧
      (fwkFindPinctrl s.own dev = some p ∧ t = s ∨
        fwkFindPinctrl s.own dev = none ∧ p ∉ s.own.pctlList ∧ t.own = s.own.addPctl p dev) := by
  cases hfind : fwkFindPinctrl s.own dev with
  | some p =>
    rw [pinctrlGet_found hfind] at h
    cases h
    exact .inr ⟨p, rfl, .inl ⟨rfl, rfl⟩⟩
  | none =>
    rw [pinctrlGet_none hfind] at h
    obtain hnone | ⟨hsome, hadd⟩ := createPinctrl_effect hnew h
    · exact .inl hnone
    · exact .inr ⟨_, hsome, .inr ⟨rfl, hnew, hadd⟩⟩

theorem gets_of_get (hlive : ∀ q ∈ s.own.pctlList, s.own.pctlLive q = true)
    (hnodup : s.own.pctlList.Nodup) (hget : fwkFindPinctrl s.own dev = some p ∧ t = s ∨
    fwkFindPinctrl s.own dev = none ∧ p ∉ s.own.pctlList ∧ t.own = s.own.addPctl p dev) :
    s.own.Gets t.own dev p := by
  obtain ⟨hfind, rfl⟩ | ⟨-, hnew, hadd⟩ := hget
  · exact .found hlive hnodup (findPinctrl_some hfind).1 (findPinctrl_some hfind).2
  · exact hadd ▸ .added hlive hnodup hnew

/-- The drivers agree to all settings, `n` being the number of the first question to them. -/
def DriversAgree (re : PinctrlReplies) (desc : Nat → PinctrlDesc) : List PinctrlSetting → Nat → Prop
  | [], _ => True
  | setting :: rest, n =>
    (setting.type = 0 ∨ setting.type = 1) ∧
      if (if setting.type = 0 then (desc setting.sprtPctldev).setMux
          else (desc setting.sprtPctldev).pinConfigSet) then
        re.call n = 0 ∧ DriversAgree re desc rest (n + 1)
      else DriversAgree re desc rest n

/-- The default state, if there is one, is not the current one, and the drivers agree to its
settings. -/
def DefaultFits (re : PinctrlReplies) (s : Pinctrls) (p : Nat) : Prop :=
  ∀ i, fwkPinctrlLookupState s.work p stateDefault = some i → s.work.sprtState p ≠ some i ∧
    ∀ state, (s.work.sgrtStates p)[i]? = some state →
      DriversAgree re (fun d => (s.own.pctldev d).sprtDesc) state.sgrtSettings s.work.asked

theorem defaultFits_none (h : fwkPinctrlLookupState s.work p stateDefault = none) :
    DefaultFits re s p := by
  intro i hi
  rw [h] at hi
  cases hi

/-- What drivers say does not depend on who has what. -/
theorem defaultFits_congr (hwork : t.work = s.work)
    (hdesc : ∀ d, (t.own.pctldev d).sprtDesc = (s.own.pctldev d).sprtDesc) :
    DefaultFits re t p ↔ DefaultFits re s p := by
  unfold DefaultFits
  rw [hwork, funext hdesc]

/-- The loop over the settings comes to its end just when all drivers agree. -/
theorem selectLoop_iff {own : PinctrlOwners} {settings : List PinctrlSetting} {w w' : PinctrlWork}
    (h : selectLoop re own settings w = .ok (retval, w')) :
    retval = 0 ↔ DriversAgree re (fun d => (own.pctldev d).sprtDesc) settings w.asked := by
  induction settings generalizing w with
  | nil =>
    cases h
    exact iff_of_true rfl trivial
  | cons setting rest ih =>
    rw [selectLoop] at h
    split at h
    next => cases h
    next =>
      simp only at h
      split at h
      next htype =>
        simp only [DriversAgree, and_iff_right htype]
        generalize (if setting.type = 0 then (own.pctldev setting.sprtPctldev).sprtDesc.setMux
          else (own.pctldev setting.sprtPctldev).sprtDesc.pinConfigSet) = asks at h ⊢
        cases asks with
        | false =>
          -- the controller has nothing to be asked
          simp only [Bool.false_eq_true, if_false, ne_eq, not_true_eq_false] at h ⊢
          exact ih h
        | true =>
          simp only [if_true] at h ⊢
          split at h
          next hfail =>
            cases h
            exact iff_of_false hfail fun hagree => hfail hagree.1
          next hagree => exact (ih h).trans (and_iff_right (not_not.mp hagree)).symm
      next htype =>
        cases h
        exact iff_of_false (by decide) fun hagree => htype hagree.1

/-- The default state is selected just when it fits. -/
theorem select_iff {state : Nat} {w : PinctrlWork}
    (h : fwkPinctrlLookupState s.work p stateDefault = some state)
    (hsel : fwkPinctrlSelectState re s.own s.work p state = .ok (retval, w)) :
    retval = 0 ↔ DefaultFits re s p := by
  unfold fwkPinctrlSelectState at hsel
  split at hsel
  next => cases hsel
  next =>
    split at hsel
    next hcurrent =>
      cases hsel
      exact iff_of_false (by decide) fun hfits => (hfits state h).1 hcurrent
    next hcurrent =>
      split at hsel
      next => cases hsel
      next state' hstate =>
        obtain ⟨⟨retval', w'⟩, hloop, hsel⟩ := except_bind.mp hsel
        have hiff := selectLoop_iff hloop
        have hfits : DefaultFits re s p ↔ retval' = 0 := by
          rw [hiff]
          constructor
          · exact fun hall => (hall state h).2 state' hstate
          · intro hagree i hi
            obtain rfl := Option.some.inj (h.symm.trans hi)
            refine ⟨hcurrent, fun x hx => ?_⟩
            obtain rfl := Option.some.inj (hstate.symm.trans hx)
            exact hagree
        rw [hfits]
        simp only at hsel
        split at hsel
        next =>
          cases hsel
          exact Iff.rfl
        next hok =>
          cases hsel
          exact iff_of_true rfl (not_not.mp hok)

/-! ## Binding -/

/-- The default state of what the device has already fits, or that of what is made for it. -/
def BindClean (cfg : PinctrlTable) (re : PinctrlReplies) (s : Pinctrls) (dev : Nat) : Prop :=
  re.kzalloc s.work.asked ≠ 0 →
    (∀ p, fwkFindPinctrl s.own dev = some p → DefaultFits re s.ask p) ∧
      (fwkFindPinctrl s.own dev = none → ∀ p t,
        fwkCreatePinctrl cfg re (s.ask.setInfoLive (re.kzalloc s.work.asked) true) dev =
          .ok (some p, t) → DefaultFits re t p)

/-- What a bind does. -/
inductive BindEffect (cfg : PinctrlTable) (re : PinctrlReplies) (s : Pinctrls) (dev : Nat) :
    Int → PinctrlOwners → Prop
  | refused {retval : Int} {own : PinctrlOwners} (hclean : BindClean cfg re s dev)
      (hsame : s.own.Same own) : BindEffect cfg re s dev retval own
  | bound {p : Nat} {own : PinctrlOwners} {info : PinctrlDevInfo}
      (hclean : BindClean cfg re s dev) (hinfo : info.sprtPctl = p)
      (hget : PinctrlOwners.Gets { s.own with
        infoLive := Function.update s.own.infoLive (re.kzalloc s.work.asked) true } own dev p) :
      BindEffect cfg re s dev erNormal { own with
        sprtPctlinfo := Function.update own.sprtPctlinfo dev (some (re.kzalloc s.work.asked))
        info := Function.update own.info (re.kzalloc s.work.asked) info }
  | dangling {own : PinctrlOwners} (hclean : ¬ BindClean cfg re s dev)
      (hinfo : own.sprtPctlinfo dev = some (re.kzalloc s.work.asked))
      (hgone : own.infoLive (re.kzalloc s.work.asked) = false) :
      BindEffect cfg re s dev (-erError) own

theorem pinctrlBindPins_effect (h : s.own.Sound)
    (hi : s.own.infoLive (re.kzalloc s.work.asked) = false)
    (hnew : re.kzalloc (s.work.asked + 1) ∉ s.own.pctlList)
    (hbind : fwkPinctrlBindPins cfg re s dev = .ok (retval, t)) :
    BindEffect cfg re s dev retval t.own := by
  simp only [fwkPinctrlBindPins] at hbind
  split at hbind
  next hzero =>
    cases hbind
    exact .refused (fun hne => absurd hzero hne) .refl
  next hzero =>
    obtain ⟨⟨found, u⟩, hget, hbind⟩ := except_bind.mp hbind
    obtain ⟨rfl, hsame⟩ | ⟨p, rfl, hp⟩ := pinctrlGet_effect hnew hget
    · cases hbind
      refine .refused (fun _ => ⟨fun q hq => ?_, fun hnone q v hq => ?_⟩) (h.same_info hi hsame)
      · rw [pinctrlGet_found (s := s.ask.setInfoLive _ true) hq] at hget
        cases hget
      · rw [pinctrlGet_none (s := s.ask.setInfoLive _ true) hnone, hq] at hget
        cases hget
    · have hgets := gets_of_get (s := s.ask.setInfoLive _ true) h.live h.nodup hp
      simp only at hbind
      generalize hv : (u.setPctlinfo dev (some (re.kzalloc s.work.asked))).setInfo
        (re.kzalloc s.work.asked) _ = v at hbind
      have hsame : DefaultFits re v p ↔ DefaultFits re u p := by
        subst hv
        exact defaultFits_congr rfl fun _ => rfl
      have hclean : BindClean cfg re s dev ↔ DefaultFits re v p := by
        rw [hsame]
        obtain ⟨hfind, rfl⟩ | ⟨hnone, -, -⟩ := hp
        · refine ⟨fun hall => (hall hzero).1 p hfind, fun hdef _ => ⟨fun q hq => ?_, fun hnone => ?_⟩⟩
          · obtain rfl := Option.some.inj (hq.symm.trans hfind)
            exact hdef
          · cases hnone.symm.trans hfind
        · have hcreate := (pinctrlGet_none (s := s.ask.setInfoLive _ true) hnone).symm.trans hget
          refine ⟨fun hall => (hall hzero).2 hnone p u hcreate,
            fun hdef _ => ⟨fun q hq => ?_, fun _ q x hq => ?_⟩⟩
          · cases hnone.symm.trans hq
          · rw [hcreate] at hq
            cases hq
            exact hdef
      split at hbind
      next hdef =>
        cases hbind
        subst hv
        exact .bound (hclean.mpr (defaultFits_none hdef)) rfl hgets
      next state hdef =>
        obtain ⟨⟨retval, w⟩, hsel, hbind⟩ := except_bind.mp hbind
        rw [← select_iff hdef hsel] at hclean
        subst hv
        simp only at hbind
        split at hbind
        next hfail =>
          obtain ⟨t, hput, hbind⟩ := except_bind.mp hbind
          cases hbind
          refine .dangling (mt hclean.mp hfail) ?_ ?_
          · simp [Pinctrls.setInfoLive, pinctrlPut_effect hput, PinctrlOwners.dropPctl,
              Pinctrls.setInfo, Pinctrls.setPctlinfo]
          · simp [Pinctrls.setInfoLive]
        next hfail =>
          cases hbind
          have hinfo : (PinctrlDevInfo.mk none p (some state)
              (fwkPinctrlLookupState u.work p stateIdle)
              (fwkPinctrlLookupState u.work p stateSleep)).sprtPctl = p := rfl
          have hbound := BindEffect.bound (hclean.mpr (not_not.mp hfail)) hinfo hgets
          simpa [Pinctrls.setInfo, Pinctrls.setPctlinfo] using hbound

/-! ## Registering -/

/-- The controller as it is put on the list. -/
def newPctldev (re : PinctrlReplies) (s : Pinctrls) (desc : PinctrlDesc) (dev : Nat) : Pinctrls :=
  s.ask.addPctldev (re.kzalloc s.work.asked) ⟨desc, dev, none, none, none⟩

/-- The default state of what the device has already fits. -/
def RegisterClean (re : PinctrlReplies) (s : Pinctrls) (desc : PinctrlDesc) (dev : Nat) : Prop :=
  desc.ops = true → isValid (re.kzalloc s.work.asked) = true →
    ∀ p, fwkFindPinctrl s.own dev = some p → DefaultFits re (newPctldev re s desc dev) p

/-- What a registration does. -/
inductive RegisterEffect (re : PinctrlReplies) (s : Pinctrls) (desc : PinctrlDesc) (dev : Nat) :
    PinctrlOwners → Prop
  | refused {own : PinctrlOwners} (hclean : RegisterClean re s desc dev) (hsame : s.own.Same own) :
      RegisterEffect re s desc dev own
  | enlisted {p : Nat} {own : PinctrlOwners} {c : PinctrlDev} (hclean : RegisterClean re s desc dev)
      (hc : c.sprtPctl = some p) (hget : (newPctldev re s desc dev).own.Gets own dev p) :
      RegisterEffect re s desc dev
        { own with pctldev := Function.update own.pctldev (re.kzalloc s.work.asked) c }
  | freed {p : Nat} {own : PinctrlOwners} (hclean : ¬ RegisterClean re s desc dev)
      (hp : p ∈ s.own.pctlList) (hsame : s.own.Same own) :
      RegisterEffect re s desc dev (own.dropPctl p)

theorem pinctrlRegister_effect {desc : PinctrlDesc} (h : s.own.Sound)
    (hd : s.own.pctldevLive (re.kzalloc s.work.asked) = false)
    (hnew : re.kzalloc (s.work.asked + 1) ∉ s.own.pctlList)
    (hregister : fwkPinctrlRegister cfg re s desc dev = .ok (found, t)) :
    RegisterEffect re s desc dev t.own := by
  simp only [fwkPinctrlRegister] at hregister
  split at hregister
  next hops =>
    cases hregister
    exact .refused (fun hops' => absurd hops' (by simpa using hops)) .refl
  next hops =>
    split at hregister
    next hvalid =>
      cases hregister
      exact .refused (fun _ hvalid' => absurd hvalid' (by simpa using hvalid)) .refl
    next hvalid =>
      change (fwkPinctrlGet cfg re (newPctldev re s desc dev) dev >>= _) = _ at hregister
      obtain ⟨⟨found, u⟩, hget, hregister⟩ := except_bind.mp hregister
      obtain ⟨rfl, hsame⟩ | ⟨p, rfl, hp⟩ := pinctrlGet_effect hnew hget
      · cases hregister
        refine .refused (fun _ _ q hq => ?_) ?_
        · rw [pinctrlGet_found (s := newPctldev re s desc dev) hq] at hget
          cases hget
        · exact h.same_pctldev hd hsame fun _ _ => rfl
      · have hgets := gets_of_get (s := newPctldev re s desc dev) h.live h.nodup hp
        simp only at hregister
        generalize hv : u.setPctldev (re.kzalloc s.work.asked) _ = v at hregister
        have hsame : DefaultFits re v p ↔ DefaultFits re u p := by
          subst hv
          refine defaultFits_congr rfl fun x => ?_
          have hlist : u.own.pctldev = (newPctldev re s desc dev).own.pctldev := by
            rw [hgets.rest]
          by_cases hx : x = re.kzalloc s.work.asked
          · simp [Pinctrls.setPctldev, hlist, hx, newPctldev, Pinctrls.addPctldev]
          · simp [Pinctrls.setPctldev, hx]
        have hclean : RegisterClean re s desc dev ↔
            (fwkFindPinctrl s.own dev = some p → DefaultFits re v p) := by
          rw [hsame]
          obtain ⟨hfind, rfl⟩ | ⟨hnone, -, -⟩ := hp
          · refine ⟨fun hall => hall (by simpa using hops) (by simpa using hvalid) p, ?_⟩
            intro hdef _ _ q hq
            obtain rfl := Option.some.inj (hq.symm.trans hfind)
            exact hdef hq
          · exact ⟨fun _ hfind => absurd (hnone.symm.trans hfind) (by simp),
              fun _ _ _ q hq => absurd (hnone.symm.trans hq) (by simp)⟩
        split at hregister
        next hdef =>
          cases hregister
          have hok := hclean.mpr fun _ => defaultFits_none hdef
          subst hv
          exact .enlisted hok rfl hgets
        next state hdef =>
          obtain ⟨⟨retval, w⟩, hsel, hregister⟩ := except_bind.mp hregister
          rw [← select_iff hdef hsel] at hclean
          subst hv
          simp only at hregister
          split at hregister
          next hfail =>
            obtain ⟨t, hput, hregister⟩ := except_bind.mp hregister
            cases hregister
            simp only [Pinctrls.dropPctldev, pinctrlPut_effect hput]
            obtain ⟨hfind, rfl⟩ | ⟨hnone, hp', hadd⟩ := hp
            · refine .freed (fun hall => hfail (hclean.mp hall hfind)) (findPinctrl_some hfind).1
                (h.same_pctldev hd .refl fun x hx => ?_)
              simp [newPctldev, Pinctrls.setPctldev, Pinctrls.addPctldev, PinctrlOwners.dropPctl,
                Pinctrls.ask, hx]
            · rw [Pinctrls.setPctldev, hadd]
              refine .refused (hclean.mpr fun hfind => absurd (hnone.symm.trans hfind) (by simp))
                (h.same_pctldev hd (PinctrlOwners.Same.addDrop hp') fun x hx => ?_)
              simp [newPctldev, Pinctrls.addPctldev, PinctrlOwners.dropPctl, PinctrlOwners.addPctl,
                Pinctrls.ask, hx]
          next hfail =>
            cases hregister
            have hok := hclean.mpr fun _ => not_not.mp hfail
            have hc : (PinctrlDev.mk desc dev (some p) (some state)
              (fwkPinctrlLookupState u.work p stateSleep)).sprtPctl = some p := rfl
            simpa [Pinctrls.setPctldev] using RegisterEffect.enlisted hok hc hgets

/-! ## Letting go -/

theorem unbindSelect_own {info : PinctrlDevInfo} (h : unbindSelect re s info = .ok t) :
    t.own = s.own := by
  unfold unbindSelect at h
  split at h
  next =>
    cases h
    rfl
  next =>
    obtain ⟨⟨retval, w⟩, -, h⟩ := except_bind.mp h
    cases h
    rfl

/-- The info of a device and what it refers to are freed. -/
theorem pinctrlUnbindPins_effect (h : fwkPinctrlUnbindPins re s dev = .ok t) :
    (s.own.sprtPctlinfo dev = none ∧ t = s) ∨ ∃ i, s.own.sprtPctlinfo dev = some i ∧
      t.own = { s.own.dropPctl (s.own.info i).sprtPctl with
        infoLive := Function.update s.own.infoLive i false
        sprtPctlinfo := Function.update s.own.sprtPctlinfo dev none } := by
  unfold fwkPinctrlUnbindPins at h
  split at h
  next hnone =>
    cases h
    exact .inl ⟨hnone, rfl⟩
  next i hi =>
    split at h
    next => cases h
    next =>
      obtain ⟨u, hsel, h⟩ := except_bind.mp h
      obtain ⟨v, hput, h⟩ := except_bind.mp h
      cases h
      have hu := unbindSelect_own hsel
      refine .inr ⟨i, hi, ?_⟩
      simp only [Pinctrls.setPctlinfo, Pinctrls.setInfoLive, pinctrlPut_effect hput, hu,
        PinctrlOwners.dropPctl]

/-- A controller and what it refers to are freed. -/
theorem pinctrlUnregister_effect (h : fwkPinctrlUnregister s d = .ok t)
    (hp : (s.own.pctldev d).sprtPctl = some p) :
    t.own = { s.own.dropPctl p with
      pctldevList := s.own.pctldevList.erase d
      pctldevLive := Function.update s.own.pctldevLive d false } := by
  unfold fwkPinctrlUnregister at h
  split at h
  next => cases h
  next =>
    simp only [hp] at h
    obtain ⟨u, hput, h⟩ := except_bind.mp h
    cases h
    simp only [Pinctrls.dropPctldev, pinctrlPut_effect hput, PinctrlOwners.dropPctl]

/-! ## Runs -/

/-- A call, with what the allocator and the drivers answer during it. -/
inductive PinctrlCall where
  | bindPins (re : PinctrlReplies) (dev : Nat)
  | unbindPins (re : PinctrlReplies) (dev : Nat)
  | register (re : PinctrlReplies) (desc : PinctrlDesc) (dev : Nat)
  | unregister (d : Nat)

/-- Devices are bound while they are not, and controllers are unregistered while they are registered.
The allocator does not give away what is in use. -/
def pinctrlStep (cfg : PinctrlTable) (s : Pinctrls) : PinctrlCall → Option Pinctrls
  | .bindPins re dev =>
    if s.own.sprtPctlinfo dev = none ∧ s.own.infoLive (re.kzalloc s.work.asked) = false ∧
        s.own.pctlLive (re.kzalloc (s.work.asked + 1)) = false then
      (fwkPinctrlBindPins cfg re s dev).toOption.map Prod.snd
    else none
  | .unbindPins re dev => (fwkPinctrlUnbindPins re s dev).toOption
  | .register re desc dev =>
    if s.own.pctldevLive (re.kzalloc s.work.asked) = false ∧
        s.own.pctlLive (re.kzalloc (s.work.asked + 1)) = false then
      (fwkPinctrlRegister cfg re s desc dev).toOption.map Prod.snd
    else none
  | .unregister d =>
    if d ∈ s.own.pctldevList then (fwkPinctrlUnregister s d).toOption else none

/-- Nothing is bound or registered. -/
def Pinctrls.start : Pinctrls where
  own :=
    { sprtPctlinfo := fun _ => none
      info := fun _ => ⟨none, 0, none, none, none⟩
      infoLive := fun _ => false
      pctldev := fun _ => ⟨⟨false, false, false, false⟩, 0, none, none, none⟩
      pctldevLive := fun _ => false
      pctldevList := []
      sprtDev := fun _ => 0
      pctlLive := fun _ => false
      pctlList := [] }
  work := ⟨fun _ => [], fun _ => none, fun _ => [], [], 0⟩

/-- **The branches that are right.**  The default state is selected where somebody has the object, or
is about to; and nobody else has what is freed. -/
def PinctrlCall.Clean (cfg : PinctrlTable) (s : Pinctrls) : PinctrlCall → Prop
  | .bindPins re dev => BindClean cfg re s dev
  | .unbindPins _ dev => ∀ i, s.own.sprtPctlinfo dev = some i →
      ∀ d ∈ s.own.pctldevList, (s.own.pctldev d).sprtPctl ≠ some (s.own.info i).sprtPctl
  | .register re desc dev => RegisterClean re s desc dev
  | .unregister d => ∀ p, (s.own.pctldev d).sprtPctl = some p →
      (∀ dev i, s.own.sprtPctlinfo dev = some i → (s.own.info i).sprtPctl ≠ p) ∧
        ∀ x ∈ s.own.pctldevList, x ≠ d → (s.own.pctldev x).sprtPctl ≠ some p

/-- A bind that returns an error changes no device. -/
def PinctrlCall.BindKept (cfg : PinctrlTable) (s : Pinctrls) (i : PinctrlCall) : Prop :=
  ∀ re dev retval t, i = .bindPins re dev → pinctrlStep cfg s i = some t →
    fwkPinctrlBindPins cfg re s dev = .ok (retval, t) → retval ≠ 0 →
      t.own.sprtPctlinfo = s.own.sprtPctlinfo

/-- What is possible with a call. -/
inductive PinctrlEffect (cfg : PinctrlTable) (s : Pinctrls) : PinctrlCall → PinctrlOwners → Prop
  | bind {re : PinctrlReplies} {dev : Nat} {retval : Int} {own : PinctrlOwners}
      (hdev : s.own.sprtPctlinfo dev = none)
      (hi : s.own.infoLive (re.kzalloc s.work.asked) = false)
      (heffect : BindEffect cfg re s dev retval own) : PinctrlEffect cfg s (.bindPins re dev) own
  | idle {re : PinctrlReplies} {dev : Nat} (hdev : s.own.sprtPctlinfo dev = none) :
      PinctrlEffect cfg s (.unbindPins re dev) s.own
  | unbind {re : PinctrlReplies} {dev i : Nat} (hi : s.own.sprtPctlinfo dev = some i) :
      PinctrlEffect cfg s (.unbindPins re dev) { s.own.dropPctl (s.own.info i).sprtPctl with
        infoLive := Function.update s.own.infoLive i false
        sprtPctlinfo := Function.update s.own.sprtPctlinfo dev none }
  | register {re : PinctrlReplies} {desc : PinctrlDesc} {dev : Nat} {own : PinctrlOwners}
      (hd : s.own.pctldevLive (re.kzalloc s.work.asked) = false)
      (heffect : RegisterEffect re s desc dev own) :
      PinctrlEffect cfg s (.register re desc dev) own
  | unregister {d p : Nat} (hmem : d ∈ s.own.pctldevList)
      (hp : (s.own.pctldev d).sprtPctl = some p) :
      PinctrlEffect cfg s (.unregister d) { s.own.dropPctl p with
        pctldevList := s.own.pctldevList.erase d
        pctldevLive := Function.update s.own.pctldevLive d false }

theorem toOption_eq_some {α : Type} {x : Except Stop α} {a : α} (h : x.toOption = some a) :
    x = .ok a := by
  cases x with
  | error e => cases h
  | ok b => rw [Option.some.inj h]

theorem pinctrlStep_effect (h : s.own.Sound) {c : PinctrlCall} (hstep : pinctrlStep cfg s c = some t) :
    PinctrlEffect cfg s c t.own := by
  have hnew : ∀ p, s.own.pctlLive p = false → p ∉ s.own.pctlList := fun p hp hmem => by
    simp [h.live p hmem] at hp
  cases c with
  | bindPins re dev =>
    simp only [pinctrlStep] at hstep
    split at hstep
    next hfresh =>
      obtain ⟨⟨retval, u⟩, hbind, rfl⟩ := Option.map_eq_some_iff.mp hstep
      exact .bind hfresh.1 hfresh.2.1 (pinctrlBindPins_effect h hfresh.2.1 (hnew _ hfresh.2.2)
        (toOption_eq_some hbind))
    next => cases hstep
  | unbindPins re dev =>
    obtain ⟨hnone, rfl⟩ | ⟨i, hi, hown⟩ := pinctrlUnbindPins_effect (toOption_eq_some hstep)
    · exact .idle hnone
    · exact hown ▸ .unbind hi
  | register re desc dev =>
    simp only [pinctrlStep] at hstep
    split at hstep
    next hfresh =>
      obtain ⟨⟨found, u⟩, hregister, rfl⟩ := Option.map_eq_some_iff.mp hstep
      exact .register hfresh.1 (pinctrlRegister_effect h hfresh.1 (hnew _ hfresh.2)
        (toOption_eq_some hregister))
    next => cases hstep
  | unregister d =>
    simp only [pinctrlStep] at hstep
    split at hstep
    next hmem =>
      obtain ⟨-, p, -, hp⟩ := h.registered d hmem
      exact pinctrlUnregister_effect (toOption_eq_some hstep) hp ▸ .unregister hmem hp
    next => cases hstep

/-- **A clean call keeps everything sound.** -/
theorem pinctrlStep_sound (s : Pinctrls) (c : PinctrlCall) (t : Pinctrls) (h : s.own.Sound)
    (hc : c.Clean cfg s) (hstep : pinctrlStep cfg s c = some t) : t.own.Sound := by
  have heffect := pinctrlStep_effect h hstep
  generalize t.own = own at heffect
  cases heffect with
  | bind hdev hi heffect =>
    cases heffect with
    | refused _ hsame => exact h.same hsame
    | bound _ hinfo hget => exact h.bound hdev hi hinfo hget
    | dangling hclean => exact absurd hc hclean
  | idle => exact h
  | unbind hi => exact h.unbound hi (hc _ hi)
  | register hd heffect =>
    cases heffect with
    | refused _ hsame => exact h.same hsame
    | enlisted _ hc hget => exact h.enlisted hd hc hget
    | freed hclean => exact absurd hc hclean
  | unregister _ hp => exact h.delisted hp (hc _ hp).1 (hc _ hp).2

/-- **And any other leaves somebody with what is gone.** -/
theorem pinctrlStep_spoils (s : Pinctrls) (c : PinctrlCall) (t : Pinctrls) (h : s.own.Sound)
    (hc : ¬ c.Clean cfg s) (hstep : pinctrlStep cfg s c = some t) : ¬ t.own.Kept := by
  have heffect := pinctrlStep_effect h hstep
  generalize t.own = own at heffect
  intro hkept
  cases heffect with
  | bind hdev hi heffect =>
    cases heffect with
    | refused hclean => exact hc hclean
    | bound hclean => exact hc hclean
    | dangling _ hinfo hgone =>
      have hlive := (hkept.info _ _ hinfo).1
      rw [hgone] at hlive
      cases hlive
  | idle hdev => exact hc fun i hi => by simp [hdev] at hi
  | unbind hi =>
    simp only [PinctrlCall.Clean, not_forall, not_not] at hc
    obtain ⟨j, hj, d, hd, hp⟩ := hc
    obtain rfl := Option.some.inj (hi.symm.trans hj)
    exact PinctrlOwners.not_listed_dropPctl (hkept.registered d hd _ hp)
  | register hd heffect =>
    cases heffect with
    | refused hclean => exact hc hclean
    | enlisted hclean => exact hc hclean
    | freed _ hp hsame => exact ((h.used _ hp).same hsame).not_kept hkept
  | unregister _ hp =>
    refine hc fun q hq => ?_
    obtain rfl := Option.some.inj (hp.symm.trans hq)
    refine ⟨fun dev i hi heq => ?_, fun x hx hxd hxp => ?_⟩
    · subst heq
      exact PinctrlOwners.not_listed_dropPctl (hkept.info dev i hi).2
    · exact PinctrlOwners.not_listed_dropPctl
        (hkept.registered x ((h.distinct.mem_erase_iff).mpr ⟨hxd, hx⟩) _ hxp)

theorem pinctrls_start : Pinctrls.start.own.Sound :=
  ⟨fun _ _ hi => absurd hi (by simp [Pinctrls.start]), fun _ hd => absurd hd List.not_mem_nil,
    fun _ hp => absurd hp List.not_mem_nil, fun _ hp => absurd hp List.not_mem_nil,
    List.nodup_nil, List.nodup_nil⟩

theorem bindKept_of_clean {c : PinctrlCall} (h : s.own.Sound) (hc : c.Clean cfg s) :
    c.BindKept cfg s := by
  rintro re dev retval t rfl hstep hbind hretval
  simp only [pinctrlStep] at hstep
  split at hstep
  next hfresh =>
    have hnew : re.kzalloc (s.work.asked + 1) ∉ s.own.pctlList := fun hmem => by
      simp [h.live _ hmem] at hfresh
    have heffect := pinctrlBindPins_effect h hfresh.2.1 hnew hbind
    generalize t.own = own at heffect
    cases heffect with
    | refused _ hsame => exact hsame.sprtPctlinfo
    | bound => exact absurd rfl hretval
    | dangling hclean => exact absurd hc hclean
  next => cases hstep

/-- **Everybody has something live exactly as long as every call is clean.**  And as long as that is
so a bind that fails leaves the device alone. -/
theorem owners_kept_iff (cfg : PinctrlTable) {is : List PinctrlCall} {s : Pinctrls}
    (h : exec (pinctrlStep cfg) .start is = some s) :
    (Always (pinctrlStep cfg) (fun s => s.own.Kept) .start is ∧
        Meets (pinctrlStep cfg) (fun s c => c.BindKept cfg s) .start is) ↔
      Meets (pinctrlStep cfg) (fun s c => c.Clean cfg s) .start is := by
  have hiff : Always (pinctrlStep cfg) (fun s => s.own.Kept) .start is ↔
      Meets (pinctrlStep cfg) (fun s c => c.Clean cfg s) .start is :=
    always_iff_meets pinctrlStep_sound (fun _ hs => hs.kept) pinctrlStep_spoils pinctrls_start h
  refine ⟨fun hkept => hiff.mp hkept.1, fun hclean => ⟨hiff.mpr hclean, ?_⟩⟩
  exact (meets_with_invariant pinctrlStep_sound pinctrls_start hclean).imp fun s c hs =>
    bindKept_of_clean hs.1 hs.2

/-- A controller 0x86000 at node 1 and a device 0x86100 at node 2, both with one group of pins that is
below the controller. -/
def examplePinctrls : PinctrlTable where
  sprtNode dev := if dev = 0x86000 then 1 else 2
  devName dev := if dev = 0x86000 then ['i', 'o'] else ['l', 'e', 'd']
  props _ := [⟨4, fun _ => 7⟩]
  pinctrlNames _ := some [stateDefault]
  parents _ := some [10, 1]

/-- The allocator gives a new address each time, a group has one mux, and the drivers agree but for
the answer to one question. -/
def exampleReplies (bad : Nat) : PinctrlReplies where
  kzalloc n := 0x87000 + 8 * n
  stateName := none
  dtNodeToMap _ := some [0]
  call n := if n = bad then -1 else 0

/-- The controller comes, and its desc has all operations. -/
def exampleRegister : PinctrlCall := .register (exampleReplies 0) ⟨true, true, true, true⟩ 0x86000

theorem owners_kept_iff_example :
    ∃ s, exec (pinctrlStep examplePinctrls) .start
        [exampleRegister, .bindPins (exampleReplies 0) 0x86100] = some s ∧
      ((Always (pinctrlStep examplePinctrls) (fun s => s.own.Kept) .start
            [exampleRegister, .bindPins (exampleReplies 0) 0x86100] ∧
          Meets (pinctrlStep examplePinctrls) (fun s c => c.BindKept examplePinctrls s) .start
            [exampleRegister, .bindPins (exampleReplies 0) 0x86100]) ↔
        Meets (pinctrlStep examplePinctrls) (fun s c => c.Clean examplePinctrls s) .start
          [exampleRegister, .bindPins (exampleReplies 0) 0x86100]) :=
  ⟨_, rfl, owners_kept_iff examplePinctrls rfl⟩

/-- A `set_mux` that fails leaves the device with an info that is freed; and the controller's own
device, bound while the controller is registered, finds its default state selected already and frees
what the controller has. -/
theorem failed_bind_frees :
    (∃ s i, exec (pinctrlStep examplePinctrls) .start
          [exampleRegister, .bindPins (exampleReplies 17) 0x86100] = some s ∧
        s.own.sprtPctlinfo 0x86100 = some i ∧ s.own.infoLive i = false) ∧
      ∃ s d p i, exec (pinctrlStep examplePinctrls) .start
          [exampleRegister, .bindPins (exampleReplies 0) 0x86000] = some s ∧
        d ∈ s.own.pctldevList ∧ (s.own.pctldev d).sprtPctl = some p ∧ s.own.pctlLive p = false ∧
        s.own.sprtPctlinfo 0x86000 = some i ∧ s.own.infoLive i = false :=
  ⟨⟨_, _, rfl, rfl, rfl⟩, ⟨_, _, _, _, rfl, List.mem_singleton.mpr rfl, rfl, rfl, rfl, rfl⟩⟩

end HeavenFox.Platform
