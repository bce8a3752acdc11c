/-
# HeavenFox.Platform.BusOrder -- binding does not depend on the order of arrival

A device that comes late looks through the drivers that are there, a driver that comes late takes
the devices that are free.  Either way every device on the bus has the first driver, in the order of
registration, that accepts it: this is kept by both (`Settled`), so the end of a run does not depend
on how devices and drivers took turns.
-/
import HeavenFox.Platform.BusEffects

namespace HeavenFox.Platform

open HeavenFox.Common HeavenFox.Logic

variable {cfg : PlatTable} {ret : Nat → Nat → Int} {s t : PlatformBus} {x d : Nat}

/-! ## Arrivals -/

/-- The devices that are added, in order. -/
def addedDevices : List BusCall → List Nat
  | [] => []
  | .add x _ :: rest => x :: addedDevices rest
  | _ :: rest => addedDevices rest

/-- The drivers that are registered, in order. -/
def registeredDrivers : List BusCall → List Nat
  | [] => []
  | .register d _ :: rest => d :: registeredDrivers rest
  | _ :: rest => registeredDrivers rest

/-- Nothing is deleted or unregistered. -/
def BusCall.Arrives : BusCall → Prop
  | .add _ _ | .register _ _ => True
  | .del _ | .unregister _ => False

/-- How often the device was probed. -/
def probes (x : Nat) (events : List BusEvent) : Nat :=
  events.countP fun e => match e with
    | .probe y _ _ => y == x
    | _ => false

theorem probes_append (es es' : List BusEvent) : probes x (es ++ es') = probes x es + probes x es' :=
  List.countP_append

theorem probes_bindEvents_self (cfg : PlatTable) (ret : Nat → Nat → Int) (x d : Nat) :
    probes x (bindEvents cfg ret x d) ≤ 1 := by
  unfold bindEvents probes
  split <;> simp

theorem probes_bindEvents_ne (cfg : PlatTable) (ret : Nat → Nat → Int) (d : Nat) {y : Nat}
    (h : y ≠ x) : probes x (bindEvents cfg ret y d) = 0 := by
  unfold bindEvents probes
  split <;> simp [h]

/-- Every device on the bus has the first driver that accepts it, and was probed for no other. -/
structure Settled (cfg : PlatTable) (s : PlatformBus) : Prop where
  bound : ∀ x ∈ s.devices, s.sprtDriver x = s.drivers.find? (accepts cfg x)
  probed : ∀ x, probes x s.events ≤ 1
  unprobed : ∀ x, s.sprtDriver x = none → probes x s.events = 0

/-! ## One arrival -/

/-- One more device with its driver, that was not probed before. -/
theorem probed_bind (cfg : PlatTable) (ret : Nat → Nat → Int) (d : Nat) {y : Nat}
    (hprobed : probes y s.events ≤ 1)
    (hunprobed : s.sprtDriver y = none → probes y s.events = 0) (hfree : s.sprtDriver x = none) :
    probes y (s.bind cfg ret x d).events ≤ 1 ∧
      ((s.bind cfg ret x d).sprtDriver y = none → probes y (s.bind cfg ret x d).events = 0) := by
  simp only [PlatformBus.bind, probes_append]
  by_cases hy : y = x
  · subst hy
    have hself := probes_bindEvents_self cfg ret y d
    have hzero := hunprobed hfree
    exact ⟨by omega, fun h => by simp at h⟩
  · have hzero := probes_bindEvents_ne cfg ret d (Ne.symm hy)
    refine ⟨by omega, fun h => ?_⟩
    rw [Function.update_of_ne hy] at h
    have hold := hunprobed h
    omega

theorem probed_bindAll {y : Nat} {xs : List Nat} (hnodup : xs.Nodup)
    (hfree : ∀ x ∈ xs, s.sprtDriver x = none) (hprobed : probes y s.events ≤ 1)
    (hunprobed : s.sprtDriver y = none → probes y s.events = 0) :
    probes y (s.bindAll cfg ret xs d).events ≤ 1 ∧
      ((s.bindAll cfg ret xs d).sprtDriver y = none →
        probes y (s.bindAll cfg ret xs d).events = 0) := by
  induction xs generalizing s with
  | nil => rw [PlatformBus.bindAll_nil]; exact ⟨hprobed, hunprobed⟩
  | cons x xs ih =>
    obtain ⟨hx, hnodup⟩ := List.nodup_cons.mp hnodup
    have hthis := probed_bind cfg ret d hprobed hunprobed
      (hfree x List.mem_cons_self)
    rw [PlatformBus.bindAll_cons]
    refine ih hnodup (fun z hz => ?_) hthis.1 hthis.2
    have hne : z ≠ x := ne_of_mem_of_not_mem hz hx
    simpa only [PlatformBus.bind, Function.update_of_ne hne] using
      hfree z (List.mem_cons_of_mem x hz)

theorem Settled.added (h : Settled cfg s) (hs : s.Sound cfg) (hnew : x ∉ s.leaves) :
    Settled cfg (s.added cfg ret x) := by
  have hoff : x ∉ s.devices := fun hmem => hnew (hs.devices_bus x hmem).1
  have hfree : s.sprtDriver x = none :=
    Option.eq_none_iff_forall_ne_some.mpr fun d hd => hoff (hs.points x d hd).1
  have hprobes : ∀ y, probes y (s.added cfg ret x).events ≤ 1 ∧
      ((s.added cfg ret x).sprtDriver y = none → probes y (s.added cfg ret x).events = 0) := by
    intro y
    cases hfind : s.drivers.find? (accepts cfg x) with
    | some d =>
      simpa only [PlatformBus.added, hfind, Option.elim, PlatformBus.bind] using
        probed_bind cfg ret d (h.probed y) (h.unprobed y) hfree
    | none =>
      have hsame : Function.update s.sprtDriver x none = s.sprtDriver := by
        rw [← hfree, Function.update_eq_self]
      simpa only [PlatformBus.added, hfind, Option.elim, hsame, List.append_nil] using
        ⟨h.probed y, h.unprobed y⟩
  refine ⟨fun y hy => ?_, fun y => (hprobes y).1, fun y => (hprobes y).2⟩
  simp only [PlatformBus.added] at hy ⊢
  by_cases hne : y = x
  · subst hne
    rw [Function.update_self]
  · rw [Function.update_of_ne hne]
    exact h.bound y ((List.mem_append.mp hy).resolve_right fun hlast =>
      hne (List.mem_singleton.mp hlast))

theorem Settled.registered (h : Settled cfg s) (hs : s.Sound cfg) :
    Settled cfg (s.registered cfg ret d) := by
  have hnodup : (wanted cfg s d s.devices).Nodup := hs.devices_nodup.filter _
  have hprobes : ∀ y, probes y (s.registered cfg ret d).events ≤ 1 ∧
      ((s.registered cfg ret d).sprtDriver y = none →
        probes y (s.registered cfg ret d).events = 0) := fun y =>
    probed_bindAll hnodup (fun x hx => (mem_wanted.mp hx).2.1) (h.probed y) (h.unprobed y)
  refine ⟨fun y hy => ?_, fun y => (hprobes y).1, fun y => (hprobes y).2⟩
  have hmem : y ∈ s.devices := hy
  have hold := h.bound y hmem
  simp only [PlatformBus.registered, PlatformBus.bindAll, List.find?_append, ← hold,
    List.find?_singleton]
  cases hpoint : s.sprtDriver y with
  | some d' =>
    rw [if_neg fun hw => by simp [(mem_wanted.mp hw).2.1] at hpoint]
    rfl
  | none =>
    cases haccept : accepts cfg y d with
    | true => rw [if_pos (mem_wanted.mpr ⟨hmem, hpoint, haccept⟩)]; rfl
    | false => rw [if_neg fun hw => by simp [(mem_wanted.mp hw).2.2] at haccept]; rfl

/-! ## All arrivals -/

/-- A device with a name of its own is not found. -/
theorem fwkDeviceFind_new {name : List Char} (hname : fwkDevGetName cfg s x = some name) :
    ∀ {leaves : List Nat}, (∀ y ∈ leaves, fwkDevGetName cfg s y ≠ none ∧
      fwkDevGetName cfg s y ≠ fwkDevGetName cfg s x) → fwkDeviceFind cfg s x leaves = .ok false
  | [], _ => rfl
  | y :: rest, h => by
    obtain ⟨hsome, hne⟩ := h y List.mem_cons_self
    have hrest := fwkDeviceFind_new hname fun z hz => h z (List.mem_cons_of_mem y hz)
    obtain ⟨nameLeaf, hleaf⟩ := Option.ne_none_iff_exists'.mp hsome
    have hxy : y ≠ x := fun heq => hne (heq ▸ rfl)
    have hnames : nameLeaf ≠ name := by
      rintro rfl
      exact hne (hleaf.trans hname.symm)
    simp only [fwkDeviceFind, if_neg hxy, hleaf, hname, if_neg hnames, hrest]

/-- A driver with a name of its own is not found. -/
theorem fwkDriverFind_new (h : ∀ d' ∈ s.drivers, (cfg.drv d').name ≠ (cfg.drv d).name) :
    fwkDriverFind cfg s d = false :=
  List.any_eq_false.mpr fun d' hd' => by simpa using h d' hd'

/-- Devices and drivers with different names, on the bus or still to come. -/
structure Arriving (cfg : PlatTable) (s : PlatformBus) (devs drvs : List Nat) : Prop where
  bus : ∀ x ∈ devs, (cfg.dev x).sprtBus = true
  named : ∀ x ∈ s.devices ++ devs, fwkDevGetName cfg s x ≠ none
  names : (s.devices ++ devs).Pairwise fun x y => fwkDevGetName cfg s x ≠ fwkDevGetName cfg s y
  drvBus : ∀ d ∈ drvs, (cfg.drv d).sprtBus = true
  drvNames : (s.drivers ++ drvs).Pairwise fun d d' => (cfg.drv d).name ≠ (cfg.drv d').name

theorem Arriving.added {devs drvs : List Nat} (h : Arriving cfg s (x :: devs) drvs) :
    Arriving cfg (s.added cfg ret x) devs drvs := by
  obtain ⟨hbus, hnamed, hnames, hdrvBus, hdrvNames⟩ := h
  rw [List.append_cons] at hnamed hnames
  exact ⟨fun y hy => hbus y (List.mem_cons_of_mem x hy), hnamed, hnames, hdrvBus, hdrvNames⟩

theorem Arriving.registered {devs drvs : List Nat} (h : Arriving cfg s devs (d :: drvs)) :
    Arriving cfg (s.registered cfg ret d) devs drvs := by
  obtain ⟨hbus, hnamed, hnames, hdrvBus, hdrvNames⟩ := h
  rw [List.append_cons] at hdrvNames
  exact ⟨hbus, hnamed, hnames, fun d' hd' => hdrvBus d' (List.mem_cons_of_mem d hd'), hdrvNames⟩

/-- `fwk_device_add` of the next device. -/
theorem Arriving.find_device {devs drvs : List Nat} (h : Arriving cfg s (x :: devs) drvs)
    (hleaves : s.leaves = s.devices) : fwkDeviceFind cfg s x s.leaves = .ok false := by
  obtain ⟨name, hname⟩ := Option.ne_none_iff_exists'.mp
    (h.named x (List.mem_append_right s.devices List.mem_cons_self))
  rw [hleaves]
  refine fwkDeviceFind_new hname fun y hy => ⟨h.named y (List.mem_append_left _ hy), ?_⟩
  exact (List.pairwise_append.mp h.names).2.2 y hy x List.mem_cons_self

/-- Arrivals go through, and leave everything on the bus, settled. -/
theorem arrivals_settle {is : List BusCall} (hcalls : ∀ i ∈ is, i.Arrives) (hs : s.Sound cfg)
    (h : Settled cfg s) (hleaves : s.leaves = s.devices)
    (harriving : Arriving cfg s (addedDevices is) (registeredDrivers is)) :
    ∃ t, exec (busStep cfg) s is = some t ∧ t.devices = s.devices ++ addedDevices is ∧
      t.drivers = s.drivers ++ registeredDrivers is ∧ Settled cfg t := by
  induction is generalizing s with
  | nil => exact ⟨s, rfl, by simp [addedDevices], by simp [registeredDrivers], h⟩
  | cons i is ih =>
    have hrest : ∀ j ∈ is, j.Arrives := fun j hj => hcalls j (List.mem_cons_of_mem i hj)
    cases i with
    | add x ret =>
      have hfind := harriving.find_device hleaves
      have hbus := harriving.bus x List.mem_cons_self
      have hnew := not_mem_of_not_found hfind
      have hstep : busStep cfg s (.add x ret) = some (s.added cfg ret x) := by
        simp [busStep, fwkDeviceAdd_new hfind hbus, Except.toOption]
      obtain ⟨t, ht, hdevices, hdrivers, hsettled⟩ := ih hrest (hs.added hnew hbus)
        (h.added hs hnew) (congrArg (· ++ [x]) hleaves) harriving.added
      exact ⟨t, (exec_step hstep).trans ht, hdevices.trans (List.append_cons ..).symm, hdrivers,
        hsettled⟩
    | register d ret =>
      have hbus := harriving.drvBus d List.mem_cons_self
      have hnew : ∀ d' ∈ s.drivers, (cfg.drv d').name ≠ (cfg.drv d).name := fun d' hd' =>
        (List.pairwise_append.mp harriving.drvNames).2.2 d' hd' d List.mem_cons_self
      have hstep : busStep cfg s (.register d ret) = some (s.registered cfg ret d) := by
        rw [busStep, fwkDriverRegister_new hs.devices_nodup (fwkDriverFind_new hnew) hbus]
      obtain ⟨t, ht, hdevices, hdrivers, hsettled⟩ := ih hrest (hs.registered hnew)
        (h.registered hs) hleaves harriving.registered
      exact ⟨t, (exec_step hstep).trans ht, hdevices, hdrivers.trans (List.append_cons ..).symm,
        hsettled⟩
    | del x => exact (hcalls _ List.mem_cons_self).elim
    | unregister d => exact (hcalls _ List.mem_cons_self).elim

/-- **Binding does not depend on the order of arrival.**  Whatever the order of the devices and
however the drivers come in between, every device ends with the first driver that accepts it, and
was probed at most once. -/
theorem binding_order_free (cfg : PlatTable) (kobjName : Nat → Option (List Char))
    {devs drvs : List Nat} {is : List BusCall}
    (harriving : Arriving cfg (.start kobjName) devs drvs) (hcalls : ∀ i ∈ is, i.Arrives)
    (hdevs : (addedDevices is).Perm devs) (hdrvs : registeredDrivers is = drvs) :
    ∃ t, exec (busStep cfg) (.start kobjName) is = some t ∧
      ∀ x ∈ devs, t.sprtDriver x = drvs.find? (accepts cfg x) ∧ probes x t.events ≤ 1 := by
  subst hdrvs
  have hperm : Arriving cfg (.start kobjName) (addedDevices is) (registeredDrivers is) :=
    ⟨fun x hx => harriving.bus x (hdevs.mem_iff.mp hx),
      fun x hx => harriving.named x (hdevs.mem_iff.mp hx),
      (hdevs.pairwise_iff fun hne => hne.symm).mpr harriving.names, harriving.drvBus,
      harriving.drvNames⟩
  have hsettled : Settled cfg (.start kobjName) :=
    ⟨fun x hx => absurd hx List.not_mem_nil, fun x => Nat.zero_le 1, fun x _ => rfl⟩
  obtain ⟨t, ht, hdevices, hdrivers, hend⟩ :=
    arrivals_settle hcalls (.start kobjName) hsettled rfl hperm
  refine ⟨t, ht, fun x hx => ⟨?_, hend.probed x⟩⟩
  have hmem : x ∈ t.devices := hdevices ▸ hdevs.mem_iff.mpr hx
  have hdrv : t.drivers = registeredDrivers is := hdrivers
  rw [hend.bound x hmem, hdrv]

/-- A serial port with a name in the tables of two drivers, and a timer with the name of a third. -/
def exampleTable : PlatTable where
  dev x :=
    if x = 0x81000 then ⟨['t', 't', 'y'], none, some ['t', 't', 'y'], true, 0⟩
    else ⟨['t', 'i', 'm', 'e', 'r'], none, some ['t', 'i', 'm', 'e', 'r'], true, 0⟩
  drv d :=
    if d = 0x82000 then ⟨['u', 'a', 'r', 't'], [], [['t', 't', 'y']], true, true, true⟩
    else if d = 0x82008 then ⟨['l', 'o', 'g'], [], [['t', 't', 'y']], true, true, true⟩
    else ⟨['t', 'i', 'm', 'e', 'r'], [], [], true, true, true⟩
  compatible _ := []

def exampleArrivals : List BusCall :=
  [.add 0x81004 fun _ _ => 0, .register 0x82000 fun _ _ => 0, .add 0x81000 fun _ _ => 0,
    .register 0x82004 fun _ _ => 0]

theorem binding_order_free_example :
    ∃ t, exec (busStep exampleTable) (.start fun _ => none) exampleArrivals = some t ∧
      ∀ x ∈ [0x81000, 0x81004], t.sprtDriver x =
        [0x82000, 0x82004].find? (accepts exampleTable x) ∧ probes x t.events ≤ 1 :=
  binding_order_free exampleTable (fun _ => none)
    ⟨by decide, by decide, by decide, by decide, by decide⟩
    (by simp [exampleArrivals, BusCall.Arrives]) (by decide) rfl

end HeavenFox.Platform
