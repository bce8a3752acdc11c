/-
# HeavenFox.Platform.BusEffects -- what a call on the bus does

Whatever the path, a driver is set in one way (`bind`) and taken off in one way (`release`).  The
loops bind the first driver that accepts the new device, or the new driver to every free device it
accepts, and release every device of a driver that leaves.  `BusEffect` says once what each call
can do.
-/
import HeavenFox.Platform.BusType

namespace HeavenFox.Platform

open HeavenFox.Common HeavenFox.Logic

/-- `fwk_platform_match` answers without an error. -/
def accepts (cfg : PlatTable) (x d : Nat) : Bool := decide (0 ≤ fwkPlatformMatch cfg x d)

/-- What is done when `d` is set for `x`. -/
def bindEvents (cfg : PlatTable) (ret : Nat → Nat → Int) (x d : Nat) : List BusEvent :=
  .matched x d :: if (cfg.drv d).probe then [.probe x d (ret x d)] else []

/-- What is done when `d` is taken off `x`. -/
def releaseEvents (cfg : PlatTable) (x d : Nat) : List BusEvent :=
  (if (cfg.drv d).remove then [.remove x d] else []) ++ [.released x d]

namespace PlatformBus

/-- `d` is set for `x` and probed. -/
def bind (s : PlatformBus) (cfg : PlatTable) (ret : Nat → Nat → Int) (x d : Nat) : PlatformBus :=
  { s with
    sprtDriver := Function.update s.sprtDriver x (some d)
    events := s.events ++ bindEvents cfg ret x d }

/-- `d` is taken off `x`, and counts one device less. -/
def release (s : PlatformBus) (cfg : PlatTable) (x d : Nat) : PlatformBus :=
  { s with
    sprtDriver := Function.update s.sprtDriver x none
    numMatches := Function.update s.numMatches d (s.numMatches d - 1)
    events := s.events ++ releaseEvents cfg x d }

end PlatformBus

variable {cfg : PlatTable} {ret : Nat → Nat → Int} {s t : PlatformBus} {x d : Nat}

/-! ## One device and one driver -/

theorem driverMatch_refused (ret : Nat → Nat → Int) (s : PlatformBus)
    (h : accepts cfg x d = false) :
    fwkDeviceDriverMatch cfg ret s x d = (-erNotfound, s) := by
  have hneg : fwkPlatformMatch cfg x d < 0 := by simpa [accepts] using h
  rw [fwkDeviceDriverMatch, if_pos hneg]

/-- A driver that accepts the device is set, whatever its probe returns. -/
theorem driverMatch_accepted (ret : Nat → Nat → Int) (s : PlatformBus)
    (h : accepts cfg x d = true) :
    ∃ retval, fwkDeviceDriverMatch cfg ret s x d = (retval, s.bind cfg ret x d) ∧
      (retval = 0 ∨ retval = -erPermit) := by
  have hneg : ¬ fwkPlatformMatch cfg x d < 0 := by simpa [accepts] using h
  rw [fwkDeviceDriverMatch, if_neg hneg, fwkDeviceDriverProbe]
  simp only [fwkPlatformProbe, PlatformBus.log, PlatformBus.setDriver, Function.update_self,
    PlatformBus.bind, bindEvents]
  cases hprobe : (cfg.drv d).probe with
  | false => exact ⟨-erPermit, by simp, .inr rfl⟩
  | true =>
    by_cases hret : 0 > ret x d
    · exact ⟨-erPermit, by simp [hret], .inr rfl⟩
    · exact ⟨erNormal, by simp [hret], .inl rfl⟩

/-- The two functions that take a driver off do the same. -/
theorem release_eq (h : s.sprtDriver x = some d) :
    (((fwkPlatformRemove cfg s x).setDriver x none).log (.released x d)).setMatches d
        ((((fwkPlatformRemove cfg s x).setDriver x none).log (.released x d)).numMatches d - 1) =
      s.release cfg x d := by
  simp only [fwkPlatformRemove, h, PlatformBus.setDriver, PlatformBus.log, PlatformBus.setMatches,
    PlatformBus.release, releaseEvents]
  cases (cfg.drv d).remove <;> simp

theorem fwkDeviceDetach_some (h : s.sprtDriver x = some d) :
    fwkDeviceDetach cfg s x = s.release cfg x d := by
  rw [fwkDeviceDetach, h]
  exact release_eq h

theorem fwkDeviceDetach_none (h : s.sprtDriver x = none) : fwkDeviceDetach cfg s x = s := by
  rw [fwkDeviceDetach, h]

/-! ## The loops -/

/-- The first driver that accepts the device is set. -/
theorem attachLoop_eq (cfg : PlatTable) (ret : Nat → Nat → Int) (x : Nat) (ds : List Nat) (s : PlatformBus) :
    ((ds.find? (accepts cfg x) = none ∧ attachLoop cfg ret x ds s = (-erPermit, s)) ∨
      ∃ d, ds.find? (accepts cfg x) = some d ∧
        attachLoop cfg ret x ds s = (erNormal, s.bind cfg ret x d)) := by
  induction ds with
  | nil => exact .inl ⟨rfl, rfl⟩
  | cons d ds ih =>
    cases haccept : accepts cfg x d with
    | true =>
      obtain ⟨retval, hmatch, hretval⟩ := driverMatch_accepted ret s haccept
      exact .inr ⟨d, by rw [List.find?_cons_of_pos haccept],
        by simp only [attachLoop, hmatch, if_pos hretval]⟩
    | false =>
      have hmatch := driverMatch_refused ret s haccept
      have hretval : ¬ ((-erNotfound : Int) = 0 ∨ (-erNotfound : Int) = -erPermit) := by decide
      simpa only [attachLoop, hmatch, if_neg hretval, List.find?_cons, haccept] using ih

/-- The devices of the list that are free and that the driver accepts. -/
def wanted (cfg : PlatTable) (s : PlatformBus) (d : Nat) (xs : List Nat) : List Nat :=
  xs.filter fun x => (s.sprtDriver x).isNone && accepts cfg x d

/-- The devices of the list that have the driver. -/
def held (s : PlatformBus) (d : Nat) (xs : List Nat) : List Nat :=
  xs.filter fun x => s.sprtDriver x = some d

namespace PlatformBus

/-- `d` is set for all of `xs`. -/
def bindAll (s : PlatformBus) (cfg : PlatTable) (ret : Nat → Nat → Int) (xs : List Nat) (d : Nat) :
    PlatformBus :=
  { s with
    sprtDriver := fun y => if y ∈ xs then some d else s.sprtDriver y
    events := s.events ++ xs.flatMap fun x => bindEvents cfg ret x d }

/-- `d` is taken off all of `xs`. -/
def releaseAll (s : PlatformBus) (cfg : PlatTable) (xs : List Nat) (d : Nat) : PlatformBus :=
  { s with
    sprtDriver := fun y => if y ∈ xs then none else s.sprtDriver y
    numMatches := Function.update s.numMatches d (s.numMatches d - xs.length)
    events := s.events ++ xs.flatMap fun x => releaseEvents cfg x d }

theorem bindAll_nil : s.bindAll cfg ret [] d = s := by simp [bindAll]

theorem bindAll_cons (xs : List Nat) :
    s.bindAll cfg ret (x :: xs) d = (s.bind cfg ret x d).bindAll cfg ret xs d := by
  simp only [bindAll, bind, List.flatMap_cons, List.append_assoc, mk.injEq, true_and, and_true]
  funext y
  by_cases hy : y = x <;> simp [hy]

theorem releaseAll_nil : s.releaseAll cfg [] d = s := by simp [releaseAll]

theorem releaseAll_cons (xs : List Nat) :
    s.releaseAll cfg (x :: xs) d = (s.release cfg x d).releaseAll cfg xs d := by
  simp only [releaseAll, release, List.flatMap_cons, List.append_assoc, mk.injEq, true_and,
    and_true, Function.update_self, Function.update_idem, List.length_cons]
  refine ⟨?_, by congr 1; push_cast; omega⟩
  funext y
  by_cases hy : y = x <;> simp [hy]

end PlatformBus

theorem driverAttachLoop_eq (cfg : PlatTable) (ret : Nat → Nat → Int) (d : Nat) (xs : List Nat)
    (hnodup : xs.Nodup) (n retval : Int) (s : PlatformBus) :
    ∃ retval', driverAttachLoop cfg ret d xs n retval s =
      (n + (wanted cfg s d xs).length, retval', s.bindAll cfg ret (wanted cfg s d xs) d) := by
  induction xs generalizing n retval s with
  | nil => exact ⟨retval, by simp [driverAttachLoop, wanted, PlatformBus.bindAll_nil]⟩
  | cons x xs ih =>
    obtain ⟨hx, hnodup⟩ := List.nodup_cons.mp hnodup
    by_cases hfree : s.sprtDriver x = none
    · cases haccept : accepts cfg x d with
      | true =>
        obtain ⟨retval', hmatch, hretval⟩ := driverMatch_accepted ret s haccept
        have hrest : wanted cfg (s.bind cfg ret x d) d xs = wanted cfg s d xs := by
          refine List.filter_congr fun y hy => ?_
          have hne : y ≠ x := ne_of_mem_of_not_mem hy hx
          simp [PlatformBus.bind, hne]
        have hcons : wanted cfg s d (x :: xs) = x :: wanted cfg s d xs := by
          simp [wanted, hfree, haccept]
        obtain ⟨retval'', hloop⟩ := ih hnodup (n + 1) retval' (s.bind cfg ret x d)
        refine ⟨retval'', ?_⟩
        simp only [driverAttachLoop, hfree, hmatch, if_pos hretval, hloop, hrest, hcons,
          PlatformBus.bindAll_cons, List.length_cons, Option.isSome_none, Bool.false_eq_true,
          if_false]
        congr 1
        push_cast
        omega
      | false =>
        have hretval : ¬ ((-erNotfound : Int) = 0 ∨ (-erNotfound : Int) = -erPermit) := by decide
        have hcons : wanted cfg s d (x :: xs) = wanted cfg s d xs := by
          simp [wanted, haccept]
        rw [hcons]
        simpa only [driverAttachLoop, hfree, driverMatch_refused _ _ haccept, if_neg hretval,
          Option.isSome_none, Bool.false_eq_true, if_false] using ih hnodup n (-erNotfound) s
    · have hsome : (s.sprtDriver x).isSome = true := Option.isSome_iff_ne_none.mpr hfree
      have hcons : wanted cfg s d (x :: xs) = wanted cfg s d xs := by
        simp [wanted, hfree]
      rw [hcons]
      simpa only [driverAttachLoop, hsome, if_true] using ih hnodup n retval s

theorem driverDetachLoop_eq (xs : List Nat) (hnodup : xs.Nodup) (s : PlatformBus) :
    driverDetachLoop cfg d xs s = s.releaseAll cfg (held s d xs) d := by
  induction xs generalizing s with
  | nil => exact PlatformBus.releaseAll_nil.symm
  | cons x xs ih =>
    obtain ⟨hx, hnodup⟩ := List.nodup_cons.mp hnodup
    by_cases hheld : s.sprtDriver x = some d
    · have hrest : held (s.release cfg x d) d xs = held s d xs := by
        refine List.filter_congr fun y hy => ?_
        have hne : y ≠ x := ne_of_mem_of_not_mem hy hx
        simp [PlatformBus.release, hne]
      have hcons : held s d (x :: xs) = x :: held s d xs := by simp [held, hheld]
      rw [driverDetachLoop, if_neg (by simp [hheld]), hcons, PlatformBus.releaseAll_cons, ← hrest,
        ← ih hnodup]
      exact congrArg (driverDetachLoop cfg d xs) (release_eq hheld)
    · have hcons : held s d (x :: xs) = held s d xs := by simp [held, hheld]
      rw [driverDetachLoop, if_pos hheld, hcons, ih hnodup]

/-! ## The calls -/

/-- The calls on the bus, with what the probes return. -/
inductive BusCall where
  | add (x : Nat) (ret : Nat → Nat → Int)
  | del (x : Nat)
  | register (d : Nat) (ret : Nat → Nat → Int)
  | unregister (d : Nat)

/-- One call; none where it does not return. -/
def busStep (cfg : PlatTable) (s : PlatformBus) : BusCall → Option PlatformBus
  | .add x ret => ((fwkDeviceAdd cfg ret s x).toOption).map Prod.snd
  | .del x => ((fwkDeviceDel cfg s x).toOption).map Prod.snd
  | .register d ret => some (fwkDriverRegister cfg ret s d).2
  | .unregister d => some (fwkDriverUnregister cfg s d).2

/-- An empty bus, with the names the devices have. -/
def PlatformBus.start (kobjName : Nat → Option (List Char)) : PlatformBus where
  devices := []
  drivers := []
  leaves := []
  sprtDriver := fun _ => none
  kobjName := kobjName
  numMatches := fun _ => 0
  events := []

/-- Devices are on the bus once and known, drivers have different names, and what a device points to
is on the bus. -/
structure PlatformBus.Sound (cfg : PlatTable) (s : PlatformBus) : Prop where
  devices_nodup : s.devices.Nodup
  devices_bus : ∀ x ∈ s.devices, x ∈ s.leaves ∧ (cfg.dev x).sprtBus = true
  drivers_apart : s.drivers.Pairwise fun d d' => (cfg.drv d).name ≠ (cfg.drv d').name
  points : ∀ x d, s.sprtDriver x = some d → x ∈ s.devices ∧ d ∈ s.drivers

/-- The state after `x` is added: with the first driver that accepts it. -/
def PlatformBus.added (s : PlatformBus) (cfg : PlatTable) (ret : Nat → Nat → Int) (x : Nat) :
    PlatformBus :=
  { s with
    devices := s.devices ++ [x]
    leaves := s.leaves ++ [x]
    sprtDriver := Function.update s.sprtDriver x (s.drivers.find? (accepts cfg x))
    events := s.events ++ (s.drivers.find? (accepts cfg x)).elim [] (bindEvents cfg ret x) }

/-- The state after `x` is detached and deleted. -/
def PlatformBus.deleted (s : PlatformBus) (cfg : PlatTable) (x : Nat) : PlatformBus :=
  { fwkDeviceDetach cfg s x with
    devices := s.devices.erase x
    leaves := s.leaves.erase x
    kobjName := Function.update s.kobjName x none }

/-- The state after `d` is registered: it has the free devices it accepts. -/
def PlatformBus.registered (s : PlatformBus) (cfg : PlatTable) (ret : Nat → Nat → Int) (d : Nat) :
    PlatformBus :=
  { s.bindAll cfg ret (wanted cfg s d s.devices) d with
    drivers := s.drivers ++ [d]
    numMatches := Function.update s.numMatches d (wanted cfg s d s.devices).length }

/-- The state after `d` is unregistered. -/
def PlatformBus.unregistered (s : PlatformBus) (cfg : PlatTable) (d : Nat) : PlatformBus :=
  { s.releaseAll cfg (held s d s.devices) d with drivers := s.drivers.erase d }

/-- **What a call can do.** -/
inductive BusEffect (cfg : PlatTable) (s : PlatformBus) : BusCall → PlatformBus → Prop
  /-- The call is refused. -/
  | refused (i : BusCall) : BusEffect cfg s i s
  /-- A device of no bus comes or goes. -/
  | aside (i : BusCall) (leaves : List Nat) (kobjName : Nat → Option (List Char))
      (hleaves : ∀ x ∈ s.devices, x ∈ leaves) :
      BusEffect cfg s i { s with leaves := leaves, kobjName := kobjName }
  | added (x : Nat) (ret : Nat → Nat → Int) (hfind : fwkDeviceFind cfg s x s.leaves = .ok false)
      (hbus : (cfg.dev x).sprtBus = true) :
      BusEffect cfg s (.add x ret) (s.added cfg ret x)
  | deleted (x : Nat) (hmem : x ∈ s.leaves) (hbus : (cfg.dev x).sprtBus = true) :
      BusEffect cfg s (.del x) (s.deleted cfg x)
  | registered (d : Nat) (ret : Nat → Nat → Int)
      (hnew : ∀ d' ∈ s.drivers, (cfg.drv d').name ≠ (cfg.drv d).name) :
      BusEffect cfg s (.register d ret) (s.registered cfg ret d)
  | unregistered (d : Nat) : BusEffect cfg s (.unregister d) (s.unregistered cfg d)

/-- A device that is not found is not on the list. -/
theorem not_mem_of_not_found :
    ∀ {leaves : List Nat}, fwkDeviceFind cfg s x leaves = .ok false → x ∉ leaves
  | [], _ => List.not_mem_nil
  | leaf :: rest, h => by
    rw [fwkDeviceFind] at h
    split at h
    next => cases h
    next hne =>
      split at h
      next =>
        split at h
        next => cases h
        next => exact List.not_mem_cons_of_ne_of_not_mem (Ne.symm hne) (not_mem_of_not_found h)
      next => cases h

/-- `fwk_device_add` of a device that is not found. -/
theorem fwkDeviceAdd_new (hfind : fwkDeviceFind cfg s x s.leaves = .ok false)
    (hbus : (cfg.dev x).sprtBus = true) :
    fwkDeviceAdd cfg ret s x = .ok (erNormal, s.added cfg ret x) := by
  obtain ⟨hnone, hloop⟩ | ⟨d, hd, hloop⟩ := attachLoop_eq cfg ret x
      s.drivers { s.setDriver x none with devices := s.devices ++ [x] }
  all_goals
    simp only [PlatformBus.setDriver] at hloop
    simp only [fwkDeviceAdd, hfind, bind, Except.bind, Bool.false_eq_true, if_false, hbus, if_true,
      fwkDeviceToBus, fwkDeviceAttach, PlatformBus.setDriver, Function.update_self,
      Option.isSome_none, hloop]
  · simp [PlatformBus.added, hnone]
  · simp [PlatformBus.added, PlatformBus.bind, hd]

/-- `fwk_driver_register` of a driver that is not found. -/
theorem fwkDriverRegister_new (hs : s.devices.Nodup) (hfind : fwkDriverFind cfg s d = false)
    (hbus : (cfg.drv d).sprtBus = true) :
    (fwkDriverRegister cfg ret s d).2 = s.registered cfg ret d := by
  obtain ⟨retval, hloop⟩ := driverAttachLoop_eq cfg ret d s.devices hs 0 0
    { s.setMatches d 0 with drivers := s.drivers ++ [d] }
  have hwanted : wanted cfg { s.setMatches d 0 with drivers := s.drivers ++ [d] } d s.devices =
      wanted cfg s d s.devices := rfl
  simp only [PlatformBus.setMatches] at hloop hwanted
  simp only [fwkDriverRegister, hbus, Bool.not_true, Bool.false_eq_true, if_false, hfind,
    fwkDriverAttach, PlatformBus.setMatches, hloop, hwanted]
  simp [PlatformBus.registered, PlatformBus.bindAll]

/-- **Every call is one of these.** -/
theorem busStep_effect {i : BusCall} (hs : s.Sound cfg) (h : busStep cfg s i = some t) :
    BusEffect cfg s i t := by
  cases i with
  | add x ret =>
    simp only [busStep] at h
    cases hfind : fwkDeviceFind cfg s x s.leaves with
    | error e => simp [fwkDeviceAdd, hfind, bind, Except.bind, Except.toOption] at h
    | ok found =>
      cases found with
      | true =>
        simp only [fwkDeviceAdd, hfind, bind, Except.bind, if_true, Except.toOption,
          Option.map_some, Option.some.injEq] at h
        exact h ▸ .refused _
      | false =>
        cases hbus : (cfg.dev x).sprtBus with
        | true =>
          simp only [fwkDeviceAdd_new hfind hbus, Except.toOption, Option.map_some,
            Option.some.injEq] at h
          exact h ▸ .added x ret hfind hbus
        | false =>
          simp only [fwkDeviceAdd, hfind, bind, Except.bind, Bool.false_eq_true, if_false, hbus,
            Except.toOption, Option.map_some, Option.some.injEq] at h
          exact h ▸ .aside _ _ s.kobjName fun y hy => List.mem_append_left [x] (hs.devices_bus y hy).1
  | del x =>
    simp only [busStep] at h
    cases hfind : fwkDeviceFind cfg s x s.leaves with
    | error e => simp [fwkDeviceDel, hfind, bind, Except.bind, Except.toOption] at h
    | ok found =>
      cases found with
      | false =>
        simp only [fwkDeviceDel, hfind, bind, Except.bind, Bool.false_eq_true, if_false,
          Except.toOption, Option.map_some, Option.some.injEq] at h
        exact h ▸ .refused _
      | true =>
        cases hbus : (cfg.dev x).sprtBus with
        | true =>
          have hdetach : (fwkDeviceDetach cfg s x).leaves = s.leaves ∧
              (fwkDeviceDetach cfg s x).devices = s.devices ∧
              (fwkDeviceDetach cfg s x).kobjName = s.kobjName := by
            cases hpoint : s.sprtDriver x with
            | none => rw [fwkDeviceDetach_none hpoint]; exact ⟨rfl, rfl, rfl⟩
            | some d => rw [fwkDeviceDetach_some hpoint]; exact ⟨rfl, rfl, rfl⟩
          by_cases hmem : x ∈ s.leaves
          · simp only [fwkDeviceDel, hfind, bind, Except.bind, if_true, hbus, fwkBusDelDevice,
              hdetach, hmem, Except.toOption, Option.map_some, Option.some.injEq] at h
            exact h ▸ .deleted x hmem hbus
          · simp [fwkDeviceDel, hfind, bind, Except.bind, hbus, fwkBusDelDevice, hdetach, hmem,
              Except.toOption] at h
        | false =>
          have hoff : ∀ y ∈ s.devices, y ≠ x := by
            rintro y hy rfl
            exact absurd (hs.devices_bus y hy).2 (by simp [hbus])
          by_cases hmem : x ∈ s.leaves
          · simp only [fwkDeviceDel, hfind, bind, Except.bind, if_true, hbus, Bool.false_eq_true,
              if_false, hmem, Except.toOption, Option.map_some, Option.some.injEq] at h
            exact h ▸ .aside _ _ _ fun y hy =>
              (List.mem_erase_of_ne (hoff y hy)).mpr (hs.devices_bus y hy).1
          · simp [fwkDeviceDel, hfind, bind, Except.bind, hbus, hmem, Except.toOption] at h
  | register d ret =>
    simp only [busStep, Option.some.injEq] at h
    cases hbus : (cfg.drv d).sprtBus with
    | false =>
      simp only [fwkDriverRegister, hbus, Bool.not_false, if_true] at h
      exact h ▸ .refused _
    | true =>
      cases hfind : fwkDriverFind cfg s d with
      | true =>
        simp only [fwkDriverRegister, hbus, Bool.not_true, Bool.false_eq_true, if_false, hfind,
          if_true] at h
        exact h ▸ .refused _
      | false =>
        rw [fwkDriverRegister_new hs.devices_nodup hfind hbus] at h
        refine h ▸ .registered d ret fun d' hd' => ?_
        simpa using List.any_eq_false.mp hfind d' hd'
  | unregister d =>
    simp only [busStep, Option.some.injEq, fwkDriverUnregister] at h
    split at h
    next => exact h ▸ .refused _
    next =>
      split at h
      next => exact h ▸ .refused _
      next =>
        rw [driverDetachLoop_eq s.devices hs.devices_nodup] at h
        exact h ▸ .unregistered d

/-! ## The bus stays in order -/

theorem mem_wanted {xs : List Nat} :
    x ∈ wanted cfg s d xs ↔ x ∈ xs ∧ s.sprtDriver x = none ∧ accepts cfg x d = true := by
  simp [wanted]

theorem mem_held {xs : List Nat} : x ∈ held s d xs ↔ x ∈ xs ∧ s.sprtDriver x = some d := by
  simp [held]

theorem deleted_sprtDriver :
    (s.deleted cfg x).sprtDriver = Function.update s.sprtDriver x none := by
  cases hpoint : s.sprtDriver x with
  | none =>
    rw [PlatformBus.deleted, fwkDeviceDetach_none hpoint, ← hpoint, Function.update_eq_self]
  | some d => rw [PlatformBus.deleted, fwkDeviceDetach_some hpoint]; rfl

theorem deleted_drivers : (s.deleted cfg x).drivers = s.drivers := by
  cases hpoint : s.sprtDriver x with
  | none => rw [PlatformBus.deleted, fwkDeviceDetach_none hpoint]
  | some d => rw [PlatformBus.deleted, fwkDeviceDetach_some hpoint]; rfl

namespace PlatformBus.Sound

theorem drivers_nodup (h : s.Sound cfg) : s.drivers.Nodup :=
  h.drivers_apart.imp fun hne heq => hne (congrArg (fun d => (cfg.drv d).name) heq)

theorem start (kobjName : Nat → Option (List Char)) : (PlatformBus.start kobjName).Sound cfg where
  devices_nodup := List.nodup_nil
  devices_bus x hx := absurd hx List.not_mem_nil
  drivers_apart := List.Pairwise.nil
  points x d h := by simp [PlatformBus.start] at h

theorem added (h : s.Sound cfg) (hnew : x ∉ s.leaves) (hbus : (cfg.dev x).sprtBus = true) :
    (s.added cfg ret x).Sound cfg where
  devices_nodup := by
    refine List.nodup_append.mpr ⟨h.devices_nodup, List.nodup_singleton x, ?_⟩
    rintro y hy z hz rfl
    exact hnew (List.mem_singleton.mp hz ▸ (h.devices_bus y hy).1)
  devices_bus y hy := by
    obtain hy | hy := List.mem_append.mp hy
    · exact ⟨List.mem_append_left [x] (h.devices_bus y hy).1, (h.devices_bus y hy).2⟩
    · obtain rfl := List.mem_singleton.mp hy
      exact ⟨List.mem_append_right s.leaves (List.mem_singleton_self y), hbus⟩
  drivers_apart := h.drivers_apart
  points y d hy := by
    simp only [PlatformBus.added] at hy ⊢
    by_cases hne : y = x
    · subst hne
      rw [Function.update_self] at hy
      exact ⟨List.mem_append_right s.devices (List.mem_singleton_self y),
        List.mem_of_find?_eq_some hy⟩
    · rw [Function.update_of_ne hne] at hy
      exact ⟨List.mem_append_left [x] (h.points y d hy).1, (h.points y d hy).2⟩

theorem deleted (h : s.Sound cfg) : (s.deleted cfg x).Sound cfg where
  devices_nodup := h.devices_nodup.erase x
  devices_bus y hy := by
    obtain ⟨hne, hy⟩ := h.devices_nodup.mem_erase_iff.mp hy
    exact ⟨(List.mem_erase_of_ne hne).mpr (h.devices_bus y hy).1, (h.devices_bus y hy).2⟩
  drivers_apart := by
    rw [deleted_drivers]
    exact h.drivers_apart
  points y d hy := by
    rw [deleted_sprtDriver] at hy
    rw [deleted_drivers]
    by_cases hne : y = x
    · subst hne
      simp at hy
    · rw [Function.update_of_ne hne] at hy
      exact ⟨(List.mem_erase_of_ne hne).mpr (h.points y d hy).1, (h.points y d hy).2⟩

theorem registered (h : s.Sound cfg)
    (hnew : ∀ d' ∈ s.drivers, (cfg.drv d').name ≠ (cfg.drv d).name) :
    (s.registered cfg ret d).Sound cfg where
  devices_nodup := h.devices_nodup
  devices_bus := h.devices_bus
  drivers_apart := by
    refine List.pairwise_append.mpr ⟨h.drivers_apart, List.pairwise_singleton _ d, ?_⟩
    intro d' hd' d'' hd''
    obtain rfl := List.mem_singleton.mp hd''
    exact hnew d' hd'
  points y d' hy := by
    simp only [PlatformBus.registered, PlatformBus.bindAll] at hy ⊢
    split at hy
    next hmem =>
      obtain rfl := Option.some.inj hy
      exact ⟨(mem_wanted.mp hmem).1, List.mem_append_right _ (List.mem_singleton_self d)⟩
    next => exact ⟨(h.points y d' hy).1, List.mem_append_left [d] (h.points y d' hy).2⟩

theorem unregistered (h : s.Sound cfg) : (s.unregistered cfg d).Sound cfg where
  devices_nodup := h.devices_nodup
  devices_bus := h.devices_bus
  drivers_apart := h.drivers_apart.sublist List.erase_sublist
  points y d' hy := by
    simp only [PlatformBus.unregistered, PlatformBus.releaseAll] at hy ⊢
    split at hy
    next => cases hy
    next hmem =>
      have hpoint := h.points y d' hy
      refine ⟨hpoint.1, (List.mem_erase_of_ne ?_).mpr hpoint.2⟩
      rintro rfl
      exact hmem (mem_held.mpr ⟨hpoint.1, hy⟩)

/-- A call keeps the bus in order. -/
theorem effect (h : s.Sound cfg) {i : BusCall} (hi : BusEffect cfg s i t) : t.Sound cfg := by
  cases hi with
  | refused => exact h
  | aside i leaves kobjName hleaves =>
    exact ⟨h.devices_nodup, fun x hx => ⟨hleaves x hx, (h.devices_bus x hx).2⟩, h.drivers_apart,
      h.points⟩
  | added x ret hfind hbus => exact h.added (not_mem_of_not_found hfind) hbus
  | deleted x => exact h.deleted
  | registered d ret hnew => exact h.registered hnew
  | unregistered d => exact h.unregistered

end PlatformBus.Sound

end HeavenFox.Platform
