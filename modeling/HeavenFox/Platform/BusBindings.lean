/-
# HeavenFox.Platform.BusBindings -- what is counted and what is called over whole runs

Every driver counts the devices that point to it.  A driver that is registered counts what it binds
and either way off counts one less, but a device that is added and finds its driver is not counted:
the count holds exactly along the runs in which no device finds a driver that is already there.

A device that has a driver keeps it, whatever the probe returned, until it is deleted or the driver
is unregistered; that is when `remove` is called.
-/
import HeavenFox.Platform.BusOrder

namespace HeavenFox.Platform

open HeavenFox.Common HeavenFox.Logic

variable {cfg : PlatTable} {ret : Nat → Nat → Int} {s t : PlatformBus} {x d : Nat}

/-! ## The count of a driver -/

namespace PlatformBus

/-- The devices on the bus that point to `d`. -/
def count (s : PlatformBus) (d : Nat) : Nat :=
  s.devices.countP fun x => decide (s.sprtDriver x = some d)

/-- Registered drivers count their devices, and no device points to another driver. -/
structure Counted (s : PlatformBus) : Prop where
  counts : ∀ d ∈ s.drivers, s.numMatches d = s.count d
  registered : ∀ x d, s.sprtDriver x = some d → d ∈ s.drivers

end PlatformBus

/-- A device that goes on the bus finds no driver there that accepts it. -/
def BusCall.Spares (cfg : PlatTable) (s : PlatformBus) : BusCall → Prop
  | .add x _ => fwkDeviceFind cfg s x s.leaves = .ok false → (cfg.dev x).sprtBus = true →
      ∀ d ∈ s.drivers, fwkPlatformMatch cfg x d < 0
  | _ => True

theorem count_added (hs : s.Sound cfg) (hnew : x ∉ s.leaves) :
    (s.added cfg ret x).count d =
      s.count d + if s.drivers.find? (accepts cfg x) = some d then 1 else 0 := by
  have hold : s.devices.countP (fun y => decide ((s.added cfg ret x).sprtDriver y = some d)) =
      s.count d := by
    refine List.countP_congr fun y hy => ?_
    have hne : y ≠ x := fun heq => hnew (heq ▸ (hs.devices_bus y hy).1)
    simp [PlatformBus.added, hne]
  have hlast : (s.added cfg ret x).sprtDriver x = s.drivers.find? (accepts cfg x) := by
    simp [PlatformBus.added]
  have hdevices : (s.added cfg ret x).devices = s.devices ++ [x] := rfl
  rw [PlatformBus.count, hdevices, List.countP_append, hold, List.countP_singleton, hlast]
  simp only [decide_eq_true_eq]

theorem count_erase (hs : s.Sound cfg) :
    ((s.deleted cfg x).count d : Int) =
      s.count d - if s.sprtDriver x = some d then 1 else 0 := by
  have hrest : (s.deleted cfg x).count d =
      (s.devices.erase x).countP fun y => decide (s.sprtDriver y = some d) := by
    refine List.countP_congr fun y hy => ?_
    have hne := (hs.devices_nodup.mem_erase_iff.mp hy).1
    simp [deleted_sprtDriver, hne]
  rw [hrest]
  by_cases hpoint : s.sprtDriver x = some d
  · have hperm := List.perm_cons_erase (hs.points x d hpoint).1
    rw [if_pos hpoint, PlatformBus.count, hperm.countP_eq, List.countP_cons_of_pos (by simpa)]
    push_cast
    omega
  · rw [if_neg hpoint, Int.sub_zero, PlatformBus.count]
    by_cases hx : x ∈ s.devices
    · rw [(List.perm_cons_erase hx).countP_eq, List.countP_cons_of_neg (by simpa)]
    · rw [List.erase_of_not_mem hx]

theorem count_registered {d' : Nat} (hs : s.Sound cfg) (hd : d ∉ s.drivers) :
    (s.registered cfg ret d).count d' =
      if d' = d then (wanted cfg s d s.devices).length else s.count d' := by
  split
  next heq =>
    subst heq
    rw [wanted, ← List.countP_eq_length_filter]
    refine List.countP_congr fun y hy => ?_
    have hmem : y ∈ s.devices := hy
    have hother : s.sprtDriver y ≠ some d' := fun hy' => hd (hs.points y d' hy').2
    simp [PlatformBus.registered, PlatformBus.bindAll, mem_wanted, hmem, hother]
  next hne =>
    refine List.countP_congr fun y hy => ?_
    simp only [PlatformBus.registered, PlatformBus.bindAll, mem_wanted, decide_eq_true_eq]
    split
    next hfree => simp [hfree.2.1, Ne.symm hne]
    next => rfl

theorem count_unregistered {d' : Nat} (hne : d' ≠ d) :
    (s.unregistered cfg d).count d' = s.count d' := by
  refine List.countP_congr fun y hy => ?_
  simp only [PlatformBus.unregistered, PlatformBus.releaseAll, mem_held, decide_eq_true_eq]
  split
  next hheld => simp [hheld.2, Ne.symm hne]
  next => rfl

theorem deleted_numMatches :
    (s.deleted cfg x).numMatches d = s.numMatches d - if s.sprtDriver x = some d then 1 else 0 := by
  cases hpoint : s.sprtDriver x with
  | none => simp [PlatformBus.deleted, fwkDeviceDetach_none hpoint]
  | some d' =>
    rw [PlatformBus.deleted, fwkDeviceDetach_some hpoint]
    simp only [PlatformBus.release, Option.some.injEq]
    by_cases hd : d = d'
    · simp [hd]
    · simp [hd, Ne.symm hd]

/-- The bus is in order and its drivers count. -/
def PlatformBus.Kept (cfg : PlatTable) (s : PlatformBus) : Prop := s.Sound cfg ∧ s.Counted

theorem PlatformBus.Sound.registered_of (h : s.Sound cfg) :
    ∀ x d, s.sprtDriver x = some d → d ∈ s.drivers := fun x d hx => (h.points x d hx).2

/-- **What is bound on registration and taken off is counted.** -/
theorem busStep_kept (s : PlatformBus) (i : BusCall) (t : PlatformBus) (h : s.Kept cfg)
    (hi : i.Spares cfg s) (hstep : busStep cfg s i = some t) : t.Kept cfg := by
  obtain ⟨hs, hcounted⟩ := h
  have heffect := busStep_effect hs hstep
  have ht := hs.effect heffect
  refine ⟨ht, ?_, ht.registered_of⟩
  intro d hd
  cases heffect with
  | refused => exact hcounted.counts d hd
  | aside i leaves kobjName hleaves => exact hcounted.counts d hd
  | added x ret hfind hbus =>
    have hnone : s.drivers.find? (accepts cfg x) = none := by
      refine List.find?_eq_none.mpr fun d' hd' => ?_
      have hneg := hi hfind hbus d' hd'
      simpa [accepts] using hneg
    rw [count_added hs (not_mem_of_not_found hfind), if_neg (by simp [hnone])]
    exact hcounted.counts d hd
  | deleted x hmem hbus =>
    rw [deleted_drivers] at hd
    rw [deleted_numMatches, count_erase hs, hcounted.counts d hd]
  | registered d' ret hnew =>
    have hd' : d' ∉ s.drivers := fun hmem => hnew d' hmem rfl
    rw [count_registered hs hd']
    simp only [PlatformBus.registered, List.mem_append, List.mem_singleton] at hd ⊢
    by_cases heq : d = d'
    · subst heq
      rw [Function.update_self, if_pos rfl]
    · rw [Function.update_of_ne heq, if_neg heq]
      exact hcounted.counts d (hd.resolve_right heq)
  | unregistered d' =>
    obtain ⟨hne, hmem⟩ := hs.drivers_nodup.mem_erase_iff.mp hd
    rw [count_unregistered hne, ← hcounted.counts d hmem]
    simp only [PlatformBus.unregistered, PlatformBus.releaseAll, Function.update_of_ne hne]

/-- A device that finds a driver is not counted. -/
theorem busStep_miscounts (s : PlatformBus) (i : BusCall) (t : PlatformBus) (h : s.Kept cfg)
    (hi : ¬ i.Spares cfg s) (hstep : busStep cfg s i = some t) : ¬ t.Counted := by
  obtain ⟨hs, hcounted⟩ := h
  cases i with
  | del x => exact absurd trivial hi
  | register d ret => exact absurd trivial hi
  | unregister d => exact absurd trivial hi
  | add x ret =>
    simp only [BusCall.Spares, not_forall] at hi
    obtain ⟨hfind, hbus, d, hd, haccept⟩ := hi
    have hadded : t = s.added cfg ret x := by
      simpa [busStep, fwkDeviceAdd_new hfind hbus, Except.toOption, eq_comm] using hstep
    have hsome : (s.drivers.find? (accepts cfg x)).isSome = true :=
      List.find?_isSome.mpr ⟨d, hd, by simpa [accepts] using haccept⟩
    obtain ⟨d', hd'⟩ := Option.isSome_iff_exists.mp hsome
    have hmem : d' ∈ s.drivers := List.mem_of_find?_eq_some hd'
    intro ht
    have hcount := ht.counts d' (hadded ▸ hmem)
    rw [hadded, count_added hs (not_mem_of_not_found hfind), if_pos hd'] at hcount
    have hold := hcounted.counts d' hmem
    have hsame : (s.added cfg ret x).numMatches d' = s.numMatches d' := rfl
    push_cast at hcount
    omega

theorem kept_start (kobjName : Nat → Option (List Char)) :
    (PlatformBus.start kobjName).Kept cfg :=
  ⟨.start kobjName, fun d hd => absurd hd List.not_mem_nil, fun x d h => by
    simp [PlatformBus.start] at h⟩

/-- **The counts hold exactly as long as no device finds a driver that is already there.** -/
theorem matches_counted_iff (cfg : PlatTable) (kobjName : Nat → Option (List Char))
    {is : List BusCall} {s : PlatformBus}
    (h : exec (busStep cfg) (.start kobjName) is = some s) :
    Always (busStep cfg) PlatformBus.Counted (.start kobjName) is ↔
      Meets (busStep cfg) (fun s i => i.Spares cfg s) (.start kobjName) is :=
  always_iff_meets busStep_kept (fun _ hs => hs.2) busStep_miscounts (kept_start kobjName) h

/-- The device is there first, and is counted. -/
theorem matches_counted_iff_example :
    Always (busStep exampleTable) PlatformBus.Counted (.start fun _ => none)
        [.add 0x81000 fun _ _ => 0, .register 0x82000 fun _ _ => 0, .del 0x81000] ↔
      Meets (busStep exampleTable) (fun s i => i.Spares exampleTable s) (.start fun _ => none)
        [.add 0x81000 fun _ _ => 0, .register 0x82000 fun _ _ => 0, .del 0x81000] :=
  matches_counted_iff exampleTable (fun _ => none) rfl

/-- The driver is there first: it has a device, and counts none. -/
theorem late_device_is_not_counted :
    ∃ s, exec (busStep exampleTable) (.start fun _ => none)
        [.register 0x82000 fun _ _ => 0, .add 0x81000 fun _ _ => 0] = some s ∧
      0x82000 ∈ s.drivers ∧ s.numMatches 0x82000 = 0 ∧ s.count 0x82000 = 1 :=
  ⟨_, rfl, by decide, rfl, rfl⟩

/-! ## Probe and remove -/

/-- The driver was set for the device, probed for it if it can be probed, and not removed since. -/
def Probed (cfg : PlatTable) (events : List BusEvent) (x d : Nat) : Prop :=
  ∃ before after, events = before ++ .matched x d :: after ∧ .remove x d ∉ after ∧
    ((cfg.drv d).probe = true → ∃ retval rest, after = .probe x d retval :: rest)

/-- No `remove` without this. -/
def RemovesProbed (cfg : PlatTable) (events : List BusEvent) : Prop :=
  ∀ before after x d, events = before ++ .remove x d :: after → Probed cfg before x d

/-- What is done so far is lawful, and what devices point to is probed. -/
structure Logged (cfg : PlatTable) (s : PlatformBus) : Prop where
  removes : RemovesProbed cfg s.events
  points : ∀ x d, s.sprtDriver x = some d → Probed cfg s.events x d

theorem Probed.append {es : List BusEvent} (h : Probed cfg es x d) {e : BusEvent}
    (he : e ≠ .remove x d) : Probed cfg (es ++ [e]) x d := by
  obtain ⟨before, after, rfl, hremove, hprobe⟩ := h
  refine ⟨before, after ++ [e], by simp, ?_, fun hcan => ?_⟩
  · simpa [hremove] using he.symm
  · obtain ⟨retval, rest, rfl⟩ := hprobe hcan
    exact ⟨retval, rest ++ [e], rfl⟩

theorem RemovesProbed.append {es : List BusEvent} (h : RemovesProbed cfg es) {e : BusEvent}
    (he : ∀ x d, e = .remove x d → Probed cfg es x d) : RemovesProbed cfg (es ++ [e]) := by
  intro before after x d heq
  cases after using List.reverseRecOn with
  | nil =>
    obtain ⟨rfl, hlast⟩ := List.append_inj' heq rfl
    exact he x d (List.singleton_inj.mp hlast)
  | append_singleton after last =>
    rw [← List.cons_append, ← List.append_assoc] at heq
    obtain ⟨rfl, -⟩ := List.append_inj' heq rfl
    exact h before after x d rfl

/-- Setting a driver and probing it. -/
theorem Logged.bind (h : Logged cfg s) (ret : Nat → Nat → Int) (x d : Nat) :
    Logged cfg (s.bind cfg ret x d) := by
  have hmatched : RemovesProbed cfg (s.events ++ [.matched x d]) :=
    h.removes.append fun _ _ heq => by cases heq
  have hother : ∀ y d', s.sprtDriver y = some d' →
      Probed cfg (s.events ++ [.matched x d]) y d' := fun y d' hy =>
    (h.points y d' hy).append (by simp)
  constructor
  · simp only [PlatformBus.bind, bindEvents]
    split
    next =>
      rw [← List.singleton_append, ← List.append_assoc]
      exact hmatched.append fun _ _ heq => by cases heq
    next => exact hmatched
  · intro y d' hy
    simp only [PlatformBus.bind, bindEvents] at hy ⊢
    by_cases hne : y = x
    · subst hne
      obtain rfl : d = d' := by simpa using hy
      refine ⟨s.events, _, rfl, ?_, fun hcan => ⟨ret y d, [], by rw [if_pos hcan]⟩⟩
      split <;> simp
    · rw [Function.update_of_ne hne] at hy
      split
      next =>
        rw [← List.singleton_append, ← List.append_assoc]
        exact (hother y d' hy).append (by simp)
      next => exact hother y d' hy

/-- Taking a driver off and removing it. -/
theorem Logged.release (h : Logged cfg s) (hpoint : s.sprtDriver x = some d) :
    Logged cfg (s.release cfg x d) := by
  have hremove : RemovesProbed cfg (s.events ++ [.remove x d]) :=
    h.removes.append fun _ _ heq => by
      cases heq
      exact h.points x d hpoint
  constructor
  · simp only [PlatformBus.release, releaseEvents]
    split
    next =>
      rw [← List.append_assoc]
      exact hremove.append fun _ _ heq => by cases heq
    next => exact h.removes.append fun _ _ heq => by cases heq
  · intro y d' hy
    simp only [PlatformBus.release, releaseEvents] at hy ⊢
    by_cases hne : y = x
    · subst hne
      simp at hy
    · rw [Function.update_of_ne hne] at hy
      have hold := h.points y d' hy
      split
      next =>
        rw [← List.append_assoc]
        exact (hold.append (by simp [Ne.symm hne])).append (by simp)
      next => exact hold.append (by simp)

theorem Logged.bindAll (h : Logged cfg s) (xs : List Nat) :
    Logged cfg (s.bindAll cfg ret xs d) := by
  induction xs generalizing s with
  | nil => exact PlatformBus.bindAll_nil.symm ▸ h
  | cons x xs ih => exact PlatformBus.bindAll_cons xs ▸ ih (h.bind _ _ _)

theorem Logged.releaseAll (h : Logged cfg s) {xs : List Nat} (hnodup : xs.Nodup)
    (hpoint : ∀ x ∈ xs, s.sprtDriver x = some d) : Logged cfg (s.releaseAll cfg xs d) := by
  induction xs generalizing s with
  | nil => exact PlatformBus.releaseAll_nil.symm ▸ h
  | cons x xs ih =>
    obtain ⟨hx, hnodup⟩ := List.nodup_cons.mp hnodup
    rw [PlatformBus.releaseAll_cons]
    refine ih (h.release (hpoint x List.mem_cons_self)) hnodup fun y hy => ?_
    have hne : y ≠ x := ne_of_mem_of_not_mem hy hx
    simpa only [PlatformBus.release, Function.update_of_ne hne] using
      hpoint y (List.mem_cons_of_mem x hy)

/-- Every call is logged lawfully. -/
theorem Logged.effect (h : Logged cfg s) (hs : s.Sound cfg) {i : BusCall}
    (hi : BusEffect cfg s i t) : Logged cfg t := by
  have hfree : ∀ y z d', Function.update s.sprtDriver y none z = some d' →
      s.sprtDriver z = some d' := by
    intro y z d' hz
    by_cases hne : z = y
    · subst hne
      simp at hz
    · rwa [Function.update_of_ne hne] at hz
  cases hi with
  | refused => exact h
  | aside => exact ⟨h.removes, h.points⟩
  | added x ret hfind hbus =>
    cases hfirst : s.drivers.find? (accepts cfg x) with
    | some d =>
      have hbind := h.bind ret x d
      simp only [PlatformBus.added, hfirst]
      exact ⟨hbind.removes, hbind.points⟩
    | none =>
      simp only [PlatformBus.added, hfirst, Option.elim, List.append_nil]
      exact ⟨h.removes, fun y d hy => h.points y d (hfree x y d hy)⟩
  | deleted x hmem hbus =>
    cases hpoint : s.sprtDriver x with
    | some d =>
      rw [PlatformBus.deleted, fwkDeviceDetach_some hpoint]
      exact ⟨(h.release hpoint).removes, (h.release hpoint).points⟩
    | none =>
      rw [PlatformBus.deleted, fwkDeviceDetach_none hpoint]
      exact ⟨h.removes, h.points⟩
  | registered d ret hnew => exact ⟨(h.bindAll _).removes, (h.bindAll _).points⟩
  | unregistered d =>
    have hnodup : (held s d s.devices).Nodup := hs.devices_nodup.filter _
    have hall := h.releaseAll hnodup fun x hx => (mem_held.mp hx).2
    exact ⟨hall.removes, hall.points⟩

/-- The driver was set for the device and has not been taken off since. -/
def Bound (events : List BusEvent) (x d : Nat) : Prop :=
  ∃ before after, events = before ++ .matched x d :: after ∧ .released x d ∉ after

theorem bound_concat {es : List BusEvent} {e : BusEvent} :
    Bound (es ++ [e]) x d ↔ e = .matched x d ∨ (Bound es x d ∧ e ≠ .released x d) := by
  constructor
  · rintro ⟨before, after, heq, hreleased⟩
    cases after using List.reverseRecOn with
    | nil => exact .inl (List.singleton_inj.mp (List.append_inj' heq rfl).2)
    | append_singleton after last =>
      rw [← List.cons_append, ← List.append_assoc] at heq
      obtain ⟨rfl, hlast⟩ := List.append_inj' heq rfl
      obtain rfl := List.singleton_inj.mp hlast
      simp only [List.mem_append, List.mem_singleton, not_or] at hreleased
      exact .inr ⟨⟨before, after, rfl, hreleased.1⟩, Ne.symm hreleased.2⟩
  · rintro (rfl | ⟨⟨before, after, rfl, hreleased⟩, hne⟩)
    · exact ⟨es, [], rfl, List.not_mem_nil⟩
    · refine ⟨before, after ++ [e], by simp, ?_⟩
      simpa [hreleased] using hne.symm

/-- The log tells what every device points to. -/
def PlatformBus.Tracked (s : PlatformBus) : Prop :=
  ∀ x d, Bound s.events x d ↔ s.sprtDriver x = some d

theorem PlatformBus.Tracked.bind (h : s.Tracked) (ret : Nat → Nat → Int) (d : Nat)
    (hfree : s.sprtDriver x = none) : (s.bind cfg ret x d).Tracked := by
  intro y d'
  have hset : Bound (s.events ++ bindEvents cfg ret x d) y d' ↔
      (x = y ∧ d = d') ∨ Bound s.events y d' := by
    unfold bindEvents
    split
    · rw [← List.singleton_append, ← List.append_assoc, bound_concat, bound_concat]
      simp
    · rw [bound_concat]
      simp
  show Bound (s.events ++ bindEvents cfg ret x d) y d' ↔
    Function.update s.sprtDriver x (some d) y = some d'
  rw [hset, h y d']
  by_cases hne : y = x
  · subst hne
    simp [hfree]
  · simp [hne, Ne.symm hne]

theorem PlatformBus.Tracked.release (h : s.Tracked) (hpoint : s.sprtDriver x = some d) :
    (s.release cfg x d).Tracked := by
  intro y d'
  have hset : Bound (s.events ++ releaseEvents cfg x d) y d' ↔
      Bound s.events y d' ∧ ¬ (x = y ∧ d = d') := by
    unfold releaseEvents
    split
    · rw [← List.append_assoc, bound_concat, bound_concat]
      simp
    · rw [List.nil_append, bound_concat]
      simp
  show Bound (s.events ++ releaseEvents cfg x d) y d' ↔
    Function.update s.sprtDriver x none y = some d'
  rw [hset, h y d']
  by_cases hne : y = x
  · subst hne
    simp [hpoint]
  · simp [hne, Ne.symm hne]

theorem PlatformBus.Tracked.bindAll (h : s.Tracked) {xs : List Nat} (hnodup : xs.Nodup)
    (hfree : ∀ x ∈ xs, s.sprtDriver x = none) : (s.bindAll cfg ret xs d).Tracked := by
  induction xs generalizing s with
  | nil => exact PlatformBus.bindAll_nil.symm ▸ h
  | cons x xs ih =>
    obtain ⟨hx, hnodup⟩ := List.nodup_cons.mp hnodup
    rw [PlatformBus.bindAll_cons]
    refine ih (h.bind ret d (hfree x List.mem_cons_self)) hnodup fun y hy => ?_
    have hne : y ≠ x := ne_of_mem_of_not_mem hy hx
    simpa only [PlatformBus.bind, Function.update_of_ne hne] using
      hfree y (List.mem_cons_of_mem x hy)

theorem PlatformBus.Tracked.releaseAll (h : s.Tracked) {xs : List Nat} (hnodup : xs.Nodup)
    (hpoint : ∀ x ∈ xs, s.sprtDriver x = some d) : (s.releaseAll cfg xs d).Tracked := by
  induction xs generalizing s with
  | nil => exact PlatformBus.releaseAll_nil.symm ▸ h
  | cons x xs ih =>
    obtain ⟨hx, hnodup⟩ := List.nodup_cons.mp hnodup
    rw [PlatformBus.releaseAll_cons]
    refine ih (h.release (hpoint x List.mem_cons_self)) hnodup fun y hy => ?_
    have hne : y ≠ x := ne_of_mem_of_not_mem hy hx
    simpa only [PlatformBus.release, Function.update_of_ne hne] using
      hpoint y (List.mem_cons_of_mem x hy)

/-- Every call is logged, and logs what it does. -/
theorem PlatformBus.Tracked.effect (h : s.Tracked) (hs : s.Sound cfg) {i : BusCall}
    (hi : BusEffect cfg s i t) : t.Tracked := by
  cases hi with
  | refused => exact h
  | aside => exact h
  | added x ret hfind hbus =>
    have hfree : s.sprtDriver x = none := by
      by_contra hne
      obtain ⟨d, hd⟩ := Option.ne_none_iff_exists'.mp hne
      exact not_mem_of_not_found hfind (hs.devices_bus x (hs.points x d hd).1).1
    cases hfirst : s.drivers.find? (accepts cfg x) with
    | some d =>
      have hbind : (s.bind cfg ret x d).Tracked := h.bind ret d hfree
      simp only [PlatformBus.added, hfirst]
      exact hbind
    | none =>
      have hsame : Function.update s.sprtDriver x none = s.sprtDriver := by
        rw [← hfree, Function.update_eq_self]
      simp only [PlatformBus.added, hfirst, Option.elim, List.append_nil, hsame]
      exact h
  | deleted x hmem hbus =>
    cases hpoint : s.sprtDriver x with
    | some d =>
      rw [PlatformBus.deleted, fwkDeviceDetach_some hpoint]
      exact h.release hpoint
    | none =>
      rw [PlatformBus.deleted, fwkDeviceDetach_none hpoint]
      exact h
  | registered d ret hnew =>
    have hnodup : (wanted cfg s d s.devices).Nodup := hs.devices_nodup.filter _
    exact h.bindAll hnodup fun x hx => (mem_wanted.mp hx).2.1
  | unregistered d =>
    have hnodup : (held s d s.devices).Nodup := hs.devices_nodup.filter _
    exact h.releaseAll hnodup fun x hx => (mem_held.mp hx).2

/-- The device it was done to. -/
def BusEvent.dev : BusEvent → Nat
  | .matched x _ | .probe x _ _ | .remove x _ | .released x _ => x

theorem dev_bindEvents {y : Nat} : ∀ e ∈ bindEvents cfg ret y d, e.dev = y := by
  unfold bindEvents
  split <;> simp [BusEvent.dev]

theorem dev_releaseEvents {y : Nat} : ∀ e ∈ releaseEvents cfg y d, e.dev = y := by
  unfold releaseEvents
  split <;> simp [BusEvent.dev]

/-- `x` has the driver still, and nothing was done to it. -/
def Undisturbed (s t : PlatformBus) (x d : Nat) : Prop :=
  t.sprtDriver x = some d ∧ ∃ new, t.events = s.events ++ new ∧ ∀ e ∈ new, e.dev ≠ x

/-- **A device that has a driver keeps it.**  Only its own deletion and the driver's leaving take it
off. -/
theorem undisturbed (hs : s.Sound cfg) {i : BusCall} (hi : BusEffect cfg s i t)
    (hpoint : s.sprtDriver x = some d) (hdel : i ≠ .del x) (hunregister : i ≠ .unregister d) :
    Undisturbed s t x d := by
  cases hi with
  | refused => exact ⟨hpoint, [], (List.append_nil _).symm, fun e he => absurd he List.not_mem_nil⟩
  | aside => exact ⟨hpoint, [], (List.append_nil _).symm, fun e he => absurd he List.not_mem_nil⟩
  | added y ret hfind hbus =>
    have hne : x ≠ y := by
      rintro rfl
      exact not_mem_of_not_found hfind (hs.devices_bus x (hs.points x d hpoint).1).1
    refine ⟨by simpa only [PlatformBus.added, Function.update_of_ne hne] using hpoint, _, rfl, ?_⟩
    intro e he
    cases hfirst : s.drivers.find? (accepts cfg y) with
    | none => simp [hfirst] at he
    | some d' =>
      rw [hfirst] at he
      exact dev_bindEvents e he ▸ hne.symm
  | deleted y hmem hbus =>
    have hne : x ≠ y := fun heq => hdel (heq ▸ rfl)
    refine ⟨by rw [deleted_sprtDriver, Function.update_of_ne hne, hpoint], ?_⟩
    cases hother : s.sprtDriver y with
    | none =>
      rw [PlatformBus.deleted, fwkDeviceDetach_none hother]
      exact ⟨[], (List.append_nil _).symm, fun e he => absurd he List.not_mem_nil⟩
    | some d' =>
      rw [PlatformBus.deleted, fwkDeviceDetach_some hother]
      exact ⟨releaseEvents cfg y d', rfl, fun e he => dev_releaseEvents e he ▸ hne.symm⟩
  | registered d' ret hnew =>
    have hbound : x ∉ wanted cfg s d' s.devices := fun hmem => by
      simp [(mem_wanted.mp hmem).2.1] at hpoint
    refine ⟨by simpa only [PlatformBus.registered, PlatformBus.bindAll, if_neg hbound], _, rfl, ?_⟩
    intro e he
    obtain ⟨y, hy, hev⟩ := List.mem_flatMap.mp he
    exact dev_bindEvents e hev ▸ ne_of_mem_of_not_mem hy hbound
  | unregistered d' =>
    have hkept : x ∉ held s d' s.devices := fun hmem => by
      obtain rfl := Option.some.inj (hpoint.symm.trans (mem_held.mp hmem).2)
      exact hunregister rfl
    refine ⟨by simpa only [PlatformBus.unregistered, PlatformBus.releaseAll, if_neg hkept], _, rfl, ?_⟩
    intro e he
    obtain ⟨y, hy, hev⟩ := List.mem_flatMap.mp he
    exact dev_releaseEvents e hev ▸ ne_of_mem_of_not_mem hy hkept

theorem busStep_logged (s : PlatformBus) (i : BusCall) (t : PlatformBus)
    (h : s.Sound cfg ∧ Logged cfg s ∧ s.Tracked) (hstep : busStep cfg s i = some t) :
    t.Sound cfg ∧ Logged cfg t ∧ t.Tracked := by
  obtain ⟨hs, hlogged, htracked⟩ := h
  have heffect := busStep_effect hs hstep
  exact ⟨hs.effect heffect, hlogged.effect hs heffect, htracked.effect hs heffect⟩

theorem logged_start (kobjName : Nat → Option (List Char)) :
    Logged cfg (.start kobjName) :=
  ⟨fun before after x d h => by simp [PlatformBus.start] at h,
    fun x d h => by simp [PlatformBus.start] at h⟩

theorem tracked_start (kobjName : Nat → Option (List Char)) :
    (PlatformBus.start kobjName).Tracked := by
  intro x d
  simp [PlatformBus.start, Bound]

/-- **A driver's `remove` follows its `probe`, whatever that returned.**  A device points to the
driver that was matched with it last and has not been taken off since, its probe failed or not; and as
long as it does, the device is left to the driver by all other calls. -/
theorem remove_follows_match (cfg : PlatTable) (kobjName : Nat → Option (List Char))
    {is : List BusCall} {s : PlatformBus} (h : exec (busStep cfg) (.start kobjName) is = some s) :
    RemovesProbed cfg s.events ∧ (∀ x d, Bound s.events x d ↔ s.sprtDriver x = some d) ∧
      ∀ i t x d, busStep cfg s i = some t → Bound s.events x d → i ≠ .del x →
        i ≠ .unregister d → Undisturbed s t x d := by
  obtain ⟨hs, hlogged, htracked⟩ :=
    invariant_of_exec busStep_logged ⟨.start kobjName, logged_start kobjName, tracked_start kobjName⟩ h
  exact ⟨hlogged.removes, htracked, fun i t x d hstep hbound hdel hunregister =>
    undisturbed hs (busStep_effect hs hstep) ((htracked x d).mp hbound) hdel hunregister⟩

/-- A device comes after its driver, whose probe fails; another driver comes and the first one leaves.
The device is then taken by a driver that probes it, and goes. -/
def exampleBindings : List BusCall :=
  [.register 0x82000 fun _ _ => -1, .add 0x81000 fun _ _ => -1, .register 0x82008 fun _ _ => 0,
    .unregister 0x82000, .unregister 0x82008, .register 0x82008 fun _ _ => 0, .del 0x81000]

theorem remove_follows_match_example :
    ∃ s, exec (busStep exampleTable) (.start fun _ => none) exampleBindings = some s ∧
      RemovesProbed exampleTable s.events ∧
      (∀ x d, Bound s.events x d ↔ s.sprtDriver x = some d) ∧
      ∀ i t x d, busStep exampleTable s i = some t → Bound s.events x d → i ≠ .del x →
        i ≠ .unregister d → Undisturbed s t x d := by
  have hrun : ∃ s, exec (busStep exampleTable) (.start fun _ => none) exampleBindings = some s :=
    ⟨_, rfl⟩
  obtain ⟨s, hs⟩ := hrun
  exact ⟨s, hs, remove_follows_match exampleTable _ hs⟩

/-- The probe fails, another driver comes that accepts the device, and the first one leaves. -/
def failedProbe : List BusCall :=
  [.add 0x81000 fun _ _ => -1, .register 0x82000 fun _ _ => -1, .register 0x82008 fun _ _ => 0,
    .unregister 0x82000]

/-- The driver whose probe failed is removed, and the other one was not tried. -/
theorem failed_probe_is_removed :
    ∃ s, exec (busStep exampleTable) (.start fun _ => none) failedProbe = some s ∧
      s.events = [.matched 0x81000 0x82000, .probe 0x81000 0x82000 (-1), .remove 0x81000 0x82000,
        .released 0x81000 0x82000] ∧
      accepts exampleTable 0x81000 0x82008 = true ∧ 0x82008 ∈ s.drivers :=
  ⟨_, rfl, by decide, by decide, by decide⟩

end HeavenFox.Platform
