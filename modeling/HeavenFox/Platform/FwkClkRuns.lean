/-
# HeavenFox.Platform.FwkClkRuns -- consumers that share a gate

Drivers get handles, enable through them and disable through them, in any order; a driver disables
only what it has enabled (`ClkSystem.step`).  What each has enabled is kept beside the clocks, which
keep no such account: a gate is cleared by whoever disables first.

So a gate follows its consumers (`GateKept`) exactly as long as every disable takes back the only
enable that is outstanding on its gate (`LastOut`).  What `fwk_clk_is_enabled` says is in every
state the opposite of what the gate is.
-/
import HeavenFox.Platform.FwkClk

namespace HeavenFox.Platform

open HeavenFox.Common HeavenFox.Logic

/-! ## The machine -/

/-- The clocks, the handles that consumers have got, and how often each was enabled and disabled. -/
structure ClkSystem where
  clks : Clks
  handles : List Nat
  enables : Nat → Nat
  disables : Nat → Nat

/-- What a consumer does next. -/
inductive ClkMove where
  | get (devName : List Char) (spec : Option OfPhandleArgs) (name : Option (List Char))
    (junk kzalloc : Nat)
  | prepareEnable (handle : Nat)
  | disableUnprepare (handle : Nat)

namespace ClkSystem

/-- The consumers come after the driver: none has a handle. -/
def start (clks : Clks) : ClkSystem := ⟨clks, [], fun _ => 0, fun _ => 0⟩

/-- One call.  The allocator does not return memory that is in use, a consumer calls with a handle
that it has got, and it disables only what it enabled. -/
def step (s : ClkSystem) : ClkMove → Option ClkSystem
  | .get devName spec name junk kzalloc =>
    if (s.clks.clk kzalloc).isSome then none
    else
      match fwkClkGet s.clks devName spec name junk kzalloc with
      | .error _ => none
      | .ok (sprtClk, clks) =>
        some { s with
          clks := clks
          handles := if isValid sprtClk then sprtClk :: s.handles else s.handles }
  | .prepareEnable handle =>
    if handle ∈ s.handles then
      match fwkClkPrepareEnable s.clks handle with
      | .error _ => none
      | .ok clks =>
        some { s with
          clks := clks
          enables := Function.update s.enables handle (s.enables handle + 1) }
    else none
  | .disableUnprepare handle =>
    if handle ∈ s.handles ∧ s.disables handle < s.enables handle then
      match fwkClkDisableUnprepare s.clks handle with
      | .error _ => none
      | .ok clks =>
        some { s with
          clks := clks
          disables := Function.update s.disables handle (s.disables handle + 1) }
    else none

/-- The enables of a consumer outnumber its disables. -/
def Holds (s : ClkSystem) (handle : Nat) : Prop :=
  handle ∈ s.handles ∧ s.disables handle < s.enables handle

/-- The gate of every clock is on if and only if one of its consumers holds it. -/
def GateKept (s : ClkSystem) : Prop :=
  ∀ a core, s.clks.core a = some core →
    (core.sprtHw.toCcgrField.On s.clks.regs ↔
      ∃ handle, s.Holds handle ∧ s.clks.fieldOf handle = some core.sprtHw.toCcgrField)

/-- Every consumer that asks is told the truth about its gate. -/
def Told (s : ClkSystem) : Prop :=
  ∀ handle ∈ s.handles, ∀ field, s.clks.fieldOf handle = some field →
    (fwkClkIsEnabled s.clks handle = .ok true ↔ field.On s.clks.regs)

/-- Every consumer that asks is told the opposite. -/
def Mistold (s : ClkSystem) : Prop :=
  ∀ handle ∈ s.handles, ∀ field, s.clks.fieldOf handle = some field →
    fwkClkIsEnabled s.clks handle = .ok (!decide (field.On s.clks.regs))

/-- What consumers that share clocks count on. -/
def SharedClocks (s : ClkSystem) : Prop := s.GateKept ∧ s.Told

/-- The gate of no clock is on. -/
def AllOff (clks : Clks) : Prop :=
  ∀ a core, clks.core a = some core → ¬ core.sprtHw.toCcgrField.On clks.regs

/-- Nobody but the caller of a disable holds the gate, and the caller holds it once. -/
def LastOut (s : ClkSystem) : ClkMove → Prop
  | .disableUnprepare handle =>
    s.enables handle = s.disables handle + 1 ∧
      ∀ other, s.Holds other → s.clks.fieldOf other = s.clks.fieldOf handle → other = handle
  | _ => True

/-! ## What one call does -/

/-- The cores are those of gates, every handle acts on one of them, and nothing is disabled that was
not enabled through a handle. -/
structure Sound (s : ClkSystem) : Prop where
  gates : s.clks.Gates
  field : ∀ handle ∈ s.handles, ∃ field, s.clks.fieldOf handle = some field
  within : ∀ handle, s.disables handle ≤ s.enables handle
  only : ∀ handle, handle ∉ s.handles → s.enables handle = 0

section Steps

variable {s t : ClkSystem} {handle kzalloc : Nat}

/-- A handle is a clock that is in memory. -/
theorem Sound.clk_isSome (hs : s.Sound) (h : handle ∈ s.handles) :
    (s.clks.clk handle).isSome = true := by
  obtain ⟨field, hfield⟩ := hs.field handle h
  obtain ⟨core, hcore, -⟩ := fieldOf_some.mp hfield
  obtain ⟨clk, hclk, -⟩ := coreOf_ok.mp hcore
  rw [hclk, Option.isSome_some]

/-- A get changes nothing that the gates and the accounts are made of; it may add a handle, which
nobody has had before. -/
theorem step_get {devName : List Char} {spec : Option OfPhandleArgs} {name : Option (List Char)}
    {junk : Nat} (hs : s.Sound) (h : s.step (.get devName spec name junk kzalloc) = some t) :
    t = s ∨ (kzalloc ∉ s.handles ∧ ∃ c field, t.clks.fieldOf kzalloc = some field ∧
      Configured s.clks t.clks kzalloc c ∧
      t = { s with clks := t.clks, handles := kzalloc :: s.handles }) := by
  unfold step at h
  dsimp only at h
  split at h
  · cases h
  · rename_i hfree
    cases hget : fwkClkGet s.clks devName spec name junk kzalloc with
    | error stop =>
      rw [hget] at h
      cases h
    | ok r =>
      obtain ⟨p, clks⟩ := r
      rw [hget] at h
      rcases clkGet_ok hs.gates hget with ⟨rfl, rfl⟩ | ⟨rfl, hvalid, c, field, hconf, hfield⟩
      · left
        cases h
        rfl
      · right
        dsimp only at h
        rw [if_pos hvalid] at h
        cases h
        exact ⟨fun hold => hfree (hs.clk_isSome hold), c, field, hfield, hconf, rfl⟩

/-- An enable sets the field of the handle. -/
theorem step_prepareEnable (hs : s.Sound) (h : s.step (.prepareEnable handle) = some t) :
    handle ∈ s.handles ∧ ∃ field, s.clks.fieldOf handle = some field ∧
      t = { s with
        clks := { s.clks with regs := field.set s.clks.regs }
        enables := Function.update s.enables handle (s.enables handle + 1) } := by
  unfold step at h
  dsimp only at h
  split at h
  · rename_i hheld
    obtain ⟨field, hfield⟩ := hs.field handle hheld
    rw [prepareEnable_eq hs.gates hfield] at h
    cases h
    exact ⟨hheld, field, hfield, rfl⟩
  · cases h

/-- A disable clears it. -/
theorem step_disableUnprepare (hs : s.Sound) (h : s.step (.disableUnprepare handle) = some t) :
    s.Holds handle ∧ ∃ field, s.clks.fieldOf handle = some field ∧
      t = { s with
        clks := { s.clks with regs := field.clear s.clks.regs }
        disables := Function.update s.disables handle (s.disables handle + 1) } := by
  unfold step at h
  dsimp only at h
  split at h
  · rename_i hheld
    obtain ⟨field, hfield⟩ := hs.field handle hheld.1
    rw [disableUnprepare_eq hs.gates hfield] at h
    cases h
    exact ⟨hheld, field, hfield, rfl⟩
  · cases h

/-- **One call keeps the handles and the accounts sound.** -/
theorem Sound.step {move : ClkMove} (hs : s.Sound) (h : s.step move = some t) : t.Sound := by
  cases move with
  | get devName spec name junk kzalloc =>
    obtain rfl | ⟨hnew, c, field, hfield, hconf, ht⟩ := step_get hs h
    · exact hs
    · have hne : ∀ p ∈ s.handles, p ≠ kzalloc := by
        rintro p hp rfl
        exact hnew hp
      rw [ht]
      refine ⟨?_, ?_, hs.within, ?_⟩
      · intro a core hcore
        have hcore' : t.clks.core a = some core := hcore
        rw [hconf.core] at hcore'
        exact hs.gates a core hcore'
      · intro p hp
        rcases List.mem_cons.mp hp with rfl | hp
        · exact ⟨field, hfield⟩
        · obtain ⟨field', hfield'⟩ := hs.field p hp
          exact ⟨field', (hconf.fieldOf_ne (hne p hp)).trans hfield'⟩
      · exact fun p hp => hs.only p fun hold => hp (List.mem_cons_of_mem _ hold)
  | prepareEnable handle =>
    obtain ⟨hheld, field, hfield, rfl⟩ := step_prepareEnable hs h
    refine ⟨hs.gates, hs.field, ?_, ?_⟩
    · intro p
      show s.disables p ≤ Function.update s.enables handle _ p
      by_cases hp : p = handle
      · subst hp
        rw [Function.update_self]
        exact Nat.le_succ_of_le (hs.within p)
      · rw [Function.update_of_ne hp]
        exact hs.within p
    · intro p hp
      show Function.update s.enables handle _ p = 0
      have hne : p ≠ handle := by
        rintro rfl
        exact hp hheld
      rw [Function.update_of_ne hne]
      exact hs.only p hp
  | disableUnprepare handle =>
    obtain ⟨hheld, field, hfield, rfl⟩ := step_disableUnprepare hs h
    refine ⟨hs.gates, hs.field, ?_, hs.only⟩
    intro p
    show Function.update s.disables handle _ p ≤ s.enables p
    by_cases hp : p = handle
    · subst hp
      rw [Function.update_self]
      exact hheld.2
    · rw [Function.update_of_ne hp]
      exact hs.within p

theorem start_sound {clks : Clks} (hs : clks.Gates) : (start clks).Sound where
  gates := hs
  field _ hp := absurd hp List.not_mem_nil
  within _ := Nat.le_refl 0
  only _ _ := rfl

/-! ## Gates and their consumers -/

/-- An enable adds its caller to those who hold a gate. -/
theorem holds_enable {clks : Clks} {p : Nat} (hs : s.Sound) (hheld : handle ∈ s.handles) :
    Holds { s with
      clks := clks
      enables := Function.update s.enables handle (s.enables handle + 1) } p ↔
      p = handle ∨ s.Holds p := by
  show (p ∈ s.handles ∧ s.disables p < Function.update s.enables handle _ p) ↔ _
  by_cases hp : p = handle
  · subst hp
    rw [Function.update_self]
    exact iff_of_true ⟨hheld, Nat.lt_succ_of_le (hs.within p)⟩ (Or.inl rfl)
  · rw [Function.update_of_ne hp]
    exact ⟨Or.inr, fun h => h.resolve_left hp⟩

/-- A disable takes its caller away, unless it has enabled the gate more often. -/
theorem holds_disable {clks : Clks} {p : Nat} :
    Holds { s with
      clks := clks
      disables := Function.update s.disables handle (s.disables handle + 1) } p ↔
      s.Holds p ∧ (p = handle → s.disables handle + 1 < s.enables handle) := by
  show (p ∈ s.handles ∧ Function.update s.disables handle _ p < s.enables p) ↔ _
  by_cases hp : p = handle
  · subst hp
    rw [Function.update_self]
    constructor
    · exact fun h => ⟨⟨h.1, by omega⟩, fun _ => h.2⟩
    · exact fun h => ⟨h.1.1, h.2 rfl⟩
  · rw [Function.update_of_ne hp]
    exact ⟨fun h => ⟨h, fun heq => absurd heq hp⟩, fun h => h.1⟩

/-- A new handle holds nothing, and the old ones hold what they held. -/
theorem GateKept.get {clks : Clks} {c : Nat} (hs : s.Sound) (hkept : s.GateKept)
    (hnew : kzalloc ∉ s.handles) (hconf : Configured s.clks clks kzalloc c) :
    GateKept { s with clks := clks, handles := kzalloc :: s.handles } := by
  intro a core hcore
  have hcore' : clks.core a = some core := hcore
  rw [hconf.core] at hcore'
  show core.sprtHw.toCcgrField.On clks.regs ↔ _
  rw [hconf.regs, hkept a core hcore']
  have hold : ∀ p, s.Holds p → clks.fieldOf p = s.clks.fieldOf p := by
    intro p hp
    apply hconf.fieldOf_ne
    rintro rfl
    exact hnew hp.1
  constructor
  · rintro ⟨p, hp, hat⟩
    exact ⟨p, ⟨List.mem_cons_of_mem _ hp.1, hp.2⟩, (hold p hp).trans hat⟩
  · rintro ⟨p, hp, hat⟩
    have hp' : s.Holds p := by
      refine ⟨?_, hp.2⟩
      rcases List.mem_cons.mp hp.1 with rfl | hmem
      · -- the new handle has enabled nothing
        have hlt : s.disables p < s.enables p := hp.2
        rw [hs.only p hnew] at hlt
        omega
      · exact hmem
    exact ⟨p, hp', (hold p hp').symm.trans hat⟩

/-- An enable turns the gate on, for its caller. -/
theorem GateKept.enable {field : CcgrField} (hs : s.Sound) (hkept : s.GateKept)
    (hheld : handle ∈ s.handles) (hfield : s.clks.fieldOf handle = some field) :
    GateKept { s with
      clks := { s.clks with regs := field.set s.clks.regs }
      enables := Function.update s.enables handle (s.enables handle + 1) } := by
  intro a core hcore
  show core.sprtHw.toCcgrField.On (field.set s.clks.regs) ↔ _
  rw [CcgrField.on_set, hkept a core hcore]
  constructor
  · rintro (heq | ⟨p, hp, hat⟩)
    · exact ⟨handle, (holds_enable hs hheld).mpr (Or.inl rfl), hfield.trans (by rw [heq])⟩
    · exact ⟨p, (holds_enable hs hheld).mpr (Or.inr hp), hat⟩
  · rintro ⟨p, hp, hat⟩
    rcases (holds_enable hs hheld).mp hp with rfl | hp
    · exact Or.inl (Option.some.inj (hat.symm.trans hfield))
    · exact Or.inr ⟨p, hp, hat⟩

/-- The last disable turns the gate off, and no other gate. -/
theorem GateKept.disable {field : CcgrField} (hkept : s.GateKept)
    (hlast : s.LastOut (.disableUnprepare handle)) (hfield : s.clks.fieldOf handle = some field) :
    GateKept { s with
      clks := { s.clks with regs := field.clear s.clks.regs }
      disables := Function.update s.disables handle (s.disables handle + 1) } := by
  obtain ⟨hone, honly⟩ := hlast
  intro a core hcore
  show core.sprtHw.toCcgrField.On (field.clear s.clks.regs) ↔ _
  rw [CcgrField.on_clear, hkept a core hcore]
  constructor
  · rintro ⟨hne, p, hp, hat⟩
    refine ⟨p, holds_disable.mpr ⟨hp, ?_⟩, hat⟩
    rintro rfl
    exact absurd (Option.some.inj (hat.symm.trans hfield)) hne
  · rintro ⟨p, hp, hat⟩
    obtain ⟨hp, hmore⟩ := holds_disable.mp hp
    refine ⟨?_, p, hp, hat⟩
    intro heq
    have hsame : s.clks.fieldOf p = s.clks.fieldOf handle := by
      rw [hfield, ← heq]
      exact hat
    have hlt := hmore (honly p hp hsame)
    omega

/-- **A call keeps the gates with their consumers**, if a disable is the last one out. -/
theorem GateKept.step {move : ClkMove} (hs : s.Sound) (hkept : s.GateKept) (hlast : s.LastOut move)
    (h : s.step move = some t) : t.GateKept := by
  cases move with
  | get devName spec name junk kzalloc =>
    obtain rfl | ⟨hnew, c, field, -, hconf, ht⟩ := step_get hs h
    · exact hkept
    · rw [ht]
      exact hkept.get hs hnew hconf
  | prepareEnable handle =>
    obtain ⟨hheld, field, hfield, rfl⟩ := step_prepareEnable hs h
    exact hkept.enable hs hheld hfield
  | disableUnprepare handle =>
    obtain ⟨-, field, hfield, rfl⟩ := step_disableUnprepare hs h
    exact hkept.disable hlast hfield

/-- The accounts are sound and the gates follow them. -/
def Kept (s : ClkSystem) : Prop := s.Sound ∧ s.GateKept

theorem Kept.step {move : ClkMove} (hs : s.Kept) (hlast : s.LastOut move)
    (h : s.step move = some t) : t.Kept :=
  ⟨hs.1.step h, hs.2.step hs.1 hlast h⟩

/-- **A disable that is not the last one out** turns a gate off that somebody holds. -/
theorem gateKept_broken {move : ClkMove} (hs : s.Sound) (hlast : ¬ s.LastOut move)
    (h : s.step move = some t) : ¬ t.GateKept := by
  cases move with
  | get devName spec name junk kzalloc => exact absurd trivial hlast
  | prepareEnable handle => exact absurd trivial hlast
  | disableUnprepare handle =>
    obtain ⟨hheld, field, hfield, rfl⟩ := step_disableUnprepare hs h
    obtain ⟨core, hcore, heq⟩ := fieldOf_some.mp hfield
    obtain ⟨clk, -, hat⟩ := coreOf_ok.mp hcore
    -- the caller itself, if it enabled more than once, and otherwise another consumer
    have hstill : ∃ p, (s.Holds p ∧ (p = handle → s.disables handle + 1 < s.enables handle)) ∧
        s.clks.fieldOf p = some field := by
      by_cases hmore : s.disables handle + 1 < s.enables handle
      · exact ⟨handle, ⟨hheld, fun _ => hmore⟩, hfield⟩
      · have hone : s.enables handle = s.disables handle + 1 := by
          have hlt := hheld.2
          omega
        by_contra hnone
        refine hlast ⟨hone, fun p hp hsame => ?_⟩
        by_contra hne
        exact hnone ⟨p, ⟨hp, fun heq => absurd heq hne⟩, hsame.trans hfield⟩
    obtain ⟨p, hp, hpfield⟩ := hstill
    intro hkept
    have hon := (hkept _ core hat).mpr ⟨p, holds_disable.mpr hp, by rw [heq]; exact hpfield⟩
    exact (CcgrField.on_clear.mp hon).1 heq

/-- Handles are kept. -/
theorem step_handles {move : ClkMove} (hs : s.Sound) (h : s.step move = some t) :
    s.handles ⊆ t.handles := by
  cases move with
  | get devName spec name junk kzalloc =>
    obtain rfl | ⟨-, c, field, -, -, ht⟩ := step_get hs h
    · exact List.Subset.refl _
    · rw [ht]
      exact List.subset_cons_self _ _
  | prepareEnable handle =>
    obtain ⟨-, field, -, rfl⟩ := step_prepareEnable hs h
    exact List.Subset.refl _
  | disableUnprepare handle =>
    obtain ⟨-, field, -, rfl⟩ := step_disableUnprepare hs h
    exact List.Subset.refl _

end Steps

/-! ## Runs -/

section Runs

variable {s u : ClkSystem} {moves : List ClkMove} {clks : Clks}

theorem exec_sound (hs : s.Sound) (h : exec step s moves = some u) :
    u.Sound ∧ s.handles ⊆ u.handles := by
  induction moves generalizing s with
  | nil =>
    cases h
    exact ⟨hs, List.Subset.refl _⟩
  | cons move moves ih =>
    obtain ⟨t, ht, hrest⟩ := exec_cons h
    obtain ⟨hu, hsub⟩ := ih (hs.step ht) hrest
    exact ⟨hu, List.Subset.trans (step_handles hs ht) hsub⟩

theorem Sound.always (hs : s.Sound) (moves : List ClkMove) :
    Always ClkSystem.step Sound s moves := by
  induction moves generalizing s with
  | nil => exact hs
  | cons move moves ih => exact ⟨hs, fun t ht => ih (hs.step ht)⟩

theorem Sound.mistold (hs : s.Sound) : s.Mistold :=
  fun _ _ _ hfield => isEnabled_eq hs.gates hfield

/-- Who is told the opposite is not told the truth. -/
theorem Sound.told_iff (hs : s.Sound) : s.Told ↔ s.handles = [] := by
  constructor
  · intro htold
    apply List.eq_nil_iff_forall_not_mem.mpr
    intro p hp
    obtain ⟨field, hfield⟩ := hs.field p hp
    have htrue := htold p hp field hfield
    rw [hs.mistold p hp field hfield] at htrue
    by_cases hon : field.On s.clks.regs
    · have hcall := htrue.mpr hon
      simp [hon] at hcall
    · exact hon (htrue.mp (by simp [hon]))
  · intro hnil p hp
    rw [hnil] at hp
    exact absurd hp List.not_mem_nil

theorem start_gateKept : (start clks).GateKept ↔ AllOff clks := by
  have hnone : ∀ p, ¬ (start clks).Holds p := fun p hp => List.not_mem_nil hp.1
  constructor
  · intro hkept a core hcore hon
    obtain ⟨p, hp, -⟩ := (hkept a core hcore).mp hon
    exact hnone p hp
  · intro hoff a core hcore
    exact iff_of_false (hoff a core hcore) fun hsome => hnone _ hsome.choose_spec.1

/-- While nobody has a handle nothing goes wrong. -/
theorem always_of_no_handle (hs : s.Sound) (hkept : s.GateKept) (h : exec step s moves = some u)
    (hnil : u.handles = []) : Always step SharedClocks s moves := by
  have hempty : s.handles = [] := by
    apply List.subset_nil.mp
    rw [← hnil]
    exact (exec_sound hs h).2
  have hhere : s.SharedClocks := ⟨hkept, hs.told_iff.mpr hempty⟩
  induction moves generalizing s with
  | nil => exact hhere
  | cons move moves ih =>
    obtain ⟨t, ht, hrest⟩ := exec_cons h
    refine ⟨hhere, fun t' ht' => ?_⟩
    obtain rfl : t = t' := Option.some.inj (ht.symm.trans ht')
    have hsound := hs.step ht
    have hempty' : t.handles = [] := by
      apply List.subset_nil.mp
      rw [← hnil]
      exact (exec_sound hsound hrest).2
    -- without a handle there is no disable
    have hlast : s.LastOut move := by
      cases move with
      | get devName spec name junk kzalloc => trivial
      | prepareEnable handle => trivial
      | disableUnprepare handle =>
        have hheld := (step_disableUnprepare hs ht).1.1
        rw [hempty] at hheld
        exact absurd hheld List.not_mem_nil
    have hkept' := hkept.step hs hlast ht
    exact ih hsound hkept' hrest hempty' ⟨hkept', hsound.told_iff.mpr hempty'⟩

/-- **What consumers that share clocks get.**  The gates follow them exactly if all gates are off
before and every disable takes back the only enable outstanding on its gate; and whoever asks is
told the opposite of what the gate is, so that both go well only while nobody has a handle. -/
theorem shared_clocks_iff {cell : FwkClkOneCell} {rows : List GateRow} {sprtNpccm kzalloc : Nat}
    {regs₀ : Regs} {ret : Int}
    (hinit : imxClksDriverOfInit cell rows sprtNpccm kzalloc regs₀ = .ok (ret, clks)) (regs : Regs)
    (hrun : exec step (start { clks with regs := regs }) moves = some u) :
    (Always step GateKept (start { clks with regs := regs }) moves ↔
        AllOff { clks with regs := regs } ∧
          Meets step LastOut (start { clks with regs := regs }) moves) ∧
      Always step Mistold (start { clks with regs := regs }) moves ∧
      (Always step SharedClocks (start { clks with regs := regs }) moves ↔
        AllOff { clks with regs := regs } ∧ u.handles = []) := by
  have hinitial := driverOfInit_gates hinit
  have hgates : Clks.Gates { clks with regs := regs } := hinitial
  have hs := start_sound hgates
  refine ⟨?_, Always.imp (fun _ h => h.mistold) (hs.always moves), ?_⟩
  · constructor
    · intro h
      have hkept := always_head h
      have hiff := always_iff_meets (fun _ _ _ (hs : Kept _) => hs.step) (fun _ hs => hs.2)
        (fun _ _ _ hs => gateKept_broken hs.1) ⟨hs, hkept⟩ hrun
      exact ⟨start_gateKept.mp hkept, hiff.mp h⟩
    · rintro ⟨hoff, hlast⟩
      have hkept := always_of_meets (fun _ _ _ (hs : Kept _) => hs.step)
        ⟨hs, start_gateKept.mpr hoff⟩ hlast
      exact Always.imp (fun _ hs => hs.2) hkept
  · constructor
    · intro h
      have hu := (exec_sound hs hrun).1
      exact ⟨start_gateKept.mp (always_head h).1, hu.told_iff.mp (always_last h hrun).2⟩
    · rintro ⟨hoff, hnil⟩
      exact always_of_no_handle hs (start_gateKept.mpr hoff) hrun hnil

end Runs

/-! ## Two drivers on one gate -/

/-- `NR_IMX_CCGR0_UART2`, in a register that is here at `0x20c4068`. -/
def uartField : CcgrField := ⟨0x20c4068, 14, by decide⟩

def uartCell : FwkClkOneCell := ⟨0x90000, 4⟩

/-- The row of `uart2_ipg`, as the first clock. -/
def uartRow : GateRow :=
  ⟨1, "uart2_ipg".toList, uartField, "ipg".toList, ⟨0x91000, 0x92000, 0x93000, 0⟩⟩

def uartCore : FwkClkCore :=
  ⟨"uart2_ipg".toList, some sgrtImxClksGateOprts, ⟨uartField, 0x92000, 0x90020⟩,
    [some "ipg".toList]⟩

/-- What the driver leaves whose table is this row. -/
def uartClks (regs : Regs) : Clks where
  regs := regs
  clk := Function.update (Clks.blank uartCell regs).clk 0x90020
    (some ⟨none, none, ~~~0#32, 0#32, 0x92000, 0#8⟩)
  core := Function.update (fun _ => none) 0x92000 (some uartCore)
  sgrtClks := Function.update (Function.update (fun _ => []) 0x92000 []) 0x92000 [0x90020]
  providers := [⟨0x94000, uartCell⟩]

theorem uartClks_init (regs : Regs) :
    imxClksDriverOfInit uartCell [uartRow] 0x94000 0x95000 regs = .ok (0, uartClks regs) := by
  rfl

/-- A driver gets its handle. -/
def uartGet (devName : String) (kzalloc : Nat) : ClkMove :=
  .get devName.toList (some ⟨0x94000, [1]⟩) none 0 kzalloc

theorem shared_clocks_iff_uart : ∃ u,
    exec step (start (uartClks fun _ => 0#32)) [uartGet "console" 0xa0000, .prepareEnable 0xa0000,
      .disableUnprepare 0xa0000] = some u ∧
    (Always step GateKept (start (uartClks fun _ => 0#32)) [uartGet "console" 0xa0000,
        .prepareEnable 0xa0000, .disableUnprepare 0xa0000] ↔
      AllOff (uartClks fun _ => 0#32) ∧ Meets step LastOut (start (uartClks fun _ => 0#32))
        [uartGet "console" 0xa0000, .prepareEnable 0xa0000, .disableUnprepare 0xa0000]) :=
  ⟨_, rfl, (shared_clocks_iff (uartClks_init fun _ => 0#32) (fun _ => 0#32) rfl).1⟩

/-- Two drivers enable the clock, one of them disables it: the gate is off under the other, and
`fwk_clk_is_enabled` says that it is on. -/
theorem second_driver_cut_off : AllOff (uartClks fun _ => 0#32) ∧ ∃ u,
    exec step (start (uartClks fun _ => 0#32)) [uartGet "console" 0xa0000,
      uartGet "modem" 0xb0000, .prepareEnable 0xa0000, .prepareEnable 0xb0000,
      .disableUnprepare 0xa0000] = some u ∧
    u.Holds 0xb0000 ∧ u.clks.fieldOf 0xb0000 = some uartField ∧ ¬ uartField.On u.clks.regs ∧
    fwkClkIsEnabled u.clks 0xb0000 = .ok true ∧ ¬ u.GateKept ∧ ¬ u.Told := by
  have hoff : AllOff (uartClks fun _ => 0#32) := by
    intro a core _
    show ¬ (0#32 &&& _ ≠ 0#32)
    rw [BitVec.zero_and]
    exact fun hne => hne rfl
  refine ⟨hoff, _, rfl, ?_⟩
  refine ⟨⟨List.mem_cons_self, Nat.one_pos⟩, rfl, by decide, rfl, ?_, ?_⟩
  · intro hkept
    have hon := (hkept 0x92000 uartCore rfl).mpr
      ⟨0xb0000, ⟨List.mem_cons_self, Nat.one_pos⟩, rfl⟩
    exact absurd hon (by decide)
  · intro htold
    have hon := (htold 0xb0000 List.mem_cons_self uartField rfl).mp rfl
    exact absurd hon (by decide)

end ClkSystem

end HeavenFox.Platform
