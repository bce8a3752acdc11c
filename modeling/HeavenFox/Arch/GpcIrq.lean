/-
# HeavenFox.Arch.GpcIrq -- turning interrupts on and off in `irq.c`

The interrupts of the GPC are the lines of the GIC from 32 on.  A line is enabled by a 1 in
`D_ISENABLER` and disabled by a 1 in `D_ICENABLER`, and both show which lines are enabled.  The chip
of the GPC writes them with `mrt_setbit_towords`, which writes back what it has read: so a line that
is disabled takes the other 31 lines of its word with it.

`enable_bits_iff` says when that is not seen: every line is what the last call for it asked for, all
along a run, just if each `fwk_disable_irq` finds no other line of the word enabled.
-/
import HeavenFox.Logic.Run
import HeavenFox.Logic.WriteOne
import HeavenFox.Platform.IrqDomainRuns

namespace HeavenFox.Arch

open HeavenFox.Common HeavenFox.Logic HeavenFox.Platform

/-! ## Chips -/

/-- The operations of a `struct fwk_irq_chip` that turn lines of a controller on and off. -/
structure FwkIrqChip (σ : Type) where
  irqEnable : Option (FwkIrqData → σ → Except Stop σ)
  irqDisable : Option (FwkIrqData → σ → Except Stop σ)
  irqMask : Option (FwkIrqData → σ → Except Stop σ)
  irqUnmask : Option (FwkIrqData → σ → Except Stop σ)
  irqIsEnabled : Option (FwkIrqData → σ → Except Stop Bool)

/-- What is at the address of a chip. -/
abbrev IrqChips (σ : Type) := IrqChipPtr → Option (FwkIrqChip σ)

section Calls

variable {σ : Type} (maps : IrqMaps) (chips : IrqChips σ)

/-- `fwk_enable_irq`. -/
def fwkEnableIrq (irq : Int) (s : σ) : Except Stop σ := do
  match ← maps.fwkIrqGetData (asUint32 irq) with
  | none => pure s
  | some (_, desc) =>
    match desc.sgrtData.sprtChip.bind chips with
    | none => .error .fault
    | some chip =>
      match chip.irqEnable, chip.irqMask with
      | some irqEnable, _ => irqEnable desc.sgrtData s
      | none, some irqMask => irqMask desc.sgrtData s
      | none, none => pure s

/-- `fwk_disable_irq`: without `irq_disable` it looks for `irq_mask` and calls `irq_unmask`. -/
def fwkDisableIrq (irq : Int) (s : σ) : Except Stop σ := do
  match ← maps.fwkIrqGetData (asUint32 irq) with
  | none => pure s
  | some (_, desc) =>
    match desc.sgrtData.sprtChip.bind chips with
    | none => .error .fault
    | some chip =>
      match chip.irqDisable, chip.irqMask with
      | some irqDisable, _ => irqDisable desc.sgrtData s
      | none, some _ =>
        match chip.irqUnmask with
        | some irqUnmask => irqUnmask desc.sgrtData s
        | none => .error .fault
      | none, none => pure s

/-- `fwk_irq_is_enabled`. -/
def fwkIrqIsEnabled (irq : Int) (s : σ) : Except Stop Bool := do
  match ← maps.fwkIrqGetData (asUint32 irq) with
  | none => pure false
  | some (_, desc) =>
    match desc.sgrtData.sprtChip.bind chips with
    | none => .error .fault
    | some chip =>
      match chip.irqIsEnabled with
      | some irqIsEnabled => irqIsEnabled desc.sgrtData s
      | none => pure false

end Calls

/-! ## The distributor -/

/-- The enable bits of a `srt_ca7_gic_des_t`, word by word. -/
structure GicDes where
  enabler : Nat → BitVec 32

namespace GicDes

/-- `D_ISENABLER`: ones enable. -/
def dIsenabler : RegWords GicDes where
  size := 16
  read d word := d.enabler word
  write word value d := ⟨Function.update d.enabler word (setOnOne (d.enabler word) value)⟩

/-- `D_ICENABLER`: ones disable. -/
def dIcenabler : RegWords GicDes where
  size := 16
  read d word := d.enabler word
  write word value d := ⟨Function.update d.enabler word (clearOnOne (d.enabler word) value)⟩

/-- The line is enabled. -/
def enabled (d : GicDes) (line : Nat) : Bool := (d.enabler (line / 32)).getLsbD (line % 32)

end GicDes

/-- `gpc_irq_chip_enable`. -/
def gpcIrqChipEnable (data : FwkIrqData) (d : GicDes) : Except Stop GicDes :=
  mrtSetbitTowords (add32 data.hwirq 32) GicDes.dIsenabler d

/-- `gpc_irq_chip_disable`. -/
def gpcIrqChipDisable (data : FwkIrqData) (d : GicDes) : Except Stop GicDes :=
  mrtSetbitTowords (add32 data.hwirq 32) GicDes.dIcenabler d

/-- `gpc_irq_chip_is_enabled`. -/
def gpcIrqChipIsEnabled (data : FwkIrqData) (d : GicDes) : Except Stop Bool := do
  let bit ← mrtGetbitFromwords (add32 data.hwirq 32) GicDes.dIsenabler d
  pure (decide (bit ≠ 0#32))

/-- The chip that `gpc_irq_domain_alloc` makes. -/
def gpcIrqChip : FwkIrqChip GicDes where
  irqEnable := some gpcIrqChipEnable
  irqDisable := some gpcIrqChipDisable
  irqMask := none
  irqUnmask := none
  irqIsEnabled := some gpcIrqChipIsEnabled

/-! ## What the registers do -/

namespace GicDes

variable {d : GicDes} {line : Nat}

theorem setbit_isenabler (h : line < 512) :
    ∃ d', mrtSetbitTowords line dIsenabler d = .ok d' ∧
      ∀ other, d'.enabled other = if other = line then true else d.enabled other := by
  refine ⟨_, if_pos (show line / 32 < 16 by omega), fun other => ?_⟩
  simp only [dIsenabler, enabled, setOnOne_or]
  by_cases hword : other / 32 = line / 32
  · -- the bit of the line is set, and the rest of the word is written as it was read
    rw [hword, Function.update_self, BitVec.getLsbD_or, BitVec.getLsbD_twoPow]
    by_cases hline : other = line
    · have hbit : line % 32 < 32 := Nat.mod_lt _ (by decide)
      rw [if_pos hline, hline, decide_eq_true hbit, decide_eq_true rfl]
      simp
    · have hbit : line % 32 ≠ other % 32 := by omega
      rw [if_neg hline, decide_eq_false hbit, Bool.and_false, Bool.or_false]
  · have hline : other ≠ line := fun heq => hword (by rw [heq])
    rw [Function.update_of_ne hword, if_neg hline]

/-- **Disabling** a line disables its whole word. -/
theorem setbit_icenabler (h : line < 512) :
    ∃ d', mrtSetbitTowords line dIcenabler d = .ok d' ∧
      ∀ other, d'.enabled other = if other / 32 = line / 32 then false else d.enabled other := by
  refine ⟨_, if_pos (show line / 32 < 16 by omega), fun other => ?_⟩
  simp only [dIcenabler, enabled, clearOnOne_or]
  by_cases hword : other / 32 = line / 32
  · -- the whole word was read as ones and written back
    rw [if_pos hword, hword, Function.update_self, BitVec.getLsbD_zero]
  · rw [if_neg hword, Function.update_of_ne hword]

theorem getbit_isenabler (h : line < 512) :
    ∃ bit, mrtGetbitFromwords line dIsenabler d = .ok bit ∧
      decide (bit ≠ 0#32) = d.enabled line := by
  refine ⟨_, if_pos (show line / 32 < 16 by omega), ?_⟩
  show decide (d.enabler (line / 32) &&& BitVec.twoPow 32 (line % 32) ≠ 0#32) = _
  rw [enabled, BitVec.and_twoPow]
  have hne : BitVec.twoPow 32 (line % 32) ≠ 0#32 := by
    intro hzero
    have hbit := congrArg (fun v => v.getLsbD (line % 32)) hzero
    simp [Nat.mod_lt] at hbit
  cases (d.enabler (line / 32)).getLsbD (line % 32) with
  | true => simpa using hne
  | false => simp

end GicDes

/-! ## The calls on GPC interrupts -/

/-- `CA7_MAX_GPC_NR`. -/
def ca7MaxGpcNr : Nat := 128

/-- A GPC interrupt: a number whose data has the chip of the GPC and one of its hardware numbers. -/
structure GpcIrq (maps : IrqMaps) (chips : IrqChips GicDes) where
  irq : Int
  ptr : ObjPtr
  desc : FwkIrqDesc
  found : maps.fwkIrqGetData (asUint32 irq) = .ok (some (ptr, desc))
  chip : desc.sgrtData.sprtChip.bind chips = some gpcIrqChip
  below : desc.sgrtData.hwirq < ca7MaxGpcNr

variable {maps : IrqMaps} {chips : IrqChips GicDes}

namespace GpcIrq

/-- Its line of the GIC. -/
def line (i : GpcIrq maps chips) : Nat := i.desc.sgrtData.hwirq + 32

theorem line_lt (i : GpcIrq maps chips) : i.line < 512 := by
  have := i.below
  unfold ca7MaxGpcNr at this
  unfold line
  omega

theorem line_eq (i : GpcIrq maps chips) : add32 i.desc.sgrtData.hwirq 32 = i.line := by
  have := i.line_lt
  exact Nat.mod_eq_of_lt (show i.line < 2 ^ 32 by omega)

/-- Where the copies of the mapping agree, the interrupts of one domain have lines of their own. -/
theorem irq_eq_of_line_eq (hagree : maps.Agree) {i j : GpcIrq maps chips} {d : ObjPtr}
    {domain : FwkIrqDomain} (hdomain : maps.domain d = some domain)
    (hmax : domain.hwirqMax = ca7MaxGpcNr) (hi : i.desc.sgrtData.sprtDomain = some d)
    (hj : j.desc.sgrtData.sprtDomain = some d) (hline : i.line = j.line) :
    asUint32 i.irq = asUint32 j.irq := by
  have hword : ∀ k : GpcIrq maps chips, asUint32 k.irq < 2 ^ 32 := by
    intro k
    unfold asUint32
    omega
  -- the map of the domain leads back from the hardware number
  have hrev : ∀ k : GpcIrq maps chips, k.desc.sgrtData.sprtDomain = some d →
      domain.revmap k.desc.sgrtData.hwirq = asUint32 k.irq := by
    intro k hk
    apply (hagree.revmap_iff d domain _ _ hdomain (hmax ▸ k.below) (hword k)).mpr
    obtain ⟨hdesc, hat⟩ := IrqMaps.fwkIrqGetData_some k.found
    exact ⟨k.ptr, k.desc, hdesc, hat, hk, rfl⟩
  have hhwirq : i.desc.sgrtData.hwirq = j.desc.sgrtData.hwirq := Nat.add_right_cancel hline
  have hsame := hrev i hi
  rw [hhwirq, hrev j hj] at hsame
  exact_mod_cast hsame.symm

theorem enable_eq (i : GpcIrq maps chips) (d : GicDes) :
    fwkEnableIrq maps chips i.irq d = mrtSetbitTowords i.line GicDes.dIsenabler d := by
  simp only [fwkEnableIrq, i.found, bind, Except.bind, i.chip]
  rw [← i.line_eq]
  rfl

theorem disable_eq (i : GpcIrq maps chips) (d : GicDes) :
    fwkDisableIrq maps chips i.irq d = mrtSetbitTowords i.line GicDes.dIcenabler d := by
  simp only [fwkDisableIrq, i.found, bind, Except.bind, i.chip]
  rw [← i.line_eq]
  rfl

/-- `fwk_irq_is_enabled` reads the bit of the line. -/
theorem isEnabled_eq (i : GpcIrq maps chips) (d : GicDes) :
    fwkIrqIsEnabled maps chips i.irq d = .ok (d.enabled i.line) := by
  obtain ⟨bit, hread, hbit⟩ := GicDes.getbit_isenabler (d := d) i.line_lt
  have hcall : gpcIrqChipIsEnabled i.desc.sgrtData d = .ok (d.enabled i.line) := by
    rw [gpcIrqChipIsEnabled, i.line_eq, hread, ← hbit]
    rfl
  simp only [fwkIrqIsEnabled, i.found, bind, Except.bind, i.chip]
  exact hcall

end GpcIrq

/-! ## Runs -/

/-- A call on a GPC interrupt. -/
inductive IrqCall (maps : IrqMaps) (chips : IrqChips GicDes) where
  | fwkEnableIrq (i : GpcIrq maps chips)
  | fwkDisableIrq (i : GpcIrq maps chips)

namespace IrqCall

def irq : IrqCall maps chips → GpcIrq maps chips
  | fwkEnableIrq i => i
  | fwkDisableIrq i => i

def enables : IrqCall maps chips → Bool
  | fwkEnableIrq _ => true
  | fwkDisableIrq _ => false

end IrqCall

/-- The distributor, and the calls that were made, the last one first. -/
structure GpcRun (maps : IrqMaps) (chips : IrqChips GicDes) where
  dist : GicDes
  made : List (IrqCall maps chips)

/-- One call. -/
def step (s : GpcRun maps chips) (call : IrqCall maps chips) : Option (GpcRun maps chips) :=
  let dist :=
    match call with
    | .fwkEnableIrq i => fwkEnableIrq maps chips i.irq s.dist
    | .fwkDisableIrq i => fwkDisableIrq maps chips i.irq s.dist
  dist.toOption.map fun dist => ⟨dist, call :: s.made⟩

/-- What was asked for: the last call for a line decides, and without one the line is as it was. -/
def wanted (first : GicDes) : List (IrqCall maps chips) → Nat → Bool
  | [], line => first.enabled line
  | call :: made, line => if line = call.irq.line then call.enables else wanted first made line

/-- Every line is as asked for, so a call has changed no line but its own, and `fwk_irq_is_enabled`
tells it. -/
structure AsAsked (first : GicDes) (s : GpcRun maps chips) : Prop where
  lines : ∀ line, s.dist.enabled line = wanted first s.made line
  told : ∀ i : GpcIrq maps chips,
    fwkIrqIsEnabled maps chips i.irq s.dist = .ok (wanted first s.made i.line)

/-- A disable finds no other line of its word enabled. -/
def AloneInWord (s : GpcRun maps chips) : IrqCall maps chips → Prop
  | .fwkEnableIrq _ => True
  | .fwkDisableIrq i => ∀ line, line / 32 = i.line / 32 → s.dist.enabled line = true → line = i.line

variable {first : GicDes} {s t : GpcRun maps chips} {call : IrqCall maps chips}

theorem asAsked_of_lines (h : ∀ line, s.dist.enabled line = wanted first s.made line) :
    AsAsked first s where
  lines := h
  told := by
    intro i
    rw [i.isEnabled_eq, h]

/-- **One call**: it returns, and what it does to the lines. -/
theorem step_cases (s : GpcRun maps chips) (call : IrqCall maps chips) :
    ∃ dist, step s call = some ⟨dist, call :: s.made⟩ ∧ ∀ line, dist.enabled line =
      match call with
      | .fwkEnableIrq i => if line = i.line then true else s.dist.enabled line
      | .fwkDisableIrq i => if line / 32 = i.line / 32 then false else s.dist.enabled line := by
  cases call with
  | fwkEnableIrq i =>
    obtain ⟨dist, hcall, hlines⟩ := GicDes.setbit_isenabler (d := s.dist) i.line_lt
    refine ⟨dist, ?_, hlines⟩
    simp only [step, i.enable_eq, hcall]
    rfl
  | fwkDisableIrq i =>
    obtain ⟨dist, hcall, hlines⟩ := GicDes.setbit_icenabler (d := s.dist) i.line_lt
    refine ⟨dist, ?_, hlines⟩
    simp only [step, i.disable_eq, hcall]
    rfl

/-- A call that meets the condition does what was asked for. -/
theorem step_asAsked (hs : AsAsked first s) (hcond : AloneInWord s call)
    (hstep : step s call = some t) : AsAsked first t := by
  obtain ⟨dist, hto, hlines⟩ := step_cases s call
  obtain rfl := Option.some.inj (hto.symm.trans hstep)
  apply asAsked_of_lines
  intro line
  rw [hlines]
  cases call with
  | fwkEnableIrq i =>
    simp only [wanted, IrqCall.irq, IrqCall.enables, hs.lines]
    rfl
  | fwkDisableIrq i =>
    simp only [wanted, IrqCall.irq, IrqCall.enables, ← hs.lines]
    by_cases hown : line = i.line
    · rw [if_pos hown, if_pos (by rw [hown])]
    rw [if_neg hown]
    by_cases hword : line / 32 = i.line / 32
    · -- a line beside it was disabled before
      rw [if_pos hword]
      have hoff : s.dist.enabled line ≠ true := fun hon => hown (hcond line hword hon)
      exact (Bool.eq_false_of_not_eq_true hoff).symm
    · rw [if_neg hword]

/-- A disable that misses the condition takes a line with it. -/
theorem step_not_asAsked (hs : AsAsked first s) (hcond : ¬ AloneInWord s call)
    (hstep : step s call = some t) : ¬ AsAsked first t := by
  obtain ⟨dist, hto, hlines⟩ := step_cases s call
  obtain rfl := Option.some.inj (hto.symm.trans hstep)
  cases call with
  | fwkEnableIrq i => exact absurd trivial hcond
  | fwkDisableIrq i =>
    unfold AloneInWord at hcond
    push Not at hcond
    obtain ⟨line, hword, hon, hother⟩ := hcond
    -- nobody asked for this line to be disabled
    intro ht
    have hline := ht.lines line
    rw [hlines] at hline
    simp only [wanted, IrqCall.irq, if_pos hword, if_neg hother, ← hs.lines, hon] at hline
    cases hline

/-- **When the calls do what they are asked for.**  For every set of enabled lines and every
sequence of calls on GPC interrupts, all the calls return; each changes the line of its own
interrupt only, and a line is told to be enabled just if the last call for it was an enable, or if
it was enabled before and there was none, if and only if every disable finds no other line of its
word enabled. -/
theorem enable_bits_iff (maps : IrqMaps) (chips : IrqChips GicDes) (first : GicDes)
    (calls : List (IrqCall maps chips)) :
    (∃ u, exec step ⟨first, []⟩ calls = some u) ∧
      (Always step (AsAsked first) ⟨first, []⟩ calls ↔
        Meets step AloneInWord ⟨first, []⟩ calls) := by
  have hmoves : ∀ (s : GpcRun maps chips) call, True → ∃ t, step s call = some t ∧ True := by
    intro s call _
    obtain ⟨dist, hto, -⟩ := step_cases s call
    exact ⟨_, hto, trivial⟩
  have hruns : (∃ u, exec step (⟨first, []⟩ : GpcRun maps chips) calls = some u) ∧
      Always step (fun _ => True) (⟨first, []⟩ : GpcRun maps chips) calls :=
    run_of_total hmoves trivial
  obtain ⟨u, hu⟩ := hruns.1
  have hstart : AsAsked first (⟨first, []⟩ : GpcRun maps chips) := asAsked_of_lines fun _ => rfl
  refine ⟨⟨u, hu⟩, always_iff_meets ?_ (fun _ hs => hs) ?_ hstart hu⟩
  · exact fun s call t hs hcond hstep => step_asAsked hs hcond hstep
  · exact fun s call t hs hcond hstep => step_not_asAsked hs hcond hstep

/-- The interrupts 66 and 67 of the GPC, which are those of a GPIO port, are mapped. -/
def gpioMaps : IrqMaps :=
  let domain : ObjPtr := ⟨0xa8000, by decide⟩
  let mapped : Except Stop IrqMaps := do
    let (_, s) ← IrqMaps.start.fwkIrqDomainAddLinear none ca7MaxGpcNr ⟨none, true⟩ (some domain)
    let (_, s) ← s.fwkIrqDomainAllocIrqs domain (-1) 66 2
      [(some ⟨0x53000, by decide⟩, [some ⟨0x54000, by decide⟩]),
        (some ⟨0x53001, by decide⟩, [some ⟨0x54001, by decide⟩])]
    s.gpcIrqDomainAlloc 0 2 (some ⟨0xab000, by decide⟩)
  mapped.toOption.getD IrqMaps.start

/-- The first of them. -/
def gpioIrq : GpcIrq gpioMaps fun _ => some gpcIrqChip where
  irq := 0
  ptr := ⟨0x53000, by decide⟩
  desc :=
    { irq := 0
      flags := 0
      sgrtAction := []
      sgrtData :=
        { irq := 0
          hwirq := 66
          sprtChip := some (.sgrtChip ⟨0xab000, by decide⟩)
          sprtDomain := some ⟨0xa8000, by decide⟩
          handlerData := some ⟨0xab000, by decide⟩
          chipData := none
          mask := 1 } }
  found := by decide +kernel
  chip := rfl
  below := by decide

/-- Both lines, 98 and 99, are enabled: disabling the first disables the second. -/
theorem disable_takes_neighbour :
    ¬ Always step (AsAsked ⟨fun _ => 0xc⟩) ⟨⟨fun _ => 0xc⟩, []⟩ [.fwkDisableIrq gpioIrq] := by
  intro h
  obtain ⟨dist, hto, -⟩ := step_cases ⟨⟨fun _ => 0xc⟩, []⟩ (.fwkDisableIrq gpioIrq)
  apply step_not_asAsked h.1 _ hto (always_head (h.2 _ hto))
  intro halone
  exact absurd (halone 99 (by decide) (by decide)) (by decide)

end HeavenFox.Arch
