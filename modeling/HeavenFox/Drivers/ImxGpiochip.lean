/-
# HeavenFox.Drivers.ImxGpiochip -- pending interrupts of a GPIO port

`ISR` of a port says which lines are pending, and a 1 written to it acknowledges a line.  The
handler of `imx-gpiochip.c` and `fwk_irq_chip_gc_mask` acknowledge with `mrt_setbitl`, which writes
back what it has read: every pending line is acknowledged, also those whose handlers are still to be
called and those that are masked.  `no_interrupt_lost_iff` says when nothing is lost by that.
-/
import HeavenFox.Logic.WriteOne
import HeavenFox.Platform.IrqDomain

namespace HeavenFox.Drivers

open HeavenFox.Common HeavenFox.Logic HeavenFox.Platform

/-! ## The port -/

/-- The interrupt registers of a `srt_hal_imx_gpio_t`. -/
structure PortRegs where
  imr : BitVec 32
  isr : BitVec 32
  deriving DecidableEq, Repr

namespace PortRegs

def setbitlImr (mask : BitVec 32) (regs : PortRegs) : PortRegs :=
  { regs with imr := regs.imr ||| mask }

def clrbitlImr (mask : BitVec 32) (regs : PortRegs) : PortRegs :=
  { regs with imr := regs.imr &&& ~~~mask }

/-- `mrt_setbitl` on `ISR`, which is write-1-to-clear. -/
def setbitlIsr (mask : BitVec 32) (regs : PortRegs) : PortRegs :=
  { regs with isr := clearOnOne regs.isr (regs.isr ||| mask) }

/-- The line is enabled. -/
def enabled (regs : PortRegs) (line : Nat) : Bool := regs.imr.getLsbD line

/-- The line is pending. -/
def pending (regs : PortRegs) (line : Nat) : Bool := regs.isr.getLsbD line

/-- **Acknowledging** a line acknowledges all of them. -/
theorem setbitlIsr_eq (mask : BitVec 32) (regs : PortRegs) :
    regs.setbitlIsr mask = { regs with isr := 0#32 } := by
  rw [setbitlIsr, clearOnOne_or]

end PortRegs

/-! ## The generic chip -/

/-- `fwk_irq_chip_gc_mask` for a chip with these registers; `handler_data` may be null. -/
def fwkIrqChipGcMask (data : FwkIrqData) (regs : PortRegs) : PortRegs :=
  if data.handlerData.isNone then regs
  else (regs.setbitlImr (BitVec.ofNat 32 data.mask)).setbitlIsr (BitVec.ofNat 32 data.mask)

/-- `fwk_irq_chip_gc_unmask`. -/
def fwkIrqChipGcUnmask (data : FwkIrqData) (regs : PortRegs) : PortRegs :=
  if data.handlerData.isNone then regs else regs.clrbitlImr (BitVec.ofNat 32 data.mask)

/-- `fwk_irq_chip_gc_ack`: it only reads. -/
def fwkIrqChipGcAck (data : FwkIrqData) (regs : PortRegs) : Bool :=
  if data.handlerData.isNone then false
  else decide (regs.isr &&& BitVec.ofNat 32 data.mask ≠ 0#32)

/-- Masking a line acknowledges all of them, and unmasking none. -/
theorem gcMask_isr (data : FwkIrqData) (regs : PortRegs) :
    (fwkIrqChipGcMask data regs).isr = if data.handlerData.isNone then regs.isr else 0#32 := by
  unfold fwkIrqChipGcMask
  split
  · rfl
  · rw [PortRegs.setbitlIsr_eq]

theorem gcUnmask_isr (data : FwkIrqData) (regs : PortRegs) :
    (fwkIrqChipGcUnmask data regs).isr = regs.isr := by
  unfold fwkIrqChipGcUnmask
  split <;> rfl

/-! ## The handler of the port -/

/-- `fwk_irq_get_by_domain`. -/
def fwkIrqGetByDomain (sprtDomain : Option FwkIrqDomain) (hwirq : Nat) : Int :=
  sprtDomain.elim (-1) fun domain => domain.revmap hwirq

/-- `fwk_do_irq_handler`: what the handlers of an interrupt do to `IMR` and to the rest of the
system.  They do not access `ISR`. -/
abbrev FwkDoIrqHandler (ω : Type) := Int → BitVec 32 → ω → BitVec 32 × ω

/-- The registers, the rest of the system, and the lines whose handlers were called. -/
structure PortRun (ω : Type) where
  regs : PortRegs
  rest : ω
  called : List Nat

section Handler

variable {ω : Type} (fwkDoIrqHandler : FwkDoIrqHandler ω) (sprtDomain : Option FwkIrqDomain)

/-- The handler of a line is called. -/
def PortRun.handle (idx : Nat) (s : PortRun ω) : PortRun ω :=
  let (imr, rest) := fwkDoIrqHandler (fwkIrqGetByDomain sprtDomain idx) s.regs.imr s.rest
  { regs := { s.regs with imr }, rest, called := s.called ++ [idx] }

/-- The loop of `imx_gpiochip_driver_isr`, from `idx` on. -/
def isrLoop : Nat → Nat → PortRun ω → PortRun ω
  | 0, _, s => s
  | rounds + 1, idx, s =>
    let irqEna := s.regs.enabled idx
    let irqSta := s.regs.pending idx
    if !irqEna || !irqSta then isrLoop rounds (idx + 1) s
    else
      let s := s.handle fwkDoIrqHandler sprtDomain idx
      isrLoop rounds (idx + 1) { s with regs := s.regs.setbitlIsr (BitVec.twoPow 32 idx) }

/-- `imx_gpiochip_driver_isr`. -/
def imxGpiochipDriverIsr (regs : PortRegs) (rest : ω) : PortRun ω :=
  isrLoop fwkDoIrqHandler sprtDomain 32 0 ⟨regs, rest, []⟩

variable {fwkDoIrqHandler sprtDomain} {s : PortRun ω} {regs : PortRegs} {rest : ω}
  {rounds idx : Nat}

/-- Nothing is pending, nothing is done. -/
theorem isrLoop_idle (h : s.regs.isr = 0#32) :
    isrLoop fwkDoIrqHandler sprtDomain rounds idx s = s := by
  induction rounds generalizing idx with
  | zero => rfl
  | succ rounds ih =>
    have hsta : s.regs.pending idx = false := by
      rw [PortRegs.pending, h, BitVec.getLsbD_zero]
    simp only [isrLoop, hsta, Bool.not_false, Bool.or_true, if_true]
    exact ih

/-- **The loop** finds no line to handle, or it handles one and acknowledges all. -/
theorem isrLoop_cases (rounds idx : Nat) :
    (isrLoop fwkDoIrqHandler sprtDomain rounds idx s = s ∧ ∀ line, idx ≤ line →
        line < idx + rounds → ¬ (s.regs.pending line = true ∧ s.regs.enabled line = true)) ∨
      ∃ line, s.regs.pending line = true ∧ s.regs.enabled line = true ∧
        (isrLoop fwkDoIrqHandler sprtDomain rounds idx s).regs.isr = 0#32 ∧
        (isrLoop fwkDoIrqHandler sprtDomain rounds idx s).called = s.called ++ [line] := by
  induction rounds generalizing idx with
  | zero => exact Or.inl ⟨rfl, fun line hlow hhigh => absurd hhigh (Nat.not_lt.mpr hlow)⟩
  | succ rounds ih =>
    by_cases hhit : s.regs.pending idx = true ∧ s.regs.enabled idx = true
    · -- after the first line nothing is pending any more
      refine Or.inr ⟨idx, hhit.1, hhit.2, ?_⟩
      simp only [isrLoop, hhit.1, hhit.2, Bool.not_true, Bool.or_self, Bool.false_eq_true,
        if_false, PortRegs.setbitlIsr_eq]
      rw [isrLoop_idle rfl]
      exact ⟨rfl, rfl⟩
    · -- the line is skipped, and the registers are as they were
      have hskip : (!s.regs.enabled idx || !s.regs.pending idx) = true := by
        revert hhit
        cases s.regs.enabled idx <;> cases s.regs.pending idx <;> simp
      simp only [isrLoop, hskip, if_true]
      rcases ih (idx + 1) with ⟨heq, hnone⟩ | hone
      · refine Or.inl ⟨heq, fun line hlow hhigh => ?_⟩
        rcases Nat.eq_or_lt_of_le hlow with rfl | hlow
        · exact hhit
        · exact hnone line hlow (by omega)
      · exact Or.inr hone

end Handler

/-! ## What is lost -/

/-- The handler of every line that was pending and enabled has been called once, and no other; the
lines that were pending and not enabled are still pending. -/
structure NoneLost {ω : Type} (entry : PortRegs) (s : PortRun ω) : Prop where
  called : ∀ line, s.called.count line =
    if entry.pending line = true ∧ entry.enabled line = true then 1 else 0
  kept : ∀ line, entry.pending line = true → entry.enabled line = false →
    s.regs.pending line = true

/-- The other lines that were pending are still pending. -/
def OthersKept (line : Nat) (entry regs : PortRegs) : Prop :=
  ∀ other, other ≠ line → entry.pending other = true → regs.pending other = true

theorem pending_lt {regs : PortRegs} {line : Nat} (h : regs.pending line = true) : line < 32 :=
  BitVec.lt_of_getLsbD h

/-- A pending line that is enabled is handled alone. -/
theorem noneLost_iff {ω : Type} (fwkDoIrqHandler : FwkDoIrqHandler ω)
    (sprtDomain : Option FwkIrqDomain) (regs : PortRegs) (rest : ω) :
    NoneLost regs (imxGpiochipDriverIsr fwkDoIrqHandler sprtDomain regs rest) ↔
      (∀ line, regs.pending line = true → regs.enabled line = false) ∨
        ∃ line, ∀ other, regs.pending other = true → other = line := by
  have hloop := @isrLoop_cases ω fwkDoIrqHandler sprtDomain ⟨regs, rest, []⟩ 32 0
  rcases hloop with ⟨heq, hnone⟩ | ⟨line, hsta, hena, hisr, hcalled⟩
  · have hnever : ∀ line, regs.pending line = true → regs.enabled line = false := by
      intro line hsta
      have hmiss := hnone line (Nat.zero_le _) (by simpa using pending_lt hsta)
      exact Bool.eq_false_of_not_eq_true fun hena => hmiss ⟨hsta, hena⟩
    apply iff_of_true _ (Or.inl hnever)
    constructor
    · intro line
      rw [imxGpiochipDriverIsr, heq, if_neg]
      · rfl
      · rintro ⟨hsta, hena⟩
        rw [hnever line hsta] at hena
        cases hena
    · intro line hsta _
      rw [imxGpiochipDriverIsr, heq]
      exact hsta
  · constructor
    · intro h
      refine Or.inr ⟨line, fun other hother => ?_⟩
      by_cases hon : regs.enabled other = true
      · -- its handler was called too
        have hcount := h.called other
        rw [imxGpiochipDriverIsr, hcalled, if_pos ⟨hother, hon⟩] at hcount
        have hmem : other ∈ [line] :=
          List.count_pos_iff.mp (Nat.lt_of_lt_of_eq Nat.zero_lt_one hcount.symm)
        exact List.mem_singleton.mp hmem
      · -- it was acknowledged with the others
        have hkept := h.kept other hother (Bool.eq_false_of_not_eq_true hon)
        rw [imxGpiochipDriverIsr, PortRegs.pending, hisr, BitVec.getLsbD_zero] at hkept
        cases hkept
    · rintro (hnever | ⟨only, honly⟩)
      · rw [hnever line hsta] at hena
        cases hena
      · have hline : line = only := honly line hsta
        constructor
        · intro other
          rw [imxGpiochipDriverIsr, hcalled]
          by_cases hsame : other = line
          · rw [hsame, if_pos ⟨hsta, hena⟩]
            exact List.count_singleton_self
          · rw [if_neg fun hhit => hsame ((honly other hhit.1).trans hline.symm)]
            exact List.count_eq_zero.mpr fun hmem => hsame (List.mem_singleton.mp hmem)
        · intro other hother hoff
          rw [honly other hother, ← hline, hena] at hoff
          cases hoff

/-- Masking a line keeps the others only if there are none to keep. -/
theorem othersKept_gcMask_iff (line : Nat) (data : FwkIrqData) (regs : PortRegs) :
    OthersKept line regs (fwkIrqChipGcMask data regs) ↔
      data.handlerData.isNone = true ∨ ∀ other, regs.pending other = true → other = line := by
  by_cases hdata : data.handlerData.isNone = true
  · refine iff_of_true ?_ (Or.inl hdata)
    intro other _ hother
    rwa [PortRegs.pending, gcMask_isr, if_pos hdata]
  rw [or_iff_right hdata]
  constructor
  · intro h other hother
    by_contra hne
    have hkept := h other hne hother
    rw [PortRegs.pending, gcMask_isr, if_neg hdata, BitVec.getLsbD_zero] at hkept
    cases hkept
  · intro honly other hne hother
    exact absurd (honly other hother) hne

/-- **When no interrupt is lost.**  Whatever the handlers do to `IMR` and to the rest of the system,
the handler of the port calls those of all lines that are pending and enabled, once each, and leaves
the others pending, if and only if no pending line is enabled or only one line is pending; and
masking a line leaves the other lines pending if and only if none is, or the chip has no
registers. -/
theorem no_interrupt_lost_iff {ω : Type} (fwkDoIrqHandler : FwkDoIrqHandler ω)
    (sprtDomain : Option FwkIrqDomain) (regs : PortRegs) (rest : ω) :
    (NoneLost regs (imxGpiochipDriverIsr fwkDoIrqHandler sprtDomain regs rest) ↔
      (∀ line, regs.pending line = true → regs.enabled line = false) ∨
        ∃ line, ∀ other, regs.pending other = true → other = line) ∧
    ∀ line data, OthersKept line regs (fwkIrqChipGcMask data regs) ↔
      data.handlerData.isNone = true ∨ ∀ other, regs.pending other = true → other = line :=
  ⟨noneLost_iff fwkDoIrqHandler sprtDomain regs rest,
    fun line data => othersKept_gcMask_iff line data regs⟩

/-- Lines 3 and 7 are pending and enabled: only the handler of line 3 is called, and masking line 3
acknowledges line 7. -/
theorem second_line_lost :
    ¬ NoneLost ⟨0x88, 0x88⟩
        (imxGpiochipDriverIsr (fun _ imr (rest : Unit) => (imr, rest)) none ⟨0x88, 0x88⟩ ()) ∧
      ¬ OthersKept 3 ⟨0x88, 0x88⟩
        (fwkIrqChipGcMask ⟨0, 3, none, none, some ⟨0x55000, by decide⟩, none, 8⟩ ⟨0x88, 0x88⟩) := by
  constructor
  · intro h
    exact absurd (h.called 7) (by decide +kernel)
  · intro h
    exact absurd (h 7 (by decide) (by decide)) (by decide)

end HeavenFox.Drivers
