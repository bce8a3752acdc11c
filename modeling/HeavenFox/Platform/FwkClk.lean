/-
# HeavenFox.Platform.FwkClk -- clocks, their gates and the handles on them

`fwk_clk.c`, `fwk_clk_gate.c`, `fwk_clk_provider.c` and the gates of `imx-clks.c`.  A driver gets a
handle of its own on a clock, but all handles share the core of the clock, and the core has one
gate: a field of two bits in one of the gating registers.

`enable_count` and `prepare_count` of the core are in the structure and in no function.  Enabling
sets the field, and disabling clears it, whoever else has enabled it.
-/
import HeavenFox.Common.IoStream
import HeavenFox.Platform.Gpio

namespace HeavenFox.Platform

open HeavenFox.Common HeavenFox.Logic

/-! ## Gates, cores and handles -/

/-- `IMX6UL_CCM_CCGR_BIT`. -/
def imx6ulCcmCcgrBit (offset : Nat) : BitVec 32 := 3#32 <<< (offset <<< 1)

/-- The field of a gate: `bit_idx` of `enum __ERT_IMX_CLOCK_GATE` is below 16. -/
@[ext]
structure CcgrField where
  reg : Nat
  bitIdx : Nat
  within : bitIdx < 16
  deriving DecidableEq

/-- A `struct fwk_clk_gate`.  The `struct fwk_clk_hw` is a member of it, so that `mrt_container_of`
gets from one to the other: `sprt_core` and `sprt_clk` are those of the member. -/
structure FwkClkGate extends CcgrField where
  sprtCore : Nat
  sprtClk : Nat
  deriving DecidableEq

/-- A `struct fwk_clk_ops`; of its callbacks, those that are called. -/
structure FwkClkOps where
  prepare : Option (FwkClkGate → Regs → Int × Regs)
  unprepare : Option (FwkClkGate → Regs → Regs)
  enable : Option (FwkClkGate → Regs → Int × Regs)
  disable : Option (FwkClkGate → Regs → Regs)
  isEnabled : Option (FwkClkGate → Regs → Int)

/-- A `struct fwk_clk_core`. -/
structure FwkClkCore where
  name : List Char
  sprtOps : Option FwkClkOps
  sprtHw : FwkClkGate
  parentNames : List (Option (List Char))

/-- A `struct fwk_clk`; `sprt_core` of one that is all zeros is the null pointer. -/
structure FwkClk where
  devId : Option (List Char)
  conId : Option (List Char)
  maxRate : BitVec 32
  minRate : BitVec 32
  sprtCore : Nat
  flags : BitVec 8
  deriving DecidableEq

/-- What `kzalloc` and `memset` leave of a `struct fwk_clk`. -/
def FwkClk.zero : FwkClk := ⟨none, none, 0#32, 0#32, 0, 0#8⟩

/-- `sizeof(struct fwk_clk)`. -/
def fwkClkSize : Nat := 32

/-- A `struct fwk_clk_one_cell`: the address of its array and the number of its elements. -/
structure FwkClkOneCell where
  sprtClks : Nat
  clksSize : Nat
  deriving DecidableEq

/-- A `struct fwk_of_clk_provider` whose `get` is `fwk_of_clk_src_onecell_get`. -/
structure FwkOfClkProvider where
  sprtNode : Nat
  data : FwkClkOneCell
  deriving DecidableEq

/-- The registers, the clocks and the cores by their addresses, the list `sgrt_clks` of each core
and the list of the providers. -/
structure Clks where
  regs : Regs
  clk : Nat → Option FwkClk
  core : Nat → Option FwkClkCore
  sgrtClks : Nat → List Nat
  providers : List FwkOfClkProvider

/-! ## Handles -/

/-- `NR_FWK_CLK_IS_DYNAMIC`. -/
def nrFwkClkIsDynamic : BitVec 8 := 1#8

/-- `fwk_clk_config`; no caller hands it a null pointer. -/
def fwkClkConfig (s : Clks) (sprtClk : Nat) (hw : FwkClkGate) (devId conId : Option (List Char)) :
    Except Stop Clks :=
  match s.clk sprtClk with
  | none => .error .fault
  | some clk =>
    .ok { s with
      clk := Function.update s.clk sprtClk (some { clk with
        devId := devId
        conId := conId
        maxRate := ~~~0#32
        sprtCore := hw.sprtCore
        flags := clk.flags &&& ~~~nrFwkClkIsDynamic })
      sgrtClks := Function.update s.sgrtClks hw.sprtCore (s.sgrtClks hw.sprtCore ++ [sprtClk]) }

/-- The end of `fwk_create_clk`. -/
def Clks.setDynamic (s : Clks) (sprtClk : Nat) : Clks :=
  { s with
    clk := Function.update s.clk sprtClk
      ((s.clk sprtClk).map fun clk => { clk with flags := clk.flags ||| nrFwkClkIsDynamic }) }

/-- `fwk_create_clk`; `kzalloc` is what the allocator returns. -/
def fwkCreateClk (s : Clks) (hw : FwkClkGate) (devId conId : Option (List Char)) (kzalloc : Nat) :
    Except Stop (Nat × Clks) :=
  if !isValid kzalloc then .ok (0, s)
  else do
    let s ← fwkClkConfig { s with clk := Function.update s.clk kzalloc (some FwkClk.zero) } kzalloc
      hw devId conId
    .ok (kzalloc, s.setDynamic kzalloc)

/-- `sprt_clk->sprt_core`, followed. -/
def Clks.coreOf (s : Clks) (sprtClk : Nat) : Except Stop FwkClkCore :=
  match s.clk sprtClk with
  | none => .error .fault
  | some clk =>
    match s.core clk.sprtCore with
    | none => .error .fault
    | some core => .ok core

/-- `fwk_clk_to_hw` of a pointer that is not null. -/
def fwkClkToHw (s : Clks) (sprtClk : Nat) : Except Stop FwkClkGate := do
  let core ← s.coreOf sprtClk
  .ok core.sprtHw

/-- `fwk_of_clk_src_onecell_get`: the index is not checked.  `junk` is what `args[0]` holds if the
specifier has no argument. -/
def fwkOfClkSrcOnecellGet (spec : OfPhandleArgs) (data : FwkClkOneCell) (junk : Nat) : Nat :=
  if data.sprtClks = 0 then 0 else add32 data.sprtClks (fwkClkSize * spec.args.getD 0 junk)

/-- `fwk_clk_provider_look_up`. -/
def fwkClkProviderLookUp (s : Clks) (spec : OfPhandleArgs) (junk : Nat) : Nat :=
  match s.providers.find? fun provider => provider.sprtNode = spec.sprtNode with
  | none => 0
  | some provider => fwkOfClkSrcOnecellGet spec provider.data junk

/-- `fwk_clk_get`; `spec` is what the entry of the name in the property `clocks` of the device reads
as, if there is one. -/
def fwkClkGet (s : Clks) (devName : List Char) (spec : Option OfPhandleArgs)
    (name : Option (List Char)) (junk kzalloc : Nat) : Except Stop (Nat × Clks) :=
  match spec with
  | none => .ok (0, s)
  | some spec =>
    let sprtClk := fwkClkProviderLookUp s spec junk
    if !isValid sprtClk then .ok (0, s)
    else do
      let hw ← fwkClkToHw s sprtClk
      fwkCreateClk s hw (some devName) name kzalloc

/-! ## The calls on a handle -/

/-- A call that hands the gate to one of the callbacks, if it is there. -/
def Clks.callOp (s : Clks) (sprtClk : Nat)
    (op : FwkClkOps → Option (FwkClkGate → Regs → Regs)) : Except Stop Clks := do
  let core ← s.coreOf sprtClk
  match core.sprtOps.bind op with
  | none => .ok s
  | some callback => .ok { s with regs := callback core.sprtHw s.regs }

/-- `fwk_clk_enable`. -/
def fwkClkEnable (s : Clks) (sprtClk : Nat) : Except Stop Clks :=
  s.callOp sprtClk fun ops => ops.enable.map fun enable hw regs => (enable hw regs).2

/-- `fwk_clk_disable`. -/
def fwkClkDisable (s : Clks) (sprtClk : Nat) : Except Stop Clks :=
  s.callOp sprtClk FwkClkOps.disable

/-- `fwk_clk_prepare`. -/
def fwkClkPrepare (s : Clks) (sprtClk : Nat) : Except Stop Clks :=
  s.callOp sprtClk fun ops => ops.prepare.map fun prepare hw regs => (prepare hw regs).2

/-- `fwk_clk_unprepare`. -/
def fwkClkUnprepare (s : Clks) (sprtClk : Nat) : Except Stop Clks :=
  s.callOp sprtClk FwkClkOps.unprepare

/-- `fwk_clk_is_enabled`: what the callback says is negated. -/
def fwkClkIsEnabled (s : Clks) (sprtClk : Nat) : Except Stop Bool := do
  let core ← s.coreOf sprtClk
  match core.sprtOps.bind FwkClkOps.isEnabled with
  | none => .ok false
  | some callback => .ok (decide (callback core.sprtHw s.regs = 0))

/-- `fwk_clk_prepare_enable`. -/
def fwkClkPrepareEnable (s : Clks) (sprtClk : Nat) : Except Stop Clks := do
  let s ← fwkClkPrepare s sprtClk
  fwkClkEnable s sprtClk

/-- `fwk_clk_disable_unprepare`. -/
def fwkClkDisableUnprepare (s : Clks) (sprtClk : Nat) : Except Stop Clks := do
  let s ← fwkClkDisable s sprtClk
  fwkClkUnprepare s sprtClk

/-! ## The callbacks of a gate -/

/-- `imx_clks_gate_enable`. -/
def imxClksGateEnable (gate : FwkClkGate) (regs : Regs) : Int × Regs :=
  (erNormal, mrtSetbitl (imx6ulCcmCcgrBit gate.bitIdx) gate.reg regs)

/-- `imx_clks_gate_disable`. -/
def imxClksGateDisable (gate : FwkClkGate) (regs : Regs) : Regs :=
  mrtClrbitl (imx6ulCcmCcgrBit gate.bitIdx) gate.reg regs

/-- `imx_clks_gate_is_enabled`. -/
def imxClksGateIsEnabled (gate : FwkClkGate) (regs : Regs) : Int :=
  if mrtGetbitl (imx6ulCcmCcgrBit gate.bitIdx) gate.reg regs ≠ 0#32 then 1 else 0

/-- `sgrt_imx_clks_gate_oprts`. -/
def sgrtImxClksGateOprts : FwkClkOps where
  prepare := none
  unprepare := none
  enable := some imxClksGateEnable
  disable := some imxClksGateDisable
  isEnabled := some imxClksGateIsEnabled

/-! ## Registration -/

/-- A `struct fwk_clk_init_data`. -/
structure FwkClkInitData where
  name : List Char
  sprtOps : Option FwkClkOps
  parentNames : List (Option (List Char))

/-- What the allocator returns during a registration: for the gate, the core, the names of its
parents and the clock. -/
structure RegisterMem where
  gate : Nat
  core : Nat
  names : Nat
  clk : Nat

/-- `fwk_clk_register`: the clock, or null.  A registration that fails frees what it allocated. -/
def fwkClkRegister (s : Clks) (init : FwkClkInitData) (gate : FwkClkGate) (mem : RegisterMem) :
    Except Stop (Nat × Clks) :=
  if !isValid mem.core || !isValid mem.names then .ok (0, s)
  else if init.parentNames.any Option.isNone then .ok (0, s)
  else do
    let hw := { gate with sprtCore := mem.core }
    let core := ⟨init.name, init.sprtOps, hw, init.parentNames⟩
    let s' :=
      { s with
        core := Function.update s.core mem.core (some core)
        sgrtClks := Function.update s.sgrtClks mem.core [] }
    if gate.sprtClk = 0 then
      let (sprtClk, s') ← fwkCreateClk s' hw none none mem.clk
      if !isValid sprtClk then .ok (0, s)
      else
        .ok (sprtClk, { s' with
          core := Function.update s'.core mem.core
            (some { core with sprtHw := { hw with sprtClk := sprtClk } }) })
    else
      let s' ← fwkClkConfig s' gate.sprtClk hw none none
      .ok (gate.sprtClk, s')

/-- `fwk_clk_gate_register`. -/
def fwkClkGateRegister (s : Clks) (sprtClk : Nat) (sprtOps : Option FwkClkOps)
    (name parent : List Char) (field : CcgrField) (mem : RegisterMem) : Except Stop (Nat × Clks) :=
  if !isValid mem.gate then .ok (0, s)
  else fwkClkRegister s ⟨name, sprtOps, [some parent]⟩ ⟨field, 0, sprtClk⟩ mem

/-- One call of `imx_clk_init_gate`, with the register of the `imx_clk_init_data` before it. -/
structure GateRow where
  number : Nat
  name : List Char
  field : CcgrField
  parent : List Char
  mem : RegisterMem

/-- `imx_clk_init_gate`. -/
def imxClkInitGate (s : Clks) (cell : FwkClkOneCell) (row : GateRow) : Except Stop (Int × Clks) :=
  if row.number > cell.clksSize then .ok (-erFault, s)
  else do
    let (sprtClk, s) ← fwkClkGateRegister s (cell.sprtClks + fwkClkSize * row.number)
      (some sgrtImxClksGateOprts) row.name row.parent row.field row.mem
    .ok (if isValid sprtClk then 0 else -erNomem, s)

/-- The calls of `imx_clk_init_gate` one after another: whether one of them failed. -/
def imxClkInitGates (cell : FwkClkOneCell) :
    List GateRow → Bool → Clks → Except Stop (Bool × Clks)
  | [], failed, s => .ok (failed, s)
  | row :: rows, failed, s => do
    let (ret, s) ← imxClkInitGate s cell row
    imxClkInitGates cell rows (failed || decide (ret ≠ 0)) s

/-- `fwk_clk_add_provider`. -/
def fwkClkAddProvider (s : Clks) (sprtNode : Nat) (data : FwkClkOneCell) (kzalloc : Nat) :
    Int × Clks :=
  if sprtNode = 0 then (-erNodev, s)
  else if !isValid kzalloc then (-erNomem, s)
  else (erNormal, { s with providers := s.providers ++ [⟨sprtNode, data⟩] })

/-- Before the driver: no clock but the array, which is all zeros, and no provider. -/
def Clks.blank (cell : FwkClkOneCell) (regs : Regs) : Clks where
  regs := regs
  clk sprtClk :=
    if cell.sprtClks ≤ sprtClk ∧ sprtClk < cell.sprtClks + fwkClkSize * cell.clksSize ∧
      (sprtClk - cell.sprtClks) % fwkClkSize = 0 then some FwkClk.zero else none
  core _ := none
  sgrtClks _ := []
  providers := []

/-- `imx_clks_driver_of_init`: its table of gates is `rows`. -/
def imxClksDriverOfInit (cell : FwkClkOneCell) (rows : List GateRow) (sprtNpccm kzalloc : Nat)
    (regs : Regs) : Except Stop (Int × Clks) := do
  let (failed, s) ← imxClkInitGates cell rows false (Clks.blank cell regs)
  if failed then .ok (-erNomem, s) else .ok (fwkClkAddProvider s sprtNpccm cell kzalloc)

/-! ## Fields -/

/-- Bit `k` is in the field `k / 2`. -/
theorem imx6ulCcmCcgrBit_bit (offset k : Nat) :
    (imx6ulCcmCcgrBit offset).getLsbD k = decide (k < 32 ∧ k / 2 = offset) := by
  have hthree : ∀ n, (3#32).getLsbD n = decide (n < 2) := by
    intro n
    match n with
    | 0 | 1 => rfl
    | n + 2 =>
      have hpow : 2 ^ 2 ≤ 2 ^ (n + 2) := Nat.pow_le_pow_right (by decide) (by omega)
      rw [BitVec.getLsbD_ofNat, Nat.testBit_lt_two_pow (by omega)]
      simp
  have hshift : offset <<< 1 = 2 * offset := by rw [Nat.shiftLeft_eq, Nat.pow_one, Nat.mul_comm]
  rw [imx6ulCcmCcgrBit, hshift, BitVec.getLsbD_shiftLeft, hthree, Bool.eq_iff_iff]
  simp only [Bool.and_eq_true, Bool.not_eq_true', decide_eq_true_eq, decide_eq_false_iff_not]
  omega

/-- Two fields have no bit in common. -/
theorem imx6ulCcmCcgrBit_apart {i j : Nat} (h : i ≠ j) :
    imx6ulCcmCcgrBit i &&& imx6ulCcmCcgrBit j = 0#32 := by
  apply BitVec.eq_of_getLsbD_eq
  intro k _
  rw [BitVec.getLsbD_and, imx6ulCcmCcgrBit_bit, imx6ulCcmCcgrBit_bit, BitVec.getLsbD_zero]
  simp only [Bool.and_eq_false_iff, decide_eq_false_iff_not]
  omega

theorem imx6ulCcmCcgrBit_ne_zero {i : Nat} (h : i < 16) : imx6ulCcmCcgrBit i ≠ 0#32 := by
  intro hzero
  have hbit := imx6ulCcmCcgrBit_bit i (2 * i)
  rw [hzero, BitVec.getLsbD_zero] at hbit
  have hin := of_decide_eq_false hbit.symm
  omega

namespace CcgrField

/-- The gate is on: its field is not zero. -/
def On (field : CcgrField) (regs : Regs) : Prop :=
  mrtGetbitl (imx6ulCcmCcgrBit field.bitIdx) field.reg regs ≠ 0#32

instance decidableOn (field : CcgrField) (regs : Regs) : Decidable (field.On regs) :=
  inferInstanceAs (Decidable (_ ≠ _))

/-- The field set. -/
def set (field : CcgrField) (regs : Regs) : Regs :=
  mrtSetbitl (imx6ulCcmCcgrBit field.bitIdx) field.reg regs

/-- The field cleared. -/
def clear (field : CcgrField) (regs : Regs) : Regs :=
  mrtClrbitl (imx6ulCcmCcgrBit field.bitIdx) field.reg regs

/-- Two fields of one register are apart. -/
theorem apart {field other : CcgrField} (h : other ≠ field) (hreg : field.reg = other.reg) :
    imx6ulCcmCcgrBit other.bitIdx &&& imx6ulCcmCcgrBit field.bitIdx = 0#32 := by
  apply imx6ulCcmCcgrBit_apart
  intro hidx
  exact h (CcgrField.ext hreg.symm hidx)

theorem on_set {field other : CcgrField} {regs : Regs} :
    other.On (field.set regs) ↔ other = field ∨ other.On regs := by
  by_cases heq : other = field
  · subst heq
    rw [On, set, getbitl_setbitl_self]
    exact iff_of_true (imx6ulCcmCcgrBit_ne_zero other.within) (Or.inl rfl)
  · rw [On, set, getbitl_setbitl_of_apart (apart heq)]
    exact ⟨Or.inr, fun h => h.resolve_left heq⟩

theorem on_clear {field other : CcgrField} {regs : Regs} :
    other.On (field.clear regs) ↔ other ≠ field ∧ other.On regs := by
  by_cases heq : other = field
  · subst heq
    rw [On, clear, getbitl_clrbitl_self]
    exact iff_of_false (fun h => h rfl) (fun h => h.1 rfl)
  · rw [On, clear, getbitl_clrbitl_of_apart (apart heq)]
    exact ⟨fun h => ⟨heq, h⟩, fun h => h.2⟩

end CcgrField

/-! ## What a call does to the gate of a handle -/

/-- The cores are those of gates, and the gate of each names it. -/
def Clks.Gates (s : Clks) : Prop :=
  ∀ a core, s.core a = some core →
    core.sprtOps = some sgrtImxClksGateOprts ∧ core.sprtHw.sprtCore = a

/-- The field that the calls on a handle act on. -/
def Clks.fieldOf (s : Clks) (sprtClk : Nat) : Option CcgrField :=
  match s.coreOf sprtClk with
  | .error _ => none
  | .ok core => some core.sprtHw.toCcgrField

section Calls

variable {s t : Clks} {sprtClk : Nat} {core : FwkClkCore} {field : CcgrField}

theorem coreOf_ok : s.coreOf sprtClk = .ok core ↔
    ∃ clk, s.clk sprtClk = some clk ∧ s.core clk.sprtCore = some core := by
  unfold Clks.coreOf
  cases hclk : s.clk sprtClk with
  | none => simp
  | some clk =>
    cases hcore : s.core clk.sprtCore with
    | none => simp [hcore]
    | some core' => simp [hcore]

theorem fieldOf_some : s.fieldOf sprtClk = some field ↔
    ∃ core, s.coreOf sprtClk = .ok core ∧ core.sprtHw.toCcgrField = field := by
  unfold Clks.fieldOf
  cases hcore : s.coreOf sprtClk with
  | error stop => simp
  | ok core => simp

theorem Clks.Gates.ops (hs : s.Gates) (hcore : s.coreOf sprtClk = .ok core) :
    core.sprtOps = some sgrtImxClksGateOprts := by
  obtain ⟨clk, -, hat⟩ := coreOf_ok.mp hcore
  exact (hs _ core hat).1

/-- A call whose callback the gates have not does nothing. -/
theorem callOp_none (op : FwkClkOps → Option (FwkClkGate → Regs → Regs)) (hs : s.Gates)
    (hcore : s.coreOf sprtClk = .ok core) (hop : op sgrtImxClksGateOprts = none) :
    s.callOp sprtClk op = .ok s := by
  rw [Clks.callOp, hcore]
  show (match core.sprtOps.bind op with
    | none => Except.ok s
    | some callback => .ok { s with regs := callback core.sprtHw s.regs }) = _
  rw [hs.ops hcore, Option.bind_some, hop]

theorem callOp_some (op : FwkClkOps → Option (FwkClkGate → Regs → Regs))
    (callback : FwkClkGate → Regs → Regs) (hs : s.Gates) (hcore : s.coreOf sprtClk = .ok core)
    (hop : op sgrtImxClksGateOprts = some callback) :
    s.callOp sprtClk op = .ok { s with regs := callback core.sprtHw s.regs } := by
  rw [Clks.callOp, hcore]
  show (match core.sprtOps.bind op with
    | none => Except.ok s
    | some callback => .ok { s with regs := callback core.sprtHw s.regs }) = _
  rw [hs.ops hcore, Option.bind_some, hop]

/-- `fwk_clk_prepare_enable` of a gate sets its field, and that is all. -/
theorem prepareEnable_eq (hs : s.Gates) (hfield : s.fieldOf sprtClk = some field) :
    fwkClkPrepareEnable s sprtClk = .ok { s with regs := field.set s.regs } := by
  obtain ⟨core, hcore, rfl⟩ := fieldOf_some.mp hfield
  have hprepare : fwkClkPrepare s sprtClk = .ok s := callOp_none _ hs hcore rfl
  have henable : fwkClkEnable s sprtClk =
      .ok { s with regs := (imxClksGateEnable core.sprtHw s.regs).2 } :=
    callOp_some _ (fun hw regs => (imxClksGateEnable hw regs).2) hs hcore rfl
  rw [fwkClkPrepareEnable, hprepare]
  exact henable

/-- `fwk_clk_disable_unprepare` of a gate clears its field, whoever else has enabled it. -/
theorem disableUnprepare_eq (hs : s.Gates) (hfield : s.fieldOf sprtClk = some field) :
    fwkClkDisableUnprepare s sprtClk = .ok { s with regs := field.clear s.regs } := by
  obtain ⟨core, hcore, rfl⟩ := fieldOf_some.mp hfield
  have hdisable : fwkClkDisable s sprtClk =
      .ok { s with regs := imxClksGateDisable core.sprtHw s.regs } :=
    callOp_some _ imxClksGateDisable hs hcore rfl
  rw [fwkClkDisableUnprepare, hdisable]
  -- the clocks and the cores are those of before
  have hgates : Clks.Gates { s with regs := core.sprtHw.toCcgrField.clear s.regs } := hs
  exact callOp_none _ hgates hcore rfl

/-- `fwk_clk_is_enabled` of a gate says the opposite of what the gate is. -/
theorem isEnabled_eq (hs : s.Gates) (hfield : s.fieldOf sprtClk = some field) :
    fwkClkIsEnabled s sprtClk = .ok (!decide (field.On s.regs)) := by
  obtain ⟨core, hcore, rfl⟩ := fieldOf_some.mp hfield
  rw [fwkClkIsEnabled, hcore]
  show (match core.sprtOps.bind FwkClkOps.isEnabled with
    | none => Except.ok false
    | some callback => .ok (decide (callback core.sprtHw s.regs = 0))) = _
  rw [hs.ops hcore]
  show Except.ok (decide (imxClksGateIsEnabled core.sprtHw s.regs = 0)) = _
  unfold imxClksGateIsEnabled CcgrField.On
  split <;> simp_all

end Calls

/-! ## What a get and a registration leave -/

/-- From `s` to `t` the clock at `sprtClk`, and no other, was made one of the core at `sprtCore`. -/
structure Configured (s t : Clks) (sprtClk sprtCore : Nat) : Prop where
  self : ∃ clk, t.clk sprtClk = some clk ∧ clk.sprtCore = sprtCore
  other : ∀ q, q ≠ sprtClk → t.clk q = s.clk q
  regs : t.regs = s.regs
  core : t.core = s.core

section Registration

variable {s t : Clks} {hw gate : FwkClkGate} {devId conId : Option (List Char)} {p kzalloc : Nat}

theorem config_ok (h : fwkClkConfig s p hw devId conId = .ok t) :
    Configured s t p hw.sprtCore := by
  unfold fwkClkConfig at h
  cases hclk : s.clk p with
  | none => simp [hclk] at h
  | some clk =>
    rw [hclk] at h
    cases h
    refine ⟨⟨_, Function.update_self .., rfl⟩, fun q hq => ?_, rfl, rfl⟩
    exact Function.update_of_ne hq ..

theorem create_ok (h : fwkCreateClk s hw devId conId kzalloc = .ok (p, t)) :
    (p = 0 ∧ t = s) ∨ (p = kzalloc ∧ isValid p = true ∧ Configured s t p hw.sprtCore) := by
  unfold fwkCreateClk at h
  cases hmem : isValid kzalloc with
  | false =>
    rw [hmem] at h
    cases h
    exact Or.inl ⟨rfl, rfl⟩
  | true =>
    rw [hmem] at h
    obtain ⟨u, hu, hend⟩ := except_bind.mp h
    cases hend
    have hconf := config_ok hu
    obtain ⟨clk, hclk, hcore⟩ := hconf.self
    have hnew : (u.setDynamic p).clk p =
        some { clk with flags := clk.flags ||| nrFwkClkIsDynamic } := by
      show Function.update u.clk p _ p = _
      rw [Function.update_self, hclk, Option.map_some]
    refine Or.inr ⟨rfl, hmem, ⟨_, hnew, hcore⟩, fun q hq => ?_, hconf.regs, hconf.core⟩
    show Function.update u.clk p _ q = s.clk q
    rw [Function.update_of_ne hq, hconf.other q hq]
    exact Function.update_of_ne hq ..

/-- A configured clock acts on the field of its core. -/
theorem Configured.fieldOf {core : FwkClkCore} (h : Configured s t p hw.sprtCore)
    (hcore : s.core hw.sprtCore = some core) : t.fieldOf p = some core.sprtHw.toCcgrField := by
  obtain ⟨clk, hclk, hat⟩ := h.self
  refine fieldOf_some.mpr ⟨core, coreOf_ok.mpr ⟨clk, hclk, ?_⟩, rfl⟩
  rw [hat, h.core, hcore]

/-- The other clocks act on what they acted on. -/
theorem Configured.fieldOf_ne {q c : Nat} (h : Configured s t p c) (hq : q ≠ p) :
    t.fieldOf q = s.fieldOf q := by
  rw [Clks.fieldOf, Clks.fieldOf, Clks.coreOf, Clks.coreOf, h.other q hq, h.core]

/-- **`fwk_clk_get`** returns null and changes nothing, or returns a new clock of a core that is
registered. -/
theorem clkGet_ok {devName : List Char} {spec : Option OfPhandleArgs} {name : Option (List Char)}
    {junk : Nat} (hs : s.Gates) (h : fwkClkGet s devName spec name junk kzalloc = .ok (p, t)) :
    (p = 0 ∧ t = s) ∨
      (p = kzalloc ∧ isValid p = true ∧
        ∃ c field, Configured s t p c ∧ t.fieldOf p = some field) := by
  unfold fwkClkGet at h
  cases spec with
  | none =>
    cases h
    exact Or.inl ⟨rfl, rfl⟩
  | some spec =>
    dsimp only at h
    split at h
    · cases h
      exact Or.inl ⟨rfl, rfl⟩
    · obtain ⟨gate, hgate, hcreate⟩ := except_bind.mp h
      obtain ⟨core, hcore, hend⟩ := except_bind.mp hgate
      cases hend
      rcases create_ok hcreate with hnull | ⟨hp, hvalid, hconf⟩
      · exact Or.inl hnull
      · -- the core of the provider's clock names itself, and so the new clock has it too
        obtain ⟨clk, -, hat⟩ := coreOf_ok.mp hcore
        have hself : s.core core.sprtHw.sprtCore = some core := by rw [(hs _ _ hat).2, hat]
        exact Or.inr ⟨hp, hvalid, _, _, hconf, hconf.fieldOf hself⟩

theorem Clks.Gates.update {a : Nat} {core : FwkClkCore} (hs : s.Gates)
    (ht : t.core = Function.update s.core a (some core))
    (hops : core.sprtOps = some sgrtImxClksGateOprts) (hself : core.sprtHw.sprtCore = a) :
    t.Gates := by
  intro b core' hcore
  rw [ht] at hcore
  by_cases hb : b = a
  · subst hb
    rw [Function.update_self] at hcore
    cases hcore
    exact ⟨hops, hself⟩
  · rw [Function.update_of_ne hb] at hcore
    exact hs b core' hcore

/-- What registers with the callbacks of a gate is a gate. -/
theorem register_gates {init : FwkClkInitData} {mem : RegisterMem} (hs : s.Gates)
    (hops : init.sprtOps = some sgrtImxClksGateOprts)
    (h : fwkClkRegister s init gate mem = .ok (p, t)) : t.Gates := by
  unfold fwkClkRegister at h
  split at h
  · cases h
    exact hs
  · split at h
    · cases h
      exact hs
    · have hadd : ∀ u : Clks, u.core = Function.update s.core mem.core
          (some ⟨init.name, init.sprtOps, { gate with sprtCore := mem.core }, init.parentNames⟩) →
          u.Gates := fun u hu => hs.update hu hops rfl
      dsimp only at h
      split at h
      · obtain ⟨⟨q, u⟩, hcreate, hend⟩ := except_bind.mp h
        dsimp only at hend
        split at hend
        · cases hend
          exact hs
        · cases hend
          have hu : u.Gates := by
            rcases create_ok hcreate with ⟨-, rfl⟩ | ⟨-, -, hconf⟩
            · exact hadd _ rfl
            · exact hadd u hconf.core
          exact hu.update rfl hops rfl
      · obtain ⟨u, hconfig, hend⟩ := except_bind.mp h
        cases hend
        exact hadd t (config_ok hconfig).core

theorem initGates_gates {cell : FwkClkOneCell} {rows : List GateRow} {failed failed' : Bool}
    (hs : s.Gates) (h : imxClkInitGates cell rows failed s = .ok (failed', t)) : t.Gates := by
  induction rows generalizing s failed with
  | nil =>
    cases h
    exact hs
  | cons row rows ih =>
    obtain ⟨⟨ret, u⟩, hrow, hrest⟩ := except_bind.mp h
    refine ih ?_ hrest
    unfold imxClkInitGate fwkClkGateRegister at hrow
    split at hrow
    · cases hrow
      exact hs
    · obtain ⟨⟨q, v⟩, hreg, hend⟩ := except_bind.mp hrow
      cases hend
      split at hreg
      · cases hreg
        exact hs
      · exact register_gates hs rfl hreg

/-- **After the driver's start every core is that of a gate**, whatever its table and whatever the
allocator had. -/
theorem driverOfInit_gates {cell : FwkClkOneCell} {rows : List GateRow} {sprtNpccm : Nat}
    {regs : Regs} {ret : Int}
    (h : imxClksDriverOfInit cell rows sprtNpccm kzalloc regs = .ok (ret, t)) : t.Gates := by
  obtain ⟨⟨failed, s⟩, hinit, hend⟩ := except_bind.mp h
  have hblank : (Clks.blank cell regs).Gates := by
    intro a core hcore
    cases hcore
  have hs := initGates_gates hblank hinit
  dsimp only at hend
  split at hend
  · cases hend
    exact hs
  · unfold fwkClkAddProvider at hend
    split at hend
    · cases hend
      exact hs
    · split at hend
      · cases hend
        exact hs
      · cases hend
        exact hs

end Registration

end HeavenFox.Platform
