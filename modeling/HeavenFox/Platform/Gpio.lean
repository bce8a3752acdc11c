/-
# HeavenFox.Platform.Gpio -- the lines of the GPIO chips

`fwk_gpiodesc.c` and `fwk_gpiochip.c`: a consumer names a line by a specifier in the device tree,
gets it if nobody has it, and puts it back.

The polarity that stands in the specifier is set when the line is looked up, whether or not the
consumer gets it, and nothing clears what stood there before.
-/
import HeavenFox.Common.ErrorTypes
import HeavenFox.Logic.Run

namespace HeavenFox.Platform

open HeavenFox.Common HeavenFox.Logic

/-! ## Chips and lines -/

/-- `enum __ERT_FWK_GPIODESC_FLAGS`. -/
inductive GpioFlag where
  | requested
  | isOut
  | trigFall
  | trigRise
  | activeLow
  | openDrain
  | openSource
  | usedAsIrq
  | isHogged
  deriving DecidableEq, Repr

/-- What is asked of the hardware of a line. -/
inductive GpioMove where
  | output (value : Int)
  | input
  deriving DecidableEq, Repr

/-- A `struct fwk_gpio_desc`, with what was asked of its hardware so far. -/
@[ext]
structure GpioDesc where
  flags : GpioFlag → Bool
  label : Option (List Char)
  moves : List GpioMove

/-- A `struct fwk_gpio_chip` with the default `request`, `free` and `of_xlate`; of its other
callbacks, whether they are there. -/
structure GpioChip where
  sprtNode : Nat
  ngpios : Nat
  ofGpioNCells : Nat
  getDirection : Bool
  directionOutput : Bool
  directionInput : Bool

/-- A `struct fwk_of_phandle_args`. -/
structure OfPhandleArgs where
  sprtNode : Nat
  args : List Nat

/-- What the callbacks of the chip return during a call. -/
structure GpioReplies where
  getDirection : Nat
  directionOutput : Int
  directionInput : Int

namespace GpioDesc

/-- `fwk_gpio_desc_set_flags`. -/
def setFlags (desc : GpioDesc) (flag : GpioFlag) : GpioDesc :=
  { desc with flags := Function.update desc.flags flag true }

/-- `fwk_gpio_desc_clr_flags`. -/
def clrFlags (desc : GpioDesc) (flag : GpioFlag) : GpioDesc :=
  { desc with flags := Function.update desc.flags flag false }

def ask (desc : GpioDesc) (move : GpioMove) : GpioDesc := { desc with moves := desc.moves ++ [move] }

end GpioDesc

/-! ## The default callbacks -/

/-- `fwk_gpiochip_request`. -/
def fwkGpiochipRequest (chip : GpioChip) (offset : Nat) (desc : GpioDesc) : Int × GpioDesc :=
  if chip.ngpios ≤ offset then (-erNodev, desc)
  else if desc.flags .requested then (-erUsed, desc)
  else ((offset : Int).bmod (2 ^ 32), desc.setFlags .requested)

/-- `fwk_gpiochip_free`. -/
def fwkGpiochipFree (chip : GpioChip) (offset : Nat) (desc : GpioDesc) : GpioDesc :=
  if chip.ngpios ≤ offset then desc else { desc with flags := fun _ => false }

/-- `fwk_gpiochip_of_xlate`: the line, and what `*flags` holds then. -/
def fwkGpiochipOfXlate (chip : GpioChip) (spec : OfPhandleArgs) (flags : Nat) : Int × Nat :=
  if spec.sprtNode = 0 then (-erNodev, flags)
  else if chip.sprtNode ≠ spec.sprtNode ∨ chip.ofGpioNCells ≠ spec.args.length then
    (-erCheckerr, flags)
  else
    let base := if spec.args.length = 3 then 1 else 0
    ((spec.args.getD base 0 : Int).bmod (2 ^ 32),
      if spec.args.length > 1 then spec.args.getD (base + 1) 0 else flags)

/-! ## Directions -/

/-- `fwk_gpio_get_direction`. -/
def fwkGpioGetDirection (chip : GpioChip) (re : GpioReplies) (desc : GpioDesc) : Int × GpioDesc :=
  if chip.getDirection then
    if re.getDirection.testBit 1 then (2, desc.setFlags .isOut) else (0, desc.clrFlags .isOut)
  else (-erIoerr, desc)

/-- `fwk_gpio_set_direction`; `out` is the bit `NR_FWK_GPIO_BIT_OUT` of its `dir`. -/
def fwkGpioSetDirection (chip : GpioChip) (re : GpioReplies) (desc : GpioDesc) (out : Bool)
    (value : Int) : GpioDesc :=
  if out && chip.directionOutput then
    if re.directionOutput = 0 then (desc.ask (.output value)).setFlags .isOut
    else desc.ask (.output value)
  else if chip.directionInput then
    if re.directionInput = 0 then (desc.ask .input).clrFlags .isOut else desc.ask .input
  else desc

/-- `fwk_gpio_set_direction_input`. -/
def fwkGpioSetDirectionInput (chip : GpioChip) (re : GpioReplies) (desc : GpioDesc) : GpioDesc :=
  fwkGpioSetDirection chip re desc false 0

/-- `fwk_gpio_set_direction_output`. -/
def fwkGpioSetDirectionOutput (chip : GpioChip) (re : GpioReplies) (desc : GpioDesc) (value : Int) :
    GpioDesc :=
  if value ≠ 0 ∧ desc.flags .openDrain then fwkGpioSetDirectionInput chip re desc
  else if value = 0 ∧ desc.flags .openSource then fwkGpioSetDirectionInput chip re desc
  else
    let value := if desc.flags .activeLow then (if value = 0 then 1 else 0) else value
    fwkGpioSetDirection chip re desc true value

/-! ## Looking up, getting and putting -/

/-- The chips by their addresses, and the global list of them. -/
structure GpioTable where
  chip : Nat → GpioChip
  list : List Nat

/-- The lines of the chips. -/
abbrev GpioLines := Nat → Nat → GpioDesc

/-- After `fwk_gpiochip_add` of every chip. -/
def GpioLines.start : GpioLines := fun _ _ => ⟨fun flag => flag = .isOut, none, []⟩

def GpioLines.set (s : GpioLines) (c offset : Nat) (desc : GpioDesc) : GpioLines :=
  Function.update s c (Function.update (s c) offset desc)

@[simp]
theorem GpioLines.set_self (s : GpioLines) (c offset : Nat) (desc : GpioDesc) :
    s.set c offset desc c offset = desc := by
  simp [GpioLines.set]

theorem GpioLines.set_ne (s : GpioLines) {c c' offset offset' : Nat} (desc : GpioDesc)
    (h : ¬ (c' = c ∧ offset' = offset)) : s.set c offset desc c' offset' = s c' offset' := by
  by_cases hc : c' = c
  · subst hc
    have hoffset : offset' ≠ offset := fun heq => h ⟨rfl, heq⟩
    simp [GpioLines.set, hoffset]
  · simp [GpioLines.set, hc]

@[simp]
theorem GpioLines.set_set (s : GpioLines) (c offset : Nat) (desc desc' : GpioDesc) :
    (s.set c offset desc).set c offset desc' = s.set c offset desc' := by
  simp [GpioLines.set]

/-- `fwk_gpiochip_and_desc_find`: the chip, the line and its flags; `flags` is what the local variable
held before. -/
def fwkGpiochipAndDescFind (cfg : GpioTable) (spec : OfPhandleArgs) :
    Nat → List Nat → Option (Nat × Nat × Nat)
  | _, [] => none
  | flags, c :: rest =>
    let (gpio, flags) := fwkGpiochipOfXlate (cfg.chip c) spec flags
    if gpio < 0 then fwkGpiochipAndDescFind cfg spec flags rest
    -- `fwk_gpiochip_get_desc`
    else if gpio.toNat < (cfg.chip c).ngpios then some (c, gpio.toNat, flags) else none

/-- The bits of `enum __ERT_FWK_GPIO_DT_FLAG` as flags of a line. -/
def dtFlag (flags : Nat) : GpioFlag → Bool
  | .activeLow => flags.testBit 0
  | .openDrain => flags.testBit 1
  | .openSource => flags.testBit 2
  | _ => false

/-- The end of `fwk_of_get_named_gpiodesc_flags`: the polarity of the specifier is set. -/
def GpioDesc.setDtFlags (desc : GpioDesc) (flags : Nat) : GpioDesc :=
  let desc := if flags.testBit 0 then desc.setFlags .activeLow else desc
  let desc := if flags.testBit 1 then desc.setFlags .openDrain else desc
  if flags.testBit 2 then desc.setFlags .openSource else desc

/-- `fwk_of_get_named_gpiodesc_flags`. -/
def fwkOfGetNamedGpiodescFlags (cfg : GpioTable) (s : GpioLines) (spec : Option OfPhandleArgs)
    (junk : Nat) : Option (Nat × Nat) × GpioLines :=
  match spec with
  | none => (none, s)
  | some spec =>
    match fwkGpiochipAndDescFind cfg spec junk cfg.list with
    | none => (none, s)
    | some (c, offset, flags) =>
      (some (c, offset), s.set c offset ((s c offset).setDtFlags flags))

/-- `fwk_gpio_request`. -/
def fwkGpioRequest (chip : GpioChip) (re : GpioReplies) (offset : Nat) (desc : GpioDesc)
    (label : List Char) : Int × GpioDesc :=
  let (retval, desc) := fwkGpiochipRequest chip offset desc
  if retval < 0 then (retval, desc)
  else
    let (retval, desc) := fwkGpioGetDirection chip re { desc with label := some label }
    if retval < 0 then (retval, desc) else (erNormal, desc)

/-- `fwk_gpio_free`. -/
def fwkGpioFree (chip : GpioChip) (offset : Nat) (desc : GpioDesc) : GpioDesc :=
  { fwkGpiochipFree chip offset desc with label := none }.setFlags .isOut

/-- The end of `fwk_gpio_desc_get`: the direction that is asked for. -/
def getDirectionFlags (chip : GpioChip) (re : GpioReplies) (desc : GpioDesc) (flags : Nat) :
    GpioDesc :=
  if !flags.testBit 0 then desc
  else if flags.testBit 1 then fwkGpioSetDirectionOutput chip re desc (flags &&& 4 : Nat)
  else fwkGpioSetDirectionInput chip re desc

/-- `fwk_gpio_desc_get` of a device; `spec` is what the specifier in its property reads as, and `junk`
what a local variable holds that is not initialised. -/
def fwkGpioDescGet (cfg : GpioTable) (re : GpioReplies) (s : GpioLines)
    (spec : Option OfPhandleArgs) (junk : Nat) (conId : Option (List Char)) (flags : Nat) :
    Option (Nat × Nat) × GpioLines :=
  match conId with
  | none => (none, s)
  | some conId =>
    match fwkOfGetNamedGpiodescFlags cfg s spec junk with
    | (none, s) => (none, s)
    | (some (c, offset), s) =>
      let (retval, desc) := fwkGpioRequest (cfg.chip c) re offset (s c offset) conId
      if retval ≠ 0 then (none, s.set c offset desc)
      else (some (c, offset), s.set c offset (getDirectionFlags (cfg.chip c) re desc flags))

/-- `fwk_gpio_desc_put`. -/
def fwkGpioDescPut (cfg : GpioTable) (re : GpioReplies) (s : GpioLines) (c offset : Nat) :
    GpioLines :=
  let desc := fwkGpioFree (cfg.chip c) offset (s c offset)
  s.set c offset ((fwkGpioSetDirectionOutput (cfg.chip c) re desc 0).setFlags .activeLow)

end HeavenFox.Platform
