/-
# HeavenFox.Drivers.Tsc2007 -- the touch filter of `tsc2007.c`

`tsc2007_touch_half_isr` takes six samples, leaves out the greatest and the least of each axis and
averages the other four.  The running minimum of `y` is fed with the samples of `x`, so what is left
out of the sum of `y` is the least `x`; the difference wraps around if that is too large.  The `x`
it stores is right, and the `y` is right only where the least `x` has the same effect as the least
`y` (`touch_filter_iff`).
-/
import HeavenFox.Common.ErrorTypes
import HeavenFox.Logic.Memory32
import HeavenFox.Logic.TrimmedMean
import Mathlib.Data.UInt

namespace HeavenFox.Drivers

open HeavenFox.Common HeavenFox.Logic

/-! ## Reading the chip -/

/-- `TSC_MAX_12BIT` -/
def tscMax12bit : Nat := 4096

/-- `TSC_INDEX_READ_X` -/
def tscIndexReadX : UInt8 := 0xc4

/-- `TSC_INDEX_READ_Y` -/
def tscIndexReadY : UInt8 := 0xd4

/-- `TSC_INDEX_READ_Z1` -/
def tscIndexReadZ1 : UInt8 := 0xe4

/-- `TSC_INDEX_READ_Z2` -/
def tscIndexReadZ2 : UInt8 := 0xf4

/-- `struct tsc2007_data`, without its pointer back. -/
structure Tsc2007Data where
  x : Nat
  y : Nat
  z1 : Nat
  z2 : Nat
  pressure : Nat
  xMax : Nat
  yMax : Nat
  deriving DecidableEq, Repr

/-- `struct tsc2007_drv_info`: what the filter uses of it. -/
structure Tsc2007DrvInfo where
  plateOhms : Nat
  sgrtData : Tsc2007Data
  isTouch : Bool
  isCanRead : Bool
  deriving DecidableEq, Repr

/-- What the filter calls, by the number of the sample: `fwk_gpio_get_value`, and the result of
`fwk_i2c_transfer` with the two bytes that it reads from a register. -/
structure TouchEnv where
  getValue : Nat → Int
  transfer : Nat → UInt8 → Int × UInt16

/-- `TO_CONVERT_BYTE16` -/
def toConvertByte16 (x : UInt16) : UInt16 := ((x &&& 0x00ff) <<< 8) ||| ((x &&& 0xff00) >>> 8)

/-- `tsc2007_read_value` -/
def tsc2007ReadValue (env : TouchEnv) (sample : Nat) (reg : UInt8) : Nat :=
  let (retval, value) := env.transfer sample reg
  if retval ≠ 0 then tscMax12bit + 1 else (toConvertByte16 value >>> 4).toNat

/-- The pressure of `tsc2007_read_ad_value`, in 32 bits. -/
def touchPressure (plateOhms x z1 z2 : Nat) : Nat :=
  if z1 > 10 ∧ z2 < tscMax12bit - 10 then
    add32 (sub32 z2 z1 * x % 2 ^ 32 * plateOhms % 2 ^ 32 / z1) 2047 >>> 12
  else 0

/-- `tsc2007_read_ad_value`; what it reads last, to stop the converter, is not used. -/
def tsc2007ReadAdValue (env : TouchEnv) (sample plateOhms : Nat) (data : Tsc2007Data) :
    Bool × Tsc2007Data :=
  let data := { data with
    pressure := 0
    x := tsc2007ReadValue env sample tscIndexReadX
    y := tsc2007ReadValue env sample tscIndexReadY
    z1 := tsc2007ReadValue env sample tscIndexReadZ1
    z2 := tsc2007ReadValue env sample tscIndexReadZ2 }
  if data.x ≥ tscMax12bit ∨ data.y ≥ tscMax12bit then (false, data)
  else if data.z1 ≥ tscMax12bit ∨ data.z2 ≥ tscMax12bit then (false, data)
  else (true, { data with pressure := touchPressure plateOhms data.x data.z1 data.z2 })

/-- `tsc2007_initial` -/
def tsc2007Initial (data : Tsc2007Data) : Tsc2007Data :=
  { data with
    pressure := 0
    xMax := tscMax12bit
    yMax := tscMax12bit
    x := tscMax12bit
    y := tscMax12bit }

/-! ## The filter -/

/-- A difference kept in 16 bits. -/
def sub16 (a b : Nat) : Nat := (((a : Int) - b) % 2 ^ 16).toNat

/-- The sums, the running maxima and the running minima. -/
structure TouchSums where
  xValue : Nat
  yValue : Nat
  xMaxValue : Nat
  yMaxValue : Nat
  xMinValue : Nat
  yMinValue : Nat
  deriving DecidableEq, Repr

/-- One sample.  The minimum of `y` gets the `x` of the sample. -/
def TouchSums.add (s : TouchSums) (data : Tsc2007Data) : TouchSums where
  xValue := (s.xValue + data.x) % 2 ^ 16
  yValue := (s.yValue + data.y) % 2 ^ 16
  xMaxValue := if s.xMaxValue < data.x then data.x else s.xMaxValue
  yMaxValue := if s.yMaxValue < data.y then data.y else s.yMaxValue
  xMinValue := if s.xMinValue > data.x then data.x else s.xMinValue
  yMinValue := if s.yMinValue > data.x then data.x else s.yMinValue

/-- The loop of `tsc2007_touch_half_isr`; without sums it has gone to `fail`. -/
def sampleLoop (env : TouchEnv) : Nat → Nat → Tsc2007DrvInfo → TouchSums →
    Tsc2007DrvInfo × Option TouchSums
  | 0, _, info, sums => (info, some sums)
  | rounds + 1, sample, info, sums =>
    let info := { info with isTouch := decide (env.getValue sample ≠ 0) }
    if !info.isTouch then (info, none)
    else
      let (success, data) := tsc2007ReadAdValue env sample info.plateOhms info.sgrtData
      let info := { info with sgrtData := data }
      if !success then (info, none)
      else if data.pressure = 0 then (info, none)
      else sampleLoop env rounds (sample + 1) info (sums.add data)

/-- `tsc2007_touch_half_isr` -/
def tsc2007TouchHalfIsr (env : TouchEnv) (info : Tsc2007DrvInfo) : Tsc2007DrvInfo :=
  let sums : TouchSums := ⟨0, 0, 0, 0, info.sgrtData.xMax, info.sgrtData.yMax⟩
  match sampleLoop env 6 0 info sums with
  | (info, some s) =>
    { info with
      sgrtData := { info.sgrtData with
        x := sub16 s.xValue (s.xMaxValue + s.xMinValue) >>> 2
        y := sub16 s.yValue (s.yMaxValue + s.yMinValue) >>> 2 }
      isCanRead := true }
  | (info, none) => { info with sgrtData := { info.sgrtData with x := 0, y := 0 } }

/-! ## What the loop leaves -/

/-- The samples that were read from a register. -/
def TouchEnv.read (env : TouchEnv) (reg : UInt8) (count : Nat) : List Nat :=
  (List.range count).map fun sample => tsc2007ReadValue env sample reg

theorem TouchEnv.read_succ (env : TouchEnv) (reg : UInt8) (count : Nat) :
    env.read reg (count + 1) = env.read reg count ++ [tsc2007ReadValue env count reg] := by
  rw [TouchEnv.read, List.range_succ, List.map_append]
  rfl

/-- The pin is set, the values have twelve bits, and there is pressure. -/
structure TouchEnv.Good (env : TouchEnv) (plateOhms sample : Nat) : Prop where
  touch : env.getValue sample ≠ 0
  x : tsc2007ReadValue env sample tscIndexReadX < tscMax12bit
  y : tsc2007ReadValue env sample tscIndexReadY < tscMax12bit
  z1 : tsc2007ReadValue env sample tscIndexReadZ1 < tscMax12bit
  z2 : tsc2007ReadValue env sample tscIndexReadZ2 < tscMax12bit
  pressure : touchPressure plateOhms (tsc2007ReadValue env sample tscIndexReadX)
    (tsc2007ReadValue env sample tscIndexReadZ1) (tsc2007ReadValue env sample tscIndexReadZ2) ≠ 0

/-- The device is open: `tsc2007_initial` has set the limits. -/
def Tsc2007Data.Opened (data : Tsc2007Data) : Prop :=
  data.xMax = tscMax12bit ∧ data.yMax = tscMax12bit

theorem tsc2007Initial_opened (data : Tsc2007Data) : (tsc2007Initial data).Opened := ⟨rfl, rfl⟩

/-- The sums, maxima and minima of the first samples. -/
def TouchEnv.sums (env : TouchEnv) (count : Nat) : TouchSums where
  xValue := (env.read tscIndexReadX count).sum % 2 ^ 16
  yValue := (env.read tscIndexReadY count).sum % 2 ^ 16
  xMaxValue := (env.read tscIndexReadX count).foldl max 0
  yMaxValue := (env.read tscIndexReadY count).foldl max 0
  xMinValue := (env.read tscIndexReadX count).foldl min tscMax12bit
  yMinValue := (env.read tscIndexReadX count).foldl min tscMax12bit

/-- **One sample** goes to the sums. -/
theorem TouchEnv.sums_succ (env : TouchEnv) (count : Nat) (data : Tsc2007Data)
    (hx : data.x = tsc2007ReadValue env count tscIndexReadX)
    (hy : data.y = tsc2007ReadValue env count tscIndexReadY) :
    (env.sums count).add data = env.sums (count + 1) := by
  have hmax : ∀ a b : Nat, (if a < b then b else a) = max a b := fun a b => by
    split <;> omega
  have hmin : ∀ a b : Nat, (if a > b then b else a) = min a b := fun a b => by
    split <;> omega
  simp only [TouchSums.add, TouchEnv.sums, TouchEnv.read_succ, List.sum_append, List.foldl_append,
    List.sum_singleton, List.foldl_cons, List.foldl_nil, hmax, hmin, hx, hy, Nat.mod_add_mod]

/-- A good sample is taken, and the limits stay. -/
theorem TouchEnv.Good.readAdValue {env : TouchEnv} {plateOhms sample : Nat}
    (h : env.Good plateOhms sample) (data : Tsc2007Data) :
    ∃ data', tsc2007ReadAdValue env sample plateOhms data = (true, data') ∧
      data'.x = tsc2007ReadValue env sample tscIndexReadX ∧
      data'.y = tsc2007ReadValue env sample tscIndexReadY ∧ data'.pressure ≠ 0 := by
  have hxy := not_or.mpr ⟨not_le.mpr h.x, not_le.mpr h.y⟩
  have hz := not_or.mpr ⟨not_le.mpr h.z1, not_le.mpr h.z2⟩
  refine ⟨{ data with
    x := tsc2007ReadValue env sample tscIndexReadX
    y := tsc2007ReadValue env sample tscIndexReadY
    z1 := tsc2007ReadValue env sample tscIndexReadZ1
    z2 := tsc2007ReadValue env sample tscIndexReadZ2
    pressure := touchPressure plateOhms (tsc2007ReadValue env sample tscIndexReadX)
      (tsc2007ReadValue env sample tscIndexReadZ1)
      (tsc2007ReadValue env sample tscIndexReadZ2) }, ?_, rfl, rfl, h.pressure⟩
  simp only [tsc2007ReadAdValue, ge_iff_le, if_neg hxy, if_neg hz]

/-- **The loop.**  While the samples are good, it goes on with their sums. -/
theorem sampleLoop_good {env : TouchEnv} (rounds sample : Nat) {info : Tsc2007DrvInfo}
    (h : ∀ i < sample + rounds, env.Good info.plateOhms i) :
    ∃ info', sampleLoop env rounds sample info (env.sums sample) =
      (info', some (env.sums (sample + rounds))) := by
  induction rounds generalizing sample info with
  | zero => exact ⟨info, rfl⟩
  | succ rounds ih =>
    have hgood := h sample (by omega)
    obtain ⟨data, hread, hx, hy, hpressure⟩ := hgood.readAdValue info.sgrtData
    obtain ⟨info', hrest⟩ := @ih (sample + 1)
      { info with isTouch := decide (env.getValue sample ≠ 0), sgrtData := data }
      fun i hi => h i (by omega)
    refine ⟨info', ?_⟩
    rw [sampleLoop]
    simp only [hgood.touch, ne_eq, not_false_eq_true, decide_true, Bool.not_true, hread,
      Bool.false_eq_true, if_false, hpressure, env.sums_succ sample data hx hy] at hrest ⊢
    rw [hrest, Nat.add_right_comm, Nat.add_assoc]

/-! ## What is stored -/

/-- The stored value is the mean without the greatest and the least sample, and lies between them.
-/
def Filtered (samples : List Nat) (h : samples ≠ []) (stored : Nat) : Prop :=
  stored = trimmedSum samples h / 4 ∧ samples.min h ≤ stored ∧ stored ≤ samples.max h

instance (samples : List Nat) (h : samples ≠ []) (stored : Nat) :
    Decidable (Filtered samples h stored) := inferInstanceAs (Decidable (_ ∧ _ ∧ _))

theorem TouchEnv.read_ne_nil (env : TouchEnv) (reg : UInt8) : env.read reg 6 ≠ [] :=
  List.cons_ne_nil _ _

theorem filtered_iff {samples : List Nat} (h : samples ≠ []) (hlength : samples.length = 6)
    (stored : Nat) : Filtered samples h stored ↔ stored = trimmedSum samples h / 4 := by
  have hbounds := trimmedMean_bounds (n := 4) h hlength (by decide)
  exact ⟨And.left, fun heq => ⟨heq, heq ▸ hbounds⟩⟩

/-- Both axes are stored as they should be, from six samples. -/
def FiltersTouch (env : TouchEnv) (info : Tsc2007DrvInfo) : Prop :=
  Filtered (env.read tscIndexReadX 6) (env.read_ne_nil _)
      (tsc2007TouchHalfIsr env info).sgrtData.x ∧
    Filtered (env.read tscIndexReadY 6) (env.read_ne_nil _)
      (tsc2007TouchHalfIsr env info).sgrtData.y

instance (env : TouchEnv) (info : Tsc2007DrvInfo) : Decidable (FiltersTouch env info) :=
  inferInstanceAs (Decidable (_ ∧ _))

/-- The least `x` fits into what is left of the sum of `y`, and gives the same quotient there as the
least `y`. -/
def TouchEnv.LeastFits (env : TouchEnv) : Prop :=
  (env.read tscIndexReadX 6).min (env.read_ne_nil _) ≤
      (env.read tscIndexReadY 6).sum - (env.read tscIndexReadY 6).max (env.read_ne_nil _) ∧
    ((env.read tscIndexReadY 6).sum - (env.read tscIndexReadY 6).max (env.read_ne_nil _) -
        (env.read tscIndexReadX 6).min (env.read_ne_nil _)) / 4 =
      trimmedSum (env.read tscIndexReadY 6) (env.read_ne_nil _) / 4

/-- What is stored of an axis from the sum and the maximum of its samples and some minimum. -/
def storedOf (samples : List Nat) (h : samples ≠ []) (least : Nat) : Nat :=
  sub16 samples.sum (samples.max h + least) >>> 2

/-- A minimum that is not greater than the rest of the sum is left out; otherwise the difference
wraps around to a value that no samples have. -/
theorem storedOf_cases {samples : List Nat} (h : samples ≠ []) (hlength : samples.length = 6)
    (hsmall : ∀ a ∈ samples, a < tscMax12bit) {least : Nat} (hleast : least < tscMax12bit) :
    (least ≤ samples.sum - samples.max h ∧
        storedOf samples h least = (samples.sum - samples.max h - least) / 4) ∨
      (samples.sum - samples.max h < least ∧ tscMax12bit ≤ storedOf samples h least) := by
  have hmax := max_le_sum h
  have hsum : samples.sum ≤ samples.length • 4095 :=
    List.sum_le_card_nsmul samples 4095 fun a ha => Nat.le_of_lt_succ (hsmall a ha)
  rw [hlength, smul_eq_mul] at hsum
  unfold tscMax12bit at hleast ⊢
  rw [storedOf, sub16, Nat.shiftRight_eq_div_pow]
  by_cases hle : least ≤ samples.sum - samples.max h
  · exact Or.inl ⟨hle, by omega⟩
  · exact Or.inr ⟨Nat.lt_of_not_le hle, by omega⟩

section Isr

variable {env : TouchEnv} {info : Tsc2007DrvInfo}

/-- The values of six good samples have twelve bits. -/
theorem read_lt (reg : UInt8) (h : ∀ i < 6, tsc2007ReadValue env i reg < tscMax12bit) :
    ∀ a ∈ env.read reg 6, a < tscMax12bit := by
  intro a ha
  obtain ⟨i, hi, rfl⟩ := List.mem_map.mp ha
  exact h i (List.mem_range.mp hi)

/-- The running minimum, which starts above all samples, ends with the least of them. -/
theorem foldl_min_read (reg : UInt8) (h : ∀ i < 6, tsc2007ReadValue env i reg < tscMax12bit) :
    (env.read reg 6).foldl min tscMax12bit = (env.read reg 6).min (env.read_ne_nil reg) := by
  rw [List.foldl_min_eq_min (env.read_ne_nil reg)]
  exact Nat.min_eq_right (read_lt reg h _ (List.min_mem _)).le

/-- **What is stored.**  Both axes are reduced by the least sample of `x`. -/
theorem tsc2007TouchHalfIsr_stored (hopen : info.sgrtData.Opened)
    (hgood : ∀ i < 6, env.Good info.plateOhms i) :
    (tsc2007TouchHalfIsr env info).sgrtData.x =
        storedOf (env.read tscIndexReadX 6) (env.read_ne_nil _)
          ((env.read tscIndexReadX 6).min (env.read_ne_nil _)) ∧
      (tsc2007TouchHalfIsr env info).sgrtData.y =
        storedOf (env.read tscIndexReadY 6) (env.read_ne_nil _)
          ((env.read tscIndexReadX 6).min (env.read_ne_nil _)) := by
  have hstart : env.sums 0 = ⟨0, 0, 0, 0, info.sgrtData.xMax, info.sgrtData.yMax⟩ := by
    rw [hopen.1, hopen.2]
    rfl
  obtain ⟨info', hloop⟩ := sampleLoop_good 6 0 (by simpa using hgood)
  have hmax : ∀ reg, (env.read reg 6).foldl max 0 = (env.read reg 6).max (env.read_ne_nil reg) :=
    fun reg => by rw [List.foldl_max_eq_max (env.read_ne_nil reg), Nat.zero_max]
  have hmin := foldl_min_read tscIndexReadX fun i hi => (hgood i hi).x
  have hsub : ∀ a b : Nat, sub16 (a % 2 ^ 16) b = sub16 a b := fun a b => by
    unfold sub16
    omega
  rw [tsc2007TouchHalfIsr, ← hstart, hloop]
  simp only [Nat.zero_add, TouchEnv.sums, hmax, hmin, hsub]
  exact ⟨rfl, rfl⟩

/-- **When the filter is right.**  The `x` is the mean of its four middle samples, and the `y` is
that of its own exactly if the least sample of `x` does what the least of `y` would. -/
theorem touch_filter_iff (hopen : info.sgrtData.Opened)
    (hgood : ∀ i < 6, env.Good info.plateOhms i) : FiltersTouch env info ↔ env.LeastFits := by
  obtain ⟨hx, hy⟩ := tsc2007TouchHalfIsr_stored hopen hgood
  have hxs := read_lt tscIndexReadX fun i hi => (hgood i hi).x
  have hys := read_lt tscIndexReadY fun i hi => (hgood i hi).y
  have hleast := hxs _ (List.min_mem (env.read_ne_nil _))
  rw [FiltersTouch, TouchEnv.LeastFits, hx, hy, filtered_iff _ rfl, filtered_iff _ rfl]
  -- the least `x` is left out of the sum of `x`
  have hright : storedOf (env.read tscIndexReadX 6) (env.read_ne_nil _)
      ((env.read tscIndexReadX 6).min (env.read_ne_nil _)) =
        trimmedSum (env.read tscIndexReadX 6) (env.read_ne_nil _) / 4 := by
    have hroom := min_le_sum_sub_max (env.read_ne_nil tscIndexReadX)
    have hlength : (env.read tscIndexReadX 6).length = 6 := rfl
    rw [hlength] at hroom
    rcases storedOf_cases (env.read_ne_nil _) rfl hxs hleast with ⟨-, heq⟩ | ⟨hless, -⟩
    · exact heq
    · omega
  rw [and_iff_right hright]
  have hbound := hys _ (List.max_mem (env.read_ne_nil _))
  have hmean := (trimmedMean_bounds (n := 4) (env.read_ne_nil tscIndexReadY) rfl (by decide)).2
  rcases storedOf_cases (env.read_ne_nil tscIndexReadY) rfl hys hleast with
    ⟨hle, heq⟩ | ⟨hless, hlarge⟩
  · rw [heq, and_iff_right hle]
  · -- the difference has wrapped around
    constructor
    · intro h
      omega
    · rintro ⟨hle, -⟩
      omega

end Isr

/-- An environment in which all samples are the same, with 1000 and 2000 for the pressure. -/
def steadyTouch (x y : UInt16) : TouchEnv where
  getValue := fun _ => 1
  transfer := fun _ reg =>
    if reg = tscIndexReadX then (0, toConvertByte16 (x <<< 4))
    else if reg = tscIndexReadY then (0, toConvertByte16 (y <<< 4))
    else if reg = tscIndexReadZ1 then (0, toConvertByte16 (1000 * 16))
    else (0, toConvertByte16 (2000 * 16))

/-- The driver after `tsc2007_driver_open`, with a plate of 660 ohms. -/
def openedTouch : Tsc2007DrvInfo :=
  ⟨660, tsc2007Initial ⟨0, 0, 0, 0, 0, 0, 0⟩, false, false⟩

theorem steadyTouch_good {x y : UInt16} {plateOhms : Nat}
    (h : (steadyTouch x y).Good plateOhms 0) (sample : Nat) :
    (steadyTouch x y).Good plateOhms sample :=
  ⟨h.touch, h.x, h.y, h.z1, h.z2, h.pressure⟩

/-- Six different samples of each axis: 2000 is the least `x`, and 2001 the least `y`. -/
def trembles : List UInt16 × List UInt16 :=
  ([2012, 2003, 2025, 2000, 2007, 2018], [2009, 2014, 2001, 2019, 2005, 2002])

def tremblingTouch : TouchEnv where
  getValue := fun _ => 1
  transfer := fun sample reg =>
    if reg = tscIndexReadX then
      (0, toConvertByte16 (trembles.1.getD sample 0 <<< 4))
    else if reg = tscIndexReadY then
      (0, toConvertByte16 (trembles.2.getD sample 0 <<< 4))
    else (steadyTouch 0 0).transfer sample reg

theorem tremblingTouch_good : ∀ sample < 6, tremblingTouch.Good openedTouch.plateOhms sample := by
  have hgood : ∀ sample < 6, tremblingTouch.getValue sample ≠ 0 ∧
      (∀ reg ∈ [tscIndexReadX, tscIndexReadY, tscIndexReadZ1, tscIndexReadZ2],
        tsc2007ReadValue tremblingTouch sample reg < tscMax12bit) ∧
      touchPressure openedTouch.plateOhms (tsc2007ReadValue tremblingTouch sample tscIndexReadX)
        (tsc2007ReadValue tremblingTouch sample tscIndexReadZ1)
        (tsc2007ReadValue tremblingTouch sample tscIndexReadZ2) ≠ 0 := by
    decide +kernel
  intro sample hsample
  obtain ⟨htouch, hvalues, hpressure⟩ := hgood sample hsample
  exact ⟨htouch, hvalues _ (by simp), hvalues _ (by simp), hvalues _ (by simp),
    hvalues _ (by simp), hpressure⟩

/-- A touch near the diagonal: the `y` stored is the mean of 2009, 2014, 2005 and 2002. -/
theorem touch_filter_iff_diagonal :
    FiltersTouch tremblingTouch openedTouch ↔ tremblingTouch.LeastFits :=
  touch_filter_iff (tsc2007Initial_opened _) tremblingTouch_good

/-- A touch at (3000, 100): 3000 is taken off 500, and the `y` stored is 15759. -/
theorem y_is_reduced_by_x : (∀ i < 6, (steadyTouch 3000 100).Good openedTouch.plateOhms i) ∧
    (tsc2007TouchHalfIsr (steadyTouch 3000 100) openedTouch).sgrtData.y = 15759 ∧
    ¬ FiltersTouch (steadyTouch 3000 100) openedTouch :=
  ⟨fun i _ => steadyTouch_good ⟨by decide, by decide, by decide, by decide, by decide, by decide⟩ i,
    by decide, by decide⟩

end HeavenFox.Drivers
