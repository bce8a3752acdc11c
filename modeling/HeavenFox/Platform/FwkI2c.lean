/-
# HeavenFox.Platform.FwkI2c -- matching on the I2C bus

A client goes with a driver if the device tree says so, or else if its name is in the id table of
the driver.  `fwk_i2c_device_match` uses the table only if there is one.  `fwk_i2c_device_probe`
looks the name up once more, for the entry that it hands to the driver, and does not test: a driver
without an id table that the device tree has matched makes it read through a null pointer.

`probe_agrees_iff` says that nothing else goes wrong but the search for the client's interrupt.
-/
import HeavenFox.Platform.OfResources

namespace HeavenFox.Platform

open HeavenFox.Logic HeavenFox.Common
open IrqMaps (DescAlloc)

/-! ## Clients and drivers -/

/-- A `struct fwk_i2c_client`: `isClient` is whether the type of its device is
`sgrt_fwk_i2c_client_type`, and `sprtNode` is the node of its device. -/
structure FwkI2cClient where
  addr : UInt16
  name : List Char
  irq : Int
  isClient : Bool
  sprtNode : Option ObjPtr

/-- A `struct fwk_i2c_device_id` of a table, which ends at an entry without a name. -/
structure FwkI2cDeviceId where
  name : List Char
  driverData : Int
  named : name ≠ []
  deriving DecidableEq

/-- A `struct fwk_i2c_driver`: its tables up to the entries that end them, and its `probe`. -/
structure FwkI2cDriver (δ : Type) where
  sprtOfMatchTable : List (OfDeviceId δ)
  sprtIdTable : Option (List FwkI2cDeviceId)
  probe : Option (FwkI2cClient → Option FwkI2cDeviceId → Int)

variable {δ : Type}

/-! ## The calls -/

/-- The loop of `fwk_i2c_match_id`. -/
def matchIdLoop (client : FwkI2cClient) : List FwkI2cDeviceId → Option FwkI2cDeviceId
  | [] => none
  | sprtIdTable :: rest =>
    if client.name = sprtIdTable.name then some sprtIdTable else matchIdLoop client rest

/-- `fwk_i2c_match_id`: the first entry is read without a test. -/
def fwkI2cMatchId (sprtIdTable : Option (List FwkI2cDeviceId)) (client : FwkI2cClient) :
    Except Stop (Option FwkI2cDeviceId) :=
  match sprtIdTable with
  | none => .error .fault
  | some ids => .ok (matchIdLoop client ids)

/-- `fwk_i2c_device_match`. -/
def fwkI2cDeviceMatch (t : DeviceTree) (client : FwkI2cClient) (driver : FwkI2cDriver δ) :
    Except Stop Int :=
  if !client.isClient then .ok (-erCheckerr)
  else do
    let (sprtNp, _) ← t.fwkOfNodeTryMatches client.sprtNode driver.sprtOfMatchTable
    if sprtNp.isSome && decide (client.sprtNode = sprtNp) then pure erNormal
    else if driver.sprtIdTable.isSome then do
      let sprtId ← fwkI2cMatchId driver.sprtIdTable client
      pure (if sprtId.isSome then erNormal else -erNotfound)
    else pure (-erNotfound)

/-- `fwk_of_irq_get`; `fwk_of_irq_parse_one` refuses a null pointer. -/
def fwkOfIrqGet (t : DeviceTree) (sprtNode : Option ObjPtr) (index : Nat)
    (alloc : DescAlloc × Option ObjPtr) (maps : IrqMaps) : Except Stop (Int × IrqMaps) :=
  match sprtNode with
  | none => .ok (-erFaild, maps)
  | some n => fwkIrqOfParseAndMap t n index alloc maps

/-- The client after its interrupt was looked for. -/
def clientIrq (t : DeviceTree) (alloc : DescAlloc × Option ObjPtr) (client : FwkI2cClient)
    (maps : IrqMaps) : Except Stop (FwkI2cClient × IrqMaps) :=
  if client.irq = 0 then do
    let (irq, maps) ← fwkOfIrqGet t client.sprtNode 0 alloc maps
    pure ({ client with irq := if irq < 0 then -1 else irq }, maps)
  else .ok (client, maps)

/-- What a probe leaves; `handed` is what the driver's `probe` was called with. -/
structure I2cProbed where
  retval : Int
  client : FwkI2cClient
  maps : IrqMaps
  handed : List (Option FwkI2cDeviceId)

/-- `fwk_i2c_device_probe`; `sprtDrv` is the driver of the device. -/
def fwkI2cDeviceProbe (t : DeviceTree) (alloc : DescAlloc × Option ObjPtr) (client : FwkI2cClient)
    (sprtDrv : Option (FwkI2cDriver δ)) (maps : IrqMaps) : Except Stop I2cProbed :=
  match sprtDrv with
  | none => .ok ⟨-erFault, client, maps, []⟩
  | some driver => do
    let sprtIdTable ← fwkI2cMatchId driver.sprtIdTable client
    let (client, maps) ← clientIrq t alloc client maps
    match driver.probe with
    | none => pure ⟨erNormal, client, maps, []⟩
    | some probe =>
      let retval := if probe client sprtIdTable ≠ 0 then -erPermit else erNormal
      pure ⟨retval, client, maps, [sprtIdTable]⟩

/-! ## Whether they agree -/

variable {t : DeviceTree} {alloc : DescAlloc × Option ObjPtr} {client : FwkI2cClient}
  {driver : FwkI2cDriver δ} {maps : IrqMaps}

/-- The driver has been told the first entry with the name of the client, or that there is none. -/
def HandsFirst (client : FwkI2cClient) (driver : FwkI2cDriver δ)
    (handed : List (Option FwkI2cDeviceId)) : Prop :=
  handed = driver.probe.toList.map fun _ =>
    (driver.sprtIdTable.getD []).find? fun sprtId => sprtId.name = client.name

/-- The node of the client is compatible with the driver. -/
def TreeMatches (t : DeviceTree) (client : FwkI2cClient) (driver : FwkI2cDriver δ) : Prop :=
  ∃ n sprtMatch, client.sprtNode = some n ∧
    t.fwkOfNodeTryMatches (some n) driver.sprtOfMatchTable = .ok (some n, sprtMatch)

/-- The node of the client is not compatible with the driver. -/
def TreePasses (t : DeviceTree) (client : FwkI2cClient) (driver : FwkI2cDriver δ) : Prop :=
  ∃ sprtNp sprtMatch, t.fwkOfNodeTryMatches client.sprtNode driver.sprtOfMatchTable =
    .ok (sprtNp, sprtMatch) ∧ (sprtNp = none ∨ client.sprtNode ≠ sprtNp)

/-- The id table of the driver has the name of the client. -/
def TableMatches (client : FwkI2cClient) (driver : FwkI2cDriver δ) : Prop :=
  ∃ ids, driver.sprtIdTable = some ids ∧ ∃ sprtId ∈ ids, sprtId.name = client.name

/-- The driver is for the client: the device tree says so, or else the id table. -/
def Suits (t : DeviceTree) (client : FwkI2cClient) (driver : FwkI2cDriver δ) : Prop :=
  client.isClient = true ∧
    (TreeMatches t client driver ∨ TreePasses t client driver ∧ TableMatches client driver)

/-- The interrupt of the client is known, or the search for it returns. -/
def IrqReturns (t : DeviceTree) (alloc : DescAlloc × Option ObjPtr) (client : FwkI2cClient)
    (maps : IrqMaps) : Prop :=
  client.irq = 0 → ∃ result, fwkOfIrqGet t client.sprtNode 0 alloc maps = .ok result

/-- If the pair is accepted then the probe returns and the driver is told the right entry. -/
def ProbeAgrees (t : DeviceTree) (alloc : DescAlloc × Option ObjPtr) (client : FwkI2cClient)
    (driver : FwkI2cDriver δ) (maps : IrqMaps) : Prop :=
  fwkI2cDeviceMatch t client driver = .ok erNormal →
    ∃ probed, fwkI2cDeviceProbe t alloc client (some driver) maps = .ok probed ∧
      HandsFirst client driver probed.handed

theorem matchIdLoop_eq (client : FwkI2cClient) (ids : List FwkI2cDeviceId) :
    matchIdLoop client ids = ids.find? fun sprtId => sprtId.name = client.name := by
  induction ids with
  | nil => rfl
  | cons sprtId rest ih =>
    rw [matchIdLoop, List.find?_cons, ih]
    by_cases hname : client.name = sprtId.name
    · rw [if_pos hname, decide_eq_true hname.symm]
    · rw [if_neg hname, decide_eq_false (Ne.symm hname)]

theorem clientIrq_returns (h : IrqReturns t alloc client maps) :
    ∃ result, clientIrq t alloc client maps = .ok result := by
  unfold clientIrq
  by_cases hirq : client.irq = 0
  · obtain ⟨⟨irq, maps'⟩, hget⟩ := h hirq
    rw [if_pos hirq, hget]
    exact ⟨_, rfl⟩
  · rw [if_neg hirq]
    exact ⟨_, rfl⟩

/-- A probe that returns has seen that search return. -/
theorem irqReturns_of_probe {probed : I2cProbed}
    (h : fwkI2cDeviceProbe t alloc client (some driver) maps = .ok probed) :
    IrqReturns t alloc client maps := by
  intro hirq
  simp only [fwkI2cDeviceProbe, except_bind] at h
  obtain ⟨-, -, ⟨client', maps'⟩, hclient, -⟩ := h
  rw [clientIrq, if_pos hirq, except_bind] at hclient
  obtain ⟨result, hget, -⟩ := hclient
  exact ⟨result, hget⟩

/-- **The probe** of a driver that has an id table. -/
theorem probe_of_table {ids : List FwkI2cDeviceId} (htable : driver.sprtIdTable = some ids)
    (h : IrqReturns t alloc client maps) :
    ∃ probed, fwkI2cDeviceProbe t alloc client (some driver) maps = .ok probed ∧
      HandsFirst client driver probed.handed := by
  obtain ⟨result, hirq⟩ := clientIrq_returns h
  unfold fwkI2cDeviceProbe HandsFirst
  simp only [htable, fwkI2cMatchId, matchIdLoop_eq, hirq, Option.getD_some, bind, Except.bind]
  cases driver.probe with
  | none => exact ⟨_, rfl, rfl⟩
  | some probe => exact ⟨_, rfl, rfl⟩

/-- The probe of one that has none reads address 0 before anything else. -/
theorem probe_of_no_table (htable : driver.sprtIdTable = none) :
    fwkI2cDeviceProbe t alloc client (some driver) maps = .error .fault := by
  simp only [fwkI2cDeviceProbe, htable, fwkI2cMatchId, bind, Except.bind]

/-- The table has the name if the search for it finds an entry. -/
theorem tableMatches_iff {ids : List FwkI2cDeviceId} (htable : driver.sprtIdTable = some ids) :
    TableMatches client driver ↔
      ∃ sprtId, (ids.find? fun sprtId => sprtId.name = client.name) = some sprtId := by
  rw [← Option.isSome_iff_exists, List.find?_isSome]
  simp [TableMatches, htable]

/-- **Matching**: the device tree comes first, and the table is looked through if there is one. -/
theorem deviceMatch_iff :
    fwkI2cDeviceMatch t client driver = .ok erNormal ↔ Suits t client driver := by
  unfold fwkI2cDeviceMatch Suits
  by_cases hclient : client.isClient = true
  swap
  · rw [if_pos (by simpa using hclient)]
    refine iff_of_false (fun h => ?_) fun h => hclient h.1
    cases h
  rw [if_neg (by simp [hclient]), and_iff_right hclient]
  cases htry : t.fwkOfNodeTryMatches client.sprtNode driver.sprtOfMatchTable with
  | error e =>
    refine iff_of_false (fun h => ?_) ?_
    · simp only [bind, Except.bind] at h
      cases h
    · rintro (⟨n, sprtMatch, hnode, hmatch⟩ | ⟨⟨sprtNp, sprtMatch, hmatch, -⟩, -⟩)
      · rw [← hnode, htry] at hmatch
        cases hmatch
      · rw [htry] at hmatch
        cases hmatch
  | ok found =>
    obtain ⟨sprtNp, sprtMatch⟩ := found
    simp only [bind, Except.bind]
    by_cases hnode : (sprtNp.isSome && decide (client.sprtNode = sprtNp)) = true
    · rw [if_pos hnode]
      rw [Bool.and_eq_true, decide_eq_true_eq] at hnode
      obtain ⟨n, rfl⟩ := Option.isSome_iff_exists.mp hnode.1
      refine iff_of_true rfl (Or.inl ⟨n, sprtMatch, hnode.2, ?_⟩)
      rwa [hnode.2] at htry
    · rw [if_neg hnode]
      have hpasses : TreePasses t client driver := by
        refine ⟨sprtNp, sprtMatch, htry, ?_⟩
        cases sprtNp with
        | none => exact Or.inl rfl
        | some n => exact Or.inr (by simpa using hnode)
      have hno : ¬ TreeMatches t client driver := by
        rintro ⟨n, sprtMatch', hn, hmatch⟩
        rw [← hn, htry] at hmatch
        obtain rfl : sprtNp = client.sprtNode := congrArg Prod.fst (Except.ok.inj hmatch)
        exact hnode (by simp [hn])
      rw [or_iff_right hno, and_iff_right hpasses]
      cases htable : driver.sprtIdTable with
      | none => simp [TableMatches, htable, pure, Except.pure, erNotfound, erNormal]
      | some ids =>
        rw [tableMatches_iff htable]
        simp only [Option.isSome_some, if_true, fwkI2cMatchId, matchIdLoop_eq]
        cases ids.find? fun sprtId => sprtId.name = client.name with
        | none => simp [pure, Except.pure, erNotfound, erNormal]
        | some sprtId => simp [pure, Except.pure]

/-- **When matching and probing agree.**  For every device tree, client and driver: a driver that is
for the client has an id table, and the search for the interrupt returns. -/
theorem probe_agrees_iff (t : DeviceTree) (alloc : DescAlloc × Option ObjPtr)
    (client : FwkI2cClient) (driver : FwkI2cDriver δ) (maps : IrqMaps) :
    ProbeAgrees t alloc client driver maps ↔
      (Suits t client driver →
        driver.sprtIdTable.isSome = true ∧ IrqReturns t alloc client maps) := by
  rw [ProbeAgrees, deviceMatch_iff]
  refine imp_congr_right fun _ => ⟨?_, fun h => ?_⟩
  · rintro ⟨probed, hprobe, -⟩
    refine ⟨?_, irqReturns_of_probe hprobe⟩
    cases htable : driver.sprtIdTable with
    | none =>
      rw [probe_of_no_table htable] at hprobe
      cases hprobe
    | some ids => rfl
  · obtain ⟨ids, htable⟩ := Option.isSome_iff_exists.mp h.1
    exact probe_of_table htable h.2

/-- A client with an interrupt, whose node is compatible with a driver that has no id table. -/
def treeOnlyClient : FwkI2cClient :=
  ⟨0x1e, ['a'], 5, true, (listTree threeStringsProp).allNodes.head?⟩

def treeOnlyDriver : FwkI2cDriver Unit :=
  ⟨[⟨cstring "b", none, by decide⟩], none, some fun _ _ => 0⟩

/-- The pair is accepted, and the probe faults. -/
theorem tree_only_driver_faults :
    ¬ ProbeAgrees (listTree threeStringsProp) ((none, []), none) treeOnlyClient treeOnlyDriver
      IrqMaps.start := by
  intro hagrees
  have hstrings : threeStringsProp.Strings [[97], [], [98]] := ⟨by decide, by decide⟩
  have hcompat : (listTree threeStringsProp).fwkOfDeviceIsCompatible
      (some ⟨0x63000, by decide⟩) (cstring "b") = .ok true :=
    fwkOfDeviceIsCompatible_eq (listTree_prop threeStringsProp) hstrings (by decide)
  have htree : TreeMatches (listTree threeStringsProp) treeOnlyClient treeOnlyDriver := by
    refine ⟨⟨0x63000, by decide⟩, some ⟨cstring "b", none, by decide⟩, rfl, ?_⟩
    simp only [DeviceTree.fwkOfNodeTryMatches, treeOnlyDriver, DeviceTree.fwkOfMatchNode, hcompat,
      bind, Except.bind]
    rfl
  obtain ⟨probed, hprobe, -⟩ := hagrees (deviceMatch_iff.mpr ⟨rfl, Or.inl htree⟩)
  rw [probe_of_no_table rfl] at hprobe
  cases hprobe

end HeavenFox.Platform
