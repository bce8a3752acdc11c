/-
# HeavenFox.Platform.OfDevice -- platform devices of a device tree

`fwk_of_platform_populate` makes platform devices of the nodes of a device tree: of the children of
the root that are compatible with something and available, and of the children of those that are
buses.  One flag of a node says that it has a device, another one that its children have been
visited; nothing of the table of buses keeps a node from being visited twice.

`populate_eq` says what a first run does, whatever it meets: it makes the devices of the nodes that
are eligible, one after another.  A second run does nothing.  What can go wrong is the interrupts
of a node, whose reading may not return: `platform_populate_iff`.
-/
import HeavenFox.Logic.TreeWalk
import HeavenFox.Platform.OfResources

namespace HeavenFox.Platform

open HeavenFox.Logic HeavenFox.Common
open IrqMaps (DescAlloc)

/-! ## Nodes and their children -/

/-- From `first` on the links lead through these nodes, and end behind them. -/
def Siblings (sibling : ObjPtr → Option ObjPtr) : Option ObjPtr → List ObjPtr → Prop
  | first, [] => first = none
  | first, n :: rest => first = some n ∧ Siblings sibling (sibling n) rest

/-- **A loop along the links** with rounds enough: one for each node, and one to find the end. -/
theorem Siblings.loop {sibling : ObjPtr → Option ObjPtr}
    {motive : Nat → Option ObjPtr → List ObjPtr → Prop}
    (leave : ∀ rounds, motive (rounds + 1) none [])
    (round : ∀ rounds n nodes, motive rounds (sibling n) nodes →
      motive (rounds + 1) (some n) (n :: nodes))
    {rounds : Nat} {first : Option ObjPtr} {nodes : List ObjPtr}
    (hlink : Siblings sibling first nodes) (hrounds : nodes.length < rounds) :
    motive rounds first nodes := by
  induction nodes generalizing first rounds with
  | nil =>
    obtain ⟨left, rfl⟩ : ∃ left, rounds = left + 1 := ⟨rounds - 1, by omega⟩
    rw [show first = none from hlink]
    exact leave left
  | cons n nodes ih =>
    obtain ⟨rfl, hrest⟩ := hlink
    obtain ⟨left, rfl⟩ : ∃ left, rounds = left + 1 := ⟨rounds - 1, by omega⟩
    exact round left n nodes (ih hrest (Nat.lt_of_succ_lt_succ hrounds))

/-- The children of a node, in the order of the tree. -/
def DeviceTree.childrenOf (t : DeviceTree) (n : ObjPtr) : List ObjPtr :=
  t.allNodes.filter fun m => (t.node m).parent = some n

/-- A tree with the links `child` and `sibling` of its nodes. -/
structure LinkedTree extends NamedTree where
  child : ObjPtr → Option ObjPtr
  sibling : ObjPtr → Option ObjPtr
  linked : ∀ n ∈ allNodes, Siblings sibling (child n) (toDeviceTree.childrenOf n)

/-! ## The state -/

/-- A `struct fwk_platdev`: the node of its device, and its resources. -/
structure FwkPlatdev where
  sprtNode : ObjPtr
  numResources : Nat
  sprtResources : List FwkResources

/-- The flags and the data of the nodes, the devices that are registered, and the interrupt
numbers. -/
structure OfPlatform where
  flags : ObjPtr → Nat
  data : ObjPtr → Option ObjPtr
  platdevs : List (ObjPtr × FwkPlatdev)
  maps : IrqMaps

/-- What the memory gives for a node: its device, a table of resources, and the descriptors of its
interrupts.  `fwkOfRegisterPlatdevice` is the function of that name; the drivers that it binds may
use interrupt numbers of their own. -/
structure PlatformEnv where
  kzallocPlatdev : ObjPtr → Option ObjPtr
  kzallocResources : ObjPtr → Bool
  kzallocIrq : ObjPtr → Nat → DescAlloc × Option ObjPtr
  fwkOfRegisterPlatdevice : ObjPtr → IrqMaps → Except Stop (Int × IrqMaps)

/-- `NR_OfNodePopulated`. -/
def nrOfNodePopulated : Nat := 1

/-- `NR_OfNodePopulatedBus`. -/
def nrOfNodePopulatedBus : Nat := 2

namespace OfPlatform

/-- `fwk_of_node_set_flag`. -/
def fwkOfNodeSetFlag (s : OfPlatform) (n : ObjPtr) (flags : Nat) : OfPlatform :=
  { s with flags := Function.update s.flags n (s.flags n ||| flags) }

/-- `fwk_of_node_check_flag`. -/
def fwkOfNodeCheckFlag (s : OfPlatform) (n : ObjPtr) (flags : Nat) : Bool :=
  s.flags n &&& flags = flags

/-- A device is registered, and is the data of its node. -/
def addPlatdev (s : OfPlatform) (ptr : ObjPtr) (sprtPlatdev : FwkPlatdev) (maps : IrqMaps) :
    OfPlatform :=
  { s with
    maps
    data := Function.update s.data sprtPlatdev.sprtNode (some ptr)
    platdevs := s.platdevs ++ [(ptr, sprtPlatdev)] }

end OfPlatform

/-! ## The functions -/

/-- `fwk_of_platform_device_create_pdata`, from the first `kzalloc` on. -/
def createPdata (t : DeviceTree) (env : PlatformEnv) (sprtNode : ObjPtr) (s : OfPlatform) :
    Except Stop (Option ObjPtr × OfPlatform) :=
  match env.kzallocPlatdev sprtNode with
  | none => .ok (none, s)
  | some sprtPlatdev => do
    let (numResources, sprtResources, maps) ← pdataResources t sprtNode
      (env.kzallocResources sprtNode) (env.kzallocIrq sprtNode) s.maps
    let (retval, maps) ← env.fwkOfRegisterPlatdevice sprtNode maps
    -- what has been allocated is freed
    if retval ≠ 0 then pure (none, { s with maps })
    else
      let s := s.addPlatdev sprtPlatdev ⟨sprtNode, numResources, sprtResources⟩ maps
      pure (some sprtPlatdev, s.fwkOfNodeSetFlag sprtNode nrOfNodePopulated)

/-- `fwk_of_platform_device_create_pdata`. -/
def fwkOfPlatformDeviceCreatePdata (t : DeviceTree) (env : PlatformEnv) (sprtNode : ObjPtr)
    (s : OfPlatform) : Except Stop (Option ObjPtr × OfPlatform) := do
  if !(← t.fwkOfDeviceIsAvaliable (some sprtNode)) ||
      s.fwkOfNodeCheckFlag sprtNode nrOfNodePopulated then pure (none, s)
  else createPdata t env sprtNode s

/-- `FOREACH_CHILD_OF_DT_NODE`, with a body that returns a code; the last one is kept. -/
def foreachChild (sibling : ObjPtr → Option ObjPtr)
    (body : ObjPtr → OfPlatform → Except Stop (Int × OfPlatform)) :
    Nat → Option ObjPtr → Int × OfPlatform → Except Stop (Int × OfPlatform)
  | 0, _, _ => .error .spins
  | _ + 1, none, result => .ok result
  | rounds + 1, some sprtList, (_, s) => do
    let result ← body sprtList s
    foreachChild sibling body rounds (sibling sprtList) result

variable {δ : Type}

/-- `fwk_of_platform_bus_create`, with the depth of the recursion that is left. -/
def fwkOfPlatformBusCreate (t : LinkedTree) (env : PlatformEnv) (sprtMatches : List (OfDeviceId δ))
    (strict : Bool) : Nat → ObjPtr → OfPlatform → Except Stop (Int × OfPlatform)
  | 0, _, _ => .error .spins
  | depth + 1, sprtNode, s =>
    if strict && (fwkOfGetProperty t.toDeviceTree (some sprtNode) (cstring "compatible")).1.isNone
    then .ok (-erFault, s)
    else if s.fwkOfNodeCheckFlag sprtNode nrOfNodePopulatedBus then .ok (-erFault, s)
    else do
      let (sprtPlatdev, s) ← fwkOfPlatformDeviceCreatePdata t.toDeviceTree env sprtNode s
      if sprtPlatdev.isNone then pure (-erNomem, s)
      else if (← t.fwkOfMatchNode (some sprtNode) sprtMatches).isNone then pure (erNormal, s)
      else do
        let (_, s) ← foreachChild t.sibling (fwkOfPlatformBusCreate t env sprtMatches strict depth)
          walkRounds (t.child sprtNode) (erNormal, s)
        pure (erNormal, s.fwkOfNodeSetFlag sprtNode nrOfNodePopulatedBus)

/-- `fwk_of_platform_populate`. -/
def fwkOfPlatformPopulate (t : LinkedTree) (env : PlatformEnv) (sprtNode : Option ObjPtr)
    (sprtMatches : List (OfDeviceId δ)) (s : OfPlatform) : Except Stop (Int × OfPlatform) :=
  match sprtNode.or (t.fwkOfFindNodeByPath (cstring "/")) with
  | none => .ok (-erNomem, s)
  | some sprtHead =>
    foreachChild t.sibling (fwkOfPlatformBusCreate t env sprtMatches true walkRounds) walkRounds
      (t.child sprtHead) (-erError, s)

/-- `sgrt_fwk_of_default_bus_match_table`. -/
def sgrtFwkOfDefaultBusMatchTable : List (OfDeviceId Unit) :=
  [⟨cstring "simple-bus", none, by decide⟩, ⟨cstring "simple-mfd", none, by decide⟩,
    ⟨cstring "isa", none, by decide⟩]

/-! ## Nodes that are eligible -/

namespace DeviceTree

variable (t : DeviceTree)

/-- The node is compatible with something, and available. -/
def convertible (n : ObjPtr) : Bool :=
  (t.prop (some n) (cstring "compatible")).isSome && t.available n

/-- The node is compatible with a bus of the table. -/
def isBus (sprtMatches : List (OfDeviceId δ)) (n : ObjPtr) : Bool :=
  (t.matchOf sprtMatches n).isSome

/-- The children of `head` that can be converted, and those of buses that are eligible. -/
def Eligible (sprtMatches : List (OfDeviceId δ)) (head n : ObjPtr) : Prop :=
  WalksTo t.childrenOf t.convertible (t.isBus sprtMatches) (t.childrenOf head) n

/-- The eligible nodes among these and below them, at most `depth` generations. -/
abbrev eligibleIn (sprtMatches : List (OfDeviceId δ)) (depth : Nat) (nodes : List ObjPtr) :
    List ObjPtr :=
  walkDown t.childrenOf t.convertible (t.isBus sprtMatches) depth nodes

theorem mem_childrenOf {n p : ObjPtr} :
    n ∈ t.childrenOf p ↔ n ∈ t.allNodes ∧ (t.node n).parent = some p := by
  rw [childrenOf, List.mem_filter, decide_eq_true_iff]

/-- A child comes behind its parent. -/
theorem ranked : Ranked t.childrenOf (fun n => t.allNodes.idxOf n) t.allNodes.length where
  above := by
    intro p n hn
    obtain ⟨hmem, hparent⟩ := t.mem_childrenOf.mp hn
    exact t.above n hmem p hparent
  below := fun p n hn => List.idxOf_lt_length_of_mem (t.mem_childrenOf.mp hn).1
  parent := by
    intro p q n hp hq
    have hp' := (t.mem_childrenOf.mp hp).2
    rw [(t.mem_childrenOf.mp hq).2] at hp'
    exact (Option.some.inj hp').symm
  nodup := fun p => t.nodup.filter _

theorem enough_rounds {nodes : List ObjPtr} (hnodes : ∀ n ∈ nodes, n ∈ t.allNodes) :
    Enough (fun n => t.allNodes.idxOf n) t.allNodes.length walkRounds nodes := by
  intro n hn
  have hlen := ObjPtr.length_of_nodup t.nodup
  unfold walkRounds
  exact ⟨List.idxOf_lt_length_of_mem (hnodes n hn), by omega⟩

theorem nodup_eligibleIn {sprtMatches : List (OfDeviceId δ)} {depth : Nat} (p : ObjPtr) :
    (t.eligibleIn sprtMatches depth (t.childrenOf p)).Nodup :=
  nodup_walkDown t.ranked (t.ranked.nodup p) fun _ ha _ hb => t.ranked.siblings ha hb

end DeviceTree

/-! ## One device after another -/

/-- The memory has a device and a table for every node, and devices can be registered; what happens
to the interrupt numbers meanwhile is done by calls of their functions. -/
structure PlatformEnv.Succeeds (env : PlatformEnv) : Prop where
  platdev : ∀ n, (env.kzallocPlatdev n).isSome = true
  resources : ∀ n, env.kzallocResources n = true
  register : ∀ n maps, ∃ moves maps', (∀ move ∈ moves, IrqMaps.Move.Word move) ∧
    exec IrqMaps.step maps moves = some maps' ∧
    env.fwkOfRegisterPlatdevice n maps = .ok (erNormal, maps')

section Visit

variable (t : DeviceTree) (env : PlatformEnv) (sprtMatches : List (OfDeviceId δ))

/-- The device of a node is made, and both flags are set as they will be. -/
def visit (s : OfPlatform) (n : ObjPtr) : Except Stop OfPlatform :=
  (createPdata t env n s).map fun created =>
    if t.isBus sprtMatches n then created.2.fwkOfNodeSetFlag n nrOfNodePopulatedBus else created.2

/-- The devices of some nodes are made, one after another. -/
def visitAll (nodes : List ObjPtr) (s : OfPlatform) : Except Stop OfPlatform :=
  nodes.foldlM (visit t env sprtMatches) s

end Visit

variable {t : DeviceTree} {env : PlatformEnv} {sprtMatches : List (OfDeviceId δ)}
  {s s' : OfPlatform} {n : ObjPtr} {nodes : List ObjPtr}

theorem OfPlatform.checkFlag_self (s : OfPlatform) (n : ObjPtr) (f : Nat) :
    (s.fwkOfNodeSetFlag n f).fwkOfNodeCheckFlag n f = true := by
  rw [fwkOfNodeCheckFlag, fwkOfNodeSetFlag, decide_eq_true_iff]
  dsimp only
  rw [Function.update_self]
  apply Nat.eq_of_testBit_eq
  intro i
  rw [Nat.testBit_land, Nat.testBit_lor]
  cases f.testBit i with
  | false => rw [Bool.and_false]
  | true => rw [Bool.or_true, Bool.and_true]

/-- No flag is taken away. -/
theorem OfPlatform.checkFlag_setFlag {f : Nat} (h : s.fwkOfNodeCheckFlag n f = true) (a : ObjPtr)
    (g : Nat) : (s.fwkOfNodeSetFlag a g).fwkOfNodeCheckFlag n f = true := by
  rw [fwkOfNodeCheckFlag, decide_eq_true_iff] at h ⊢
  rw [fwkOfNodeSetFlag]
  dsimp only
  by_cases hna : n = a
  · subst hna
    rw [Function.update_self]
    apply Nat.eq_of_testBit_eq
    intro i
    have hbit : (s.flags n).testBit i = true ∨ f.testBit i = false := by
      have hi := congrArg (fun w => w.testBit i) h
      rw [Nat.testBit_land] at hi
      cases hf : f.testBit i with
      | false => exact Or.inr rfl
      | true => exact Or.inl (by simpa [hf] using hi)
    rw [Nat.testBit_land, Nat.testBit_lor]
    rcases hbit with hbit | hbit
    · rw [hbit, Bool.true_or, Bool.true_and]
    · rw [hbit, Bool.and_false]
  · rw [Function.update_of_ne hna, h]

theorem OfPlatform.setFlag_comm (s : OfPlatform) (a b : ObjPtr) (f g : Nat) :
    (s.fwkOfNodeSetFlag a f).fwkOfNodeSetFlag b g =
      (s.fwkOfNodeSetFlag b g).fwkOfNodeSetFlag a f := by
  unfold OfPlatform.fwkOfNodeSetFlag
  congr 1
  funext x
  dsimp only
  by_cases hab : a = b
  · subst hab
    simp only [Function.update_self, Function.update_idem, Nat.lor_assoc, Nat.lor_comm f g]
  · rw [Function.update_comm hab, Function.update_of_ne hab, Function.update_of_ne (Ne.symm hab)]

/-- Making a device does not look at flags. -/
theorem createPdata_setFlag (s : OfPlatform) (n a : ObjPtr) (f : Nat) :
    createPdata t env n (s.fwkOfNodeSetFlag a f) =
      (createPdata t env n s).map fun created => (created.1, created.2.fwkOfNodeSetFlag a f) := by
  rw [createPdata, createPdata]
  cases env.kzallocPlatdev n with
  | none => rfl
  | some ptr =>
    have hmaps : (s.fwkOfNodeSetFlag a f).maps = s.maps := rfl
    rw [hmaps]
    cases pdataResources t n (env.kzallocResources n) (env.kzallocIrq n) s.maps with
    | error stop => rfl
    | ok table =>
      obtain ⟨num, table, maps⟩ := table
      simp only [bind, Except.bind]
      cases env.fwkOfRegisterPlatdevice n maps with
      | error stop => rfl
      | ok registered =>
        dsimp only
        by_cases hretval : registered.1 ≠ 0
        · rw [if_pos hretval, if_pos hretval]
          rfl
        · rw [if_neg hretval, if_neg hretval]
          have hcomm := (s.addPlatdev ptr ⟨n, num, table⟩ registered.2).setFlag_comm a n f
            nrOfNodePopulated
          exact congrArg (fun s => Except.ok (some ptr, s)) hcomm

theorem visit_setFlag (s : OfPlatform) (n a : ObjPtr) (f : Nat) :
    visit t env sprtMatches (s.fwkOfNodeSetFlag a f) n =
      (visit t env sprtMatches s n).map fun s' => s'.fwkOfNodeSetFlag a f := by
  rw [visit, visit, createPdata_setFlag]
  cases createPdata t env n s with
  | error stop => rfl
  | ok created =>
    simp only [Except.map]
    split
    · rw [OfPlatform.setFlag_comm]
    · rfl

theorem visitAll_cons :
    visitAll t env sprtMatches (n :: nodes) s =
      (visit t env sprtMatches s n).bind (visitAll t env sprtMatches nodes) := by
  rw [visitAll, List.foldlM_cons]
  rfl

theorem visitAll_append {nodes' : List ObjPtr} :
    visitAll t env sprtMatches (nodes ++ nodes') s =
      (visitAll t env sprtMatches nodes s).bind (visitAll t env sprtMatches nodes') := by
  rw [visitAll, List.foldlM_append]
  rfl

/-- Visits do not look at flags. -/
theorem visitAll_setFlag (nodes : List ObjPtr) (s : OfPlatform) (a : ObjPtr) (f : Nat) :
    visitAll t env sprtMatches nodes (s.fwkOfNodeSetFlag a f) =
      (visitAll t env sprtMatches nodes s).map fun s' => s'.fwkOfNodeSetFlag a f := by
  induction nodes generalizing s with
  | nil => rfl
  | cons n nodes ih =>
    rw [visitAll_cons, visitAll_cons, visit_setFlag]
    cases visit t env sprtMatches s n with
    | error stop => rfl
    | ok s₁ => exact ih s₁

/-- The device of the node is made of what can be read of it, or nothing returns. -/
theorem createPdata_cases (henv : env.Succeeds) (n : ObjPtr) (s : OfPlatform) :
    (∃ stop, pdataResources t n true (env.kzallocIrq n) s.maps = .error stop ∧
        createPdata t env n s = .error stop) ∨
      ∃ ptr num table maps₁ maps₂, pdataResources t n true (env.kzallocIrq n) s.maps =
          .ok (num, table, maps₁) ∧
        env.fwkOfRegisterPlatdevice n maps₁ = .ok (erNormal, maps₂) ∧
        createPdata t env n s = .ok (some ptr,
          (s.addPlatdev ptr ⟨n, num, table⟩ maps₂).fwkOfNodeSetFlag n nrOfNodePopulated) := by
  obtain ⟨ptr, hptr⟩ := Option.isSome_iff_exists.mp (henv.platdev n)
  rw [createPdata, hptr, henv.resources]
  cases pdataResources t n true (env.kzallocIrq n) s.maps with
  | error stop => exact Or.inl ⟨stop, rfl, rfl⟩
  | ok table =>
    obtain ⟨num, table, maps₁⟩ := table
    obtain ⟨moves, maps₂, -, -, hreg⟩ := henv.register n maps₁
    refine Or.inr ⟨ptr, num, table, maps₁, maps₂, rfl, hreg, ?_⟩
    simp only [bind, Except.bind, hreg]
    rfl

/-! ## What visits leave -/

/-- One visit that returns. -/
structure Visited (s : OfPlatform) (n : ObjPtr) (s' : OfPlatform) : Prop where
  device : ∃ ptr num table, s'.platdevs = s.platdevs ++ [(ptr, ⟨n, num, table⟩)]
  mark : s'.fwkOfNodeCheckFlag n nrOfNodePopulated = true
  frame : ∀ x, x ≠ n → s'.flags x = s.flags x

theorem visited_of_visit (henv : env.Succeeds) (hrun : visit t env sprtMatches s n = .ok s') :
    Visited s n s' := by
  rw [visit] at hrun
  rcases createPdata_cases (t := t) henv n s with
    ⟨stop, -, hcall⟩ | ⟨ptr, num, table, maps₁, maps₂, -, -, hcall⟩
  · rw [hcall] at hrun
    cases hrun
  · rw [hcall] at hrun
    obtain rfl := Except.ok.inj hrun
    have hmark := (s.addPlatdev ptr ⟨n, num, table⟩ maps₂).checkFlag_self n nrOfNodePopulated
    have hframe : ∀ x, x ≠ n → ((s.addPlatdev ptr ⟨n, num, table⟩ maps₂).fwkOfNodeSetFlag n
        nrOfNodePopulated).flags x = s.flags x := fun x hx => Function.update_of_ne hx ..
    dsimp only
    split
    · exact ⟨⟨ptr, num, table, rfl⟩, OfPlatform.checkFlag_setFlag hmark n _,
        fun x hx => (Function.update_of_ne hx ..).trans (hframe x hx)⟩
    · exact ⟨⟨ptr, num, table, rfl⟩, hmark, hframe⟩

/-- Visits that return. -/
structure VisitedAll (s : OfPlatform) (nodes : List ObjPtr) (s' : OfPlatform) : Prop where
  devices : ∃ created, s'.platdevs = s.platdevs ++ created ∧
    created.map (fun device => device.2.sprtNode) = nodes
  marks : ∀ n ∈ nodes, s'.fwkOfNodeCheckFlag n nrOfNodePopulated = true
  frame : ∀ x, x ∉ nodes → s'.flags x = s.flags x

theorem visitedAll_of_run (henv : env.Succeeds)
    (hrun : visitAll t env sprtMatches nodes s = .ok s') : VisitedAll s nodes s' := by
  induction nodes generalizing s with
  | nil =>
    cases hrun
    exact ⟨⟨[], (List.append_nil _).symm, rfl⟩, fun n hn => absurd hn List.not_mem_nil,
      fun _ _ => rfl⟩
  | cons n nodes ih =>
    rw [visitAll_cons] at hrun
    obtain ⟨s₁, hvisit, hrest⟩ := except_bind.mp hrun
    obtain ⟨⟨ptr, num, table, hdevice⟩, hmark, hframe⟩ := visited_of_visit henv hvisit
    obtain ⟨⟨created, hcreated, hnodes⟩, hmarks, hframes⟩ := ih hrest
    refine ⟨⟨(ptr, ⟨n, num, table⟩) :: created, ?_, by rw [List.map_cons, hnodes]⟩, ?_, ?_⟩
    · rw [hcreated, hdevice, List.append_assoc, List.singleton_append]
    · intro x hx
      by_cases hin : x ∈ nodes
      · exact hmarks x hin
      · obtain rfl : x = n := (List.mem_cons.mp hx).resolve_right hin
        rwa [OfPlatform.fwkOfNodeCheckFlag, hframes x hin]
    · intro x hx
      obtain ⟨hne, hnot⟩ := not_or.mp (mt List.mem_cons.mpr hx)
      exact (hframes x hnot).trans (hframe x hne)

/-- The resources of some nodes can be read one after another, each when the device before it has
been registered. -/
def ReadsAll (t : DeviceTree) (env : PlatformEnv) : List ObjPtr → IrqMaps → Prop
  | [], _ => True
  | n :: rest, maps => NodeReads t n (env.kzallocIrq n) maps ∧ ∀ table registered,
      pdataResources t n true (env.kzallocIrq n) maps = .ok table →
      env.fwkOfRegisterPlatdevice n table.2.2 = .ok registered → ReadsAll t env rest registered.2

/-- **Visits return** if the resources can be read. -/
theorem visitAll_returns_iff (t : NamedTree) (henv : env.Succeeds)
    (hmaps : ∃ owner, s.maps.Sound owner) (sprtMatches : List (OfDeviceId δ))
    (hnodes : ∀ n ∈ nodes, n ∈ t.allNodes) :
    (∃ s', visitAll t.toDeviceTree env sprtMatches nodes s = .ok s') ↔
      ReadsAll t.toDeviceTree env nodes s.maps := by
  induction nodes generalizing s with
  | nil => exact iff_of_true ⟨s, rfl⟩ trivial
  | cons n nodes ih =>
    obtain ⟨owner, h⟩ := hmaps
    have hreads := t.pdataResources_returns_iff h (hnodes n (List.mem_cons_self ..))
      (env.kzallocIrq n)
    rw [visitAll_cons, ReadsAll]
    rcases createPdata_cases (t := t.toDeviceTree) henv n s with
      ⟨stop, hread, hcall⟩ | ⟨ptr, num, table, maps₁, maps₂, hread, hreg, hcall⟩
    · rw [visit, hcall]
      rw [hread] at hreads
      exact iff_of_false not_returns fun hall => not_returns (hreads.mpr hall.1)
    · obtain ⟨s₁, hvisit, hmaps₁⟩ : ∃ s₁, visit t.toDeviceTree env sprtMatches s n = .ok s₁ ∧
          s₁.maps = maps₂ := by
        rw [visit, hcall]
        refine ⟨_, rfl, ?_⟩
        dsimp only
        split <;> rfl
      -- the driver has used numbers of its own
      have hsound : ∃ owner, s₁.maps.Sound owner := by
        obtain ⟨moves, maps', hwords, hexec, hreg'⟩ := henv.register n maps₁
        rw [hreg] at hreg'
        cases hreg'
        rw [hmaps₁]
        exact IrqMaps.exec_sound hwords (pdataResources_keeps h hread) hexec
      rw [hvisit, and_iff_right (hreads.mp ⟨_, hread⟩)]
      refine (ih hsound fun x hx => hnodes x (List.mem_cons_of_mem n hx)).trans ?_
      rw [hmaps₁]
      constructor
      · intro hrest table' registered htable hregistered
        rw [hread] at htable
        cases htable
        rw [hreg] at hregistered
        cases hregistered
        exact hrest
      · intro hall
        exact hall _ _ hread hreg

/-! ## A first run -/

/-- A loop over the children is a loop over their list. -/
theorem foreachChild_eq {sibling : ObjPtr → Option ObjPtr}
    {body : ObjPtr → OfPlatform → Except Stop (Int × OfPlatform)} {first : Option ObjPtr}
    {rounds : Nat} (hlink : Siblings sibling first nodes) (hrounds : nodes.length < rounds)
    (result : Int × OfPlatform) :
    foreachChild sibling body rounds first result =
      nodes.foldlM (fun result n => body n result.2) result := by
  revert result
  apply Siblings.loop (motive := fun rounds first nodes => ∀ result : Int × OfPlatform,
    foreachChild sibling body rounds first result =
      nodes.foldlM (fun result n => body n result.2) result) _ _ hlink hrounds
  · intro rounds result
    rfl
  · intro rounds n nodes ih result
    rw [foreachChild, List.foldlM_cons]
    apply congrArg
    funext result'
    exact ih result'

/-- A body that visits the eligible nodes of one child visits those of all of them, since none of
them is below two. -/
theorem foldlM_visits {body : ObjPtr → OfPlatform → Except Stop (Int × OfPlatform)} {depth : Nat}
    (henv : env.Succeeds)
    (hbody : ∀ n ∈ nodes, ∀ s, (∀ x ∈ t.eligibleIn sprtMatches depth [n], s.flags x = 0) →
      ∃ code, body n s = (visitAll t env sprtMatches (t.eligibleIn sprtMatches depth [n]) s).map
        fun s' => (code, s'))
    (hnodup : (t.eligibleIn sprtMatches depth nodes).Nodup)
    (hflags : ∀ x ∈ t.eligibleIn sprtMatches depth nodes, s.flags x = 0) (code : Int) :
    ∃ code', nodes.foldlM (fun result n => body n result.2) (code, s) =
      (visitAll t env sprtMatches (t.eligibleIn sprtMatches depth nodes) s).map
        fun s' => (code', s') := by
  induction nodes generalizing s code with
  | nil =>
    refine ⟨code, ?_⟩
    cases depth <;> rfl
  | cons n nodes ih =>
    rw [DeviceTree.eligibleIn, walkDown_cons] at hnodup hflags ⊢
    obtain ⟨-, hnodup', hdisjoint⟩ := List.nodup_append.mp hnodup
    obtain ⟨code₁, hone⟩ := hbody n (List.mem_cons_self ..) s fun x hx =>
      hflags x (List.mem_append_left _ hx)
    rw [List.foldlM_cons, hone, visitAll_append]
    cases hrun : visitAll t env sprtMatches (t.eligibleIn sprtMatches depth [n]) s with
    | error stop => exact ⟨code, rfl⟩
    | ok s₁ =>
      -- the flags of the nodes below the other children are as they were
      have hframe := (visitedAll_of_run henv hrun).frame
      refine ih (fun a ha => hbody a (List.mem_cons_of_mem n ha)) hnodup' (fun x hx => ?_) code₁
      rw [hframe x fun hin => hdisjoint x hin x hx rfl]
      exact hflags x (List.mem_append_right _ hx)

namespace LinkedTree

variable {t : LinkedTree}

/-- The children of a node are visited. -/
theorem foreachChild_visits {depth : Nat} (henv : env.Succeeds) (hn : n ∈ t.allNodes)
    (hbody : ∀ a ∈ t.childrenOf n, ∀ s,
      (∀ x ∈ t.eligibleIn sprtMatches depth [a], s.flags x = 0) →
      ∃ code, fwkOfPlatformBusCreate t env sprtMatches true depth a s =
        (visitAll t.toDeviceTree env sprtMatches (t.eligibleIn sprtMatches depth [a]) s).map
          fun s' => (code, s'))
    (hflags : ∀ x ∈ t.eligibleIn sprtMatches depth (t.childrenOf n), s.flags x = 0) (code : Int) :
    ∃ code', foreachChild t.sibling (fwkOfPlatformBusCreate t env sprtMatches true depth) walkRounds
        (t.child n) (code, s) =
      (visitAll t.toDeviceTree env sprtMatches
        (t.eligibleIn sprtMatches depth (t.childrenOf n)) s).map fun s' => (code', s') := by
  have hlen := ObjPtr.length_of_nodup (t.ranked.nodup n)
  rw [foreachChild_eq (t.linked n hn) (by unfold walkRounds; omega)]
  exact foldlM_visits henv hbody (t.nodup_eligibleIn n) hflags code

/-- **`fwk_of_platform_bus_create`** leaves a node alone that cannot be converted, or that has its
device. -/
theorem busCreate_idle {depth : Nat} (hn : n ∈ t.allNodes)
    (hdone : t.convertible n = true → s.fwkOfNodeCheckFlag n nrOfNodePopulated = true) :
    ∃ code, fwkOfPlatformBusCreate t env sprtMatches true (depth + 1) n s = .ok (code, s) := by
  rw [fwkOfPlatformBusCreate]
  by_cases hcompat :
      (fwkOfGetProperty t.toDeviceTree (some n) (cstring "compatible")).1.isNone = true
  · rw [if_pos (by rw [hcompat]; rfl)]
    exact ⟨_, rfl⟩
  rw [if_neg (by rwa [Bool.true_and])]
  by_cases hbus : s.fwkOfNodeCheckFlag n nrOfNodePopulatedBus = true
  · rw [if_pos hbus]
    exact ⟨_, rfl⟩
  have hskip : (!t.available n || s.fwkOfNodeCheckFlag n nrOfNodePopulated) = true := by
    cases havail : t.available n with
    | false => rfl
    | true =>
      have hsome : (t.prop (some n) (cstring "compatible")).isSome = true :=
        Option.isSome_iff_ne_none.mpr (mt Option.isNone_iff_eq_none.mpr hcompat)
      exact hdone (by rw [DeviceTree.convertible, hsome, havail]; rfl)
  have hcreate : fwkOfPlatformDeviceCreatePdata t.toDeviceTree env n s = .ok (none, s) := by
    rw [fwkOfPlatformDeviceCreatePdata, t.toReadableTree.fwkOfDeviceIsAvaliable_eq hn]
    exact if_pos hskip
  rw [if_neg hbus, hcreate]
  exact ⟨_, rfl⟩

/-- **`fwk_of_platform_bus_create`**, for a node that can be converted and has no flag. -/
theorem busCreate_convertible {depth : Nat} (hn : n ∈ t.allNodes) (hconv : t.convertible n = true)
    (hflags : s.flags n = 0) :
    fwkOfPlatformBusCreate t env sprtMatches true (depth + 1) n s =
      (createPdata t.toDeviceTree env n s).bind fun created =>
        if created.1.isNone then .ok (-erNomem, created.2)
        else if t.isBus sprtMatches n then
          (foreachChild t.sibling (fwkOfPlatformBusCreate t env sprtMatches true depth) walkRounds
            (t.child n) (erNormal, created.2)).map fun result =>
              (erNormal, result.2.fwkOfNodeSetFlag n nrOfNodePopulatedBus)
        else .ok (erNormal, created.2) := by
  obtain ⟨hcompat, havail⟩ := Bool.and_eq_true_iff.mp hconv
  have hnone : (fwkOfGetProperty t.toDeviceTree (some n) (cstring "compatible")).1.isNone =
      false := Option.isNone_eq_false_iff.mpr hcompat
  have hflag : ∀ f, f ≠ 0 → s.fwkOfNodeCheckFlag n f = false := by
    intro f hf
    rw [OfPlatform.fwkOfNodeCheckFlag, hflags, Nat.zero_and]
    exact decide_eq_false (Ne.symm hf)
  rw [fwkOfPlatformBusCreate, fwkOfPlatformDeviceCreatePdata, hnone,
    t.toReadableTree.fwkOfDeviceIsAvaliable_eq hn, havail, hflag _ (by decide),
    hflag _ (by decide), t.toReadableTree.fwkOfMatchNode_eq hn]
  have hbus : (t.matchOf sprtMatches n).isNone = !t.isBus sprtMatches n := (Option.not_isSome _).symm
  simp only [bind, Except.bind, pure, Except.pure, Bool.and_false, Bool.false_eq_true, if_false,
    Bool.not_true, Bool.or_false, hbus]
  cases createPdata t.toDeviceTree env n s with
  | error stop => rfl
  | ok created =>
    dsimp only
    by_cases hnew : created.1.isNone = true
    · rw [if_pos hnew, if_pos hnew]
    rw [if_neg hnew, if_neg hnew]
    cases t.isBus sprtMatches n with
    | false => rfl
    | true =>
      cases foreachChild t.sibling (fwkOfPlatformBusCreate t env sprtMatches true depth) walkRounds
        (t.child n) (erNormal, created.2) <;> rfl

/-- **`fwk_of_platform_bus_create`**, for a node with nothing eligible below it that has a flag: it
makes the devices of the eligible nodes. -/
theorem busCreate_eq {depth : Nat} (henv : env.Succeeds) (hn : n ∈ t.allNodes)
    (hdepth : t.allNodes.length ≤ t.allNodes.idxOf n + depth)
    (hflags : ∀ x ∈ t.eligibleIn sprtMatches depth [n], s.flags x = 0) :
    ∃ code, fwkOfPlatformBusCreate t env sprtMatches true depth n s =
      (visitAll t.toDeviceTree env sprtMatches (t.eligibleIn sprtMatches depth [n]) s).map
        fun s' => (code, s') := by
  induction depth generalizing n s with
  | zero =>
    have hidx := List.idxOf_lt_length_of_mem hn
    omega
  | succ depth ih =>
    rw [DeviceTree.eligibleIn, walkDown_singleton] at hflags ⊢
    by_cases hconv : t.convertible n = true
    swap
    · rw [if_neg hconv]
      exact busCreate_idle hn fun h => absurd h hconv
    rw [if_pos hconv] at hflags ⊢
    rw [busCreate_convertible hn hconv (hflags n (List.mem_cons_self ..)), visitAll_cons, visit]
    rcases createPdata_cases (t := t.toDeviceTree) henv n s with
      ⟨stop, -, hcall⟩ | ⟨ptr, num, table, maps₁, maps₂, -, -, hcall⟩
    · rw [hcall]
      exact ⟨erNormal, rfl⟩
    rw [hcall]
    simp only [Except.bind, Except.map, Option.isNone_some, Bool.false_eq_true, if_false]
    generalize hs₁ : (s.addPlatdev ptr ⟨n, num, table⟩ maps₂).fwkOfNodeSetFlag n
      nrOfNodePopulated = s₁
    by_cases hbus : t.isBus sprtMatches n = true
    swap
    · rw [if_neg hbus, if_neg hbus, if_neg hbus]
      exact ⟨erNormal, rfl⟩
    rw [if_pos hbus] at hflags
    rw [if_pos hbus, if_pos hbus, if_pos hbus, visitAll_setFlag]
    -- the nodes below it have no flag yet
    have hflags₁ : ∀ x ∈ t.eligibleIn sprtMatches depth (t.childrenOf n), s₁.flags x = 0 := by
      intro x hx
      have hne : x ≠ n := by
        rintro rfl
        exact t.ranked.not_mem_walkDown hx
      rw [← hs₁]
      exact (Function.update_of_ne hne ..).trans (hflags x (List.mem_cons_of_mem n hx))
    have hbody : ∀ a ∈ t.childrenOf n, ∀ s,
        (∀ x ∈ t.eligibleIn sprtMatches depth [a], s.flags x = 0) →
        ∃ code, fwkOfPlatformBusCreate t env sprtMatches true depth a s =
          (visitAll t.toDeviceTree env sprtMatches (t.eligibleIn sprtMatches depth [a]) s).map
            fun s' => (code, s') := by
      intro a ha s hs
      have hlt := t.ranked.above n a ha
      exact ih (t.mem_childrenOf.mp ha).1 (by omega) hs
    obtain ⟨code, hloop⟩ := foreachChild_visits henv hn hbody hflags₁ erNormal
    rw [hloop]
    refine ⟨erNormal, ?_⟩
    cases visitAll t.toDeviceTree env sprtMatches
      (t.eligibleIn sprtMatches depth (t.childrenOf n)) s₁ <;> rfl

/-- The children of any node can be visited to their leaves. -/
theorem children_enough (t : LinkedTree) (n : ObjPtr) :
    Enough (fun n => t.allNodes.idxOf n) t.allNodes.length walkRounds (t.childrenOf n) :=
  t.enough_rounds fun _ ha => (t.mem_childrenOf.mp ha).1

/-- The nodes that are eligible, in the order of the tree. -/
abbrev eligibleNodes (t : LinkedTree) (sprtMatches : List (OfDeviceId δ)) (sprtHead : ObjPtr) :
    List ObjPtr :=
  t.eligibleIn sprtMatches walkRounds (t.childrenOf sprtHead)

theorem mem_eligibleNodes {sprtHead : ObjPtr} :
    n ∈ t.eligibleNodes sprtMatches sprtHead ↔ t.Eligible sprtMatches sprtHead n :=
  mem_walkDown_iff t.ranked (t.children_enough sprtHead)

theorem eligibleNodes_mem {sprtHead : ObjPtr} (hn : n ∈ t.eligibleNodes sprtMatches sprtHead) :
    n ∈ t.allNodes := by
  cases mem_eligibleNodes.mp hn with
  | first _ hchild _ => exact (t.mem_childrenOf.mp hchild).1
  | child p _ _ _ hchild _ => exact (t.mem_childrenOf.mp hchild).1

variable {sprtNode : Option ObjPtr} {sprtHead : ObjPtr}

/-- **A first run** makes the devices of the eligible nodes, one after another. -/
theorem populate_eq (henv : env.Succeeds) (hhead : sprtNode.or t.ofRoot = some sprtHead)
    (hin : sprtHead ∈ t.allNodes) (hflags : ∀ n ∈ t.allNodes, s.flags n = 0)
    (sprtMatches : List (OfDeviceId δ)) :
    ∃ code, fwkOfPlatformPopulate t env sprtNode sprtMatches s =
      (visitAll t.toDeviceTree env sprtMatches (t.eligibleNodes sprtMatches sprtHead) s).map
        fun s' => (code, s') := by
  rw [fwkOfPlatformPopulate, hhead]
  apply foreachChild_visits henv hin
  · intro a ha s hs
    have henough := t.children_enough sprtHead a ha
    exact busCreate_eq henv (t.mem_childrenOf.mp ha).1 henough.2 hs
  · intro x hx
    exact hflags x (eligibleNodes_mem hx)

/-- **A second run** leaves everything as it is, whatever the memory gives and whatever has become of
the interrupt numbers. -/
theorem populate_again (hhead : sprtNode.or t.ofRoot = some sprtHead) (hin : sprtHead ∈ t.allNodes)
    (hdone : ∀ n ∈ t.eligibleNodes sprtMatches sprtHead,
      s.fwkOfNodeCheckFlag n nrOfNodePopulated = true) :
    ∃ code, fwkOfPlatformPopulate t env sprtNode sprtMatches s = .ok (code, s) := by
  have hlen := ObjPtr.length_of_nodup (t.ranked.nodup sprtHead)
  have hidle : ∀ n ∈ t.childrenOf sprtHead,
      ∃ code, fwkOfPlatformBusCreate t env sprtMatches true walkRounds n s = .ok (code, s) := by
    intro n hn
    refine busCreate_idle (t.mem_childrenOf.mp hn).1 fun hconv => hdone n ?_
    exact mem_walkDown_first (t.children_enough sprtHead) hn hconv
  rw [fwkOfPlatformPopulate, hhead]
  show ∃ code, foreachChild _ _ _ _ _ = _
  rw [foreachChild_eq (t.linked sprtHead hin) (by unfold walkRounds; omega)]
  generalize -erError = code
  generalize t.childrenOf sprtHead = nodes at hidle
  induction nodes generalizing code with
  | nil => exact ⟨code, rfl⟩
  | cons n nodes ih =>
    obtain ⟨code', hone⟩ := hidle n (List.mem_cons_self ..)
    rw [List.foldlM_cons, hone]
    exact ih code' fun a ha => hidle a (List.mem_cons_of_mem n ha)

/-! ## Both runs -/

/-- A run makes one device for each eligible node and none for others, and another run, with other
memory and whatever has become of the interrupt numbers meanwhile, changes nothing. -/
def PopulatesOnce (t : LinkedTree) (env : PlatformEnv) (sprtNode : Option ObjPtr)
    (sprtMatches : List (OfDeviceId δ)) (sprtHead : ObjPtr) (s : OfPlatform) : Prop :=
  ∃ retval s' created, fwkOfPlatformPopulate t env sprtNode sprtMatches s = .ok (retval, s') ∧
    s'.platdevs = s.platdevs ++ created ∧
    (created.map fun device => device.2.sprtNode).Nodup ∧
    (∀ n, n ∈ created.map (fun device => device.2.sprtNode) ↔ t.Eligible sprtMatches sprtHead n) ∧
    ∀ env' maps', ∃ retval',
      fwkOfPlatformPopulate t env' sprtNode sprtMatches { s' with maps := maps' } =
        .ok (retval', { s' with maps := maps' })

/-- **Population.**  For every tree whose nodes have no flags, and every table of buses, with the
memory and the registrations succeeding: each eligible node gets one device, others get none, and
another run changes nothing, just when the resources of the eligible nodes can be read, one after
another. -/
theorem platform_populate_iff (t : LinkedTree) (henv : env.Succeeds)
    (hhead : sprtNode.or t.ofRoot = some sprtHead) (hin : sprtHead ∈ t.allNodes)
    (hflags : ∀ n ∈ t.allNodes, s.flags n = 0) (moves : List IrqMaps.Move)
    (hwords : ∀ move ∈ moves, move.Word)
    (hmaps : exec IrqMaps.step IrqMaps.start moves = some s.maps) (sprtMatches : List (OfDeviceId δ)) :
    PopulatesOnce t env sprtNode sprtMatches sprtHead s ↔
      ReadsAll t.toDeviceTree env (t.eligibleNodes sprtMatches sprtHead) s.maps := by
  obtain ⟨code, hfirst⟩ := populate_eq henv hhead hin hflags sprtMatches
  have hmem : ∀ n ∈ t.eligibleNodes sprtMatches sprtHead, n ∈ t.allNodes :=
    fun n hn => eligibleNodes_mem hn
  have hreturns := visitAll_returns_iff t.toNamedTree henv
    (IrqMaps.exec_sound hwords ⟨_, IrqMaps.sound_start⟩ hmaps) sprtMatches hmem
  rw [← hreturns]
  constructor
  · rintro ⟨retval, s', created, hrun, -⟩
    rw [hfirst] at hrun
    cases hvisits : visitAll t.toDeviceTree env sprtMatches (t.eligibleNodes sprtMatches sprtHead)
        s with
    | error stop =>
      rw [hvisits] at hrun
      cases hrun
    | ok s₁ => exact ⟨s₁, rfl⟩
  · rintro ⟨s', hvisits⟩
    obtain ⟨⟨created, hcreated, hnodes⟩, hmarks, -⟩ := visitedAll_of_run henv hvisits
    rw [hvisits] at hfirst
    refine ⟨code, s', created, hfirst, hcreated, ?_, fun n => ?_, fun env' maps' => ?_⟩
    · rw [hnodes]
      exact t.nodup_eligibleIn sprtHead
    · rw [hnodes]
      exact mem_eligibleNodes
    · exact populate_again hhead hin hmarks

theorem mem_three {a b c : ObjPtr} (hn : n ∈ [a, b, c]) : n = a ∨ n = b ∨ n = c := by
  simpa using hn

/-- A root, a bus and a device on it; `handle` is the phandle that the device refers to for its
interrupts. -/
def busTree (handle : Nat) : LinkedTree where
  allNodes := [⟨0x71000, by decide⟩, ⟨0x72000, by decide⟩, ⟨0x73000, by decide⟩]
  node := fun n =>
    if n.1 = 0x71000 then
      { fullName := cstring "/", phandle := 1, parent := none, properties := [] }
    else if n.1 = 0x72000 then
      { fullName := cstring "/soc", phandle := 2, parent := some ⟨0x71000, by decide⟩,
        properties := [⟨cstring "compatible", 0x3200, cstring "simple-bus" ++ [0], by decide, by decide⟩] }
    else
      { fullName := cstring "/soc/uart", phandle := 3, parent := some ⟨0x72000, by decide⟩,
        properties := [⟨cstring "compatible", 0x3220, cstring "uart" ++ [0], by decide, by decide⟩,
          ⟨cstring "reg", 0x3230, beBytes 0x2020000 ++ beBytes 0x4000, by decide, by decide⟩,
          ⟨cstring "interrupt-parent", 0x3240, beBytes handle, by simp [beBytes], beBytes_short handle⟩] }
  nodup := by decide
  above := by
    intro n hn p hp
    rcases mem_three hn with rfl | rfl | rfl
    · cases hp
    · cases hp
      decide
    · cases hp
      decide
  compatible := by
    intro n hn prop hprop
    rcases mem_three hn with rfl | rfl | rfl
    · cases hprop
    · cases hprop
      exact ⟨[cstring "simple-bus"], rfl, by decide⟩
    · cases hprop
      exact ⟨[cstring "uart"], rfl, by decide⟩
  status := by
    intro n hn prop hprop
    rcases mem_three hn with rfl | rfl | rfl <;> cases hprop
  regNames := by
    intro n hn prop hprop
    rcases mem_three hn with rfl | rfl | rfl <;> cases hprop
  interruptNames := by
    intro n hn prop hprop
    rcases mem_three hn with rfl | rfl | rfl <;> cases hprop
  child := fun n =>
    if n.1 = 0x71000 then some ⟨0x72000, by decide⟩
    else if n.1 = 0x72000 then some ⟨0x73000, by decide⟩ else none
  sibling := fun _ => none
  linked := by
    intro n hn
    rcases mem_three hn with rfl | rfl | rfl
    · exact ⟨rfl, rfl⟩
    · exact ⟨rfl, rfl⟩
    · rfl

/-- Memory for devices and tables, but none for interrupts; registration leaves everything alone. -/
def devicesEnv : PlatformEnv where
  kzallocPlatdev := fun _ => some ⟨0x74000, by decide⟩
  kzallocResources := fun _ => true
  kzallocIrq := fun _ _ => ((none, []), none)
  fwkOfRegisterPlatdevice := fun _ maps => .ok (erNormal, maps)

theorem devicesEnv_succeeds : devicesEnv.Succeeds where
  platdev := fun _ => rfl
  resources := fun _ => rfl
  register := fun _ maps => ⟨[], maps, fun _ hmove => absurd hmove List.not_mem_nil, rfl, rfl⟩

/-- No node has a flag, and there is no device and no interrupt. -/
def noDevices : OfPlatform where
  flags := fun _ => 0
  data := fun _ => none
  platdevs := []
  maps := IrqMaps.start

/-- The bus and the device on it get their devices, with one resource between them. -/
theorem platform_populate_iff_bus :
    PopulatesOnce (busTree 1) devicesEnv none sgrtFwkOfDefaultBusMatchTable ⟨0x71000, by decide⟩
      noDevices := by
  have hsoc : numResLoop (busTree 1).toDeviceTree ⟨0x72000, by decide⟩ walkRounds 0 = .ok 0 := by
    rfl
  have huart : numResLoop (busTree 1).toDeviceTree ⟨0x73000, by decide⟩ walkRounds 0 = .ok 1 := by
    rfl
  refine (platform_populate_iff (busTree 1) devicesEnv_succeeds (by rfl) (by decide)
    (fun _ _ => rfl) [] (by decide) (by rfl) sgrtFwkOfDefaultBusMatchTable).mpr ?_
  show ReadsAll _ _ [⟨0x72000, by decide⟩, ⟨0x73000, by decide⟩] _
  refine ⟨nodeReads_of_no_irqs (by rfl) hsoc (by decide) _, fun _ _ _ _ => ?_⟩
  exact ⟨nodeReads_of_no_irqs (by rfl) huart (by decide) _, fun _ _ _ _ => trivial⟩

/-- The device refers to a phandle that no node has, and counting its interrupts follows a null
pointer. -/
theorem platform_populate_faults :
    ¬ ∀ (t : LinkedTree) (env : PlatformEnv) (sprtHead : ObjPtr) (s : OfPlatform)
      (moves : List IrqMaps.Move), env.Succeeds → t.ofRoot = some sprtHead →
      (∀ n ∈ t.allNodes, s.flags n = 0) → (∀ move ∈ moves, move.Word) →
      exec IrqMaps.step IrqMaps.start moves = some s.maps →
      PopulatesOnce t env none sgrtFwkOfDefaultBusMatchTable sprtHead s := by
  intro hall
  obtain ⟨retval, s', created, hrun, -⟩ := hall (busTree 7) devicesEnv ⟨0x71000, by decide⟩
    noDevices [] devicesEnv_succeeds (by rfl) (fun _ _ => rfl) (by decide) (by rfl)
  have hfault : fwkOfPlatformPopulate (busTree 7) devicesEnv none sgrtFwkOfDefaultBusMatchTable
      noDevices = .error .fault := by
    rfl
  rw [hfault] at hrun
  cases hrun

end LinkedTree

end HeavenFox.Platform
