/-
# HeavenFox.Platform.IrqDomain -- interrupt numbers

`fwk_irq_desc.c` and `fwk_irq_domain.c` give out virtual interrupt numbers for the hardware
numbers of interrupt controllers.  A mapping is kept four times: in the reverse map of the
domain, in a bitmap of used numbers, in a radix tree that leads from a number to its
descriptor, and in the data of the descriptor.

Descriptors and domains live in typed heaps; a descriptor and the radix link inside it have
one address here.  An allocation gets what the memory is ready to give, and those that fail
are counted.
-/
import HeavenFox.Common.IoStream
import HeavenFox.Common.RadixTree

namespace HeavenFox.Platform

open HeavenFox.Common HeavenFox.Logic

/-! ## Descriptors and domains -/

/-- `FWK_IRQ_DESC_MAX`. -/
def fwkIrqDescMax : Nat := 1024

/-- A `struct fwk_irq_chip *`: the dummy chip, or the one in a `struct fwk_irq_generic`. -/
inductive IrqChipPtr where
  | sgrtFwkIrqDummyChip
  | sgrtChip (sprtGc : ObjPtr)
  deriving DecidableEq, Repr

/-- A `struct fwk_irq_data`. -/
structure FwkIrqData where
  irq : Nat
  hwirq : Nat
  sprtChip : Option IrqChipPtr
  sprtDomain : Option ObjPtr
  handlerData : Option ObjPtr
  chipData : Option ObjPtr
  mask : Nat
  deriving DecidableEq, Repr

/-- A `struct fwk_irq_desc`, with the actions on its list. -/
structure FwkIrqDesc where
  irq : Nat
  flags : Nat
  sgrtAction : List ObjPtr
  sgrtData : FwkIrqData
  deriving DecidableEq, Repr

/-- What `kzalloc` and `init_list_head` make of a descriptor. -/
def FwkIrqDesc.zero : FwkIrqDesc where
  irq := 0
  flags := 0
  sgrtAction := []
  sgrtData := ⟨0, 0, none, none, none, none, 0⟩

/-- A `struct fwk_irq_domain_ops`.  `xlate` gets the domain, the node of the controller and the
specifier, and returns a code, the hardware number and the trigger type; `alloc` tells whether the
domain has one, which is `gpc_irq_domain_alloc`. -/
structure FwkIrqDomainOps where
  xlate : Option (ObjPtr → Option ObjPtr → List Nat → Int × Nat × Nat)
  alloc : Bool

/-- A `struct fwk_irq_domain`. -/
structure FwkIrqDomain where
  sprtNode : Option ObjPtr
  sprtOps : FwkIrqDomainOps
  hwirqMax : Nat
  revmap : Nat → Int

/-- The radix tree, the descriptors, the bitmap, the list of domains with the domains, and how many
allocations other than those of the tree have failed. -/
structure IrqMaps where
  tree : RadixTree
  desc : ObjPtr → Option FwkIrqDesc
  bitmap : Bitmap
  domains : List ObjPtr
  domain : ObjPtr → Option FwkIrqDomain
  failed : Nat

namespace IrqMaps

/-- Nothing is mapped and there is no domain. -/
def start : IrqMaps where
  tree := RadixTree.start
  desc := fun _ => none
  bitmap := fun _ => 0
  domains := []
  domain := fun _ => none
  failed := 0

/-- How many allocations have failed. -/
def refused (s : IrqMaps) : Nat := s.tree.refused + s.failed

def fail (s : IrqMaps) : IrqMaps := { s with failed := s.failed + 1 }

def setDesc (s : IrqMaps) (ptr : ObjPtr) (desc : Option FwkIrqDesc) : IrqMaps :=
  { s with desc := Function.update s.desc ptr desc }

/-- Read an entry of a reverse map. -/
def getRevmap (s : IrqMaps) (sprtDomain : ObjPtr) (hwirq : Nat) : Except Stop Int :=
  match s.domain sprtDomain with
  | none => .error .fault
  | some domain => if hwirq < domain.hwirqMax then .ok (domain.revmap hwirq) else .error .fault

/-- The domain at an address with one entry of its reverse map written. -/
def setEntry (s : IrqMaps) (sprtDomain : ObjPtr) (domain : FwkIrqDomain) (hwirq : Nat)
    (virq : Int) : IrqMaps :=
  { s with
    domain := Function.update s.domain sprtDomain
      (some { domain with revmap := Function.update domain.revmap hwirq virq }) }

@[simp] theorem setEntry_desc (s : IrqMaps) (sprtDomain : ObjPtr) (domain : FwkIrqDomain)
    (hwirq : Nat) (virq : Int) : (s.setEntry sprtDomain domain hwirq virq).desc = s.desc :=
  rfl

/-- Write an entry of a reverse map. -/
def setRevmap (s : IrqMaps) (sprtDomain : ObjPtr) (hwirq : Nat) (virq : Int) :
    Except Stop IrqMaps :=
  match s.domain sprtDomain with
  | none => .error .fault
  | some domain =>
    if hwirq < domain.hwirqMax then .ok (s.setEntry sprtDomain domain hwirq virq)
    else .error .fault

/-! ## Looking up -/

/-- `fwk_irq_to_desc`. -/
def fwkIrqToDesc (s : IrqMaps) (virq : Nat) : Except Stop (Option ObjPtr) :=
  radixTreeLookUp s.tree virq

/-- `fwk_irq_get_data`, with the address of the descriptor. -/
def fwkIrqGetData (s : IrqMaps) (virq : Nat) : Except Stop (Option (ObjPtr × FwkIrqDesc)) := do
  match ← s.fwkIrqToDesc virq with
  | none => pure none
  | some ptr =>
    match s.desc ptr with
    | none => .error .fault
    | some desc => pure (some (ptr, desc))

/-- `fwk_irq_domain_get_data`, with the address of the descriptor. -/
def fwkIrqDomainGetData (s : IrqMaps) (sprtDomain : ObjPtr) (hwirq : Nat) :
    Except Stop (Option (ObjPtr × FwkIrqDesc)) := do
  let virq ← s.getRevmap sprtDomain hwirq
  if virq < 0 then pure none
  else
    match ← s.fwkIrqGetData (asUint32 virq) with
    | none => pure none
    | some (ptr, desc) =>
      pure (if desc.sgrtData.hwirq = hwirq ∧ desc.sgrtData.sprtDomain = some sprtDomain then
        some (ptr, desc) else none)

/-- `IRQ_TYPE_SENSE_MASK`. -/
def senseMask : Nat := 15

/-- `fwk_irq_domain_find_map`. -/
def fwkIrqDomainFindMap (s : IrqMaps) (sprtDomain : ObjPtr) (hwirq type : Nat) :
    Except Stop (Int × IrqMaps) := do
  match ← s.fwkIrqDomainGetData sprtDomain hwirq with
  | none => pure (-erUnvalid, s)
  | some (ptr, desc) =>
    if type = 0 then pure (asInt32 desc.sgrtData.irq, s)
    else
      let type := type &&& senseMask
      let s :=
        if desc.flags &&& type = 0 then
          s.setDesc ptr (some { desc with flags := desc.flags ||| type })
        else s
      pure (asInt32 desc.sgrtData.irq, s)

/-! ## Allocating -/

/-- `fwk_allocate_irq_desc`; `kzalloc` is what the memory is ready to give, which is never a
descriptor that is allocated. -/
def fwkAllocateIrqDesc (s : IrqMaps) (kzalloc : Option ObjPtr) : Option ObjPtr × IrqMaps :=
  match kzalloc with
  | none => (none, s.fail)
  | some ptr =>
    if (s.desc ptr).isSome then (none, s.fail) else (some ptr, s.setDesc ptr (some .zero))

/-- The loop of `fwk_irq_bitmap_find_areas`.  Its test for a negative `index` is one of an unsigned
number. -/
def findAreasLoop (bitmap : Bitmap) (totalBits nrIrqs : Nat) : Nat → Nat → Except Stop Int
  | 0, _ => .error .spins
  | rounds + 1, index =>
    if add32 index nrIrqs ≥ totalBits then .ok (-erMore)
    else
      let index := asUint32 (bitmapFindFirstZeroBit bitmap index totalBits)
      let temp := asUint32 (bitmapFindNrZeroBit bitmap index totalBits nrIrqs)
      if temp ≠ 0 then findAreasLoop bitmap totalBits nrIrqs rounds (add32 temp 1)
      else .ok (asInt32 index)

/-- `fwk_irq_bitmap_find_areas`. -/
def fwkIrqBitmapFindAreas (bitmap : Bitmap) (irqBase : Int) (totalBits nrIrqs : Nat) :
    Except Stop Int :=
  findAreasLoop bitmap totalBits nrIrqs walkRounds (if irqBase ≥ 0 then irqBase.toNat else 0)

/-- What the memory gives for one descriptor: the descriptor and the nodes of the radix tree. -/
abbrev DescAlloc := Option ObjPtr × List (Option ObjPtr)

/-- The loop of `fwk_irq_domain_alloc_descs`, from number `virq + i` on; false when it returns for
lack of memory. -/
def allocDescsLoop (virq : Nat) :
    Nat → Nat → List DescAlloc → IrqMaps → Except Stop (Bool × IrqMaps)
  | 0, _, _, s => .ok (true, s)
  | rounds + 1, i, allocs, s =>
    match s.fwkAllocateIrqDesc (allocs.head?.bind Prod.fst) with
    | (none, s) => .ok (false, s)
    | (some ptr, s) =>
      let s := s.setDesc ptr (some { FwkIrqDesc.zero with irq := add32 virq i })
      match radixTreeAdd s.tree (add32 virq i) (some ptr) (allocs.head?.elim [] Prod.snd) with
      | .error stop => .error stop
      | .ok tree => allocDescsLoop virq rounds (i + 1) allocs.tail { s with tree }

/-- `fwk_irq_domain_alloc_descs`.  The number is unsigned, so its test for an error never holds. -/
def fwkIrqDomainAllocDescs (s : IrqMaps) (irqBase : Int) (nrIrqs : Nat) (allocs : List DescAlloc) :
    Except Stop (Int × IrqMaps) := do
  let virq := asUint32 (← fwkIrqBitmapFindAreas s.bitmap irqBase fwkIrqDescMax nrIrqs)
  let (enough, s) ← allocDescsLoop virq nrIrqs 0 allocs s
  if enough then
    pure (asInt32 virq,
      { s with bitmap := bitmapSetNrBitValid s.bitmap virq fwkIrqDescMax nrIrqs })
  else pure (-erNomem, s)

/-- The loop of `irq_domain_alloc_irq_data`. -/
def allocIrqDataLoop (sprtDomain : ObjPtr) (virq hwirq : Nat) :
    Nat → Nat → IrqMaps → Except Stop (Int × IrqMaps)
  | 0, _, s => .ok (asInt32 virq, s)
  | rounds + 1, i, s => do
    match ← s.fwkIrqGetData (add32 virq i) with
    | none => pure (-erNotfound, s)
    | some (ptr, desc) =>
      let s := s.setDesc ptr (some { desc with
        sgrtData := { desc.sgrtData with
          sprtDomain := some sprtDomain
          irq := add32 virq i
          hwirq := add32 hwirq i
          sprtChip := some .sgrtFwkIrqDummyChip
          mask := 0 } })
      let s ← s.setRevmap sprtDomain (add32 hwirq i) (asInt32 (add32 virq i))
      allocIrqDataLoop sprtDomain virq hwirq rounds (i + 1) s

/-- `irq_domain_alloc_irq_data`. -/
def irqDomainAllocIrqData (s : IrqMaps) (sprtDomain : ObjPtr) (virq hwirq nrIrqs : Nat) :
    Except Stop (Int × IrqMaps) :=
  allocIrqDataLoop sprtDomain virq hwirq nrIrqs 0 s

/-- `fwk_irq_domain_alloc_irqs`. -/
def fwkIrqDomainAllocIrqs (s : IrqMaps) (sprtDomain : ObjPtr) (irqBase : Int) (hwirq nrIrqs : Nat)
    (allocs : List DescAlloc) : Except Stop (Int × IrqMaps) := do
  let (virq, s) ← s.fwkIrqDomainAllocDescs irqBase nrIrqs allocs
  if virq < 0 then pure (virq, s)
  else s.irqDomainAllocIrqData sprtDomain (asUint32 virq) hwirq nrIrqs

/-- The loop of `fwk_irq_setup_generic_chip`, without `chip_data`. -/
def setupGenericChipLoop (irqBase : Nat) (sprtGc : ObjPtr) :
    Nat → Nat → IrqMaps → Except Stop IrqMaps
  | 0, _, s => .ok s
  | rounds + 1, i, s => do
    match ← s.fwkIrqGetData (add32 irqBase i) with
    | none => setupGenericChipLoop irqBase sprtGc rounds (i + 1) s
    | some (ptr, desc) =>
      setupGenericChipLoop irqBase sprtGc rounds (i + 1) (s.setDesc ptr (some { desc with
        sgrtData := { desc.sgrtData with
          mask := (1 <<< i) % 2 ^ 32
          chipData := none
          sprtChip := some (.sgrtChip sprtGc)
          handlerData := some sprtGc } }))

/-- `gpc_irq_domain_alloc`; the caller does not look at the code it returns. -/
def gpcIrqDomainAlloc (s : IrqMaps) (virq nrIrqs : Nat) (kzalloc : Option ObjPtr) :
    Except Stop IrqMaps :=
  match kzalloc with
  | none => .ok s.fail
  | some sprtGc => setupGenericChipLoop virq sprtGc nrIrqs 0 s

/-- `fwk_irq_desc_set_type`. -/
def fwkIrqDescSetType (s : IrqMaps) (virq type : Nat) : Except Stop IrqMaps := do
  match ← s.fwkIrqGetData virq with
  | none => pure s
  | some (ptr, desc) => pure (s.setDesc ptr (some { desc with flags := desc.flags ||| type }))

/-! ## Domains -/

/-- The size of a `struct fwk_irq_domain` without its reverse map. -/
def domainBytes : Nat := 44

/-- `fwk_irq_domain_add_linear`.  A size that does not fit into a word gives a block that is too
small, and the loop writes beyond it. -/
def fwkIrqDomainAddLinear (s : IrqMaps) (sprtNode : Option ObjPtr) (size : Nat)
    (ops : FwkIrqDomainOps) (kzalloc : Option ObjPtr) : Except Stop (Option ObjPtr × IrqMaps) :=
  match kzalloc with
  | none => .ok (none, s.fail)
  | some ptr =>
    if (s.domain ptr).isSome then .ok (none, s.fail)
    else if domainBytes + 4 * size ≥ 2 ^ 32 then .error .fault
    else
      .ok (some ptr, { s with
        domains := s.domains ++ [ptr]
        domain := Function.update s.domain ptr (some ⟨sprtNode, ops, size, fun _ => -1⟩) })

/-- The loop of `fwk_of_irq_host`. -/
def irqHostLoop (s : IrqMaps) (sprtNode : Option ObjPtr) :
    List ObjPtr → Except Stop (Option (ObjPtr × FwkIrqDomain))
  | [] => .ok none
  | ptr :: rest =>
    match s.domain ptr with
    | none => .error .fault
    | some domain =>
      if sprtNode = domain.sprtNode then .ok (some (ptr, domain)) else s.irqHostLoop sprtNode rest

/-- `fwk_of_irq_host`, with the domain. -/
def fwkOfIrqHost (s : IrqMaps) (sprtNode : Option ObjPtr) :
    Except Stop (Option (ObjPtr × FwkIrqDomain)) :=
  s.irqHostLoop sprtNode s.domains

/-- A `struct fwk_of_phandle_args`: the controller and the specifier. -/
structure FwkOfPhandleArgs where
  sprtNode : Option ObjPtr
  args : List Nat
  deriving DecidableEq, Repr

/-- The end of `fwk_irq_create_of_mapping`, for a hardware number that is not mapped. -/
def mapOne (s : IrqMaps) (sprtDomain : ObjPtr) (ops : FwkIrqDomainOps) (hwirq type : Nat)
    (alloc : DescAlloc) (kzalloc : Option ObjPtr) : Except Stop (Int × IrqMaps) := do
  let (virq, s) ← s.fwkIrqDomainAllocIrqs sprtDomain (-1) hwirq 1 [alloc]
  if virq < 0 then pure (virq, s)
  else
    let s ← if ops.alloc then s.gpcIrqDomainAlloc (asUint32 virq) 1 kzalloc else pure s
    let s ← s.fwkIrqDescSetType (asUint32 virq) type
    pure (virq, s)

/-- `fwk_irq_create_of_mapping`. -/
def fwkIrqCreateOfMapping (s : IrqMaps) (sprtIrq : Option FwkOfPhandleArgs) (alloc : DescAlloc)
    (kzalloc : Option ObjPtr) : Except Stop (Int × IrqMaps) :=
  match sprtIrq with
  | none => .ok (-erNomem, s)
  | some irq =>
    if irq.sprtNode.isNone then .ok (-erNomem, s)
    else do
      match ← s.fwkOfIrqHost irq.sprtNode with
      | none => pure (-erNotfound, s)
      | some (sprtDomain, domain) =>
        match domain.sprtOps.xlate with
        | none => pure (-erNotfound, s)
        | some xlate =>
          let (retval, hwirq, type) := xlate sprtDomain irq.sprtNode irq.args
          if retval < 0 then pure (retval, s)
          else
            let (virq, s) ← s.fwkIrqDomainFindMap sprtDomain hwirq type
            if virq ≥ 0 then pure (virq, s)
            else s.mapOne sprtDomain domain.sprtOps hwirq type alloc kzalloc

/-! ## Releasing -/

/-- `fwk_destroy_irq_action`: the actions are taken off the list and released. -/
def fwkDestroyIrqAction (s : IrqMaps) (irq : Nat) : Except Stop IrqMaps := do
  match ← s.fwkIrqGetData irq with
  | none => pure s
  | some (ptr, desc) => pure (s.setDesc ptr (some { desc with sgrtAction := [] }))

/-- `fwk_irq_desc_free`. -/
def fwkIrqDescFree (s : IrqMaps) (irq : Int) : Except Stop IrqMaps := do
  match ← s.fwkIrqGetData (asUint32 irq) with
  | none => .error .fault
  | some (ptr, desc) =>
    let s := { s with
      bitmap := bitmapSetNrBitZero s.bitmap desc.sgrtData.irq fwkIrqDescMax 1 }
    let s ← s.fwkDestroyIrqAction desc.sgrtData.irq
    let tree ← radixTreeDel s.tree desc.sgrtData.irq
    pure ({ s with tree }.setDesc ptr none)

/-- The loop of `fwk_irq_domain_free_irqs`. -/
def freeIrqsLoop (sprtDomain : ObjPtr) : Nat → Nat → IrqMaps → Except Stop IrqMaps
  | 0, _, s => .ok s
  | rounds + 1, idx, s => do
    let virq ← s.getRevmap sprtDomain idx
    if virq < 0 then freeIrqsLoop sprtDomain rounds (idx + 1) s
    else
      let s ← s.fwkIrqDescFree virq
      let s ← s.setRevmap sprtDomain idx (-1)
      freeIrqsLoop sprtDomain rounds (idx + 1) s

/-- `fwk_irq_domain_free_irqs`. -/
def fwkIrqDomainFreeIrqs (s : IrqMaps) (sprtDomain : ObjPtr) : Except Stop IrqMaps :=
  match s.domain sprtDomain with
  | none => .error .fault
  | some domain => freeIrqsLoop sprtDomain domain.hwirqMax 0 s

end IrqMaps

end HeavenFox.Platform
