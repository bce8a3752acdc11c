/-
# HeavenFox.Platform.Of -- the device tree is unflattened

A device-tree blob is a header, a structure block (a sequence of tagged tokens
that open and close nodes and give properties) and a block of strings.  The
kernel goes over the structure block twice: once with no memory, only to learn
how much of it the nodes will take, and once to build the nodes in one block of
that size.  Both passes are the same code; the first keeps each node that is open
in a block of its own, which it frees when the node closes.

The code is followed here on the bytes of the memory: nodes and properties are
structures at addresses, and every access has to be inside a block the program
may use.  The two loops over the tokens also report the addresses of the tags
they have consumed, which nothing in the code depends on.
-/
import HeavenFox.Common.Ram
import HeavenFox.Common.MemSimple

namespace HeavenFox.Platform

open HeavenFox.Logic HeavenFox.Common

-- the source's own leading underscores are kept
set_option linter.style.nameCheck false

/-! ## The blob -/

/-- `FDT_MAGIC_VERIFY`. -/
abbrev fdtMagicVerify : Nat := 0xd00dfeed

/-- `FDT_NODE_START`, and `FDT_ALL_NODE_START`. -/
abbrev fdtNodeStart : Nat := 1
abbrev fdtNodeEnd : Nat := 2
abbrev fdtNodeProp : Nat := 3
abbrev fdtNodeNop : Nat := 4
abbrev fdtAllNodeEnd : Nat := 9

/-- Where the members of `struct fwk_fdt_header` stand. -/
abbrev fdtMagic : Nat := 0
abbrev fdtTotalsize : Nat := 4
abbrev fdtOffDtStruct : Nat := 8
abbrev fdtOffDtStrings : Nat := 12
abbrev fdtVersion : Nat := 20

/-! ## Nodes and properties -/

/-- `sizeof(struct fwk_device_node)` and where its members stand. -/
abbrev nodeSize : Nat := 52
abbrev nodeName : Nat := 0
abbrev nodeType : Nat := 4
abbrev nodePhandle : Nat := 8
abbrev nodeFullName : Nat := 12
abbrev nodeProperties : Nat := 16
abbrev nodeParent : Nat := 24
abbrev nodeChild : Nat := 28
abbrev nodeSibling : Nat := 32
abbrev nodeNext : Nat := 36
abbrev nodeAllnext : Nat := 40

/-- `sizeof(struct fwk_of_property)` and where its members stand. -/
abbrev propSize : Nat := 16
abbrev propName : Nat := 0
abbrev propLength : Nat := 4
abbrev propValue : Nat := 8
abbrev propNext : Nat := 12

/-- Both structures are aligned alike. -/
abbrev ofAlign : Nat := 4

/-- Where the linker put the variable `sprt_fwk_of_allNodes` and the string literals whose addresses
the code stores. -/
structure OfImage where
  allNodes : Nat
  strName : Nat
  strNull : Nat

/-- A string literal. -/
def cstring (s : String) : List UInt8 := s.toList.map fun c => UInt8.ofNat c.toNat

abbrev slash : UInt8 := 0x2f
abbrev atSign : UInt8 := 0x40

/-- Rounds given to a loop over the tokens: as many as there are pairs of addresses, the place in
the blob and the place in the memory of the nodes. -/
def tokenRounds : Nat := walkRounds * walkRounds

/-- `fwk_fdt_memory_calculate`: the place that was taken, and the memory behind it. -/
def fwkFdtMemoryCalculate (mem size align : Nat) : Nat × Nat :=
  (mrtAlign mem align, add32 (mrtAlign mem align) size)

/-- `fwk_fdt_memory_alloc`. -/
def fwkFdtMemoryAlloc (alloc : Kzalloc) (size align : Nat) : RamM Nat :=
  RamM.kzalloc alloc (mrtAlign size align)

/-! ## Properties -/

/-- What `fwk_fdt_populate_properties` returns and leaves in `*ptr_offset`, `*mem` and
`*has_name`. -/
structure PropertyAt where
  sprtProp : Nat
  ptrMove : Nat
  ptrMem : Nat
  hasName : Bool

/-- `fwk_fdt_populate_properties`, where it fills the node information from one property. -/
def fillNodeInfo (sprtNode ptrName ptrValue : Nat) : RamM Unit := do
  let isName ← strcmp (cstring "name") ptrName
  if isName then putWord (sprtNode + nodeName) ptrValue
  else do
    let isType ← strcmp (cstring "device_type") ptrName
    if isType then putWord (sprtNode + nodeType) ptrValue
    else do
      let isPhandle ← strcmp (cstring "phandle") ptrName
      if isPhandle then do
        let phandle ← be32ToCpup ptrValue
        putWord (sprtNode + nodePhandle) phandle
      else pure ()

/-- `fwk_fdt_populate_properties`, where it records a property. -/
def fillProperty (sprtNode sprtProp ptrName iPropLenth ptrValue : Nat) : RamM Unit := do
  let _ ← putWord (sprtProp + propName) ptrName
  let _ ← putWord (sprtProp + propLength) iPropLenth
  let _ ← putWord (sprtProp + propValue) ptrValue
  let _ ← putWord (sprtProp + propNext) 0
  fillNodeInfo sprtNode ptrName ptrValue

/-- Where the value of a property stands, its three words being before `ptr`. -/
def valueStart (version iPropLenth ptr : Nat) : Nat :=
  if version < 0x10 then mrtAlign ptr (if 8 ≤ iPropLenth then 8 else 4) else ptr

/-- `fwk_fdt_populate_properties`. -/
def fwkFdtPopulateProperties (ptrBlob ptrMove ptrMem sprtNode ptrAllNext : Nat) (hasName : Bool) :
    RamM PropertyAt := do
  let tag ← be32ToCpup ptrMove
  if tag ≠ fdtNodeProp then pure ⟨0, ptrMove, ptrMem, hasName⟩
  else do
    let iPropLenth ← be32ToCpup (add32 ptrMove 4)
    let iPropOffset ← be32ToCpup (add32 ptrMove 8)
    let version ← be32ToCpup (ptrBlob + fdtVersion)
    let ptrValue := valueStart version iPropLenth (add32 ptrMove 12)
    let offDtStrings ← be32ToCpup (ptrBlob + fdtOffDtStrings)
    let ptrName := add32 (add32 ptrBlob offDtStrings) iPropOffset
    let isName ← strcmp (cstring "name") ptrName
    let place := fwkFdtMemoryCalculate ptrMem propSize ofAlign
    let _ ← (if isValid ptrAllNext then fillProperty sprtNode place.1 ptrName iPropLenth ptrValue
      else pure ())
    let next := mrtAlign (add32 ptrValue iPropLenth) 4
    -- the next tag is read, and nothing is done with it
    let _ ← be32ToCpup next
    pure ⟨place.1, next, place.2, isName || hasName⟩

/-- `fwk_fdt_add_string_properties`: the property, and what is left in `*mem`. -/
def fwkFdtAddStringProperties (ptrMem sprtNode name value size ptrAllNext : Nat) :
    RamM (Nat × Nat) :=
  if name = 0 then pure (0, ptrMem)
  else
    let place := fwkFdtMemoryCalculate ptrMem (add32 propSize size) ofAlign
    if isValid ptrAllNext then do
      let _ ← putWord (place.1 + propName) name
      let _ ← putWord (place.1 + propLength) size
      let _ ← putWord (place.1 + propNext) 0
      let _ ← putWord (place.1 + propValue) (place.1 + propSize)
      let _ ← memcpy (place.1 + propSize) value (sub32 size 1)
      let _ ← putByte (place.1 + propSize + sub32 size 1) 0
      let isName ← strcmp (cstring "name") name
      let _ ← (if isName then putWord (sprtNode + nodeName) (place.1 + propSize)
        else do
          let isType ← strcmp (cstring "device_type") name
          if isType then putWord (sprtNode + nodeType) (place.1 + propSize) else pure ())
      pure place
    else pure place

/-! ## Nodes -/

/-- The variables of the loop over the properties of a node, and the tags it has consumed. -/
structure PropertyLoop where
  ptrMove : Nat
  ptrMem : Nat
  sprtPrev : Nat
  hasName : Bool
  tokens : List Nat

/-- The loop of `fwk_fdt_populate_node` over the properties. -/
def propertyLoop (ptrBlob sprtNode ptrAllNext : Nat) : Nat → PropertyLoop → RamM PropertyLoop
  | 0, _ => halt .spins
  | rounds + 1, st => do
    let iTag ← be32ToCpup st.ptrMove
    if iTag = fdtNodeNop then
      propertyLoop ptrBlob sprtNode ptrAllNext rounds
        { st with ptrMove := add32 st.ptrMove 4, tokens := st.tokens ++ [st.ptrMove] }
    else do
      let prop ←
        fwkFdtPopulateProperties ptrBlob st.ptrMove st.ptrMem sprtNode ptrAllNext st.hasName
      if isValid prop.sprtProp then do
        let sprtPrev ← (if isValid ptrAllNext then do
            let _ ← putWord st.sprtPrev prop.sprtProp
            pure (prop.sprtProp + propNext)
          else pure st.sprtPrev)
        propertyLoop ptrBlob sprtNode ptrAllNext rounds
          { ptrMove := prop.ptrMove, ptrMem := prop.ptrMem, sprtPrev := sprtPrev
            hasName := prop.hasName, tokens := st.tokens ++ [st.ptrMove] }
      else
        pure { st with
          ptrMove := prop.ptrMove, ptrMem := prop.ptrMem, hasName := prop.hasName }

/-- The pointers of the loop that looks for the name between the path and the unit. -/
structure NameScan where
  ptr1 : Nat
  ptr2 : Nat
  ptr3 : Nat

/-- The loop of `fwk_fdt_populate_node` over the path name. -/
def nameScan : Nat → NameScan → RamM NameScan
  | 0, _ => halt .spins
  | rounds + 1, st => do
    let c ← load8 st.ptr1
    if c = 0 then pure st
    else
      nameScan rounds
        { ptr1 := st.ptr1 + 1
          ptr2 := if c = slash then st.ptr1 + 1 else st.ptr2
          ptr3 := if c = atSign then st.ptr1 else st.ptr3 }

/-- `fwk_fdt_populate_node`, where it creates a name for a node that has none: what is left in
`ptr_mem`. -/
def createName (img : OfImage) (sprtNode ptrAllNext ptrMem sprtPrev : Nat) : RamM Nat := do
  let fullName ← loadWord (sprtNode + nodeFullName)
  let st ← nameScan walkRounds ⟨fullName, fullName, 0⟩
  let ptr3 := if st.ptr3 < st.ptr2 then st.ptr1 else st.ptr3
  let prop ← fwkFdtAddStringProperties ptrMem sprtNode img.strName st.ptr2
    (sub32 (ptr3 + 1) st.ptr2) ptrAllNext
  let _ ← (if isValid prop.1 && isValid ptrAllNext then putWord sprtPrev prop.1 else pure ())
  pure prop.2

/-- The lengths `fwk_fdt_populate_node` takes from the name of a node. -/
structure PathLenth where
  ipathLenth : Nat
  iLenthNeed : Nat
  newFormat : Bool

/-- `fwk_fdt_populate_node`, up to the memory of the node. -/
def pathLenth (ptrPath sprtParent : Nat) : RamM PathLenth := do
  let len ← strlen ptrPath
  let c ← load8 ptrPath
  if c = slash then pure ⟨len + 1, len + 1, false⟩
  else if isValid sprtParent then do
    let fullName ← loadWord (sprtParent + nodeFullName)
    let parentLen ← strlen fullName
    pure ⟨len + 1, add32 (len + 2) parentLen, true⟩
  else do
    let _ ← putByte ptrPath 0
    pure ⟨1, 2, true⟩

/-- The node, and what is left in `ptr_mem` and `*allNext`. -/
structure NodePlace where
  sprtNode : Nat
  ptrMem : Nat
  ptrAllNext : Nat

/-- `fwk_fdt_populate_node`, where it gets the memory of the node: the next place in the list of all
nodes, or a block of its own. -/
def placeNode (alloc : Kzalloc) (ptrMem iLenthNeed ptrAllNext : Nat) : RamM NodePlace :=
  let place := fwkFdtMemoryCalculate ptrMem (add32 nodeSize iLenthNeed) ofAlign
  if isValid ptrAllNext then do
    let _ ← putWord ptrAllNext place.1
    pure ⟨place.1, place.2, place.1 + nodeAllnext⟩
  else do
    let sprtNode ← RamM.kzalloc alloc (add32 nodeSize iLenthNeed)
    pure ⟨sprtNode, place.2, ptrAllNext⟩

/-- `fwk_fdt_populate_node`, where it writes the path of the parent and returns where the name of
the node goes. -/
def writeParentName (sprtNode sprtParent : Nat) : RamM Nat := do
  let above ← (if isValid sprtParent then loadWord (sprtParent + nodeParent) else pure 0)
  let ptrFullName ← (if isValid above then do
      let fullName ← loadWord (sprtParent + nodeFullName)
      let _ ← strcpy (sprtNode + nodeSize) fullName
      let len ← strlen fullName
      pure (sprtNode + nodeSize + len)
    else pure (sprtNode + nodeSize))
  let _ ← putByte ptrFullName slash
  pure (ptrFullName + 1)

/-- `fwk_fdt_populate_node`, where it writes the path name of the node. -/
def writeFullName (sprtNode sprtParent ptrPath ipathLenth : Nat) (newFormat : Bool) :
    RamM Unit := do
  let _ ← putWord (sprtNode + nodeFullName) (sprtNode + nodeSize)
  let ptrFullName ← (if newFormat then writeParentName sprtNode sprtParent
    else pure (sprtNode + nodeSize))
  memcpy ptrFullName ptrPath ipathLenth

/-- `fwk_fdt_populate_node`, where it links the node to its parent. -/
def linkParent (sprtNode sprtParent ptrAllNext : Nat) : RamM Unit := do
  let _ ← putWord (sprtNode + nodeParent) sprtParent
  let _ ← putWord (sprtNode + nodePhandle) (2 ^ 32 - 1)
  if isValid sprtParent && isValid ptrAllNext then do
    let last ← loadWord (sprtParent + nodeNext)
    let _ ← (if isValid last then putWord (last + nodeSibling) sprtNode
      else putWord (sprtParent + nodeChild) sprtNode)
    putWord (sprtParent + nodeNext) sprtNode
  else pure ()

/-- Give a field that is null the address of `"<null>"`. -/
def defaultNull (img : OfImage) (field : Nat) : RamM Unit := do
  let v ← loadWord field
  if v = 0 then putWord field img.strNull else pure ()

/-- `fwk_fdt_populate_node`, behind the properties. -/
def closeNode (img : OfImage) (sprtNode ptrAllNext : Nat) (st : PropertyLoop) : RamM Nat := do
  let ptrMem ← (if st.hasName then pure st.ptrMem
    else createName img sprtNode ptrAllNext st.ptrMem st.sprtPrev)
  let _ ← (if isValid ptrAllNext then do
      let _ ← defaultNull img (sprtNode + nodeName)
      defaultNull img (sprtNode + nodeType)
    else pure ())
  pure ptrMem

/-- What `fwk_fdt_populate_node` returns and leaves in `*ptr_offset`, `*mem` and `*allNext`, and the
tags it has consumed behind its first. -/
structure NodeAt where
  sprtNode : Nat
  ptrMove : Nat
  ptrMem : Nat
  ptrAllNext : Nat
  tokens : List Nat

/-- `fwk_fdt_populate_node`. -/
def fwkFdtPopulateNode (img : OfImage) (alloc : Kzalloc)
    (ptrBlob ptrMove ptrMem sprtParent ptrAllNext : Nat) : RamM NodeAt := do
  let iTag ← be32ToCpup ptrMove
  if iTag ≠ fdtNodeStart then pure ⟨0, ptrMove, ptrMem, ptrAllNext, []⟩
  else do
    let ptrPath := add32 ptrMove 4
    let len ← pathLenth ptrPath sprtParent
    let place ← placeNode alloc ptrMem len.iLenthNeed ptrAllNext
    if !isValid ptrAllNext && !isValid place.sprtNode then
      pure ⟨0, ptrMove, ptrMem, place.ptrAllNext, []⟩
    else do
      let _ ← writeFullName place.sprtNode sprtParent ptrPath len.ipathLenth len.newFormat
      let _ ← linkParent place.sprtNode sprtParent place.ptrAllNext
      let st ← propertyLoop ptrBlob place.sprtNode place.ptrAllNext tokenRounds
        { ptrMove := mrtAlign (add32 ptrPath len.ipathLenth) 4
          ptrMem := place.ptrMem
          sprtPrev := place.sprtNode + nodeProperties
          hasName := false
          tokens := [] }
      let ptrMem ← closeNode img place.sprtNode place.ptrAllNext st
      pure ⟨place.sprtNode, st.ptrMove, ptrMem, place.ptrAllNext, st.tokens⟩

/-! ## The two passes -/

/-- The variables of the loop of `fwk_unflatten_dt_nodes`, and the tags it has consumed. -/
structure UnflattenLoop where
  ptrMove : Nat
  ptrMem : Nat
  sprtList : Nat
  sprtAllNodes : Nat
  tokens : List Nat

/-- The loop of `fwk_unflatten_dt_nodes` that frees the nodes that are open. -/
def freeParents : Nat → Nat → RamM Unit
  | 0, _ => halt .spins
  | rounds + 1, sprtList =>
    if isValid sprtList then do
      let parent ← loadWord (sprtList + nodeParent)
      let _ ← RamM.kfree sprtList
      freeParents rounds parent
    else pure ()

/-- `fwk_unflatten_dt_nodes`, at the end of a node: the node that is open now. -/
def leaveNode (sprtList sprtAllNodes : Nat) : RamM Nat :=
  if isValid sprtList then do
    let parent ← loadWord (sprtList + nodeParent)
    let _ ← (if isValid sprtAllNodes then pure () else RamM.kfree sprtList)
    pure parent
  else pure sprtList

/-- The loop of `fwk_unflatten_dt_nodes`: what it returns, and the tags it has consumed. -/
def unflattenLoop (img : OfImage) (alloc : Kzalloc) (ptrBlob : Nat) :
    Nat → UnflattenLoop → RamM (Nat × List Nat)
  | 0, _ => halt .spins
  | rounds + 1, st => do
    let iTag ← be32ToCpup st.ptrMove
    if iTag = fdtNodeNop then
      unflattenLoop img alloc ptrBlob rounds
        { st with ptrMove := add32 st.ptrMove 4, tokens := st.tokens ++ [st.ptrMove] }
    else if iTag = fdtNodeEnd then do
      let parent ← leaveNode st.sprtList st.sprtAllNodes
      unflattenLoop img alloc ptrBlob rounds
        { st with
          ptrMove := add32 st.ptrMove 4, sprtList := parent, tokens := st.tokens ++ [st.ptrMove] }
    else if iTag = fdtAllNodeEnd then pure (st.ptrMem, st.tokens ++ [st.ptrMove])
    else do
      let node ← fwkFdtPopulateNode img alloc ptrBlob st.ptrMove st.ptrMem st.sprtList
        st.sprtAllNodes
      if !isValid node.sprtNode && !isValid node.ptrAllNext then do
        let _ ← freeParents walkRounds st.sprtList
        pure (0, st.tokens)
      else
        unflattenLoop img alloc ptrBlob rounds
          { ptrMove := node.ptrMove, ptrMem := node.ptrMem, sprtList := node.sprtNode
            sprtAllNodes := node.ptrAllNext
            tokens := st.tokens ++ st.ptrMove :: node.tokens }

/-- `fwk_unflatten_dt_nodes`; `sprtAllNodes` is the place of the first node, or 0 when there is to
be no list. -/
def fwkUnflattenDtNodes (img : OfImage) (alloc : Kzalloc)
    (ptrBlob ptrMem ptrStart sprtAllNodes : Nat) : RamM (Nat × List Nat) :=
  if isValid ptrBlob then do
    let iTag ← be32ToCpup ptrStart
    if iTag ≠ fdtNodeStart then pure (ptrMem, [])
    else unflattenLoop img alloc ptrBlob tokenRounds ⟨ptrStart, ptrMem, 0, sprtAllNodes, []⟩
  else pure (ptrMem, [])

/-- `__fwk_unflatten_device_tree`. -/
def __fwkUnflattenDeviceTree (img : OfImage) (alloc : Kzalloc) (ptrBlob sprtAllNodes : Nat) :
    RamM Unit :=
  if isValid ptrBlob then do
    let magic ← be32ToCpup (ptrBlob + fdtMagic)
    if magic ≠ fdtMagicVerify then pure ()
    else do
      let offDtStruct ← be32ToCpup (ptrBlob + fdtOffDtStruct)
      let sized ← fwkUnflattenDtNodes img alloc ptrBlob 0 (add32 ptrBlob offDtStruct) 0
      let size := mrtNumAlign4 sized.1
      if size = 0 then pure ()
      else do
        let ptrDtMem ← fwkFdtMemoryAlloc alloc (add32 size 4) ofAlign
        if isValid ptrDtMem then do
          let _ ← putWord (add32 ptrDtMem size) (apiReverseByte32 fdtMagicVerify)
          let offDtStruct ← be32ToCpup (ptrBlob + fdtOffDtStruct)
          let _ ← fwkUnflattenDtNodes img alloc ptrBlob ptrDtMem (add32 ptrBlob offDtStruct)
            sprtAllNodes
          -- the magic number behind the nodes is compared, and nothing is done about it
          let _ ← be32ToCpup (add32 ptrDtMem size)
          pure ()
        else pure ()
  else pure ()

/-- `fwk_early_init_dt_params`: the blob from now on, `ptrFdtMemBuffer` being the one so far. -/
def fwkEarlyInitDtParams (img : OfImage) (ptrFdtMemBuffer ptrDt : Nat) : RamM Nat := do
  let _ ← putWord img.allNodes 0
  pure (if isValid ptrFdtMemBuffer then ptrFdtMemBuffer else ptrDt)

/-- `setup_machine_fdt`: the blob from now on. -/
def setupMachineFdt (img : OfImage) (alloc : Kzalloc) (ptrFdtMemBuffer ptr : Nat) : RamM Nat :=
  if isValid ptr then do
    let magic ← be32ToCpup (ptr + fdtMagic)
    if magic ≠ fdtMagicVerify then pure ptrFdtMemBuffer
    else do
      let entry ← fwkEarlyInitDtParams img ptrFdtMemBuffer ptr
      let _ ← __fwkUnflattenDeviceTree img alloc entry img.allNodes
      pure entry
  else pure ptrFdtMemBuffer

/-! ## Search -/

/-- The loop of `fwk_of_find_node_by_path`. -/
def findNodeLoop (ptrPath : List UInt8) : Nat → Nat → RamM Nat
  | 0, _ => halt .spins
  | rounds + 1, sprtList =>
    if sprtList = 0 then pure 0
    else do
      let fullName ← loadWord (sprtList + nodeFullName)
      let found ← strcmp ptrPath fullName
      if found then pure sprtList
      else do
        let next ← loadWord (sprtList + nodeAllnext)
        findNodeLoop ptrPath rounds next

/-- `fwk_of_find_node_by_path`. -/
def fwkOfFindNodeByPath (img : OfImage) (ptrPath : List UInt8) : RamM Nat := do
  let sprtHead ← loadWord img.allNodes
  findNodeLoop ptrPath walkRounds sprtHead

end HeavenFox.Platform
