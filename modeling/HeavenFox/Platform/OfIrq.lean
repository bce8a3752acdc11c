/-
# HeavenFox.Platform.OfIrq -- interrupts of a device node

`fwk_of_irq_parent` looks for the interrupt controller of a node: it follows references to
other nodes where there are any, and goes up to the parent where there are none, until a node
says how many cells one of its interrupts has.  Nothing keeps the references from naming a
phandle that no node has, or from going round in a circle; `irq_parent_iff` says that nothing
else goes wrong.

`fwk_of_irq_count` counts the interrupts of a node and `fwk_of_irq_parse_one` reads one of
them.  `irq_count_iff` compares the two, at every index.
-/
import HeavenFox.Logic.Follow
import HeavenFox.Platform.IrqDomain
import HeavenFox.Platform.Of
import HeavenFox.Platform.OfQuery

namespace HeavenFox.Platform

open HeavenFox.Logic HeavenFox.Common
open IrqMaps (FwkOfPhandleArgs)
open Relation

/-! ## The interrupt parent -/

/-- One of the two references in the loop of `fwk_of_irq_parent`: whether it goes on at `LOOP`, and
`sprt_np` after it. -/
def followHandle (t : DeviceTree) (sprtRoot sprtNp : Option ObjPtr) (ptrName : List UInt8) :
    Except Stop (Bool × Option ObjPtr) := do
  let (retval, handle) ← fwkOfPropertyReadU32 t sprtNp ptrName
  if retval = 0 then
    -- `sprt_np` is overwritten before it is tested
    let sprtNp := fwkOfFindNodeByPhandle t sprtRoot (handle.headD 0)
    pure (sprtNp.isSome, sprtNp)
  else pure (false, sprtNp)

/-- The loop of `fwk_of_irq_parent` up to `LOOP`. -/
def irqParentRound (t : DeviceTree) (sprtRoot : Option ObjPtr) (n : ObjPtr) :
    Except Stop (Option ObjPtr) := do
  let (jump, sprtNp) ← followHandle t sprtRoot (some n) (cstring "interrupt-parent")
  if jump then pure sprtNp
  else do
    let (jump, sprtNp) ← followHandle t sprtRoot sprtNp (cstring "interrupt-extended")
    if jump then pure sprtNp
    else
      -- the parent of what is in `sprt_np` by now
      match sprtNp with
      | none => .error .fault
      | some n => pure (t.node n).parent

/-- The loop of `fwk_of_irq_parent`. -/
def irqParentLoop (t : DeviceTree) (sprtRoot : Option ObjPtr) :
    Nat → Option ObjPtr → Option OfProperty → Except Stop (Option ObjPtr)
  | 0, _, _ => .error .spins
  | _ + 1, none, _ => .ok none
  | rounds + 1, some n, p =>
    if p.isSome then .ok (some n)
    else do
      let sprtNp ← irqParentRound t sprtRoot n
      let p := if sprtNp.isSome then
        (fwkOfFindProperty t sprtNp (cstring "#interrupt-cells")).1 else none
      irqParentLoop t sprtRoot rounds sprtNp p

/-- `fwk_of_irq_parent`. -/
def fwkOfIrqParent (t : DeviceTree) (sprtNode : Option ObjPtr) : Except Stop (Option ObjPtr) :=
  irqParentLoop t (t.fwkOfFindNodeByPath (cstring "/")) walkRounds sprtNode none

/-! ## Counting and parsing -/

/-- `fwk_of_n_irq_cells`. -/
def fwkOfNIrqCells (t : DeviceTree) (sprtNode : Option ObjPtr) : Except Stop Nat := do
  match ← fwkOfIrqParent t sprtNode with
  | none => pure 0
  | some sprtNp =>
    let (_, cells) ← fwkOfPropertyReadU32 t (some sprtNp) (cstring "#interrupt-cells")
    pure (cells.headD 0)

/-- The loop of `fwk_of_irq_count`. -/
def irqCountLoop (t : DeviceTree) (sprtNode : Option ObjPtr) (cells : Nat) :
    Nat → Nat → Except Stop Nat
  | 0, _ => .error .spins
  | rounds + 1, count => do
    let (retval, _) ← fwkOfPropertyReadU32Index t sprtNode (cstring "interrupts")
      (count * cells % 2 ^ 32)
    if retval ≠ 0 then pure count else irqCountLoop t sprtNode cells rounds (add32 count 1)

/-- `fwk_of_irq_count`. -/
def fwkOfIrqCount (t : DeviceTree) (sprtNode : Option ObjPtr) : Except Stop Nat := do
  let cells ← fwkOfNIrqCells t sprtNode
  if cells = 0 then pure 0 else irqCountLoop t sprtNode cells walkRounds 0

/-- `FWK_OF_MAX_PHANDLE_ARGS`. -/
abbrev fwkOfMaxPhandleArgs : Nat := 16

/-- The loop of `fwk_of_irq_parse_one`, with the rounds that are left; nothing when it returns. -/
def irqArgsLoop (t : DeviceTree) (sprtNode : Option ObjPtr) (start : Nat) :
    Nat → Nat → Except Stop (Option (List Nat))
  | 0, _ => .ok (some [])
  | rounds + 1, i => do
    let (retval, value) ← fwkOfPropertyReadU32Index t sprtNode (cstring "interrupts")
      (add32 start i)
    if retval < 0 then pure none
    else do
      let args ← irqArgsLoop t sprtNode start rounds (i + 1)
      pure (args.map (value.headD 0 :: ·))

/-- `fwk_of_irq_parse_one`: what it returns, and what it leaves in `*sprt_irq` if that is no
error. -/
def fwkOfIrqParseOne (t : DeviceTree) (sprtNode : Option ObjPtr) (index : Nat) :
    Except Stop (Int × Option FwkOfPhandleArgs) :=
  if sprtNode.isNone then .ok (-erNullptr, none)
  else do
    let (ptrValue, lenth) := fwkOfGetProperty t sprtNode (cstring "interrupts")
    let lenth := lenth / 4
    let cells ← fwkOfNIrqCells t sprtNode
    if cells = 0 ∨ fwkOfMaxPhandleArgs ≤ cells then pure (-erFault, none)
    else if ptrValue.isNone ∨ lenth < add32 index 1 * cells % 2 ^ 32 then pure (-erFault, none)
    else do
      match ← irqArgsLoop t sprtNode (index * cells % 2 ^ 32) cells 0 with
      | none => pure (-erFault, none)
      | some args =>
        let sprtParent ← fwkOfIrqParent t sprtNode
        if sprtParent.isNone then pure (-erFault, none)
        else pure (erNormal, some ⟨sprtParent, args⟩)

/-! ## Where the search for the parent goes -/

variable {t : DeviceTree} {n m : ObjPtr}

namespace DeviceTree

/-- The node where searches by phandle begin. -/
abbrev ofRoot (t : DeviceTree) : Option ObjPtr := t.fwkOfFindNodeByPath (cstring "/")

/-- The reference of a node to its interrupt parent. -/
def irqHandle (t : DeviceTree) (n : ObjPtr) : Option Nat :=
  (t.cell (some n) (cstring "interrupt-parent") 0).or
    (t.cell (some n) (cstring "interrupt-extended") 0)

/-- The node refers to a phandle that no node has. -/
def Dangles (t : DeviceTree) (n : ObjPtr) : Prop :=
  ∃ handle, t.irqHandle n = some handle ∧ fwkOfFindNodeByPhandle t t.ofRoot handle = none

/-- The node that is referred to, or else the parent. -/
def irqNext (t : DeviceTree) (n : ObjPtr) : Option ObjPtr :=
  match t.irqHandle n with
  | none => (t.node n).parent
  | some handle => fwkOfFindNodeByPhandle t t.ofRoot handle

/-- The search goes on from `n` to `m`, which does not say how many cells an interrupt has. -/
def IrqStep (t : DeviceTree) (n m : ObjPtr) : Prop :=
  t.irqNext n = some m ∧ t.prop (some m) (cstring "#interrupt-cells") = none

end DeviceTree

/-- A reference, followed. -/
theorem followHandle_eq (t : DeviceTree) (sprtRoot sprtNp : Option ObjPtr)
    (ptrName : List UInt8) :
    followHandle t sprtRoot sprtNp ptrName =
      .ok ((t.cell sprtNp ptrName 0).elim (false, sprtNp) fun handle =>
        ((fwkOfFindNodeByPhandle t sprtRoot handle).isSome,
          fwkOfFindNodeByPhandle t sprtRoot handle)) := by
  simp only [followHandle, fwkOfPropertyReadU32_eq, bind, Except.bind, pure, Except.pure]
  cases t.cell sprtNp ptrName 0 with
  | none => rfl
  | some handle => rfl

/-- One round of the search. -/
theorem irqParentRound_eq (t : DeviceTree) (n : ObjPtr) :
    irqParentRound t t.ofRoot n =
      match t.irqHandle n with
      | none => .ok (t.node n).parent
      | some handle =>
        (fwkOfFindNodeByPhandle t t.ofRoot handle).elim (.error .fault) fun m => .ok (some m) := by
  have hnull : ∀ ptrName, followHandle t t.ofRoot none ptrName = .ok (false, none) :=
    followHandle_eq t t.ofRoot none
  simp only [irqParentRound, followHandle_eq t t.ofRoot (some n), DeviceTree.irqHandle, bind,
    Except.bind, pure, Except.pure]
  cases t.cell (some n) (cstring "interrupt-parent") 0 with
  | some handle =>
    simp only [Option.elim_some, Option.some_or]
    rcases Option.eq_none_or_eq_some (fwkOfFindNodeByPhandle t t.ofRoot handle) with hm | ⟨m, hm⟩
    · simp [hm, hnull]
    · simp [hm]
  | none =>
    simp only [Option.elim_none, Option.none_or, Bool.false_eq_true, if_false, followHandle_eq]
    cases t.cell (some n) (cstring "interrupt-extended") 0 with
    | some handle =>
      simp only [Option.elim_some]
      rcases Option.eq_none_or_eq_some (fwkOfFindNodeByPhandle t t.ofRoot handle) with
        hm | ⟨m, hm⟩
      · simp [hm]
      · simp [hm]
    | none => rfl

/-- What the search makes of the node it comes to: it is over without a node, or with one that has
the cells. -/
def irqArrive (t : DeviceTree) : Option ObjPtr → Option ObjPtr ⊕ ObjPtr
  | none => .inl none
  | some m => if (t.prop (some m) (cstring "#interrupt-cells")).isSome then .inl (some m) else .inr m

/-- The search as one that follows nodes. -/
def irqSearch (t : DeviceTree) (n : ObjPtr) : Except Stop (Option ObjPtr ⊕ ObjPtr) :=
  (irqParentRound t t.ofRoot n).map (irqArrive t)

theorem irqArrive_inr {sprtNp : Option ObjPtr} : irqArrive t sprtNp = .inr m ↔
    sprtNp = some m ∧ t.prop (some m) (cstring "#interrupt-cells") = none := by
  cases sprtNp with
  | none => simp [irqArrive]
  | some m' =>
    rw [irqArrive]
    split
    · rename_i hcells
      simp only [reduceCtorEq, false_iff, not_and]
      rintro h
      cases h
      exact Option.isSome_iff_ne_none.mp hcells
    · rename_i hcells
      simp only [Sum.inr.injEq, Option.some.injEq, iff_self_and]
      rintro rfl
      exact Option.not_isSome_iff_eq_none.mp hcells

theorem irqArrive_inl {sprtNp sprtNp' : Option ObjPtr} (h : irqArrive t sprtNp = .inl sprtNp')
    (hm : sprtNp' = some m) : (t.prop (some m) (cstring "#interrupt-cells")).isSome = true := by
  cases sprtNp with
  | none =>
    cases h
    cases hm
  | some m' =>
    rw [irqArrive] at h
    split at h
    · cases h
      cases hm
      assumption
    · cases h

theorem irqSearch_passes : Passes (irqSearch t) n ↔ ¬ t.Dangles n := by
  rw [Passes, irqSearch, irqParentRound_eq, DeviceTree.Dangles]
  cases t.irqHandle n with
  | none => simp [Except.map]
  | some handle =>
    cases hm : fwkOfFindNodeByPhandle t t.ofRoot handle with
    | none => simp [Except.map, hm]
    | some m => simp [Except.map, hm]

theorem irqSearch_goesOn : GoesOn (irqSearch t) n m ↔ t.IrqStep n m := by
  rw [GoesOn, irqSearch, irqParentRound_eq, DeviceTree.IrqStep, DeviceTree.irqNext]
  cases t.irqHandle n with
  | none => simp [Except.map, irqArrive_inr]
  | some handle =>
    cases hm : fwkOfFindNodeByPhandle t t.ofRoot handle with
    | none => simp [Except.map, hm]
    | some m' => simp [Except.map, hm, irqArrive_inr]

/-- The loop of `fwk_of_irq_parent` returns what the search finds. -/
theorem irqParentLoop_ok_iff (rounds : Nat) (sprtNp : Option ObjPtr) :
    irqParentLoop t t.ofRoot (rounds + 1) (some n) none = .ok sprtNp ↔
      follow (irqSearch t) .spins rounds n = .ok sprtNp := by
  induction rounds generalizing n with
  | zero =>
    simp only [irqParentLoop, follow, reduceCtorEq, iff_false]
    cases hround : irqParentRound t t.ofRoot n with
    | error stop => simp [bind, Except.bind]
    | ok m => simp [bind, Except.bind]
  | succ rounds ih =>
    rw [irqParentLoop, follow, irqSearch]
    cases irqParentRound t t.ofRoot n with
    | error stop => simp [Except.map, bind, Except.bind]
    | ok sprtNp' =>
      cases sprtNp' with
      | none => simp [Except.map, irqArrive, irqParentLoop, bind, Except.bind]
      | some m =>
        by_cases hcells : (t.prop (some m) (cstring "#interrupt-cells")).isSome = true
        · simp [Except.map, irqArrive, hcells, irqParentLoop, bind, Except.bind]
        · have hnone := Option.not_isSome_iff_eq_none.mp hcells
          simpa [Except.map, irqArrive, hcells, hnone, bind, Except.bind] using ih

/-- The search returns, with no node or with one that has the cells. -/
def IrqParentFound (t : DeviceTree) (n : ObjPtr) : Prop :=
  ∃ sprtNp, fwkOfIrqParent t (some n) = .ok sprtNp ∧
    ∀ m, sprtNp = some m → (t.prop (some m) (cstring "#interrupt-cells")).isSome = true

/-- **The interrupt parent.**  For every node of every tree, the search returns, with no node or
with one that says how many cells an interrupt has, exactly if none of the nodes it comes to
refers to a phandle that no node has, and none of them leads back to itself. -/
theorem irq_parent_iff (hn : n ∈ t.allNodes) :
    IrqParentFound t n ↔
      ∀ m, ReflTransGen t.IrqStep n m → ¬ t.Dangles m ∧ ¬ TransGen t.IrqStep m m := by
  -- the search stays among the nodes, which are fewer than its rounds
  have hrel : GoesOn (irqSearch t) = t.IrqStep := by
    funext a b
    exact propext irqSearch_goesOn
  have hclosed : ∀ a ∈ t.allNodes, ∀ b, GoesOn (irqSearch t) a b → b ∈ t.allNodes := by
    intro a ha b hab
    have hnext := (irqSearch_goesOn.mp hab).1
    rw [DeviceTree.irqNext] at hnext
    split at hnext
    · exact t.parent_mem ha hnext
    · exact mem_of_findNodeByPhandle hnext
  have hlen : t.allNodes.length < walkRounds - 1 := by
    have := ObjPtr.length_of_nodup t.nodup
    unfold walkRounds
    omega
  have hok := follow_ok_iff Stop.spins hclosed hn hlen
  rw [hrel] at hok
  simp only [← irqSearch_passes]
  rw [← hok, IrqParentFound]
  have hloop : ∀ sprtNp, fwkOfIrqParent t (some n) = .ok sprtNp ↔
      follow (irqSearch t) .spins (walkRounds - 1) n = .ok sprtNp :=
    irqParentLoop_ok_iff (walkRounds - 1)
  simp only [hloop]
  constructor
  · rintro ⟨sprtNp, hrun, -⟩
    exact ⟨sprtNp, hrun⟩
  · rintro ⟨sprtNp, hrun⟩
    refine ⟨sprtNp, hrun, fun m hm => ?_⟩
    -- what is returned is what the last round came to
    obtain ⟨y, -, hlast⟩ := follow_last hrun
    rw [irqSearch] at hlast
    cases hround : irqParentRound t t.ofRoot y with
    | error stop =>
      rw [hround] at hlast
      cases hlast
    | ok sprtNp' =>
      rw [hround] at hlast
      exact irqArrive_inl (Except.ok.inj hlast) hm

/-- A root with interrupt cells, and a child with three words of interrupts; `handle` is the phandle
that the child refers to. -/
def irqTree (handle : Nat) : DeviceTree where
  allNodes := [⟨0x61000, by decide⟩, ⟨0x62000, by decide⟩]
  node := fun n =>
    if n.1 = 0x61000 then
      { fullName := cstring "/", phandle := 1, parent := none,
        properties := [⟨cstring "#interrupt-cells", 0x3000, beBytes 2, by decide, by decide⟩] }
    else
      { fullName := cstring "/gpio", phandle := 2, parent := some ⟨0x61000, by decide⟩,
        properties := [⟨cstring "interrupt-parent", 0x3010, beBytes handle, by simp [beBytes], beBytes_short handle⟩,
          ⟨cstring "interrupts", 0x3020, beBytes 5 ++ beBytes 6 ++ beBytes 7, by decide, by decide⟩] }
  nodup := by decide
  above := by
    intro n hn p hp
    rcases List.mem_pair.mp hn with rfl | rfl
    · cases hp
    · cases hp
      decide

/-- The child of the tree whose reference is good finds the root. -/
theorem irq_parent_iff_root : IrqParentFound (irqTree 1) ⟨0x62000, by decide⟩ := by
  refine (irq_parent_iff (by decide)).mpr fun m hm => ?_
  have hnext : (irqTree 1).irqNext ⟨0x62000, by decide⟩ = some ⟨0x61000, by decide⟩ := by rfl
  have hend : ∀ y, ¬ (irqTree 1).IrqStep ⟨0x62000, by decide⟩ y := by
    rintro y ⟨hy, hnone⟩
    rw [hnext] at hy
    cases hy
    cases hnone
  obtain rfl : m = ⟨0x62000, by decide⟩ := by
    rcases ReflTransGen.cases_head hm with heq | ⟨y, hy, -⟩
    · exact heq.symm
    · exact absurd hy (hend y)
  refine ⟨?_, fun hcycle => ?_⟩
  · rintro ⟨handle, hhandle, hnone⟩
    cases hhandle
    cases hnone
  · obtain ⟨y, hy, -⟩ := TransGen.head'_iff.mp hcycle
    exact hend y hy

/-- The child refers to a phandle that no node has: the null pointer is followed to its parent. -/
theorem irq_parent_faults :
    ∃ n ∈ (irqTree 7).allNodes, ¬ IrqParentFound (irqTree 7) n := by
  refine ⟨⟨0x62000, by decide⟩, by decide, ?_⟩
  rintro ⟨sprtNp, hrun, -⟩
  have hfault : fwkOfIrqParent (irqTree 7) (some ⟨0x62000, by decide⟩) = .error .fault := by rfl
  rw [hfault] at hrun
  cases hrun

/-! ## Counting against parsing -/

namespace DeviceTree

/-- How many cells an interrupt has under this parent. -/
def irqCells (t : DeviceTree) (sprtNp : Option ObjPtr) : Nat :=
  (sprtNp.bind fun m => t.cell (some m) (cstring "#interrupt-cells") 0).getD 0

/-- The words of the interrupts of a node. -/
def irqWords (t : DeviceTree) (n : ObjPtr) : List Nat :=
  (t.prop (some n) (cstring "interrupts")).elim [] OfProperty.words

theorem cell_lt {sprtNode : Option ObjPtr} {ptrName : List UInt8} {index w : Nat}
    (h : t.cell sprtNode ptrName index = some w) : w < 2 ^ 32 := by
  obtain ⟨prop, -, hw⟩ := Option.bind_eq_some_iff.mp h
  exact beWords_lt (List.mem_of_getElem? hw)

theorem irqCells_lt (t : DeviceTree) (sprtNp : Option ObjPtr) : t.irqCells sprtNp < 2 ^ 32 := by
  rw [irqCells]
  cases hcell : sprtNp.bind fun m => t.cell (some m) (cstring "#interrupt-cells") 0 with
  | none => decide
  | some w =>
    obtain ⟨m, -, hw⟩ := Option.bind_eq_some_iff.mp hcell
    exact cell_lt hw

theorem irqWords_length (t : DeviceTree) (n : ObjPtr) : (t.irqWords n).length < 2 ^ 30 := by
  rw [irqWords]
  cases t.prop (some n) (cstring "interrupts") with
  | none => decide
  | some prop =>
    have hplace := prop.words_place
    simp only [Option.elim_some]
    omega

theorem cell_interrupts (t : DeviceTree) (n : ObjPtr) (k : Nat) :
    t.cell (some n) (cstring "interrupts") k = (t.irqWords n)[k]? := by
  rw [cell, irqWords]
  cases t.prop (some n) (cstring "interrupts") with
  | none => rfl
  | some prop => rfl

end DeviceTree

variable {sprtNp : Option ObjPtr} {cells index : Nat}

theorem fwkOfNIrqCells_eq (hparent : fwkOfIrqParent t (some n) = .ok sprtNp) :
    fwkOfNIrqCells t (some n) = .ok (t.irqCells sprtNp) := by
  simp only [fwkOfNIrqCells, hparent, bind, Except.bind, pure, Except.pure, DeviceTree.irqCells]
  cases sprtNp with
  | none => rfl
  | some m =>
    simp only [fwkOfPropertyReadU32_eq, Option.bind_some]
    cases t.cell (some m) (cstring "#interrupt-cells") 0 with
    | none => rfl
    | some w => rfl

/-- Groups whose first words are among `len` are no more than the words, and the first word behind
them has a number that does not wrap. -/
theorem groups_bounds {len count : Nat} (h0 : 0 < cells) (hcells : cells < 2 ^ 32)
    (hlen : len < 2 ^ 30) (hbefore : ∀ i, i < count → i * cells < len) :
    count ≤ len ∧ count * cells < 2 ^ 32 := by
  rcases count with _ | _ | k
  · simp
  · have hfirst := hbefore 0 Nat.one_pos
    simp only [Nat.zero_mul] at hfirst
    omega
  · have hk : (k + 1) * cells < len := hbefore (k + 1) (Nat.lt_succ_self _)
    have hcount : k + 1 ≤ (k + 1) * cells := Nat.le_mul_of_pos_right (k + 1) h0
    have hone : cells ≤ (k + 1) * cells := Nat.le_mul_of_pos_left cells (Nat.succ_pos k)
    refine ⟨by omega, ?_⟩
    rw [Nat.succ_mul]
    omega

/-- The loop of `fwk_of_irq_count` counts the groups whose first word is there. -/
theorem irqCountLoop_spec (h0 : 0 < cells) (hcells : cells < 2 ^ 32) (rounds count : Nat)
    (hbefore : ∀ i, i < count → i * cells < (t.irqWords n).length)
    (hrounds : (t.irqWords n).length < count + rounds) :
    ∃ count', irqCountLoop t (some n) cells rounds count = .ok count' ∧
      ∀ i, i < count' ↔ i * cells < (t.irqWords n).length := by
  induction rounds generalizing count with
  | zero =>
    have := (groups_bounds h0 hcells (t.irqWords_length n) hbefore).1
    omega
  | succ rounds ih =>
    obtain ⟨hle, hwrap⟩ := groups_bounds h0 hcells (t.irqWords_length n) hbefore
    have hlen := t.irqWords_length n
    simp only [irqCountLoop, fwkOfPropertyReadU32Index_eq, DeviceTree.cell_interrupts, bind,
      Except.bind, Nat.mod_eq_of_lt hwrap]
    by_cases hread : count * cells < (t.irqWords n).length
    · have hadd : add32 count 1 = count + 1 := add32_of_lt (by omega)
      have hbefore' : ∀ i, i < count + 1 → i * cells < (t.irqWords n).length := by
        intro i hi
        rcases Nat.lt_succ_iff_lt_or_eq.mp hi with hlt | rfl
        · exact hbefore i hlt
        · exact hread
      rw [List.getElem?_eq_getElem hread]
      simp only [Option.elim_some, hadd]
      exact ih (count + 1) hbefore' (by omega)
    · -- the first group whose first word is not there
      rw [List.getElem?_eq_none (Nat.le_of_not_lt hread)]
      refine ⟨count, rfl, fun i => ⟨hbefore i, fun hi => ?_⟩⟩
      by_contra hge
      exact hread (Nat.lt_of_le_of_lt (Nat.mul_le_mul_right cells (Nat.le_of_not_lt hge)) hi)

/-- **`fwk_of_irq_count`**: an index counts if the first word of its group is there. -/
theorem fwkOfIrqCount_spec (hparent : fwkOfIrqParent t (some n) = .ok sprtNp) :
    ∃ count, fwkOfIrqCount t (some n) = .ok count ∧
      ∀ i, i < count ↔ 0 < t.irqCells sprtNp ∧ i * t.irqCells sprtNp < (t.irqWords n).length := by
  simp only [fwkOfIrqCount, fwkOfNIrqCells_eq hparent, bind, Except.bind, pure, Except.pure]
  by_cases h0 : t.irqCells sprtNp = 0
  · rw [if_pos h0]
    refine ⟨0, rfl, fun i => ?_⟩
    omega
  · have hpos : 0 < t.irqCells sprtNp := Nat.pos_of_ne_zero h0
    have hlen := t.irqWords_length n
    obtain ⟨count, hrun, hcount⟩ := irqCountLoop_spec (t := t) (n := n) hpos
      (t.irqCells_lt sprtNp) walkRounds 0 (by omega) (by unfold walkRounds; omega)
    rw [if_neg h0]
    refine ⟨count, hrun, fun i => ?_⟩
    rw [hcount, and_iff_right hpos]

/-- The loop of `fwk_of_irq_parse_one` reads words that are there. -/
theorem irqArgsLoop_ok {start rounds i : Nat}
    (h : start + i + rounds ≤ (t.irqWords n).length) :
    irqArgsLoop t (some n) start rounds i =
      .ok (some (((t.irqWords n).drop (start + i)).take rounds)) := by
  have hlen := t.irqWords_length n
  induction rounds generalizing i with
  | zero => simp [irqArgsLoop]
  | succ rounds ih =>
    have hread : start + i < (t.irqWords n).length := by omega
    have hadd : add32 start i = start + i := add32_of_lt (by omega)
    simp only [irqArgsLoop, fwkOfPropertyReadU32Index_eq, DeviceTree.cell_interrupts, hadd,
      List.getElem?_eq_getElem hread, Option.elim_some, bind, Except.bind, pure, Except.pure,
      ih (i := i + 1) (by omega), List.drop_eq_getElem_cons hread, List.take_succ_cons]
    rfl

/-- The loop returns when the first word is not there. -/
theorem irqArgsLoop_none {start : Nat} (h : (t.irqWords n).length ≤ start)
    (hstart : start < 2 ^ 32) (rounds : Nat) :
    irqArgsLoop t (some n) start (rounds + 1) 0 = .ok none := by
  have hadd : add32 start 0 = start := add32_of_lt hstart
  simp only [irqArgsLoop, fwkOfPropertyReadU32Index_eq, DeviceTree.cell_interrupts, hadd,
    List.getElem?_eq_none h, Option.elim_none, bind, Except.bind, pure, Except.pure]
  rfl

/-- What `fwk_of_irq_parse_one` sees of the property. -/
theorem interrupts_lenth (t : DeviceTree) (n : ObjPtr) :
    (fwkOfGetProperty t (some n) (cstring "interrupts")).2 / 4 = (t.irqWords n).length ∧
      ((fwkOfGetProperty t (some n) (cstring "interrupts")).1.isNone = true →
        (t.irqWords n).length = 0) := by
  simp only [fwkOfGetProperty, fwkOfFindProperty_length, DeviceTree.irqWords]
  cases hprop : t.prop (some n) (cstring "interrupts") with
  | none => exact ⟨rfl, fun _ => rfl⟩
  | some prop =>
    refine ⟨(beWords_length prop.bytes).symm, fun hnone => ?_⟩
    rw [show (fwkOfFindProperty t (some n) (cstring "interrupts")).1 = some prop from hprop] at hnone
    cases hnone

/-- The end of a group, as a 32-bit number, is among `len` words and leaves room for the group, whose
cells are fewer than the places for them. -/
def GroupFits (len cells index : Nat) : Prop :=
  0 < cells ∧ cells < fwkOfMaxPhandleArgs ∧ cells ≤ (index + 1) * cells % 2 ^ 32 ∧
    (index + 1) * cells % 2 ^ 32 ≤ len

instance (len cells index : Nat) : Decidable (GroupFits len cells index) :=
  inferInstanceAs (Decidable (_ ∧ _ ∧ _ ∧ _))

/-- Where a group begins whose end is among the words. -/
theorem group_start {len : Nat} (hlen : len < 2 ^ 30) (hcells : cells < fwkOfMaxPhandleArgs)
    (hend : (index + 1) * cells % 2 ^ 32 ≤ len) :
    if cells ≤ (index + 1) * cells % 2 ^ 32 then index * cells % 2 ^ 32 + cells ≤ len
    else len ≤ index * cells % 2 ^ 32 := by
  rw [Nat.succ_mul] at hend ⊢
  generalize index * cells = start at hend ⊢
  unfold fwkOfMaxPhandleArgs at hcells
  split <;> omega

/-- **`fwk_of_irq_parse_one`** gives the group whose end it has compared. -/
theorem fwkOfIrqParseOne_eq (hparent : fwkOfIrqParent t (some n) = .ok sprtNp) (index : Nat) :
    fwkOfIrqParseOne t (some n) index =
      .ok (if GroupFits (t.irqWords n).length (t.irqCells sprtNp) index then
        (erNormal, some ⟨sprtNp, ((t.irqWords n).drop
          (index * t.irqCells sprtNp % 2 ^ 32)).take (t.irqCells sprtNp)⟩)
      else (-erFault, none)) := by
  have hlen := t.irqWords_length n
  obtain ⟨hlenth, hnull⟩ := interrupts_lenth t n
  have hend : add32 index 1 * t.irqCells sprtNp % 2 ^ 32 =
      (index + 1) * t.irqCells sprtNp % 2 ^ 32 := Nat.mod_mul_mod _ _ _
  simp only [fwkOfIrqParseOne, fwkOfNIrqCells_eq hparent, hlenth, hend, bind, Except.bind, pure,
    Except.pure, Option.isNone_some, Bool.false_eq_true, if_false]
  by_cases hbad : t.irqCells sprtNp = 0 ∨ fwkOfMaxPhandleArgs ≤ t.irqCells sprtNp
  · rw [if_pos hbad, if_neg]
    rintro ⟨h0, h16, -⟩
    omega
  have hpos : 0 < t.irqCells sprtNp := by omega
  have hroom : t.irqCells sprtNp < fwkOfMaxPhandleArgs := by omega
  have hnode : sprtNp.isNone = false := by
    cases sprtNp with
    | none => exact absurd rfl hpos.ne
    | some m => rfl
  rw [if_neg hbad]
  -- the end of the group is compared with the end of the words
  by_cases hout : (fwkOfGetProperty t (some n) (cstring "interrupts")).1.isNone = true ∨
      (t.irqWords n).length < (index + 1) * t.irqCells sprtNp % 2 ^ 32
  · rw [if_pos hout, if_neg]
    rintro ⟨-, -, hle, hin⟩
    rcases hout with hnone | hout
    · have := hnull hnone
      omega
    · omega
  have hin : (index + 1) * t.irqCells sprtNp % 2 ^ 32 ≤ (t.irqWords n).length := by omega
  have hstart := group_start hlen hroom hin
  rw [if_neg hout]
  by_cases hle : t.irqCells sprtNp ≤ (index + 1) * t.irqCells sprtNp % 2 ^ 32
  · rw [if_pos hle] at hstart
    rw [irqArgsLoop_ok (i := 0) (by simpa using hstart), if_pos ⟨hpos, hroom, hle, hin⟩]
    simp [hparent, hnode]
  · -- the end has wrapped into the group, so its first word is behind the words
    rw [if_neg hle] at hstart
    obtain ⟨rounds, hrounds⟩ : ∃ rounds, t.irqCells sprtNp = rounds + 1 :=
      ⟨t.irqCells sprtNp - 1, by omega⟩
    rw [if_neg fun hfits => hle hfits.2.2.1]
    have hnone := irqArgsLoop_none hstart (Nat.mod_lt _ (by decide)) rounds
    rw [← hrounds] at hnone
    rw [hnone]

/-- Where the end of a group among `len` words is compared rightly, and where not. -/
theorem groupFits_iff_counts {len : Nat} (hlen : len < 2 ^ 30) :
    (GroupFits len cells index ↔ 0 < cells ∧ index * cells < len) ↔
      cells = 0 ∨ (index < len / cells ∧ cells < fwkOfMaxPhandleArgs) ∨
        (len ≤ index * cells ∧ ¬ GroupFits len cells index) := by
  rcases Nat.eq_zero_or_pos cells with rfl | hpos
  · simp [GroupFits]
  have hdiv : index < len / cells ↔ index * cells + cells ≤ len := by
    rw [← Nat.succ_le_iff, Nat.le_div_iff_mul_le hpos, Nat.succ_mul]
  rw [hdiv, GroupFits, Nat.succ_mul]
  generalize index * cells = start
  unfold fwkOfMaxPhandleArgs
  constructor
  · intro h
    by_cases hin : start < len
    · -- the group is counted, so its end is inside and has not wrapped
      obtain ⟨-, h16, hle, hend⟩ := h.mpr ⟨hpos, hin⟩
      exact Or.inr (Or.inl ⟨by omega, h16⟩)
    · exact Or.inr (Or.inr ⟨by omega, fun hfits => hin (h.mp hfits).2⟩)
  · rintro (h0 | ⟨hwhole, h16⟩ | ⟨hout, hnot⟩)
    · omega
    · have hmod : (start + cells) % 2 ^ 32 = start + cells := Nat.mod_eq_of_lt (by omega)
      rw [hmod]
      omega
    · exact ⟨fun hfits => absurd hfits hnot, fun hin => absurd hin.2 (by omega)⟩

/-- The two calls agree about an index: it is parsed if it is counted, and then the group is the one
at its place. -/
def CountedAsParsed (t : DeviceTree) (n : ObjPtr) (sprtNp : Option ObjPtr) (index : Nat) : Prop :=
  ∃ count retval sprtIrq, fwkOfIrqCount t (some n) = .ok count ∧
    fwkOfIrqParseOne t (some n) index = .ok (retval, sprtIrq) ∧
    (retval = erNormal ↔ index < count) ∧
    (retval = erNormal → sprtIrq = some ⟨sprtNp,
      ((t.irqWords n).drop (index * t.irqCells sprtNp)).take (t.irqCells sprtNp)⟩)

/-- **Counting agrees with parsing** at an index exactly if interrupts have no cells; or the group is
there as a whole and its cells are fewer than there is room for; or nothing of the group is there,
and its end, as a 32-bit number, does not make it seem to be there. -/
theorem irq_count_iff (hparent : fwkOfIrqParent t (some n) = .ok sprtNp) (index : Fin (2 ^ 32)) :
    CountedAsParsed t n sprtNp index ↔
      t.irqCells sprtNp = 0 ∨
      (index < (t.irqWords n).length / t.irqCells sprtNp ∧
        t.irqCells sprtNp < fwkOfMaxPhandleArgs) ∨
      ((t.irqWords n).length ≤ index * t.irqCells sprtNp ∧
        ¬ GroupFits (t.irqWords n).length (t.irqCells sprtNp) index) := by
  obtain ⟨count, hrun, hcount⟩ := fwkOfIrqCount_spec hparent
  have hparse := fwkOfIrqParseOne_eq hparent index
  have hlen := t.irqWords_length n
  rw [← groupFits_iff_counts hlen, ← hcount]
  constructor
  · rintro ⟨count', retval, sprtIrq, hrun', hparse', hiff, -⟩
    obtain rfl : count = count' := Except.ok.inj (hrun.symm.trans hrun')
    rw [hparse, Except.ok.injEq] at hparse'
    rw [← hiff]
    split at hparse'
    · cases hparse'
      simpa
    · rename_i hnot
      cases hparse'
      exact ⟨fun hfits => absurd hfits hnot, fun hbad => absurd hbad (by decide)⟩
  · intro hiff
    by_cases hfits : GroupFits (t.irqWords n).length (t.irqCells sprtNp) index
    · -- the first word of the group is among the words, so its number has not wrapped
      have hin := ((hcount index).mp (hiff.mp hfits)).2
      rw [if_pos hfits, Nat.mod_eq_of_lt (by omega)] at hparse
      exact ⟨count, _, _, hrun, hparse, ⟨fun _ => hiff.mp hfits, fun _ => rfl⟩, fun _ => rfl⟩
    · rw [if_neg hfits] at hparse
      refine ⟨count, _, _, hrun, hparse, ⟨fun hbad => absurd hbad (by decide), fun hlt => ?_⟩,
        fun hbad => absurd hbad (by decide)⟩
      exact absurd (hiff.mpr hlt) hfits

/-- The first two of the three words are an interrupt. -/
theorem irq_count_iff_first :
    CountedAsParsed (irqTree 1) ⟨0x62000, by decide⟩ (some ⟨0x61000, by decide⟩) (0 : Fin (2 ^ 32)) :=
  (irq_count_iff (show fwkOfIrqParent (irqTree 1) (some ⟨0x62000, by decide⟩) =
    .ok (some ⟨0x61000, by decide⟩) from rfl) 0).mpr (Or.inr (Or.inl ⟨by decide, by decide⟩))

/-- The third word is counted as an interrupt and cannot be parsed as one. -/
theorem irq_count_half_group :
    fwkOfIrqParent (irqTree 1) (some ⟨0x62000, by decide⟩) = .ok (some ⟨0x61000, by decide⟩) ∧
      ¬ CountedAsParsed (irqTree 1) ⟨0x62000, by decide⟩ (some ⟨0x61000, by decide⟩) 1 := by
  have hparent : fwkOfIrqParent (irqTree 1) (some ⟨0x62000, by decide⟩) =
      .ok (some ⟨0x61000, by decide⟩) := by
    rfl
  have hcells : (irqTree 1).irqCells (some ⟨0x61000, by decide⟩) = 2 := by rfl
  have hwords : ((irqTree 1).irqWords ⟨0x62000, by decide⟩).length = 3 := by rfl
  refine ⟨hparent, ?_⟩
  rintro ⟨count, retval, sprtIrq, hrun, hparse, hiff, -⟩
  obtain ⟨count', hrun', hcount⟩ := fwkOfIrqCount_spec hparent
  obtain rfl : count = count' := Except.ok.inj (hrun.symm.trans hrun')
  rw [fwkOfIrqParseOne_eq hparent, hcells, hwords, if_neg (by decide)] at hparse
  cases hparse
  have hcounted : 1 < count := (hcount 1).mpr (by rw [hcells, hwords]; decide)
  exact absurd (hiff.mpr hcounted) (by decide)

end HeavenFox.Platform
