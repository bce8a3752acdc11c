/-
# HeavenFox.Platform.IrqTypes -- actions on interrupt lines

`fwk_irq_types.c` keeps a list of actions for every interrupt descriptor.
`fwk_request_irq` puts an action at the end of the list and enables the line,
`fwk_free_irq` disables the line and takes the action of a device off.

The line is disabled before the list is looked at, so a device that goes, or that was
never there, takes the interrupt away from the others.  `line_enabled_iff` makes that
exact: a run keeps every line enabled just as long as it has actions, if and only if every
`fwk_free_irq` in it meets a line with no action at all or with one action, the device's.
-/
import HeavenFox.Common.ListTypes
import HeavenFox.Logic.Rings
import HeavenFox.Logic.Run

namespace HeavenFox.Platform

open HeavenFox.Common HeavenFox.Logic

/-! ## Chips and descriptors -/

/-- What an operation of a chip does with the enable bit of a line. -/
inductive BitOp where
  | set
  | clear
  | keep
  deriving DecidableEq, Repr

def BitOp.apply : BitOp → Bool → Bool
  | .set, _ => true
  | .clear, _ => false
  | .keep, bit => bit

/-- A `struct fwk_irq_chip`: the operations it has. -/
structure IrqChip where
  irqEnable : Option BitOp
  irqDisable : Option BitOp
  irqMask : Option BitOp
  irqUnmask : Option BitOp
  irqSetType : Bool
  deriving DecidableEq, Repr

/-- Enable and disable set and clear the enable bit. -/
def IrqChip.SetsAndClears (chip : IrqChip) : Prop :=
  chip.irqEnable = some .set ∧ chip.irqDisable = some .clear

instance (chip : IrqChip) : Decidable chip.SetsAndClears := inferInstanceAs (Decidable (_ ∧ _))

/-- What is read here of a `struct fwk_irq_desc`. -/
structure IrqDesc where
  flags : Nat
  chip : IrqChip
  deriving DecidableEq, Repr

/-- The descriptors, by virtual interrupt number. -/
abbrev IrqTable := Nat → Option IrqDesc

/-- An `irq_handler_t`, with the default one of this file. -/
inductive IrqHandler where
  | fwkDefaultIrqIsr
  | handler (entry : ObjPtr)
  deriving DecidableEq, Repr

/-- A `struct fwk_irq_action`, its link apart. -/
structure IrqAction where
  name : List Nat
  handler : IrqHandler
  flags : Nat
  ptrArgs : Nat
  deriving DecidableEq, Repr

/-- What has a `struct list_head`: the `sgrt_action` of a descriptor, and every action. -/
inductive IrqNode where
  | sgrtAction (irq : Nat)
  | action (sprtAction : ObjPtr)
  deriving DecidableEq, Repr

/-- The action lists, the actions and which of them are allocated, and of every line the enable bit
and the trigger type its chip was last given. -/
structure IrqLines where
  links : Links IrqNode
  action : ObjPtr → IrqAction
  live : ObjPtr → Bool
  enabled : Nat → Bool
  type : Nat → Nat

/-- No action, no line enabled. -/
def IrqLines.start : IrqLines where
  links := ⟨id, id⟩
  action := fun _ => ⟨[], .fwkDefaultIrqIsr, 0, 0⟩
  live := fun _ => false
  enabled := fun _ => false
  type := fun _ => 0

/-- The `kuint32_t` that `fwk_irq_to_desc` is given. -/
def irqNumber (irq : Int) : Nat := (irq % 2 ^ 32).toNat

/-- `fwk_irq_to_desc`. -/
def fwkIrqToDesc (irqs : IrqTable) (irq : Int) : Option IrqDesc := irqs (irqNumber irq)

/-- An operation of the chip is carried out on a line. -/
def IrqLines.setBit (s : IrqLines) (irq : Int) (op : BitOp) : IrqLines :=
  { s with
    enabled :=
      Function.update s.enabled (irqNumber irq) (op.apply (s.enabled (irqNumber irq))) }

/-- `fwk_enable_irq`. -/
def fwkEnableIrq (irqs : IrqTable) (s : IrqLines) (irq : Int) : IrqLines :=
  match fwkIrqToDesc irqs irq with
  | none => s
  | some desc =>
    match desc.chip.irqEnable with
    | some op => s.setBit irq op
    | none =>
      match desc.chip.irqMask with
      | some op => s.setBit irq op
      | none => s

/-- `fwk_disable_irq`: without `irq_disable` it looks for `irq_mask` and calls `irq_unmask`. -/
def fwkDisableIrq (irqs : IrqTable) (s : IrqLines) (irq : Int) : Except Stop IrqLines :=
  match fwkIrqToDesc irqs irq with
  | none => .ok s
  | some desc =>
    match desc.chip.irqDisable with
    | some op => .ok (s.setBit irq op)
    | none =>
      if desc.chip.irqMask.isSome then
        match desc.chip.irqUnmask with
        | some op => .ok (s.setBit irq op)
        | none => .error .fault
      else .ok s

/-- `IRQ_TYPE_SENSE_MASK`. -/
def irqTypeSenseMask : Nat := 15

/-- `fwk_irq_set_type`. -/
def fwkIrqSetType (irqs : IrqTable) (s : IrqLines) (irq : Int) (flags : Nat) : IrqLines :=
  match fwkIrqToDesc irqs irq with
  | none => s
  | some desc =>
    let type := flags &&& irqTypeSenseMask
    let type := if type = 0 then desc.flags &&& irqTypeSenseMask else type
    if desc.chip.irqSetType then { s with type := Function.update s.type (irqNumber irq) type }
    else s

/-! ## Actions -/

/-- `FWK_IRQ_DESC_NAME_LENTH`. -/
def fwkIrqDescNameLenth : Nat := 16

/-- `strncmp(a, b, n) == 0` for two strings given without their final zero. -/
def strncmpEqual (a b : List Nat) (n : Nat) : Bool := decide ((a ++ [0]).take n = (b ++ [0]).take n)

/-- The test of `fwk_find_irq_action`; without a name only the device is compared. -/
def irqActionMatches (s : IrqLines) (name : Option (List Nat)) (ptrDev : Nat)
    (sprtAction : ObjPtr) : Bool :=
  let retval :=
    match name with
    | none => true
    | some name => strncmpEqual (s.action sprtAction).name name fwkIrqDescNameLenth
  retval && decide ((s.action sprtAction).ptrArgs = ptrDev)

/-- The body of the loop in `fwk_find_irq_action`. -/
def matchIrqAction (s : IrqLines) (name : Option (List Nat)) (ptrDev : Nat) :
    IrqNode → Except Stop (Option ObjPtr)
  | .sgrtAction _ => .error .fault
  | .action sprtAction =>
    .ok (if irqActionMatches s name ptrDev sprtAction then some sprtAction else none)

/-- `fwk_find_irq_action`. -/
def fwkFindIrqAction (irqs : IrqTable) (s : IrqLines) (irq : Int) (name : Option (List Nat))
    (ptrDev : Nat) : Except Stop (Option ObjPtr) :=
  match fwkIrqToDesc irqs irq with
  | none => .ok none
  | some _ =>
    foreachEntry s.links.next (.sgrtAction (irqNumber irq)) (matchIrqAction s name ptrDev)
      walkRounds (s.links.next (.sgrtAction (irqNumber irq)))

/-- The new action is filled in, linked and the line enabled; `irq` has a descriptor. -/
def registerIrqAction (irqs : IrqTable) (s : IrqLines) (irq : Int) (action : IrqAction)
    (sprtAction : ObjPtr) : IrqLines :=
  let s := { s with
    action := Function.update s.action sprtAction action
    live := Function.update s.live sprtAction true }
  let s := fwkIrqSetType irqs s irq action.flags
  let s := { s with
    links := listHeadAddTail s.links (.sgrtAction (irqNumber irq)) (.action sprtAction) }
  fwkEnableIrq irqs s irq

/-- `fwk_request_irq`, with what `kzalloc` gives should it be called.  The length of the name is
taken before the name is checked, so a null name is dereferenced. -/
def fwkRequestIrq (irqs : IrqTable) (s : IrqLines) (irq : Int) (handler : Option ObjPtr)
    (flags : Nat) (name : Option (List Nat)) (ptrDev : Nat) (kzalloc : Option ObjPtr) :
    Except Stop (Int × IrqLines) :=
  match name with
  | none => .error .fault
  | some name =>
    if ptrDev = 0 then .ok (-erFault, s)
    else
      match fwkFindIrqAction irqs s irq (some name) ptrDev with
      | .error e => .error e
      | .ok (some _) => .ok (-erExisted, s)
      | .ok none =>
        match fwkIrqToDesc irqs irq with
        | none => .ok (-erNomem, s)
        | some _ =>
          match kzalloc with
          | none => .ok (-erNomem, s)
          | some sprtAction =>
            -- a name that does not fit: the new action is released again
            if name.length ≥ fwkIrqDescNameLenth then .ok (-erCheckerr, s)
            else
              .ok (erNormal, registerIrqAction irqs s irq
                ⟨name, handler.elim .fwkDefaultIrqIsr .handler, flags, ptrDev⟩ sprtAction)

/-- `fwk_free_irq`. -/
def fwkFreeIrq (irqs : IrqTable) (s : IrqLines) (irq : Int) (ptrDev : Nat) :
    Except Stop IrqLines :=
  if irq < 0 ∨ ptrDev = 0 then .ok s
  else do
    let s ← fwkDisableIrq irqs s irq
    match ← fwkFindIrqAction irqs s irq none ptrDev with
    | none => pure s
    | some sprtAction =>
      pure { s with
        links := listHeadDel s.links (.action sprtAction)
        live := Function.update s.live sprtAction false }

/-! ## Runs -/

/-- A call, with what the allocator gives it. -/
inductive IrqMove where
  | request (irq : Int) (handler : Option ObjPtr) (flags : Nat) (name : Option (List Nat))
      (ptrDev : Nat) (kzalloc : Option ObjPtr)
  | free (irq : Int) (ptrDev : Nat)
  deriving DecidableEq, Repr

/-- One call.  The allocator does not give out an action that is allocated already. -/
def irqStep (irqs : IrqTable) (s : IrqLines) : IrqMove → Option IrqLines
  | .request irq handler flags name ptrDev kzalloc =>
    if kzalloc.any s.live then none
    else
      match fwkRequestIrq irqs s irq handler flags name ptrDev kzalloc with
      | .error _ => none
      | .ok (_, s) => some s
  | .free irq ptrDev => (fwkFreeIrq irqs s irq ptrDev).toOption

/-- The actions on a line, in order. -/
def IrqLines.actions (s : IrqLines) (irq : Nat) : List IrqNode :=
  listMembers s.links (.sgrtAction irq) walkRounds (s.links.next (.sgrtAction irq))

/-- Every line whose chip has an enable bit is enabled if and only if it has an action. -/
def LineLaw (irqs : IrqTable) (s : IrqLines) : Prop :=
  ∀ irq desc, irqs irq = some desc → desc.chip.SetsAndClears →
    (s.enabled irq = true ↔ s.actions irq ≠ [])

/-- The node is an action of the device. -/
def IrqLines.Owned (s : IrqLines) (ptrDev : Nat) : IrqNode → Prop
  | .sgrtAction _ => False
  | .action sprtAction => (s.action sprtAction).ptrArgs = ptrDev

instance (s : IrqLines) (ptrDev : Nat) : ∀ x, Decidable (s.Owned ptrDev x)
  | .sgrtAction _ => isFalse id
  | .action _ => inferInstanceAs (Decidable (_ = _))

/-- Any action on the line is the only one there, and the device's. -/
def SoleAction (s : IrqLines) (irq ptrDev : Nat) : Prop :=
  ∀ x ∈ s.actions irq, s.actions irq = [x] ∧ s.Owned ptrDev x

instance (s : IrqLines) (irq ptrDev : Nat) : Decidable (SoleAction s irq ptrDev) :=
  inferInstanceAs (Decidable (∀ x ∈ s.actions irq, _))

/-- A `fwk_free_irq` that gets as far as the line, and whose line has an enable bit, meets a line
with no action on it or only the device's. -/
def FreeFits (irqs : IrqTable) (s : IrqLines) : IrqMove → Prop
  | .request _ _ _ _ _ _ => True
  | .free irq ptrDev => 0 ≤ irq → ptrDev ≠ 0 → ∀ desc ∈ fwkIrqToDesc irqs irq,
      desc.chip.SetsAndClears → SoleAction s (irqNumber irq) ptrDev

instance (irqs : IrqTable) (s : IrqLines) : ∀ move, Decidable (FreeFits irqs s move)
  | .request _ _ _ _ _ _ => isTrue trivial
  | .free irq ptrDev => inferInstanceAs (Decidable (0 ≤ irq → ptrDev ≠ 0 →
      ∀ desc ∈ fwkIrqToDesc irqs irq, _))

/-! ## The action lists along a run -/

/-- The lines have the action lists `acts`, all of them allocated. -/
structure IrqLinked (irqs : IrqTable) (s : IrqLines) (acts : Nat → List ObjPtr) : Prop where
  rings : Rings s.links (fun irq => (irqs irq).isSome = true) .sgrtAction (fun _ => .action) acts
  live : ∀ irq, (irqs irq).isSome = true → ∀ p ∈ acts irq, s.live p = true

section Lists

variable {irqs : IrqTable} {s s' : IrqLines} {acts : Nat → List ObjPtr} {irq : Int} {ptrDev : Nat}
  {desc : IrqDesc} {p : ObjPtr}

theorem IrqLinked.length_lt {v : Nat} (h : IrqLinked irqs s acts) (hv : (irqs v).isSome = true) :
    (acts v).length < walkRounds := by
  have hnodup : (acts v).Nodup := (h.rings.ring v hv).members_nodup.of_map
  have := ObjPtr.length_of_nodup hnodup
  unfold walkRounds
  omega

theorem IrqLinked.actions_eq {v : Nat} (h : IrqLinked irqs s acts) (hv : (irqs v).isSome = true) :
    s.actions v = (acts v).map .action :=
  listMembers_ring (h.rings.ring v hv) (by rw [List.length_map]; exact h.length_lt hv)

/-- **`fwk_find_irq_action`** returns, and what it finds is an action of the line and the device. -/
theorem fwkFindIrqAction_spec (h : IrqLinked irqs s acts) (hdesc : fwkIrqToDesc irqs irq = some desc)
    (name : Option (List Nat)) :
    ∃ found, fwkFindIrqAction irqs s irq name ptrDev = .ok found ∧
      (∀ p, found = some p → p ∈ acts (irqNumber irq) ∧ (s.action p).ptrArgs = ptrDev) ∧
      (found = none → name = none →
        ∀ p ∈ acts (irqNumber irq), (s.action p).ptrArgs ≠ ptrDev) := by
  have hv : (irqs (irqNumber irq)).isSome = true := by
    rw [show irqs (irqNumber irq) = some desc from hdesc]
    rfl
  have hwalk : foreachEntry s.links.next (.sgrtAction (irqNumber irq))
      (matchIrqAction s name ptrDev) walkRounds (s.links.next (.sgrtAction (irqNumber irq))) =
        .ok ((acts (irqNumber irq)).findSome? fun p =>
          if irqActionMatches s name ptrDev p then some p else none) :=
    foreachEntry_next (h.rings.ring _ hv) (fun _ _ => rfl) (h.length_lt hv)
  refine ⟨_, by rw [fwkFindIrqAction, hdesc]; exact hwalk, fun p hp => ?_, fun hnone hname p hp => ?_⟩
  · obtain ⟨q, hq, hmatch⟩ := List.exists_of_findSome?_eq_some hp
    split at hmatch
    · rename_i hyes
      cases hmatch
      simp only [irqActionMatches, Bool.and_eq_true, decide_eq_true_eq] at hyes
      exact ⟨hq, hyes.2⟩
    · cases hmatch
  · subst hname
    have hno := List.findSome?_eq_none_iff.mp hnone p hp
    simpa [irqActionMatches] using hno

/-- Taking an action off its line. -/
theorem IrqLinked.remove {v : Nat} {pre post : List ObjPtr} (h : IrqLinked irqs s acts)
    (hv : (irqs v).isSome = true) (hsplit : acts v = pre ++ p :: post)
    (hlinks : s'.links = listHeadDel s.links (.action p))
    (hlive : s'.live = Function.update s.live p false) :
    IrqLinked irqs s' (Function.update acts v (pre ++ post)) := by
  have hrings := h.rings.remove hv hsplit
  refine ⟨by rw [hlinks, listHeadDel_eq]; exact hrings, fun w hw q hq => ?_⟩
  -- the action is on no other line, and only once on this one
  have hother : ∀ w, (irqs w).isSome = true → w ≠ v → p ∉ acts w := by
    intro w hw hne hmem
    have h₁ : IrqNode.action p ∈ ringNodes IrqNode.sgrtAction (fun _ => .action) acts w := by
      simp [ringNodes, hmem]
    exact h.rings.not_mem_of_mem hw hv hne h₁ (by simp [ringNodes, hsplit])
  have hself : p ∉ pre ++ post := by
    have hnodup : (acts v).Nodup := (h.rings.ring v hv).members_nodup.of_map
    rw [hsplit] at hnodup
    exact (List.nodup_cons.mp (List.nodup_middle.mp hnodup)).1
  have hq' : q ∈ acts w ∧ q ≠ p := by
    by_cases hwv : w = v
    · subst hwv
      rw [Function.update_self] at hq
      refine ⟨?_, fun heq => hself (heq ▸ hq)⟩
      rw [hsplit]
      rcases List.mem_append.mp hq with hq | hq
      · exact List.mem_append_left _ hq
      · exact List.mem_append_right _ (List.mem_cons_of_mem p hq)
    · rw [Function.update_of_ne hwv] at hq
      exact ⟨hq, fun heq => hother w hw hwv (heq ▸ hq)⟩
  rw [hlive, Function.update_of_ne hq'.2]
  exact h.live w hw q hq'.1

/-- Putting a new action on a line. -/
theorem IrqLinked.add {v : Nat} (h : IrqLinked irqs s acts) (hv : (irqs v).isSome = true)
    (hnew : s.live p = false)
    (hlinks : s'.links = listHeadAddTail s.links (.sgrtAction v) (.action p))
    (hlive : s'.live = Function.update s.live p true) :
    IrqLinked irqs s' (Function.update acts v (acts v ++ [p])) := by
  have hout : ∀ w, (irqs w).isSome = true →
      IrqNode.action p ∉ ringNodes IrqNode.sgrtAction (fun _ => .action) acts w := by
    intro w hw hmem
    simp only [ringNodes, List.mem_cons, reduceCtorEq, false_or, List.mem_map,
      IrqNode.action.injEq, exists_eq_right] at hmem
    have := h.live w hw p hmem
    rw [hnew] at this
    cases this
  refine ⟨?_, fun w hw q hq => ?_⟩
  · rw [hlinks, listHeadAddTail_eq (h.rings.ring v hv)]
    exact h.rings.insert hv (List.append_nil _).symm hout
  · rw [hlive]
    by_cases hqp : q = p
    · rw [hqp, Function.update_self]
    · rw [Function.update_of_ne hqp]
      by_cases hwv : w = v
      · subst hwv
        rw [Function.update_self] at hq
        exact h.live w hw q (by simpa [hqp] using hq)
      · rw [Function.update_of_ne hwv] at hq
        exact h.live w hw q hq

end Lists

/-! ## The enable bits along a run -/

section Bits

variable {irqs : IrqTable} {s s' : IrqLines} {acts : Nat → List ObjPtr} {irq : Int} {ptrDev : Nat}
  {desc : IrqDesc} {p : ObjPtr}

theorem setBit_other {w : Nat} {op : BitOp} (hw : w ≠ irqNumber irq) :
    (s.setBit irq op).enabled w = s.enabled w :=
  Function.update_of_ne hw ..

/-- `fwk_irq_set_type` is about the trigger type only. -/
theorem fwkIrqSetType_eq (irqs : IrqTable) (s : IrqLines) (irq : Int) (flags : Nat) :
    ∃ type, fwkIrqSetType irqs s irq flags = { s with type } := by
  unfold fwkIrqSetType
  split
  · exact ⟨s.type, rfl⟩
  · dsimp only
    split
    · exact ⟨_, rfl⟩
    · exact ⟨s.type, rfl⟩

/-- A call about one line changes no bit but the line's. -/
def OnLine (s : IrqLines) (irq : Int) (s' : IrqLines) : Prop :=
  ∃ enabled, s' = { s with enabled } ∧ ∀ w, w ≠ irqNumber irq → enabled w = s.enabled w

theorem onLine_same (s : IrqLines) (irq : Int) : OnLine s irq s :=
  ⟨s.enabled, rfl, fun _ _ => rfl⟩

theorem onLine_setBit (s : IrqLines) (irq : Int) (op : BitOp) : OnLine s irq (s.setBit irq op) :=
  ⟨(s.setBit irq op).enabled, rfl, fun _ hw => setBit_other hw⟩

theorem fwkEnableIrq_onLine (irqs : IrqTable) (s : IrqLines) (irq : Int) :
    OnLine s irq (fwkEnableIrq irqs s irq) := by
  unfold fwkEnableIrq
  split
  · exact onLine_same s irq
  · split
    · exact onLine_setBit s irq _
    · split
      · exact onLine_setBit s irq _
      · exact onLine_same s irq

theorem fwkDisableIrq_onLine (h : fwkDisableIrq irqs s irq = .ok s') : OnLine s irq s' := by
  unfold fwkDisableIrq at h
  split at h
  · cases h
    exact onLine_same s irq
  · split at h
    · cases h
      exact onLine_setBit s irq _
    · split at h
      · split at h
        · cases h
          exact onLine_setBit s irq _
        · cases h
      · cases h
        exact onLine_same s irq

/-- `fwk_enable_irq` is about the one line, and sets the bit if the chip has one. -/
theorem fwkEnableIrq_spec (irqs : IrqTable) (s : IrqLines) (irq : Int) :
    ∃ enabled, fwkEnableIrq irqs s irq = { s with enabled } ∧
      (∀ w, w ≠ irqNumber irq → enabled w = s.enabled w) ∧
      ∀ desc, fwkIrqToDesc irqs irq = some desc → desc.chip.SetsAndClears →
        enabled (irqNumber irq) = true := by
  obtain ⟨enabled, heq, hother⟩ := fwkEnableIrq_onLine irqs s irq
  refine ⟨enabled, heq, hother, ?_⟩
  intro desc hdesc hchip
  have hset : fwkEnableIrq irqs s irq = s.setBit irq .set := by
    simp only [fwkEnableIrq, hdesc, hchip.1]
  have henabled : (s.setBit irq .set).enabled = enabled := by
    rw [← hset, heq]
  rw [← henabled]
  exact Function.update_self ..

/-- `fwk_disable_irq` is about the one line, and clears the bit if the chip has one. -/
theorem fwkDisableIrq_spec (h : fwkDisableIrq irqs s irq = .ok s') :
    ∃ enabled, s' = { s with enabled } ∧ (∀ w, w ≠ irqNumber irq → enabled w = s.enabled w) ∧
      ∀ desc, fwkIrqToDesc irqs irq = some desc → desc.chip.SetsAndClears →
        enabled (irqNumber irq) = false := by
  obtain ⟨enabled, heq, hother⟩ := fwkDisableIrq_onLine h
  refine ⟨enabled, heq, hother, ?_⟩
  intro desc hdesc hchip
  have hclear : fwkDisableIrq irqs s irq = .ok (s.setBit irq .clear) := by
    simp only [fwkDisableIrq, hdesc, hchip.2]
  have henabled : (s.setBit irq .clear).enabled = enabled := by
    rw [← Except.ok.inj (h.symm.trans hclear), heq]
  rw [← henabled]
  exact Function.update_self ..

/-- The action lists, and a bit that says whether there is an action. -/
structure IrqInv (irqs : IrqTable) (s : IrqLines) (acts : Nat → List ObjPtr) : Prop where
  linked : IrqLinked irqs s acts
  law : ∀ v desc, irqs v = some desc → desc.chip.SetsAndClears →
    (s.enabled v = true ↔ acts v ≠ [])

theorem isSome_of_eq {v : Nat} (hdesc : irqs v = some desc) : (irqs v).isSome = true := by
  rw [hdesc]
  rfl

theorem IrqLinked.lineLaw_iff (h : IrqLinked irqs s acts) :
    LineLaw irqs s ↔ ∀ v desc, irqs v = some desc → desc.chip.SetsAndClears →
      (s.enabled v = true ↔ acts v ≠ []) := by
  have hsame : ∀ v desc, irqs v = some desc → (s.actions v ≠ [] ↔ acts v ≠ []) := by
    intro v desc hdesc
    rw [h.actions_eq (isSome_of_eq hdesc), ne_eq, List.map_eq_nil_iff]
  constructor
  · intro hlaw v desc hdesc hchip
    rw [← hsame v desc hdesc]
    exact hlaw v desc hdesc hchip
  · intro hlaw v desc hdesc hchip
    rw [hsame v desc hdesc]
    exact hlaw v desc hdesc hchip

theorem irqInv_start (irqs : IrqTable) : IrqInv irqs IrqLines.start fun _ => [] := by
  refine ⟨⟨⟨fun v _ => Ring.nil_iff.mpr ⟨rfl, rfl⟩, fun v w _ _ hvw => ?_⟩, nofun⟩, ?_⟩
  · simp only [ringNodes, List.map_nil, List.disjoint_singleton, List.mem_singleton]
    intro heq
    cases heq
    exact hvw rfl
  · intro v desc _ _
    simp [IrqLines.start]

/-- What a request can do: nothing, or register a new action. -/
theorem fwkRequestIrq_cases {handler kzalloc : Option ObjPtr} {flags : Nat}
    {name : Option (List Nat)} {retval : Int}
    (hcall : fwkRequestIrq irqs s irq handler flags name ptrDev kzalloc = .ok (retval, s')) :
    s' = s ∨ ∃ desc p action, fwkIrqToDesc irqs irq = some desc ∧ kzalloc = some p ∧
      s' = registerIrqAction irqs s irq action p := by
  unfold fwkRequestIrq at hcall
  split at hcall
  · cases hcall
  split at hcall
  · cases hcall
    exact Or.inl rfl
  split at hcall
  · cases hcall
  · cases hcall
    exact Or.inl rfl
  split at hcall
  · cases hcall
    exact Or.inl rfl
  rename_i desc hdesc
  split at hcall
  · cases hcall
    exact Or.inl rfl
  rename_i p
  split at hcall
  · cases hcall
    exact Or.inl rfl
  · cases hcall
    exact Or.inr ⟨desc, p, _, hdesc, rfl, rfl⟩

/-- A registered action: it is linked at the end, and the line is enabled. -/
theorem registerIrqAction_inv {action : IrqAction} (h : IrqInv irqs s acts)
    (hdesc : fwkIrqToDesc irqs irq = some desc) (hnew : s.live p = false) :
    ∃ acts', IrqInv irqs (registerIrqAction irqs s irq action p) acts' := by
  have hv : (irqs (irqNumber irq)).isSome = true := isSome_of_eq hdesc
  unfold registerIrqAction
  obtain ⟨type, htype⟩ := fwkIrqSetType_eq irqs { s with
    action := Function.update s.action p action
    live := Function.update s.live p true } irq action.flags
  simp only [htype]
  obtain ⟨enabled, henable, hother, hset⟩ := fwkEnableIrq_spec irqs { s with
    action := Function.update s.action p action
    live := Function.update s.live p true
    type
    links := listHeadAddTail s.links (.sgrtAction (irqNumber irq)) (.action p) } irq
  rw [henable]
  refine ⟨Function.update acts (irqNumber irq) (acts (irqNumber irq) ++ [p]),
    h.linked.add hv hnew rfl rfl, fun v desc' hdesc' hchip => ?_⟩
  by_cases heq : v = irqNumber irq
  · subst heq
    simp [hset desc' hdesc' hchip]
  · rw [Function.update_of_ne heq]
    show enabled v = true ↔ _
    rw [hother v heq]
    exact h.law v desc' hdesc' hchip

/-- What a release that gets as far as the line does: the bit is cleared, and the action of the
device, if there is one, is taken off. -/
theorem fwkFreeIrq_spec (h : IrqLinked irqs s acts) (hirq : ¬ (irq < 0 ∨ ptrDev = 0))
    (hcall : fwkFreeIrq irqs s irq ptrDev = .ok s') :
    ∃ acts', IrqLinked irqs s' acts' ∧
      (∀ v, v ≠ irqNumber irq → acts' v = acts v ∧ s'.enabled v = s.enabled v) ∧
      ∀ desc, fwkIrqToDesc irqs irq = some desc →
        (desc.chip.SetsAndClears → s'.enabled (irqNumber irq) = false) ∧
        ((acts' (irqNumber irq) = acts (irqNumber irq) ∧
            ∀ p ∈ acts (irqNumber irq), (s.action p).ptrArgs ≠ ptrDev) ∨
          ∃ pre p post, acts (irqNumber irq) = pre ++ p :: post ∧
            (s.action p).ptrArgs = ptrDev ∧ acts' (irqNumber irq) = pre ++ post) := by
  rw [fwkFreeIrq, if_neg hirq] at hcall
  cases hdis : fwkDisableIrq irqs s irq with
  | error e =>
    rw [hdis] at hcall
    cases hcall
  | ok s₁ =>
    obtain ⟨enabled, rfl, hother, hclear⟩ := fwkDisableIrq_spec hdis
    have h₁ : IrqLinked irqs { s with enabled } acts := ⟨h.rings, h.live⟩
    simp only [hdis, bind, Except.bind] at hcall
    cases hdesc : fwkIrqToDesc irqs irq with
    | none =>
      rw [fwkFindIrqAction, hdesc] at hcall
      cases hcall
      exact ⟨acts, h₁, fun v hv => ⟨rfl, hother v hv⟩, nofun⟩
    | some desc =>
      obtain ⟨found, hfind, hyes, hno⟩ := @fwkFindIrqAction_spec _ _ _ _ ptrDev _ h₁ hdesc none
      rw [hfind] at hcall
      cases found with
      | none =>
        cases hcall
        refine ⟨acts, h₁, fun v hv => ⟨rfl, hother v hv⟩, fun desc' heq => ?_⟩
        exact ⟨hclear desc' (hdesc.trans heq), Or.inl ⟨rfl, hno rfl rfl⟩⟩
      | some p =>
        cases hcall
        obtain ⟨hmem, hdev⟩ := hyes p rfl
        obtain ⟨pre, post, hsplit⟩ := List.append_of_mem hmem
        refine ⟨Function.update acts (irqNumber irq) (pre ++ post),
          h₁.remove (isSome_of_eq hdesc) hsplit rfl rfl,
          fun v hv => ⟨Function.update_of_ne hv .., hother v hv⟩, fun desc' heq => ?_⟩
        exact ⟨hclear desc' (hdesc.trans heq),
          Or.inr ⟨pre, p, post, hsplit, hdev, Function.update_self ..⟩⟩

/-- The condition on the action list of the line. -/
theorem IrqLinked.soleAction_iff {v : Nat} (h : IrqLinked irqs s acts)
    (hv : (irqs v).isSome = true) :
    SoleAction s v ptrDev ↔
      acts v = [] ∨ ∃ p, acts v = [p] ∧ (s.action p).ptrArgs = ptrDev := by
  rw [SoleAction, h.actions_eq hv]
  cases hacts : acts v with
  | nil => simp
  | cons p rest =>
    cases rest with
    | nil => simp [IrqLines.Owned]
    | cons q rest =>
      constructor
      · intro hall
        have hone := (hall (.action p) (by simp)).1
        cases hone
      · rintro (hnil | ⟨p', hone, -⟩)
        · cases hnil
        · cases hone

/-- **A call that fits keeps the lines in order.** -/
theorem irqStep_inv {move : IrqMove} (h : ∃ acts, IrqInv irqs s acts)
    (hfit : FreeFits irqs s move) (hstep : irqStep irqs s move = some s') :
    ∃ acts, IrqInv irqs s' acts := by
  obtain ⟨acts, h⟩ := h
  cases move with
  | request irq handler flags name ptrDev kzalloc =>
    by_cases hlive : kzalloc.any s.live = true
    · simp [irqStep, hlive] at hstep
    rw [Bool.not_eq_true] at hlive
    cases hcall : fwkRequestIrq irqs s irq handler flags name ptrDev kzalloc with
    | error e => simp [irqStep, hlive, hcall] at hstep
    | ok res =>
      obtain ⟨retval, s₁⟩ := res
      obtain rfl : s₁ = s' := by simpa [irqStep, hlive, hcall] using hstep
      rcases fwkRequestIrq_cases hcall with rfl | ⟨desc, p, action, hdesc, rfl, rfl⟩
      · exact ⟨acts, h⟩
      · exact registerIrqAction_inv h hdesc hlive
  | free irq ptrDev =>
    cases hcall : fwkFreeIrq irqs s irq ptrDev with
    | error e => simp [irqStep, hcall, Except.toOption] at hstep
    | ok s₁ =>
      obtain rfl : s₁ = s' := by simpa [irqStep, hcall, Except.toOption] using hstep
      by_cases hirq : irq < 0 ∨ ptrDev = 0
      · rw [fwkFreeIrq, if_pos hirq] at hcall
        cases hcall
        exact ⟨acts, h⟩
      · obtain ⟨acts', hlinked, hother, hline⟩ := fwkFreeIrq_spec h.linked hirq hcall
        refine ⟨acts', hlinked, fun v desc hdesc hchip => ?_⟩
        by_cases hv : v = irqNumber irq
        · subst hv
          obtain ⟨hclear, hacts⟩ := hline desc hdesc
          have hsole := hfit (by omega) (by omega) desc hdesc hchip
          rw [h.linked.soleAction_iff (isSome_of_eq hdesc)] at hsole
          -- nothing is left on the line
          have hnil : acts' (irqNumber irq) = [] := by
            rcases hsole with hempty | ⟨p, hone, hdev⟩
            · rcases hacts with ⟨hsame, -⟩ | ⟨pre, p, post, hsplit, -⟩
              · rw [hsame, hempty]
              · rw [hempty] at hsplit
                simp at hsplit
            · rcases hacts with ⟨-, hno⟩ | ⟨pre, q, post, hsplit, -, hnew⟩
              · exact absurd hdev (hno p (by simp [hone]))
              · rw [hone] at hsplit
                have hlen := congrArg List.length hsplit
                simp only [List.length_append, List.length_cons, List.length_nil] at hlen
                rw [hnew, List.eq_nil_iff_length_eq_zero, List.length_append]
                omega
          simp [hclear hchip, hnil]
        · obtain ⟨hsame, hbit⟩ := hother v hv
          rw [hsame, hbit]
          exact h.law v desc hdesc hchip

/-- **A release that does not fit breaks the law**: the line is disabled, and an action is left. -/
theorem irqStep_breaks {move : IrqMove} (h : ∃ acts, IrqInv irqs s acts)
    (hfit : ¬ FreeFits irqs s move) (hstep : irqStep irqs s move = some s') :
    ¬ LineLaw irqs s' := by
  obtain ⟨acts, h⟩ := h
  cases move with
  | request irq handler flags name ptrDev kzalloc => exact absurd trivial hfit
  | free irq ptrDev =>
    simp only [FreeFits, not_forall] at hfit
    obtain ⟨hirq, hdev, desc, hdesc, hchip, hsole⟩ := hfit
    rw [h.linked.soleAction_iff (isSome_of_eq hdesc), not_or] at hsole
    cases hcall : fwkFreeIrq irqs s irq ptrDev with
    | error e => simp [irqStep, hcall, Except.toOption] at hstep
    | ok s₁ =>
      obtain rfl : s₁ = s' := by simpa [irqStep, hcall, Except.toOption] using hstep
      obtain ⟨acts', hlinked, -, hline⟩ := fwkFreeIrq_spec h.linked (by omega) hcall
      obtain ⟨hclear, hacts⟩ := hline desc hdesc
      have hleft : acts' (irqNumber irq) ≠ [] := by
        rcases hacts with ⟨hsame, -⟩ | ⟨pre, p, post, hsplit, howner, hnew⟩
        · rw [hsame]
          exact hsole.1
        · intro hnil
          rw [hnew, List.append_eq_nil_iff] at hnil
          obtain ⟨rfl, rfl⟩ := hnil
          exact hsole.2 ⟨p, hsplit, howner⟩
      intro hlaw
      have hon := (hlinked.lineLaw_iff.mp hlaw _ desc hdesc hchip).mpr hleft
      rw [hclear hchip] at hon
      cases hon

end Bits

/-- Two interrupts, with a chip that has an enable bit. -/
def twoIrqs : IrqTable
  | 0 | 1 => some ⟨0, some .set, some .clear, none, none, true⟩
  | _ => none

def actionA : ObjPtr := ⟨0x41000, by decide⟩

def actionB : ObjPtr := ⟨0x42000, by decide⟩

/-- Two devices on one line: the second request of one of them fails, so does one without memory,
and a third device that has nothing registered goes from the other line. -/
def sharedMoves : List IrqMove :=
  [.request 0 none 0 (some [107]) 0x100 (some actionA),
    .request 0 none 0 (some [108]) 0x200 (some actionB),
    .request 0 none 0 (some [107]) 0x100 none, .request 0 none 4 (some [109]) 0x300 none,
    .free 1 0x300]

end HeavenFox.Platform
