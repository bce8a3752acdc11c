/-
# HeavenFox.Platform.IrqInit -- interrupt controllers are brought up

`fwk_of_irq_init` makes a descriptor for every interrupt controller of the device tree that its
match table knows, and calls the init callbacks of the table: first for the controllers without an
interrupt parent, then for those whose parent has come up.  The descriptors go from one list to the
other while they are visited, and are freed when nothing is to be done with them any more.

`irq_init_order` says what is called, in which order, and that nothing is left.
-/
import HeavenFox.Logic.Rings
import HeavenFox.Logic.StartOrder
import HeavenFox.Common.ListTypes
import HeavenFox.Platform.OfIrq
import HeavenFox.Platform.OfMatch

namespace HeavenFox.Platform

open HeavenFox.Logic HeavenFox.Common

/-! ## The two lists -/

/-- A `struct fwk_irq_intcs_desc`, without its link. -/
structure IntcDesc where
  sprtNp : ObjPtr
  sprtParent : Option ObjPtr

/-- A `struct list_head`: one of the two heads, or the link of a descriptor. -/
inductive IntcLink where
  | sgrtIntcDescList
  | sgrtIntcParentList
  | sgrtLink (sprtDesc : ObjPtr)
  deriving DecidableEq

/-- A call of an init callback, and what it returned. -/
structure InitCall where
  sprtNp : ObjPtr
  sprtParent : Option ObjPtr
  retval : Int

/-- The lists, the descriptors that are allocated, the state of the drivers, and the calls that have
been made, which the code does not keep. -/
structure IrqInit (σ : Type) where
  links : Links IntcLink
  desc : ObjPtr → Option IntcDesc
  drivers : σ
  calls : List InitCall

variable {σ δ : Type}

namespace IrqInit

/-- `DECLARE_LIST_HEAD` of both heads. -/
def start (drivers : σ) : IrqInit σ where
  links := ⟨id, id⟩
  desc := fun _ => none
  drivers := drivers
  calls := []

/-- `kzalloc` of a descriptor: what the memory is ready to give, which is never one that is
allocated. -/
def kzalloc (s : IrqInit σ) (alloc : Option ObjPtr) : Option ObjPtr :=
  alloc.filter fun d => (s.desc d).isNone

/-- `list_head_del` of the link of a descriptor. -/
def delDesc (s : IrqInit σ) (d : ObjPtr) : IrqInit σ :=
  { s with links := listHeadDel s.links (.sgrtLink d) }

/-- `kfree` of a descriptor. -/
def kfree (s : IrqInit σ) (d : ObjPtr) : IrqInit σ :=
  { s with desc := Function.update s.desc d none }

/-- A new descriptor at the end of the list of controllers. -/
def addDesc (s : IrqInit σ) (d : ObjPtr) (desc : IntcDesc) : IrqInit σ :=
  { s with
    links := listHeadAddTail s.links .sgrtIntcDescList (.sgrtLink d)
    desc := Function.update s.desc d (some desc) }

/-- A callback has returned. -/
def called (s : IrqInit σ) (call : InitCall) (drivers : σ) : IrqInit σ :=
  { s with drivers := drivers, calls := s.calls ++ [call] }

/-- The loop of `fwk_of_irq_init` over the nodes; false when it goes to `fail`. -/
def collectLoop (t : DeviceTree) (sprtMatches : List (OfDeviceId δ)) :
    List ObjPtr → List (Option ObjPtr) → IrqInit σ → Except Stop (Bool × IrqInit σ)
  | [], _, s => .ok (true, s)
  | sprtNp :: rest, allocs, s => do
    let sprtProp := (fwkOfFindProperty t (some sprtNp) (cstring "interrupt-controller")).1
    let ofStatus ← t.fwkOfDeviceIsAvaliable (some sprtNp)
    if sprtProp.isNone || !ofStatus then collectLoop t sprtMatches rest allocs s
    else do
      let (found, _) ← t.fwkOfNodeTryMatches (some sprtNp) sprtMatches
      if found.isNone then collectLoop t sprtMatches rest allocs s
      else
        match s.kzalloc allocs.head?.join with
        | none => pure (false, s)
        | some d => do
          let sprtParent ← fwkOfIrqParent t (some sprtNp)
          -- a controller that is its own parent has none
          let sprtParent := if sprtParent = some sprtNp then none else sprtParent
          collectLoop t sprtMatches rest allocs.tail (s.addDesc d ⟨sprtNp, sprtParent⟩)

/-- The body of the loop over the list of controllers.  `cb` is what the functions do that the data
of the table point to. -/
def initEntry (t : DeviceTree) (cb : δ → ObjPtr → Option ObjPtr → σ → Int × σ)
    (sprtMatches : List (OfDeviceId δ)) (parent : Option ObjPtr) :
    IntcLink → IrqInit σ → Except Stop (IrqInit σ)
  | .sgrtLink d, s =>
    match s.desc d with
    | none => .error .fault
    | some desc => do
      let sprtMatch ← t.fwkOfMatchNode (some desc.sprtNp) sprtMatches
      if parent ≠ desc.sprtParent then pure s
      else
        let s := s.delDesc d
        match sprtMatch.bind OfDeviceId.data with
        | none => pure (s.kfree d)
        | some data =>
          let (retval, drivers) := cb data desc.sprtNp desc.sprtParent s.drivers
          let s := s.called ⟨desc.sprtNp, desc.sprtParent, retval⟩ drivers
          if retval < 0 then pure (s.kfree d)
          else
            pure { s with
              links := listHeadAddTail s.links .sgrtIntcParentList (.sgrtLink d) }
  | _, _ => .error .fault

/-- `foreach_list_next_entry_safe` over one of the lists. -/
def foreachDesc (head : IntcLink) (body : IntcLink → IrqInit σ → Except Stop (IrqInit σ))
    (s : IrqInit σ) : Except Stop (IrqInit σ) :=
  foreachEntrySafe (fun s => s.links.next) head body walkRounds (s.links.next head)
    (s.links.next (s.links.next head)) s

/-- The loop of `fwk_of_irq_init` while there are controllers. -/
def initLoop (t : DeviceTree) (cb : δ → ObjPtr → Option ObjPtr → σ → Int × σ)
    (sprtMatches : List (OfDeviceId δ)) :
    Nat → Option ObjPtr → IrqInit σ → Except Stop (IrqInit σ)
  | 0, _, _ => .error .spins
  | rounds + 1, parent, s =>
    if mrtListHeadEmpty s.links .sgrtIntcDescList then .ok s
    else do
      let s ← foreachDesc .sgrtIntcDescList (initEntry t cb sprtMatches parent) s
      if mrtListHeadEmpty s.links .sgrtIntcParentList then pure s
      else
        match s.links.next .sgrtIntcParentList with
        | .sgrtLink d =>
          match s.desc d with
          | none => .error .fault
          | some desc => initLoop t cb sprtMatches rounds (some desc.sprtNp) ((s.delDesc d).kfree d)
        | _ => .error .fault

/-- The body of the two loops that free what is left of a list. -/
def freeEntry : IntcLink → IrqInit σ → Except Stop (IrqInit σ)
  | .sgrtLink d, s => if (s.desc d).isNone then .error .fault else .ok ((s.delDesc d).kfree d)
  | _, _ => .error .fault

end IrqInit

open IrqInit in
/-- `fwk_of_irq_init`. -/
def fwkOfIrqInit (t : DeviceTree) (cb : δ → ObjPtr → Option ObjPtr → σ → Int × σ)
    (sprtMatches : List (OfDeviceId δ)) (allocs : List (Option ObjPtr)) (drivers : σ) :
    Except Stop (IrqInit σ) := do
  let (enough, s) ← collectLoop t sprtMatches t.allNodes allocs (start drivers)
  let s ← if enough then do
      let s ← initLoop t cb sprtMatches walkRounds none s
      foreachDesc .sgrtIntcParentList freeEntry s
    else pure s
  foreachDesc .sgrtIntcDescList freeEntry s

/-! ## The controllers of a tree -/

namespace DeviceTree

/-- An interrupt controller that is available and that the table knows. -/
def isController (t : DeviceTree) (sprtMatches : List (OfDeviceId δ)) (n : ObjPtr) : Bool :=
  (t.prop (some n) (cstring "interrupt-controller")).isSome && t.available n &&
    (t.matchOf sprtMatches n).isSome

/-- The interrupt controllers, in the order of the tree. -/
def controllers (t : DeviceTree) (sprtMatches : List (OfDeviceId δ)) : List ObjPtr :=
  t.allNodes.filter (t.isController sprtMatches)

/-- The interrupt parent of a controller, other than itself. -/
def intcParent (t : DeviceTree) (n : ObjPtr) : Option ObjPtr :=
  match fwkOfIrqParent t (some n) with
  | .ok sprtParent => if sprtParent = some n then none else sprtParent
  | .error _ => none

/-- What the table has for the controller. -/
def initData (t : DeviceTree) (sprtMatches : List (OfDeviceId δ)) (n : ObjPtr) : Option δ :=
  (t.matchOf sprtMatches n).bind OfDeviceId.data

theorem intcParent_eq {t : DeviceTree} {n : ObjPtr} {sprtParent : Option ObjPtr}
    (h : fwkOfIrqParent t (some n) = .ok sprtParent) :
    t.intcParent n = if sprtParent = some n then none else sprtParent := by
  rw [intcParent, h]

end DeviceTree

namespace IrqInit

/-! ## The lists and the memory -/

/-- The heads: the list of controllers that wait, and the list of those that have come up. -/
def intcHead (up : Bool) : IntcLink := if up then .sgrtIntcParentList else .sgrtIntcDescList

/-- The entries of the lists, each a descriptor and its node, are what is allocated. -/
structure Holds (t : DeviceTree) (s : IrqInit σ) (q : Bool → List (ObjPtr × ObjPtr)) : Prop where
  rings : Rings s.links (fun _ => True) intcHead (fun _ e => .sgrtLink e.1) q
  live : ∀ up, ∀ e ∈ q up, s.desc e.1 = some ⟨e.2, t.intcParent e.2⟩
  dead : ∀ d, (∀ up, ∀ e ∈ q up, e.1 ≠ d) → s.desc d = none

variable {t : DeviceTree} {s : IrqInit σ} {q : Bool → List (ObjPtr × ObjPtr)} {up : Bool}
  {pre post : List (ObjPtr × ObjPtr)} {e : ObjPtr × ObjPtr} {d : ObjPtr}

theorem holds_start (t : DeviceTree) (drivers : σ) : (start drivers).Holds t fun _ => [] where
  rings := by
    refine ⟨fun up _ => Ring.nil_iff.mpr ⟨rfl, rfl⟩, ?_⟩
    intro up up' _ _ hne a ha ha'
    obtain rfl := List.mem_singleton.mp ha
    have heq := List.mem_singleton.mp ha'
    cases up <;> cases up' <;> first | exact hne rfl | cases heq
  live := by
    intro up e he
    cases he
  dead := fun _ _ => rfl

/-- The calls are no matter of the lists. -/
theorem Holds.called (h : s.Holds t q) (call : InitCall) (drivers : σ) :
    (s.called call drivers).Holds t q :=
  ⟨h.rings, h.live, h.dead⟩

theorem Holds.ring (h : s.Holds t q) (up : Bool) :
    Ring s.links (intcHead up) ((q up).map fun e => .sgrtLink e.1) :=
  h.rings.ring up trivial

/-- There are fewer entries than rounds. -/
theorem Holds.length_lt (h : s.Holds t q) (up : Bool) : (q up).length < walkRounds := by
  have hnodup : ((q up).map Prod.fst).Nodup := by
    have hlinks : (((q up).map Prod.fst).map IntcLink.sgrtLink).Nodup := by
      rw [List.map_map]
      exact (h.ring up).members_nodup
    exact hlinks.of_map _
  have hlen := ObjPtr.length_of_nodup hnodup
  rw [List.length_map] at hlen
  unfold walkRounds
  omega

/-- The heads are no entries. -/
theorem link_ne_head (e : ObjPtr × ObjPtr) (up : Bool) :
    IntcLink.sgrtLink e.1 ≠ intcHead up := by
  intro heq
  cases up <;> cases heq

theorem Holds.empty_iff (h : s.Holds t q) (up : Bool) :
    mrtListHeadEmpty s.links (intcHead up) = true ↔ q up = [] := by
  rw [mrtListHeadEmpty_iff (h.ring up), List.map_eq_nil_iff]

/-- The descriptor of an entry is that of no other. -/
theorem Holds.only (h : s.Holds t q) (hq : q up = pre ++ e :: post) {up' : Bool}
    {e' : ObjPtr × ObjPtr} (he' : e' ∈ Function.update q up (pre ++ post) up') : e'.1 ≠ e.1 := by
  intro heq
  by_cases hup : up' = up
  · subst hup
    rw [Function.update_self] at he'
    have hnodup := (h.ring up').members_nodup
    rw [hq, List.map_append, List.map_cons, List.nodup_middle, ← List.map_append] at hnodup
    exact (List.nodup_cons.mp hnodup).1 (List.mem_map.mpr ⟨e', he', by rw [heq]⟩)
  · rw [Function.update_of_ne hup] at he'
    apply h.rings.apart up' up trivial trivial hup
      (List.mem_cons_of_mem _ (List.mem_map.mpr ⟨e', he', rfl⟩))
    show IntcLink.sgrtLink e'.1 ∈ _
    rw [heq]
    exact List.mem_cons_of_mem _ (List.mem_map.mpr ⟨e, by simp [hq], rfl⟩)

theorem mem_of_update (hq : q up = pre ++ e :: post) {up' : Bool} {e' : ObjPtr × ObjPtr}
    (he' : e' ∈ Function.update q up (pre ++ post) up') : e' ∈ q up' := by
  by_cases hup : up' = up
  · subst hup
    rw [Function.update_self] at he'
    rw [hq]
    exact (List.Sublist.append_left (List.sublist_cons_self e post) pre).subset he'
  · rwa [Function.update_of_ne hup] at he'

/-- An entry is taken off its list and freed. -/
theorem Holds.free (h : s.Holds t q) (hq : q up = pre ++ e :: post) :
    ((s.delDesc e.1).kfree e.1).Holds t (Function.update q up (pre ++ post)) where
  rings := h.rings.remove trivial hq
  live := by
    intro up' e' he'
    show Function.update s.desc e.1 none e'.1 = _
    rw [Function.update_of_ne (h.only hq he')]
    exact h.live up' e' (mem_of_update hq he')
  dead := by
    intro d hd
    by_cases hde : d = e.1
    · rw [hde]
      exact Function.update_self ..
    · show Function.update s.desc e.1 none d = none
      rw [Function.update_of_ne hde]
      apply h.dead
      intro up' e' he'
      by_cases hup : up' = up
      · subst hup
        rw [hq, List.mem_append, List.mem_cons] at he'
        have hrest : e' ∈ pre ++ post → e'.1 ≠ d := by
          intro hmem
          exact hd up' e' (by rwa [Function.update_self])
        rcases he' with hmem | rfl | hmem
        · exact hrest (List.mem_append_left _ hmem)
        · exact Ne.symm hde
        · exact hrest (List.mem_append_right _ hmem)
      · exact hd up' e' (by rwa [Function.update_of_ne hup])

/-- What is not allocated is on no list. -/
theorem Holds.link_not_mem (h : s.Holds t q) (hd : s.desc d = none) (up : Bool) :
    IntcLink.sgrtLink d ∉ ringNodes intcHead (fun _ e => .sgrtLink e.1) q up := by
  intro hmem
  rcases List.mem_cons.mp hmem with heq | hmem
  · exact link_ne_head (d, d) up heq
  · obtain ⟨e, he, heq⟩ := List.mem_map.mp hmem
    obtain rfl : e.1 = d := IntcLink.sgrtLink.inj heq
    rw [h.live up e he] at hd
    cases hd

/-- A new descriptor goes to the end of the controllers that wait. -/
theorem Holds.push (h : s.Holds t q) (hd : s.desc d = none) (n : ObjPtr) :
    (s.addDesc d ⟨n, t.intcParent n⟩).Holds t
      (Function.update q false (q false ++ [(d, n)])) where
  rings := by
    show Rings (listHeadAddTail s.links (intcHead false) (.sgrtLink d)) _ _ _ _
    rw [listHeadAddTail_eq (h.ring false)]
    exact h.rings.insert (y := (d, n)) trivial (List.append_nil _).symm
      fun up _ => h.link_not_mem hd up
  live := by
    intro up e he
    show Function.update s.desc d (some _) e.1 = _
    have hold : e ∈ q up → Function.update s.desc d (some ⟨n, t.intcParent n⟩) e.1 =
        some ⟨e.2, t.intcParent e.2⟩ := by
      intro hmem
      have hlive := h.live up e hmem
      rw [Function.update_of_ne, hlive]
      rintro rfl
      rw [hd] at hlive
      cases hlive
    cases up with
    | true => exact hold he
    | false =>
      rw [Function.update_self, List.mem_append, List.mem_singleton] at he
      rcases he with hmem | rfl
      · exact hold hmem
      · exact Function.update_self ..
  dead := by
    intro d' hd'
    show Function.update s.desc d (some _) d' = none
    have hne : d' ≠ d := Ne.symm (hd' false (d, n) (by simp))
    rw [Function.update_of_ne hne]
    apply h.dead
    intro up e he
    apply hd' up e
    cases up with
    | true => exact he
    | false =>
      rw [Function.update_self]
      exact List.mem_append_left _ he

/-- A controller that has come up, on the other list. -/
def moveUp (s : IrqInit σ) (d : ObjPtr) : IrqInit σ :=
  { s with
    links := listHeadAddTail (listHeadDel s.links (.sgrtLink d)) .sgrtIntcParentList
      (.sgrtLink d) }

/-- An entry goes from the first list to the end of the second. -/
theorem Holds.move (h : s.Holds t q) (hq : q false = pre ++ e :: post) :
    (s.moveUp e.1).Holds t
      (Function.update (Function.update q false (pre ++ post)) true (q true ++ [e])) where
  rings := by
    have hrings := h.rings.remove trivial hq
    have hnew : ∀ up, True → IntcLink.sgrtLink e.1 ∉ ringNodes intcHead (fun _ e => .sgrtLink e.1)
        (Function.update q false (pre ++ post)) up := by
      intro up _ hmem
      rcases List.mem_cons.mp hmem with heq | hmem
      · exact link_ne_head e up heq
      · obtain ⟨e', he', heq⟩ := List.mem_map.mp hmem
        exact h.only hq he' (IntcLink.sgrtLink.inj heq)
    show Rings (listHeadAddTail (s.links.unlink (.sgrtLink e.1)) (intcHead true)
      (.sgrtLink e.1)) _ _ _ _
    rw [listHeadAddTail_eq (hrings.ring true trivial)]
    exact hrings.insert (y := e) trivial (List.append_nil _).symm hnew
  live := by
    intro up e' he'
    show s.desc e'.1 = _
    cases up with
    | false =>
      have hmem : e' ∈ Function.update q false (pre ++ post) false := he'
      exact h.live false e' (mem_of_update hq hmem)
    | true =>
      rw [Function.update_self, List.mem_append, List.mem_singleton] at he'
      rcases he' with hmem | rfl
      · exact h.live true e' hmem
      · exact h.live false e' (by simp [hq])
  dead := by
    intro d hd
    apply h.dead
    intro up e' he'
    have hup : e' ∈ q true ++ [e] → e'.1 ≠ d := fun hmem => hd true e' hmem
    cases up with
    | true => exact hup (List.mem_append_left _ he')
    | false =>
      rw [hq, List.mem_append, List.mem_cons] at he'
      have hrest : e' ∈ pre ++ post → e'.1 ≠ d := fun hmem => hd false e' hmem
      rcases he' with hmem | rfl | hmem
      · exact hrest (List.mem_append_left _ hmem)
      · exact hup (List.mem_append_right _ (List.mem_singleton.mpr rfl))
      · exact hrest (List.mem_append_right _ hmem)

/-- Behind an entry comes the next one, or the head. -/
theorem Holds.next_entry (h : s.Holds t q) (hq : q up = pre ++ e :: post) :
    s.links.next (.sgrtLink e.1) =
      (post.map fun e => IntcLink.sgrtLink e.1).headD (intcHead up) := by
  have r := h.ring up
  rw [hq, List.map_append, List.map_cons] at r
  exact r.next_member

theorem Holds.first_entry (h : s.Holds t q) (up : Bool) :
    s.links.next (intcHead up) =
      ((q up).map fun e => IntcLink.sgrtLink e.1).headD (intcHead up) := by
  have r := h.ring up
  cases hq : (q up).map fun e => IntcLink.sgrtLink e.1 with
  | nil =>
    rw [hq] at r
    exact (Ring.nil_iff.mp r).1
  | cons a rest =>
    rw [hq] at r
    exact r.path.1.1

/-- **A traversal** of a list, with a body that may take its entry off it: `P` tells what holds when
`rest` is left of the list, with `kept` before it. -/
theorem foreachDesc_rule {body : IntcLink → IrqInit σ → Except Stop (IrqInit σ)}
    {P : List (ObjPtr × ObjPtr) → IrqInit σ → Prop} (up : Bool)
    (hlist : ∀ rest s, P rest s → ∃ q kept, s.Holds t q ∧ q up = kept ++ rest)
    (hbody : ∀ e rest s, P (e :: rest) s → ∃ s', body (.sgrtLink e.1) s = .ok s' ∧ P rest s')
    {es : List (ObjPtr × ObjPtr)} (h : s.Holds t q) (hq : q up = es) (hs : P es s) :
    ∃ s', foreachDesc (intcHead up) body s = .ok s' ∧ P [] s' := by
  rw [foreachDesc, h.first_entry up, hq]
  apply foreachEntrySafe_rule (fun e : ObjPtr × ObjPtr => IntcLink.sgrtLink e.1) ?_ hbody ?_ hs
  · intro e rest s hs
    obtain ⟨q, kept, h, hq⟩ := hlist (e :: rest) s hs
    exact ⟨link_ne_head e up, h.next_entry hq⟩
  · rw [← hq]
    exact h.length_lt up

/-- **What is left of a list** is freed. -/
theorem Holds.freeList (h : s.Holds t q) (up : Bool) :
    ∃ s', foreachDesc (intcHead up) freeEntry s = .ok s' ∧
      s'.Holds t (Function.update q up []) ∧ s'.calls = s.calls := by
  apply foreachDesc_rule (t := t)
    (P := fun rest s' => s'.Holds t (Function.update q up rest) ∧ s'.calls = s.calls) up ?_ ?_ h
    rfl
  · rw [Function.update_eq_self]
    exact ⟨h, rfl⟩
  · rintro rest s' ⟨h', -⟩
    exact ⟨_, [], h', Function.update_self ..⟩
  · rintro e rest s' ⟨h', hcalls⟩
    have hq : Function.update q up (e :: rest) up = [] ++ e :: rest := Function.update_self ..
    have hlive := h'.live up e (by rw [hq]; exact List.mem_cons_self ..)
    refine ⟨(s'.delDesc e.1).kfree e.1, ?_, ?_, hcalls⟩
    · simp only [freeEntry, hlive, Option.isNone_some, Bool.false_eq_true, if_false]
    · have hfree := h'.free hq
      rwa [Function.update_idem, List.nil_append] at hfree

/-- The entries of both lists. -/
def entries (pend up : List (ObjPtr × ObjPtr)) (b : Bool) : List (ObjPtr × ObjPtr) :=
  if b then up else pend

theorem update_pend (pend up pend' : List (ObjPtr × ObjPtr)) :
    Function.update (entries pend up) false pend' = entries pend' up := by
  funext b
  cases b <;> rfl

theorem update_up (pend up up' : List (ObjPtr × ObjPtr)) :
    Function.update (entries pend up) true up' = entries pend up' := by
  funext b
  cases b <;> rfl

/-! ## Collecting -/

/-- The loop over the nodes, at one node. -/
theorem collectLoop_cons (t : ReadableTree) (sprtMatches : List (OfDeviceId δ)) {n : ObjPtr}
    (hn : n ∈ t.allNodes) (nodes : List ObjPtr) (allocs : List (Option ObjPtr)) (s : IrqInit σ) :
    collectLoop t.toDeviceTree sprtMatches (n :: nodes) allocs s =
      if t.isController sprtMatches n then
        match s.kzalloc allocs.head?.join with
        | none => .ok (false, s)
        | some d =>
          (fwkOfIrqParent t.toDeviceTree (some n)).bind fun sprtParent =>
            collectLoop t.toDeviceTree sprtMatches nodes allocs.tail
              (s.addDesc d ⟨n, if sprtParent = some n then none else sprtParent⟩)
      else collectLoop t.toDeviceTree sprtMatches nodes allocs s := by
  rw [collectLoop, t.fwkOfDeviceIsAvaliable_eq hn, t.fwkOfNodeTryMatches_eq hn,
    DeviceTree.isController]
  simp only [bind, Except.bind, DeviceTree.prop]
  rcases Option.eq_none_or_eq_some
    (fwkOfFindProperty t.toDeviceTree (some n) (cstring "interrupt-controller")).1 with
    hprop | ⟨prop, hprop⟩
  · simp [hprop]
  cases havail : t.available n with
  | false => simp [hprop]
  | true =>
    cases hmatch : t.matchOf sprtMatches n with
    | none => simp [hprop]
    | some sprtMatch => simp [hprop, pure, Except.pure]

/-- **The loop over the nodes** makes a descriptor for every controller among them, in their order,
if the memory has enough. -/
theorem collectLoop_spec (t : ReadableTree) (sprtMatches : List (OfDeviceId δ))
    (hparent : ∀ n ∈ t.controllers sprtMatches, ∃ sprtParent,
      fwkOfIrqParent t.toDeviceTree (some n) = .ok sprtParent)
    {nodes ptrs : List ObjPtr} {done : List (ObjPtr × ObjPtr)}
    (hnodes : ∀ n ∈ nodes, n ∈ t.allNodes)
    (h : s.Holds t.toDeviceTree (entries done [])) (hnodup : ptrs.Nodup)
    (hfresh : ∀ d ∈ ptrs, s.desc d = none)
    (hlen : (nodes.filter (t.isController sprtMatches)).length ≤ ptrs.length) :
    ∃ s' done', collectLoop t.toDeviceTree sprtMatches nodes (ptrs.map some) s = .ok (true, s') ∧
      s'.Holds t.toDeviceTree (entries done' []) ∧ s'.calls = s.calls ∧
      done'.map Prod.snd = done.map Prod.snd ++ nodes.filter (t.isController sprtMatches) := by
  induction nodes generalizing s ptrs done with
  | nil => exact ⟨s, done, rfl, h, rfl, by simp⟩
  | cons n nodes ih =>
    have hnodes' : ∀ m ∈ nodes, m ∈ t.allNodes := fun m hm => hnodes m (List.mem_cons_of_mem n hm)
    rw [collectLoop_cons t sprtMatches (hnodes n (List.mem_cons_self ..))]
    by_cases hcontroller : t.isController sprtMatches n = true
    · rw [List.filter_cons_of_pos hcontroller] at hlen ⊢
      rw [if_pos hcontroller]
      cases ptrs with
      | nil => cases hlen
      | cons d ptrs =>
        obtain ⟨hd, hnodup⟩ := List.nodup_cons.mp hnodup
        have hfree := hfresh d (List.mem_cons_self ..)
        have halloc : s.kzalloc (((d :: ptrs).map some).head?.join) = some d := by
          simp [kzalloc, hfree]
        obtain ⟨sprtParent, hcall⟩ :=
          hparent n (List.mem_filter.mpr ⟨hnodes n (List.mem_cons_self ..), hcontroller⟩)
        have hpush := h.push hfree n
        rw [update_pend] at hpush
        have hfresh' : ∀ d' ∈ ptrs, (s.addDesc d ⟨n, t.intcParent n⟩).desc d' = none := by
          intro d' hd'
          show Function.update s.desc d (some _) d' = none
          rw [Function.update_of_ne]
          · exact hfresh d' (List.mem_cons_of_mem d hd')
          · rintro rfl
            exact hd hd'
        rw [halloc, hcall]
        simp only [Except.bind, ← DeviceTree.intcParent_eq hcall]
        obtain ⟨s', done', hrun, h', hcalls, hsnd⟩ :=
          ih hnodes' hpush hnodup hfresh' (Nat.le_of_succ_le_succ hlen)
        refine ⟨s', done', hrun, h', hcalls, ?_⟩
        rw [hsnd]
        simp [entries]
    · rw [List.filter_cons_of_neg hcontroller] at hlen ⊢
      rw [if_neg hcontroller]
      exact ih hnodes' h hnodup hfresh hlen

/-! ## Calling -/

/-- Which controllers have been tried, and whether they came up. -/
def log (s : IrqInit σ) : List (ObjPtr × Bool) :=
  s.calls.map fun call => (call.sprtNp, decide (0 ≤ call.retval))

/-- The state in the pass for the controllers under `cur`, with the entries it has looked at and
those that are left. -/
structure Pass (t : ReadableTree) (sprtMatches : List (OfDeviceId δ)) (s : IrqInit σ)
    (kept rest up : List (ObjPtr × ObjPtr)) (cur : Option ObjPtr) : Prop where
  holds : s.Holds t.toDeviceTree (entries (kept ++ rest) up)
  order : StartOrder t.intcParent (fun n => n ∈ t.controllers sprtMatches)
    (fun n => (t.initData sprtMatches n).isSome = true) (kept.map Prod.snd) (rest.map Prod.snd)
    (up.map Prod.snd) s.log cur
  calls : ∀ call ∈ s.calls, call.sprtParent = t.intcParent call.sprtNp ∧
    (t.initData sprtMatches call.sprtNp).isSome = true

section Pass

variable {t : ReadableTree} {sprtMatches : List (OfDeviceId δ)}
  {kept rest upList : List (ObjPtr × ObjPtr)} {cur : Option ObjPtr}

/-- **One entry** of the list of controllers is visited. -/
theorem Pass.initEntry (h : Pass t sprtMatches s kept (e :: rest) upList cur)
    (cb : δ → ObjPtr → Option ObjPtr → σ → Int × σ) :
    ∃ s' kept' upList',
      IrqInit.initEntry t.toDeviceTree cb sprtMatches cur (.sgrtLink e.1) s = .ok s' ∧
        Pass t sprtMatches s' kept' rest upList' cur ∧
        kept'.length + upList'.length ≤ kept.length + upList.length + 1 := by
  have hq : entries (kept ++ e :: rest) upList false = kept ++ e :: rest := rfl
  have hlive : s.desc e.1 = some ⟨e.2, t.intcParent e.2⟩ :=
    h.holds.live false e (List.mem_append_right _ (List.mem_cons_self ..))
  have hnode : e.2 ∈ t.allNodes := by
    have hmem : e.2 ∈ t.controllers sprtMatches := h.order.known e.2 (by simp)
    exact List.mem_of_mem_filter hmem
  have horder := h.order
  rw [List.map_cons] at horder
  have hdata : (t.matchOf sprtMatches e.2).bind OfDeviceId.data = t.initData sprtMatches e.2 := rfl
  simp only [IrqInit.initEntry, hlive, t.fwkOfMatchNode_eq hnode, bind, Except.bind, hdata]
  by_cases hcur : cur = t.intcParent e.2
  swap
  · -- it waits for another controller
    rw [if_pos hcur]
    refine ⟨s, kept ++ [e], upList, rfl, ⟨?_, ?_, h.calls⟩, ?_⟩
    · rw [List.append_assoc]
      exact h.holds
    · rw [List.map_append]
      exact horder.skip (Ne.symm hcur)
    · rw [List.length_append, List.length_singleton]
      omega
  rw [if_neg (not_not_intro hcur)]
  have hfree := h.holds.free hq
  rw [update_pend] at hfree
  cases hinit : t.initData sprtMatches e.2 with
  | none =>
    refine ⟨_, kept, upList, rfl, ⟨hfree, ?_, h.calls⟩, by omega⟩
    apply horder.drop
    rw [hinit]
    exact Bool.false_ne_true
  | some data =>
    dsimp only
    have hcalled : ∀ retval, ∀ call ∈ s.calls ++ [⟨e.2, t.intcParent e.2, retval⟩],
        call.sprtParent = t.intcParent call.sprtNp ∧
          (t.initData sprtMatches call.sprtNp).isSome = true := by
      intro retval call hcall
      rcases List.mem_append.mp hcall with hcall | hcall
      · exact h.calls call hcall
      · obtain rfl := List.mem_singleton.mp hcall
        exact ⟨rfl, by rw [hinit]; rfl⟩
    set result := cb data e.2 (t.intcParent e.2) (s.delDesc e.1).drivers
    have hlog : (s.called ⟨e.2, t.intcParent e.2, result.1⟩ result.2).log =
        s.log ++ [(e.2, decide (0 ≤ result.1))] := List.map_append
    have hattempt := horder.attempt hcur.symm (decide (0 ≤ result.1))
    rw [← hlog] at hattempt
    by_cases hretval : result.1 < 0
    · rw [if_pos hretval]
      rw [if_neg fun hgood => not_le.mpr hretval (of_decide_eq_true hgood)] at hattempt
      exact ⟨_, kept, upList, rfl, ⟨hfree.called ⟨e.2, t.intcParent e.2, result.1⟩ result.2,
        hattempt, hcalled result.1⟩, by omega⟩
    · rw [if_neg hretval]
      rw [if_pos (decide_eq_true (not_lt.mp hretval))] at hattempt
      have hmove := h.holds.move hq
      rw [update_pend, update_up] at hmove
      refine ⟨_, kept, upList ++ [e], rfl,
        ⟨hmove.called ⟨e.2, t.intcParent e.2, result.1⟩ result.2, ?_, hcalled result.1⟩, ?_⟩
      · rw [List.map_append]
        exact hattempt
      · rw [List.length_append, List.length_singleton]
        omega

/-- **One pass** over the list of controllers. -/
theorem Pass.run (h : Pass t sprtMatches s [] rest upList cur)
    (cb : δ → ObjPtr → Option ObjPtr → σ → Int × σ) :
    ∃ s' kept' upList',
      foreachDesc .sgrtIntcDescList (IrqInit.initEntry t.toDeviceTree cb sprtMatches cur) s =
        .ok s' ∧ Pass t sprtMatches s' kept' [] upList' cur ∧
        kept'.length + upList'.length ≤ rest.length + upList.length := by
  have hrule : ∃ s', foreachDesc (intcHead false)
      (IrqInit.initEntry t.toDeviceTree cb sprtMatches cur) s = .ok s' ∧
        ∃ kept' upList', Pass t sprtMatches s' kept' [] upList' cur ∧
          kept'.length + ([] : List (ObjPtr × ObjPtr)).length + upList'.length ≤
            rest.length + upList.length := by
    apply foreachDesc_rule (t := t.toDeviceTree)
      (P := fun left s' => ∃ kept' upList', Pass t sprtMatches s' kept' left upList' cur ∧
        kept'.length + left.length + upList'.length ≤ rest.length + upList.length) false ?_ ?_
      h.holds (show entries ([] ++ rest) upList false = rest from rfl)
    · exact ⟨[], upList, h, by rw [List.length_nil, Nat.zero_add]⟩
    · rintro left s' ⟨kept', upList', hpass, -⟩
      exact ⟨_, kept', hpass.holds, rfl⟩
    · rintro e left s' ⟨kept', upList', hpass, hlen⟩
      obtain ⟨s'', kept'', upList'', hrun, hnext, hle⟩ := hpass.initEntry cb
      refine ⟨s'', hrun, kept'', upList'', hnext, ?_⟩
      rw [List.length_cons] at hlen
      omega
  obtain ⟨s', hrun, kept', upList', hpass, hlen⟩ := hrule
  exact ⟨s', kept', upList', hrun, hpass, hlen⟩

/-- What holds when the callbacks have been called. -/
structure Settled (t : ReadableTree) (sprtMatches : List (OfDeviceId δ)) (s : IrqInit σ) :
    Prop where
  once : (s.log.map Prod.fst).Nodup
  known : ∀ n ∈ s.log.map Prod.fst, n ∈ t.controllers sprtMatches
  ordered : Ordered t.intcParent s.log
  complete : ∀ n, Reachable t.intcParent (fun n => n ∈ t.controllers sprtMatches) s.log n →
    (t.initData sprtMatches n).isSome = true → n ∈ s.log.map Prod.fst
  calls : ∀ call ∈ s.calls, call.sprtParent = t.intcParent call.sprtNp ∧
    (t.initData sprtMatches call.sprtNp).isSome = true

theorem Pass.settled (h : Pass t sprtMatches s kept [] upList cur)
    (hstop : kept = [] ∨ upList = []) : Settled t sprtMatches s where
  once := (List.nodup_append.mp h.order.once).1
  known := fun n hn => h.order.known n (List.mem_append_left _ hn)
  ordered := h.order.ordered
  complete := by
    intro n hn hstart
    apply h.order.complete ?_ hn hstart
    rcases hstop with rfl | rfl
    · exact Or.inl rfl
    · exact Or.inr rfl
  calls := h.calls

/-- **The loop while there are controllers** ends, and has called what it can. -/
theorem initLoop_spec {rounds : Nat} (h : Pass t sprtMatches s [] rest upList cur)
    (cb : δ → ObjPtr → Option ObjPtr → σ → Int × σ)
    (hrounds : rest.length + upList.length < rounds) :
    ∃ s' pend' up', initLoop t.toDeviceTree cb sprtMatches rounds cur s = .ok s' ∧
      s'.Holds t.toDeviceTree (entries pend' up') ∧ Settled t sprtMatches s' := by
  induction rounds generalizing s rest upList cur with
  | zero => cases hrounds
  | succ rounds ih =>
    rw [initLoop]
    have hempty : mrtListHeadEmpty s.links .sgrtIntcDescList = true ↔ rest = [] :=
      h.holds.empty_iff false
    by_cases hrest : rest = []
    · subst hrest
      rw [if_pos (hempty.mpr rfl)]
      exact ⟨s, _, _, rfl, h.holds, h.settled (Or.inl rfl)⟩
    rw [if_neg fun hbad => hrest (hempty.mp hbad)]
    obtain ⟨s₁, kept', upList', hrun, h₁, hlen⟩ := h.run cb
    have hempty₁ : mrtListHeadEmpty s₁.links .sgrtIntcParentList = true ↔ upList' = [] :=
      h₁.holds.empty_iff true
    simp only [hrun, bind, Except.bind]
    cases upList' with
    | nil =>
      rw [if_pos (hempty₁.mpr rfl)]
      exact ⟨s₁, _, _, rfl, h₁.holds, h₁.settled (Or.inr rfl)⟩
    | cons e upList' =>
      have hq : entries (kept' ++ []) (e :: upList') true = [] ++ e :: upList' := rfl
      have hlive : s₁.desc e.1 = some ⟨e.2, t.intcParent e.2⟩ :=
        h₁.holds.live true e (List.mem_cons_self ..)
      have hfirst : s₁.links.next .sgrtIntcParentList = .sgrtLink e.1 := h₁.holds.first_entry true
      have hfree := h₁.holds.free hq
      rw [update_up, List.nil_append, List.append_nil] at hfree
      rw [if_neg fun hbad => List.cons_ne_nil e upList' (hempty₁.mp hbad)]
      simp only [hfirst, hlive]
      have hnext : Pass t sprtMatches ((s₁.delDesc e.1).kfree e.1) [] kept' upList' (some e.2) :=
        ⟨hfree, h₁.order.next, h₁.calls⟩
      apply ih hnext
      rw [List.length_cons] at hlen
      omega

end Pass

/-- What is done when `fwk_of_irq_init` returns: nobody is called twice; who is called is a controller
and gets its interrupt parent; it is called after its parent has come up; every controller whose
interrupt ancestors have come up is called, if the table has a callback for it; and no descriptor is
left. -/
structure BroughtUp (t : DeviceTree) (sprtMatches : List (OfDeviceId δ)) (s : IrqInit σ) : Prop where
  once : (s.calls.map InitCall.sprtNp).Nodup
  controller : ∀ call ∈ s.calls, call.sprtNp ∈ t.controllers sprtMatches ∧
    (t.initData sprtMatches call.sprtNp).isSome = true ∧
    call.sprtParent = t.intcParent call.sprtNp
  after : ∀ before call rest, s.calls = before ++ call :: rest →
    ∀ p, t.intcParent call.sprtNp = some p → ∃ up ∈ before, up.sprtNp = p ∧ 0 ≤ up.retval
  complete : ∀ n, Reachable t.intcParent (fun n => n ∈ t.controllers sprtMatches) s.log n →
    (t.initData sprtMatches n).isSome = true → ∃ call ∈ s.calls, call.sprtNp = n
  freed : ∀ d, s.desc d = none

theorem log_fst (s : IrqInit σ) : s.log.map Prod.fst = s.calls.map InitCall.sprtNp := by
  rw [log, List.map_map]
  rfl

theorem Settled.broughtUp {t : ReadableTree} {sprtMatches : List (OfDeviceId δ)} {s s' : IrqInit σ}
    (h : Settled t sprtMatches s) (hcalls : s'.calls = s.calls) (hfreed : ∀ d, s'.desc d = none) :
    BroughtUp t.toDeviceTree sprtMatches s' := by
  have hlog : s'.log = s.log := by rw [log, hcalls, log]
  have hmem : ∀ n, n ∈ s.log.map Prod.fst ↔ ∃ call ∈ s.calls, call.sprtNp = n := by
    intro n
    rw [log_fst, List.mem_map]
  refine ⟨?_, ?_, ?_, ?_, hfreed⟩
  · rw [hcalls, ← log_fst]
    exact h.once
  · intro call hcall
    rw [hcalls] at hcall
    obtain ⟨hparent, hdata⟩ := h.calls call hcall
    exact ⟨h.known _ ((hmem _).mpr ⟨call, hcall, rfl⟩), hdata, hparent⟩
  · intro before call rest heq p hp
    rw [hcalls] at heq
    have hsplit : s.log = before.map (fun call => (call.sprtNp, decide (0 ≤ call.retval))) ++
        (call.sprtNp, decide (0 ≤ call.retval)) ::
          rest.map fun call => (call.sprtNp, decide (0 ≤ call.retval)) := by
      rw [log, heq, List.map_append, List.map_cons]
    obtain ⟨up, hup, hpair⟩ := List.mem_map.mp (h.ordered _ _ _ _ hsplit p hp)
    obtain ⟨hnp, hretval⟩ := Prod.mk.inj hpair
    exact ⟨up, hup, hnp, of_decide_eq_true hretval⟩
  · intro n hn hdata
    rw [hlog] at hn
    rw [hcalls]
    exact (hmem n).mp (h.complete n hn hdata)

/-- **Interrupt controllers come up behind their parents.**  On every tree whose controllers have
interrupt parents that are found, for every match table and whatever the callbacks return, with
enough memory `fwk_of_irq_init` returns. -/
theorem irq_init_order (t : ReadableTree) (cb : δ → ObjPtr → Option ObjPtr → σ → Int × σ)
    (sprtMatches : List (OfDeviceId δ)) (ptrs : List ObjPtr) (drivers : σ)
    (hparent : ∀ n ∈ t.controllers sprtMatches, ∃ sprtParent,
      fwkOfIrqParent t.toDeviceTree (some n) = .ok sprtParent)
    (hnodup : ptrs.Nodup) (henough : (t.controllers sprtMatches).length ≤ ptrs.length) :
    ∃ s, fwkOfIrqInit t.toDeviceTree cb sprtMatches (ptrs.map some) drivers = .ok s ∧
      BroughtUp t.toDeviceTree sprtMatches s := by
  have hstart : (start drivers).Holds t.toDeviceTree (entries [] []) := by
    have hnil : entries [] [] = fun _ => ([] : List (ObjPtr × ObjPtr)) := by
      funext up
      cases up <;> rfl
    rw [hnil]
    exact holds_start t.toDeviceTree drivers
  obtain ⟨s₁, pend, hcollect, h₁, hcalls, hsnd⟩ :=
    collectLoop_spec t sprtMatches hparent (fun _ hn => hn) hstart hnodup (fun _ _ => rfl) henough
  rw [List.map_nil, List.nil_append] at hsnd
  have hpass : Pass t sprtMatches s₁ [] pend [] none := by
    have hcalls₁ : s₁.calls = [] := hcalls
    refine ⟨h₁, ?_, ?_⟩
    · rw [hsnd, log, hcalls₁]
      exact StartOrder.start (t.nodup.filter _) fun _ => Iff.rfl
    · rw [hcalls₁]
      intro call hcall
      cases hcall
  have hlen : pend.length + ([] : List (ObjPtr × ObjPtr)).length < walkRounds := h₁.length_lt false
  obtain ⟨s₂, pend₂, up₂, hloop, h₂, hsettled⟩ := initLoop_spec hpass cb hlen
  obtain ⟨s₃, hfree₃, h₃, hcalls₃⟩ := h₂.freeList true
  obtain ⟨s₄, hfree₄, h₄, hcalls₄⟩ := h₃.freeList false
  rw [update_up, update_pend] at h₄
  refine ⟨s₄, ?_, hsettled.broughtUp (hcalls₄.trans hcalls₃) fun d => h₄.dead d ?_⟩
  · have hparents : foreachDesc .sgrtIntcParentList freeEntry s₂ = .ok s₃ := hfree₃
    have hdescs : foreachDesc .sgrtIntcDescList freeEntry s₃ = .ok s₄ := hfree₄
    rw [fwkOfIrqInit, hcollect]
    simp only [bind, Except.bind, if_true, hloop, hparents, hdescs]
  · intro up e he
    cases up <;> cases he

/-- A root that is an interrupt controller, and another one under it. -/
def intcTree : ReadableTree where
  allNodes := [⟨0x6a000, by decide⟩, ⟨0x6b000, by decide⟩]
  node := fun n =>
    if n.1 = 0x6a000 then
      { fullName := cstring "/", phandle := 1, parent := none,
        properties := [⟨cstring "compatible", 0x3100, [97, 0], by decide, by decide⟩,
          ⟨cstring "interrupt-controller", 0x3110, [], by decide, by decide⟩,
          ⟨cstring "#interrupt-cells", 0x3120, [0, 0, 0, 3], by decide, by decide⟩] }
    else
      { fullName := cstring "/gpc", phandle := 2, parent := some ⟨0x6a000, by decide⟩,
        properties := [⟨cstring "compatible", 0x3130, [98, 0], by decide, by decide⟩,
          ⟨cstring "interrupt-controller", 0x3140, [], by decide, by decide⟩,
          ⟨cstring "status", 0x3150, [111, 107, 0], by decide, by decide⟩] }
  nodup := by decide
  above := by
    intro n hn p hp
    rcases List.mem_pair.mp hn with rfl | rfl
    · cases hp
    · cases hp
      decide
  compatible := by
    intro n hn prop hprop
    rcases List.mem_pair.mp hn with rfl | rfl
    · cases hprop
      exact ⟨[[97]], rfl, by decide⟩
    · cases hprop
      exact ⟨[[98]], rfl, by decide⟩
  status := by
    intro n hn prop hprop
    rcases List.mem_pair.mp hn with rfl | rfl
    · cases hprop
    · cases hprop
      exact ⟨[111, 107], rfl, by decide⟩

/-- A table that knows both; the callbacks count themselves. -/
def intcMatches : List (OfDeviceId Nat) :=
  [⟨[98], some 1, by decide⟩, ⟨[97], some 0, by decide⟩]

theorem irq_init_order_intc :
    ∃ s, fwkOfIrqInit intcTree.toDeviceTree (fun _ _ _ count => (erNormal, count + 1))
        intcMatches ([⟨0x6c000, by decide⟩, ⟨0x6d000, by decide⟩].map some) (0 : Nat) = .ok s ∧
      BroughtUp intcTree.toDeviceTree intcMatches s := by
  apply irq_init_order intcTree
  · intro n hn
    have hmem : n ∈ intcTree.allNodes := List.mem_of_mem_filter hn
    rcases List.mem_pair.mp hmem with rfl | rfl
    · exact ⟨none, by rfl⟩
    · exact ⟨some ⟨0x6a000, by decide⟩, by rfl⟩
  · decide
  · decide

end IrqInit

end HeavenFox.Platform
