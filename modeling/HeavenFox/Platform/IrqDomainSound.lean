/-
# HeavenFox.Platform.IrqDomainSound -- what failures leave of interrupt mappings

`IrqMaps.Kept` holds as long as no allocation fails.  When one does, descriptors stay in the tree
without a bit, or bits are set without a descriptor.  `IrqMaps.Sound` is what is left: the tree is
a table of descriptors that are allocated, and a number in a reverse map has its bit and the
descriptor that names the entry.  Every call that returns keeps it (`step_sound`), whatever the
memory gives and whatever the search for a free range returns.

With it a mapping has no other way to go wrong than the index of the reverse map, which no function
checks: `create_inside_iff`.
-/
import HeavenFox.Platform.IrqDomainRuns

namespace HeavenFox.Platform

open HeavenFox.Common HeavenFox.Logic

namespace IrqMaps

/-! ## The invariant -/

/-- The tree is a table of descriptors that are allocated, each under its own number, and every
number in a reverse map has its bit and a descriptor that names the entry. -/
structure Sound (s : IrqMaps) (table : Nat → Option ObjPtr) : Prop where
  tree : RadixRepr s.tree fun v => table v
  live : ∀ v < 2 ^ 32, ∀ ptr, table v = some ptr → ∃ desc, s.desc ptr = some desc ∧ desc.irq = v
  entry : ∀ d hw v, s.Maps d hw v → v < 2 ^ 31 ∧ s.bitmap.bit v = true ∧
    ∃ ptr desc, table v = some ptr ∧ s.desc ptr = some desc ∧ desc.sgrtData.irq = v ∧
      desc.sgrtData.sprtDomain = some d ∧ desc.sgrtData.hwirq = hw
  listed : ∀ d ∈ s.domains, (s.domain d).isSome = true
  fits : ∀ d domain, s.domain d = some domain → domain.hwirqMax < 2 ^ 30

variable {s s' : IrqMaps} {table table' : Nat → Option ObjPtr} {v virq rounds i hw : Nat}
  {ptr d : ObjPtr} {desc : FwkIrqDesc} {domain : FwkIrqDomain}

theorem sound_start : start.Sound fun _ => none where
  tree := radixRepr_start
  live := by
    intro v _ ptr hptr
    cases hptr
  entry := by
    rintro d hw v ⟨domain, hdomain, -⟩
    cases hdomain
  listed := by
    intro d hd
    cases hd
  fits := by
    intro d domain hdomain
    cases hdomain

/-- No descriptor has two numbers. -/
theorem Sound.apart (h : s.Sound table) {v' : Nat} (hlt : v < 2 ^ 32) (hlt' : v' < 2 ^ 32)
    (hv : table v = some ptr) (hv' : table v' = some ptr) : v = v' := by
  obtain ⟨desc, hdesc, rfl⟩ := h.live v hlt ptr hv
  obtain ⟨desc', hdesc', rfl⟩ := h.live v' hlt' ptr hv'
  rw [hdesc] at hdesc'
  cases hdesc'
  rfl

/-- What the maps know of a descriptor. -/
structure SameName (desc desc' : FwkIrqDesc) : Prop where
  irq : desc'.irq = desc.irq
  number : desc'.sgrtData.irq = desc.sgrtData.irq
  hwirq : desc'.sgrtData.hwirq = desc.sgrtData.hwirq
  domain : desc'.sgrtData.sprtDomain = desc.sgrtData.sprtDomain

theorem SameName.refl (desc : FwkIrqDesc) : SameName desc desc := ⟨rfl, rfl, rfl, rfl⟩

/-- **What leaves the reverse maps alone** keeps the invariant, if it takes nothing away: no bit, no
place in the table, and no name. -/
theorem Sound.grow (h : s.Sound table) (htree : RadixRepr s'.tree fun v => table' v)
    (hdomain : s'.domain = s.domain) (hdomains : s'.domains = s.domains)
    (hbits : ∀ v, s.bitmap.bit v = true → s'.bitmap.bit v = true)
    (htable : ∀ v ptr, table v = some ptr → table' v = some ptr)
    (hlive : ∀ v < 2 ^ 32, ∀ ptr, table' v = some ptr →
      ∃ desc, s'.desc ptr = some desc ∧ desc.irq = v)
    (hdesc : ∀ v ptr desc, table v = some ptr → s.desc ptr = some desc →
      ∃ desc', s'.desc ptr = some desc' ∧ SameName desc desc') : s'.Sound table' where
  tree := htree
  live := hlive
  entry := by
    rintro d hw v ⟨domain, hd, hhw, hrev⟩
    rw [hdomain] at hd
    obtain ⟨hv, hbit, ptr, desc, hptr, hat, hnum, hdom, hhwirq⟩ :=
      h.entry d hw v ⟨domain, hd, hhw, hrev⟩
    obtain ⟨desc', hat', hsame⟩ := hdesc v ptr desc hptr hat
    exact ⟨hv, hbits v hbit, ptr, desc', htable v ptr hptr, hat', hsame.number.trans hnum,
      hsame.domain.trans hdom, hsame.hwirq.trans hhwirq⟩
  listed := by
    rw [hdomain, hdomains]
    exact h.listed
  fits := by
    rw [hdomain]
    exact h.fits

theorem Sound.fail (h : s.Sound table) : s.fail.Sound table :=
  ⟨h.tree, h.live, h.entry, h.listed, h.fits⟩

/-- A descriptor is written that keeps its name. -/
theorem Sound.touch (h : s.Sound table) {desc' : FwkIrqDesc} (hdesc : s.desc ptr = some desc)
    (hsame : SameName desc desc') : (s.setDesc ptr (some desc')).Sound table := by
  have hat : ∀ x old, s.desc x = some old →
      ∃ new, (s.setDesc ptr (some desc')).desc x = some new ∧ SameName old new := by
    intro x old hold
    by_cases hx : x = ptr
    · subst hx
      obtain rfl : desc = old := Option.some.inj (hdesc.symm.trans hold)
      exact ⟨desc', Function.update_self .., hsame⟩
    · exact ⟨old, (Function.update_of_ne hx ..).trans hold, SameName.refl old⟩
  refine h.grow h.tree rfl rfl (fun _ => id) (fun _ _ => id) ?_ fun v x old _ hold => hat x old hold
  intro v hv x hx
  obtain ⟨old, hold, hirq⟩ := h.live v hv x hx
  obtain ⟨new, hnew, hsame'⟩ := hat x old hold
  exact ⟨new, hnew, hsame'.irq.trans hirq⟩

/-- A new descriptor, in the table or not. -/
theorem Sound.spare (h : s.Sound table) {tree : RadixTree} (hfree : s.desc ptr = none)
    (hirq : desc.irq = v) (htree : RadixRepr tree fun x => table' x)
    (htable : table' = table ∨ table v = none ∧ table' = Function.update table v (some ptr)) :
    { s.setDesc ptr (some desc) with tree := tree }.Sound table' := by
  have hother : ∀ x old, s.desc x = some old →
      (s.setDesc ptr (some desc)).desc x = some old := by
    intro x old hold
    have hx : x ≠ ptr := by
      rintro rfl
      rw [hfree] at hold
      cases hold
    exact (Function.update_of_ne hx ..).trans hold
  refine h.grow htree rfl rfl (fun _ => id) ?_ ?_
    fun v x old _ hold => ⟨old, hother x old hold, SameName.refl old⟩
  · intro x y hy
    rcases htable with rfl | ⟨hnone, rfl⟩
    · exact hy
    · rw [Function.update_of_ne, hy]
      rintro rfl
      rw [hnone] at hy
      cases hy
  · intro x hx y hy
    have hold : table x = some y → ∃ old, s.desc y = some old ∧ old.irq = x := h.live x hx y
    rcases htable with rfl | ⟨hnone, rfl⟩
    · obtain ⟨old, hat, hnum⟩ := hold hy
      exact ⟨old, hother y old hat, hnum⟩
    · by_cases hxv : x = v
      · subst hxv
        rw [Function.update_self] at hy
        cases hy
        exact ⟨desc, Function.update_self .., hirq⟩
      · rw [Function.update_of_ne hxv] at hy
        obtain ⟨old, hat, hnum⟩ := hold hy
        exact ⟨old, hother y old hat, hnum⟩

/-! ## Looking up -/

theorem Sound.fwkIrqGetData_none (h : s.Sound table) (hv : v < 2 ^ 32) (hnone : table v = none) :
    s.fwkIrqGetData v = .ok none := by
  have hlook : s.fwkIrqToDesc v = .ok (table v) := h.tree.lookUp ⟨v, hv⟩
  rw [fwkIrqGetData, hlook, hnone]
  rfl

theorem Sound.fwkIrqGetData_some (h : s.Sound table) (hv : v < 2 ^ 32) (hptr : table v = some ptr) :
    ∃ desc, s.desc ptr = some desc ∧ desc.irq = v ∧
      s.fwkIrqGetData v = .ok (some (ptr, desc)) := by
  have hlook : s.fwkIrqToDesc v = .ok (table v) := h.tree.lookUp ⟨v, hv⟩
  obtain ⟨desc, hdesc, hirq⟩ := h.live v hv ptr hptr
  refine ⟨desc, hdesc, hirq, ?_⟩
  simp only [fwkIrqGetData, hlook, hptr, hdesc, bind, Except.bind, pure, Except.pure]

/-- What is found for a number is a descriptor that is allocated. -/
theorem Sound.fwkIrqGetData_cases (h : s.Sound table) (hv : v < 2 ^ 32) :
    s.fwkIrqGetData v = .ok none ∨
      ∃ ptr desc, s.desc ptr = some desc ∧ s.fwkIrqGetData v = .ok (some (ptr, desc)) := by
  cases hptr : table v with
  | none => exact Or.inl (h.fwkIrqGetData_none hv hptr)
  | some ptr =>
    obtain ⟨desc, hdesc, -, hget⟩ := h.fwkIrqGetData_some hv hptr
    exact Or.inr ⟨ptr, desc, hdesc, hget⟩

/-! ## Entries of reverse maps -/

/-- **A number gets an entry**, and its descriptor the name of it; no other entry has the number. -/
theorem Sound.name (h : s.Sound table) (hv : v < 2 ^ 31) (hptr : table v = some ptr)
    (hbit : s.bitmap.bit v = true) (hbare : ∀ d hw, ¬ s.Maps d hw v) {desc' : FwkIrqDesc}
    (hirq : desc'.irq = v) (hnum : desc'.sgrtData.irq = v) (hhwirq : desc'.sgrtData.hwirq = hw)
    (hdom : desc'.sgrtData.sprtDomain = some d) (hdomain : s.domain d = some domain)
    (hhw : hw < domain.hwirqMax) :
    ((s.setDesc ptr (some desc')).setEntry d domain hw v).Sound table := by
  have hdomain' : (s.setDesc ptr (some desc')).domain d = some domain := hdomain
  have hself : (s.setDesc ptr (some desc')).desc ptr = some desc' := Function.update_self ..
  have hother : ∀ x y, x < 2 ^ 32 → x ≠ v → table x = some y →
      (s.setDesc ptr (some desc')).desc y = s.desc y := by
    intro x y hx hne hy
    have hyp : y ≠ ptr := by
      rintro rfl
      exact hne (h.apart hx (by omega) hy hptr)
    exact Function.update_of_ne hyp ..
  refine ⟨h.tree, ?_, ?_, setEntry_listed h.listed hdomain', setEntry_fits h.fits hdomain'⟩
  · intro x hx y hy
    rw [setEntry_desc]
    by_cases hxv : x = v
    · subst hxv
      obtain rfl : ptr = y := Option.some.inj (hptr.symm.trans hy)
      exact ⟨desc', hself, hirq⟩
    · rw [hother x y hx hxv hy]
      exact h.live x hx y hy
  · intro d' hw' x hmaps
    by_cases hne : (d', hw') = (d, hw)
    · cases hne
      obtain rfl : v = x := by
        have heq := (maps_setEntry_self hhw).mp hmaps
        exact_mod_cast heq
      exact ⟨hv, hbit, ptr, desc', hptr, hself, hnum, hdom, hhwirq⟩
    · have hold : s.Maps d' hw' x := (maps_setEntry_ne hdomain' hne).mp hmaps
      obtain ⟨hx, hbit', y, old, hy, hat, hrest⟩ := h.entry d' hw' x hold
      have hxv : x ≠ v := by
        rintro rfl
        exact hbare d' hw' hold
      refine ⟨hx, hbit', y, old, hy, ?_, hrest⟩
      rw [setEntry_desc, hother x y (by omega) hxv hy, hat]

/-- **A number is released**, with its descriptor and its entry. -/
theorem Sound.drop (h : s.Sound table) (hmaps : s.Maps d hw v) (hptr : table v = some ptr)
    (hdomain : s.domain d = some domain) {tree : RadixTree} {bitmap : Bitmap}
    (htree : RadixRepr tree fun x => Function.update table v none x)
    (hbits : ∀ x, x ≠ v → s.bitmap.bit x = true → bitmap.bit x = true) :
    ({ s with tree := tree, bitmap := bitmap }.setDesc ptr none |>.setEntry d domain hw (-1)).Sound
      (Function.update table v none) := by
  have hdomain' : ({ s with tree := tree, bitmap := bitmap }.setDesc ptr none).domain d =
      some domain := hdomain
  obtain ⟨hv, -, ptr', desc, hptr', hdesc, -, hdom, hhwirq⟩ := h.entry d hw v hmaps
  obtain rfl : ptr = ptr' := Option.some.inj (hptr.symm.trans hptr')
  obtain ⟨dom, hdomain₂, hhw, -⟩ := hmaps
  obtain rfl : domain = dom := Option.some.inj (hdomain.symm.trans hdomain₂)
  have hother : ∀ x y, x < 2 ^ 32 → x ≠ v → table x = some y →
      ({ s with tree := tree, bitmap := bitmap }.setDesc ptr none).desc y = s.desc y := by
    intro x y hx hne hy
    have hyp : y ≠ ptr := by
      rintro rfl
      exact hne (h.apart hx (by omega) hy hptr)
    exact Function.update_of_ne hyp ..
  have hold : ∀ x y, Function.update table v none x = some y → x ≠ v ∧ table x = some y := by
    intro x y hy
    have hxv : x ≠ v := by
      rintro rfl
      rw [Function.update_self] at hy
      cases hy
    rw [Function.update_of_ne hxv] at hy
    exact ⟨hxv, hy⟩
  refine ⟨htree, ?_, ?_, setEntry_listed h.listed hdomain', setEntry_fits h.fits hdomain'⟩
  · intro x hx y hy
    obtain ⟨hxv, hy⟩ := hold x y hy
    rw [setEntry_desc, hother x y hx hxv hy]
    exact h.live x hx y hy
  · intro d' hw' x hm
    have hne : (d', hw') ≠ (d, hw) := by
      intro heq
      cases heq
      have heq := (maps_setEntry_self hhw).mp hm
      omega
    have hm' : s.Maps d' hw' x := (maps_setEntry_ne hdomain' hne).mp hm
    obtain ⟨hx, hbit', y, old, hy, hat, hnum', hdom', hhwirq'⟩ := h.entry d' hw' x hm'
    -- the number that goes is in no other entry
    have hxv : x ≠ v := by
      rintro rfl
      rw [hptr] at hy
      cases hy
      rw [hdesc] at hat
      cases hat
      rw [hdom] at hdom'
      cases hdom'
      exact hne (by rw [← hhwirq, ← hhwirq'])
    refine ⟨hx, hbits x hxv hbit', y, old, ?_, ?_, hnum', hdom', hhwirq'⟩
    · rw [Function.update_of_ne hxv, hy]
    · rw [setEntry_desc, hother x y (by omega) hxv hy, hat]

/-! ## Allocating -/

/-- What the allocation of descriptors leaves: the reverse maps, the bitmap, and every descriptor
that was allocated. -/
structure Frame (s s' : IrqMaps) : Prop where
  maps : SameMaps s s'
  desc : ∀ ptr, (s.desc ptr).isSome = true → s'.desc ptr = s.desc ptr

theorem Frame.refl (s : IrqMaps) : Frame s s := ⟨⟨rfl, rfl, rfl⟩, fun _ _ => rfl⟩

theorem Frame.trans {s₁ : IrqMaps} (h : Frame s s₁) (h' : Frame s₁ s') : Frame s s' where
  maps := ⟨h'.maps.domain.trans h.maps.domain, h'.maps.domains.trans h.maps.domains,
    h'.maps.bitmap.trans h.maps.bitmap⟩
  desc := by
    intro ptr hptr
    have hsame := h.desc ptr hptr
    rw [← hsame, h'.desc ptr (by rwa [hsame])]

/-- A new descriptor leaves the others. -/
theorem Frame.spare (hfree : s.desc ptr = none) (desc : FwkIrqDesc) (tree : RadixTree) :
    Frame s { s.setDesc ptr (some desc) with tree := tree } where
  maps := ⟨rfl, rfl, rfl⟩
  desc := by
    intro x hx
    apply Function.update_of_ne
    rintro rfl
    rw [hfree] at hx
    cases hx

/-- So many descriptors can be allocated, none of them twice. -/
def FreshDescs (s : IrqMaps) (count : Nat) : Prop :=
  ∃ ptrs : List ObjPtr, ptrs.Nodup ∧ ptrs.length = count ∧ ∀ ptr ∈ ptrs, s.desc ptr = none

theorem FreshDescs.lt {count : Nat} (h : s.FreshDescs count) : count < 2 ^ 32 - 4096 := by
  obtain ⟨ptrs, hnodup, rfl, -⟩ := h
  exact ObjPtr.length_of_nodup hnodup

theorem FreshDescs.more {count : Nat} (hfree : s.desc ptr = none)
    (hgone : (s'.desc ptr).isSome = true)
    (hframe : ∀ x, (s.desc x).isSome = true → (s'.desc x).isSome = true)
    (h : s'.FreshDescs count) : s.FreshDescs (count + 1) := by
  obtain ⟨ptrs, hnodup, hlen, hnone⟩ := h
  refine ⟨ptr :: ptrs, List.nodup_cons.mpr ⟨?_, hnodup⟩, by rw [List.length_cons, hlen], ?_⟩
  · intro hmem
    rw [hnone ptr hmem] at hgone
    cases hgone
  · intro x hx
    rcases List.mem_cons.mp hx with rfl | hx
    · exact hfree
    · by_contra hsome
      have hlive := hframe x (Option.isSome_iff_ne_none.mpr hsome)
      rw [hnone x hx] at hlive
      cases hlive

/-- A descriptor is put under a number into the tree, unless the number is there or memory is
refused. -/
theorem radixAdd_cases {tree : RadixTree} (h : RadixRepr tree fun x => table x) (hv : v < 2 ^ 32)
    (ptr : ObjPtr) (allocs : List (Option ObjPtr)) :
    ∃ tree' table', radixTreeAdd tree v (some ptr) allocs = .ok tree' ∧
      (RadixRepr tree' fun x => table' x) ∧
      (table' = table ∨ table v = none ∧ table' = Function.update table v (some ptr)) := by
  obtain ⟨tree', hcall, -, hrepr⟩ := h.add ⟨v, hv⟩ ptr allocs
  by_cases hbind : table v = none ∧ tree'.refused = tree.refused
  · rw [if_pos hbind, update_table] at hrepr
    exact ⟨tree', _, hcall, hrepr, Or.inr ⟨hbind.1, rfl⟩⟩
  · rw [if_neg hbind] at hrepr
    exact ⟨tree', table, hcall, hrepr, Or.inl rfl⟩

/-- The maps after one round of the loop of `fwk_irq_domain_alloc_descs` that gets a descriptor. -/
def withDesc (s : IrqMaps) (v : Nat) (ptr : ObjPtr) (tree : RadixTree) : IrqMaps :=
  { s.setDesc ptr (some { FwkIrqDesc.zero with irq := v }) with tree := tree }

/-- One round of the loop of `fwk_irq_domain_alloc_descs`. -/
theorem allocDescsLoop_cases (h : RadixRepr s.tree fun x => table x) (virq rounds i : Nat)
    (allocs : List DescAlloc) :
    (s.fwkAllocateIrqDesc (allocs.head?.bind Prod.fst) = (none, s.fail) ∧
        allocDescsLoop virq (rounds + 1) i allocs s = .ok (false, s.fail)) ∨
      ∃ ptr tree table', s.desc ptr = none ∧
        s.fwkAllocateIrqDesc (allocs.head?.bind Prod.fst) = (some ptr, s.setDesc ptr (some .zero)) ∧
        radixTreeAdd s.tree (add32 virq i) (some ptr) (allocs.head?.elim [] Prod.snd) = .ok tree ∧
        (RadixRepr tree fun x => table' x) ∧
        (table' = table ∨ table (add32 virq i) = none ∧
          table' = Function.update table (add32 virq i) (some ptr)) ∧
        allocDescsLoop virq (rounds + 1) i allocs s =
          allocDescsLoop virq rounds (i + 1) allocs.tail (s.withDesc (add32 virq i) ptr tree) := by
  rw [allocDescsLoop]
  rcases fwkAllocateIrqDesc_cases s (allocs.head?.bind Prod.fst) with hcall | ⟨ptr, hfree, hcall⟩
  · rw [hcall]
    exact Or.inl ⟨rfl, rfl⟩
  rw [hcall]
  obtain ⟨tree, table', hadd, hrepr, htable⟩ :=
    radixAdd_cases h (add32_lt virq i) ptr (allocs.head?.elim [] Prod.snd)
  have htwice : (s.setDesc ptr (some .zero)).setDesc ptr
      (some { FwkIrqDesc.zero with irq := add32 virq i }) =
        s.setDesc ptr (some { FwkIrqDesc.zero with irq := add32 virq i }) := by
    simp [setDesc]
  have htree : (s.setDesc ptr (some { FwkIrqDesc.zero with irq := add32 virq i })).tree = s.tree :=
    rfl
  refine Or.inr ⟨ptr, tree, table', hfree, rfl, hadd, hrepr, htable, ?_⟩
  simp only [htwice, htree, hadd]
  rfl

/-- **The loop of `fwk_irq_domain_alloc_descs`**, for any numbers and whatever the memory gives. -/
theorem allocDescsLoop_sound (h : s.Sound table) (allocs : List DescAlloc) :
    ∃ enough s' table', allocDescsLoop virq rounds i allocs s = .ok (enough, s') ∧
      s'.Sound table' ∧ Frame s s' ∧ (enough = true → s.FreshDescs rounds) := by
  induction rounds generalizing s table i allocs with
  | zero =>
    exact ⟨true, s, table, rfl, h, Frame.refl s, fun _ => ⟨[], List.nodup_nil, rfl, by simp⟩⟩
  | succ rounds ih =>
    rcases allocDescsLoop_cases h.tree virq rounds i allocs with
      ⟨-, hrun⟩ | ⟨ptr, tree, table₁, hfree, -, -, hrepr, htable, hrun⟩
    · exact ⟨false, s.fail, table, hrun, h.fail, ⟨⟨rfl, rfl, rfl⟩, fun _ _ => rfl⟩,
        fun hfalse => absurd hfalse Bool.false_ne_true⟩
    have hnext : (s.withDesc (add32 virq i) ptr tree).Sound table₁ := h.spare hfree rfl hrepr htable
    have hframe : Frame s (s.withDesc (add32 virq i) ptr tree) := Frame.spare hfree _ tree
    obtain ⟨enough, s', table', hrest, hsound, hframe', hfresh⟩ := ih hnext allocs.tail
    refine ⟨enough, s', table', hrun.trans hrest, hsound, hframe.trans hframe', fun henough => ?_⟩
    apply (hfresh henough).more hfree
    · simp [withDesc, setDesc]
    · intro x hx
      rwa [hframe.desc x hx]

/-- What `fwk_irq_domain_alloc_descs` leaves when it returns a number: a range that was free and has
its bits now. -/
structure Reserved (s s' : IrqMaps) (w nr : Nat) : Prop where
  high : w + nr < fwkIrqDescMax
  free : FreeRun s.bitmap w nr
  marked : ∀ v, w ≤ v → v < w + nr → s'.bitmap.bit v = true

theorem bitmapSetNrBitValid_bit {bitmap : Bitmap} {start totalBits nr : Nat}
    (hbit : bitmap.bit v = true) :
    (bitmapSetNrBitValid bitmap start totalBits nr).bit v = true := by
  unfold bitmapSetNrBitValid bitmapSetNrBit
  dsimp only
  split
  · exact hbit
  · rw [bitmapSetLoop_bit, hbit, ite_self]

theorem Sound.mark (h : s.Sound table) (start nr : Nat) :
    { s with bitmap := bitmapSetNrBitValid s.bitmap start fwkIrqDescMax nr }.Sound table :=
  h.grow h.tree rfl rfl (fun _ hbit => bitmapSetNrBitValid_bit hbit) (fun _ _ hptr => hptr) h.live
    fun _ _ desc _ hdesc => ⟨desc, hdesc, SameName.refl desc⟩

/-- The search for a free range does not end. -/
def Searching (s : IrqMaps) (irqBase : Int) (nr : Nat) : Prop :=
  fwkIrqBitmapFindAreas s.bitmap irqBase fwkIrqDescMax nr = .error .spins

/-- **`fwk_irq_domain_alloc_descs`**, for any base and count. -/
theorem fwkIrqDomainAllocDescs_sound (h : s.Sound table) (irqBase : Int) {nr : Nat}
    (hnr : nr < 2 ^ 32) (allocs : List DescAlloc) :
    (s.Searching irqBase nr ∧ s.fwkIrqDomainAllocDescs irqBase nr allocs = .error .spins) ∨
      ¬ s.Searching irqBase nr ∧
        ∃ r s' table', s.fwkIrqDomainAllocDescs irqBase nr allocs = .ok (r, s') ∧
          s'.Sound table' ∧ s'.domain = s.domain ∧
          (r < 0 ∨ ∃ w : Nat, r = w ∧ Reserved s s' w nr) := by
  have harea : Area s.bitmap fwkIrqDescMax nr
      (fwkIrqBitmapFindAreas s.bitmap irqBase fwkIrqDescMax nr) :=
    findAreasLoop_area (by decide) hnr _ _
  rw [fwkIrqDomainAllocDescs, Searching]
  generalize fwkIrqBitmapFindAreas s.bitmap irqBase fwkIrqDescMax nr = found at harea
  have hmax : fwkIrqDescMax = 1024 := rfl
  have hnot : ∀ r : Int, (.ok r : Except Stop Int) ≠ .error .spins := by
    intro r hr
    cases hr
  have halloc : ∀ virq, ∃ enough s₁ table₁, allocDescsLoop virq nr 0 allocs s = .ok (enough, s₁) ∧
      s₁.Sound table₁ ∧ Frame s s₁ ∧ (enough = true → s.FreshDescs nr) :=
    fun virq => allocDescsLoop_sound h allocs
  cases harea with
  | spins => exact Or.inl ⟨rfl, rfl⟩
  | code r hcode =>
    obtain ⟨enough, s₁, table₁, hloop, h₁, hframe, -⟩ := halloc (asUint32 r)
    have hneg : asInt32 (asUint32 r) < 0 := by
      rcases hcode with rfl | rfl <;> decide
    refine Or.inr ⟨hnot _, ?_⟩
    simp only [hloop, bind, Except.bind, pure, Except.pure]
    cases enough with
    | false => exact ⟨_, s₁, table₁, rfl, h₁, hframe.maps.domain, Or.inl (by decide)⟩
    | true =>
      exact ⟨_, _, table₁, rfl, h₁.mark _ _, hframe.maps.domain, Or.inl hneg⟩
  | row w hend hrun =>
    obtain ⟨enough, s₁, table₁, hloop, h₁, hframe, -⟩ := halloc w
    have huint : asUint32 w = w := asUint32_of_lt (by omega)
    refine Or.inr ⟨hnot _, ?_⟩
    simp only [huint, hloop, bind, Except.bind, pure, Except.pure,
      asInt32_of_lt (show w < 2 ^ 31 by omega)]
    cases enough with
    | false => exact ⟨_, s₁, table₁, rfl, h₁, hframe.maps.domain, Or.inl (by decide)⟩
    | true =>
      refine ⟨_, _, table₁, rfl, h₁.mark _ _, hframe.maps.domain,
        Or.inr ⟨w, rfl, hend, hrun, ?_⟩⟩
      intro v hlow hhigh
      have hbit : (bitmapSetNrBitValid s₁.bitmap w fwkIrqDescMax nr).bit v = _ :=
        bitmapSetNrBit_bit hend (by decide) v
      rw [hbit, if_pos ⟨hlow, hhigh⟩]
  | wraps w hlow hwrap =>
    obtain ⟨enough, s₁, table₁, hloop, h₁, hframe, hfresh⟩ := halloc (asUint32 w)
    refine Or.inr ⟨hnot _, ?_⟩
    simp only [hloop, bind, Except.bind, pure, Except.pure]
    cases enough with
    | false => exact ⟨_, s₁, table₁, rfl, h₁, hframe.maps.domain, Or.inl (by decide)⟩
    | true =>
      -- there are not so many addresses
      have hfew := (hfresh rfl).lt
      omega

/-- The hardware numbers from `lo` up to `hi`, counted from `hwirq`, are numbers of the domain. -/
def InsideDomain (s : IrqMaps) (d : ObjPtr) (hwirq lo hi : Nat) : Prop :=
  ∃ domain, s.domain d = some domain ∧ ∀ j, lo ≤ j → j < hi → add32 hwirq j < domain.hwirqMax

/-- **The loop of `irq_domain_alloc_irq_data`** faults only at a hardware number that the domain does
not have. -/
theorem allocIrqDataLoop_sound (h : s.Sound table) (hhi : virq + i + rounds < fwkIrqDescMax)
    (hbits : ∀ v, virq + i ≤ v → v < virq + i + rounds → s.bitmap.bit v = true)
    (hbare : ∀ d hw v, s.Maps d hw v → ¬ (virq + i ≤ v ∧ v < virq + i + rounds))
    (d : ObjPtr) (hw : Nat) :
    (allocIrqDataLoop d virq hw rounds i s = .error .fault ∧
        ¬ s.InsideDomain d hw i (i + rounds)) ∨
      ∃ r s', allocIrqDataLoop d virq hw rounds i s = .ok (r, s') ∧ s'.Sound table ∧
        (r < 0 ∨ r = virq) := by
  have hmax : fwkIrqDescMax = 1024 := rfl
  induction rounds generalizing s i with
  | zero =>
    exact Or.inr ⟨asInt32 virq, s, rfl, h, Or.inr (asInt32_of_lt (by omega))⟩
  | succ rounds ih =>
    have hnum : add32 virq i = virq + i := add32_of_lt (by omega)
    have hint : asInt32 (virq + i) = ((virq + i : Nat) : Int) := asInt32_of_lt (by omega)
    simp only [allocIrqDataLoop, hnum, hint]
    cases hptr : table (virq + i) with
    | none =>
      rw [h.fwkIrqGetData_none (by omega) hptr]
      exact Or.inr ⟨-erNotfound, s, rfl, h, Or.inl (by decide)⟩
    | some ptr =>
      obtain ⟨desc, hdesc, hirq, hget⟩ := h.fwkIrqGetData_some (by omega) hptr
      rw [hget]
      simp only [bind, Except.bind, setRevmap]
      set desc' : FwkIrqDesc := { desc with
        sgrtData := { desc.sgrtData with
          sprtDomain := some d
          irq := virq + i
          hwirq := add32 hw i
          sprtChip := some .sgrtFwkIrqDummyChip
          mask := 0 } }
      have hsame : (s.setDesc ptr (some desc')).domain d = s.domain d := rfl
      rw [hsame]
      cases hdomain : s.domain d with
      | none =>
        refine Or.inl ⟨rfl, ?_⟩
        rintro ⟨domain, hdomain', -⟩
        rw [hdomain] at hdomain'
        cases hdomain'
      | some domain =>
        dsimp only
        by_cases hin : add32 hw i < domain.hwirqMax
        swap
        · rw [if_neg hin]
          refine Or.inl ⟨rfl, ?_⟩
          rintro ⟨domain', hdomain', hall⟩
          rw [hdomain] at hdomain'
          cases hdomain'
          exact hin (hall i (le_refl i) (by omega))
        rw [if_pos hin]
        have hnext : ((s.setDesc ptr (some desc')).setEntry d domain (add32 hw i)
            ((virq + i : Nat) : Int)).Sound table :=
          h.name (by omega) hptr (hbits _ (le_refl _) (by omega))
            (fun d' hw' hm => hbare d' hw' _ hm ⟨le_refl _, by omega⟩) hirq rfl rfl rfl hdomain hin
        have hdomain₁ : ((s.setDesc ptr (some desc')).setEntry d domain (add32 hw i)
            ((virq + i : Nat) : Int)).domain d = some _ := Function.update_self ..
        have hbare' : ∀ d' hw' v, ((s.setDesc ptr (some desc')).setEntry d domain (add32 hw i)
            ((virq + i : Nat) : Int)).Maps d' hw' v →
              ¬ (virq + (i + 1) ≤ v ∧ v < virq + (i + 1) + rounds) := by
          intro d' hw' v hm hv
          by_cases hne : (d', hw') = (d, add32 hw i)
          · cases hne
            have heq := (maps_setEntry_self hin).mp hm
            omega
          · have hold : s.Maps d' hw' v := (maps_setEntry_ne hdomain hne).mp hm
            exact hbare d' hw' v hold ⟨by omega, by omega⟩
        rcases ih hnext (by omega) (fun v hlow hhigh => hbits v (by omega) (by omega)) hbare' with
          ⟨hfault, hout⟩ | hok
        · refine Or.inl ⟨hfault, ?_⟩
          rintro ⟨domain', hdomain', hall⟩
          rw [hdomain] at hdomain'
          cases hdomain'
          exact hout ⟨_, hdomain₁, fun j hlow hhigh => hall j (by omega) (by omega)⟩
        · exact Or.inr hok

/-- **`fwk_irq_domain_alloc_irqs`**, for any base, count and hardware numbers. -/
theorem fwkIrqDomainAllocIrqs_sound (h : s.Sound table) (d : ObjPtr) (irqBase : Int) (hw : Nat)
    {nr : Nat} (hnr : nr < 2 ^ 32) (allocs : List DescAlloc) :
    (s.Searching irqBase nr ∧ s.fwkIrqDomainAllocIrqs d irqBase hw nr allocs = .error .spins) ∨
      (s.fwkIrqDomainAllocIrqs d irqBase hw nr allocs = .error .fault ∧
        ¬ s.InsideDomain d hw 0 nr) ∨
      ¬ s.Searching irqBase nr ∧
        ∃ r s' table', s.fwkIrqDomainAllocIrqs d irqBase hw nr allocs = .ok (r, s') ∧
          s'.Sound table' ∧ (r < 0 ∨ ∃ w : Nat, r = w ∧ w < fwkIrqDescMax) := by
  have hmax : fwkIrqDescMax = 1024 := rfl
  rw [fwkIrqDomainAllocIrqs]
  rcases fwkIrqDomainAllocDescs_sound h irqBase hnr allocs with
    ⟨hsearch, hspins⟩ | ⟨hsearch, r, s₁, table₁, hcall, h₁, hdomain, hres⟩
  · rw [hspins]
    exact Or.inl ⟨hsearch, rfl⟩
  rw [hcall]
  rcases hres with hneg | ⟨w, rfl, hhigh, hfree, hmarked⟩
  · simp only [bind, Except.bind, if_pos hneg]
    exact Or.inr (Or.inr ⟨hsearch, r, s₁, table₁, rfl, h₁, Or.inl hneg⟩)
  · have huint : asUint32 w = w := asUint32_of_lt (by omega)
    simp only [bind, Except.bind, if_neg (show ¬ (w : Int) < 0 by omega), huint]
    have hbare : ∀ d' hw' v, s₁.Maps d' hw' v → ¬ (w + 0 ≤ v ∧ v < w + 0 + nr) := by
      rintro d' hw' v ⟨domain, hd', hhw', hrev⟩ hv
      -- a number in a reverse map had its bit before
      rw [hdomain] at hd'
      have hbit := (h.entry d' hw' v ⟨domain, hd', hhw', hrev⟩).2.1
      rw [hfree v (by omega) (by omega)] at hbit
      cases hbit
    rcases allocIrqDataLoop_sound h₁ (show w + 0 + nr < fwkIrqDescMax by omega)
      (fun v hlow hhigh => hmarked v (by omega) (by omega)) hbare d hw with
      ⟨hfault, hout⟩ | ⟨r, s', hrun, hsound, hr⟩
    · refine Or.inr (Or.inl ⟨hfault, ?_⟩)
      rintro ⟨domain, hd, hall⟩
      rw [← hdomain] at hd
      exact hout ⟨domain, hd, fun j hlow hhigh => hall j hlow (by omega)⟩
    · exact Or.inr (Or.inr ⟨hsearch, r, s', table₁, hrun, hsound,
        hr.imp_right fun heq => ⟨w, heq, by omega⟩⟩)

/-! ## Mapping a specifier -/

/-- **`fwk_irq_domain_find_map`** faults only at a hardware number that the domain does not have. -/
theorem Sound.findMap (h : s.Sound table) (hdomain : s.domain d = some domain) (type : Nat) :
    (s.fwkIrqDomainFindMap d hw type = .error .fault ∧ domain.hwirqMax ≤ hw) ∨
      (hw < domain.hwirqMax ∧ ∃ r s', s.fwkIrqDomainFindMap d hw type = .ok (r, s') ∧
        s'.Sound table ∧ s'.domain = s.domain ∧ s'.bitmap = s.bitmap ∧
        (0 ≤ r ↔ 0 ≤ domain.revmap hw)) := by
  rw [fwkIrqDomainFindMap, fwkIrqDomainGetData]
  simp only [getRevmap, hdomain]
  rcases Nat.lt_or_ge hw domain.hwirqMax with hhw | hhw
  swap
  · rw [if_neg (Nat.not_lt.mpr hhw)]
    exact Or.inl ⟨rfl, hhw⟩
  rw [if_pos hhw]
  refine Or.inr ⟨hhw, ?_⟩
  simp only [bind, Except.bind]
  by_cases hneg : domain.revmap hw < 0
  · rw [if_pos hneg]
    exact ⟨_, s, rfl, h, rfl, rfl, iff_of_false (by decide) (Int.not_le.mpr hneg)⟩
  rw [if_neg hneg]
  -- the number in the map has the descriptor that names the entry
  have hmaps : s.Maps d hw (domain.revmap hw).toNat := ⟨domain, hdomain, hhw, by omega⟩
  obtain ⟨hv, -, ptr, desc, hptr, hdesc, hnum, hdom, hhwirq⟩ := h.entry d hw _ hmaps
  have huint : asUint32 (domain.revmap hw) = (domain.revmap hw).toNat := by
    rw [← Int.toNat_of_nonneg (Int.not_lt.mp hneg), asUint32_of_lt (by omega), Int.toNat_natCast]
  obtain ⟨desc', hdesc', -, hget⟩ := h.fwkIrqGetData_some (by omega) hptr
  rw [hdesc] at hdesc'
  cases hdesc'
  have hint : asInt32 (domain.revmap hw).toNat = domain.revmap hw := by
    rw [asInt32_of_lt hv, Int.toNat_of_nonneg (Int.not_lt.mp hneg)]
  rw [huint, hget]
  simp only [if_pos (And.intro hhwirq hdom), pure, Except.pure, hnum, hint]
  by_cases htype : type = 0
  · rw [if_pos htype]
    exact ⟨_, s, rfl, h, rfl, rfl, Iff.rfl⟩
  rw [if_neg htype]
  by_cases hflags : desc.flags &&& (type &&& senseMask) = 0
  · rw [if_pos hflags]
    exact ⟨_, _, rfl, h.touch hdesc ⟨rfl, rfl, rfl, rfl⟩, rfl, rfl, Iff.rfl⟩
  · rw [if_neg hflags]
    exact ⟨_, s, rfl, h, rfl, rfl, Iff.rfl⟩

theorem setupGenericChipLoop_sound {base : Nat} (h : s.Sound table) (sprtGc : ObjPtr) :
    ∃ s', setupGenericChipLoop base sprtGc rounds i s = .ok s' ∧ s'.Sound table := by
  induction rounds generalizing s i with
  | zero => exact ⟨s, rfl, h⟩
  | succ rounds ih =>
    rw [setupGenericChipLoop]
    rcases h.fwkIrqGetData_cases (add32_lt base i) with hget | ⟨ptr, desc, hdesc, hget⟩
    · rw [hget]
      exact ih h
    · rw [hget]
      exact ih (h.touch hdesc ⟨rfl, rfl, rfl, rfl⟩)

theorem Sound.gpcAlloc (h : s.Sound table) (virq nr : Nat) (kzalloc : Option ObjPtr) :
    ∃ s', s.gpcIrqDomainAlloc virq nr kzalloc = .ok s' ∧ s'.Sound table := by
  cases kzalloc with
  | none => exact ⟨s.fail, rfl, h.fail⟩
  | some sprtGc => exact setupGenericChipLoop_sound h sprtGc

theorem Sound.setType (h : s.Sound table) (hv : v < 2 ^ 32) (type : Nat) :
    ∃ s', s.fwkIrqDescSetType v type = .ok s' ∧ s'.Sound table := by
  rw [fwkIrqDescSetType]
  rcases h.fwkIrqGetData_cases hv with hget | ⟨ptr, desc, hdesc, hget⟩
  · rw [hget]
    exact ⟨s, rfl, h⟩
  · rw [hget]
    exact ⟨_, rfl, h.touch hdesc ⟨rfl, rfl, rfl, rfl⟩⟩

/-- Mapping a hardware number of a domain does not fault. -/
theorem mapOne_sound (h : s.Sound table) (hdomain : s.domain d = some domain)
    (hhw : hw < domain.hwirqMax) (ops : FwkIrqDomainOps) (type : Nat) (alloc : DescAlloc)
    (kzalloc : Option ObjPtr) :
    (s.Searching (-1) 1 ∧ s.mapOne d ops hw type alloc kzalloc = .error .spins) ∨
      ¬ s.Searching (-1) 1 ∧
        ∃ r s' table', s.mapOne d ops hw type alloc kzalloc = .ok (r, s') ∧ s'.Sound table' := by
  have hfits := h.fits d domain hdomain
  have hinside : s.InsideDomain d hw 0 1 := by
    refine ⟨domain, hdomain, fun j _ hj => ?_⟩
    obtain rfl : j = 0 := by omega
    rwa [add32_of_lt (by omega), Nat.add_zero]
  rw [mapOne]
  rcases fwkIrqDomainAllocIrqs_sound h d (-1) hw (show 1 < 2 ^ 32 by decide) [alloc] with
    ⟨hsearch, hspins⟩ | ⟨-, hout⟩ | ⟨hsearch, r, s₁, table₁, hcall, h₁, hr⟩
  · rw [hspins]
    exact Or.inl ⟨hsearch, rfl⟩
  · exact absurd hinside hout
  rw [hcall]
  simp only [bind, Except.bind]
  rcases hr with hneg | ⟨w, rfl, hw₁⟩
  · rw [if_pos hneg]
    exact Or.inr ⟨hsearch, r, s₁, table₁, rfl, h₁⟩
  · have hmax : fwkIrqDescMax = 1024 := rfl
    have huint : asUint32 w = w := asUint32_of_lt (by omega)
    rw [if_neg (by omega), huint]
    obtain ⟨s₂, hgpc, h₂⟩ : ∃ s₂, (if ops.alloc = true then s₁.gpcIrqDomainAlloc w 1 kzalloc
        else pure s₁) = .ok s₂ ∧ s₂.Sound table₁ := by
      split
      · exact h₁.gpcAlloc w 1 kzalloc
      · exact ⟨s₁, rfl, h₁⟩
    obtain ⟨s₃, htype, h₃⟩ := h₂.setType (show w < 2 ^ 32 by omega) type
    refine Or.inr ⟨hsearch, w, s₃, table₁, ?_, h₃⟩
    by_cases hops : ops.alloc = true
    · rw [if_pos hops] at hgpc ⊢
      simp only [hgpc, htype]
      rfl
    · rw [if_neg hops] at hgpc ⊢
      simp only [hgpc, htype]
      rfl

/-- A hardware number that has no number yet needs one, and the search for it does not end. -/
def Stuck (s : IrqMaps) (domain : FwkIrqDomain) (hw : Nat) : Prop :=
  domain.revmap hw < 0 ∧ s.Searching (-1) 1

/-- **`fwk_irq_create_of_mapping`** faults just for a hardware number that the domain does not
have, and else returns if it finds a number. -/
theorem Sound.create (h : s.Sound table) {irq : FwkOfPhandleArgs} {type : Nat}
    (hspec : s.specified irq = some (d, domain, hw, type)) (alloc : DescAlloc)
    (kzalloc : Option ObjPtr) :
    (s.fwkIrqCreateOfMapping (some irq) alloc kzalloc = .error .fault ∧ domain.hwirqMax ≤ hw) ∨
      (hw < domain.hwirqMax ∧
        ((s.Stuck domain hw ∧ s.fwkIrqCreateOfMapping (some irq) alloc kzalloc = .error .spins) ∨
          ¬ s.Stuck domain hw ∧
            ∃ r s' table', s.fwkIrqCreateOfMapping (some irq) alloc kzalloc = .ok (r, s') ∧
              s'.Sound table')) := by
  rcases create_cases h.listed irq alloc kzalloc with
    ⟨hnone, -⟩ | ⟨d', domain', hw', type', hspec', hdomain, hcall⟩
  · rw [hspec] at hnone
    cases hnone
  rw [hspec] at hspec'
  cases hspec'
  rw [hcall]
  rcases h.findMap hdomain type with
    ⟨hfault, hout⟩ | ⟨hhw, r, s₁, hfind, h₁, hsame, hbits, hr⟩
  · rw [hfault]
    exact Or.inl ⟨rfl, hout⟩
  refine Or.inr ⟨hhw, ?_⟩
  have hsearch : s₁.Searching (-1) 1 ↔ s.Searching (-1) 1 := by
    rw [Searching, Searching, hbits]
  rw [hfind, Stuck, ← hsearch]
  simp only [Except.bind]
  by_cases hpos : r ≥ 0
  · rw [if_pos hpos]
    refine Or.inr ⟨fun hstuck => ?_, r, s₁, table, rfl, h₁⟩
    exact Int.not_lt.mpr (hr.mp hpos) hstuck.1
  · have hneg : domain.revmap hw < 0 := Int.not_le.mp fun hle => hpos (hr.mpr hle)
    rw [if_neg hpos]
    rw [← hsame] at hdomain
    rcases mapOne_sound h₁ hdomain hhw domain.sprtOps type alloc kzalloc with
      ⟨hspins, hone⟩ | ⟨hspins, hone⟩
    · exact Or.inl ⟨⟨hneg, hspins⟩, hone⟩
    · exact Or.inr ⟨fun hstuck => hspins hstuck.2, hone⟩

/-- The specifier stands for nothing, or for a hardware number of the domain that has a number or
gets one. -/
def Mappable (s : IrqMaps) (irq : FwkOfPhandleArgs) : Prop :=
  ∀ d domain hw type, s.specified irq = some (d, domain, hw, type) →
    hw < domain.hwirqMax ∧ ¬ s.Stuck domain hw

/-- **When `fwk_irq_create_of_mapping` returns.** -/
theorem Sound.create_returns_iff (h : s.Sound table) (irq : FwkOfPhandleArgs) (alloc : DescAlloc)
    (kzalloc : Option ObjPtr) :
    (∃ r s', s.fwkIrqCreateOfMapping (some irq) alloc kzalloc = .ok (r, s')) ↔ s.Mappable irq := by
  constructor
  · rintro ⟨r, s', hrun⟩ d domain hw type hspec
    rcases h.create hspec alloc kzalloc with
      ⟨hcall, -⟩ | ⟨hhw, ⟨-, hcall⟩ | ⟨hstuck, -⟩⟩
    · rw [hrun] at hcall
      cases hcall
    · rw [hrun] at hcall
      cases hcall
    · exact ⟨hhw, hstuck⟩
  · intro hmap
    rcases hspec : s.specified irq with _ | ⟨d, domain, hw, type⟩
    · rcases create_cases h.listed irq alloc kzalloc with ⟨-, r, hcall⟩ | ⟨d, _, _, _, hspec', -⟩
      · exact ⟨r, s, hcall⟩
      · rw [hspec] at hspec'
        cases hspec'
    · obtain ⟨hhw, hstuck⟩ := hmap d domain hw type hspec
      rcases h.create hspec alloc kzalloc with
        ⟨-, hout⟩ | ⟨-, ⟨hstuck', -⟩ | ⟨-, r, s', table', hcall, -⟩⟩
      · exact absurd hout (Nat.not_le.mpr hhw)
      · exact absurd hstuck' hstuck
      · exact ⟨r, s', hcall⟩

/-- **What returns from `fwk_irq_create_of_mapping`** keeps the invariant. -/
theorem Sound.create_keeps (h : s.Sound table) {sprtIrq : Option FwkOfPhandleArgs}
    {alloc : DescAlloc} {kzalloc : Option ObjPtr} {r : Int}
    (hrun : s.fwkIrqCreateOfMapping sprtIrq alloc kzalloc = .ok (r, s')) :
    ∃ table', s'.Sound table' := by
  cases sprtIrq with
  | none =>
    cases hrun
    exact ⟨table, h⟩
  | some irq =>
    rcases hspec : s.specified irq with _ | ⟨d, domain, hw, type⟩
    · rcases create_cases h.listed irq alloc kzalloc with ⟨-, r', hcall⟩ | ⟨d, _, _, _, hspec', -⟩
      · rw [hcall] at hrun
        cases hrun
        exact ⟨table, h⟩
      · rw [hspec] at hspec'
        cases hspec'
    · rcases h.create hspec alloc kzalloc with
        ⟨hcall, -⟩ | ⟨-, ⟨-, hcall⟩ | ⟨-, r', s₁, table₁, hcall, h₁⟩⟩
      · rw [hcall] at hrun
        cases hrun
      · rw [hcall] at hrun
        cases hrun
      · rw [hcall] at hrun
        cases hrun
        exact ⟨table₁, h₁⟩

/-! ## Releasing and adding -/

theorem bitmapSetOneZero_keeps {bitmap : Bitmap} {x : Nat} (hv : v < 2 ^ 31) (hx : x ≠ v)
    (hbit : bitmap.bit x = true) : (bitmapSetNrBitZero bitmap v fwkIrqDescMax 1).bit x = true := by
  by_cases hend : v + 1 < fwkIrqDescMax
  · rw [bitmapSetOneZero_bit hend, if_neg hx]
    exact hbit
  · have hstop : (v + 1) % 2 ^ 32 = v + 1 := Nat.mod_eq_of_lt (by omega)
    have hrefused : bitmapSetNrBitZero bitmap v fwkIrqDescMax 1 = bitmap := by
      simp only [bitmapSetNrBitZero, bitmapSetNrBit, hstop, if_pos (Nat.not_lt.mp hend)]
    rw [hrefused]
    exact hbit

theorem Sound.freeIrqs (h : s.Sound table) (hdomain : s.domain d = some domain) :
    ∃ s', s.fwkIrqDomainFreeIrqs d = .ok s' ∧ ∃ table', s'.Sound table' := by
  rw [fwkIrqDomainFreeIrqs, hdomain]
  refine freeIrqsLoop_keeps ?_ ⟨table, h⟩ hdomain (Nat.zero_add _).le
  rintro s domain idx v ⟨table, h⟩ hdomain hmaps
  obtain ⟨hv, -, ptr, desc, hptr, hdesc, hnum, -⟩ := h.entry d idx v hmaps
  obtain ⟨desc', hdesc', -, hget⟩ := h.fwkIrqGetData_some (show v < 2 ^ 32 by omega) hptr
  rw [hdesc] at hdesc'
  cases hdesc'
  obtain ⟨tree, hdel, hrepr⟩ := h.tree.del ⟨v, by omega⟩
  rw [update_table] at hrepr
  exact ⟨_, descFree_eq (by omega) hget hnum hdel, rfl, _, h.drop hmaps hptr hdomain hrepr
    fun x hx hbit => bitmapSetOneZero_keeps hv hx hbit⟩

theorem Sound.addLinear (h : s.Sound table) (sprtNode : Option ObjPtr) (size : Nat)
    (ops : FwkIrqDomainOps) (kzalloc : Option ObjPtr) :
    s.fwkIrqDomainAddLinear sprtNode size ops kzalloc = .error .fault ∨
      ∃ o s', s.fwkIrqDomainAddLinear sprtNode size ops kzalloc = .ok (o, s') ∧
        s'.Sound table := by
  rcases addLinear_cases s sprtNode size ops kzalloc with
    hcall | ⟨-, hcall⟩ | ⟨hsize, d, hd, hcall⟩
  · exact Or.inr ⟨none, s.fail, hcall, h.fail⟩
  · exact Or.inl hcall
  · have hmaps : ∀ d' hw v, (s.addDomain d ⟨sprtNode, ops, size, fun _ => -1⟩).Maps d' hw v ↔
        s.Maps d' hw v := maps_addDomain hd fun _ => rfl
    refine Or.inr ⟨some d, _, hcall, h.tree, h.live, ?_, addDomain_listed h.listed d _,
      addDomain_fits h.fits ?_⟩
    · intro d' hw v hm
      exact h.entry d' hw v ((hmaps d' hw v).mp hm)
    · unfold domainBytes at hsize
      show size < 2 ^ 30
      omega

/-! ## Runs -/

/-- The number of interrupts is a word. -/
def Move.Word : Move → Prop
  | .allocIrqs _ _ nrIrqs _ => nrIrqs < 2 ^ 32
  | _ => True

instance : DecidablePred Move.Word
  | .addLinear .. => isTrue trivial
  | .allocIrqs _ _ nrIrqs _ => inferInstanceAs (Decidable (nrIrqs < 2 ^ 32))
  | .createOfMapping .. => isTrue trivial
  | .freeIrqs _ => isTrue trivial

/-- One call that returns keeps the invariant. -/
theorem step_sound (s : IrqMaps) (move : Move) (s' : IrqMaps) (h : ∃ table, s.Sound table)
    (hword : move.Word) (hstep : s.step move = some s') : ∃ table, s'.Sound table := by
  obtain ⟨table, h⟩ := h
  cases move with
  | addLinear sprtNode size ops kzalloc =>
    rcases h.addLinear sprtNode size ops kzalloc with hcall | ⟨o, s₁, hcall, h₁⟩
    · rw [step, hcall] at hstep
      cases hstep
    · rw [step, hcall] at hstep
      cases hstep
      exact ⟨table, h₁⟩
  | allocIrqs d hw nr allocs =>
    rcases fwkIrqDomainAllocIrqs_sound h d (-1) hw hword allocs with
      ⟨-, hcall⟩ | ⟨hcall, -⟩ | ⟨-, r, s₁, table₁, hcall, h₁, -⟩
    · rw [step, hcall] at hstep
      cases hstep
    · rw [step, hcall] at hstep
      cases hstep
    · rw [step, hcall] at hstep
      cases hstep
      exact ⟨table₁, h₁⟩
  | createOfMapping sprtIrq alloc kzalloc =>
    rw [step] at hstep
    cases hcall : s.fwkIrqCreateOfMapping sprtIrq alloc kzalloc with
    | error stop =>
      rw [hcall] at hstep
      cases hstep
    | ok result =>
      rw [hcall] at hstep
      cases hstep
      exact h.create_keeps hcall
  | freeIrqs d =>
    cases hdomain : s.domain d with
    | none =>
      rw [step, fwkIrqDomainFreeIrqs, hdomain] at hstep
      cases hstep
    | some domain =>
      obtain ⟨s₁, hcall, h₁⟩ := h.freeIrqs hdomain
      rw [step, hcall] at hstep
      cases hstep
      exact h₁

/-- A run of calls that all return keeps the invariant. -/
theorem exec_sound {moves : List Move} (hwords : ∀ move ∈ moves, move.Word)
    (h : ∃ table, s.Sound table) (hrun : exec step s moves = some s') :
    ∃ table, s'.Sound table := by
  have halways : Always step (fun s => ∃ table, s.Sound table) s moves :=
    always_of_meets (fun s move s' h hword hstep => step_sound s move s' h hword hstep) h
      (meets_of_forall hwords)
  obtain ⟨table, h'⟩ := always_last halways hrun
  exact ⟨table, h'⟩

/-- **The index of the reverse map is all that goes wrong.**  After every sequence of calls,
whatever the memory gave them, mapping a specifier that the domain accepts stays inside the reverse
map, and returns a negative code for a number that is not, just when the hardware number is a number
of the domain: it is never compared with `hwirq_max`. -/
theorem create_inside_iff {moves : List Move} {s : IrqMaps} {irq : FwkOfPhandleArgs} {d : ObjPtr}
    {domain : FwkIrqDomain} {hw type : Nat} (hwords : ∀ move ∈ moves, move.Word)
    (hrun : exec step start moves = some s)
    (hspec : s.specified irq = some (d, domain, hw, type)) (alloc : DescAlloc)
    (kzalloc : Option ObjPtr) :
    (s.fwkIrqCreateOfMapping (some irq) alloc kzalloc ≠ .error .fault ∧
        (domain.hwirqMax ≤ hw → ∃ r s', s.fwkIrqCreateOfMapping (some irq) alloc kzalloc =
          .ok (r, s') ∧ r < 0)) ↔ hw < domain.hwirqMax := by
  obtain ⟨table, h⟩ := exec_sound hwords ⟨_, sound_start⟩ hrun
  constructor
  · rintro ⟨hne, -⟩
    rcases h.create hspec alloc kzalloc with ⟨hfault, -⟩ | ⟨hhw, -⟩
    · exact absurd hfault hne
    · exact hhw
  · intro hhw
    refine ⟨?_, fun hout => absurd hout (Nat.not_le.mpr hhw)⟩
    rcases h.create hspec alloc kzalloc with
      ⟨-, hout⟩ | ⟨-, ⟨-, hcall⟩ | ⟨-, r, s', table', hcall, -⟩⟩
    · exact absurd hout (Nat.not_le.mpr hhw)
    · intro hfault
      rw [hcall] at hfault
      cases hfault
    · intro hfault
      rw [hcall] at hfault
      cases hfault

/-! ## The controllers -/

/-- `gic_irq_domain_xlate`, for a domain of a node. -/
def gicIrqDomainXlate (sprtNode : Option ObjPtr) (_ : ObjPtr) (sprtIntc : Option ObjPtr) :
    List Nat → Int × Nat × Nat
  | intspec₀ :: intspec₁ :: intspec₂ :: _ =>
    if sprtNode ≠ sprtIntc then (-erUnvalid, 0, 0)
    else
      let outHwirq := add32 intspec₁ 16
      (erNormal, if intspec₀ = 0 then add32 outHwirq 16 else outHwirq, intspec₂ &&& senseMask)
  | _ => (-erUnvalid, 0, 0)

/-- `gpc_irq_domain_xlate`, for a domain of a node. -/
def gpcIrqDomainXlate (sprtNode : Option ObjPtr) (_ : ObjPtr) (sprtIntc : Option ObjPtr) :
    List Nat → Int × Nat × Nat
  | [intspec₀, intspec₁, intspec₂] =>
    if sprtNode ≠ sprtIntc then (-erUnvalid, 0, 0)
    else if intspec₀ ≠ 0 then (-erUnvalid, 0, 0)
    else (erNormal, intspec₁, intspec₂)
  | _ => (-erUnvalid, 0, 0)

/-- A GPC with its 128 lines. -/
def gpcMoves : List Move :=
  let gpc : ObjPtr := ⟨0x51500, by decide⟩
  [.addLinear (some gpc) 128 ⟨some (gpcIrqDomainXlate (some gpc)), true⟩
    (some ⟨0x52500, by decide⟩)]

theorem create_inside_iff_gpc :
    (((exec step start gpcMoves).getD start).fwkIrqCreateOfMapping
        (some ⟨some ⟨0x51500, by decide⟩, [0, 26, 4]⟩) (none, []) none ≠ .error .fault ∧
      (128 ≤ 26 → ∃ r s', ((exec step start gpcMoves).getD start).fwkIrqCreateOfMapping
        (some ⟨some ⟨0x51500, by decide⟩, [0, 26, 4]⟩) (none, []) none = .ok (r, s') ∧ r < 0)) ↔
      26 < 128 :=
  @create_inside_iff gpcMoves _ _ _ _ _ _ (by decide) (by rfl) (show _ = some (⟨0x52500, by decide⟩,
    ⟨some ⟨0x51500, by decide⟩, ⟨some (gpcIrqDomainXlate (some ⟨0x51500, by decide⟩)), true⟩, 128,
      fun _ => -1⟩, 26, 4) by rfl) (none, []) none

/-- A GIC with 160 lines. -/
def gicMoves : List Move :=
  let gic : ObjPtr := ⟨0x51600, by decide⟩
  [.addLinear (some gic) 160 ⟨some (gicIrqDomainXlate (some gic)), false⟩
    (some ⟨0x52600, by decide⟩)]

/-- The peripheral interrupt 128 is line 160, and a mapping of it reads behind the reverse map. -/
theorem gic_reads_behind_revmap :
    ¬ ∀ (moves : List Move) (s : IrqMaps) (irq : FwkOfPhandleArgs) (d : ObjPtr)
      (domain : FwkIrqDomain) (hw type : Nat), (∀ move ∈ moves, move.Word) →
      exec step start moves = some s → (∀ cell ∈ irq.args, cell < 2 ^ 32) →
      s.specified irq = some (d, domain, hw, type) → ∀ alloc kzalloc,
        s.fwkIrqCreateOfMapping (some irq) alloc kzalloc ≠ .error .fault ∧
          (domain.hwirqMax ≤ hw → ∃ r s', s.fwkIrqCreateOfMapping (some irq) alloc kzalloc =
            .ok (r, s') ∧ r < 0) := by
  intro hall
  obtain ⟨hne, -⟩ := hall gicMoves ((exec step start gicMoves).getD start)
    ⟨some ⟨0x51600, by decide⟩, [0, 128, 4]⟩ ⟨0x52600, by decide⟩
    ⟨some ⟨0x51600, by decide⟩, ⟨some (gicIrqDomainXlate (some ⟨0x51600, by decide⟩)), false⟩, 160,
      fun _ => -1⟩ 160 4 (by decide) (by rfl) (by decide) (by rfl) (none, []) none
  exact hne (by rfl)

end IrqMaps

end HeavenFox.Platform
