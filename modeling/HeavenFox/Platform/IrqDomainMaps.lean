/-
# HeavenFox.Platform.IrqDomainMaps -- the four copies of an interrupt mapping agree

`IrqMaps.Kept` is the invariant over all domains: the radix tree is a table of descriptors,
the bitmap says which numbers the table has, and a descriptor names an entry of a reverse
map just when the entry holds its number.  While a range of numbers is being mapped, its
bits are not set yet and its descriptors name nothing; `Kept` takes the numbers for which
that is so as parameters, and every loop is followed with them.

`mapping_kept` is about whole runs.
-/
import HeavenFox.Common.RadixTreeMap
import HeavenFox.Platform.IrqDomain

namespace HeavenFox.Platform

open HeavenFox.Common HeavenFox.Logic

namespace IrqMaps

/-! ## The invariant -/

/-- The reverse map of a domain has a number for a hardware number. -/
def Maps (s : IrqMaps) (sprtDomain : ObjPtr) (hwirq virq : Nat) : Prop :=
  ∃ domain, s.domain sprtDomain = some domain ∧ hwirq < domain.hwirqMax ∧
    domain.revmap hwirq = virq

/-- The tree is a table of descriptors.  Nothing is said about the bits of the numbers in
`unmarked`, and the descriptors of the numbers in `bare` name no entry of a reverse map. -/
structure Kept (s : IrqMaps) (table : Nat → Option ObjPtr) (unmarked bare : Nat → Prop) : Prop where
  tree : RadixRepr s.tree fun v => table v
  low : ∀ v ptr, table v = some ptr → v < 1023
  live : ∀ v ptr, table v = some ptr → ∃ desc, s.desc ptr = some desc ∧ desc.irq = v
  marked : ∀ v, ¬ unmarked v → (s.bitmap.bit v = true ↔ (table v).isSome = true)
  named : ∀ v ptr desc, table v = some ptr → s.desc ptr = some desc → ¬ bare v →
    desc.sgrtData.irq = v ∧
      ∃ d, desc.sgrtData.sprtDomain = some d ∧ s.Maps d desc.sgrtData.hwirq v
  mapped : ∀ d hw v, s.Maps d hw v → ¬ bare v ∧ ∃ ptr desc, table v = some ptr ∧
    s.desc ptr = some desc ∧ desc.sgrtData.sprtDomain = some d ∧ desc.sgrtData.hwirq = hw
  listed : ∀ d ∈ s.domains, (s.domain d).isSome = true
  fits : ∀ d domain, s.domain d = some domain → domain.hwirqMax < 2 ^ 30

/-- No number. -/
abbrev Nowhere : Nat → Prop := fun _ => False

variable {s s' : IrqMaps} {table : Nat → Option ObjPtr} {unmarked bare : Nat → Prop}
  {v : Nat} {ptr d : ObjPtr} {desc : FwkIrqDesc} {domain : FwkIrqDomain} {hw : Nat}

theorem Kept.weaken {unmarked' : Nat → Prop} (h : s.Kept table unmarked bare)
    (hless : ∀ v, ¬ unmarked' v → ¬ unmarked v) : s.Kept table unmarked' bare :=
  { h with marked := fun v hv => h.marked v (hless v hv) }

/-- No descriptor has two numbers. -/
theorem Kept.apart (h : s.Kept table unmarked bare) {v' : Nat} (hv : table v = some ptr)
    (hv' : table v' = some ptr) : v = v' := by
  obtain ⟨desc, hdesc, rfl⟩ := h.live v ptr hv
  obtain ⟨desc', hdesc', rfl⟩ := h.live v' ptr hv'
  rw [hdesc] at hdesc'
  cases hdesc'
  rfl

/-! ## Looking up -/

/-- What is found is a descriptor of the table. -/
theorem fwkIrqGetData_some (h : s.fwkIrqGetData v = .ok (some (ptr, desc))) :
    s.fwkIrqToDesc v = .ok (some ptr) ∧ s.desc ptr = some desc := by
  obtain ⟨found, hfound, hrest⟩ := except_bind.mp h
  cases found with
  | none => cases hrest
  | some ptr' =>
    cases hdesc : s.desc ptr' with
    | none =>
      simp only [hdesc] at hrest
      cases hrest
    | some desc' =>
      simp only [hdesc] at hrest
      cases hrest
      exact ⟨hfound, hdesc⟩

theorem Kept.fwkIrqToDesc_eq (h : s.Kept table unmarked bare) (hv : v < 2 ^ 32) :
    s.fwkIrqToDesc v = .ok (table v) :=
  h.tree.lookUp ⟨v, hv⟩

theorem Kept.fwkIrqGetData_none (h : s.Kept table unmarked bare) (hv : v < 2 ^ 32)
    (hnone : table v = none) : s.fwkIrqGetData v = .ok none := by
  rw [fwkIrqGetData, h.fwkIrqToDesc_eq hv, hnone]
  rfl

theorem Kept.fwkIrqGetData_some (h : s.Kept table unmarked bare) (hptr : table v = some ptr) :
    ∃ desc, s.desc ptr = some desc ∧ s.fwkIrqGetData v = .ok (some (ptr, desc)) := by
  obtain ⟨desc, hdesc, -⟩ := h.live v ptr hptr
  have hv : v < 2 ^ 32 := Nat.lt_trans (h.low v ptr hptr) (by decide)
  refine ⟨desc, hdesc, ?_⟩
  simp [fwkIrqGetData, h.fwkIrqToDesc_eq hv, hptr, hdesc, bind, Except.bind, pure, Except.pure]

/-! ## Writes -/

/-- A descriptor is written that stays what it is to the maps. -/
theorem Kept.touch (h : s.Kept table unmarked bare) {desc' : FwkIrqDesc}
    (hdesc : s.desc ptr = some desc) (hirq : desc'.irq = desc.irq)
    (hdata : desc'.sgrtData.irq = desc.sgrtData.irq ∧
      desc'.sgrtData.hwirq = desc.sgrtData.hwirq ∧
      desc'.sgrtData.sprtDomain = desc.sgrtData.sprtDomain) :
    (s.setDesc ptr (some desc')).Kept table unmarked bare where
  tree := h.tree
  low := h.low
  live := by
    intro v x hx
    obtain ⟨old, hold, hv⟩ := h.live v x hx
    by_cases hxp : x = ptr
    · subst hxp
      rw [hdesc] at hold
      cases hold
      exact ⟨desc', by simp [setDesc], hirq.trans hv⟩
    · exact ⟨old, by simpa [setDesc, hxp] using hold, hv⟩
  marked := h.marked
  named := by
    intro v x new hx hnew hv
    by_cases hxp : x = ptr
    · subst hxp
      have hnew' : new = desc' := by simpa [setDesc] using hnew.symm
      subst hnew'
      rw [hdata.1, hdata.2.1, hdata.2.2]
      exact h.named v x desc hx hdesc hv
    · exact h.named v x new hx (by simpa [setDesc, hxp] using hnew) hv
  mapped := by
    intro d hw v hmaps
    obtain ⟨hv, x, old, hx, hold, hd, hhw⟩ := h.mapped d hw v hmaps
    refine ⟨hv, x, ?_⟩
    by_cases hxp : x = ptr
    · subst hxp
      rw [hdesc] at hold
      cases hold
      exact ⟨desc', hx, by simp [setDesc], hdata.2.2.trans hd, hdata.2.1.trans hhw⟩
    · exact ⟨old, hx, by simpa [setDesc, hxp] using hold, hd, hhw⟩
  listed := h.listed
  fits := h.fits

/-- A new descriptor that is not in the table. -/
theorem Kept.spare (h : s.Kept table unmarked bare) {tree : RadixTree}
    (hfree : s.desc ptr = none) (htree : RadixRepr tree fun v => table v) (desc : FwkIrqDesc) :
    { s.setDesc ptr (some desc) with tree := tree }.Kept table unmarked bare := by
  have hother : ∀ x old, s.desc x = some old → x ≠ ptr := by
    rintro x old hold rfl
    rw [hfree] at hold
    cases hold
  refine { h with tree := htree, live := ?_, named := ?_, mapped := ?_ }
  · intro v x hx
    obtain ⟨old, hold, hv⟩ := h.live v x hx
    exact ⟨old, by simpa [setDesc, hother x old hold] using hold, hv⟩
  · intro v x new hx hnew hv
    obtain ⟨old, hold, -⟩ := h.live v x hx
    exact h.named v x new hx (by simpa [setDesc, hother x old hold] using hnew) hv
  · intro d hw v hmaps
    obtain ⟨hv, x, old, hx, hold, hrest⟩ := h.mapped d hw v hmaps
    exact ⟨hv, x, old, hx, by simpa [setDesc, hother x old hold] using hold, hrest⟩

/-- A descriptor comes into the table, with its bit not set and naming nothing. -/
theorem Kept.enter (h : s.Kept table unmarked bare) {tree : RadixTree}
    (hdesc : s.desc ptr = some desc) (hirq : desc.irq = v)
    (hv : v < 1023) (hnone : table v = none) (hunmarked : unmarked v) (hbare : bare v)
    (htree : RadixRepr tree fun x => Function.update table v (some ptr) x) :
    { s with tree := tree }.Kept (Function.update table v (some ptr)) unmarked bare := by
  have hold : ∀ x y, Function.update table v (some ptr) x = some y →
      (x = v ∧ y = ptr) ∨ (x ≠ v ∧ table x = some y) := by
    intro x y hy
    by_cases hx : x = v
    · subst hx
      rw [Function.update_self] at hy
      exact Or.inl ⟨rfl, (Option.some.inj hy).symm⟩
    · rw [Function.update_of_ne hx] at hy
      exact Or.inr ⟨hx, hy⟩
  refine { h with tree := htree, low := ?_, live := ?_, marked := ?_, named := ?_, mapped := ?_ }
  · intro x y hy
    rcases hold x y hy with ⟨rfl, -⟩ | ⟨-, hy⟩
    · exact hv
    · exact h.low x y hy
  · intro x y hy
    rcases hold x y hy with ⟨rfl, rfl⟩ | ⟨-, hy⟩
    · exact ⟨desc, hdesc, hirq⟩
    · exact h.live x y hy
  · intro x hx
    have hxv : x ≠ v := by
      rintro rfl
      exact hx hunmarked
    rw [Function.update_of_ne hxv]
    exact h.marked x hx
  · intro x y new hy hnew' hx
    rcases hold x y hy with ⟨rfl, -⟩ | ⟨-, hy⟩
    · exact absurd hbare hx
    · exact h.named x y new hy hnew' hx
  · intro d hw x hmaps
    obtain ⟨hx, y, old, hy, hrest⟩ := h.mapped d hw x hmaps
    have hxv : x ≠ v := by
      rintro rfl
      rw [hnone] at hy
      cases hy
    exact ⟨hx, y, old, by rw [Function.update_of_ne hxv, hy], hrest⟩

/-- The bits are written. -/
theorem Kept.mark (h : s.Kept table unmarked bare) {bitmap : Bitmap} {unmarked' : Nat → Prop}
    (hbits : ∀ v, ¬ unmarked' v → (bitmap.bit v = true ↔ (table v).isSome = true)) :
    { s with bitmap := bitmap }.Kept table unmarked' bare :=
  { h with marked := hbits }

/-- The entry that is written. -/
theorem maps_setEntry_self {z : Int} (hhw : hw < domain.hwirqMax) :
    (s.setEntry d domain hw z).Maps d hw v ↔ z = v := by
  constructor
  · rintro ⟨dom, hdom, -, hrev⟩
    simp only [setEntry, Function.update_self, Option.some.injEq] at hdom
    subst hdom
    simpa using hrev
  · rintro rfl
    exact ⟨_, Function.update_self .., hhw, Function.update_self ..⟩

/-- All other entries are as before. -/
theorem maps_setEntry_ne {z : Int} {d' : ObjPtr} {hw' : Nat} (hdomain : s.domain d = some domain)
    (hne : (d', hw') ≠ (d, hw)) : (s.setEntry d domain hw z).Maps d' hw' v ↔ s.Maps d' hw' v := by
  by_cases hd : d' = d
  · subst hd
    have hhw' : hw' ≠ hw := by
      rintro rfl
      exact hne rfl
    simp [Maps, setEntry, hdomain, hhw']
  · simp [Maps, setEntry, hd]

/-- The domains stay where they are, with as many hardware numbers. -/
theorem setEntry_domain (hdomain : s.domain d = some domain) (hw : Nat) (z : Int) (d' : ObjPtr) :
    ((s.setEntry d domain hw z).domain d').map (·.hwirqMax) = (s.domain d').map (·.hwirqMax) := by
  by_cases hd : d' = d
  · simp [setEntry, hd, hdomain]
  · simp [setEntry, hd]

theorem setEntry_listed (h : ∀ d ∈ s.domains, (s.domain d).isSome = true) {z : Int}
    (hdomain : s.domain d = some domain) :
    ∀ d' ∈ s.domains, ((s.setEntry d domain hw z).domain d').isSome = true := by
  intro d' hd'
  rw [← Option.isSome_map, setEntry_domain hdomain hw z, Option.isSome_map]
  exact h d' hd'

theorem setEntry_fits (h : ∀ d domain, s.domain d = some domain → domain.hwirqMax < 2 ^ 30)
    {z : Int} (hdomain : s.domain d = some domain) :
    ∀ d' dom, (s.setEntry d domain hw z).domain d' = some dom → dom.hwirqMax < 2 ^ 30 := by
  intro d' dom hdom
  have hsame := setEntry_domain hdomain hw z d'
  rw [hdom, Option.map_some] at hsame
  obtain ⟨old, hold, hmax⟩ := Option.map_eq_some_iff.mp hsame.symm
  rw [← hmax]
  exact h d' old hold

/-- **A descriptor gets its data** and the reverse map its number. -/
theorem Kept.name (h : s.Kept table unmarked bare) (hptr : table v = some ptr) (hv : bare v)
    {desc' : FwkIrqDesc} (hirq : desc'.irq = v) (hdata : desc'.sgrtData.irq = v ∧
      desc'.sgrtData.hwirq = hw ∧ desc'.sgrtData.sprtDomain = some d)
    (hdomain : s.domain d = some domain) (hhw : hw < domain.hwirqMax)
    (hfree : domain.revmap hw < 0) :
    ((s.setDesc ptr (some desc')).setEntry d domain hw v).Kept table unmarked
      fun x => bare x ∧ x ≠ v := by
  have hdomain' : (s.setDesc ptr (some desc')).domain d = some domain := hdomain
  have hother : ∀ x y, table x = some y → x ≠ v → y ≠ ptr := by
    rintro x y hy hx rfl
    exact hx (h.apart hy hptr)
  have hself : (s.setDesc ptr (some desc')).desc ptr = some desc' := Function.update_self ..
  have hdesc : ∀ y, y ≠ ptr → (s.setDesc ptr (some desc')).desc y = s.desc y :=
    fun y hy => Function.update_of_ne hy ..
  refine ⟨h.tree, h.low, ?_, h.marked, ?_, ?_, setEntry_listed h.listed hdomain,
    setEntry_fits h.fits hdomain⟩
  · intro x y hy
    rw [setEntry_desc]
    by_cases hx : x = v
    · subst hx
      rw [hptr] at hy
      cases hy
      exact ⟨desc', hself, hirq⟩
    · rw [hdesc y (hother x y hy hx)]
      exact h.live x y hy
  · intro x y new hy hnew hx
    rw [setEntry_desc] at hnew
    by_cases hxv : x = v
    · subst hxv
      rw [hptr] at hy
      cases hy
      rw [hself] at hnew
      cases hnew
      refine ⟨hdata.1, d, hdata.2.2, ?_⟩
      rw [hdata.2.1]
      exact (maps_setEntry_self hhw).mpr rfl
    · rw [hdesc y (hother x y hy hxv)] at hnew
      have hbare : ¬ bare x := fun hb => hx ⟨hb, hxv⟩
      obtain ⟨hnum, d', hd', hm⟩ := h.named x y new hy hnew hbare
      refine ⟨hnum, d', hd', (maps_setEntry_ne hdomain' ?_).mpr hm⟩
      -- no other descriptor names the entry, which was free
      intro heq
      cases heq
      obtain ⟨dom, hdom, -, hrev⟩ := hm
      rw [hdomain] at hdom
      cases hdom
      omega
  · intro d' hw' x hm
    by_cases hne : (d', hw') = (d, hw)
    · cases hne
      obtain rfl : v = x := by
        have := (maps_setEntry_self hhw).mp hm
        exact_mod_cast this
      exact ⟨fun hb => hb.2 rfl, ptr, desc', hptr, hself, hdata.2.2, hdata.2.1⟩
    · have hm' : s.Maps d' hw' x := (maps_setEntry_ne hdomain' hne).mp hm
      obtain ⟨hb, y, old, hy, hold, hrest⟩ := h.mapped d' hw' x hm'
      have hxv : x ≠ v := by
        rintro rfl
        exact hb hv
      refine ⟨fun hb' => hb hb'.1, y, old, hy, ?_, hrest⟩
      rw [setEntry_desc, hdesc y (hother x y hy hxv), hold]

/-- **A number is released**: its bit, its descriptor, its place in the table and the entry of the
reverse map. -/
theorem Kept.drop (h : s.Kept table Nowhere Nowhere) (hmap : s.Maps d hw v)
    (hptr : table v = some ptr) (hdomain : s.domain d = some domain) {tree : RadixTree}
    {bitmap : Bitmap} (htree : RadixRepr tree fun x => Function.update table v none x)
    (hbits : ∀ x, bitmap.bit x = if x = v then false else s.bitmap.bit x) :
    ({ s with tree := tree, bitmap := bitmap }.setDesc ptr none |>.setEntry d domain hw (-1)).Kept
      (Function.update table v none) Nowhere Nowhere := by
  obtain ⟨dom, hdom, hhw, -⟩ := id hmap
  obtain rfl : domain = dom := Option.some.inj (hdomain.symm.trans hdom)
  obtain ⟨-, ptr', desc, hptr', hdesc, hd, hh⟩ := h.mapped d hw v hmap
  obtain rfl : ptr = ptr' := Option.some.inj (hptr.symm.trans hptr')
  have hold : ∀ x y, Function.update table v none x = some y → x ≠ v ∧ table x = some y := by
    intro x y hy
    have hx : x ≠ v := by
      rintro rfl
      rw [Function.update_self] at hy
      cases hy
    rw [Function.update_of_ne hx] at hy
    exact ⟨hx, hy⟩
  have hdesc' : ∀ x y, x ≠ v → table x = some y →
      ({ s with tree := tree, bitmap := bitmap }.setDesc ptr none).desc y = s.desc y := by
    intro x y hx hy
    have hne : y ≠ ptr := by
      rintro rfl
      exact hx (h.apart hy hptr)
    exact Function.update_of_ne hne ..
  have hdomain' : ({ s with tree := tree, bitmap := bitmap }.setDesc ptr none).domain d =
      some domain := hdomain
  refine ⟨htree, ?_, ?_, ?_, ?_, ?_, setEntry_listed h.listed hdomain,
    setEntry_fits h.fits hdomain⟩
  · intro x y hy
    exact h.low x y (hold x y hy).2
  · intro x y hy
    obtain ⟨hx, hy⟩ := hold x y hy
    obtain ⟨old, hold, hirq⟩ := h.live x y hy
    exact ⟨old, (hdesc' x y hx hy).trans hold, hirq⟩
  · intro x hx
    show bitmap.bit x = true ↔ _
    rw [hbits]
    by_cases hxv : x = v
    · simp [hxv]
    · rw [if_neg hxv, Function.update_of_ne hxv]
      exact h.marked x hx
  · intro x y new hy hnew hx
    obtain ⟨hxv, hy⟩ := hold x y hy
    have hnew : s.desc y = some new := (hdesc' x y hxv hy).symm.trans hnew
    obtain ⟨hnum, d', hd', hm⟩ := h.named x y new hy hnew hx
    refine ⟨hnum, d', hd', (maps_setEntry_ne hdomain' ?_).mpr hm⟩
    -- the entry that goes held another number
    intro heq
    cases heq
    obtain ⟨dom, hdom, -, hrev⟩ := hm
    obtain ⟨dom', hdom', -, hrev'⟩ := hmap
    rw [hdom] at hdom'
    cases hdom'
    rw [hrev] at hrev'
    exact hxv (by exact_mod_cast hrev')
  · intro d' hw' x hm
    have hne : (d', hw') ≠ (d, hw) := by
      intro heq
      cases heq
      have := (maps_setEntry_self hhw).mp hm
      omega
    have hm' : s.Maps d' hw' x := (maps_setEntry_ne hdomain' hne).mp hm
    obtain ⟨hb, y, old, hy, hold, hd', hh'⟩ := h.mapped d' hw' x hm'
    have hxv : x ≠ v := by
      rintro rfl
      rw [hptr] at hy
      cases hy
      rw [hdesc] at hold
      cases hold
      rw [hd] at hd'
      cases hd'
      exact hne (by rw [← hh, ← hh'])
    refine ⟨hb, y, old, ?_, (hdesc' x y hxv hy).trans hold, hd', hh'⟩
    rw [Function.update_of_ne hxv, hy]

end IrqMaps

end HeavenFox.Platform
