/-
# HeavenFox.Platform.IrqDomainRuns -- mapping and releasing interrupts

One lemma for each call, from every state in which the copies agree, then whole runs
(`mapping_kept`).  Finding a free range goes from one number in use to the next and never
passes the first free range; the loops over the range put its numbers into the table and
then name them one by one.
-/
import HeavenFox.Logic.Run
import HeavenFox.Platform.IrqAreas
import HeavenFox.Platform.IrqDomainMaps

namespace HeavenFox.Platform

open HeavenFox.Common HeavenFox.Logic

namespace IrqMaps

/-! ## Finding a free range -/

/-- There is a free range of so many numbers below 1023. -/
def HasRun (bitmap : Bitmap) (nrIrqs : Nat) : Prop :=
  ∃ v < 1024, v + nrIrqs ≤ 1023 ∧ FreeRun bitmap v nrIrqs

instance (bitmap : Bitmap) (nrIrqs : Nat) : Decidable (HasRun bitmap nrIrqs) :=
  inferInstanceAs (Decidable (∃ v < 1024, _))

variable {bitmap : Bitmap} {nr : Nat}

theorem fwkIrqBitmapFindAreas_spec {v : Nat} (hv : v + nr < fwkIrqDescMax)
    (hzero : bitmap.bit v = false) (hrun : FreeRun bitmap v nr) :
    ∃ w : Nat, fwkIrqBitmapFindAreas bitmap (-1) fwkIrqDescMax nr = .ok w ∧
      w + nr < fwkIrqDescMax ∧ FreeRun bitmap w nr := by
  have hsmall : fwkIrqDescMax = 1024 := rfl
  have hrounds : walkRounds = 4294967296 := rfl
  obtain ⟨w, hcall, -, hle, hfree⟩ := findAreasLoop_spec walkRounds (by omega) hv
    (by omega) hzero hrun (Nat.zero_le v) (by omega)
  exact ⟨w, hcall, by omega, hfree⟩

/-! ## The table -/

variable {s s' : IrqMaps} {table : Nat → Option ObjPtr} {unmarked bare : Nat → Prop}
  {v virq rounds i : Nat} {ptr d : ObjPtr} {desc : FwkIrqDesc} {domain : FwkIrqDomain} {hw : Nat}

theorem update_table (table : Nat → Option ObjPtr) (hv : v < 2 ^ 32) (o : Option ObjPtr) :
    Function.update (fun x : Fin (2 ^ 32) => table x) ⟨v, hv⟩ o =
      fun x : Fin (2 ^ 32) => Function.update table v o x :=
  (Function.update_comp_eq_of_injective table Fin.val_injective ⟨v, hv⟩ o).symm

/-- A descriptor is put into the tree, unless memory is refused. -/
theorem radixAdd_table {tree : RadixTree} (h : RadixRepr tree fun x => table x) (hv : v < 2 ^ 32)
    (hnone : table v = none) (ptr : ObjPtr) (allocs : List (Option ObjPtr)) :
    ∃ tree', radixTreeAdd tree v (some ptr) allocs = .ok tree' ∧
      ((tree'.refused = tree.refused ∧
          RadixRepr tree' fun x => Function.update table v (some ptr) x) ∨
        (tree.refused < tree'.refused ∧ RadixRepr tree' fun x => table x)) := by
  obtain ⟨tree', hcall, hle, hrepr⟩ := h.add ⟨v, hv⟩ ptr allocs
  refine ⟨tree', hcall, ?_⟩
  by_cases hsame : tree'.refused = tree.refused
  · rw [if_pos ⟨hnone, hsame⟩, update_table] at hrepr
    exact Or.inl ⟨hsame, hrepr⟩
  · rw [if_neg fun hbad => hsame hbad.2] at hrepr
    exact Or.inr ⟨by omega, hrepr⟩

/-! ## Allocating descriptors -/

/-- The numbers from `lo` up to `hi`. -/
def Between (lo hi : Nat) : Nat → Prop := fun v => lo ≤ v ∧ v < hi

/-- The descriptor that the memory gives, if it gives one. -/
theorem fwkAllocateIrqDesc_cases (s : IrqMaps) (kzalloc : Option ObjPtr) :
    s.fwkAllocateIrqDesc kzalloc = (none, s.fail) ∨
      ∃ ptr, s.desc ptr = none ∧
        s.fwkAllocateIrqDesc kzalloc = (some ptr, s.setDesc ptr (some .zero)) := by
  cases kzalloc with
  | none => exact Or.inl rfl
  | some ptr =>
    cases hptr : s.desc ptr with
    | none => exact Or.inr ⟨ptr, hptr, by simp [fwkAllocateIrqDesc, hptr]⟩
    | some desc => exact Or.inl (by simp [fwkAllocateIrqDesc, hptr])

/-- What is left alone while descriptors come and go. -/
structure SameMaps (s s' : IrqMaps) : Prop where
  domain : s'.domain = s.domain
  domains : s'.domains = s.domains
  bitmap : s'.bitmap = s.bitmap

/-- The loop of `fwk_irq_domain_alloc_descs` puts the numbers of the range into the table, or memory
is refused. -/
theorem allocDescsLoop_spec {hi : Nat} (h : s.Kept table (Between virq hi) (Between virq hi))
    (hhi : hi < 1024) (hrounds : virq + i + rounds = hi)
    (hnone : ∀ v, Between (virq + i) hi v → table v = none) (allocs : List DescAlloc) :
    ∃ enough s' table', allocDescsLoop virq rounds i allocs s = .ok (enough, s') ∧
      s'.Kept table' (Between virq hi) (Between virq hi) ∧ SameMaps s s' ∧
      (∀ v, ¬ Between (virq + i) hi v → table' v = table v) ∧
      (s.refused < s'.refused ∨ (s'.refused = s.refused ∧ enough = true ∧
        ∀ v, Between (virq + i) hi v → (table' v).isSome = true)) := by
  induction rounds generalizing s table i allocs with
  | zero =>
    refine ⟨true, s, table, rfl, h, ⟨rfl, rfl, rfl⟩, fun _ _ => rfl, Or.inr ⟨rfl, rfl, ?_⟩⟩
    intro v hv
    exact absurd hv.2 (by have := hv.1; omega)
  | succ rounds ih =>
    have hnum : add32 virq i = virq + i := add32_of_lt (by omega)
    have hin : Between (virq + i) hi (virq + i) := ⟨le_refl _, by omega⟩
    have hin' : Between virq hi (virq + i) := ⟨by omega, by omega⟩
    simp only [allocDescsLoop, hnum]
    rcases fwkAllocateIrqDesc_cases s (allocs.head?.bind Prod.fst) with
      hcall | ⟨ptr, hfree, hcall⟩
    · rw [hcall]
      refine ⟨false, s.fail, table, rfl, ?_, ⟨rfl, rfl, rfl⟩, fun _ _ => rfl, Or.inl ?_⟩
      · exact ⟨h.tree, h.low, h.live, h.marked, h.named, h.mapped, h.listed, h.fits⟩
      · exact Nat.lt_succ_self _
    rw [hcall]
    obtain ⟨tree, hadd, hres⟩ :=
      radixAdd_table h.tree (show virq + i < 2 ^ 32 by omega) (hnone _ hin) ptr
        (allocs.head?.elim [] Prod.snd)
    have htwice : (s.setDesc ptr (some .zero)).setDesc ptr
        (some { FwkIrqDesc.zero with irq := virq + i }) =
          s.setDesc ptr (some { FwkIrqDesc.zero with irq := virq + i }) := by
      simp [setDesc]
    have htree : (s.setDesc ptr (some { FwkIrqDesc.zero with irq := virq + i })).tree = s.tree :=
      rfl
    simp only [htwice, htree, hadd]
    set s₁ := s.setDesc ptr (some { FwkIrqDesc.zero with irq := virq + i }) with hs₁
    have hsub : ∀ v, Between (virq + (i + 1)) hi v → Between (virq + i) hi v ∧ v ≠ virq + i := by
      intro v hv
      have := hv.1
      exact ⟨⟨by omega, hv.2⟩, by omega⟩
    have hrounds' : virq + (i + 1) + rounds = hi := by omega
    rcases hres with ⟨hsame, hrepr⟩ | ⟨hmore, hrepr⟩
    · have h₁ : s₁.Kept table (Between virq hi) (Between virq hi) := h.spare hfree h.tree _
      have h₂ : { s₁ with tree := tree }.Kept (Function.update table (virq + i) (some ptr))
          (Between virq hi) (Between virq hi) :=
        h₁.enter (Function.update_self ..) rfl (by omega) (hnone _ hin) hin' hin' hrepr
      have hnone₂ : ∀ v, Between (virq + (i + 1)) hi v →
          Function.update table (virq + i) (some ptr) v = none := by
        intro v hv
        rw [Function.update_of_ne (hsub v hv).2]
        exact hnone v (hsub v hv).1
      obtain ⟨enough, s', table', hrun, hkept, hmaps, houtside, hend⟩ :=
        ih h₂ hrounds' hnone₂ allocs.tail
      have hcount : { s₁ with tree := tree }.refused = s.refused := by
        simp [refused, hs₁, setDesc, hsame]
      rw [hcount] at hend
      refine ⟨enough, s', table', hrun, hkept, ⟨hmaps.1, hmaps.2, hmaps.3⟩, ?_, ?_⟩
      · intro v hv
        have hne : v ≠ virq + i := by
          rintro rfl
          exact hv hin
        rw [houtside v fun hbad => hv (hsub v hbad).1, Function.update_of_ne hne]
      · apply hend.imp_right
        rintro ⟨hrefused, henough, hall⟩
        refine ⟨hrefused, henough, fun v hv => ?_⟩
        by_cases hne : v = virq + i
        · subst hne
          rw [houtside _ fun hbad => (hsub _ hbad).2 rfl, Function.update_self]
          rfl
        · exact hall v ⟨by have := hv.1; omega, hv.2⟩
    · have h₂ : { s₁ with tree := tree }.Kept table (Between virq hi) (Between virq hi) :=
        h.spare hfree hrepr _
      obtain ⟨enough, s', table', hrun, hkept, hmaps, houtside, hend⟩ :=
        ih h₂ hrounds' (fun v hv => hnone v (hsub v hv).1) allocs.tail
      have hcount : s.refused < { s₁ with tree := tree }.refused := by
        simp only [refused, hs₁, setDesc]
        omega
      refine ⟨enough, s', table', hrun, hkept, ⟨hmaps.1, hmaps.2, hmaps.3⟩, ?_, Or.inl ?_⟩
      · intro v hv
        exact houtside v fun hbad => hv (hsub v hbad).1
      · rcases hend with hlt | ⟨heq, -⟩
        · exact Nat.lt_trans hcount hlt
        · omega

/-! ## Naming descriptors -/

/-- The loop of `irq_domain_alloc_irq_data` names the descriptors of the range, unless the table has
not all of them. -/
theorem allocIrqDataLoop_spec {hi : Nat} (h : s.Kept table unmarked (Between (virq + i) hi))
    (hhi : hi < 1024) (hrounds : virq + i + rounds = hi) (hdomain : s.domain d = some domain)
    (hhw : hw + i + rounds ≤ domain.hwirqMax)
    (hfree : ∀ j, hw + i ≤ j → j < hw + i + rounds → domain.revmap j < 0) :
    ∃ r s', allocIrqDataLoop d virq hw rounds i s = .ok (r, s') ∧ s'.refused = s.refused ∧
      s'.bitmap = s.bitmap ∧
      ((r = -erNotfound ∧ ∃ v, Between (virq + i) hi v ∧ table v = none) ∨
        (r = virq ∧ s'.Kept table unmarked Nowhere)) := by
  induction rounds generalizing s i domain with
  | zero =>
    refine ⟨asInt32 virq, s, rfl, rfl, rfl, Or.inr ⟨asInt32_of_lt (by omega), ?_⟩⟩
    have hempty : Between (virq + i) hi = Nowhere := by
      funext v
      simp only [Between, Nowhere, eq_iff_iff, iff_false]
      omega
    rwa [hempty] at h
  | succ rounds ih =>
    have hfits := h.fits d domain hdomain
    have hnum : add32 virq i = virq + i := add32_of_lt (by omega)
    have hnum' : add32 hw i = hw + i := add32_of_lt (by omega)
    have hin : Between (virq + i) hi (virq + i) := ⟨le_refl _, by omega⟩
    simp only [allocIrqDataLoop, hnum, hnum', asInt32_of_lt (show virq + i < 2 ^ 31 by omega)]
    cases hptr : table (virq + i) with
    | none =>
      rw [h.fwkIrqGetData_none (by omega) hptr]
      exact ⟨-erNotfound, s, rfl, rfl, rfl, Or.inl ⟨rfl, virq + i, hin, hptr⟩⟩
    | some ptr =>
      obtain ⟨desc, hdesc, hget⟩ := h.fwkIrqGetData_some hptr
      obtain ⟨desc', hdesc', hirq⟩ := h.live _ ptr hptr
      obtain rfl : desc = desc' := Option.some.inj (hdesc.symm.trans hdesc')
      have hlt : hw + i < domain.hwirqMax := by omega
      have hneg : domain.revmap (hw + i) < 0 := hfree _ (le_refl _) (by omega)
      rw [hget]
      simp only [bind, Except.bind, setRevmap, setDesc, hdomain, if_pos hlt]
      set desc' : FwkIrqDesc := { desc with
        sgrtData := { desc.sgrtData with
          sprtDomain := some d
          irq := virq + i
          hwirq := hw + i
          sprtChip := some .sgrtFwkIrqDummyChip
          mask := 0 } }
      have hirq' : desc'.irq = virq + i := hirq
      have hnamed := h.name hptr hin hirq' ⟨rfl, rfl, rfl⟩ hdomain hlt hneg
      have hbare : (fun x => Between (virq + i) hi x ∧ x ≠ virq + i) =
          Between (virq + (i + 1)) hi := by
        funext x
        simp only [Between, eq_iff_iff]
        omega
      rw [hbare] at hnamed
      have hrounds' : virq + (i + 1) + rounds = hi := by omega
      have hhw' : hw + (i + 1) + rounds ≤ domain.hwirqMax := by omega
      have hfree' : ∀ j, hw + (i + 1) ≤ j → j < hw + (i + 1) + rounds →
          Function.update domain.revmap (hw + i) ((virq + i : Nat) : Int) j < 0 := by
        intro j hj hlt
        have hne : j ≠ hw + i := by omega
        rw [Function.update_of_ne hne]
        exact hfree j (by omega) (by omega)
      obtain ⟨r, s', hrun, hrefused, hbitmap, hres⟩ :=
        ih hnamed hrounds' (Function.update_self ..) hhw' hfree'
      refine ⟨r, s', hrun, hrefused, hbitmap, hres.imp_left ?_⟩
      rintro ⟨hr, v, hv, hnone⟩
      exact ⟨hr, v, ⟨by have := hv.1; omega, hv.2⟩, hnone⟩

/-! ## Mapping a range -/

/-- Numbers that are not in the table can be opened for mapping. -/
theorem Kept.reserve (h : s.Kept table Nowhere Nowhere) {range : Nat → Prop}
    (hnone : ∀ v, range v → table v = none) : s.Kept table range range where
  tree := h.tree
  low := h.low
  live := h.live
  marked := fun v _ => h.marked v id
  named := fun v ptr desc hptr hdesc _ => h.named v ptr desc hptr hdesc id
  mapped := by
    intro d hw v hmaps
    obtain ⟨-, ptr, desc, hptr, hrest⟩ := h.mapped d hw v hmaps
    refine ⟨fun hv => ?_, ptr, desc, hptr, hrest⟩
    rw [hnone v hv] at hptr
    cases hptr
  listed := h.listed
  fits := h.fits

/-- The last number is never given out. -/
theorem Kept.last_free (h : s.Kept table Nowhere Nowhere) : s.bitmap.bit 1023 = false := by
  by_contra hbit
  have hsome := (h.marked 1023 id).mp (Bool.eq_true_of_not_eq_false hbit)
  obtain ⟨ptr, hptr⟩ := Option.isSome_iff_exists.mp hsome
  exact absurd (h.low 1023 ptr hptr) (by decide)

/-- A free range is found where there is one. -/
theorem Kept.findAreas (h : s.Kept table Nowhere Nowhere)
    (hrun : HasRun s.bitmap nr) :
    ∃ w : Nat, fwkIrqBitmapFindAreas s.bitmap (-1) fwkIrqDescMax nr = .ok w ∧ w + nr < 1024 ∧
      FreeRun s.bitmap w nr := by
  obtain ⟨v, -, hv, hfree⟩ := hrun
  have hmax : fwkIrqDescMax = 1024 := rfl
  rcases Nat.eq_zero_or_pos nr with rfl | hpos
  · -- an empty range is found before the last number
    exact fwkIrqBitmapFindAreas_spec (v := 1023) (by omega) h.last_free
      fun j hj hlt => absurd hlt (by omega)
  · exact fwkIrqBitmapFindAreas_spec (by omega) (hfree v (le_refl v) (by omega)) hfree

/-- **`fwk_irq_domain_alloc_irqs`** for a free range of hardware numbers of a domain: unless memory
is refused, all of it is mapped. -/
theorem fwkIrqDomainAllocIrqs_spec (h : s.Kept table Nowhere Nowhere)
    (hdomain : s.domain d = some domain) (hhw : hw + nr ≤ domain.hwirqMax)
    (hfree : ∀ j, hw ≤ j → j < hw + nr → domain.revmap j < 0)
    (hrun : HasRun s.bitmap nr) (allocs : List DescAlloc) :
    ∃ r s', s.fwkIrqDomainAllocIrqs d (-1) hw nr allocs = .ok (r, s') ∧
      ((r < 0 ∧ s.refused < s'.refused) ∨ (s.refused ≤ s'.refused ∧ ∃ (w : Nat) (table' : _),
        r = w ∧ w < 1024 ∧ s'.Kept table' (fun _ => s'.refused ≠ s.refused) Nowhere)) := by
  obtain ⟨w, hfind, hw₁, hbits⟩ := h.findAreas hrun
  have hnone : ∀ v, Between w (w + nr) v → table v = none := by
    intro v hv
    have hbit := hbits v hv.1 hv.2
    by_contra hne
    rw [(h.marked v id).mpr (Option.isSome_iff_ne_none.mpr hne)] at hbit
    cases hbit
  have hrange : w + 0 + nr = w + nr := by omega
  have hhw₀ : hw + 0 + nr ≤ domain.hwirqMax := by omega
  obtain ⟨enough, s₁, table', hloop, h₁, hmaps, houtside, hres⟩ :=
    allocDescsLoop_spec (i := 0) (h.reserve hnone) hw₁ hrange hnone allocs
  have huint : asUint32 w = w := asUint32_of_lt (by omega)
  have hint : asInt32 w = w := asInt32_of_lt (by omega)
  simp only [fwkIrqDomainAllocIrqs, fwkIrqDomainAllocDescs, hfind, huint, hloop, bind, Except.bind,
    pure, Except.pure, hint]
  cases enough with
  | false =>
    refine ⟨-erNomem, s₁, rfl, Or.inl ⟨by decide, ?_⟩⟩
    exact hres.resolve_right fun hbad => Bool.false_ne_true hbad.2.1
  | true =>
    have hle : s.refused ≤ s₁.refused := by
      rcases hres with hlt | ⟨heq, -⟩
      · exact hlt.le
      · exact heq.ge
    set s₂ : IrqMaps :=
      { s₁ with bitmap := bitmapSetNrBitValid s₁.bitmap w fwkIrqDescMax nr } with hs₂
    have hbit : ∀ v, s₂.bitmap.bit v = if w ≤ v ∧ v < w + nr then true else s.bitmap.bit v := by
      intro v
      rw [← hmaps.bitmap]
      exact bitmapSetNrBit_bit hw₁ (by decide) v
    have h₂ : s₂.Kept table' (fun _ => s₁.refused ≠ s.refused) (Between (w + 0) (w + nr)) := by
      refine h₁.mark fun v hv => ?_
      have hall := (hres.resolve_left fun hlt => hv hlt.ne').2.2
      rw [hbit v]
      by_cases hin : w ≤ v ∧ v < w + nr
      · rw [if_pos hin, hall v hin]
      · rw [if_neg hin, houtside v hin]
        exact h.marked v id
    have hdomain₂ : s₂.domain d = some domain := by rw [← hdomain, ← hmaps.domain]
    obtain ⟨r, s', hdata, hrefused, -, hend⟩ :=
      allocIrqDataLoop_spec h₂ hw₁ hrange hdomain₂ hhw₀ hfree
    have hnonneg : ¬ (w : Int) < 0 := by omega
    refine ⟨r, s', ?_, ?_⟩
    · rw [if_pos rfl]
      simp only [if_neg hnonneg, huint]
      exact hdata
    · rw [hrefused]
      rcases hend with ⟨rfl, v, hv, hv'⟩ | ⟨rfl, hkept⟩
      · refine Or.inl ⟨by decide, hres.resolve_right fun hbad => ?_⟩
        have := hbad.2.2 v hv
        rw [hv'] at this
        cases this
      · exact Or.inr ⟨hle, w, table', rfl, by omega, hkept⟩

/-! ## Finding a mapping -/

/-- Nothing but the flags of descriptors has changed: nothing is allocated, released or mapped. -/
structure OnlyFlags (s s' : IrqMaps) : Prop where
  tree : s'.tree = s.tree
  bitmap : s'.bitmap = s.bitmap
  domains : s'.domains = s.domains
  domain : s'.domain = s.domain
  failed : s'.failed = s.failed
  desc : ∀ ptr, (s'.desc ptr).map ({ · with flags := 0 }) = (s.desc ptr).map ({ · with flags := 0 })

theorem OnlyFlags.setDesc (hdesc : s.desc ptr = some desc) (flags : Nat) :
    OnlyFlags s (s.setDesc ptr (some { desc with flags })) := by
  refine ⟨rfl, rfl, rfl, rfl, rfl, fun x => ?_⟩
  by_cases hx : x = ptr
  · subst hx
    simp [IrqMaps.setDesc, hdesc]
  · simp [IrqMaps.setDesc, hx]

theorem findMap_none (hdomain : s.domain d = some domain) (hhw : hw < domain.hwirqMax)
    (hfree : domain.revmap hw < 0) (type : Nat) :
    s.fwkIrqDomainFindMap d hw type = .ok (-erUnvalid, s) := by
  simp [fwkIrqDomainFindMap, fwkIrqDomainGetData, getRevmap, hdomain, hhw, hfree, bind,
    Except.bind, pure, Except.pure]

/-- **`fwk_irq_domain_find_map`** finds the number that the reverse map has. -/
theorem Kept.findMap_some (h : s.Kept table unmarked Nowhere) (hmaps : s.Maps d hw v)
    (type : Nat) :
    ∃ s', s.fwkIrqDomainFindMap d hw type = .ok ((v : Int), s') ∧ OnlyFlags s s' ∧
      s'.Kept table unmarked Nowhere := by
  obtain ⟨domain, hdomain, hhw, hrev⟩ := id hmaps
  obtain ⟨-, ptr, desc, hptr, hdesc, hd, hh⟩ := h.mapped d hw v hmaps
  obtain ⟨desc', hdesc', hget⟩ := h.fwkIrqGetData_some hptr
  obtain rfl : desc = desc' := Option.some.inj (hdesc.symm.trans hdesc')
  obtain ⟨hirq, -⟩ := h.named v ptr desc hptr hdesc id
  have hlow := h.low v ptr hptr
  have huint : asUint32 v = v := asUint32_of_lt (by omega)
  have hint : asInt32 v = v := asInt32_of_lt (by omega)
  have hnonneg : ¬ (v : Int) < 0 := by omega
  have hdata : s.fwkIrqDomainGetData d hw = .ok (some (ptr, desc)) := by
    simp [fwkIrqDomainGetData, getRevmap, hdomain, hhw, hrev, hnonneg, huint, hget, hd, hh, bind,
      Except.bind, pure, Except.pure]
  simp only [fwkIrqDomainFindMap, hdata, hirq, hint, bind, Except.bind, pure, Except.pure]
  by_cases htype : type = 0
  · rw [if_pos htype]
    exact ⟨s, rfl, ⟨rfl, rfl, rfl, rfl, rfl, fun _ => rfl⟩, h⟩
  · rw [if_neg htype]
    by_cases hflags : desc.flags &&& (type &&& senseMask) = 0
    · rw [if_pos hflags]
      exact ⟨_, rfl, OnlyFlags.setDesc hdesc _, h.touch hdesc rfl ⟨rfl, rfl, rfl⟩⟩
    · rw [if_neg hflags]
      exact ⟨s, rfl, ⟨rfl, rfl, rfl, rfl, rfl, fun _ => rfl⟩, h⟩

/-- The host of a node is a domain. -/
theorem irqHostLoop_spec (s : IrqMaps) (sprtNode : Option ObjPtr) (domains : List ObjPtr)
    (hlive : ∀ d ∈ domains, (s.domain d).isSome = true) :
    s.irqHostLoop sprtNode domains = .ok none ∨ ∃ d domain, s.domain d = some domain ∧
      s.irqHostLoop sprtNode domains = .ok (some (d, domain)) := by
  induction domains with
  | nil => exact Or.inl rfl
  | cons d rest ih =>
    obtain ⟨domain, hdomain⟩ := Option.isSome_iff_exists.mp (hlive d (List.mem_cons_self ..))
    simp only [irqHostLoop, hdomain]
    by_cases hnode : sprtNode = domain.sprtNode
    · rw [if_pos hnode]
      exact Or.inr ⟨d, domain, hdomain, rfl⟩
    · rw [if_neg hnode]
      exact ih fun d hd => hlive d (List.mem_cons_of_mem _ hd)

/-- The domain, the hardware number and the type that a specifier stands for. -/
def specified (s : IrqMaps) (irq : FwkOfPhandleArgs) :
    Option (ObjPtr × FwkIrqDomain × Nat × Nat) :=
  if irq.sprtNode.isNone then none
  else
    match s.fwkOfIrqHost irq.sprtNode with
    | .ok (some (d, domain)) =>
      domain.sprtOps.xlate.bind fun xlate =>
        if (xlate d irq.sprtNode irq.args).1 < 0 then none
        else some (d, domain, (xlate d irq.sprtNode irq.args).2)
    | _ => none

/-- `fwk_irq_create_of_mapping` returns early for a specifier that stands for nothing; else it looks
for the mapping. -/
theorem create_cases (h : ∀ d ∈ s.domains, (s.domain d).isSome = true) (irq : FwkOfPhandleArgs)
    (alloc : DescAlloc) (kzalloc : Option ObjPtr) :
    (s.specified irq = none ∧
        ∃ r, s.fwkIrqCreateOfMapping (some irq) alloc kzalloc = .ok (r, s)) ∨
      ∃ d domain hw type, s.specified irq = some (d, domain, hw, type) ∧
        s.domain d = some domain ∧
        s.fwkIrqCreateOfMapping (some irq) alloc kzalloc =
          (s.fwkIrqDomainFindMap d hw type).bind fun found =>
            if found.1 ≥ 0 then .ok found
            else found.2.mapOne d domain.sprtOps hw type alloc kzalloc := by
  by_cases hnode : irq.sprtNode.isNone = true
  · exact Or.inl ⟨by simp [specified, hnode], -erNomem, by simp [fwkIrqCreateOfMapping, hnode]⟩
  rcases irqHostLoop_spec s irq.sprtNode s.domains h with hhost | ⟨d, domain, hdomain, hhost⟩
  · have hhost' : s.fwkOfIrqHost irq.sprtNode = .ok none := hhost
    refine Or.inl ⟨by simp [specified, hnode, hhost'], -erNotfound, ?_⟩
    simp [fwkIrqCreateOfMapping, hnode, hhost', bind, Except.bind, pure, Except.pure]
  have hhost' : s.fwkOfIrqHost irq.sprtNode = .ok (some (d, domain)) := hhost
  cases hxlate : domain.sprtOps.xlate with
  | none =>
    refine Or.inl ⟨by simp [specified, hnode, hhost', hxlate], -erNotfound, ?_⟩
    simp [fwkIrqCreateOfMapping, hnode, hhost', hxlate, bind, Except.bind, pure, Except.pure]
  | some xlate =>
    by_cases hretval : (xlate d irq.sprtNode irq.args).1 < 0
    · refine Or.inl ⟨by simp [specified, hnode, hhost', hxlate, hretval],
        (xlate d irq.sprtNode irq.args).1, ?_⟩
      simp [fwkIrqCreateOfMapping, hnode, hhost', hxlate, hretval, bind, Except.bind, pure,
        Except.pure]
    · refine Or.inr ⟨d, domain, (xlate d irq.sprtNode irq.args).2.1,
        (xlate d irq.sprtNode irq.args).2.2, by simp [specified, hnode, hhost', hxlate, hretval],
        hdomain, ?_⟩
      simp [fwkIrqCreateOfMapping, hnode, hhost', hxlate, hretval, bind, Except.bind, pure,
        Except.pure]

/-! ## Mapping one number -/

theorem setupGenericChipLoop_spec {base : Nat} (h : s.Kept table unmarked bare)
    (hbase : base + i + rounds ≤ 2 ^ 32) (sprtGc : ObjPtr) :
    ∃ s', setupGenericChipLoop base sprtGc rounds i s = .ok s' ∧ s'.Kept table unmarked bare ∧
      s'.refused = s.refused := by
  induction rounds generalizing s i with
  | zero => exact ⟨s, rfl, h, rfl⟩
  | succ rounds ih =>
    have hnum : add32 base i = base + i := add32_of_lt (by omega)
    have hbase' : base + (i + 1) + rounds ≤ 2 ^ 32 := by omega
    simp only [setupGenericChipLoop, hnum]
    cases hptr : table (base + i) with
    | none =>
      rw [h.fwkIrqGetData_none (by omega) hptr]
      exact ih h hbase'
    | some ptr =>
      obtain ⟨desc, hdesc, hget⟩ := h.fwkIrqGetData_some hptr
      rw [hget]
      exact ih (h.touch hdesc rfl ⟨rfl, rfl, rfl⟩) hbase'

theorem Kept.gpcAlloc (h : s.Kept table unmarked bare) (hv : v < 1024) (kzalloc : Option ObjPtr) :
    ∃ s', s.gpcIrqDomainAlloc v 1 kzalloc = .ok s' ∧ s'.Kept table unmarked bare ∧
      s.refused ≤ s'.refused := by
  cases kzalloc with
  | none =>
    refine ⟨s.fail, rfl, ?_, Nat.le_succ _⟩
    exact ⟨h.tree, h.low, h.live, h.marked, h.named, h.mapped, h.listed, h.fits⟩
  | some sprtGc =>
    have hbase : v + 0 + 1 ≤ 2 ^ 32 := by omega
    obtain ⟨s', hcall, hkept, hsame⟩ := setupGenericChipLoop_spec h hbase sprtGc
    exact ⟨s', hcall, hkept, hsame.ge⟩

theorem Kept.setType (h : s.Kept table unmarked bare) (hv : v < 1024) (type : Nat) :
    ∃ s', s.fwkIrqDescSetType v type = .ok s' ∧ s'.Kept table unmarked bare ∧
      s'.refused = s.refused := by
  cases hptr : table v with
  | none =>
    have hget := h.fwkIrqGetData_none (show v < 2 ^ 32 by omega) hptr
    exact ⟨s, by simp [fwkIrqDescSetType, hget, bind, Except.bind, pure, Except.pure], h, rfl⟩
  | some ptr =>
    obtain ⟨desc, hdesc, hget⟩ := h.fwkIrqGetData_some hptr
    refine ⟨s.setDesc ptr (some { desc with flags := desc.flags ||| type }), ?_,
      h.touch hdesc rfl ⟨rfl, rfl, rfl⟩, rfl⟩
    simp only [fwkIrqDescSetType, hget, bind, Except.bind, pure, Except.pure]

/-- A hardware number that is free is mapped, unless memory is refused. -/
theorem mapOne_spec (h : s.Kept table Nowhere Nowhere) (hdomain : s.domain d = some domain)
    (hhw : hw < domain.hwirqMax) (hfree : domain.revmap hw < 0)
    (hrun : HasRun s.bitmap 1) (ops : FwkIrqDomainOps) (type : Nat)
    (alloc : DescAlloc) (kzalloc : Option ObjPtr) :
    ∃ r s', s.mapOne d ops hw type alloc kzalloc = .ok (r, s') ∧
      (s'.refused = s.refused → ∃ table', s'.Kept table' Nowhere Nowhere) := by
  have hfree' : ∀ j, hw ≤ j → j < hw + 1 → domain.revmap j < 0 := by
    intro j hj hlt
    obtain rfl : hw = j := by omega
    exact hfree
  obtain ⟨r, s₁, halloc, hres⟩ := fwkIrqDomainAllocIrqs_spec h hdomain hhw hfree' hrun [alloc]
  simp only [mapOne, halloc, bind, Except.bind, pure, Except.pure]
  rcases hres with ⟨hneg, hlt⟩ | ⟨hle, w, table', rfl, hw₁, h₁⟩
  · rw [if_pos hneg]
    exact ⟨r, s₁, rfl, fun heq => absurd heq hlt.ne'⟩
  · have huint : asUint32 w = w := asUint32_of_lt (by omega)
    rw [if_neg (by omega), huint]
    obtain ⟨s₂, hgpc, h₂, hle₂⟩ : ∃ s₂, (if ops.alloc = true then s₁.gpcIrqDomainAlloc w 1 kzalloc
        else .ok s₁) = .ok s₂ ∧ s₂.Kept table' (fun _ => s₁.refused ≠ s.refused) Nowhere ∧
          s₁.refused ≤ s₂.refused := by
      by_cases hops : ops.alloc = true
      · rw [if_pos hops]
        exact h₁.gpcAlloc hw₁ kzalloc
      · rw [if_neg hops]
        exact ⟨s₁, rfl, h₁, le_refl _⟩
    obtain ⟨s₃, htype, h₃, heq₃⟩ := h₂.setType hw₁ type
    refine ⟨w, s₃, ?_, fun heq => ⟨table', h₃.weaken ?_⟩⟩
    · by_cases hops : ops.alloc = true
      · rw [if_pos hops] at hgpc ⊢
        simp only [hgpc, htype]
      · rw [if_neg hops] at hgpc ⊢
        cases hgpc
        simp only [htype]
    · intro v _ hbad
      omega

/-- **`fwk_irq_create_of_mapping`** for a specifier of a hardware number inside its domain. -/
theorem fwkIrqCreateOfMapping_spec (h : s.Kept table Nowhere Nowhere) (irq : FwkOfPhandleArgs)
    (hin : ∀ d domain hw type, s.specified irq = some (d, domain, hw, type) →
      hw < domain.hwirqMax ∧ (domain.revmap hw < 0 → HasRun s.bitmap 1))
    (alloc : DescAlloc) (kzalloc : Option ObjPtr) :
    ∃ r s', s.fwkIrqCreateOfMapping (some irq) alloc kzalloc = .ok (r, s') ∧
      (s'.refused = s.refused → ∃ table', s'.Kept table' Nowhere Nowhere) := by
  rcases create_cases h.listed irq alloc kzalloc with
    ⟨-, r, hcall⟩ | ⟨d, domain, hw, type, hspec, hdomain, hcall⟩
  · exact ⟨r, s, hcall, fun _ => ⟨table, h⟩⟩
  obtain ⟨hhw, hrun⟩ := hin d domain hw type hspec
  rw [hcall]
  by_cases hneg : domain.revmap hw < 0
  · rw [findMap_none hdomain hhw hneg]
    exact mapOne_spec h hdomain hhw hneg (hrun hneg) domain.sprtOps type alloc kzalloc
  · have hmaps : s.Maps d hw (domain.revmap hw).toNat := ⟨domain, hdomain, hhw, by omega⟩
    obtain ⟨s', hfind, -, hkept⟩ := h.findMap_some hmaps type
    refine ⟨(domain.revmap hw).toNat, s', ?_, fun _ => ⟨table, hkept⟩⟩
    rw [hfind]
    simp only [Except.bind, ge_iff_le, Int.natCast_nonneg, if_true]

/-- **Repeating** a call for a specifier that is mapped returns the number and changes nothing but
the flags. -/
theorem Kept.repeated (h : s.Kept table Nowhere Nowhere) {irq : FwkOfPhandleArgs} {type : Nat}
    (hspec : s.specified irq = some (d, domain, hw, type)) (hmaps : s.Maps d hw v)
    (alloc : DescAlloc) (kzalloc : Option ObjPtr) :
    ∃ s', s.fwkIrqCreateOfMapping (some irq) alloc kzalloc = .ok ((v : Int), s') ∧
      OnlyFlags s s' := by
  rcases create_cases h.listed irq alloc kzalloc with
    ⟨hnone, -⟩ | ⟨d', domain', hw', type', hspec', hdomain, hcall⟩
  · rw [hspec] at hnone
    cases hnone
  rw [hspec] at hspec'
  cases hspec'
  obtain ⟨s', hfind, hflags, -⟩ := h.findMap_some hmaps type
  refine ⟨s', ?_, hflags⟩
  rw [hcall, hfind]
  simp only [Except.bind, ge_iff_le, Int.natCast_nonneg, if_true]

/-! ## Releasing -/

/-- `fwk_irq_desc_free` for a number whose descriptor knows the number. -/
theorem descFree_eq {desc : FwkIrqDesc} {tree : RadixTree} (hv : v < 2 ^ 32)
    (hget : s.fwkIrqGetData v = .ok (some (ptr, desc))) (hirq : desc.sgrtData.irq = v)
    (hdel : radixTreeDel s.tree v = .ok tree) :
    s.fwkIrqDescFree (v : Int) =
      .ok ({ s with
        tree := tree
        bitmap := bitmapSetNrBitZero s.bitmap v fwkIrqDescMax 1 }.setDesc ptr none) := by
  have huint : asUint32 v = v := asUint32_of_lt hv
  have hget' : IrqMaps.fwkIrqGetData
      { s with bitmap := bitmapSetNrBitZero s.bitmap v fwkIrqDescMax 1 } v =
        .ok (some (ptr, desc)) := hget
  simp [fwkIrqDescFree, fwkDestroyIrqAction, huint, hget, hirq, hget', hdel, bind, Except.bind,
    pure, Except.pure, setDesc]

theorem bitmapSetOneZero_bit {bitmap : Bitmap} (hv : v + 1 < fwkIrqDescMax) (x : Nat) :
    (bitmapSetNrBitZero bitmap v fwkIrqDescMax 1).bit x =
      if x = v then false else bitmap.bit x := by
  have hbit : (bitmapSetNrBitZero bitmap v fwkIrqDescMax 1).bit x = _ :=
    bitmapSetNrBit_bit hv (by decide) x
  rw [hbit]
  by_cases hx : x = v
  · rw [if_pos (by omega), if_pos hx]
  · rw [if_neg (by omega), if_neg hx]

/-- **`fwk_irq_desc_free`** for a number that is mapped, up to the entry of the reverse map. -/
theorem Kept.descFree (h : s.Kept table Nowhere Nowhere) (hptr : table v = some ptr) :
    ∃ tree bitmap, s.fwkIrqDescFree (v : Int) =
        .ok ({ s with tree := tree, bitmap := bitmap }.setDesc ptr none) ∧
      (RadixRepr tree fun x => Function.update table v none x) ∧
      ∀ x, bitmap.bit x = if x = v then false else s.bitmap.bit x := by
  obtain ⟨desc, hdesc, hget⟩ := h.fwkIrqGetData_some hptr
  obtain ⟨hirq, -⟩ := h.named v ptr desc hptr hdesc id
  have hlow := h.low v ptr hptr
  obtain ⟨tree, hdel, hrepr⟩ := h.tree.del ⟨v, by omega⟩
  rw [update_table] at hrepr
  exact ⟨tree, _, descFree_eq (by omega) hget hirq hdel, hrepr,
    bitmapSetOneZero_bit (by unfold fwkIrqDescMax; omega)⟩

/-- **The loop of `fwk_irq_domain_free_irqs`** keeps what the release of one mapped number keeps. -/
theorem freeIrqsLoop_keeps {P : IrqMaps → Prop} {idx : Nat}
    (hone : ∀ s domain idx v, P s → s.domain d = some domain → s.Maps d idx v →
      ∃ s', s.fwkIrqDescFree (v : Int) = .ok s' ∧ s'.domain = s.domain ∧
        P (s'.setEntry d domain idx (-1)))
    (h : P s) (hdomain : s.domain d = some domain) (hrounds : idx + rounds ≤ domain.hwirqMax) :
    ∃ s', freeIrqsLoop d rounds idx s = .ok s' ∧ P s' := by
  induction rounds generalizing s domain idx with
  | zero => exact ⟨s, rfl, h⟩
  | succ rounds ih =>
    have hidx : idx < domain.hwirqMax := by omega
    have hrounds' : idx + 1 + rounds ≤ domain.hwirqMax := by omega
    have hread : s.getRevmap d idx = .ok (domain.revmap idx) := by
      simp [getRevmap, hdomain, hidx]
    simp only [freeIrqsLoop, hread, bind, Except.bind]
    by_cases hneg : domain.revmap idx < 0
    · rw [if_pos hneg]
      exact ih h hdomain hrounds'
    · obtain ⟨v, hv⟩ : ∃ v : Nat, domain.revmap idx = v :=
        ⟨(domain.revmap idx).toNat, by omega⟩
      obtain ⟨s', hcall, hsame, hnext⟩ := hone s domain idx v h hdomain ⟨domain, hdomain, hidx, hv⟩
      have hdomain' : s'.domain d = some domain := by
        rw [hsame]
        exact hdomain
      simp only [hv, if_neg (show ¬ (v : Int) < 0 by omega), hcall, setRevmap, hdomain',
        if_pos hidx]
      exact ih hnext (Function.update_self ..) hrounds'

theorem freeIrqsLoop_spec {idx : Nat} (h : s.Kept table Nowhere Nowhere)
    (hdomain : s.domain d = some domain) (hrounds : idx + rounds ≤ domain.hwirqMax) :
    ∃ s' table', freeIrqsLoop d rounds idx s = .ok s' ∧ s'.Kept table' Nowhere Nowhere := by
  obtain ⟨s', hloop, table', hkept⟩ : ∃ s', freeIrqsLoop d rounds idx s = .ok s' ∧
      ∃ table', s'.Kept table' Nowhere Nowhere := by
    refine freeIrqsLoop_keeps ?_ ⟨table, h⟩ hdomain hrounds
    rintro s domain idx v ⟨table, h⟩ hdomain hmaps
    obtain ⟨-, ptr, -, hptr, -⟩ := h.mapped d idx v hmaps
    obtain ⟨tree, bitmap, hcall, hrepr, hbits⟩ := h.descFree hptr
    exact ⟨_, hcall, rfl, _, h.drop hmaps hptr hdomain hrepr hbits⟩
  exact ⟨s', table', hloop, hkept⟩

/-! ## New domains -/

/-- The maps with a new domain at the end of the list. -/
def addDomain (s : IrqMaps) (d : ObjPtr) (domain : FwkIrqDomain) : IrqMaps :=
  { s with domains := s.domains ++ [d], domain := Function.update s.domain d (some domain) }

/-- What is mapped is mapped in the old domains. -/
theorem maps_addDomain (hd : s.domain d = none) (hbare : ∀ i, domain.revmap i = -1)
    (d' : ObjPtr) (hw v : Nat) : (s.addDomain d domain).Maps d' hw v ↔ s.Maps d' hw v := by
  by_cases hdd : d' = d
  · subst hdd
    constructor
    · rintro ⟨dom, hdom, -, hrev⟩
      simp only [addDomain, Function.update_self, Option.some.injEq] at hdom
      subst hdom
      rw [hbare] at hrev
      omega
    · rintro ⟨dom, hdom, -⟩
      rw [hd] at hdom
      cases hdom
  · simp [Maps, addDomain, hdd]

theorem addDomain_listed (h : ∀ d ∈ s.domains, (s.domain d).isSome = true) (d : ObjPtr)
    (domain : FwkIrqDomain) :
    ∀ d' ∈ (s.addDomain d domain).domains, ((s.addDomain d domain).domain d').isSome = true := by
  intro d' hd'
  by_cases hdd : d' = d
  · simp [addDomain, hdd]
  · have hmem : d' ∈ s.domains := by simpa [addDomain, hdd] using hd'
    simpa [addDomain, hdd] using h d' hmem

theorem addDomain_fits (h : ∀ d domain, s.domain d = some domain → domain.hwirqMax < 2 ^ 30)
    (hsize : domain.hwirqMax < 2 ^ 30) :
    ∀ d' dom, (s.addDomain d domain).domain d' = some dom → dom.hwirqMax < 2 ^ 30 := by
  intro d' dom hdom
  by_cases hdd : d' = d
  · subst hdd
    simp only [addDomain, Function.update_self, Option.some.injEq] at hdom
    subst hdom
    exact hsize
  · exact h d' dom (by simpa [addDomain, hdd] using hdom)

/-- `fwk_irq_domain_add_linear` adds a domain with nothing mapped, unless memory is refused or the
size does not fit into a word. -/
theorem addLinear_cases (s : IrqMaps) (sprtNode : Option ObjPtr) (size : Nat)
    (ops : FwkIrqDomainOps) (kzalloc : Option ObjPtr) :
    s.fwkIrqDomainAddLinear sprtNode size ops kzalloc = .ok (none, s.fail) ∨
      (¬ domainBytes + 4 * size < 2 ^ 32 ∧
        s.fwkIrqDomainAddLinear sprtNode size ops kzalloc = .error .fault) ∨
      (domainBytes + 4 * size < 2 ^ 32 ∧ ∃ d, s.domain d = none ∧
        s.fwkIrqDomainAddLinear sprtNode size ops kzalloc =
          .ok (some d, s.addDomain d ⟨sprtNode, ops, size, fun _ => -1⟩)) := by
  cases kzalloc with
  | none => exact Or.inl rfl
  | some d =>
    cases hd : s.domain d with
    | some domain => exact Or.inl (by simp [fwkIrqDomainAddLinear, hd])
    | none =>
      refine Or.inr ?_
      simp only [fwkIrqDomainAddLinear, hd, Option.isSome_none, Bool.false_eq_true, if_false]
      by_cases hsize : domainBytes + 4 * size < 2 ^ 32
      · rw [if_neg (Nat.not_le.mpr hsize)]
        exact Or.inr ⟨hsize, d, hd, rfl⟩
      · rw [if_pos (Nat.not_lt.mp hsize)]
        exact Or.inl ⟨hsize, rfl⟩

/-- **`fwk_irq_domain_add_linear`** keeps the copies of the mapping together. -/
theorem addLinear_spec (h : s.Kept table Nowhere Nowhere) {size : Nat}
    (hsize : domainBytes + 4 * size < 2 ^ 32) (sprtNode : Option ObjPtr) (ops : FwkIrqDomainOps)
    (kzalloc : Option ObjPtr) :
    ∃ o s', s.fwkIrqDomainAddLinear sprtNode size ops kzalloc = .ok (o, s') ∧
      s'.Kept table Nowhere Nowhere := by
  rcases addLinear_cases s sprtNode size ops kzalloc with hcall | ⟨hbig, -⟩ | ⟨-, d, hd, hcall⟩
  · exact ⟨none, s.fail, hcall,
      h.tree, h.low, h.live, h.marked, h.named, h.mapped, h.listed, h.fits⟩
  · exact absurd hsize hbig
  · have hmaps : ∀ d' hw v, (s.addDomain d ⟨sprtNode, ops, size, fun _ => -1⟩).Maps d' hw v ↔
        s.Maps d' hw v := maps_addDomain hd fun _ => rfl
    refine ⟨some d, _, hcall, h.tree, h.low, h.live, h.marked, ?_, ?_,
      addDomain_listed h.listed d _, addDomain_fits h.fits ?_⟩
    · intro v ptr desc hptr hdesc hv
      obtain ⟨hirq, d', hd', hm⟩ := h.named v ptr desc hptr hdesc hv
      exact ⟨hirq, d', hd', (hmaps d' _ v).mpr hm⟩
    · intro d' hw v hm
      exact h.mapped d' hw v ((hmaps d' hw v).mp hm)
    · unfold domainBytes at hsize
      show size < 2 ^ 30
      omega

/-! ## Runs -/

/-- The four copies agree. -/
structure Agree (s : IrqMaps) : Prop where
  revmap_iff : ∀ d domain hw (v : Nat), s.domain d = some domain → hw < domain.hwirqMax →
    v < 2 ^ 32 → (domain.revmap hw = v ↔ ∃ ptr desc, s.fwkIrqToDesc v = .ok (some ptr) ∧
      s.desc ptr = some desc ∧ desc.sgrtData.sprtDomain = some d ∧ desc.sgrtData.hwirq = hw)
  one_pair : ∀ d d' hw hw' v, s.Maps d hw v → s.Maps d' hw' v → d = d' ∧ hw = hw'
  bit_iff : ∀ v < 2 ^ 32, (v < fwkIrqDescMax ∧ s.bitmap.bit v = true ↔
    ∃ ptr, s.fwkIrqToDesc v = .ok (some ptr))
  repeated : ∀ irq d domain hw type v, s.specified irq = some (d, domain, hw, type) →
    s.Maps d hw v → ∀ alloc kzalloc,
      ∃ s', s.fwkIrqCreateOfMapping (some irq) alloc kzalloc = .ok ((v : Int), s') ∧ OnlyFlags s s'

/-- A call, with what the memory gives it. -/
inductive Move where
  | addLinear (sprtNode : Option ObjPtr) (size : Nat) (ops : FwkIrqDomainOps)
      (kzalloc : Option ObjPtr)
  | allocIrqs (sprtDomain : ObjPtr) (hwirq nrIrqs : Nat) (allocs : List DescAlloc)
  | createOfMapping (sprtIrq : Option FwkOfPhandleArgs) (alloc : DescAlloc)
      (kzalloc : Option ObjPtr)
  | freeIrqs (sprtDomain : ObjPtr)

/-- One call. -/
def step (s : IrqMaps) : Move → Option IrqMaps
  | .addLinear sprtNode size ops kzalloc =>
    (s.fwkIrqDomainAddLinear sprtNode size ops kzalloc).toOption.map Prod.snd
  | .allocIrqs sprtDomain hwirq nrIrqs allocs =>
    (s.fwkIrqDomainAllocIrqs sprtDomain (-1) hwirq nrIrqs allocs).toOption.map Prod.snd
  | .createOfMapping sprtIrq alloc kzalloc =>
    (s.fwkIrqCreateOfMapping sprtIrq alloc kzalloc).toOption.map Prod.snd
  | .freeIrqs sprtDomain => (s.fwkIrqDomainFreeIrqs sprtDomain).toOption

/-- The hardware numbers are inside the domain and not mapped yet, and there are enough virtual
numbers for them. -/
def RangeFits (bitmap : Bitmap) (domain : FwkIrqDomain) (hwirq nrIrqs : Nat) : Prop :=
  hwirq + nrIrqs ≤ domain.hwirqMax ∧ (∀ j < nrIrqs, domain.revmap (hwirq + j) < 0) ∧
    HasRun bitmap nrIrqs

/-- The hardware number is inside the domain, and there is a virtual number for it if it is not
mapped. -/
def NumberFits (bitmap : Bitmap) (domain : FwkIrqDomain) (hwirq : Nat) : Prop :=
  hwirq < domain.hwirqMax ∧ (domain.revmap hwirq < 0 → HasRun bitmap 1)

/-- The call is for hardware numbers of a domain; a new domain fits into the memory. -/
def Fits (s : IrqMaps) : Move → Prop
  | .addLinear _ size _ _ => domainBytes + 4 * size < 2 ^ 32
  | .allocIrqs d hw nr _ => ∃ domain, s.domain d = some domain ∧ RangeFits s.bitmap domain hw nr
  | .createOfMapping sprtIrq _ _ => ∀ irq d domain hw type, sprtIrq = some irq →
    s.specified irq = some (d, domain, hw, type) → NumberFits s.bitmap domain hw
  | .freeIrqs d => (s.domain d).isSome = true

/-- No allocation of the call fails. -/
def Succeeds (s : IrqMaps) (move : Move) : Prop :=
  ((s.step move).all fun s' => s'.refused == s.refused) = true

instance (bitmap : Bitmap) (domain : FwkIrqDomain) (hwirq nrIrqs : Nat) :
    Decidable (RangeFits bitmap domain hwirq nrIrqs) :=
  inferInstanceAs (Decidable (_ ∧ (∀ j < nrIrqs, domain.revmap (hwirq + j) < 0) ∧ _))

instance (bitmap : Bitmap) (domain : FwkIrqDomain) (hwirq : Nat) :
    Decidable (NumberFits bitmap domain hwirq) :=
  inferInstanceAs (Decidable (_ ∧ (domain.revmap hwirq < 0 → _)))

instance decidableFits (s : IrqMaps) : ∀ move : Move, Decidable (s.Fits move)
  | .addLinear _ size _ _ => inferInstanceAs (Decidable (domainBytes + 4 * size < 2 ^ 32))
  | .allocIrqs d hw nr _ =>
    match hd : s.domain d with
    | none => isFalse (by simp [Fits, hd])
    | some domain => decidable_of_iff (RangeFits s.bitmap domain hw nr) (by simp [Fits, hd])
  | .createOfMapping none _ _ => isTrue (by simp [Fits])
  | .createOfMapping (some irq) _ _ =>
    match hspec : s.specified irq with
    | none => isTrue <| by
      rintro irq' d domain hw type ⟨⟩ hspec'
      rw [hspec] at hspec'
      cases hspec'
    | some (d, domain, hw, type) => decidable_of_iff (NumberFits s.bitmap domain hw) <| by
      constructor
      · rintro hfits irq' d' domain' hw' type' ⟨⟩ hspec'
        rw [hspec] at hspec'
        cases hspec'
        exact hfits
      · exact fun hfits => hfits irq d domain hw type rfl hspec
  | .freeIrqs d => inferInstanceAs (Decidable ((s.domain d).isSome = true))

instance (s : IrqMaps) (move : Move) : Decidable (s.Succeeds move) :=
  inferInstanceAs (Decidable (_ = _))

theorem kept_start : start.Kept (fun _ => none) Nowhere Nowhere where
  tree := radixRepr_start
  low := nofun
  live := nofun
  marked := by
    intro v _
    rw [Bitmap.bit_eq]
    simp [start]
  named := nofun
  mapped := by
    rintro d hw v ⟨domain, hdomain, -⟩
    cases hdomain
  listed := nofun
  fits := nofun

/-- What is kept is what was asked for. -/
theorem Kept.agree (h : s.Kept table Nowhere Nowhere) : s.Agree where
  revmap_iff := by
    intro d domain hw v hdomain hhw hv
    rw [h.fwkIrqToDesc_eq hv]
    constructor
    · intro hrev
      obtain ⟨-, ptr, desc, hptr, hrest⟩ := h.mapped d hw v ⟨domain, hdomain, hhw, hrev⟩
      exact ⟨ptr, desc, by rw [hptr], hrest⟩
    · rintro ⟨ptr, desc, hptr, hdesc, hd, rfl⟩
      obtain ⟨-, d', hd', dom, hdom, -, hrev⟩ :=
        h.named v ptr desc (Except.ok.inj hptr) hdesc id
      rw [hd] at hd'
      cases hd'
      rw [hdomain] at hdom
      cases hdom
      exact hrev
  one_pair := by
    intro d d' hw hw' v hm hm'
    obtain ⟨-, ptr, desc, hptr, hdesc, hd, hh⟩ := h.mapped d hw v hm
    obtain ⟨-, ptr', desc', hptr', hdesc', hd', hh'⟩ := h.mapped d' hw' v hm'
    rw [hptr] at hptr'
    cases hptr'
    rw [hdesc] at hdesc'
    cases hdesc'
    rw [hd] at hd'
    exact ⟨Option.some.inj hd', hh.symm.trans hh'⟩
  bit_iff := by
    intro v hv
    rw [h.marked v id, h.fwkIrqToDesc_eq hv, Option.isSome_iff_exists]
    constructor
    · rintro ⟨-, ptr, hptr⟩
      exact ⟨ptr, by rw [hptr]⟩
    · rintro ⟨ptr, hptr⟩
      have hptr := Except.ok.inj hptr
      have := h.low v ptr hptr
      exact ⟨by unfold fwkIrqDescMax; omega, ptr, hptr⟩
  repeated := fun _ _ _ _ _ _ hspec hmaps alloc kzalloc => h.repeated hspec hmaps alloc kzalloc

/-- One call keeps the copies together. -/
theorem step_kept (s : IrqMaps) (move : Move) (h : ∃ table, s.Kept table Nowhere Nowhere)
    (hmove : s.Fits move ∧ s.Succeeds move) :
    ∃ s', s.step move = some s' ∧ ∃ table, s'.Kept table Nowhere Nowhere := by
  obtain ⟨table, h⟩ := h
  obtain ⟨hfits, hsucc⟩ := hmove
  have hrefused : ∀ s', s.step move = some s' → s'.refused = s.refused := by
    intro s' hs'
    rw [Succeeds, hs'] at hsucc
    simpa using hsucc
  cases move with
  | addLinear sprtNode size ops kzalloc =>
    obtain ⟨o, s', hcall, hkept⟩ := addLinear_spec h hfits sprtNode ops kzalloc
    exact ⟨s', by rw [step, hcall]; rfl, table, hkept⟩
  | allocIrqs d hw nr allocs =>
    obtain ⟨domain, hdomain, hhw, hfree, hrun⟩ := hfits
    have hfree' : ∀ j, hw ≤ j → j < hw + nr → domain.revmap j < 0 := by
      intro j hj hlt
      have := hfree (j - hw) (by omega)
      rwa [Nat.add_sub_cancel' hj] at this
    obtain ⟨r, s', hcall, hres⟩ := fwkIrqDomainAllocIrqs_spec h hdomain hhw hfree' hrun allocs
    have hstep : s.step (.allocIrqs d hw nr allocs) = some s' := by rw [step, hcall]; rfl
    have hsame := hrefused s' hstep
    rcases hres with ⟨-, hlt⟩ | ⟨-, w, table', -, -, hkept⟩
    · exact absurd hsame hlt.ne'
    · exact ⟨s', hstep, table', hkept.weaken fun _ _ hbad => hbad hsame⟩
  | createOfMapping sprtIrq alloc kzalloc =>
    cases sprtIrq with
    | none => exact ⟨s, rfl, table, h⟩
    | some irq =>
      obtain ⟨r, s', hcall, hres⟩ := fwkIrqCreateOfMapping_spec h irq
        (fun d domain hw type hspec => hfits irq d domain hw type rfl hspec) alloc kzalloc
      have hstep : s.step (.createOfMapping (some irq) alloc kzalloc) = some s' := by
        rw [step, hcall]
        rfl
      exact ⟨s', hstep, hres (hrefused s' hstep)⟩
  | freeIrqs d =>
    obtain ⟨domain, hdomain⟩ := Option.isSome_iff_exists.mp hfits
    obtain ⟨s', table', hcall, hkept⟩ := freeIrqsLoop_spec h hdomain (Nat.zero_add _).le
    refine ⟨s', ?_, table', hkept⟩
    rw [step, fwkIrqDomainFreeIrqs, hdomain]
    simp only [hcall]
    rfl

/-- **The copies of the mapping agree in every run.**  Over every sequence of calls that add
domains, map free ranges of hardware numbers inside a domain, map specifiers and release domains,
with no allocation failing and enough virtual numbers, every call returns, and at every moment a
reverse map has a number just when the descriptor of the number names the entry, no number belongs to two
entries, the bitmap says which numbers have descriptors, and mapping a mapped specifier again gives
its number and allocates nothing. -/
theorem mapping_kept (moves : List Move)
    (h : Meets step (fun s move => s.Fits move ∧ s.Succeeds move) start moves) :
    (∃ s, exec step start moves = some s) ∧ Always step Agree start moves := by
  obtain ⟨hexec, halways⟩ := run_of_meets step_kept ⟨_, kept_start⟩ h
  refine ⟨hexec, halways.imp ?_⟩
  rintro s ⟨table, hs⟩
  exact hs.agree

/-- A controller with four lines: two of them are mapped at once, the last by its specifier, and all
are released. -/
def intcMoves : List Move :=
  let intc : ObjPtr := ⟨0x51000, by decide⟩
  let domain : ObjPtr := ⟨0x52000, by decide⟩
  let desc (i : Fin 3) : ObjPtr := ⟨0x53000 + i, by revert i; decide⟩
  let node (i : Fin 3) : ObjPtr := ⟨0x54000 + i, by revert i; decide⟩
  [.addLinear (some intc) 4 ⟨some fun _ _ args => (0, args.headD 0, args.length), true⟩
      (some domain),
    .allocIrqs domain 0 2 [(some (desc 0), [some (node 0)]), (some (desc 1), [some (node 1)])],
    .createOfMapping (some ⟨some intc, [3]⟩) (some (desc 2), [some (node 2)])
      (some ⟨0x55000, by decide⟩),
    .freeIrqs domain]

theorem mapping_kept_intc :
    (∃ s, exec step start intcMoves = some s) ∧ Always step Agree start intcMoves :=
  mapping_kept intcMoves (by decide +kernel)

end IrqMaps

end HeavenFox.Platform
