/-
# HeavenFox.Platform.IrqFailure -- what a failed allocation of interrupts leaves behind

`fwk_irq_domain_alloc_irqs` makes descriptors one by one and puts each of them into the radix tree
at once.  No path of it takes anything back, the test for an error of the search is one of an
unsigned number, and the tree says nothing when it refuses a number.  So a call that returns a
negative code has left nothing behind just when it got no descriptor at all
(`allocIrqs_undone_iff`).
-/
import HeavenFox.Platform.IrqDomainSound

namespace HeavenFox.Platform

open HeavenFox.Common HeavenFox.Logic

namespace IrqMaps

/-- Nothing is left of a call: the bitmap, what the tree leads to and the reverse maps are as before,
and no other descriptor is allocated. -/
structure Undone (s s' : IrqMaps) : Prop where
  bitmap : s'.bitmap = s.bitmap
  reached : ∀ v < 2 ^ 32, s'.fwkIrqToDesc v = s.fwkIrqToDesc v
  domain : s'.domain = s.domain
  desc : ∀ ptr, (s'.desc ptr).isSome = true → (s.desc ptr).isSome = true

/-- The memory gives the first descriptor. -/
def firstGranted (s : IrqMaps) (allocs : List DescAlloc) : Bool :=
  (s.fwkAllocateIrqDesc (allocs.head?.bind Prod.fst)).1.isSome

/-- The memory gives descriptor `j`: one that is not in use, and that it has not given before. -/
def Granted (s : IrqMaps) (allocs : List DescAlloc) (j : Nat) : Prop :=
  ∃ ptr, allocs[j]?.bind Prod.fst = some ptr ∧ s.desc ptr = none ∧
    ∀ i < j, allocs[i]?.bind Prod.fst ≠ some ptr

/-- A tree with descriptors put into it from number `virq + i` on, each with the nodes that the
memory gives for it. -/
def putDescs (virq : Nat) : Nat → Nat → List DescAlloc → RadixTree → Except Stop RadixTree
  | 0, _, _, tree => .ok tree
  | rounds + 1, i, allocs, tree => do
    let tree ← radixTreeAdd tree (add32 virq i) (allocs.head?.bind Prod.fst)
      (allocs.head?.elim [] Prod.snd)
    putDescs virq rounds (i + 1) allocs.tail tree

/-- Every descriptor is granted, and with these descriptors put there, every number is in the
tree. -/
def NothingRefused (s : IrqMaps) (virq nr : Nat) (allocs : List DescAlloc) : Prop :=
  (∀ j < nr, s.Granted allocs j) ∧ ∃ tree, putDescs virq nr 0 allocs s.tree = .ok tree ∧
    ∀ j < nr, radixTreeLookUp tree (add32 virq j) ≠ .ok none

variable {s s' : IrqMaps} {table : Nat → Option ObjPtr} {v virq rounds i hw nr : Nat}
  {ptr d : ObjPtr} {base r : Int}

theorem Undone.fail (s : IrqMaps) : s.Undone s.fail :=
  ⟨rfl, fun _ _ => rfl, rfl, fun _ => id⟩

/-- What is granted once the first descriptor has been taken. -/
theorem granted_tail {allocs : List DescAlloc} (hhead : allocs.head?.bind Prod.fst = some ptr)
    (hfree : s.desc ptr = none) (v : Nat) (tree : RadixTree) :
    (∀ j < rounds + 1, s.Granted allocs j) ↔
      ∀ j < rounds, (s.withDesc v ptr tree).Granted allocs.tail j := by
  rw [List.head?_eq_getElem?] at hhead
  have hother {x : ObjPtr} (hne : x ≠ ptr) : (s.withDesc v ptr tree).desc x = s.desc x :=
    Function.update_of_ne hne ..
  have hgone : (s.withDesc v ptr tree).desc ptr ≠ none := by
    simp [withDesc, setDesc]
  constructor
  · intro h j hj
    obtain ⟨x, hx, hxfree, hnew⟩ := h (j + 1) (by omega)
    have hne : x ≠ ptr := fun heq => hnew 0 (by omega) (heq ▸ hhead)
    refine ⟨x, by rwa [List.getElem?_tail], (hother hne).trans hxfree, fun i hi => ?_⟩
    rw [List.getElem?_tail]
    exact hnew (i + 1) (by omega)
  · intro h j hj
    cases j with
    | zero => exact ⟨ptr, hhead, hfree, fun i hi => absurd hi (Nat.not_lt_zero i)⟩
    | succ j =>
      obtain ⟨x, hx, hxfree, hnew⟩ := h j (by omega)
      have hne : x ≠ ptr := fun heq => hgone (heq ▸ hxfree)
      rw [List.getElem?_tail] at hx
      refine ⟨x, hx, (hother hne).symm.trans hxfree, fun i hi heq => ?_⟩
      cases i with
      | zero => exact hne (Option.some.inj (heq.symm.trans hhead))
      | succ i =>
        apply hnew i (by omega)
        rwa [List.getElem?_tail]

/-- What the loop of `fwk_irq_domain_alloc_descs` comes to: it goes through just when every
descriptor is granted, and then the descriptors are in the tree. -/
theorem allocDescsLoop_grants (h : RadixRepr s.tree fun x => table x) (allocs : List DescAlloc) :
    ∃ (enough : Bool) (s' : IrqMaps) (table' : Nat → Option ObjPtr),
      allocDescsLoop virq rounds i allocs s = .ok (enough, s') ∧
      (RadixRepr s'.tree fun x => table' x) ∧ Frame s s' ∧
      (enough = true ↔ ∀ j < rounds, s.Granted allocs j) ∧
      (enough = true → putDescs virq rounds i allocs s.tree = .ok s'.tree) := by
  induction rounds generalizing s table i allocs with
  | zero =>
    refine ⟨true, s, table, rfl, h, Frame.refl s, ?_, fun _ => rfl⟩
    exact iff_of_true rfl fun j hj => absurd hj (Nat.not_lt_zero j)
  | succ rounds ih =>
    rcases allocDescsLoop_cases h virq rounds i allocs with
      ⟨hcall, hrun⟩ | ⟨ptr, tree, table₁, hfree, hcall, hadd, hrepr, -, hrun⟩
    · refine ⟨false, s.fail, table, hrun, h, ⟨⟨rfl, rfl, rfl⟩, fun _ _ => rfl⟩, ?_,
        fun hbad => absurd hbad Bool.false_ne_true⟩
      refine iff_of_false Bool.false_ne_true fun hall => ?_
      -- the reply for the first descriptor was no descriptor that is free
      obtain ⟨ptr, hptr, hfree, -⟩ := hall 0 (by omega)
      rw [← List.head?_eq_getElem?] at hptr
      rw [hptr, fwkAllocateIrqDesc, hfree] at hcall
      cases congrArg Prod.fst hcall
    · have hhead : allocs.head?.bind Prod.fst = some ptr := by
        cases hreply : allocs.head?.bind Prod.fst with
        | none =>
          rw [hreply] at hcall
          cases congrArg Prod.fst hcall
        | some x =>
          rw [hreply, fwkAllocateIrqDesc] at hcall
          split at hcall
          · cases congrArg Prod.fst hcall
          · exact congrArg Prod.fst hcall
      obtain ⟨enough, s', table', hrest, hrepr', hframe, hall, hput⟩ :=
        @ih (s.withDesc (add32 virq i) ptr tree) table₁ (i + 1) hrepr allocs.tail
      refine ⟨enough, s', table', hrun.trans hrest, hrepr',
        (Frame.spare hfree _ tree).trans hframe, ?_, fun henough => ?_⟩
      · rw [granted_tail hhead hfree (add32 virq i) tree]
        exact hall
      · rw [putDescs, hhead, hadd]
        exact hput henough

/-- Nothing is refused just when the loop goes through and leaves every number in the table. -/
theorem nothingRefused_iff {allocs : List DescAlloc} {enough : Bool}
    (hall : enough = true ↔ ∀ j < nr, s.Granted allocs j)
    (hput : enough = true → putDescs virq nr 0 allocs s.tree = .ok s'.tree)
    (hrepr : RadixRepr s'.tree fun x => table x) :
    s.NothingRefused virq nr allocs ↔
      enough = true ∧ ∀ j, 0 ≤ j → j < 0 + nr → table (add32 virq j) ≠ none := by
  have hlook (j : Nat) : radixTreeLookUp s'.tree (add32 virq j) = .ok (table (add32 virq j)) :=
    hrepr.lookUp ⟨add32 virq j, add32_lt virq j⟩
  rw [Nat.zero_add]
  constructor
  · rintro ⟨hgranted, tree, htree, hevery⟩
    have henough := hall.mpr hgranted
    obtain rfl : s'.tree = tree := Except.ok.inj ((hput henough).symm.trans htree)
    refine ⟨henough, fun j _ hj hnone => hevery j hj ?_⟩
    rw [hlook, hnone]
  · rintro ⟨henough, hevery⟩
    refine ⟨hall.mp henough, s'.tree, hput henough, fun j hj hnone => ?_⟩
    rw [hlook] at hnone
    exact hevery j (Nat.zero_le j) hj (Except.ok.inj hnone)

theorem allocDescsLoop_refused {allocs : List DescAlloc} (h : RadixRepr s.tree fun x => table x)
    (hrounds : 0 < rounds) (hfirst : s.firstGranted allocs = false) :
    allocDescsLoop virq rounds i allocs s = .ok (false, s.fail) := by
  obtain ⟨rounds, rfl⟩ := Nat.exists_eq_succ_of_ne_zero hrounds.ne'
  rcases allocDescsLoop_cases h virq rounds i allocs with
    ⟨-, hrun⟩ | ⟨ptr, tree, table₁, -, hcall, -⟩
  · exact hrun
  · rw [firstGranted, hcall] at hfirst
    cases hfirst

/-- The first descriptor that is granted stays allocated. -/
theorem allocDescsLoop_leaves {allocs : List DescAlloc} {enough : Bool}
    (h : RadixRepr s.tree fun x => table x) (hrounds : 0 < rounds)
    (hfirst : s.firstGranted allocs = true)
    (hrun : allocDescsLoop virq rounds i allocs s = .ok (enough, s')) :
    ∃ ptr, s.desc ptr = none ∧ (s'.desc ptr).isSome = true := by
  obtain ⟨rounds, rfl⟩ := Nat.exists_eq_succ_of_ne_zero hrounds.ne'
  rcases allocDescsLoop_cases h virq rounds i allocs with
    ⟨hcall, -⟩ | ⟨ptr, tree, table₁, hfree, -, -, hrepr, -, hloop⟩
  · rw [firstGranted, hcall] at hfirst
    cases hfirst
  · obtain ⟨enough', s₁, table₂, hrest, -, hframe, -⟩ :=
      @allocDescsLoop_grants (s.withDesc (add32 virq i) ptr tree) table₁ virq rounds (i + 1) hrepr
        allocs.tail
    rw [hloop, hrest] at hrun
    cases hrun
    have hlive : ((s.withDesc (add32 virq i) ptr tree).desc ptr).isSome = true := by
      simp [withDesc, setDesc]
    exact ⟨ptr, hfree, by rwa [hframe.desc ptr hlive]⟩

theorem setRevmap_frame {z : Int} (hset : s.setRevmap d hw z = .ok s') :
    s'.tree = s.tree ∧ s'.desc = s.desc := by
  unfold setRevmap at hset
  cases hdomain : s.domain d with
  | none =>
    rw [hdomain] at hset
    cases hset
  | some domain =>
    rw [hdomain] at hset
    dsimp only at hset
    split at hset
    · cases hset
      exact ⟨rfl, rfl⟩
    · cases hset

/-- **The loop of `irq_domain_alloc_irq_data`** that returns takes no descriptor away, and fails just
when a number is not in the tree. -/
theorem allocIrqDataLoop_leaves (hrun : allocIrqDataLoop d virq hw rounds i s = .ok (r, s'))
    (h : RadixRepr s.tree fun x => table x) :
    (∀ ptr, (s.desc ptr).isSome = true → (s'.desc ptr).isSome = true) ∧
      ((r = asInt32 virq ∧ ∀ j, i ≤ j → j < i + rounds → table (add32 virq j) ≠ none) ∨
        (r < 0 ∧ ∃ j, i ≤ j ∧ j < i + rounds ∧ table (add32 virq j) = none)) := by
  induction rounds generalizing s i with
  | zero =>
    rw [allocIrqDataLoop, Except.ok.injEq, Prod.mk.injEq] at hrun
    obtain ⟨rfl, rfl⟩ := hrun
    exact ⟨fun _ => id, Or.inl ⟨rfl, fun j hlow hhigh => absurd hlow (by omega)⟩⟩
  | succ rounds ih =>
    have hlook : s.fwkIrqToDesc (add32 virq i) = .ok (table (add32 virq i)) :=
      h.lookUp ⟨add32 virq i, add32_lt virq i⟩
    rw [allocIrqDataLoop, fwkIrqGetData, hlook] at hrun
    cases hat : table (add32 virq i) with
    | none =>
      rw [hat] at hrun
      obtain ⟨rfl, rfl⟩ := Prod.mk.inj (Except.ok.inj hrun)
      exact ⟨fun _ => id, Or.inr ⟨by decide, i, le_refl i, by omega, hat⟩⟩
    | some ptr =>
      rw [hat] at hrun
      cases hdesc : s.desc ptr with
      | none =>
        simp only [hdesc, bind, Except.bind, reduceCtorEq] at hrun
      | some desc =>
        simp only [hdesc, bind, Except.bind, pure, Except.pure] at hrun
        obtain ⟨s₁, htree, hkeep, hrest⟩ : ∃ s₁ : IrqMaps, s₁.tree = s.tree ∧
            (∀ x, (s.desc x).isSome = true → (s₁.desc x).isSome = true) ∧
            allocIrqDataLoop d virq hw rounds (i + 1) s₁ = .ok (r, s') := by
          set desc' : FwkIrqDesc := { desc with
            sgrtData := { desc.sgrtData with
              sprtDomain := some d
              irq := add32 virq i
              hwirq := add32 hw i
              sprtChip := some .sgrtFwkIrqDummyChip
              mask := 0 } }
          cases hset : (s.setDesc ptr (some desc')).setRevmap d (add32 hw i)
              (asInt32 (add32 virq i)) with
          | error stop =>
            rw [hset] at hrun
            cases hrun
          | ok s₁ =>
            rw [hset] at hrun
            obtain ⟨htree, hdescs⟩ := setRevmap_frame hset
            refine ⟨s₁, htree, fun x hx => ?_, hrun⟩
            rw [hdescs]
            by_cases hxp : x = ptr
            · simp [hxp, setDesc]
            · rw [show (s.setDesc ptr (some desc')).desc x = s.desc x from Function.update_of_ne hxp ..]
              exact hx
        rw [← htree] at h
        obtain ⟨hdescs, hres⟩ := ih hrest h
        refine ⟨fun x hx => hdescs x (hkeep x hx), ?_⟩
        rcases hres with ⟨hr, hevery⟩ | ⟨hr, j, hlow, hhigh, hnone⟩
        · refine Or.inl ⟨hr, fun j hlow hhigh => ?_⟩
          rcases Nat.eq_or_lt_of_le hlow with rfl | hlt
          · rw [hat]
            exact Option.some_ne_none ptr
          · exact hevery j hlt (by omega)
        · exact Or.inr ⟨hr, j, by omega, by omega, hnone⟩

/-- The call, when the search has returned and the loop has made its descriptors. -/
theorem allocIrqs_eq {s s₁ : IrqMaps} {base found : Int} {nr : Nat} {allocs : List DescAlloc}
    {enough : Bool}
    (hfound : fwkIrqBitmapFindAreas s.bitmap base fwkIrqDescMax nr = .ok found)
    (hloop : allocDescsLoop (asUint32 found) nr 0 allocs s = .ok (enough, s₁)) (d : ObjPtr)
    (hw : Nat) :
    s.fwkIrqDomainAllocIrqs d base hw nr allocs =
      if enough = true then
        if asInt32 (asUint32 found) < 0 then
          .ok (asInt32 (asUint32 found),
            { s₁ with
              bitmap := bitmapSetNrBitValid s₁.bitmap (asUint32 found) fwkIrqDescMax nr })
        else
          allocIrqDataLoop d (asUint32 found) hw nr 0
            { s₁ with
              bitmap := bitmapSetNrBitValid s₁.bitmap (asUint32 found) fwkIrqDescMax nr }
      else .ok (-erNomem, s₁) := by
  have huint : asUint32 (asInt32 (asUint32 found)) = asUint32 found := by
    apply asUint32_asInt32
    unfold asUint32
    omega
  rw [fwkIrqDomainAllocIrqs, fwkIrqDomainAllocDescs, hfound]
  simp only [bind, Except.bind, hloop]
  cases enough with
  | true => simp only [if_true, pure, Except.pure, huint, irqDomainAllocIrqData]
  | false => rfl

/-- A call that returns had a result from the search. -/
theorem allocIrqs_found {allocs : List DescAlloc}
    (hcall : s.fwkIrqDomainAllocIrqs d base hw nr allocs = .ok (r, s')) :
    ∃ found, fwkIrqBitmapFindAreas s.bitmap base fwkIrqDescMax nr = .ok found := by
  rw [fwkIrqDomainAllocIrqs, fwkIrqDomainAllocDescs] at hcall
  cases hfound : fwkIrqBitmapFindAreas s.bitmap base fwkIrqDescMax nr with
  | error stop =>
    rw [hfound] at hcall
    cases hcall
  | ok found => exact ⟨found, rfl⟩

/-- The call succeeds just when the search finds a range and nothing is refused. -/
theorem allocIrqs_succeeds_iff {allocs : List DescAlloc} (h : RadixRepr s.tree fun x => table x)
    (hnr : nr < 2 ^ 32) (hcall : s.fwkIrqDomainAllocIrqs d base hw nr allocs = .ok (r, s')) :
    0 ≤ r ↔ ∃ w : Nat, fwkIrqBitmapFindAreas s.bitmap base fwkIrqDescMax nr = .ok (w : Int) ∧
      s.NothingRefused w nr allocs := by
  have harea : Area s.bitmap fwkIrqDescMax nr
      (fwkIrqBitmapFindAreas s.bitmap base fwkIrqDescMax nr) :=
    findAreasLoop_area (by decide) hnr _ _
  have hnomem : ¬ (0 : Int) ≤ -erNomem := by decide
  obtain ⟨found, hfound⟩ := allocIrqs_found hcall
  obtain ⟨enough, s₁, table₁, hloop, hrepr, -, hgranted, hput⟩ :=
    @allocDescsLoop_grants s table (asUint32 found) nr 0 h allocs
  have hall := nothingRefused_iff hgranted hput hrepr
  rw [allocIrqs_eq hfound hloop] at hcall
  rw [hfound] at harea ⊢
  have hnumber : ∀ w : Nat, found = w → w < fwkIrqDescMax →
      (0 ≤ r ↔ ∃ w : Nat, (.ok found : Except Stop Int) = .ok (w : Int) ∧
        s.NothingRefused w nr allocs) := by
    rintro w rfl hw₁
    have hmax : fwkIrqDescMax = 1024 := rfl
    rw [asUint32_of_lt (by omega)] at hall hcall
    rw [asInt32_of_lt (by omega), if_neg (show ¬ (w : Int) < 0 by omega)] at hcall
    have hiff : (∃ w₁ : Nat, (.ok (w : Int) : Except Stop Int) = .ok (w₁ : Int) ∧
        s.NothingRefused w₁ nr allocs) ↔ s.NothingRefused w nr allocs := by
      constructor
      · rintro ⟨w₁, heq, hw₁⟩
        obtain rfl : w = w₁ := Int.ofNat.inj (Except.ok.inj heq)
        exact hw₁
      · exact fun hw₁ => ⟨w, rfl, hw₁⟩
    rw [hiff, hall]
    cases enough with
    | false =>
      obtain ⟨rfl, rfl⟩ := Prod.mk.inj (Except.ok.inj hcall)
      exact iff_of_false hnomem fun hbad => Bool.false_ne_true hbad.1
    | true =>
      rw [if_pos rfl] at hcall
      obtain ⟨-, ⟨hr, hevery⟩ | ⟨hneg, j, hlow, hhigh, hnone⟩⟩ :=
        allocIrqDataLoop_leaves hcall hrepr
      · rw [hr, asInt32_of_lt (by omega)]
        exact iff_of_true (Int.natCast_nonneg w) ⟨rfl, hevery⟩
      · exact iff_of_false (not_le.mpr hneg) fun hbad => hbad.2 j hlow hhigh hnone
  cases harea with
  | code r' hcode =>
    have hneg : asInt32 (asUint32 found) < 0 := by
      rcases hcode with rfl | rfl <;> decide
    refine iff_of_false ?_ ?_
    · rw [if_pos hneg] at hcall
      split at hcall
      · obtain ⟨rfl, rfl⟩ := Prod.mk.inj (Except.ok.inj hcall)
        exact not_le.mpr hneg
      · obtain ⟨rfl, rfl⟩ := Prod.mk.inj (Except.ok.inj hcall)
        exact hnomem
    · rintro ⟨w, heq, -⟩
      have heq := Except.ok.inj heq
      rcases hcode with rfl | rfl
      · have : (-1 : Int) < 0 := by decide
        unfold erMore at heq
        omega
      · omega
  | row w hend hrun => exact hnumber w rfl (by omega)
  | wraps w hlow hwrap => exact hnumber w rfl hlow

/-- A call that gets a descriptor keeps it. -/
theorem allocIrqs_leaves {allocs : List DescAlloc} (h : RadixRepr s.tree fun x => table x)
    (hpos : 0 < nr) (hfirst : s.firstGranted allocs = true)
    (hcall : s.fwkIrqDomainAllocIrqs d base hw nr allocs = .ok (r, s')) : ¬ s.Undone s' := by
  obtain ⟨found, hfound⟩ := allocIrqs_found hcall
  obtain ⟨enough, s₁, table₁, hloop, hrepr, -⟩ :=
    @allocDescsLoop_grants s table (asUint32 found) nr 0 h allocs
  obtain ⟨ptr, hnone, hlive⟩ := allocDescsLoop_leaves h hpos hfirst hloop
  rw [allocIrqs_eq hfound hloop] at hcall
  suffices hlive' : (s'.desc ptr).isSome = true by
    intro hundone
    have hold := hundone.desc ptr hlive'
    rw [hnone] at hold
    cases hold
  split at hcall
  · split at hcall
    · obtain ⟨rfl, rfl⟩ := Prod.mk.inj (Except.ok.inj hcall)
      exact hlive
    · exact (allocIrqDataLoop_leaves hcall hrepr).1 ptr hlive
  · obtain ⟨rfl, rfl⟩ := Prod.mk.inj (Except.ok.inj hcall)
    exact hlive

/-- A call that gets no descriptor has done nothing. -/
theorem allocIrqs_nothing {allocs : List DescAlloc} (h : RadixRepr s.tree fun x => table x)
    (hnone : nr = 0 ∨ s.firstGranted allocs = false)
    (hcall : s.fwkIrqDomainAllocIrqs d base hw nr allocs = .ok (r, s')) : s.Undone s' := by
  obtain ⟨found, hfound⟩ := allocIrqs_found hcall
  rcases Nat.eq_zero_or_pos nr with rfl | hpos
  · rw [allocIrqs_eq hfound (show allocDescsLoop (asUint32 found) 0 0 allocs s = .ok (true, s)
      from rfl), if_pos rfl] at hcall
    have hbits : bitmapSetNrBitValid s.bitmap (asUint32 found) fwkIrqDescMax 0 = s.bitmap := by
      have hstop : (asUint32 found + 0) % 2 ^ 32 = asUint32 found := by
        unfold asUint32
        omega
      simp only [bitmapSetNrBitValid, bitmapSetNrBit, hstop, Nat.sub_self, bitmapSetLoop, ite_self]
    rw [hbits] at hcall
    split at hcall
    · obtain ⟨rfl, rfl⟩ := Prod.mk.inj (Except.ok.inj hcall)
      exact ⟨rfl, fun _ _ => rfl, rfl, fun _ => id⟩
    · rw [allocIrqDataLoop] at hcall
      obtain ⟨rfl, rfl⟩ := Prod.mk.inj (Except.ok.inj hcall)
      exact ⟨rfl, fun _ _ => rfl, rfl, fun _ => id⟩
  · have hfirst := hnone.resolve_left hpos.ne'
    rw [allocIrqs_eq hfound (allocDescsLoop_refused h hpos hfirst),
      if_neg Bool.false_ne_true] at hcall
    obtain ⟨rfl, rfl⟩ := Prod.mk.inj (Except.ok.inj hcall)
    exact Undone.fail s

/-- **A call that fails has undone what it did just when it did nothing.**  In every state of the
maps, for every base, hardware number and count and whatever the memory gives, a negative code means
that nothing is left if and only if no interrupt was asked for, or the first descriptor was refused,
or the call cannot fail: there is a free range, every descriptor is granted, and every number gets
into the tree. -/
theorem allocIrqs_undone_iff {s s' : IrqMaps} {table : Nat → Option ObjPtr} {d : ObjPtr}
    {base r : Int} {hw nr : Nat} {allocs : List DescAlloc}
    (htree : RadixRepr s.tree fun v => table v) (hnr : nr < 2 ^ 32)
    (hcall : s.fwkIrqDomainAllocIrqs d base hw nr allocs = .ok (r, s')) :
    (r < 0 → s.Undone s') ↔
      nr = 0 ∨ s.firstGranted allocs = false ∨
        ∃ w : Nat, fwkIrqBitmapFindAreas s.bitmap base fwkIrqDescMax nr = .ok (w : Int) ∧
          s.NothingRefused w nr allocs := by
  rw [← allocIrqs_succeeds_iff htree hnr hcall, ← or_assoc]
  constructor
  · intro hundone
    by_cases hnone : nr = 0 ∨ s.firstGranted allocs = false
    · exact Or.inl hnone
    · obtain ⟨hpos, hfirst⟩ := not_or.mp hnone
      refine Or.inr (not_lt.mp fun hneg => ?_)
      exact allocIrqs_leaves htree (Nat.pos_of_ne_zero hpos) (Bool.eq_true_of_not_eq_false hfirst)
        hcall (hundone hneg)
  · rintro (hnone | hok) hneg
    · exact allocIrqs_nothing htree hnone hcall
    · exact absurd hneg (not_lt.mpr hok)

/-- Memory for one of two descriptors. -/
def shortAllocs : List DescAlloc :=
  [(some ⟨0x53500, by decide⟩, [some ⟨0x54500, by decide⟩])]

/-- The call for two interrupts fails, and the first descriptor stays. -/
theorem allocIrqs_short :
    ∃ r s', start.fwkIrqDomainAllocIrqs ⟨0x52500, by decide⟩ (-1) 0 2 shortAllocs = .ok (r, s') ∧
      r < 0 ∧ (s'.desc ⟨0x53500, by decide⟩).isSome = true := by
  have hrun : ((start.fwkIrqDomainAllocIrqs ⟨0x52500, by decide⟩ (-1) 0 2 shortAllocs).toOption.any
      fun x => decide (x.1 < 0) && (x.2.desc ⟨0x53500, by decide⟩).isSome) = true := by
    decide +kernel
  cases hcall : start.fwkIrqDomainAllocIrqs ⟨0x52500, by decide⟩ (-1) 0 2 shortAllocs with
  | error stop =>
    rw [hcall] at hrun
    cases hrun
  | ok x =>
    rw [hcall] at hrun
    obtain ⟨hneg, hlive⟩ := (Bool.and_eq_true ..).mp hrun
    exact ⟨x.1, x.2, rfl, of_decide_eq_true hneg, hlive⟩

theorem allocIrqs_undone_iff_short :
    ∃ r s', start.fwkIrqDomainAllocIrqs ⟨0x52500, by decide⟩ (-1) 0 2 shortAllocs = .ok (r, s') ∧
      ((r < 0 → start.Undone s') ↔ 2 = 0 ∨ start.firstGranted shortAllocs = false ∨
        ∃ w : Nat, fwkIrqBitmapFindAreas start.bitmap (-1) fwkIrqDescMax 2 = .ok (w : Int) ∧
          start.NothingRefused w 2 shortAllocs) := by
  obtain ⟨r, s', hcall, -, -⟩ := allocIrqs_short
  exact ⟨r, s', hcall, @allocIrqs_undone_iff _ _ (fun _ => none) _ _ _ _ _ _ radixRepr_start
    (by decide) hcall⟩

theorem failed_call_keeps_descriptor :
    ¬ ∀ (s s' : IrqMaps) (table : Nat → Option ObjPtr) (d : ObjPtr) (base r : Int) (hw nr : Nat)
      (allocs : List DescAlloc), s.Sound table → nr < 2 ^ 32 →
      s.fwkIrqDomainAllocIrqs d base hw nr allocs = .ok (r, s') → r < 0 → s.Undone s' := by
  intro hall
  obtain ⟨r, s', hcall, hneg, hlive⟩ := allocIrqs_short
  have hundone := hall start s' _ _ _ r _ _ _ sound_start (by decide) hcall hneg
  have hold := hundone.desc _ hlive
  cases hold

end IrqMaps

end HeavenFox.Platform
