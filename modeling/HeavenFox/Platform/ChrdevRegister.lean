/-
# HeavenFox.Platform.ChrdevRegister -- registering a range of device numbers

`fwk_register_chrdev` enters a range part by part, one for each major, and takes the parts
that it has entered back when one is refused.  The part of a refused range that is taken back ends
where a major ends, so it is split as it was before, and an entry is found again by its numbers
because all entries before it begin below (`registration_undone`).

A range without numbers of major 0 is in the registry after a success.  For major 0 the helper
looks for a major without entries, and a range that wraps has no part at all
(`registration_complete_iff`).
-/
import HeavenFox.Platform.Chrdev

namespace HeavenFox.Platform

open HeavenFox.Common HeavenFox.Logic

/-! ## One entry -/

/-- An entry is found again by its numbers. -/
theorem eraseP_insertChrdev {new : FwkCharDevice} {devs devs' : List FwkCharDevice}
    (h : insertChrdev new devs = some devs') :
    devs'.eraseP (FwkCharDevice.isRange new.baseminor new.count) = devs := by
  obtain ⟨l₁, l₂, rfl, rfl, hfront, -⟩ := insertChrdev_cases h
  have hne : ∀ dev ∈ l₁, ¬ dev.isRange new.baseminor new.count = true := by
    intro dev hdev hrange
    have hstop := hfront dev hdev
    -- the entries before it begin below it
    simp only [FwkCharDevice.isRange, Bool.and_eq_true, decide_eq_true_eq] at hrange
    simp [FwkCharDevice.stopsAt, hrange.1] at hstop
  rw [List.eraseP_append_right _ hne, List.eraseP_cons_of_pos (by simp [FwkCharDevice.isRange])]

theorem mem_insertChrdev {new : FwkCharDevice} {devs devs' : List FwkCharDevice}
    (h : insertChrdev new devs = some devs') : new ∈ devs' := by
  obtain ⟨l₁, l₂, -, rfl, -, -⟩ := insertChrdev_cases h
  exact List.mem_append_right _ List.mem_cons_self

/-! ## One part -/

variable {kmalloc : Nat → Bool} {s s' : Chrdevs} {n last : Nat}

/-- The range from `n` up to `last` has numbers of the major. -/
def HasPart (n last major : Nat) : Prop :=
  n < last ∧ n < (major + 1) * 2 ^ 20 ∧ major * 2 ^ 20 < last

/-- The part of the range that is in the major is entered: there is a list for the major, memory,
and no overlap. -/
def PartFits (kmalloc : Nat → Bool) (s : Chrdevs) (n last major : Nat) : Prop :=
  major < deviceMaxNum ∧ kmalloc (max n (major * 2 ^ 20)) = true ∧
    (insertChrdev ⟨major, max n (major * 2 ^ 20) - major * 2 ^ 20,
      min last ((major + 1) * 2 ^ 20) - max n (major * 2 ^ 20)⟩
        (s (Fin.ofNat deviceMaxNum major))).isSome = true

/-- The entry of the part that begins at `n`. -/
def partOf (i : Fin deviceMaxNum) (n last : Nat) : FwkCharDevice :=
  ⟨i, n % 2 ^ 20, nextPart n last - n⟩

section OneList

variable {memory : Bool} {major baseminor count : Nat} {i : Fin deviceMaxNum}

/-- An entry goes to the list of a major, if there is memory and nothing overlaps. -/
theorem registerEntry_entered {devs : List FwkCharDevice} (hcount : 0 < count)
    (hpick : (if major = 0 then emptyMajor s deviceMaxNum else some major) = some (i : Nat))
    (hinsert : insertChrdev ⟨i, baseminor, count⟩ (s i) = some devs) :
    __fwkRegisterChrdev true s major baseminor count =
      (some ⟨i, baseminor, count⟩, Function.update s i devs) := by
  have htable : ¬ deviceMaxNum ≤ (i : Nat) := Nat.not_le.mpr i.isLt
  simp only [__fwkRegisterChrdev, if_neg (Nat.ne_of_gt hcount), hpick, if_neg htable,
    Fin.ofNat_val_eq_self, hinsert, if_true]

theorem registerEntry_refused (hcount : 0 < count)
    (hpick : (if major = 0 then emptyMajor s deviceMaxNum else some major) = some (i : Nat))
    (hrefused : memory = false ∨ insertChrdev ⟨i, baseminor, count⟩ (s i) = none) :
    __fwkRegisterChrdev memory s major baseminor count = (none, s) := by
  have htable : ¬ deviceMaxNum ≤ (i : Nat) := Nat.not_le.mpr i.isLt
  simp only [__fwkRegisterChrdev, if_neg (Nat.ne_of_gt hcount), hpick, if_neg htable,
    Fin.ofNat_val_eq_self]
  rcases hrefused with rfl | hinsert
  · rfl
  · rw [hinsert]
    exact ite_self _

end OneList

theorem nextPart_eq (hmajor : n / 2 ^ 20 < deviceMaxNum) :
    nextPart n last = min last ((n / 2 ^ 20 + 1) * 2 ^ 20) := by
  have hmax : deviceMaxNum = 255 := rfl
  rw [nextPart, nextMajor_eq (by omega), if_pos (by omega)]

/-- **One part** of a range is entered or refused. -/
theorem registerPart_cases (kmalloc : Nat → Bool) (s : Chrdevs) (hdev : 2 ^ 20 ≤ n)
    (hn : n < last) (hlast : last < 2 ^ 32) :
    (¬ PartFits kmalloc s n last (n / 2 ^ 20) ∧
        __fwkRegisterChrdev (kmalloc n) s (getDevMajor n) (getDevMinor n)
          (sub32 (nextPart n last) n) = (none, s)) ∨
      ∃ (i : Fin deviceMaxNum) (devs : List FwkCharDevice), (i : Nat) = n / 2 ^ 20 ∧
        PartFits kmalloc s n last (n / 2 ^ 20) ∧ insertChrdev (partOf i n last) (s i) = some devs ∧
        __fwkRegisterChrdev (kmalloc n) s (getDevMajor n) (getDevMinor n)
          (sub32 (nextPart n last) n) = (some (partOf i n last), Function.update s i devs) := by
  have hmajor : getDevMajor n ≠ 0 := by
    rw [getDevMajor_eq]
    omega
  by_cases htable : n / 2 ^ 20 < deviceMaxNum
  swap
  · -- there is no list for the major
    refine Or.inl ⟨fun h => htable h.1, ?_⟩
    rw [__fwkRegisterChrdev]
    by_cases hcount : sub32 (nextPart n last) n = 0
    · rw [if_pos hcount]
    · rw [if_neg hcount, if_neg hmajor, getDevMajor_eq]
      exact if_pos (Nat.le_of_not_lt htable)
  have hnext : nextPart n last = min last ((n / 2 ^ 20 + 1) * 2 ^ 20) := nextPart_eq htable
  have hcount : sub32 (nextPart n last) n = nextPart n last - n :=
    sub32_of_le (by omega) (by omega)
  have hmax : max n (n / 2 ^ 20 * 2 ^ 20) = n := by omega
  have hminor : n - n / 2 ^ 20 * 2 ^ 20 = n % 2 ^ 20 := by omega
  obtain ⟨i, hi⟩ : ∃ i : Fin deviceMaxNum, (i : Nat) = n / 2 ^ 20 := ⟨⟨_, htable⟩, rfl⟩
  have hindex : Fin.ofNat deviceMaxNum (n / 2 ^ 20) = i := by
    rw [← hi]
    exact Fin.ofNat_val_eq_self i
  have hpick : (if n / 2 ^ 20 = 0 then emptyMajor s deviceMaxNum else some (n / 2 ^ 20)) =
      some (i : Nat) := by
    rw [if_neg (by omega), hi]
  have hfits : PartFits kmalloc s n last (n / 2 ^ 20) ↔
      kmalloc n = true ∧ (insertChrdev (partOf i n last) (s i)).isSome = true := by
    rw [PartFits, hmax, hminor, ← hnext, hindex, and_iff_right htable, partOf, hi]
  have hpos : 0 < nextPart n last - n := by omega
  rw [hfits, hcount, getDevMajor_eq, getDevMinor_eq]
  cases hmemory : kmalloc n with
  | false =>
    exact Or.inl ⟨fun h => Bool.false_ne_true h.1,
      registerEntry_refused hpos hpick (Or.inl rfl)⟩
  | true =>
    cases hinsert : insertChrdev (partOf i n last) (s i) with
    | none =>
      exact Or.inl ⟨fun h => Bool.false_ne_true h.2,
        registerEntry_refused hpos hpick (Or.inr hinsert)⟩
    | some devs =>
      exact Or.inr ⟨i, devs, hi, ⟨rfl, rfl⟩, hinsert,
        registerEntry_entered hpos hpick hinsert⟩

/-! ## Taking parts back -/

theorem unregisterEntry_eq {baseminor count : Nat} {i : Fin deviceMaxNum} (hcount : 0 < count) :
    (__fwkUnregisterChrdev s i baseminor count).2 =
      Function.update s i ((s i).eraseP (FwkCharDevice.isRange baseminor count)) := by
  have hgo : ¬ (deviceMaxNum ≤ (i : Nat) ∨ count = 0) :=
    not_or.mpr ⟨Nat.not_le.mpr i.isLt, Nat.ne_of_gt hcount⟩
  rw [__fwkUnregisterChrdev, if_neg hgo]
  simp only [Fin.ofNat_val_eq_self]

/-- The lists of other majors are not looked at. -/
theorem unregisterEntry_update {major baseminor count : Nat} {i : Fin deviceMaxNum}
    {devs : List FwkCharDevice} (hi : (i : Nat) ≠ major) :
    (__fwkUnregisterChrdev (Function.update s i devs) major baseminor count).2 =
      Function.update (__fwkUnregisterChrdev s major baseminor count).2 i devs := by
  by_cases hskip : deviceMaxNum ≤ major ∨ count = 0
  · rw [__fwkUnregisterChrdev, __fwkUnregisterChrdev, if_pos hskip, if_pos hskip]
  · rw [not_or, Nat.not_le] at hskip
    obtain ⟨j, rfl⟩ : ∃ j : Fin deviceMaxNum, (j : Nat) = major := ⟨⟨major, hskip.1⟩, rfl⟩
    have hcount := Nat.pos_of_ne_zero hskip.2
    have hne : j ≠ i := fun h => hi (h ▸ rfl)
    rw [unregisterEntry_eq hcount, unregisterEntry_eq hcount, Function.update_of_ne hne,
      Function.update_comm hne]

theorem unregisterLoop_update {k : Nat} {i : Fin deviceMaxNum} {devs : List FwkCharDevice}
    (hlast : last ≤ 4095 * 2 ^ 20) (hi : (i : Nat) < n / 2 ^ 20) :
    unregisterLoop last k n (Function.update s i devs) =
      (unregisterLoop last k n s).map fun s' => Function.update s' i devs := by
  induction k generalizing n s with
  | zero => rfl
  | succ k ih =>
    rw [unregisterLoop, unregisterLoop]
    by_cases hn : n < last
    · have hne : (i : Nat) ≠ getDevMajor n := by
        rw [getDevMajor_eq]
        omega
      have hnext : (i : Nat) < nextPart n last / 2 ^ 20 := by
        rcases nextPart_cases hn hlast with hend | ⟨-, hnext⟩ <;> omega
      rw [if_pos hn, if_pos hn, unregisterEntry_update hne, ih hnext]
    · rw [if_neg hn, if_neg hn]
      rfl

/-- **One part is taken back.**  What lies behind it is taken back later, from other lists. -/
theorem unregisterLoop_part {k last' : Nat} {i : Fin deviceMaxNum} {devs : List FwkCharDevice}
    (hi : (i : Nat) = n / 2 ^ 20) (hn : n < last) (hlast : last < 2 ^ 32)
    (hinsert : insertChrdev (partOf i n last) (s i) = some devs) (hs' : s' i = devs)
    (hn' : n < last') (hlast' : last' ≤ 4095 * 2 ^ 20) (hsame : nextPart n last' = nextPart n last)
    (hrest : unregisterLoop last' k (nextPart n last) s' = .ok (Function.update s i devs)) :
    unregisterLoop last' (k + 1) n s' = .ok s := by
  have htable : n / 2 ^ 20 < deviceMaxNum := hi ▸ i.isLt
  have hnext : nextPart n last = min last ((n / 2 ^ 20 + 1) * 2 ^ 20) := nextPart_eq htable
  have hcount : sub32 (nextPart n last) n = nextPart n last - n :=
    sub32_of_le (by omega) (by omega)
  have herase : devs.eraseP (FwkCharDevice.isRange (n % 2 ^ 20) (nextPart n last - n)) = s i :=
    eraseP_insertChrdev hinsert
  have hpart : (__fwkUnregisterChrdev s' (getDevMajor n) (getDevMinor n)
      (sub32 (nextPart n last) n)).2 = Function.update s' i (s i) := by
    rw [getDevMajor_eq, getDevMinor_eq, hcount, ← hi, unregisterEntry_eq (by omega), hs', herase]
  rw [unregisterLoop, if_pos hn', hsame, hpart]
  by_cases hend : nextPart n last = last'
  · -- nothing lies behind
    cases k with
    | zero => cases hrest
    | succ k =>
      rw [unregisterLoop_done (Nat.le_of_eq hend.symm)] at hrest ⊢
      rw [Except.ok.inj hrest, Function.update_idem, Function.update_eq_self]
  · have hbehind : (i : Nat) < nextPart n last / 2 ^ 20 := by
      rcases nextPart_cases hn' hlast' with hend' | ⟨-, hnext'⟩
      · exact absurd (hsame.symm.trans hend') hend
      · rw [hsame] at hnext'
        omega
    rw [unregisterLoop_update hlast' hbehind, hrest]
    show Except.ok (Function.update (Function.update s i devs) i (s i)) = _
    rw [Function.update_idem, Function.update_eq_self]

/-! ## All parts -/

/-- The number is in a registered range, in the list of its own major. -/
def Chrdevs.Covers (s : Chrdevs) (devNum : Nat) : Prop :=
  ∃ i : Fin deviceMaxNum, (i : Nat) = getDevMajor devNum ∧
    ∃ dev ∈ s i, dev.range.Holds (getDevMinor devNum)

theorem Chrdevs.Covers.congr {x : Nat} (h : s.Covers x)
    (hsame : ∀ i : Fin deviceMaxNum, (i : Nat) = x / 2 ^ 20 → s' i = s i) : s'.Covers x := by
  obtain ⟨i, hi, dev, hdev, hholds⟩ := h
  refine ⟨i, hi, dev, ?_, hholds⟩
  rw [getDevMajor_eq] at hi
  rwa [hsame i hi]

/-- A range whose parts are all entered. -/
structure Registered (kmalloc : Nat → Bool) (s s' : Chrdevs) (n last : Nat) : Prop where
  parts : ∀ major, HasPart n last major → PartFits kmalloc s n last major
  covers : ∀ x, n ≤ x → x < last → s'.Covers x
  below : ∀ i : Fin deviceMaxNum, (i : Nat) < n / 2 ^ 20 → s' i = s i
  undone : ∀ k, 4096 ≤ n / 2 ^ 20 + k → unregisterLoop last k n s' = .ok s

/-- A range that has a part which is refused, with those before it entered up to `stop`. -/
structure Refused (kmalloc : Nat → Bool) (s s' : Chrdevs) (n last stop : Nat) : Prop where
  part : ∃ major, HasPart n last major ∧ ¬ PartFits kmalloc s n last major
  le : n ≤ stop
  room : stop = n ∨ stop ≤ deviceMaxNum * 2 ^ 20
  below : ∀ i : Fin deviceMaxNum, (i : Nat) < n / 2 ^ 20 → s' i = s i
  undone : ∀ k, 4096 ≤ n / 2 ^ 20 + k → unregisterLoop stop k n s' = .ok s

theorem Registered.nil (hn : last ≤ n) (hword : n < 2 ^ 32) : Registered kmalloc s s n last where
  parts := fun major h => absurd h.1 (Nat.not_lt.mpr hn)
  covers := fun x hlow hhigh => absurd (Nat.lt_of_le_of_lt hlow hhigh) (Nat.not_lt.mpr hn)
  below := fun _ _ => rfl
  undone := by
    intro k hk
    obtain ⟨k, rfl⟩ : ∃ k', k = k' + 1 := ⟨k - 1, by omega⟩
    exact unregisterLoop_done hn

section Cons

variable {i : Fin deviceMaxNum} {devs : List FwkCharDevice}

/-- The numbers of a part are in its entry. -/
theorem covers_part (hi : (i : Nat) = n / 2 ^ 20) (hinsert : insertChrdev (partOf i n last) (s i) =
    some devs) (hs' : s' i = devs) {x : Nat} (hlow : n ≤ x) (hhigh : x < nextPart n last) :
    s'.Covers x := by
  have hnext : nextPart n last = min last ((n / 2 ^ 20 + 1) * 2 ^ 20) :=
    nextPart_eq (hi ▸ i.isLt)
  refine ⟨i, ?_, partOf i n last, hs' ▸ mem_insertChrdev hinsert, ?_⟩
  · rw [getDevMajor_eq]
    omega
  · show n % 2 ^ 20 ≤ getDevMinor x ∧ getDevMinor x < n % 2 ^ 20 + (nextPart n last - n)
    rw [getDevMinor_eq]
    omega

/-- The parts behind the first are those of the rest, in lists that the first does not touch. -/
theorem partFits_rest {major : Nat} (hi : (i : Nat) = n / 2 ^ 20)
    (hbound : nextPart n last = (n / 2 ^ 20 + 1) * 2 ^ 20) (hmajor : n / 2 ^ 20 < major) :
    PartFits kmalloc (Function.update s i devs) (nextPart n last) last major ↔
      PartFits kmalloc s n last major := by
  have hmax : max (nextPart n last) (major * 2 ^ 20) = max n (major * 2 ^ 20) := by omega
  rw [PartFits, PartFits, hmax]
  apply and_congr_right
  intro htable
  have hne : Fin.ofNat deviceMaxNum major ≠ i := by
    rintro rfl
    rw [Fin.val_ofNat, Nat.mod_eq_of_lt htable] at hi
    omega
  rw [Function.update_of_ne hne]

/-- The range is entered if its first part is and the rest is. -/
theorem Registered.of_part (hi : (i : Nat) = n / 2 ^ 20) (hn : n < last) (hlast : last < 2 ^ 32)
    (hfits : PartFits kmalloc s n last (n / 2 ^ 20))
    (hinsert : insertChrdev (partOf i n last) (s i) = some devs) (hs' : s' i = devs)
    (hparts : ∀ major, n / 2 ^ 20 < major → HasPart n last major → PartFits kmalloc s n last major)
    (hcovers : ∀ x, nextPart n last ≤ x → x < last → s'.Covers x)
    (hbelow : ∀ j : Fin deviceMaxNum, (j : Nat) < n / 2 ^ 20 → s' j = s j)
    (hundone : ∀ k, 4095 ≤ n / 2 ^ 20 + k →
      unregisterLoop last k (nextPart n last) s' = .ok (Function.update s i devs)) :
    Registered kmalloc s s' n last where
  parts := by
    intro major hpart
    rcases Nat.lt_trichotomy (n / 2 ^ 20) major with hlt | rfl | hgt
    · exact hparts major hlt hpart
    · exact hfits
    · have := hpart.2.1
      omega
  covers := by
    intro x hlow hhigh
    rcases Nat.lt_or_ge x (nextPart n last) with hlt | hge
    · exact covers_part hi hinsert hs' hlow hlt
    · exact hcovers x hge hhigh
  below := hbelow
  undone := by
    intro k hk
    have hmax : deviceMaxNum = 255 := rfl
    have htable := i.isLt
    -- behind the last list no part would be entered
    have hend : last ≤ 255 * 2 ^ 20 := by
      by_contra hlong
      have hpart : HasPart n last 255 := ⟨hn, by omega, by omega⟩
      exact Nat.lt_irrefl _ (hparts 255 (by omega) hpart).1
    obtain ⟨k, rfl⟩ : ∃ k', k = k' + 1 := ⟨k - 1, by omega⟩
    exact unregisterLoop_part hi hn hlast hinsert hs' hn (by omega) rfl (hundone k (by omega))

/-- The range is refused if its first part is entered and the rest is refused. -/
theorem Refused.of_part {stop : Nat} (hi : (i : Nat) = n / 2 ^ 20) (hn : n < last)
    (hlast : last < 2 ^ 32) (hinsert : insertChrdev (partOf i n last) (s i) = some devs)
    (hbound : nextPart n last = (n / 2 ^ 20 + 1) * 2 ^ 20)
    (h : Refused kmalloc (Function.update s i devs) s' (nextPart n last) last stop) :
    Refused kmalloc s s' n last stop where
  part := by
    obtain ⟨major, ⟨hmore, hlow, hhigh⟩, hnot⟩ := h.part
    refine ⟨major, ⟨hn, by omega, hhigh⟩, fun hfits => hnot ?_⟩
    exact (partFits_rest hi hbound (by omega)).mpr hfits
  le := by
    have hle := h.le
    omega
  room := by
    have hmax : deviceMaxNum = 255 := rfl
    have htable := i.isLt
    have hroom := h.room
    omega
  below := by
    intro j hj
    rw [h.below j (by omega)]
    exact Function.update_of_ne (fun hji => by rw [hji] at hj; omega) _ _
  undone := by
    intro k hk
    have hmax : deviceMaxNum = 255 := rfl
    have htable := i.isLt
    have hroom := h.room
    have hle := h.le
    have hsame : nextPart n stop = nextPart n last := by
      rw [nextPart_eq (by omega), hbound]
      omega
    have hs' : s' i = devs := by
      rw [h.below i (by omega), Function.update_self]
    obtain ⟨k, rfl⟩ : ∃ k', k = k' + 1 := ⟨k - 1, by omega⟩
    exact unregisterLoop_part hi hn hlast hinsert hs' (by omega) (by omega) hsame
      (h.undone k (by omega))

end Cons

/-- **The loop** enters all parts, or takes back those it has entered when it comes to one that is
refused. -/
theorem registerLoop_spec (kmalloc : Nat → Bool) (devNum : Nat) {k : Nat} (hdev : 2 ^ 20 ≤ n)
    (hword : n < 2 ^ 32) (hlast : last < 2 ^ 32) (hk : 4096 ≤ n / 2 ^ 20 + k) (s : Chrdevs) :
    (∃ s', registerLoop kmalloc devNum last k n s = .ok (erNormal, s') ∧
        Registered kmalloc s s' n last) ∨
      ∃ s' stop, Refused kmalloc s s' n last stop ∧
        registerLoop kmalloc devNum last k n s =
          (fwkUnregisterChrdev s' devNum (sub32 stop devNum)).map fun s => (-erFaild, s) := by
  induction k generalizing n s with
  | zero => omega
  | succ k ih =>
    rw [registerLoop]
    by_cases hn : n < last
    swap
    · rw [if_neg hn]
      exact Or.inl ⟨s, rfl, Registered.nil (Nat.le_of_not_lt hn) hword⟩
    rw [if_pos hn]
    rcases registerPart_cases kmalloc s hdev hn hlast with
      ⟨hnot, hcall⟩ | ⟨i, devs, hi, hfits, hinsert, hcall⟩
    · rw [hcall]
      refine Or.inr ⟨s, n, ⟨⟨n / 2 ^ 20, ⟨hn, by omega, by omega⟩, hnot⟩, le_refl n, Or.inl rfl,
        fun _ _ => rfl, ?_⟩, ?_⟩
      · have hnil : Registered kmalloc s s n n := Registered.nil (le_refl n) hword
        exact hnil.undone
      · dsimp only
        cases fwkUnregisterChrdev s devNum (sub32 n devNum) with
        | error stop => rfl
        | ok s' => rfl
    · have hmax : deviceMaxNum = 255 := rfl
      have htable := i.isLt
      have hnext : nextPart n last = min last ((n / 2 ^ 20 + 1) * 2 ^ 20) := nextPart_eq (by omega)
      rw [hcall]
      by_cases hend : nextPart n last = last
      · -- it was the last part
        obtain ⟨k, rfl⟩ : ∃ k', k = k' + 1 := ⟨k - 1, by omega⟩
        refine Or.inl ⟨Function.update s i devs, ?_, ?_⟩
        · rw [hend]
          exact registerLoop_done (le_refl last)
        · apply Registered.of_part hi hn hlast hfits hinsert (Function.update_self ..)
          · intro major hmajor hpart
            have := hpart.2.2
            omega
          · intro x hlow hhigh
            omega
          · intro j hj
            exact Function.update_of_ne (fun h => by rw [h] at hj; omega) _ _
          · intro k' hk'
            obtain ⟨k', rfl⟩ : ∃ k'', k' = k'' + 1 := ⟨k' - 1, by omega⟩
            exact unregisterLoop_done hend.ge
      · have hbound : nextPart n last = (n / 2 ^ 20 + 1) * 2 ^ 20 := by omega
        rcases @ih (nextPart n last) (by omega) (by omega) (by omega)
          (Function.update s i devs) with ⟨s', hrun, hrest⟩ | ⟨s', stop, hrest, hrun⟩
        · refine Or.inl ⟨s', hrun, ?_⟩
          have hs' : s' i = devs := by
            rw [hrest.below i (by omega), Function.update_self]
          apply Registered.of_part hi hn hlast hfits hinsert hs'
          · intro major hmajor hpart
            rw [← partFits_rest hi hbound hmajor]
            have := hpart.2.2
            exact hrest.parts major ⟨by omega, by omega, by omega⟩
          · exact hrest.covers
          · intro j hj
            rw [hrest.below j (by omega)]
            exact Function.update_of_ne (fun h => by rw [h] at hj; omega) _ _
          · intro k' hk'
            exact hrest.undone k' (by omega)
        · exact Or.inr ⟨s', stop, hrest.of_part hi hn hlast hinsert hbound, hrun⟩

/-- **All or nothing.**  From every registry, for a range with no number of major 0 that does not
wrap: a registration that fails leaves the registry as it was, and after one that succeeds taking
the range back does. -/
theorem registration_undone (kmalloc : Nat → Bool) (s : Chrdevs) {devNum count : Nat}
    (hmajor : 1 ≤ getDevMajor devNum) (hwrap : devNum + count < 2 ^ 32) :
    ∃ retval s', fwkRegisterChrdev kmalloc s devNum count = .ok (retval, s') ∧
      (retval ≠ erNormal → s' = s) ∧
      (retval = erNormal → fwkUnregisterChrdev s' devNum count = .ok s) := by
  rw [getDevMajor_eq] at hmajor
  have hlast : add32 devNum count = devNum + count := add32_of_lt hwrap
  have hrounds : 4096 ≤ devNum / 2 ^ 20 + majorRounds := by
    unfold majorRounds
    omega
  rcases registerLoop_spec kmalloc devNum (by omega) (by omega) hwrap
    hrounds s with ⟨s', hrun, hdone⟩ | ⟨s', stop, hrefused, hrun⟩
  · refine ⟨erNormal, s', by rwa [fwkRegisterChrdev, hlast], fun hne => absurd rfl hne, fun _ => ?_⟩
    rw [fwkUnregisterChrdev, hlast]
    exact hdone.undone _ hrounds
  · have hmax : deviceMaxNum = 255 := rfl
    have hle := hrefused.le
    have hroom := hrefused.room
    have hstop : add32 devNum (sub32 stop devNum) = stop := by
      rw [sub32_of_le hle (by omega), add32_of_lt (by omega), Nat.add_sub_cancel' hle]
    refine ⟨-erFaild, s, ?_, fun _ => rfl, fun heq => absurd heq (by decide)⟩
    rw [fwkRegisterChrdev, hlast, hrun, fwkUnregisterChrdev, hstop, hrefused.undone _ hrounds]
    rfl

/-- A registry with one entry, of major 6. -/
def oneChrdev : Chrdevs := fun i => if (i : Nat) = 6 then [⟨6, 8, 4⟩] else []

/-- A range over two majors overlaps the entry and is taken back; one that ends below does not. -/
theorem registration_undone_overlap :
    (∃ retval s', fwkRegisterChrdev (fun _ => true) oneChrdev 0x5ffff0 32 = .ok (retval, s') ∧
        (retval ≠ erNormal → s' = oneChrdev) ∧
        (retval = erNormal → fwkUnregisterChrdev s' 0x5ffff0 32 = .ok oneChrdev)) ∧
      ∃ retval s', fwkRegisterChrdev (fun _ => true) oneChrdev 0x5ffff0 24 = .ok (retval, s') ∧
        (retval ≠ erNormal → s' = oneChrdev) ∧
        (retval = erNormal → fwkUnregisterChrdev s' 0x5ffff0 24 = .ok oneChrdev) :=
  ⟨registration_undone (fun _ => true) oneChrdev (by decide) (by decide),
    registration_undone (fun _ => true) oneChrdev (by decide) (by decide)⟩

/-! ## Major 0 -/

theorem emptyMajor_some {k major : Nat} (hk : k ≤ deviceMaxNum) (h : emptyMajor s k = some major) :
    ∃ i : Fin deviceMaxNum, (i : Nat) = major ∧ s i = [] := by
  induction k with
  | zero => cases h
  | succ k ih =>
    rw [emptyMajor] at h
    by_cases hempty : s (Fin.ofNat deviceMaxNum k) = []
    · rw [if_pos hempty] at h
      refine ⟨Fin.ofNat deviceMaxNum k, ?_, hempty⟩
      rw [← Option.some.inj h]
      exact Nat.mod_eq_of_lt hk
    · rw [if_neg hempty] at h
      exact ih (by omega) h

/-- The part that is in major 0. -/
def firstPart (i : Fin deviceMaxNum) (devNum last : Nat) : FwkCharDevice :=
  ⟨i, devNum, min last (2 ^ 20) - devNum⟩

/-- The part in major 0 is entered in a list without entries, if there are one and memory. -/
theorem registerFirst_cases (kmalloc : Nat → Bool) (s : Chrdevs) (hdev : n < 2 ^ 20)
    (hn : n < last) (hlast : last < 2 ^ 32) :
    (__fwkRegisterChrdev (kmalloc n) s (getDevMajor n) (getDevMinor n)
          (sub32 (nextPart n last) n) = (none, s) ∧
        ¬ (kmalloc n = true ∧ ∃ i : Fin deviceMaxNum, emptyMajor s deviceMaxNum = some (i : Nat))) ∨
      ∃ i : Fin deviceMaxNum, emptyMajor s deviceMaxNum = some (i : Nat) ∧ kmalloc n = true ∧
        __fwkRegisterChrdev (kmalloc n) s (getDevMajor n) (getDevMinor n)
          (sub32 (nextPart n last) n) =
            (some (firstPart i n last), Function.update s i [firstPart i n last]) := by
  have hzero : n / 2 ^ 20 = 0 := by omega
  have hnext : nextPart n last = min last (2 ^ 20) := by
    rw [nextPart_eq (by rw [hzero]; decide), hzero, Nat.zero_add, Nat.one_mul]
  have hcount : sub32 (nextPart n last) n = min last (2 ^ 20) - n := by
    rw [hnext, sub32_of_le (by omega) (by omega)]
  have hpos : 0 < min last (2 ^ 20) - n := by omega
  have hminor : getDevMinor n = n := by
    rw [getDevMinor_eq]
    omega
  rw [hcount, hminor, getDevMajor_eq, hzero]
  cases hpick : emptyMajor s deviceMaxNum with
  | none =>
    refine Or.inl ⟨?_, ?_⟩
    · simp only [__fwkRegisterChrdev, if_neg (Nat.ne_of_gt hpos), if_true, hpick]
    · rintro ⟨-, i, hi⟩
      cases hi
  | some major =>
    obtain ⟨i, rfl, hempty⟩ := emptyMajor_some (le_refl _) hpick
    have hinsert : insertChrdev ⟨i, n, min last (2 ^ 20) - n⟩ (s i) = some [firstPart i n last] := by
      rw [hempty]
      rfl
    cases kmalloc n with
    | false =>
      exact Or.inl ⟨registerEntry_refused hpos hpick (Or.inl rfl),
        fun h => Bool.false_ne_true h.1⟩
    | true => exact Or.inr ⟨i, rfl, rfl, registerEntry_entered hpos hpick hinsert⟩

/-- The numbers of major 0 in the range go to the list of another major, and all other parts of the
range are entered. -/
structure GoesElsewhere (kmalloc : Nat → Bool) (s : Chrdevs) (devNum last : Nat)
    (i : Fin deviceMaxNum) : Prop where
  low : devNum < 2 ^ 20
  memory : kmalloc devNum = true
  empty : emptyMajor s deviceMaxNum = some (i : Nat)
  other : (i : Nat) ≠ 0
  rest : ∀ major, 1 ≤ major → major * 2 ^ 20 < last →
    PartFits kmalloc (Function.update s i [firstPart i devNum last]) devNum last major

/-- After a success every number of the range is in a registered range, under its own major. -/
def RegistersAll (kmalloc : Nat → Bool) (s : Chrdevs) (devNum count : Nat) : Prop :=
  ∀ s', fwkRegisterChrdev kmalloc s devNum count = .ok (erNormal, s') →
    ∀ x, devNum ≤ x → x < devNum + count → s'.Covers x

/-- A range that wraps is registered without any of its numbers. -/
theorem not_registersAll_of_wrap {devNum count : Nat} (hdev : devNum < 2 ^ 32)
    (hcount : count < 2 ^ 32) (hwrap : 2 ^ 32 ≤ devNum + count) :
    ¬ RegistersAll kmalloc s devNum count := by
  intro h
  have hdone : fwkRegisterChrdev kmalloc s devNum count = .ok (erNormal, s) := by
    apply registerLoop_done
    unfold add32
    omega
  -- the last number there is has a major without a list
  obtain ⟨i, hi, -⟩ := h s hdone (2 ^ 32 - 1) (by omega) (by omega)
  have htable := i.isLt
  have hmax : deviceMaxNum = 255 := rfl
  rw [getDevMajor_eq] at hi
  omega

theorem map_erFaild_ne {result : Except Stop Chrdevs} :
    result.map (fun s => (-erFaild, s)) ≠ .ok (erNormal, s') := by
  intro h
  cases result with
  | error e => cases h
  | ok s =>
    have hcode : -erFaild = erNormal := congrArg Prod.fst (Except.ok.inj h)
    exact absurd hcode (by decide)

theorem registersAll_of_major {devNum count : Nat} (hmajor : 2 ^ 20 ≤ devNum)
    (hwrap : devNum + count < 2 ^ 32) : RegistersAll kmalloc s devNum count := by
  intro s' hcall
  have hrounds : 4096 ≤ devNum / 2 ^ 20 + majorRounds := by
    unfold majorRounds
    omega
  rw [fwkRegisterChrdev, add32_of_lt hwrap] at hcall
  rcases registerLoop_spec kmalloc devNum hmajor (by omega) hwrap hrounds s
    with ⟨s₁, hrun, hdone⟩ | ⟨s₁, stop, -, hrun⟩
  · cases hrun.symm.trans hcall
    exact hdone.covers
  · exact absurd (hrun.symm.trans hcall) map_erFaild_ne

/-- Where a part of a later major begins does not depend on where the range begins. -/
theorem partFits_start {devNum major : Nat} (hdev : devNum < 2 ^ 20) (hmajor : 1 ≤ major) :
    PartFits kmalloc s (2 ^ 20) last major ↔ PartFits kmalloc s devNum last major := by
  have hmax : max (2 ^ 20) (major * 2 ^ 20) = max devNum (major * 2 ^ 20) := by omega
  rw [PartFits, PartFits, hmax]

/-- What a range that begins in major 0 leaves, once its first part is entered. -/
theorem registerLoop_first {devNum : Nat} {i : Fin deviceMaxNum} (hdev : devNum < 2 ^ 20)
    (hn : devNum < last) (hlast : last < 2 ^ 32)
    (hcall : __fwkRegisterChrdev (kmalloc devNum) s (getDevMajor devNum) (getDevMinor devNum)
      (sub32 (nextPart devNum last) devNum) =
        (some (firstPart i devNum last), Function.update s i [firstPart i devNum last])) :
    (∃ s', registerLoop kmalloc devNum last majorRounds devNum s = .ok (erNormal, s') ∧
        (∀ x, 2 ^ 20 ≤ x → x < last → s'.Covers x) ∧
        s' 0 = Function.update s i [firstPart i devNum last] 0 ∧
        ∀ major, 1 ≤ major → major * 2 ^ 20 < last →
          PartFits kmalloc (Function.update s i [firstPart i devNum last]) devNum last major) ∨
      (∃ major, 1 ≤ major ∧ major * 2 ^ 20 < last ∧
          ¬ PartFits kmalloc (Function.update s i [firstPart i devNum last]) devNum last major) ∧
        ∀ s', registerLoop kmalloc devNum last majorRounds devNum s ≠ .ok (erNormal, s') := by
  have hzero : devNum / 2 ^ 20 = 0 := by omega
  have hnext : nextPart devNum last = min last (2 ^ 20) := by
    rw [nextPart_eq (by rw [hzero]; decide), hzero, Nat.zero_add, Nat.one_mul]
  rw [majorRounds, registerLoop, if_pos hn, hcall, hnext]
  dsimp only
  rcases Nat.lt_or_ge (2 ^ 20) last with hmore | hend
  · rw [Nat.min_eq_right hmore.le]
    rcases registerLoop_spec kmalloc devNum (le_refl _) (by decide) hlast
      (show 4096 ≤ 2 ^ 20 / 2 ^ 20 + 2 ^ 12 by decide) (Function.update s i [firstPart i devNum last]) with
      ⟨s', hrun, hdone⟩ | ⟨s', stop, hrefused, hrun⟩
    · refine Or.inl ⟨s', hrun, hdone.covers, hdone.below 0 (by decide), ?_⟩
      intro major hmajor hlow
      rw [← partFits_start hdev hmajor]
      exact hdone.parts major ⟨hmore, by omega, hlow⟩
    · obtain ⟨major, ⟨-, hlow, hhigh⟩, hnot⟩ := hrefused.part
      refine Or.inr ⟨⟨major, by omega, hhigh, ?_⟩, ?_⟩
      · rwa [← partFits_start hdev (by omega)]
      · intro s'' hcall'
        exact map_erFaild_ne (hrun.symm.trans hcall')
  · -- there is no other part
    rw [Nat.min_eq_left hend]
    refine Or.inl ⟨_, registerLoop_done (le_refl last), ?_, rfl, ?_⟩
    · intro x hlow hhigh
      omega
    · intro major hmajor hlow
      omega

/-- **Success means registered.**  A registration of at least one number is in the registry after a
success exactly if the range does not wrap and, where its numbers of major 0 go elsewhere, they
were registered before. -/
theorem registration_complete_iff (kmalloc : Nat → Bool) (s : Chrdevs) {devNum count : Nat}
    (hdev : devNum < 2 ^ 32) (hcount : count < 2 ^ 32) (hpos : 1 ≤ count) :
    RegistersAll kmalloc s devNum count ↔
      devNum + count < 2 ^ 32 ∧ ∀ i, GoesElsewhere kmalloc s devNum (devNum + count) i →
        ∀ x, devNum ≤ x → x < devNum + count → x < 2 ^ 20 → s.Covers x := by
  rcases Nat.lt_or_ge (devNum + count) (2 ^ 32) with hwrap | hwrap
  swap
  · exact iff_of_false (not_registersAll_of_wrap hdev hcount hwrap)
      fun h => absurd h.1 (Nat.not_lt.mpr hwrap)
  rw [and_iff_right hwrap]
  rcases Nat.lt_or_ge devNum (2 ^ 20) with hlow | hmajor
  swap
  · refine iff_of_true (registersAll_of_major hmajor hwrap) ?_
    intro i h
    exact absurd h.low (Nat.not_lt.mpr hmajor)
  have hlast : add32 devNum count = devNum + count := add32_of_lt hwrap
  have hn : devNum < devNum + count := Nat.lt_add_of_pos_right hpos
  rw [RegistersAll, fwkRegisterChrdev, hlast]
  rcases registerFirst_cases kmalloc s hlow hn hwrap with ⟨hcall, hnot⟩ | ⟨i, hempty, hmem, hcall⟩
  · -- the first part is refused
    refine iff_of_true ?_ ?_
    · intro s' hrun
      rw [majorRounds, registerLoop, if_pos hn, hcall] at hrun
      have hback : fwkUnregisterChrdev s devNum (sub32 devNum devNum) = .ok s := by
        rw [sub32_of_le (le_refl _) hdev, Nat.sub_self, fwkUnregisterChrdev, add32_of_lt hdev]
        exact unregisterLoop_done (le_refl _)
      simp only [hback, bind, Except.bind] at hrun
      cases hrun
    · intro i h
      exact absurd ⟨h.memory, i, h.empty⟩ hnot
  · rcases registerLoop_first hlow hn hwrap hcall with
      ⟨s', hrun, hcovers, hzero, hparts⟩ | ⟨⟨major, hmajor, hhigh, hnot⟩, hrun⟩
    · -- the list of major 0 is as it was, unless the first part is in it
      have hsame : (i : Nat) ≠ 0 → ∀ x < 2 ^ 20, s'.Covers x ↔ s.Covers x := by
        intro hne x hx
        have hlist : ∀ l : Fin deviceMaxNum, (l : Nat) = x / 2 ^ 20 → s' l = s l := by
          intro l hl
          obtain rfl : l = 0 := Fin.ext (by rw [hl, Fin.val_zero]; omega)
          rw [hzero]
          exact Function.update_of_ne (fun h => hne (by rw [← h]; rfl)) _ _
        exact ⟨fun h => h.congr fun l hl => (hlist l hl).symm, fun h => h.congr hlist⟩
      rw [hrun]
      constructor
      · intro h j helse x hx hxlast hxlow
        obtain rfl : j = i := Fin.ext (Option.some.inj (helse.empty.symm.trans hempty))
        exact (hsame helse.other x hxlow).mp (h s' rfl x hx hxlast)
      · intro h s'' heq x hx hxlast
        cases heq
        rcases Nat.lt_or_ge x (2 ^ 20) with hxlow | hxhigh
        swap
        · exact hcovers x hxhigh hxlast
        by_cases hi : (i : Nat) = 0
        · have hin : firstPart i devNum (devNum + count) ∈ s' i := by
            obtain rfl : i = 0 := Fin.ext hi
            rw [hzero, Function.update_self]
            exact List.mem_singleton_self _
          refine ⟨i, by rw [hi, getDevMajor_eq]; omega, _, hin, ?_⟩
          show devNum ≤ getDevMinor x ∧
            getDevMinor x < devNum + (min (devNum + count) (2 ^ 20) - devNum)
          rw [getDevMinor_eq]
          omega
        · have helse : GoesElsewhere kmalloc s devNum (devNum + count) i :=
            ⟨hlow, hmem, hempty, hi, hparts⟩
          exact (hsame hi x hxlow).mpr (h i helse x hx hxlast hxlow)
    · refine iff_of_true (fun s' hs' => absurd hs' (hrun s')) ?_
      intro j helse
      have hj : j = i := Fin.ext (Option.some.inj (helse.empty.symm.trans hempty))
      subst hj
      exact absurd (helse.rest major hmajor hhigh) hnot

/-- Sixteen numbers of major 5. -/
theorem registration_complete_iff_major :
    RegistersAll (fun _ => true) fwkChrdevInit 0x500010 16 :=
  (registration_complete_iff (fun _ => true) fwkChrdevInit (by decide) (by decide)
    (by decide)).mpr ⟨by decide, fun _ h => absurd h.low (by decide)⟩

/-- In the empty registry numbers of major 0 are registered under major 254, with success. -/
theorem major_zero_goes_elsewhere :
    ¬ RegistersAll (fun _ => true) fwkChrdevInit 0x10 4 := by
  intro h
  have hcall : fwkRegisterChrdev (fun _ => true) fwkChrdevInit 0x10 4 =
      .ok (erNormal, Function.update fwkChrdevInit 254 [⟨254, 0x10, 4⟩]) := rfl
  obtain ⟨i, hi, dev, hdev, -⟩ := h _ hcall 0x10 (by decide) (by decide)
  obtain rfl : i = 0 := Fin.ext hi
  rw [Function.update_of_ne (by decide)] at hdev
  cases hdev

end HeavenFox.Platform
