/-
# HeavenFox.Platform.Chrdev -- the registry of character devices

`fwk_chrdev.c` keeps one list for every major, in the order of the first minors.  A
registration that spans several majors is split into one entry for each, and is rolled
back when one of them fails.

The place for a new entry is found by a rough test and only the entry found there is
checked for an overlap.  `registry_in_order` says that this is enough: whatever is
registered and unregistered, every list stays sorted, with entries of its own major that
are not empty and do not overlap.

`fwk_unregister_chrdev` counts in 32 bits: behind the last major it starts over at 0, so
a range that ends there is never done (`fwkUnregisterChrdev_spins_iff`).  All other calls
return (`chrdevStep_returns`).
-/
import HeavenFox.Common.ErrorTypes
import HeavenFox.Logic.Ranges
import HeavenFox.Logic.Run
import HeavenFox.Platform.Basic

namespace HeavenFox.Platform

open HeavenFox.Common HeavenFox.Logic

/-! ## The lists -/

/-- A `struct fwk_char_device`, its link and its name apart: nothing reads the name. -/
structure FwkCharDevice where
  major : Nat
  baseminor : Nat
  count : Nat
  deriving DecidableEq, Repr

/-- `sgrt_fwk_chrdevs`. -/
abbrev Chrdevs := Fin deviceMaxNum → List FwkCharDevice

/-- `fwk_chrdev_init`. -/
def fwkChrdevInit : Chrdevs := fun _ => []

/-- The last minor of an entry, in 32 bits. -/
def FwkCharDevice.lastMinor (dev : FwkCharDevice) : Nat := sub32 (add32 dev.baseminor dev.count) 1

/-- The rough test: the new entry belongs in front of this one, or overlaps it. -/
def FwkCharDevice.stopsAt (dev new : FwkCharDevice) : Bool :=
  decide (new.baseminor ≤ dev.baseminor) || decide (new.baseminor ≤ dev.lastMinor)

/-- The check of the entry that the new one is put in front of. -/
def FwkCharDevice.overlaps (dev new : FwkCharDevice) : Bool :=
  decide (new.baseminor ≤ dev.lastMinor) && decide (dev.baseminor ≤ new.lastMinor)

/-- Where the new entry goes; `none` is `goto fail`. -/
def insertChrdev (new : FwkCharDevice) : List FwkCharDevice → Option (List FwkCharDevice)
  | [] => some [new]
  | dev :: devs =>
    if dev.stopsAt new then
      if dev.overlaps new then none else some (new :: dev :: devs)
    else (insertChrdev new devs).map (dev :: ·)

/-- The search for a major without entries, from the last one down. -/
def emptyMajor (s : Chrdevs) : Nat → Option Nat
  | 0 => none
  | i + 1 => if s (Fin.ofNat deviceMaxNum i) = [] then some i else emptyMajor s i

/-- `__fwk_register_chrdev`; `kmalloc` is whether there is memory. -/
def __fwkRegisterChrdev (kmalloc : Bool) (s : Chrdevs) (major baseminor count : Nat) :
    Option FwkCharDevice × Chrdevs :=
  if count = 0 then (none, s)
  else
    match (if major = 0 then emptyMajor s deviceMaxNum else some major) with
    | none => (none, s)
    | some major =>
      if deviceMaxNum ≤ major then (none, s)
      else if kmalloc then
        let index := Fin.ofNat deviceMaxNum major
        let sprtChrdev := ⟨major, baseminor, count⟩
        match insertChrdev sprtChrdev (s index) with
        | none => (none, s)
        | some devs => (some sprtChrdev, Function.update s index devs)
      else (none, s)

/-- The entry with exactly this range. -/
def FwkCharDevice.isRange (baseminor count : Nat) (dev : FwkCharDevice) : Bool :=
  decide (baseminor = dev.baseminor) && decide (count = dev.count)

/-- `__fwk_unregister_chrdev`: take the first entry with exactly this range off its list. -/
def __fwkUnregisterChrdev (s : Chrdevs) (major baseminor count : Nat) :
    Option FwkCharDevice × Chrdevs :=
  if deviceMaxNum ≤ major ∨ count = 0 then (none, s)
  else
    let index := Fin.ofNat deviceMaxNum major
    ((s index).find? (FwkCharDevice.isRange baseminor count),
      Function.update s index ((s index).eraseP (FwkCharDevice.isRange baseminor count)))

/-! ## The calls -/

/-- `fwk_alloc_chrdev`: the errno, and the device number it writes. -/
def fwkAllocChrdev (kmalloc : Bool) (s : Chrdevs) (baseminor count : Nat) :
    (Int × Option Nat) × Chrdevs :=
  match __fwkRegisterChrdev kmalloc s 0 baseminor count with
  | (none, s) => ((-erFault, none), s)
  | (some sprtChrdev, s) =>
    ((erNormal, some (mkeDevNum sprtChrdev.major sprtChrdev.baseminor)), s)

/-- Where the part of a range that is in the major of `n` ends. -/
def nextPart (n last : Nat) : Nat := min last (mkeDevNum (add32 (getDevMajor n) 1) 0)

/-- Rounds given to the loops over majors: there are 4096 of them. -/
abbrev majorRounds : Nat := 2 ^ 12 + 1

/-- The loop of `fwk_unregister_chrdev`. -/
def unregisterLoop (last : Nat) : Nat → Nat → Chrdevs → Except Stop Chrdevs
  | 0, _, _ => .error .spins
  | k + 1, n, s =>
    if n < last then
      unregisterLoop last k (nextPart n last)
        (__fwkUnregisterChrdev s (getDevMajor n) (getDevMinor n) (sub32 (nextPart n last) n)).2
    else .ok s

/-- `fwk_unregister_chrdev`. -/
def fwkUnregisterChrdev (s : Chrdevs) (devNum count : Nat) : Except Stop Chrdevs :=
  unregisterLoop (add32 devNum count) majorRounds devNum s

/-- The loop of `fwk_register_chrdev`; `kmalloc n` is whether there is memory for the entry that
starts at `n`. -/
def registerLoop (kmalloc : Nat → Bool) (devNum last : Nat) :
    Nat → Nat → Chrdevs → Except Stop (Int × Chrdevs)
  | 0, _, _ => .error .spins
  | k + 1, n, s =>
    if n < last then
      match __fwkRegisterChrdev (kmalloc n) s (getDevMajor n) (getDevMinor n)
          (sub32 (nextPart n last) n) with
      | (none, s) => do
        -- roll back what is registered so far
        let s ← fwkUnregisterChrdev s devNum (sub32 n devNum)
        .ok (-erFaild, s)
      | (some _, s) => registerLoop kmalloc devNum last k (nextPart n last) s
    else .ok (erNormal, s)

/-- `fwk_register_chrdev`. -/
def fwkRegisterChrdev (kmalloc : Nat → Bool) (s : Chrdevs) (devNum count : Nat) :
    Except Stop (Int × Chrdevs) :=
  registerLoop kmalloc devNum (add32 devNum count) majorRounds devNum s

/-- A call, with its arguments and with whether there is memory for what it allocates. -/
inductive ChrdevCall where
  | register (devNum count : UInt32) (kmalloc : Nat → Bool)
  | alloc (baseminor count : UInt32) (kmalloc : Bool)
  | unregister (devNum count : UInt32)

/-- What a call leaves, if it returns. -/
def chrdevStep (s : Chrdevs) : ChrdevCall → Option Chrdevs
  | .register devNum count kmalloc =>
    (fwkRegisterChrdev kmalloc s devNum.toNat count.toNat).toOption.map Prod.snd
  | .alloc baseminor count kmalloc =>
    some (fwkAllocChrdev kmalloc s baseminor.toNat count.toNat).2
  | .unregister devNum count => (fwkUnregisterChrdev s devNum.toNat count.toNat).toOption

/-! ## What a list keeps -/

/-- The minors of an entry. -/
def FwkCharDevice.range (dev : FwkCharDevice) : Range := ⟨dev.baseminor, dev.count⟩

/-- The minors of the entry have twenty bits. -/
def FwkCharDevice.Fits (dev : FwkCharDevice) : Prop := dev.baseminor + dev.count ≤ 2 ^ 20

/-- The last minor, without wrapping. -/
theorem FwkCharDevice.Fits.lastMinor {dev : FwkCharDevice} (h : dev.Fits) (hcount : 0 < dev.count) :
    dev.lastMinor = dev.baseminor + dev.count - 1 := by
  unfold FwkCharDevice.Fits at h
  rw [FwkCharDevice.lastMinor, add32_of_lt (by omega), sub32_of_le (by omega) (by omega)]

/-- An entry that does not stop the search ends before the new one. -/
theorem FwkCharDevice.before_of_not_stopsAt {dev new : FwkCharDevice} (h : dev.Fits)
    (hcount : 0 < dev.count) (hstop : dev.stopsAt new = false) : dev.range.Before new.range := by
  simp only [stopsAt, Bool.or_eq_false_iff, decide_eq_false_iff_not, h.lastMinor hcount] at hstop
  show dev.baseminor + dev.count ≤ new.baseminor
  omega

/-- The new entry ends before the one that stops the search, if that one does not overlap it. -/
theorem FwkCharDevice.before_of_stopsAt {dev new : FwkCharDevice} (h : dev.Fits)
    (hcount : 0 < dev.count) (hnew : new.Fits) (hnewCount : 0 < new.count)
    (hstop : dev.stopsAt new = true) (hoverlap : dev.overlaps new = false) :
    new.range.Before dev.range := by
  simp only [stopsAt, Bool.or_eq_true, decide_eq_true_eq, h.lastMinor hcount] at hstop
  simp only [overlaps, Bool.and_eq_false_iff, decide_eq_false_iff_not, h.lastMinor hcount,
    hnew.lastMinor hnewCount] at hoverlap
  show new.baseminor + new.count ≤ dev.baseminor
  omega

/-- The list of one major. -/
structure IsSlot (i : Fin deviceMaxNum) (devs : List FwkCharDevice) : Prop where
  inOrder : InOrder FwkCharDevice.range devs
  fits : ∀ dev ∈ devs, dev.Fits
  major : ∀ dev ∈ devs, dev.major = i

theorem IsSlot.nil (i : Fin deviceMaxNum) : IsSlot i [] where
  inOrder := InOrder.nil
  fits := fun _ h => absurd h List.not_mem_nil
  major := fun _ h => absurd h List.not_mem_nil

theorem IsSlot.sublist {i : Fin deviceMaxNum} {devs devs' : List FwkCharDevice}
    (h : IsSlot i devs) (hsub : devs'.Sublist devs) : IsSlot i devs' where
  inOrder := h.inOrder.sublist hsub
  fits := fun dev hdev => h.fits dev (hsub.subset hdev)
  major := fun dev hdev => h.major dev (hsub.subset hdev)

/-- Where an insertion takes place. -/
theorem insertChrdev_cases {new : FwkCharDevice} {devs devs' : List FwkCharDevice}
    (h : insertChrdev new devs = some devs') :
    ∃ l₁ l₂, devs = l₁ ++ l₂ ∧ devs' = l₁ ++ new :: l₂ ∧ (∀ dev ∈ l₁, dev.stopsAt new = false) ∧
      ∀ dev ∈ l₂.head?, dev.stopsAt new = true ∧ dev.overlaps new = false := by
  induction devs generalizing devs' with
  | nil =>
    cases h
    exact ⟨[], [], rfl, rfl, by simp, by simp⟩
  | cons dev devs ih =>
    rw [insertChrdev] at h
    by_cases hstop : dev.stopsAt new = true
    · rw [if_pos hstop] at h
      by_cases hoverlap : dev.overlaps new = true
      · simp [hoverlap] at h
      · rw [if_neg hoverlap] at h
        cases h
        exact ⟨[], dev :: devs, rfl, rfl, by simp,
          by simpa using ⟨hstop, Bool.eq_false_iff.mpr hoverlap⟩⟩
    · rw [if_neg hstop] at h
      obtain ⟨devs'', hrec, rfl⟩ := Option.map_eq_some_iff.mp h
      obtain ⟨l₁, l₂, rfl, rfl, hfront, hback⟩ := ih hrec
      refine ⟨dev :: l₁, l₂, rfl, rfl, fun dev' hdev' => ?_, hback⟩
      rcases List.mem_cons.mp hdev' with rfl | hdev'
      · exact Bool.eq_false_iff.mpr hstop
      · exact hfront dev' hdev'

/-- **The rough test is enough.**  Only the entry found is checked for an overlap. -/
theorem IsSlot.insert {i : Fin deviceMaxNum} {new : FwkCharDevice}
    {devs devs' : List FwkCharDevice} (h : IsSlot i devs) (hfits : new.Fits)
    (hcount : 0 < new.count) (hmajor : new.major = i) (hinsert : insertChrdev new devs = some devs') :
    IsSlot i devs' := by
  obtain ⟨l₁, l₂, rfl, rfl, hfront, hback⟩ := insertChrdev_cases hinsert
  have hmem : ∀ dev ∈ l₁ ++ new :: l₂, dev = new ∨ dev ∈ l₁ ++ l₂ := by
    intro dev hdev
    rcases List.mem_append.mp hdev with hdev | hdev
    · exact .inr (List.mem_append_left _ hdev)
    · exact (List.mem_cons.mp hdev).imp_right (List.mem_append_right _)
  refine ⟨h.inOrder.insert hcount ?_ ?_, ?_, ?_⟩
  · intro dev hdev
    have hold := List.mem_append_left l₂ hdev
    exact FwkCharDevice.before_of_not_stopsAt (h.fits dev hold) (h.inOrder.nonempty dev hold)
      (hfront dev hdev)
  · intro dev hdev
    have hold := List.mem_append_right l₁ (List.mem_of_mem_head? hdev)
    exact FwkCharDevice.before_of_stopsAt (h.fits dev hold) (h.inOrder.nonempty dev hold) hfits
      hcount (hback dev hdev).1 (hback dev hdev).2
  · intro dev hdev
    rcases hmem dev hdev with rfl | hold
    · exact hfits
    · exact h.fits dev hold
  · intro dev hdev
    rcases hmem dev hdev with rfl | hold
    · exact hmajor
    · exact h.major dev hold

/-- What every call keeps. -/
def Chrdevs.Kept (s : Chrdevs) : Prop := ∀ i, IsSlot i (s i)

theorem Chrdevs.Kept.update {s : Chrdevs} (h : s.Kept) {i : Fin deviceMaxNum}
    {devs : List FwkCharDevice} (hi : IsSlot i devs) :
    Chrdevs.Kept (Function.update s i devs) := by
  intro j
  by_cases hj : j = i
  · subst hj
    rwa [Function.update_self]
  · rw [Function.update_of_ne hj]
    exact h j

/-! ## What the calls keep -/

/-- A registration adds one entry to the list of its major, or leaves all as it is. -/
theorem __fwkRegisterChrdev_cases (kmalloc : Bool) (s : Chrdevs) (major baseminor count : Nat) :
    (__fwkRegisterChrdev kmalloc s major baseminor count = (none, s)) ∨
      ∃ (i : Fin deviceMaxNum) (devs : List FwkCharDevice), (major = 0 ∨ major = i) ∧ 0 < count ∧
        insertChrdev ⟨i, baseminor, count⟩ (s i) = some devs ∧
        __fwkRegisterChrdev kmalloc s major baseminor count =
          (some ⟨i, baseminor, count⟩, Function.update s i devs) := by
  unfold __fwkRegisterChrdev
  by_cases hcount : count = 0
  · exact .inl (if_pos hcount)
  rw [if_neg hcount]
  cases hpick : (if major = 0 then emptyMajor s deviceMaxNum else some major) with
  | none => exact .inl rfl
  | some major' =>
    have hzero : major = 0 ∨ major = major' := by
      by_cases h0 : major = 0
      · exact .inl h0
      · rw [if_neg h0] at hpick
        exact .inr (Option.some.inj hpick)
    by_cases hmajor : deviceMaxNum ≤ major'
    · exact .inl (if_pos hmajor)
    have hindex : ((Fin.ofNat deviceMaxNum major' : Fin deviceMaxNum) : Nat) = major' :=
      Nat.mod_eq_of_lt (Nat.lt_of_not_le hmajor)
    cases kmalloc with
    | false => exact .inl (by simp [hmajor])
    | true =>
      cases hinsert : insertChrdev ⟨major', baseminor, count⟩ (s (Fin.ofNat deviceMaxNum major')) with
      | none => exact .inl (by simp only [hmajor, hinsert, if_true, if_false])
      | some devs =>
        refine .inr ⟨Fin.ofNat deviceMaxNum major', devs, by rwa [hindex],
          Nat.pos_of_ne_zero hcount, ?_, ?_⟩
        · rw [hindex, hinsert]
        · simp only [hmajor, hinsert, hindex, if_true, if_false]

theorem __fwkRegisterChrdev_kept {kmalloc : Bool} {s : Chrdevs} {major baseminor count : Nat}
    (hs : s.Kept) (hfits : baseminor + count ≤ 2 ^ 20) :
    (__fwkRegisterChrdev kmalloc s major baseminor count).2.Kept := by
  rcases __fwkRegisterChrdev_cases kmalloc s major baseminor count with
    h | ⟨i, devs, -, hcount, hinsert, h⟩
  · rwa [h]
  · rw [h]
    have hnew : FwkCharDevice.Fits ⟨i, baseminor, count⟩ := hfits
    exact hs.update ((hs i).insert hnew hcount rfl hinsert)

theorem __fwkUnregisterChrdev_kept {s : Chrdevs} {major baseminor count : Nat} (hs : s.Kept) :
    (__fwkUnregisterChrdev s major baseminor count).2.Kept := by
  unfold __fwkUnregisterChrdev
  by_cases hskip : deviceMaxNum ≤ major ∨ count = 0
  · rwa [if_pos hskip]
  · rw [if_neg hskip]
    exact hs.update ((hs _).sublist List.eraseP_sublist)

/-- What the loops register and unregister has at most the minors that its major has left. -/
theorem part_fits {n last : Nat} (hn : n < last) (hlast : last < 2 ^ 32) :
    getDevMinor n + sub32 (nextPart n last) n ≤ 2 ^ 20 := by
  rw [nextPart, nextMajor_eq (by omega), getDevMinor_eq]
  split
  · rw [sub32_of_le (by omega) (by omega)]
    omega
  · rw [Nat.min_zero, sub32]
    omega

theorem unregisterLoop_kept {last k n : Nat} {s s' : Chrdevs} (hs : s.Kept)
    (h : unregisterLoop last k n s = .ok s') : s'.Kept := by
  induction k generalizing n s with
  | zero => cases h
  | succ k ih =>
    rw [unregisterLoop] at h
    by_cases hn : n < last
    · rw [if_pos hn] at h
      exact ih (__fwkUnregisterChrdev_kept hs) h
    · rw [if_neg hn] at h
      cases h
      exact hs

theorem registerLoop_kept {kmalloc : Nat → Bool} {devNum last k n : Nat} {s : Chrdevs}
    {r : Int × Chrdevs} (hs : s.Kept) (hlast : last < 2 ^ 32)
    (h : registerLoop kmalloc devNum last k n s = .ok r) : r.2.Kept := by
  induction k generalizing n s with
  | zero => cases h
  | succ k ih =>
    rw [registerLoop] at h
    by_cases hn : n < last
    · rw [if_pos hn] at h
      have hkept : (__fwkRegisterChrdev (kmalloc n) s (getDevMajor n) (getDevMinor n)
          (sub32 (nextPart n last) n)).2.Kept := __fwkRegisterChrdev_kept hs (part_fits hn hlast)
      cases hreg : __fwkRegisterChrdev (kmalloc n) s (getDevMajor n) (getDevMinor n)
          (sub32 (nextPart n last) n) with
      | mk sprtChrdev t =>
        rw [hreg] at h hkept
        cases sprtChrdev with
        | some dev => exact ih hkept h
        | none =>
          cases hback : fwkUnregisterChrdev t devNum (sub32 n devNum) with
          | error e => simp [hback, bind, Except.bind] at h
          | ok u =>
            simp only [hback, bind, Except.bind] at h
            cases h
            exact unregisterLoop_kept hkept hback
    · rw [if_neg hn] at h
      cases h
      exact hs

/-! ## Which calls return -/

/-- A part ends where the range ends, or where the next major begins. -/
theorem nextPart_cases {n last : Nat} (hn : n < last) (hlast : last ≤ 4095 * 2 ^ 20) :
    nextPart n last = last ∨ (nextPart n last < last ∧ nextPart n last / 2 ^ 20 = n / 2 ^ 20 + 1) := by
  rw [nextPart, nextMajor_eq (by omega), if_pos (by omega)]
  omega

theorem unregisterLoop_done {last n k : Nat} {s : Chrdevs} (hn : last ≤ n) :
    unregisterLoop last (k + 1) n s = .ok s := by
  rw [unregisterLoop, if_neg (by omega)]

/-- A count of 0 takes nothing off. -/
theorem fwkUnregisterChrdev_zero (s : Chrdevs) (devNum : Nat) :
    fwkUnregisterChrdev s devNum 0 = .ok s :=
  unregisterLoop_done (Nat.mod_le _ _)

/-- A range that ends before the last major is done in as many rounds as there are majors. -/
theorem unregisterLoop_returns {last n k : Nat} {s : Chrdevs} (hlast : last ≤ 4095 * 2 ^ 20)
    (hk : 4096 ≤ n / 2 ^ 20 + k) (hn : n < 2 ^ 32) : ∃ s', unregisterLoop last k n s = .ok s' := by
  induction k generalizing n s with
  | zero => omega
  | succ k ih =>
    by_cases hmore : n < last
    · rw [unregisterLoop, if_pos hmore]
      rcases nextPart_cases hmore hlast with hend | hnext
      · obtain ⟨k, rfl⟩ : ∃ k', k = k' + 1 := ⟨k - 1, by omega⟩
        rw [hend, unregisterLoop_done (Nat.le_refl last)]
        exact ⟨_, rfl⟩
      · exact ih (by omega) (by omega)
    · exact ⟨s, unregisterLoop_done (by omega)⟩

/-- Behind the last major the loop is back at 0. -/
theorem unregisterLoop_spins {last n : Nat} (k : Nat) {s : Chrdevs} (hlast : 4095 * 2 ^ 20 < last)
    (hlast' : last < 2 ^ 32) (hn : n < last) : unregisterLoop last k n s = .error .spins := by
  induction k generalizing n s with
  | zero => rfl
  | succ k ih =>
    rw [unregisterLoop, if_pos hn]
    apply ih
    rw [nextPart, nextMajor_eq (by omega)]
    split <;> omega

/-- **A range with numbers of the last major is never done.** -/
theorem fwkUnregisterChrdev_spins_iff {s : Chrdevs} {devNum count : Nat} (hdev : devNum < 2 ^ 32) :
    fwkUnregisterChrdev s devNum count = .error .spins ↔
      devNum < add32 devNum count ∧ 4095 * 2 ^ 20 < add32 devNum count := by
  have hlt := add32_lt devNum count
  unfold fwkUnregisterChrdev
  constructor
  · intro h
    by_cases hn : devNum < add32 devNum count
    · refine ⟨hn, ?_⟩
      by_contra hlast
      have hrounds : 4096 ≤ devNum / 2 ^ 20 + majorRounds := by
        unfold majorRounds
        omega
      obtain ⟨s', hs'⟩ := unregisterLoop_returns (s := s) (Nat.le_of_not_lt hlast) hrounds hdev
      rw [hs'] at h
      cases h
    · rw [unregisterLoop_done (Nat.le_of_not_lt hn)] at h
      cases h
  · rintro ⟨hn, hlast⟩
    exact unregisterLoop_spins majorRounds hlast hlt hn

theorem fwkUnregisterChrdev_returns {s : Chrdevs} {devNum count : Nat} (hdev : devNum < 2 ^ 32)
    (h : add32 devNum count ≤ 4095 * 2 ^ 20) : ∃ s', fwkUnregisterChrdev s devNum count = .ok s' := by
  refine unregisterLoop_returns h ?_ hdev
  unfold majorRounds
  omega

theorem registerLoop_done {kmalloc : Nat → Bool} {devNum last n k : Nat} {s : Chrdevs}
    (hn : last ≤ n) : registerLoop kmalloc devNum last (k + 1) n s = .ok (erNormal, s) := by
  rw [registerLoop, if_neg (by omega)]

/-- A registration stops at the first major without a table, and what it rolls back ends before. -/
theorem registerLoop_returns {kmalloc : Nat → Bool} {devNum last n k : Nat} {s : Chrdevs}
    (hlast : last < 2 ^ 32) (hstart : devNum = n ∨ devNum ≤ n ∧ n ≤ 255 * 2 ^ 20) (hn : n < 2 ^ 32)
    (hk : 4096 ≤ n / 2 ^ 20 + k) : ∃ r, registerLoop kmalloc devNum last k n s = .ok r := by
  induction k generalizing n s with
  | zero => omega
  | succ k ih =>
    rw [registerLoop]
    by_cases hmore : n < last
    · rw [if_pos hmore]
      rcases __fwkRegisterChrdev_cases (kmalloc n) s (getDevMajor n) (getDevMinor n)
          (sub32 (nextPart n last) n) with h | ⟨i, devs, hmajor, -, -, h⟩
      · obtain ⟨s', hs'⟩ : ∃ s', fwkUnregisterChrdev s devNum (sub32 n devNum) = .ok s' := by
          rw [sub32_of_le (by omega) hn]
          have hsum : add32 devNum (n - devNum) = n := by
            rw [add32_of_lt (by omega)]
            omega
          rcases hstart with rfl | hback
          · exact ⟨s, by rw [fwkUnregisterChrdev, hsum, unregisterLoop_done (Nat.le_refl _)]⟩
          · exact fwkUnregisterChrdev_returns (by omega) (by omega)
        rw [h]
        simp only [hs', bind, Except.bind]
        exact ⟨_, rfl⟩
      · have hi : (i : Nat) < 255 := i.isLt
        rw [getDevMajor_eq] at hmajor
        have hnext := nextMajor_eq hn
        rw [if_pos (by omega)] at hnext
        rw [h]
        by_cases hend : nextPart n last = last
        · obtain ⟨k, rfl⟩ : ∃ k', k = k' + 1 := ⟨k - 1, by omega⟩
          rw [hend]
          exact ⟨_, registerLoop_done (Nat.le_refl last)⟩
        · unfold nextPart at hend ⊢
          rw [hnext] at hend ⊢
          exact ih (by omega) (by omega) (by omega)
    · rw [if_neg hmore]
      exact ⟨(erNormal, s), rfl⟩

/-- **A registration always returns.** -/
theorem fwkRegisterChrdev_returns (kmalloc : Nat → Bool) (s : Chrdevs) {devNum : Nat} (count : Nat)
    (hdev : devNum < 2 ^ 32) : ∃ r, fwkRegisterChrdev kmalloc s devNum count = .ok r := by
  refine registerLoop_returns (add32_lt _ _) (.inl rfl) hdev ?_
  unfold majorRounds
  omega

/-! ## Any sequence of calls -/

/-- What `fwk_alloc_chrdev` is asked for has minors of twenty bits. -/
def ChrdevCall.Fits : ChrdevCall → Prop
  | .alloc baseminor count _ => baseminor.toNat + count.toNat ≤ 2 ^ 20
  | _ => True

instance ChrdevCall.decidableFits : (call : ChrdevCall) → Decidable call.Fits
  | .register _ _ _ => isTrue trivial
  | .alloc _ _ _ => inferInstanceAs (Decidable (_ ≤ _))
  | .unregister _ _ => isTrue trivial

theorem chrdevStep_kept (s : Chrdevs) (call : ChrdevCall) (s' : Chrdevs) (hs : s.Kept)
    (hfits : call.Fits) (h : chrdevStep s call = some s') : s'.Kept := by
  cases call with
  | register devNum count kmalloc =>
    cases hcall : fwkRegisterChrdev kmalloc s devNum.toNat count.toNat with
    | error e => simp [chrdevStep, hcall, Except.toOption] at h
    | ok r =>
      simp only [chrdevStep, hcall, Except.toOption, Option.map_some] at h
      cases h
      exact registerLoop_kept hs (add32_lt _ _) hcall
  | alloc baseminor count kmalloc =>
    cases h
    have hkept : (__fwkRegisterChrdev kmalloc s 0 baseminor.toNat count.toNat).2.Kept :=
      __fwkRegisterChrdev_kept hs hfits
    unfold fwkAllocChrdev
    split <;> rename_i hreg <;> rwa [hreg] at hkept
  | unregister devNum count =>
    cases hcall : fwkUnregisterChrdev s devNum.toNat count.toNat with
    | error e => simp [chrdevStep, hcall, Except.toOption] at h
    | ok r =>
      simp only [chrdevStep, hcall, Except.toOption] at h
      cases h
      exact unregisterLoop_kept hs hcall

/-- Only an unregistration that reaches into the last major does not return. -/
theorem chrdevStep_returns (s : Chrdevs) (call : ChrdevCall)
    (h : ∀ devNum count, call = .unregister devNum count →
      add32 devNum.toNat count.toNat ≤ 4095 * 2 ^ 20) : ∃ s', chrdevStep s call = some s' := by
  cases call with
  | register devNum count kmalloc =>
    obtain ⟨r, hr⟩ := fwkRegisterChrdev_returns kmalloc s count.toNat devNum.toNat_lt
    exact ⟨r.2, by rw [chrdevStep, hr]; rfl⟩
  | alloc baseminor count kmalloc => exact ⟨_, rfl⟩
  | unregister devNum count =>
    obtain ⟨s', hs'⟩ := fwkUnregisterChrdev_returns (s := s) devNum.toNat_lt (h devNum count rfl)
    exact ⟨s', by rw [chrdevStep, hs']; rfl⟩

/-- Every list is sorted by the first minors, with entries that are not empty, that carry the major
of the list, and that have no minor in common. -/
structure Chrdevs.InOrder (s : Chrdevs) : Prop where
  sorted : ∀ i, (s i).Pairwise fun dev dev' => dev.baseminor < dev'.baseminor
  counted : ∀ i, ∀ dev ∈ s i, 1 ≤ dev.count
  major : ∀ i, ∀ dev ∈ s i, dev.major = i
  disjoint : ∀ i, (s i).Pairwise fun dev dev' => ∀ minor,
    dev.range.Holds minor → ¬ dev'.range.Holds minor

theorem Chrdevs.Kept.in_order {s : Chrdevs} (h : s.Kept) : s.InOrder where
  sorted := fun i => (h i).inOrder.sorted
  counted := fun i dev hdev => (h i).inOrder.nonempty dev hdev
  major := fun i dev hdev => (h i).major dev hdev
  disjoint := by
    intro i
    refine (h i).inOrder.apart.imp ?_
    intro dev dev' hapart minor
    exact hapart.not_holds

/-- **The registry stays in order.**  From the empty registry on, over any sequence of calls, those
that fail included. -/
theorem registry_in_order (calls : List ChrdevCall) (h : ∀ call ∈ calls, call.Fits) :
    Always chrdevStep Chrdevs.InOrder fwkChrdevInit calls :=
  Always.imp (fun _ hs => hs.in_order)
    (always_of_meets chrdevStep_kept (fun i => IsSlot.nil i) (meets_of_forall h))

/-- A registration over two majors, one that overlaps it and is rolled back, an allocation, and the
end of the first. -/
theorem registry_in_order_example :
    Always chrdevStep Chrdevs.InOrder fwkChrdevInit
      [.register 0x5ffff0 32 fun _ => true, .register 0x4ffff0 0x100008 fun _ => true,
        .alloc 16 8 true, .unregister 0x5ffff0 32] :=
  registry_in_order _ (by decide)

end HeavenFox.Platform
