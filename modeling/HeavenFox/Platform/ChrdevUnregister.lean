/-
# HeavenFox.Platform.ChrdevUnregister -- what an unregistration takes off the registry

`fwk_unregister_chrdev` goes through a range major by major and takes off the entry that is exactly
the part of the range in that major.  Whatever it takes off is therefore inside the range
(`unregisterLoop_insideOnly`), from every registry.

The next major is reached by a shift, and behind the last one the shift gives 0: a range with
numbers of the last major is never done (`unregister_inside_iff`).
-/
import HeavenFox.Platform.Chrdev

namespace HeavenFox.Platform

open HeavenFox.Common HeavenFox.Logic

/-! ## Entries inside a range -/

/-- Every device number of the entry, in the list of the major `i`, is in the range. -/
def FwkCharDevice.Inside (devNum count : Nat) (i : Fin deviceMaxNum) (dev : FwkCharDevice) : Prop :=
  devNum ≤ i * 2 ^ 20 + dev.baseminor ∧ i * 2 ^ 20 + dev.baseminor + dev.count ≤ devNum + count

instance (devNum count : Nat) (i : Fin deviceMaxNum) (dev : FwkCharDevice) :
    Decidable (dev.Inside devNum count i) := inferInstanceAs (Decidable (_ ∧ _))

/-- Entries are taken off, and all of those that are not inside the range stay, in their order. -/
def Chrdevs.InsideOnly (devNum count : Nat) (s s' : Chrdevs) : Prop :=
  ∀ i, (s' i).Sublist (s i) ∧
    (s' i).filter (fun dev => !decide (dev.Inside devNum count i)) =
      (s i).filter fun dev => !decide (dev.Inside devNum count i)

section Steps

variable {s s' s'' : Chrdevs} {devNum count last n : Nat}

theorem Chrdevs.InsideOnly.refl (devNum count : Nat) (s : Chrdevs) :
    Chrdevs.InsideOnly devNum count s s :=
  fun i => ⟨List.Sublist.refl (s i), rfl⟩

theorem Chrdevs.InsideOnly.trans (h : Chrdevs.InsideOnly devNum count s s')
    (h' : Chrdevs.InsideOnly devNum count s' s'') : Chrdevs.InsideOnly devNum count s s'' :=
  fun i => ⟨(h' i).1.trans (h i).1, (h' i).2.trans (h i).2⟩

/-- Taking off one element that the filter drops anyway. -/
theorem filter_eraseP {α : Type} {p q : α → Bool} {l : List α} (h : ∀ a ∈ l, p a = true → q a = false) :
    (l.eraseP p).filter q = l.filter q := by
  induction l with
  | nil => rfl
  | cons a l ih =>
    rcases hp : p a with _ | _
    · rw [List.eraseP_cons_of_neg (by simp [hp]), List.filter_cons, List.filter_cons,
        ih fun b hb => h b (List.mem_cons_of_mem a hb)]
    · rw [List.eraseP_cons_of_pos hp, List.filter_cons_of_neg (by simp [h a List.mem_cons_self hp])]

/-- **One part.**  The entry that is taken off begins at `n` and ends where the part does. -/
theorem unregisterPart_insideOnly (hword : last < 2 ^ 32) (hge : devNum ≤ n)
    (hle : last ≤ devNum + count) (hnext : n < nextPart n last) :
    Chrdevs.InsideOnly devNum count s
      (__fwkUnregisterChrdev s (getDevMajor n) (getDevMinor n) (sub32 (nextPart n last) n)).2 := by
  have hpart : nextPart n last ≤ last := Nat.min_le_left _ _
  have hcount : sub32 (nextPart n last) n = nextPart n last - n :=
    sub32_of_le hnext.le (by omega)
  rw [hcount, getDevMajor_eq, getDevMinor_eq, __fwkUnregisterChrdev]
  by_cases hskip : deviceMaxNum ≤ n / 2 ^ 20 ∨ nextPart n last - n = 0
  · rw [if_pos hskip]
    exact Chrdevs.InsideOnly.refl devNum count s
  rw [if_neg hskip]
  intro i
  show (Function.update s (Fin.ofNat deviceMaxNum (n / 2 ^ 20)) _ i).Sublist (s i) ∧
    (Function.update s (Fin.ofNat deviceMaxNum (n / 2 ^ 20)) _ i).filter _ = _
  by_cases hi : i = Fin.ofNat deviceMaxNum (n / 2 ^ 20)
  swap
  · rw [Function.update_of_ne hi]
    exact ⟨List.Sublist.refl (s i), rfl⟩
  have hmajor : (i : Nat) = n / 2 ^ 20 := by
    rw [hi]
    exact Nat.mod_eq_of_lt (by omega)
  rw [hi, Function.update_self, ← hi]
  refine ⟨List.eraseP_sublist, filter_eraseP ?_⟩
  intro dev _ hrange
  simp only [FwkCharDevice.isRange, Bool.and_eq_true, decide_eq_true_eq] at hrange
  have hinside : dev.Inside devNum count i := by
    unfold FwkCharDevice.Inside
    omega
  simp [hinside]

/-- **The loop.**  As long as it goes on upwards, it takes off what is inside the range. -/
theorem unregisterLoop_insideOnly {k : Nat} (hlast : last ≤ 4095 * 2 ^ 20) (hge : devNum ≤ n)
    (hle : last ≤ devNum + count) (h : unregisterLoop last k n s = .ok s') :
    Chrdevs.InsideOnly devNum count s s' := by
  induction k generalizing n s with
  | zero => cases h
  | succ k ih =>
    rw [unregisterLoop] at h
    by_cases hn : n < last
    · rw [if_pos hn] at h
      have hnext : n < nextPart n last := by
        rcases nextPart_cases hn hlast with hend | ⟨-, hmajor⟩ <;> omega
      exact (unregisterPart_insideOnly (by omega) hge hle hnext).trans (ih (by omega) h)
    · rw [if_neg hn] at h
      rw [← Except.ok.inj h]
      exact Chrdevs.InsideOnly.refl devNum count s

end Steps

/-! ## The call -/

/-- The call comes to its end, in some number of rounds, and takes off only entries that are inside
the range. -/
def UnregistersInside (s : Chrdevs) (devNum count : Nat) : Prop :=
  ∃ k s', unregisterLoop (add32 devNum count) k devNum s = .ok s' ∧
    Chrdevs.InsideOnly devNum count s s'

/-- **Which unregistrations are right.**  From every registry, a call ends and takes off only entries
inside its range exactly if the range ends before the last major, is empty, or wraps (and is then
taken for empty). -/
theorem unregister_inside_iff (s : Chrdevs) {devNum count : Nat} (hdev : devNum < 2 ^ 32)
    (hcount : count < 2 ^ 32) :
    UnregistersInside s devNum count ↔
      devNum + count ≤ 4095 * 2 ^ 20 ∨ count = 0 ∨ 2 ^ 32 ≤ devNum + count := by
  have hlast : add32 devNum count =
      if devNum + count < 2 ^ 32 then devNum + count else devNum + count - 2 ^ 32 := by
    unfold add32
    split <;> omega
  constructor
  · rintro ⟨k, s', hrun, -⟩
    by_contra hnot
    have hspins : unregisterLoop (add32 devNum count) k devNum s = .error .spins := by
      apply unregisterLoop_spins k _ (add32_lt devNum count) <;> rw [hlast, if_pos (by omega)] <;>
        omega
    rw [hspins] at hrun
    cases hrun
  · intro h
    by_cases hend : add32 devNum count ≤ devNum
    · -- nothing is left to do
      exact ⟨1, s, unregisterLoop_done hend, Chrdevs.InsideOnly.refl devNum count s⟩
    · have hnowrap : devNum + count < 2 ^ 32 := by
        by_contra hwrap
        rw [if_neg hwrap] at hlast
        omega
      rw [if_pos hnowrap] at hlast
      have hbound : add32 devNum count ≤ 4095 * 2 ^ 20 := by omega
      obtain ⟨s', hrun⟩ := fwkUnregisterChrdev_returns (s := s) hdev hbound
      exact ⟨majorRounds, s', hrun,
        unregisterLoop_insideOnly (by omega) (Nat.le_refl devNum) hlast.le hrun⟩

/-- One entry of major 5 in a registry with one of major 6 behind it. -/
theorem unregister_inside_iff_major :
    UnregistersInside (fun i => if (i : Nat) = 5 then [⟨5, 8, 4⟩] else if (i : Nat) = 6 then
        [⟨6, 0, 1⟩] else []) 0x500008 4 ↔
      0x500008 + 4 ≤ 4095 * 2 ^ 20 ∨ 4 = 0 ∨ 2 ^ 32 ≤ 0x500008 + 4 :=
  unregister_inside_iff _ (by decide) (by decide)

/-- One number of the last major: in no number of rounds does the loop come to its end. -/
theorem last_major_is_never_done : ¬ UnregistersInside fwkChrdevInit 0xfff00000 1 := by
  rintro ⟨k, s', hrun, -⟩
  have hspins : unregisterLoop (add32 0xfff00000 1) k 0xfff00000 fwkChrdevInit = .error .spins :=
    unregisterLoop_spins k (by decide) (by decide) (by decide)
  exact absurd (hspins.symm.trans hrun) (by simp)

end HeavenFox.Platform
