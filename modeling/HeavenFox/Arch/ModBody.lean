/-
# HeavenFox.Arch.ModBody -- the macro `ARM_MOD_BODY` of `lib1funcs.S`

The divisor is shifted up as for a division, and the order counts how far.  Digits are then found in
batches of four for as long as the order, less 3, is not negative; one, two or three of them may be
left over, and the order tells how many of the last comparisons are to be made.

A batch may also end because nothing is left of the dividend.  Then the order is still that of the
batch, and the two tests behind the loop see to it that the rest is left out.
-/
import HeavenFox.Arch.DivBody

namespace HeavenFox.Arch

open HeavenFox.Logic.Arm
open HeavenFox.Logic (Digits Rest Unrolled)

/-! ## The macro -/

/-- `ARM_MOD_BODY`; `spare` is not used. -/
def armModBody (dividend divisor order : Reg) : Lib1 :=
  [.instr .al (.mov false order (.imm 0#32)),
   .num 1,
   .instr .al (.cmp divisor (.imm 0x10000000#32)),
   .instr .lo (.cmp divisor (.reg dividend)),
   .instr .lo (.mov false divisor (.lsl divisor 4)),
   .instr .lo (.op .add false order order (.imm 4#32)),
   .b .lo (.back 1),
   .num 1,
   .instr .al (.cmp divisor (.imm 0x80000000#32)),
   .instr .lo (.cmp divisor (.reg dividend)),
   .instr .lo (.mov false divisor (.lsl divisor 1)),
   .instr .lo (.op .add false order order (.imm 1#32)),
   .b .lo (.back 1),
   .instr .al (.op .sub true order order (.imm 3#32)),
   .b .lt (.fwd 2),
   .num 1,
   .instr .al (.cmp dividend (.reg divisor)),
   .instr .hs (.op .sub false dividend dividend (.reg divisor)),
   .instr .al (.cmp dividend (.lsr divisor 1)),
   .instr .hs (.op .sub false dividend dividend (.lsr divisor 1)),
   .instr .al (.cmp dividend (.lsr divisor 2)),
   .instr .hs (.op .sub false dividend dividend (.lsr divisor 2)),
   .instr .al (.cmp dividend (.lsr divisor 3)),
   .instr .hs (.op .sub false dividend dividend (.lsr divisor 3)),
   .instr .al (.cmp dividend (.imm 1#32)),
   .instr .al (.mov false divisor (.lsr divisor 4)),
   .instr .ge (.op .sub true order order (.imm 4#32)),
   .b .ge (.back 1),
   .instr .al (.tst order (.imm 3#32)),
   .instr .ne (.teq dividend (.imm 0#32)),
   .b .eq (.fwd 5),
   .num 2,
   .instr .al (.cmn order (.imm 2#32)),
   .b .lt (.fwd 4),
   .b .eq (.fwd 3),
   .instr .al (.cmp dividend (.reg divisor)),
   .instr .hs (.op .sub false dividend dividend (.reg divisor)),
   .instr .al (.mov false divisor (.lsr divisor 1)),
   .num 3,
   .instr .al (.cmp dividend (.reg divisor)),
   .instr .hs (.op .sub false dividend dividend (.reg divisor)),
   .instr .al (.mov false divisor (.lsr divisor 1)),
   .num 4,
   .instr .al (.cmp dividend (.reg divisor)),
   .instr .hs (.op .sub false dividend dividend (.reg divisor)),
   .num 5]

/-- A digit that nobody keeps: compare and subtract. -/
def modDigit (dividend divisor : Reg) (i : Nat) : Lib1 :=
  [.instr .al (.cmp dividend (lsrBy divisor i)),
   .instr .hs (.op .sub false dividend dividend (lsrBy divisor i))]

/-- Four digits at a time. -/
def modLoop (dividend divisor order : Reg) : Lib1 :=
  [.num 1] ++ modDigit dividend divisor 0 ++ modDigit dividend divisor 1 ++
    modDigit dividend divisor 2 ++ modDigit dividend divisor 3 ++
  [.instr .al (.cmp dividend (.imm 1#32)),
   .instr .al (.mov false divisor (.lsr divisor 4)),
   .instr .ge (.op .sub true order order (.imm 4#32)),
   .b .ge (.back 1)]

/-! ## A digit -/

section ModBody

variable {dividend divisor order : Reg} {n d j k i : Nat} {s : Core}

theorem modDigit_gets {listing : Lib1} {p : Nat}
    (h0 : listing[p]? = some (.instr .al (.cmp dividend (lsrBy divisor i))))
    (h1 : listing[p + 1]? = some (.instr .hs (.op .sub false dividend dividend (lsrBy divisor i))))
    (hdivisor : (s.regs divisor >>> i).toNat = d * 2 ^ j)
    (hs : Rest n d (j + 1) (s.regs dividend).toNat) :
    Gets listing p s (p + 2) fun t => Rest n d j (t.regs dividend).toNat ∧ Keeps [dividend] s t := by
  have hdigit := hs.digit
  rw [← hdivisor] at hdigit
  apply Gets.does h0 rfl
  show Gets _ _ (s.setSub (s.regs dividend) (s.value (lsrBy divisor i))) _ _
  rw [value_lsrBy]
  generalize hu : s.setSub (s.regs dividend) (s.regs divisor >>> i) = u
  have hkeeps : Keeps [dividend] s u := by
    rw [← hu]
    exact ⟨fun _ _ => rfl, rfl⟩
  have hregs : u.regs = s.regs := by
    rw [← hu]
    rfl
  have hhs : u.holds .hs = decide ((s.regs divisor >>> i).toNat ≤ (s.regs dividend).toNat) := by
    rw [← hu]
    rfl
  by_cases hle : (s.regs divisor >>> i).toNat ≤ (s.regs dividend).toNat
  · rw [decide_eq_true hle] at hhs
    rw [if_pos hle, ← BitVec.toNat_sub_of_le hle] at hdigit
    apply Gets.does h1 hhs
    show Gets _ _ (u.set dividend (u.regs dividend - u.value (lsrBy divisor i))) _ _
    rw [value_lsrBy]
    refine Gets.here ⟨?_, hkeeps.set (by simp)⟩
    rw [set_regs, Function.update_self, hregs]
    exact hdigit
  · rw [decide_eq_false hle] at hhs
    rw [if_neg hle] at hdigit
    apply Gets.skips h1 hhs
    refine Gets.here ⟨?_, hkeeps⟩
    rw [hregs]
    exact hdigit

theorem toNat_shift_of_le {w : Word} {e : Nat} (hw : w.toNat = d * 2 ^ e) (hi : i ≤ e) :
    (w >>> i).toNat = d * 2 ^ (e - i) := by
  obtain ⟨e, rfl⟩ := Nat.exists_eq_add_of_le hi
  rw [BitVec.toNat_ushiftRight, hw, Nat.shiftRight_eq_div_pow, Nat.pow_add, Nat.mul_left_comm,
    Nat.mul_div_cancel_left _ (Nat.two_pow_pos i), Nat.add_sub_cancel_left]

/-! ## Batches of four -/

/-- Before a batch: the order is what is left over behind it. -/
structure Batch (dividend divisor order : Reg) (n d o : Nat) (s : Core) : Prop where
  divisor : (s.regs divisor).toNat = d * 2 ^ (o + 3)
  order : (s.regs order).toInt = o
  rest : Rest n d (o + 4) (s.regs dividend).toNat

/-- Before the last digits, of which there are `j + 1`. -/
structure LeftOver (dividend divisor order : Reg) (n d j : Nat) (s : Core) : Prop where
  divisor : (s.regs divisor).toNat = d * 2 ^ j
  order : (s.regs order).toInt = j - 3
  rest : Rest n d (j + 1) (s.regs dividend).toNat

/-- The four digits of a batch. -/
theorem modDigits_gets {o : Nat} (hdd : divisor ≠ dividend)
    (hs : Batch dividend divisor order n d o s) :
    Gets (modLoop dividend divisor order) 0 s 9 fun t =>
      Rest n d o (t.regs dividend).toNat ∧ Keeps [dividend] s t := by
  have hkept : ∀ t, Keeps [dividend] s t → ∀ i ≤ 3, (t.regs divisor >>> i).toNat =
      d * 2 ^ (o + 3 - i) := by
    intro t ht i hi
    rw [ht.regs divisor (by simp [hdd])]
    exact toNat_shift_of_le hs.divisor (by omega)
  apply Gets.num rfl
  refine (modDigit_gets rfl rfl (hkept s (.refl _ _) 0 (by decide)) hs.rest).after ?_
  rintro t₁ ⟨hs₁, hk₁⟩
  refine (modDigit_gets rfl rfl (hkept t₁ hk₁ 1 (by decide)) hs₁).after ?_
  rintro t₂ ⟨hs₂, hk₂⟩
  replace hk₂ := hk₁.trans hk₂
  refine (modDigit_gets rfl rfl (hkept t₂ hk₂ 2 (by decide)) hs₂).after ?_
  rintro t₃ ⟨hs₃, hk₃⟩
  replace hk₃ := hk₂.trans hk₃
  refine (modDigit_gets rfl rfl (hkept t₃ hk₃ 3 (by decide)) hs₃).imp ?_
  rintro t₄ ⟨hs₄, hk₄⟩
  exact ⟨hs₄, hk₃.trans hk₄⟩

/-- Behind the digits of a batch and the two lines that follow them. -/
structure BatchDone (dividend divisor order : Reg) (n d o : Nat) (s : Core) : Prop where
  divisor : (s.regs divisor).toNat = d * 2 ^ (o + 3) / 2 ^ 4
  order : (s.regs order).toInt = o
  rest : Rest n d o (s.regs dividend).toNat
  ge : s.holds .ge = decide (1 ≤ (s.regs dividend).toNat)

theorem batch_gets {o : Nat} (hdd : divisor ≠ dividend) (hdo : dividend ≠ order)
    (hvo : divisor ≠ order) (hs : Batch dividend divisor order n d o s) :
    Gets (modLoop dividend divisor order) 0 s 11 fun t =>
      BatchDone dividend divisor order n d o t ∧ Keeps [dividend, divisor, order] s t := by
  refine (modDigits_gets hdd hs).after ?_
  rintro t ⟨ht, hkeeps⟩
  have hdivisor : (t.regs divisor).toNat = d * 2 ^ (o + 3) := by
    rw [hkeeps.regs divisor (by simp [hdd]), hs.divisor]
  have horder : (t.regs order).toInt = o := by
    rw [hkeeps.regs order (by simp [hdo.symm]), hs.order]
  replace hkeeps : Keeps [dividend, divisor, order] s t := hkeeps.mono (by simp)
  -- what is left is small, and a signed comparison does
  have hsmall : (t.regs dividend).toInt = (t.regs dividend).toNat := by
    have hlt := ht.lt
    have hle := (t.regs divisor).isLt
    rw [hdivisor, Nat.pow_add, ← Nat.mul_assoc] at hle
    exact BitVec.toInt_eq_toNat_of_lt (by omega)
  apply Gets.does rfl rfl
  show Gets _ _ (t.setSub (t.regs dividend) 1#32) _ _
  have hge : (t.setSub (t.regs dividend) 1#32).holds .ge =
      decide (1 ≤ (t.regs dividend).toNat) := by
    rw [setSub_ge, decide_eq_decide, hsmall]
    exact Int.ofNat_le (m := 1)
  apply Gets.does rfl rfl
  show Gets _ _ ((t.setSub (t.regs dividend) 1#32).set divisor (t.regs divisor >>> 4)) _ _
  refine Gets.here ⟨⟨?_, ?_, ?_, ?_⟩, Keeps.set ⟨hkeeps.regs, hkeeps.mem⟩ (by simp)⟩
  · rw [set_regs, Function.update_self, BitVec.toNat_ushiftRight, hdivisor,
      Nat.shiftRight_eq_div_pow]
  · rw [set_regs, Function.update_of_ne hvo.symm, setSub_regs, horder]
  · rw [set_regs, Function.update_of_ne hdd.symm]
    exact ht
  · rw [holds_set, hge, set_regs, Function.update_of_ne hdd.symm]
    rfl

/-- The remainder is found, and the tests behind the loop will see it. -/
structure Found (dividend order : Reg) (n d : Nat) (s : Core) : Prop where
  rest : (s.regs dividend).toNat = n % d
  seen : (s.regs order).toInt % 4 = 0 ∨ s.regs dividend = 0#32

theorem toInt_sub_of_lt {x y : Word} (h : -2 ^ 31 ≤ x.toInt - y.toInt)
    (h' : x.toInt - y.toInt < 2 ^ 31) : (x - y).toInt = x.toInt - y.toInt := by
  rw [BitVec.toInt_sub]
  exact Int.bmod_eq_of_le (by omega) (by omega)

/-- **The batches of four** end with the remainder, or with one, two or three digits left over. -/
theorem modLoop_gets {o : Nat} (hdd : divisor ≠ dividend) (hdo : dividend ≠ order)
    (hvo : divisor ≠ order) (hs : Batch dividend divisor order n d o s) :
    Gets (modLoop dividend divisor order) 0 s 13 fun t =>
      (Found dividend order n d t ∨
        t.regs dividend ≠ 0#32 ∧ ∃ j < 3, LeftOver dividend divisor order n d j t) ∧
          Keeps [dividend, divisor, order] s t := by
  induction o using Nat.strongRecOn generalizing s with
  | ind o ih =>
    refine (batch_gets hdd hdo hvo hs).after ?_
    rintro t ⟨ht, hkeeps⟩
    have hge := ht.ge
    by_cases hleft : 1 ≤ (t.regs dividend).toNat
    · rw [decide_eq_true hleft] at hge
      have hnot : t.regs dividend ≠ 0#32 := by
        intro hzero
        rw [hzero] at hleft
        exact absurd hleft (by decide)
      have hfour : (4#32 : Word).toInt = 4 := by decide
      have horder : (t.regs order - 4#32).toInt = o - 4 := by
        have hlt := BitVec.toInt_lt (x := t.regs order)
        rw [ht.order] at hlt
        rw [toInt_sub_of_lt, ht.order, hfour]
        · rw [ht.order, hfour]
          omega
        · rw [ht.order, hfour]
          omega
      apply Gets.does rfl hge
      show Gets _ _ ((t.setSub (t.regs order) 4#32).set order (t.regs order - 4#32)) _ _
      have hge' : ((t.setSub (t.regs order) 4#32).set order (t.regs order - 4#32)).holds .ge =
          decide (4 ≤ o) := by
        rw [holds_set, setSub_ge, decide_eq_decide, ht.order, hfour]
        omega
      generalize hu : (t.setSub (t.regs order) 4#32).set order (t.regs order - 4#32) = u at hge' ⊢
      have hregs : u.regs = Function.update t.regs order (t.regs order - 4#32) := by
        rw [← hu]
        rfl
      have hkeepsu : Keeps [dividend, divisor, order] s u := by
        rw [← hu]
        exact Keeps.set ⟨hkeeps.regs, hkeeps.mem⟩ (by simp)
      rcases Nat.lt_or_ge o 4 with ho | ho
      · rw [decide_eq_false (by omega)] at hge'
        apply Gets.falls rfl hge'
        refine Gets.here ⟨?_, hkeepsu⟩
        rcases Nat.eq_zero_or_pos o with rfl | hpos
        · refine .inl ⟨?_, .inl ?_⟩
          · rw [hregs, Function.update_of_ne hdo]
            exact ht.rest.remainder
          · rw [hregs, Function.update_self, horder]
            decide
        · obtain ⟨j, rfl⟩ : ∃ j, o = j + 1 := ⟨o - 1, by omega⟩
          refine .inr ⟨?_, j, by omega, ⟨?_, ?_, ?_⟩⟩
          · rwa [hregs, Function.update_of_ne hdo]
          · rw [hregs, Function.update_of_ne hvo, ht.divisor, Nat.add_assoc, Nat.pow_add,
              ← Nat.mul_assoc, Nat.mul_div_cancel _ (by decide)]
          · rw [hregs, Function.update_self, horder]
            omega
          · rw [hregs, Function.update_of_ne hdo]
            exact ht.rest
      · obtain ⟨o, rfl⟩ : ∃ o', o = o' + 4 := ⟨o - 4, by omega⟩
        rw [decide_eq_true ho] at hge'
        apply Gets.jumps rfl hge' rfl
        refine (ih o (by omega) ⟨?_, ?_, ?_⟩).imp ?_
        · rw [hregs, Function.update_of_ne hvo, ht.divisor, Nat.add_right_comm, Nat.pow_add,
            ← Nat.mul_assoc, Nat.mul_div_cancel _ (by decide)]
        · rw [hregs, Function.update_self, horder]
          omega
        · rw [hregs, Function.update_of_ne hdo]
          exact ht.rest
        · rintro v ⟨hend, hkeepsv⟩
          exact ⟨hend, hkeepsu.trans hkeepsv⟩
    · -- nothing is left
      rw [decide_eq_false hleft] at hge
      have hzero : t.regs dividend = 0#32 := by
        apply BitVec.eq_of_toNat_eq
        show _ = 0
        omega
      have hrest := ht.rest
      rw [hzero] at hrest
      apply Gets.skips rfl hge
      apply Gets.falls rfl hge
      refine Gets.here ⟨.inl ⟨?_, .inr hzero⟩, hkeeps⟩
      rw [hzero]
      exact hrest.exact

theorem modLoop_local : ∀ line ∈ modLoop dividend divisor order, line.isLocal := by
  simp [modLoop, modDigit, Line.isLocal]

/-! ## The last digits -/

/-- A digit with the divisor as it is. -/
theorem lastDigit_gets {listing : Lib1} {p : Nat}
    (h0 : listing[p]? = some (.instr .al (.cmp dividend (lsrBy divisor 0))))
    (h1 : listing[p + 1]? = some (.instr .hs (.op .sub false dividend dividend (lsrBy divisor 0))))
    (hdivisor : (s.regs divisor).toNat = d * 2 ^ j)
    (hs : Rest n d (j + 1) (s.regs dividend).toNat) :
    Gets listing p s (p + 2) fun t => Rest n d j (t.regs dividend).toNat ∧ Keeps [dividend] s t :=
  modDigit_gets h0 h1 (by rw [BitVec.ushiftRight_zero, hdivisor]) hs

/-- A digit, and the divisor is halved for the next. -/
theorem halve_gets {listing : Lib1} {p : Nat} (hdd : divisor ≠ dividend)
    (h0 : listing[p]? = some (.instr .al (.cmp dividend (lsrBy divisor 0))))
    (h1 : listing[p + 1]? = some (.instr .hs (.op .sub false dividend dividend (lsrBy divisor 0))))
    (h2 : listing[p + 2]? = some (.instr .al (.mov false divisor (.lsr divisor 1))))
    (hdivisor : (s.regs divisor).toNat = d * 2 ^ (j + 1))
    (hs : Rest n d (j + 2) (s.regs dividend).toNat) :
    Gets listing p s (p + 3) fun t => (t.regs divisor).toNat = d * 2 ^ j ∧
      Rest n d (j + 1) (t.regs dividend).toNat ∧ Keeps [dividend, divisor] s t := by
  refine (lastDigit_gets h0 h1 hdivisor hs).after ?_
  rintro t ⟨ht, hkeeps⟩
  apply Gets.does h2 rfl
  show Gets _ _ (t.set divisor (t.regs divisor >>> 1)) _ _
  refine Gets.here ⟨?_, ?_, (hkeeps.mono (by simp)).set (by simp)⟩
  · rw [set_regs, Function.update_self, hkeeps.regs divisor (by simp [hdd])]
    exact toNat_shift_of_le hdivisor (by omega)
  · rw [set_regs, Function.update_of_ne hdd.symm]
    exact ht

/-- From label 4. -/
theorem oneLeft_gets (hdivisor : (s.regs divisor).toNat = d * 2 ^ 0)
    (hs : Rest n d 1 (s.regs dividend).toNat) :
    Gets (armModBody dividend divisor order) 42 s 46 fun t =>
      (t.regs dividend).toNat = n % d ∧ Keeps [dividend, divisor] s t := by
  apply Gets.num rfl
  refine (lastDigit_gets rfl rfl hdivisor hs).after ?_
  rintro t ⟨ht, hkeeps⟩
  apply Gets.num rfl
  exact Gets.here ⟨ht.remainder, hkeeps.mono (by simp)⟩

/-- From label 3. -/
theorem twoLeft_gets (hdd : divisor ≠ dividend) (hdivisor : (s.regs divisor).toNat = d * 2 ^ 1)
    (hs : Rest n d 2 (s.regs dividend).toNat) :
    Gets (armModBody dividend divisor order) 38 s 46 fun t =>
      (t.regs dividend).toNat = n % d ∧ Keeps [dividend, divisor] s t := by
  apply Gets.num rfl
  refine (halve_gets (j := 0) hdd rfl rfl rfl hdivisor hs).after ?_
  rintro t ⟨hdiv, ht, hkeeps⟩
  refine (oneLeft_gets hdiv ht).imp ?_
  rintro u ⟨hrest, hkeeps'⟩
  exact ⟨hrest, hkeeps.trans hkeeps'⟩

theorem toInt_add_two {x : Word} (h : x.toInt < 0) : (x + 2#32).toInt = x.toInt + 2 := by
  have hle := BitVec.le_toInt (x := x)
  have htwo : (2#32 : Word).toInt = 2 := by decide
  rw [BitVec.toInt_add, htwo]
  exact Int.bmod_eq_of_le (by omega) (by omega)

/-- **The last digits**, from label 2: the order tells how many there are. -/
theorem leftOver_gets (hdd : divisor ≠ dividend) (hj : j < 3)
    (hs : LeftOver dividend divisor order n d j s) :
    Gets (armModBody dividend divisor order) 31 s 46 fun t =>
      (t.regs dividend).toNat = n % d ∧ Keeps [dividend, divisor] s t := by
  have horder := hs.order
  have htwo : (2#32 : Word).toInt = 2 := by decide
  apply Gets.num rfl
  apply Gets.does rfl rfl
  show Gets _ _ (s.setAdd (s.regs order) 2#32) _ _
  have hlt : (s.setAdd (s.regs order) 2#32).holds .lt = decide (j = 0) := by
    rw [setAdd_lt, decide_eq_decide, horder, htwo]
    omega
  have heq : (s.setAdd (s.regs order) 2#32).holds .eq = decide (j = 1) := by
    rw [setAdd_eq, decide_eq_decide, ← BitVec.toInt_inj, toInt_add_two (by omega), horder,
      BitVec.toInt_zero]
    omega
  generalize hu : s.setAdd (s.regs order) 2#32 = u at hlt heq ⊢
  have hregs : u.regs = s.regs := by
    rw [← hu]
    rfl
  have hkeeps : Keeps [dividend, divisor] s u := by
    rw [← hu]
    exact ⟨fun _ _ => rfl, rfl⟩
  have hdivisor := hs.divisor
  have hrest := hs.rest
  rw [← hregs] at hdivisor hrest
  obtain rfl | rfl | rfl : j = 0 ∨ j = 1 ∨ j = 2 := by omega
  · apply Gets.jumps rfl hlt rfl
    refine (oneLeft_gets hdivisor hrest).imp ?_
    rintro t ⟨ht, hkeeps'⟩
    exact ⟨ht, hkeeps.trans hkeeps'⟩
  · apply Gets.falls rfl hlt
    apply Gets.jumps rfl heq rfl
    refine (twoLeft_gets hdd hdivisor hrest).imp ?_
    rintro t ⟨ht, hkeeps'⟩
    exact ⟨ht, hkeeps.trans hkeeps'⟩
  · apply Gets.falls rfl hlt
    apply Gets.falls rfl heq
    refine (halve_gets (j := 1) hdd rfl rfl rfl hdivisor hrest).after ?_
    rintro t ⟨hdiv, ht, hkeeps'⟩
    refine (twoLeft_gets hdd hdiv ht).imp ?_
    rintro v ⟨hv, hkeeps''⟩
    exact ⟨hv, (hkeeps.trans hkeeps').trans hkeeps''⟩

/-! ## The remainder -/

/-- The order goes with the divisor. -/
theorem counts_order (r : Reg) (k : Nat) :
    Counts (.op .add false r r (.imm (BitVec.ofNat 32 k))) k r fun e => BitVec.ofNat 32 e where
  regs s e h := by
    show Function.update s.regs r (s.regs r + BitVec.ofNat 32 k) = _
    rw [h, BitVec.ofNat_add]
  mem _ := rfl
  holds _ _ := holds_set

/-- The two lowest bits are tested. -/
theorem and_three_eq_zero_iff {w : Word} : w &&& 3#32 = 0#32 ↔ w.toInt % 4 = 0 := by
  have hand : (w &&& 3#32).toNat = w.toNat % 4 := by
    rw [BitVec.toNat_and]
    exact Nat.and_two_pow_sub_one_eq_mod _ 2
  rw [← BitVec.toNat_inj, hand, BitVec.toInt_eq_toNat_cond]
  show w.toNat % 4 = 0 ↔ _
  split_ifs <;> omega

/-- **Behind the batches**, the two tests pass over the last digits where there are none. -/
theorem behindLoop_gets (hdd : divisor ≠ dividend)
    (hs : Found dividend order n d s ∨
      s.regs dividend ≠ 0#32 ∧ ∃ j < 3, LeftOver dividend divisor order n d j s) :
    Gets (armModBody dividend divisor order) 28 s 46 fun t =>
      (t.regs dividend).toNat = n % d ∧ Keeps [dividend, divisor] s t := by
  apply Gets.does rfl rfl
  show Gets _ _ (s.setNZC (s.regs order &&& 3#32) (s.carry (.imm 3#32))) _ _
  generalize hu : s.setNZC (s.regs order &&& 3#32) (s.carry (.imm 3#32)) = u
  have hkeeps : Keeps [dividend, divisor] s u := by
    rw [← hu]
    exact ⟨fun _ _ => rfl, rfl⟩
  have hregs : u.regs = s.regs := by
    rw [← hu]
    rfl
  have heq : u.holds .eq = decide ((s.regs order).toInt % 4 = 0) := by
    rw [← hu, setNZC_eq, decide_eq_decide]
    exact and_three_eq_zero_iff
  have hne : u.holds .ne = !u.holds .eq := rfl
  by_cases hfour : (s.regs order).toInt % 4 = 0
  · -- no digit is left over
    rw [decide_eq_true hfour] at heq
    rw [heq] at hne
    have hrest : (s.regs dividend).toNat = n % d := by
      rcases hs with hfound | ⟨-, j, hj, hleft⟩
      · exact hfound.rest
      · have horder := hleft.order
        omega
    apply Gets.skips rfl hne
    apply Gets.jumps rfl heq rfl
    apply Gets.num rfl
    rw [← hregs] at hrest
    exact Gets.here ⟨hrest, hkeeps⟩
  · rw [decide_eq_false hfour] at heq
    rw [heq] at hne
    apply Gets.does rfl hne
    show Gets _ _ (u.setNZC (u.regs dividend ^^^ 0#32) (u.carry (.imm 0#32))) _ _
    have heq' : (u.setNZC (u.regs dividend ^^^ 0#32) (u.carry (.imm 0#32))).holds .eq =
        decide (s.regs dividend = 0#32) := by
      rw [setNZC_eq, BitVec.xor_zero, hregs]
    generalize hv : u.setNZC (u.regs dividend ^^^ 0#32) (u.carry (.imm 0#32)) = v at heq' ⊢
    have hvregs : v.regs = s.regs := by
      rw [← hv]
      exact hregs
    have hkeeps' : Keeps [dividend, divisor] s v := by
      rw [← hv]
      exact ⟨hkeeps.regs, hkeeps.mem⟩
    rcases hs with hfound | ⟨hnot, j, hj, hleft⟩
    · have hzero := hfound.seen.resolve_left hfour
      have hrest := hfound.rest
      rw [decide_eq_true hzero] at heq'
      apply Gets.jumps rfl heq' rfl
      apply Gets.num rfl
      rw [← hvregs] at hrest
      exact Gets.here ⟨hrest, hkeeps'⟩
    · rw [decide_eq_false hnot] at heq'
      apply Gets.falls rfl heq'
      have hleft' : LeftOver dividend divisor order n d j v := by
        refine ⟨?_, ?_, ?_⟩
        · rw [hvregs, hleft.divisor]
        · rw [hvregs, hleft.order]
        · rw [hvregs]
          exact hleft.rest
      refine (leftOver_gets hdd hj hleft').imp ?_
      rintro t ⟨ht, hkeepst⟩
      exact ⟨ht, hkeeps'.trans hkeepst⟩

theorem eq_umod_of_toNat {x y z : Word} (h : x.toNat = y.toNat % z.toNat) : x = y % z := by
  apply BitVec.eq_of_toNat_eq
  rw [h, BitVec.toNat_umod]

/-- **`ARM_MOD_BODY` leaves the remainder.** -/
theorem armModBody_gets (hdd : divisor ≠ dividend) (hdo : dividend ≠ order) (hvo : divisor ≠ order)
    (hd : 0 < (s.regs divisor).toNat) :
    Gets (armModBody dividend divisor order) 0 s 46 fun t =>
      t.regs dividend = s.regs dividend % s.regs divisor ∧
        Keeps [dividend, divisor, order] s t := by
  apply Gets.does rfl rfl
  show Gets _ _ (s.set order 0#32) _ _
  have ht₀ : Shifted divisor order (fun e => BitVec.ofNat 32 e) (s.regs divisor).toNat 0
      (s.set order 0#32) := by
    refine ⟨?_, Function.update_self ..⟩
    rw [set_regs, Function.update_of_ne hvo, Nat.pow_zero, Nat.mul_one]
  refine Gets.after ((shiftLoop_gets (counts_order order 4) hvo (by decide) (by decide) hd
    ht₀).inside 1 7 shiftLoop_local rfl rfl) ?_
  rintro t₁ ⟨⟨e, ht₁⟩, hk₁, -⟩
  refine Gets.after ((shiftLoop_gets (counts_order order 1) hvo (by decide) (by decide) hd
    ht₁).inside 7 13 shiftLoop_local rfl rfl) ?_
  rintro t₂ ⟨⟨k, hdivisor, horder⟩, hk₂, hend⟩
  have hkept : t₂.regs dividend = s.regs dividend := by
    rw [(hk₁.trans hk₂).regs dividend (by simp [hdd.symm, hdo]), set_regs, Function.update_of_ne hdo]
  have hkeeps : Keeps [dividend, divisor, order] s t₂ :=
    ((Keeps.refl _ s).set (by simp)).trans ((hk₁.trans hk₂).mono (by simp))
  rw [hkept] at hend
  have hrest : Rest (s.regs dividend).toNat (s.regs divisor).toNat (k + 1)
      (t₂.regs dividend).toNat := by
    rw [hkept]
    exact .start (shifted_far hd hdivisor hend)
  have hk : k < 32 := by
    apply shift_lt hd
    rw [← hdivisor]
    exact (t₂.regs divisor).isLt
  have hthree : (3#32 : Word).toInt = 3 := by decide
  have horder₂ : (t₂.regs order).toInt = k := by
    have hmod : k % 2 ^ 32 = k := Nat.mod_eq_of_lt (by omega)
    rw [horder, BitVec.toInt_eq_toNat_of_lt, BitVec.toNat_ofNat, hmod]
    rw [BitVec.toNat_ofNat, hmod]
    omega
  have horder₃ : (t₂.regs order - 3#32).toInt = k - 3 := by
    rw [toInt_sub_of_lt, horder₂, hthree]
    · rw [horder₂, hthree]
      omega
    · rw [horder₂, hthree]
      omega
  apply Gets.does rfl rfl
  show Gets _ _ ((t₂.setSub (t₂.regs order) 3#32).set order (t₂.regs order - 3#32)) _ _
  have hlt : ((t₂.setSub (t₂.regs order) 3#32).set order (t₂.regs order - 3#32)).holds .lt =
      decide (k < 3) := by
    rw [holds_set, setSub_lt, decide_eq_decide, horder₂, hthree]
    omega
  generalize hu : (t₂.setSub (t₂.regs order) 3#32).set order (t₂.regs order - 3#32) = u at hlt ⊢
  have hregs : u.regs = Function.update t₂.regs order (t₂.regs order - 3#32) := by
    rw [← hu]
    rfl
  have hkeepsu : Keeps [dividend, divisor, order] s u := by
    rw [← hu]
    exact Keeps.set ⟨hkeeps.regs, hkeeps.mem⟩ (by simp)
  have hudivisor : (u.regs divisor).toNat = (s.regs divisor).toNat * 2 ^ k := by
    rw [hregs, Function.update_of_ne hvo, hdivisor]
  have huorder : (u.regs order).toInt = k - 3 := by
    rw [hregs, Function.update_self, horder₃]
  rw [← Function.update_of_ne hdo (t₂.regs order - 3#32) t₂.regs, ← hregs] at hrest
  rcases Nat.lt_or_ge k 3 with hfew | hmany
  · -- there is no batch
    rw [decide_eq_true hfew] at hlt
    apply Gets.jumps rfl hlt rfl
    refine (leftOver_gets hdd hfew ⟨hudivisor, huorder, hrest⟩).imp ?_
    rintro t ⟨ht, hkeepst⟩
    exact ⟨eq_umod_of_toNat ht, hkeepsu.trans (hkeepst.mono (by simp))⟩
  · obtain ⟨o, rfl⟩ : ∃ o, k = o + 3 := ⟨k - 3, by omega⟩
    rw [decide_eq_false (by omega)] at hlt
    apply Gets.falls rfl hlt
    have hbatch : Batch dividend divisor order (s.regs dividend).toNat (s.regs divisor).toNat o u :=
      ⟨hudivisor, by rw [huorder]; omega, hrest⟩
    refine Gets.after ((modLoop_gets hdd hdo hvo hbatch).inside 15 28 modLoop_local rfl rfl) ?_
    rintro v ⟨hv, hkeepsv⟩
    refine (behindLoop_gets hdd hv).imp ?_
    rintro t ⟨ht, hkeepst⟩
    exact ⟨eq_umod_of_toNat ht, (hkeepsu.trans hkeepsv).trans (hkeepst.mono (by simp))⟩

theorem armModBody_local : ∀ line ∈ armModBody dividend divisor order, line.isLocal := by
  simp [armModBody, Line.isLocal]

end ModBody

end HeavenFox.Arch
