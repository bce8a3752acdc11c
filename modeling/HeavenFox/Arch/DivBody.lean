/-
# HeavenFox.Arch.DivBody -- the macros `ARM_DIV_BODY` and `ARM_DIV2_ORDER` of `lib1funcs.S`

The divisor is shifted up, at first by 3, then by 4 and at last by 1, and a bit goes with it; then
four digits of the quotient are found in every round.  The rounds are over when the bit is shifted
out or nothing is left of the dividend.  Where the bit is shifted out within a round, the round still
subtracts from the dividend, and sets no digit.

The registers are those of the macro, and need only be different ones.
-/
import HeavenFox.Logic.ArmCore
import HeavenFox.Logic.RestoringDivision

namespace HeavenFox.Arch

open HeavenFox.Logic.Arm
open HeavenFox.Logic (Digits Rest Unrolled)

/-- The names of `lib1funcs.S`. -/
inductive Lib1Name where
  | udivsi3
  | umodsi3
  | divsi3
  | modsi3
  | ldiv0
  deriving DecidableEq, Repr

/-- A piece of `lib1funcs.S`. -/
abbrev Lib1 := Listing Lib1Name

/-- The shifted operands `r`, `r, lsr #1`, … of an unrolled round. -/
def lsrBy (r : Reg) : Nat → Operand
  | 0 => .reg r
  | k + 1 => .lsr r (k + 1)

/-! ## The macros -/

/-- `ARM_DIV_BODY` -/
def armDivBody (dividend divisor result curbit : Reg) : Lib1 :=
  [.instr .al (.tst divisor (.imm 0xe0000000#32)),
   .instr .eq (.mov false divisor (.lsl divisor 3)),
   .instr .eq (.mov false curbit (.imm 8#32)),
   .instr .ne (.mov false curbit (.imm 1#32)),
   .num 1,
   .instr .al (.cmp divisor (.imm 0x10000000#32)),
   .instr .lo (.cmp divisor (.reg dividend)),
   .instr .lo (.mov false divisor (.lsl divisor 4)),
   .instr .lo (.mov false curbit (.lsl curbit 4)),
   .b .lo (.back 1),
   .num 1,
   .instr .al (.cmp divisor (.imm 0x80000000#32)),
   .instr .lo (.cmp divisor (.reg dividend)),
   .instr .lo (.mov false divisor (.lsl divisor 1)),
   .instr .lo (.mov false curbit (.lsl curbit 1)),
   .b .lo (.back 1),
   .instr .al (.mov false result (.imm 0#32)),
   .num 1,
   .instr .al (.cmp dividend (.reg divisor)),
   .instr .hs (.op .sub false dividend dividend (.reg divisor)),
   .instr .hs (.op .orr false result result (.reg curbit)),
   .instr .al (.cmp dividend (.lsr divisor 1)),
   .instr .hs (.op .sub false dividend dividend (.lsr divisor 1)),
   .instr .hs (.op .orr false result result (.lsr curbit 1)),
   .instr .al (.cmp dividend (.lsr divisor 2)),
   .instr .hs (.op .sub false dividend dividend (.lsr divisor 2)),
   .instr .hs (.op .orr false result result (.lsr curbit 2)),
   .instr .al (.cmp dividend (.lsr divisor 3)),
   .instr .hs (.op .sub false dividend dividend (.lsr divisor 3)),
   .instr .hs (.op .orr false result result (.lsr curbit 3)),
   .instr .al (.cmp dividend (.imm 0#32)),
   .instr .ne (.mov true curbit (.lsr curbit 4)),
   .instr .ne (.mov false divisor (.lsr divisor 4)),
   .b .ne (.back 1)]

/-- `ARM_DIV2_ORDER` -/
def armDiv2Order (divisor order : Reg) : Lib1 :=
  [.instr .al (.cmp divisor (.imm (1#32 <<< 16))),
   .instr .hs (.mov false divisor (.lsr divisor 16)),
   .instr .hs (.mov false order (.imm 16#32)),
   .instr .lo (.mov false order (.imm 0#32)),
   .instr .al (.cmp divisor (.imm (1#32 <<< 8))),
   .instr .hs (.mov false divisor (.lsr divisor 8)),
   .instr .hs (.op .add false order order (.imm 8#32)),
   .instr .al (.cmp divisor (.imm (1#32 <<< 4))),
   .instr .hs (.mov false divisor (.lsr divisor 4)),
   .instr .hs (.op .add false order order (.imm 4#32)),
   .instr .al (.cmp divisor (.imm (1#32 <<< 2))),
   .instr .hi (.op .add false order order (.imm 3#32)),
   .instr .ls (.op .add false order order (.lsr divisor 1))]

/-! ## Blocks that come again -/

/-- Shift the divisor up by `k` while it is below the limit and the dividend; `count` keeps count. -/
def shiftLoop (dividend divisor : Reg) (limit : Word) (k : Nat) (count : Instr) : Lib1 :=
  [.num 1,
   .instr .al (.cmp divisor (.imm limit)),
   .instr .lo (.cmp divisor (.reg dividend)),
   .instr .lo (.mov false divisor (.lsl divisor k)),
   .instr .lo count,
   .b .lo (.back 1)]

/-- A digit of the quotient: compare, subtract, and set it. -/
def divDigit (dividend divisor result curbit : Reg) (i : Nat) : Lib1 :=
  [.instr .al (.cmp dividend (lsrBy divisor i)),
   .instr .hs (.op .sub false dividend dividend (lsrBy divisor i)),
   .instr .hs (.op .orr false result result (lsrBy curbit i))]

/-- The division loop. -/
def divLoop (dividend divisor result curbit : Reg) : Lib1 :=
  [.num 1] ++ divDigit dividend divisor result curbit 0 ++
    divDigit dividend divisor result curbit 1 ++ divDigit dividend divisor result curbit 2 ++
    divDigit dividend divisor result curbit 3 ++
  [.instr .al (.cmp dividend (.imm 0#32)),
   .instr .ne (.mov true curbit (.lsr curbit 4)),
   .instr .ne (.mov false divisor (.lsr divisor 4)),
   .b .ne (.back 1)]

/-! ## Shifting up -/

@[simp] theorem value_lsrBy (s : Core) (r : Reg) (k : Nat) : s.value (lsrBy r k) = s.regs r >>> k := by
  cases k with
  | zero => exact (BitVec.ushiftRight_zero _).symm
  | succ k => rfl

/-- An instruction that takes the count of shifts from `e` to `e + k`, and touches nothing else. -/
structure Counts (count : Instr) (k : Nat) (cnt : Reg) (enc : Nat → Word) : Prop where
  regs : ∀ s e, s.regs cnt = enc e →
    (count.exec s).regs = Function.update s.regs cnt (enc (e + k))
  mem : ∀ s, (count.exec s).mem = s.mem
  holds : ∀ s c, (count.exec s).holds c = s.holds c

/-- The divisor `d` is shifted up by `e`, and the count says so. -/
def Shifted (divisor cnt : Reg) (enc : Nat → Word) (d e : Nat) (s : Core) : Prop :=
  (s.regs divisor).toNat = d * 2 ^ e ∧ s.regs cnt = enc e

/-- A shift that does not go past 32 bits is counted in less than 32. -/
theorem shift_lt {d e : Nat} (hd : 0 < d) (h : d * 2 ^ e < 2 ^ 32) : e < 32 := by
  have hle : 1 * 2 ^ e ≤ d * 2 ^ e := Nat.mul_le_mul_right _ hd
  rw [Nat.one_mul] at hle
  exact (Nat.pow_lt_pow_iff_right (by decide)).mp (Nat.lt_of_le_of_lt hle h)

section ShiftLoop

variable {dividend divisor cnt : Reg} {limit : Word} {k : Nat} {count : Instr} {enc : Nat → Word}
  {d : Nat}

/-- One more round. -/
theorem shiftLoop_again (hcount : Counts count k cnt enc) (hvc : divisor ≠ cnt)
    (hlimit : limit.toNat * 2 ^ k ≤ 2 ^ 32) {e : Nat} {s : Core}
    (hs : Shifted divisor cnt enc d e s) (hlim : s.regs divisor < limit)
    (hless : s.regs divisor < s.regs dividend) :
    Gets (shiftLoop dividend divisor limit k count) 0 s 0 fun t =>
      Shifted divisor cnt enc d (e + k) t ∧ Keeps [divisor, cnt] s t := by
  obtain ⟨hD, hcnt⟩ := hs
  -- no bit is shifted out below the limit
  have hroom : (s.regs divisor).toNat * 2 ^ k < 2 ^ 32 := by
    have hlt : (s.regs divisor).toNat < limit.toNat := hlim
    exact Nat.lt_of_lt_of_le (Nat.mul_lt_mul_of_pos_right hlt (Nat.two_pow_pos k)) hlimit
  have hsum : (s.regs divisor).toNat * 2 ^ k = d * 2 ^ (e + k) := by
    rw [hD, Nat.pow_add, Nat.mul_assoc]
  have hshift : (s.regs divisor <<< k).toNat = d * 2 ^ (e + k) := by
    rw [BitVec.toNat_shiftLeft, Nat.shiftLeft_eq, Nat.mod_eq_of_lt hroom, hsum]
  apply Gets.num rfl
  apply Gets.does rfl rfl
  show Gets _ _ (s.setSub (s.regs divisor) limit) _ _
  apply Gets.does rfl (by rw [setSub_lo, decide_eq_true hlim])
  show Gets _ _ ((s.setSub _ _).setSub (s.regs divisor) (s.regs dividend)) _ _
  generalize hs₂ : (s.setSub _ limit).setSub (s.regs divisor) (s.regs dividend) = s₂
  have hlo : s₂.holds .lo = true := by
    rw [← hs₂, setSub_lo, decide_eq_true hless]
  have hregs : s₂.regs = s.regs := by
    rw [← hs₂]
    rfl
  have hmem : s₂.mem = s.mem := by
    rw [← hs₂]
    rfl
  apply Gets.does rfl hlo
  show Gets _ _ (s₂.set divisor (s₂.regs divisor <<< k)) _ _
  rw [hregs]
  apply Gets.does rfl (holds_set.trans hlo)
  apply Gets.jumps rfl (by rw [hcount.holds, holds_set, hlo]) rfl
  have hcnt' : (s₂.set divisor (s.regs divisor <<< k)).regs cnt = enc e := by
    rw [set_regs, Function.update_of_ne hvc.symm, hregs, hcnt]
  have hregs' := hcount.regs _ e hcnt'
  rw [set_regs, hregs] at hregs'
  refine Gets.here ⟨⟨?_, ?_⟩, ⟨fun r hr => ?_, ?_⟩⟩
  · rw [hregs', Function.update_of_ne hvc, Function.update_self, hshift]
  · rw [hregs', Function.update_self]
  · rw [List.mem_cons, List.mem_singleton, not_or] at hr
    rw [hregs', Function.update_of_ne hr.2, Function.update_of_ne hr.1]
  · rw [hcount.mem, set_mem, hmem]

/-- The last round. -/
theorem shiftLoop_done {s : Core}
    (h : limit ≤ s.regs divisor ∨ s.regs dividend ≤ s.regs divisor) :
    Gets (shiftLoop dividend divisor limit k count) 0 s 6 fun t =>
      t.regs = s.regs ∧ t.mem = s.mem := by
  apply Gets.num rfl
  apply Gets.does rfl rfl
  show Gets _ _ (s.setSub (s.regs divisor) limit) _ _
  by_cases hlim : s.regs divisor < limit
  · have hnot : ¬ s.regs divisor < s.regs dividend :=
      BitVec.not_lt.mpr (h.resolve_left (BitVec.not_le.mpr hlim))
    apply Gets.does rfl (by rw [setSub_lo, decide_eq_true hlim])
    show Gets _ _ ((s.setSub _ _).setSub (s.regs divisor) (s.regs dividend)) _ _
    have hlo : ((s.setSub (s.regs divisor) limit).setSub (s.regs divisor)
        (s.regs dividend)).holds .lo = false := by
      rw [setSub_lo, decide_eq_false hnot]
    apply Gets.skips rfl hlo
    apply Gets.skips rfl hlo
    apply Gets.falls rfl hlo
    exact Gets.here ⟨rfl, rfl⟩
  · have hlo : (s.setSub (s.regs divisor) limit).holds .lo = false := by
      rw [setSub_lo, decide_eq_false hlim]
    apply Gets.skips rfl hlo
    apply Gets.skips rfl hlo
    apply Gets.skips rfl hlo
    apply Gets.falls rfl hlo
    exact Gets.here ⟨rfl, rfl⟩

/-- **The divisor is shifted up** as far as the limit and the dividend ask for. -/
theorem shiftLoop_gets (hcount : Counts count k cnt enc) (hvc : divisor ≠ cnt) (hk : 0 < k)
    (hlimit : limit.toNat * 2 ^ k ≤ 2 ^ 32) (hd : 0 < d) {e : Nat} {s : Core}
    (hs : Shifted divisor cnt enc d e s) :
    Gets (shiftLoop dividend divisor limit k count) 0 s 6 fun t =>
      (∃ e', Shifted divisor cnt enc d e' t) ∧ Keeps [divisor, cnt] s t ∧
        (limit ≤ t.regs divisor ∨ t.regs dividend ≤ t.regs divisor) := by
  induction hm : 32 - e using Nat.strongRecOn generalizing s e with
  | ind m ih =>
    by_cases hmore : s.regs divisor < limit ∧ s.regs divisor < s.regs dividend
    · refine (shiftLoop_again hcount hvc hlimit hs hmore.1 hmore.2).after ?_
      rintro t ⟨ht, hkeeps⟩
      have hlt : d * 2 ^ (e + k) < 2 ^ 32 := by
        rw [← ht.1]
        exact (t.regs divisor).isLt
      have hfew := shift_lt hd hlt
      refine (ih (32 - (e + k)) (by omega) ht rfl).imp ?_
      rintro u ⟨hu, hkeeps', hend⟩
      exact ⟨hu, hkeeps.trans hkeeps', hend⟩
    · have hend : limit ≤ s.regs divisor ∨ s.regs dividend ≤ s.regs divisor := by
        rcases not_and_or.mp hmore with hlim | hless
        · exact Or.inl (BitVec.not_lt.mp hlim)
        · exact Or.inr (BitVec.not_lt.mp hless)
      refine (shiftLoop_done hend).imp ?_
      rintro t ⟨hregs, hmem⟩
      unfold Shifted at hs ⊢
      rw [hregs]
      exact ⟨⟨e, hs⟩, ⟨fun r _ => congrFun hregs r, hmem⟩, hend⟩

/-- The divisor has been shifted far enough. -/
theorem shifted_far {n w : Word} {e : Nat} (hd : 0 < d) (hw : w.toNat = d * 2 ^ e)
    (hend : 0x80000000#32 ≤ w ∨ n ≤ w) : n.toNat < d * 2 ^ (e + 1) := by
  have hlt := n.isLt
  rw [Nat.pow_succ, ← Nat.mul_assoc, ← hw]
  rcases hend with hlimit | hdividend
  · have hle : 0x80000000 ≤ w.toNat := hlimit
    omega
  · have hle : n.toNat ≤ w.toNat := hdividend
    have hpos : 0 < w.toNat := by
      rw [hw]
      exact Nat.mul_pos hd (Nat.two_pow_pos e)
    omega

theorem shiftLoop_local :
    ∀ line ∈ shiftLoop dividend divisor limit k count, line.isLocal := by
  simp [shiftLoop, Line.isLocal]

end ShiftLoop

/-! ## The division loop -/

section DivLoop

variable {dividend divisor result curbit : Reg} {n d k i : Nat} {s : Core}

/-- Behind `i` digits of a round that begins with the divisor shifted by `k`. -/
structure InRound (dividend divisor result curbit : Reg) (n d k i : Nat) (s : Core) : Prop where
  divisor : (s.regs divisor).toNat = d * 2 ^ k
  curbit : (s.regs curbit).toNat = 2 ^ k
  digits : Unrolled n d k i (s.regs dividend).toNat (s.regs result).toNat

/-- The registers of the macro are different ones. -/
structure Apart (dividend divisor result curbit : Reg) : Prop where
  dd : dividend ≠ divisor
  dr : dividend ≠ result
  dc : dividend ≠ curbit
  vr : divisor ≠ result
  vc : divisor ≠ curbit
  rc : result ≠ curbit

theorem divDigit_gets {listing : Lib1} {p : Nat} (hap : Apart dividend divisor result curbit)
    (h0 : listing[p]? = some (.instr .al (.cmp dividend (lsrBy divisor i))))
    (h1 : listing[p + 1]? = some (.instr .hs (.op .sub false dividend dividend (lsrBy divisor i))))
    (h2 : listing[p + 2]? = some (.instr .hs (.op .orr false result result (lsrBy curbit i))))
    (hs : InRound dividend divisor result curbit n d k i s) :
    Gets listing p s (p + 3) fun t =>
      InRound dividend divisor result curbit n d k (i + 1) t ∧ Keeps [dividend, result] s t := by
  have hdivisor : (s.regs divisor >>> i).toNat = d * 2 ^ k / 2 ^ i := by
    rw [BitVec.toNat_ushiftRight, hs.divisor, Nat.shiftRight_eq_div_pow]
  have hcurbit : (s.regs curbit >>> i).toNat = 2 ^ k / 2 ^ i := by
    rw [BitVec.toNat_ushiftRight, hs.curbit, Nat.shiftRight_eq_div_pow]
  have hdigits := hs.digits.subtract
  rw [← hdivisor, ← hcurbit] at hdigits
  apply Gets.does h0 rfl
  show Gets _ _ (s.setSub (s.regs dividend) (s.value (lsrBy divisor i))) _ _
  rw [value_lsrBy]
  by_cases hle : (s.regs divisor >>> i).toNat ≤ (s.regs dividend).toNat
  · have hhs : (s.setSub (s.regs dividend) (s.regs divisor >>> i)).holds .hs = true :=
      decide_eq_true hle
    rw [if_pos hle, if_pos hle, ← BitVec.toNat_sub_of_le hle, ← BitVec.toNat_or] at hdigits
    have hsub : Instr.exec (s.setSub (s.regs dividend) (s.regs divisor >>> i))
        (.op .sub false dividend dividend (lsrBy divisor i)) =
        (s.setSub (s.regs dividend) (s.regs divisor >>> i)).set dividend
          (s.regs dividend - s.regs divisor >>> i) := by
      simp [Instr.exec, Op.eval]
    apply Gets.does h1 hhs
    rw [hsub]
    generalize hs₁ : (s.setSub (s.regs dividend) (s.regs divisor >>> i)).set dividend
      (s.regs dividend - s.regs divisor >>> i) = s₁
    have hregs₁ : s₁.regs =
        Function.update s.regs dividend (s.regs dividend - s.regs divisor >>> i) := by
      rw [← hs₁]
      rfl
    have hmem₁ : s₁.mem = s.mem := by
      rw [← hs₁]
      rfl
    have hor : Instr.exec s₁ (.op .orr false result result (lsrBy curbit i)) =
        s₁.set result (s.regs result ||| s.regs curbit >>> i) := by
      simp [Instr.exec, Op.eval, hregs₁, hap.dr.symm, hap.dc.symm]
    apply Gets.does h2 (by rw [← hs₁, holds_set, hhs])
    rw [hor]
    refine Gets.here ⟨⟨?_, ?_, ?_⟩, ⟨fun r hr => ?_, hmem₁⟩⟩
    · rw [set_regs, hregs₁, Function.update_of_ne hap.vr, Function.update_of_ne hap.dd.symm,
        hs.divisor]
    · rw [set_regs, hregs₁, Function.update_of_ne hap.rc.symm, Function.update_of_ne hap.dc.symm,
        hs.curbit]
    · rw [set_regs, hregs₁, Function.update_self, Function.update_of_ne hap.dr,
        Function.update_self]
      exact hdigits
    · rw [List.mem_cons, List.mem_singleton, not_or] at hr
      rw [set_regs, hregs₁, Function.update_of_ne hr.2, Function.update_of_ne hr.1]
  · have hhs : (s.setSub (s.regs dividend) (s.regs divisor >>> i)).holds .hs = false :=
      decide_eq_false hle
    rw [if_neg hle, if_neg hle] at hdigits
    apply Gets.skips h1 hhs
    apply Gets.skips h2 hhs
    exact Gets.here ⟨⟨hs.divisor, hs.curbit, hdigits⟩, ⟨fun _ _ => rfl, rfl⟩⟩

/-- The four digits of a round. -/
theorem divDigits_gets (hap : Apart dividend divisor result curbit)
    (hs : InRound dividend divisor result curbit n d k 0 s) :
    Gets (divLoop dividend divisor result curbit) 0 s 13 fun t =>
      InRound dividend divisor result curbit n d k 4 t ∧ Keeps [dividend, result] s t := by
  apply Gets.num rfl
  refine (divDigit_gets hap rfl rfl rfl hs).after ?_
  rintro t₁ ⟨hs₁, hk₁⟩
  refine (divDigit_gets hap rfl rfl rfl hs₁).after ?_
  rintro t₂ ⟨hs₂, hk₂⟩
  refine (divDigit_gets hap rfl rfl rfl hs₂).after ?_
  rintro t₃ ⟨hs₃, hk₃⟩
  refine (divDigit_gets hap rfl rfl rfl hs₃).imp ?_
  rintro t₄ ⟨hs₄, hk₄⟩
  exact ⟨hs₄, ((hk₁.trans hk₂).trans hk₃).trans hk₄⟩

/-- **The rounds find the quotient.** -/
theorem divLoop_gets (hap : Apart dividend divisor result curbit)
    (hs : InRound dividend divisor result curbit n d k 0 s) :
    Gets (divLoop dividend divisor result curbit) 0 s 17 fun t =>
      (t.regs result).toNat = n / d ∧ Keeps [dividend, divisor, result, curbit] s t := by
  induction k using Nat.strongRecOn generalizing s with
  | ind k ih =>
    refine (divDigits_gets hap hs).after ?_
    rintro t ⟨ht, hkeeps⟩
    replace hkeeps : Keeps [dividend, divisor, result, curbit] s t := hkeeps.mono (by simp)
    apply Gets.does rfl rfl
    show Gets _ _ (t.setSub (t.regs dividend) 0#32) _ _
    by_cases hzero : t.regs dividend = 0#32
    · -- early termination
      have hne : (t.setSub (t.regs dividend) 0#32).holds .ne = false := by
        rw [setSub_ne, decide_eq_false (not_not.mpr hzero)]
      have hdigits := ht.digits
      rw [hzero] at hdigits
      apply Gets.skips rfl hne
      apply Gets.skips rfl hne
      apply Gets.falls rfl hne
      exact Gets.here ⟨hdigits.exact, hkeeps.trans ⟨fun _ _ => rfl, rfl⟩⟩
    · have hcurbit : (t.regs curbit >>> 4).toNat = 2 ^ k / 2 ^ 4 := by
        rw [BitVec.toNat_ushiftRight, ht.curbit, Nat.shiftRight_eq_div_pow]
      apply Gets.does rfl (by rw [setSub_ne, decide_eq_true hzero])
      generalize hu : Instr.exec (t.setSub (t.regs dividend) 0#32)
        (.mov true curbit (.lsr curbit 4)) = u
      have hregs : u.regs = Function.update t.regs curbit (t.regs curbit >>> 4) := by
        rw [← hu]
        rfl
      have hkeepsu : Keeps [dividend, divisor, result, curbit] s u := by
        rw [← hu]
        show Keeps _ s (((t.setSub _ _).setNZC _ _).set curbit _)
        exact Keeps.set ⟨hkeeps.regs, hkeeps.mem⟩ (by simp)
      have hne : u.holds .ne = decide (t.regs curbit >>> 4 ≠ 0#32) := by
        rw [← hu]
        exact holds_set.trans setNZC_ne
      rcases Nat.lt_or_ge k 4 with hk | hk
      · -- the bit is shifted out
        have hout : t.regs curbit >>> 4 = 0#32 := by
          apply BitVec.eq_of_toNat_eq
          rw [hcurbit, Nat.div_eq_of_lt (Nat.pow_lt_pow_right (by decide) hk)]
          rfl
        rw [decide_eq_false (not_not.mpr hout)] at hne
        apply Gets.skips rfl hne
        apply Gets.falls rfl hne
        refine Gets.here ⟨?_, hkeepsu⟩
        rw [hregs, Function.update_of_ne hap.rc]
        exact ht.digits.quotient hk
      · obtain ⟨k, rfl⟩ : ∃ k', k = k' + 4 := ⟨k - 4, by omega⟩
        have hpow : 2 ^ (k + 4) / 2 ^ 4 = 2 ^ k := by
          rw [Nat.pow_add, Nat.mul_div_cancel _ (by decide)]
        have hin : t.regs curbit >>> 4 ≠ 0#32 := by
          intro hout
          rw [hout, hpow] at hcurbit
          exact absurd hcurbit.symm (Nat.ne_of_gt (Nat.two_pow_pos k))
        rw [decide_eq_true hin] at hne
        apply Gets.does rfl hne
        show Gets _ _ (u.set divisor (u.regs divisor >>> 4)) _ _
        apply Gets.jumps rfl (holds_set.trans hne) rfl
        refine (ih k (by omega) ⟨?_, ?_, ?_⟩).imp ?_
        · rw [set_regs, Function.update_self, hregs, Function.update_of_ne hap.vc,
            BitVec.toNat_ushiftRight, ht.divisor, Nat.shiftRight_eq_div_pow, Nat.pow_add,
            ← Nat.mul_assoc, Nat.mul_div_cancel _ (by decide)]
        · rw [set_regs, Function.update_of_ne hap.vc.symm, hregs, Function.update_self, hcurbit, hpow]
        · rw [set_regs, Function.update_of_ne hap.dd, Function.update_of_ne hap.vr.symm, hregs,
            Function.update_of_ne hap.dc, Function.update_of_ne hap.rc]
          exact ht.digits.next
        · rintro w ⟨hquot, hkeeps'⟩
          exact ⟨hquot, (hkeepsu.set (by simp)).trans hkeeps'⟩

theorem divLoop_local :
    ∀ line ∈ divLoop dividend divisor result curbit, line.isLocal := by
  simp [divLoop, divDigit, Line.isLocal]

end DivLoop

/-! ## The division -/

section DivBody

variable {dividend divisor result curbit : Reg} {s : Core}

/-- The bit of the quotient goes with the divisor. -/
theorem counts_curbit (r : Reg) (k : Nat) :
    Counts (.mov false r (.lsl r k)) k r fun e => 1#32 <<< e where
  regs s e h := by
    show Function.update s.regs r (s.regs r <<< k) = _
    rw [h, BitVec.shiftLeft_add]
  mem _ := rfl
  holds _ _ := holds_set

/-- The three highest bits are tested. -/
theorem lt_of_and_high {w : Word} (h : w &&& 0xe0000000#32 = 0#32) : w.toNat < 2 ^ 29 := by
  have hzero : w.toNat &&& 0xe0000000 = 0 := by simpa using congrArg BitVec.toNat h
  have hhigh : (w.toNat &&& 0xe0000000) / 2 ^ 29 = w.toNat / 2 ^ 29 &&& 0xe0000000 / 2 ^ 29 :=
    Nat.and_div_two_pow
  rw [hzero, Nat.zero_div, show 0xe0000000 / 2 ^ 29 = 2 ^ 3 - 1 from rfl,
    Nat.and_two_pow_sub_one_eq_mod] at hhigh
  have hlt := w.isLt
  omega

/-- The first four instructions. -/
theorem armDivBody_starts (hap : Apart dividend divisor result curbit) :
    Gets (armDivBody dividend divisor result curbit) 0 s 4 fun t =>
      (∃ e, Shifted divisor curbit (fun e => 1#32 <<< e) (s.regs divisor).toNat e t) ∧
        Keeps [divisor, curbit] s t := by
  apply Gets.does rfl rfl
  generalize hu : Instr.exec s (.tst divisor (.imm 0xe0000000#32)) = u
  have hkeeps : Keeps [divisor, curbit] s u := by
    rw [← hu]
    exact ⟨fun _ _ => rfl, rfl⟩
  have hregs : u.regs divisor = s.regs divisor := by
    rw [← hu]
    rfl
  by_cases hhigh : s.regs divisor &&& 0xe0000000#32 = 0#32
  · have heq : u.holds .eq = true := by
      rw [← hu]
      exact setNZC_eq.trans (decide_eq_true hhigh)
    have hne : u.holds .ne = false := by
      rw [← hu]
      exact setNZC_ne.trans (decide_eq_false (not_not.mpr hhigh))
    have hroom := lt_of_and_high hhigh
    apply Gets.does rfl heq
    show Gets _ _ (u.set divisor (u.regs divisor <<< 3)) _ _
    apply Gets.does rfl (holds_set.trans heq)
    show Gets _ _ ((u.set divisor (u.regs divisor <<< 3)).set curbit 8#32) _ _
    apply Gets.skips rfl (holds_set.trans (holds_set.trans hne))
    refine Gets.here ⟨⟨3, ?_, ?_⟩, (hkeeps.set (by simp)).set (by simp)⟩
    · rw [set_regs, Function.update_of_ne hap.vc, set_regs, Function.update_self, hregs,
        BitVec.toNat_shiftLeft, Nat.shiftLeft_eq, Nat.mod_eq_of_lt (by omega)]
    · exact Function.update_self ..
  · have heq : u.holds .eq = false := by
      rw [← hu]
      exact setNZC_eq.trans (decide_eq_false hhigh)
    have hne : u.holds .ne = true := by
      rw [← hu]
      exact setNZC_ne.trans (decide_eq_true hhigh)
    apply Gets.skips rfl heq
    apply Gets.skips rfl heq
    apply Gets.does rfl hne
    show Gets _ _ (u.set curbit 1#32) _ _
    refine Gets.here ⟨⟨0, ?_, ?_⟩, hkeeps.set (by simp)⟩
    · rw [set_regs, Function.update_of_ne hap.vc, hregs, Nat.pow_zero, Nat.mul_one]
    · exact Function.update_self ..

/-- **`ARM_DIV_BODY` divides.** -/
theorem armDivBody_gets (hap : Apart dividend divisor result curbit)
    (hd : 0 < (s.regs divisor).toNat) :
    Gets (armDivBody dividend divisor result curbit) 0 s 34 fun t =>
      t.regs result = s.regs dividend / s.regs divisor ∧
        Keeps [dividend, divisor, result, curbit] s t := by
  have hdividend : dividend ∉ [divisor, curbit] := by simp [hap.dd, hap.dc]
  refine (armDivBody_starts hap).after ?_
  rintro t₁ ⟨⟨e₁, ht₁⟩, hk₁⟩
  refine Gets.after ((shiftLoop_gets (counts_curbit curbit 4) hap.vc (by decide) (by decide) hd
    ht₁).inside 4 10 shiftLoop_local rfl rfl) ?_
  rintro t₂ ⟨⟨e₂, ht₂⟩, hk₂, -⟩
  refine Gets.after ((shiftLoop_gets (counts_curbit curbit 1) hap.vc (by decide) (by decide) hd
    ht₂).inside 10 16 shiftLoop_local rfl rfl) ?_
  rintro t₃ ⟨⟨k, hdivisor, hcurbit⟩, hk₃, hend⟩
  have hkeeps := (hk₁.trans hk₂).trans hk₃
  rw [hkeeps.regs dividend hdividend] at hend
  apply Gets.does rfl rfl
  show Gets _ _ (t₃.set result 0#32) _ _
  have hk : k < 32 := by
    apply shift_lt hd
    rw [← hdivisor]
    exact (t₃.regs divisor).isLt
  have hround : InRound dividend divisor result curbit (s.regs dividend).toNat
      (s.regs divisor).toNat k 0 (t₃.set result 0#32) := by
    refine ⟨?_, ?_, ?_⟩
    · rw [set_regs, Function.update_of_ne hap.vr, hdivisor]
    · rw [set_regs, Function.update_of_ne hap.rc.symm, hcurbit, BitVec.toNat_shiftLeft,
        Nat.shiftLeft_eq, BitVec.toNat_ofNat, Nat.one_mod_two_pow (by decide), Nat.one_mul,
        Nat.mod_eq_of_lt (Nat.pow_lt_pow_right (by decide) hk)]
    · rw [set_regs, Function.update_self, Function.update_of_ne hap.dr,
        hkeeps.regs dividend hdividend, Unrolled, if_pos (Nat.zero_le _)]
      exact Digits.start (shifted_far hd hdivisor hend)
  refine ((divLoop_gets hap hround).inside 17 34 divLoop_local rfl rfl).imp ?_
  rintro t ⟨hquot, hk₄⟩
  refine ⟨?_, ((hkeeps.mono (by simp)).set (by simp)).trans hk₄⟩
  apply BitVec.eq_of_toNat_eq
  rw [hquot, BitVec.toNat_udiv]

theorem armDivBody_local :
    ∀ line ∈ armDivBody dividend divisor result curbit, line.isLocal := by
  simp [armDivBody, Line.isLocal]

end DivBody

/-! ## The order of a power of two -/

section Order

variable {divisor order : Reg} {m a k : Nat} {s : Core}

/-- The divisor is still `2 ^ a` of `2 ^ m`, and the order is what it has lost. -/
structure Ordered (divisor order : Reg) (m a : Nat) (s : Core) : Prop where
  divisor : (s.regs divisor).toNat = 2 ^ a
  order : s.regs order + BitVec.ofNat 32 a = BitVec.ofNat 32 m

theorem one_shiftLeft_le_iff {w : Word} (hw : w.toNat = 2 ^ a) (hk : k < 32) :
    1#32 <<< k ≤ w ↔ k ≤ a := by
  have hone : (1#32 <<< k).toNat = 2 ^ k := by
    rw [BitVec.toNat_shiftLeft, Nat.shiftLeft_eq, BitVec.toNat_ofNat, Nat.one_mod_two_pow (by decide),
      Nat.one_mul, Nat.mod_eq_of_lt (Nat.pow_lt_pow_right (by decide) hk)]
  rw [BitVec.le_def, hone, hw, Nat.pow_le_pow_iff_right (by decide)]

theorem toNat_shift_order {w : Word} (hw : w.toNat = 2 ^ a) (hk : k ≤ a) :
    (w >>> k).toNat = 2 ^ (a - k) := by
  rw [BitVec.toNat_ushiftRight, hw, Nat.shiftRight_eq_div_pow, Nat.pow_div hk (by decide)]

theorem orderStep_gets {listing : Lib1} {p : Nat} (hvo : divisor ≠ order)
    (h0 : listing[p]? = some (.instr .al (.cmp divisor (.imm (1#32 <<< k)))))
    (h1 : listing[p + 1]? = some (.instr .hs (.mov false divisor (.lsr divisor k))))
    (h2 : listing[p + 2]? = some (.instr .hs (.op .add false order order (.imm (BitVec.ofNat 32 k)))))
    (hk : k < 32) (ha : a < 2 * k) (hs : Ordered divisor order m a s) :
    Gets listing p s (p + 3) fun t =>
      (∃ a' < k, Ordered divisor order m a' t) ∧ Keeps [divisor, order] s t := by
  apply Gets.does h0 rfl
  show Gets _ _ (s.setSub (s.regs divisor) (1#32 <<< k)) _ _
  generalize hu : s.setSub (s.regs divisor) (1#32 <<< k) = u
  have hregs : u.regs = s.regs := by
    rw [← hu]
    rfl
  have hkeeps : Keeps [divisor, order] s u := by
    rw [← hu]
    exact ⟨fun _ _ => rfl, rfl⟩
  have hhs : u.holds .hs = decide (k ≤ a) := by
    rw [← hu, setSub_hs, decide_eq_decide]
    exact one_shiftLeft_le_iff hs.divisor hk
  by_cases hle : k ≤ a
  · rw [decide_eq_true hle] at hhs
    apply Gets.does h1 hhs
    show Gets _ _ (u.set divisor (u.regs divisor >>> k)) _ _
    apply Gets.does h2 (holds_set.trans hhs)
    show Gets _ _ (Core.set (u.set divisor _) order
      ((u.set divisor _).regs order + BitVec.ofNat 32 k)) _ _
    refine Gets.here ⟨⟨a - k, by omega, ?_, ?_⟩, (hkeeps.set (by simp)).set (by simp)⟩
    · rw [set_regs, Function.update_of_ne hvo, set_regs, Function.update_self, hregs,
        toNat_shift_order hs.divisor hle]
    · rw [set_regs, Function.update_self, set_regs, Function.update_of_ne hvo.symm, hregs,
        BitVec.add_assoc, ← BitVec.ofNat_add, Nat.add_sub_cancel' hle]
      exact hs.order
  · rw [decide_eq_false hle] at hhs
    apply Gets.skips h1 hhs
    apply Gets.skips h2 hhs
    refine Gets.here ⟨⟨a, by omega, ?_, ?_⟩, hkeeps⟩
    · rw [hregs, hs.divisor]
    · rw [hregs, hs.order]

/-- The first comparison sets the order. -/
theorem orderStart_gets (hvo : divisor ≠ order) (hm : m < 32)
    (hs : (s.regs divisor).toNat = 2 ^ m) :
    Gets (armDiv2Order divisor order) 0 s 4 fun t =>
      (∃ a < 16, Ordered divisor order m a t) ∧ Keeps [divisor, order] s t := by
  apply Gets.does rfl rfl
  show Gets _ _ (s.setSub (s.regs divisor) (1#32 <<< 16)) _ _
  have hiff : 1#32 <<< 16 ≤ s.regs divisor ↔ 16 ≤ m := one_shiftLeft_le_iff hs (by decide)
  generalize hu : s.setSub (s.regs divisor) (1#32 <<< 16) = u
  have hregs : u.regs = s.regs := by
    rw [← hu]
    rfl
  have hkeeps : Keeps [divisor, order] s u := by
    rw [← hu]
    exact ⟨fun _ _ => rfl, rfl⟩
  have hhs : u.holds .hs = decide (16 ≤ m) := by
    rw [← hu, setSub_hs, decide_eq_decide]
    exact hiff
  have hlo : u.holds .lo = !u.holds .hs := rfl
  by_cases hle : 16 ≤ m
  · rw [decide_eq_true hle] at hhs
    rw [hhs] at hlo
    apply Gets.does rfl hhs
    show Gets _ _ (u.set divisor (u.regs divisor >>> 16)) _ _
    apply Gets.does rfl (holds_set.trans hhs)
    show Gets _ _ ((u.set divisor (u.regs divisor >>> 16)).set order 16#32) _ _
    apply Gets.skips rfl (holds_set.trans (holds_set.trans hlo))
    refine Gets.here ⟨⟨m - 16, by omega, ?_, ?_⟩, (hkeeps.set (by simp)).set (by simp)⟩
    · rw [set_regs, Function.update_of_ne hvo, set_regs, Function.update_self, hregs,
        toNat_shift_order hs hle]
    · rw [set_regs, Function.update_self, ← BitVec.ofNat_add, Nat.add_sub_cancel' hle]
  · rw [decide_eq_false hle] at hhs
    rw [hhs] at hlo
    apply Gets.skips rfl hhs
    apply Gets.skips rfl hhs
    apply Gets.does rfl hlo
    show Gets _ _ (u.set order 0#32) _ _
    refine Gets.here ⟨⟨m, by omega, ?_, ?_⟩, hkeeps.set (by simp)⟩
    · rw [set_regs, Function.update_of_ne hvo, hregs, hs]
    · rw [set_regs, Function.update_self, BitVec.zero_add]

/-- **`ARM_DIV2_ORDER` finds the order of a power of two.** -/
theorem armDiv2Order_gets (hvo : divisor ≠ order) (hs : (s.regs divisor).toNat = 2 ^ m) :
    Gets (armDiv2Order divisor order) 0 s 13 fun t =>
      t.regs order = BitVec.ofNat 32 m ∧ Keeps [divisor, order] s t := by
  have hm : m < 32 := by
    have hlt := (s.regs divisor).isLt
    rw [hs] at hlt
    exact (Nat.pow_lt_pow_iff_right (by decide)).mp hlt
  refine (orderStart_gets hvo hm hs).after ?_
  rintro t₁ ⟨⟨a₁, ha₁, ht₁⟩, hk₁⟩
  refine (orderStep_gets (k := 8) hvo rfl rfl rfl (by decide) ha₁ ht₁).after ?_
  rintro t₂ ⟨⟨a₂, ha₂, ht₂⟩, hk₂⟩
  refine (orderStep_gets (k := 4) hvo rfl rfl rfl (by decide) ha₂ ht₂).after ?_
  rintro t₃ ⟨⟨a, ha, ht₃⟩, hk₃⟩
  have hkeeps := (hk₁.trans hk₂).trans hk₃
  apply Gets.does rfl rfl
  show Gets _ _ (t₃.setSub (t₃.regs divisor) 4#32) _ _
  generalize hu : t₃.setSub (t₃.regs divisor) 4#32 = u
  have hregs : u.regs = t₃.regs := by
    rw [← hu]
    rfl
  have hkeepsu : Keeps [divisor, order] s u := by
    rw [← hu]
    exact ⟨hkeeps.regs, hkeeps.mem⟩
  have hhi : u.holds .hi = decide (2 < a) := by
    rw [← hu, setSub_hi, decide_eq_decide, BitVec.lt_def, ht₃.divisor]
    show 2 ^ 2 < 2 ^ a ↔ 2 < a
    exact Nat.pow_lt_pow_iff_right (by decide)
  have hls : u.holds .ls = !decide (2 < a) := by
    rw [← hhi]
    show (!u.c || u.z) = !(u.c && !u.z)
    rw [Bool.not_and, Bool.not_not]
  have horder := ht₃.order
  by_cases hthree : 2 < a
  · -- 8 is not shifted any more
    obtain rfl : a = 3 := by omega
    apply Gets.does rfl hhi
    show Gets _ _ (u.set order (u.regs order + 3#32)) _ _
    apply Gets.skips rfl (holds_set.trans hls)
    refine Gets.here ⟨?_, hkeepsu.set (by simp)⟩
    rw [set_regs, Function.update_self, hregs]
    exact horder
  · rw [decide_eq_false hthree] at hhi hls
    apply Gets.skips rfl hhi
    apply Gets.does rfl hls
    show Gets _ _ (u.set order (u.regs order + u.regs divisor >>> 1)) _ _
    refine Gets.here ⟨?_, hkeepsu.set (by simp)⟩
    have hhalf : t₃.regs divisor >>> 1 = BitVec.ofNat 32 a := by
      apply BitVec.eq_of_toNat_eq
      have hsmall : ∀ a < 3, 2 ^ a / 2 ^ 1 = (BitVec.ofNat 32 a).toNat := by decide
      rw [BitVec.toNat_ushiftRight, ht₃.divisor, Nat.shiftRight_eq_div_pow, hsmall a (by omega)]
    rw [set_regs, Function.update_self, hregs, hhalf]
    exact horder

theorem armDiv2Order_local : ∀ line ∈ armDiv2Order divisor order, line.isLocal := by
  simp [armDiv2Order, Line.isLocal]

end Order

end HeavenFox.Arch
