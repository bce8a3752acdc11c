/-
# HeavenFox.Arch.Lib1funcs -- the division routines `lib1funcs.S`

The core has no instruction that divides, and the compiler calls `__udivsi3`, `__umodsi3`,
`__divsi3` and `__modsi3` instead.  Each of them first goes through the divisors for which there is
an easier way: 0, 1, powers of two, and those that are not less than the dividend.  The signed ones
divide the absolute values and put the sign back.

Whatever is divided, they come back to the caller with the quotient or the remainder in `r0`, and
with all registers as they were that a callee must keep.  A division by 0 gives 0.
-/
import HeavenFox.Arch.ModBody

namespace HeavenFox.Arch

open HeavenFox.Logic.Arm
open HeavenFox.Logic (Digits Rest Unrolled)

/-! ## The routines -/

/-- `__udivsi3` -/
def udivsi3 : Lib1 :=
  [.entry .udivsi3,
   .instr .al (.op .sub true .r2 .r1 (.imm 1#32)),
   .ret .eq,
   .b .lo (.name .ldiv0),
   .instr .al (.cmp .r0 (.reg .r1)),
   .b .ls (.fwd 11),
   .instr .al (.tst .r1 (.reg .r2)),
   .b .eq (.fwd 12)] ++
  (armDivBody .r0 .r1 .r2 .r3 ++
  ([.instr .al (.mov false .r0 (.reg .r2)),
   .ret .al,
   .num 11,
   .instr .eq (.mov false .r0 (.imm 1#32)),
   .instr .ne (.mov false .r0 (.imm 0#32)),
   .ret .al,
   .num 12] ++
  (armDiv2Order .r1 .r2 ++
  [.instr .al (.mov false .r0 (.lsrReg .r0 .r2)),
   .ret .al])))

/-- `__umodsi3` -/
def umodsi3 : Lib1 :=
  [.entry .umodsi3,
   .instr .al (.op .sub true .r2 .r1 (.imm 1#32)),
   .b .lo (.name .ldiv0),
   .instr .ne (.cmp .r0 (.reg .r1)),
   .instr .eq (.mov false .r0 (.imm 0#32)),
   .instr .hi (.tst .r1 (.reg .r2)),
   .instr .eq (.op .and false .r0 .r0 (.reg .r2)),
   .ret .ls] ++
  (armModBody .r0 .r1 .r2 ++
  [.ret .al])

/-- `__divsi3` -/
def divsi3 : Lib1 :=
  [.entry .divsi3,
   .instr .al (.cmp .r1 (.imm 0#32)),
   .instr .al (.op .eor false .ip .r0 (.reg .r1)),
   .b .eq (.name .ldiv0),
   .instr .mi (.op .rsb false .r1 .r1 (.imm 0#32)),
   .instr .al (.op .sub true .r2 .r1 (.imm 1#32)),
   .b .eq (.fwd 10),
   .instr .al (.mov true .r3 (.reg .r0)),
   .instr .mi (.op .rsb false .r3 .r0 (.imm 0#32)),
   .instr .al (.cmp .r3 (.reg .r1)),
   .b .ls (.fwd 11),
   .instr .al (.tst .r1 (.reg .r2)),
   .b .eq (.fwd 12)] ++
  (armDivBody .r3 .r1 .r0 .r2 ++
  ([.instr .al (.cmp .ip (.imm 0#32)),
   .instr .mi (.op .rsb false .r0 .r0 (.imm 0#32)),
   .ret .al,
   .num 10,
   .instr .al (.teq .ip (.reg .r0)),
   .instr .mi (.op .rsb false .r0 .r0 (.imm 0#32)),
   .ret .al,
   .num 11,
   .instr .lo (.mov false .r0 (.imm 0#32)),
   .instr .eq (.mov false .r0 (.asr .ip 31)),
   .instr .eq (.op .orr false .r0 .r0 (.imm 1#32)),
   .ret .al,
   .num 12] ++
  (armDiv2Order .r1 .r2 ++
  [.instr .al (.cmp .ip (.imm 0#32)),
   .instr .al (.mov false .r0 (.lsrReg .r3 .r2)),
   .instr .mi (.op .rsb false .r0 .r0 (.imm 0#32)),
   .ret .al])))

/-- `__modsi3` -/
def modsi3 : Lib1 :=
  [.entry .modsi3,
   .instr .al (.cmp .r1 (.imm 0#32)),
   .b .eq (.name .ldiv0),
   .instr .mi (.op .rsb false .r1 .r1 (.imm 0#32)),
   .instr .al (.mov true .ip (.reg .r0)),
   .instr .mi (.op .rsb false .r0 .r0 (.imm 0#32)),
   .instr .al (.op .sub true .r2 .r1 (.imm 1#32)),
   .instr .ne (.cmp .r0 (.reg .r1)),
   .instr .eq (.mov false .r0 (.imm 0#32)),
   .instr .hi (.tst .r1 (.reg .r2)),
   .instr .eq (.op .and false .r0 .r0 (.reg .r2)),
   .b .ls (.fwd 10)] ++
  (armModBody .r0 .r1 .r2 ++
  [.num 10,
   .instr .al (.cmp .ip (.imm 0#32)),
   .instr .mi (.op .rsb false .r0 .r0 (.imm 0#32)),
   .ret .al])

/-- `Ldiv0`; the call of `__div0` is commented out. -/
def ldiv0 : Lib1 :=
  [.entry .ldiv0,
   .instr .al (.push .lr .sp),
   .instr .al (.mov false .r0 (.imm 0#32)),
   .popPc .sp]

/-- `lib1funcs.S` -/
def lib1funcs : Lib1 := udivsi3 ++ (umodsi3 ++ (divsi3 ++ (modsi3 ++ ldiv0)))

/-! ## Where the lines are -/

section Lines

variable {i : Nat} {line : Line Lib1Name}

theorem udivsi3_line (i : Nat) (h : udivsi3[i]? = some line) : lib1funcs[0 + i]? = some line :=
  (getElem?_inside h rfl : ([] ++ lib1funcs)[0 + i]? = some line)

theorem umodsi3_line (i : Nat) (h : umodsi3[i]? = some line) : lib1funcs[64 + i]? = some line :=
  getElem?_inside h (by decide +kernel)

theorem divsi3_line (i : Nat) (h : divsi3[i]? = some line) : lib1funcs[119 + i]? = some line := by
  have hsplit : lib1funcs = (udivsi3 ++ umodsi3) ++ (divsi3 ++ (modsi3 ++ ldiv0)) := by
    simp only [lib1funcs, List.append_assoc]
  rw [hsplit]
  exact getElem?_inside h (by decide +kernel)

theorem modsi3_line (i : Nat) (h : modsi3[i]? = some line) : lib1funcs[196 + i]? = some line := by
  have hsplit : lib1funcs = (udivsi3 ++ umodsi3 ++ divsi3) ++ (modsi3 ++ ldiv0) := by
    simp only [lib1funcs, List.append_assoc]
  rw [hsplit]
  exact getElem?_inside h (by decide +kernel)

theorem ldiv0_line (i : Nat) (h : ldiv0[i]? = some line) : lib1funcs[258 + i]? = some line := by
  have hsplit : lib1funcs = (udivsi3 ++ umodsi3 ++ divsi3 ++ modsi3) ++ (ldiv0 ++ []) := by
    simp only [lib1funcs, List.append_assoc, List.append_nil]
  rw [hsplit]
  exact getElem?_inside h (by decide +kernel)

end Lines

/-! ## Coming back -/

/-- The registers that a callee need not keep. -/
def scratch : List Reg := [.r0, .r1, .r2, .r3, .ip]

/-- The call is over: the result is in `r0`, and nothing is lost that the caller relies on.  Below the
stack pointer there may be the return address. -/
structure Divided (s : Core) (result w : Word) (t : Core) : Prop where
  back : w = s.regs .lr
  result : t.regs .r0 = result
  regs : ∀ r, r ∉ scratch → t.regs r = s.regs r
  mem : ∀ a, a ≠ s.regs .sp - 4#32 → t.mem a = s.mem a

section Back

variable {s t : Core} {result : Word}

theorem divided_of_keeps (h : Keeps scratch s t) (hresult : t.regs .r0 = result) :
    Divided s result (t.regs .lr) t :=
  ⟨h.regs .lr (by decide), hresult, h.regs, fun a _ => congrFun h.mem a⟩

/-- A division by 0 gives 0. -/
theorem ldiv0_returns (h : Keeps scratch s t) : Returns lib1funcs 258 t (Divided s 0#32) := by
  apply Returns.entry (ldiv0_line 0 rfl)
  apply Returns.does (ldiv0_line 1 rfl) rfl
  apply Returns.does (ldiv0_line 2 rfl) rfl
  have hsp : t.regs .sp = s.regs .sp := h.regs .sp (by decide)
  have hpop : t.regs .sp - 4#32 + 4#32 = t.regs .sp := BitVec.sub_add_cancel ..
  refine Returns.popPc (ldiv0_line 3 rfl) ⟨?_, rfl, fun r hr => ?_, fun a ha => ?_⟩
  · show Function.update t.mem (t.regs .sp - 4#32) (t.regs .lr) (t.regs .sp - 4#32) = _
    rw [Function.update_self]
    exact h.regs .lr (by decide)
  · show Function.update (Function.update (Function.update t.regs .sp _) .r0 _) .sp
      (t.regs .sp - 4#32 + 4#32) r = _
    have hr0 : r ≠ .r0 := by
      rintro rfl
      exact hr (by decide)
    by_cases hr' : r = .sp
    · rw [hr', Function.update_self, hpop, hsp]
    · rw [Function.update_of_ne hr', Function.update_of_ne hr0, Function.update_of_ne hr']
      exact h.regs r hr
  · show Function.update t.mem (t.regs .sp - 4#32) (t.regs .lr) a = _
    rw [hsp, Function.update_of_ne ha, h.mem]

end Back

/-! ## Easy divisors -/

section Words

variable {n d : Word} {m : Nat}

theorem toNat_pos (hd : d ≠ 0#32) : 0 < d.toNat :=
  Nat.pos_of_ne_zero fun h => hd (BitVec.eq_of_toNat_eq h)

theorem not_lt_one (hd : d ≠ 0#32) : ¬ d < 1#32 := by
  have hpos := toNat_pos hd
  rw [BitVec.not_lt, BitVec.le_def]
  exact hpos

theorem toNat_pred (hd : d ≠ 0#32) : (d - 1#32).toNat = d.toNat - 1 :=
  BitVec.toNat_sub_of_le (toNat_pos hd : 1 ≤ d.toNat)

/-- The test that the routines make of the divisor. -/
theorem power_of_and_pred (hd : d ≠ 0#32) (h : d &&& (d - 1#32) = 0#32) : ∃ m, d.toNat = 2 ^ m := by
  have hand : d.toNat &&& (d.toNat - 1) = 0 := by
    rw [← toNat_pred hd, ← BitVec.toNat_and, h]
    rfl
  exact (Nat.and_sub_one_eq_zero_iff_isPowerOfTwo (Nat.ne_of_gt (toNat_pos hd))).mp hand

theorem power_lt (h : d.toNat = 2 ^ m) : m < 32 := by
  have hlt := d.isLt
  rw [h] at hlt
  exact (Nat.pow_lt_pow_iff_right (by decide)).mp hlt

theorem shift_eq_div (h : d.toNat = 2 ^ m) :
    n >>> ((BitVec.ofNat 32 m).toNat % 256) = n / d := by
  have hm := power_lt h
  have hshift : (BitVec.ofNat 32 m).toNat % 256 = m := by
    rw [BitVec.toNat_ofNat]
    omega
  apply BitVec.eq_of_toNat_eq
  rw [hshift, BitVec.toNat_ushiftRight, Nat.shiftRight_eq_div_pow, BitVec.toNat_udiv, h]

theorem and_pred_eq_mod (hd : d ≠ 0#32) (h : d.toNat = 2 ^ m) : n &&& (d - 1#32) = n % d := by
  apply BitVec.eq_of_toNat_eq
  rw [BitVec.toNat_and, toNat_pred hd, h, Nat.and_two_pow_sub_one_eq_mod, BitVec.toNat_umod, h]

/-- A signed division is one of the absolute values, with the sign of both. -/
theorem sdiv_eq_abs (n d : Word) :
    n.sdiv d = if (n ^^^ d).msb then -(n.abs / d.abs) else n.abs / d.abs := by
  rw [BitVec.sdiv_eq, BitVec.msb_xor, BitVec.abs_eq, BitVec.abs_eq]
  cases n.msb <;> cases d.msb <;> rfl

/-- A signed remainder has the sign of the dividend. -/
theorem srem_eq_abs (n d : Word) :
    n.srem d = if n.msb then -(n.abs % d.abs) else n.abs % d.abs := by
  rw [BitVec.srem_eq, BitVec.abs_eq, BitVec.abs_eq]
  cases n.msb <;> cases d.msb <;> rfl

theorem abs_ne_zero (hd : d ≠ 0#32) : d.abs ≠ 0#32 := by
  rw [BitVec.abs_eq]
  split_ifs
  · exact fun h => hd (BitVec.neg_eq_zero_iff.mp h)
  · exact hd

/-- The sign as 1 or -1. -/
theorem sshiftRight_or_one (w : Word) :
    w.sshiftRight 31 ||| 1#32 = if w.msb then -1#32 else 1#32 := by
  have hle := BitVec.le_toInt (x := w)
  have hlt := BitVec.toInt_lt (x := w)
  have hshift : (w.sshiftRight 31).toInt = w.toInt / 2 ^ 31 := by
    rw [BitVec.toInt_sshiftRight, Int.shiftRight_eq_div_pow]
    rfl
  rw [BitVec.msb_eq_toInt]
  by_cases hneg : w.toInt < 0
  · have hall : w.sshiftRight 31 = -1#32 := by
      apply BitVec.eq_of_toInt_eq
      rw [hshift]
      show _ = -1
      omega
    rw [hall, if_pos (decide_eq_true hneg)]
    rfl
  · have hnone : w.sshiftRight 31 = 0#32 := by
      apply BitVec.eq_of_toInt_eq
      rw [hshift]
      show _ = 0
      omega
    rw [hnone, if_neg (by rwa [decide_eq_true_iff])]
    rfl

theorem udiv_of_lt (h : n < d) : n / d = 0#32 := by
  apply BitVec.eq_of_toNat_eq
  rw [BitVec.toNat_udiv, Nat.div_eq_of_lt h]
  rfl

theorem umod_of_lt (h : n < d) : n % d = n := by
  apply BitVec.eq_of_toNat_eq
  rw [BitVec.toNat_umod, Nat.mod_eq_of_lt h]

end Words

/-! ## `__udivsi3` -/

section Unsigned

variable {s t : Core}

/-- The registers of the macros. -/
theorem apart_udiv : Apart .r0 .r1 .r2 .r3 := by
  constructor <;> decide

/-- Label 12, where the divisor is a power of two. -/
theorem udivsi3_power (hs : Keeps scratch s t) (h0 : t.regs .r0 = s.regs .r0)
    (h1 : t.regs .r1 = s.regs .r1) (hpow : ∃ m, (s.regs .r1).toNat = 2 ^ m) :
    Returns lib1funcs 48 t (Divided s (s.regs .r0 / s.regs .r1)) := by
  obtain ⟨m, hm⟩ := hpow
  apply Returns.num (udivsi3_line 48 rfl)
  have hgets : Gets lib1funcs _ t _ _ :=
    (armDiv2Order_gets (by decide : Reg.r1 ≠ Reg.r2) (h1 ▸ hm)).inside 49 62 armDiv2Order_local
      (by decide +kernel) (by decide +kernel)
  refine hgets.returns ?_
  rintro u ⟨horder, hu⟩
  have hu0 : u.regs .r0 = s.regs .r0 := (hu.regs .r0 (by decide)).trans h0
  have hkeeps := hs.trans (hu.mono (by decide : _ ⊆ scratch))
  apply Returns.does (udivsi3_line 62 rfl) rfl
  apply Returns.ret (udivsi3_line 63 rfl) rfl
  refine divided_of_keeps (hkeeps.set (by decide)) ?_
  show u.regs .r0 >>> ((u.regs .r2).toNat % 256) = _
  rw [hu0, horder, shift_eq_div hm]

/-- Behind the tests. -/
theorem udivsi3_body (hs : Keeps scratch s t) (h0 : t.regs .r0 = s.regs .r0)
    (h1 : t.regs .r1 = s.regs .r1) (hd : s.regs .r1 ≠ 0#32) :
    Returns lib1funcs 8 t (Divided s (s.regs .r0 / s.regs .r1)) := by
  have hpos : 0 < (t.regs .r1).toNat := by
    rw [h1]
    exact toNat_pos hd
  have hgets : Gets lib1funcs _ t _ _ :=
    (armDivBody_gets apart_udiv hpos).inside 8 42 armDivBody_local (by decide +kernel)
      (by decide +kernel)
  refine hgets.returns ?_
  rintro u ⟨hquot, hu⟩
  have hkeeps := hs.trans (hu.mono (by decide : _ ⊆ scratch))
  apply Returns.does (udivsi3_line 42 rfl) rfl
  apply Returns.ret (udivsi3_line 43 rfl) rfl
  refine divided_of_keeps (hkeeps.set (by decide)) ?_
  show u.regs .r2 = _
  rw [hquot, h0, h1]

/-- Label 11, where the dividend is not greater. -/
theorem udivsi3_less (hs : Keeps scratch s t)
    (heq : t.holds .eq = decide (s.regs .r0 = s.regs .r1)) (hd : s.regs .r1 ≠ 0#32)
    (hle : s.regs .r0 ≤ s.regs .r1) :
    Returns lib1funcs 44 t (Divided s (s.regs .r0 / s.regs .r1)) := by
  have hne : t.holds .ne = !t.holds .eq := rfl
  apply Returns.num (udivsi3_line 44 rfl)
  by_cases hsame : s.regs .r0 = s.regs .r1
  · rw [decide_eq_true hsame] at heq
    rw [heq] at hne
    apply Returns.does (udivsi3_line 45 rfl) heq
    apply Returns.skips (udivsi3_line 46 rfl) (holds_set.trans hne)
    apply Returns.ret (udivsi3_line 47 rfl) rfl
    refine divided_of_keeps (hs.set (by decide)) ?_
    show 1#32 = _
    rw [hsame, BitVec.udiv_self, if_neg (by simpa using hd)]
  · rw [decide_eq_false hsame] at heq
    rw [heq] at hne
    apply Returns.skips (udivsi3_line 45 rfl) heq
    apply Returns.does (udivsi3_line 46 rfl) hne
    apply Returns.ret (udivsi3_line 47 rfl) rfl
    refine divided_of_keeps (hs.set (by decide)) ?_
    show 0#32 = _
    rw [udiv_of_lt (BitVec.lt_of_le_ne hle hsame)]

/-- **`__udivsi3` divides**, and a division by 0 gives 0. -/
theorem udivsi3_divides (s : Core) :
    Calls lib1funcs .udivsi3 s (Divided s (s.regs .r0 / s.regs .r1)) := by
  refine ⟨0, by decide +kernel, ?_⟩
  apply Returns.entry (udivsi3_line 0 rfl)
  apply Returns.does (udivsi3_line 1 rfl) rfl
  show Returns _ _ ((s.setSub (s.regs .r1) 1#32).set .r2 (s.regs .r1 - 1#32)) _
  have heq : ((s.setSub (s.regs .r1) 1#32).set .r2 (s.regs .r1 - 1#32)).holds .eq =
      decide (s.regs .r1 = 1#32) := holds_set.trans setSub_eq
  have hlo : ((s.setSub (s.regs .r1) 1#32).set .r2 (s.regs .r1 - 1#32)).holds .lo =
      decide (s.regs .r1 < 1#32) := holds_set.trans setSub_lo
  generalize ht : (s.setSub (s.regs .r1) 1#32).set .r2 (s.regs .r1 - 1#32) = t at heq hlo ⊢
  have hregs : t.regs = Function.update s.regs .r2 (s.regs .r1 - 1#32) := by
    rw [← ht]
    rfl
  have hkeeps : Keeps scratch s t := by
    rw [← ht]
    exact Keeps.set ⟨fun _ _ => rfl, rfl⟩ (by decide)
  have h0 : t.regs .r0 = s.regs .r0 := by
    rw [hregs]
    rfl
  have h1 : t.regs .r1 = s.regs .r1 := by
    rw [hregs]
    rfl
  have h2 : t.regs .r2 = s.regs .r1 - 1#32 := by
    rw [hregs]
    rfl
  by_cases hone : s.regs .r1 = 1#32
  · rw [decide_eq_true hone] at heq
    refine Returns.ret (udivsi3_line 2 rfl) heq (divided_of_keeps hkeeps ?_)
    rw [h0, hone, BitVec.udiv_one]
  rw [decide_eq_false hone] at heq
  apply Returns.stays (udivsi3_line 2 rfl) heq
  by_cases hzero : s.regs .r1 = 0#32
  · rw [hzero] at hlo
    refine Returns.jumps (k := 258) (udivsi3_line 3 rfl) hlo (by decide +kernel) ?_
    rw [hzero, BitVec.udiv_zero]
    exact ldiv0_returns hkeeps
  have hnot : ¬ s.regs .r1 < 1#32 := not_lt_one hzero
  rw [decide_eq_false hnot] at hlo
  apply Returns.falls (udivsi3_line 3 rfl) hlo
  apply Returns.does (udivsi3_line 4 rfl) rfl
  show Returns _ _ (t.setSub (t.regs .r0) (t.regs .r1)) _
  rw [h0, h1]
  by_cases hle : s.regs .r0 ≤ s.regs .r1
  · refine Returns.jumps (k := 44) (udivsi3_line 5 rfl) (setSub_ls.trans (decide_eq_true hle))
      (by decide +kernel) ?_
    exact udivsi3_less ⟨hkeeps.regs, hkeeps.mem⟩ setSub_eq hzero hle
  apply Returns.falls (udivsi3_line 5 rfl) (setSub_ls.trans (decide_eq_false hle))
  apply Returns.does (udivsi3_line 6 rfl) rfl
  show Returns _ _ (Core.setNZC _ (t.regs .r1 &&& t.regs .r2) _) _
  rw [h1, h2]
  by_cases hpow : s.regs .r1 &&& (s.regs .r1 - 1#32) = 0#32
  · refine Returns.jumps (k := 48) (udivsi3_line 7 rfl) (setNZC_eq.trans (decide_eq_true hpow))
      (by decide +kernel) ?_
    exact udivsi3_power ⟨hkeeps.regs, hkeeps.mem⟩ h0 h1 (power_of_and_pred hzero hpow)
  · apply Returns.falls (udivsi3_line 7 rfl) (setNZC_eq.trans (decide_eq_false hpow))
    exact udivsi3_body ⟨hkeeps.regs, hkeeps.mem⟩ h0 h1 hzero

/-- The remainders that need no loop: the four instructions that both `__umodsi3` and `__modsi3` have
behind `subs r2, r1, #1`. -/
theorem modEasy_gets {listing : Lib1} {p : Nat} {n d : Word}
    (line₀ : listing[p]? = some (.instr .ne (.cmp .r0 (.reg .r1))))
    (line₁ : listing[p + 1]? = some (.instr .eq (.mov false .r0 (.imm 0#32))))
    (line₂ : listing[p + 2]? = some (.instr .hi (.tst .r1 (.reg .r2))))
    (line₃ : listing[p + 3]? = some (.instr .eq (.op .and false .r0 .r0 (.reg .r2))))
    (hd : d ≠ 0#32) (h0 : t.regs .r0 = n) (h1 : t.regs .r1 = d) (h2 : t.regs .r2 = d - 1#32)
    (heq : t.holds .eq = decide (d = 1#32)) :
    Gets listing p t (p + 4) fun u => Keeps [.r0] t u ∧
      (u.holds .ls = true ∧ u.regs .r0 = n % d ∨ u.holds .ls = false ∧ u.regs .r0 = n) := by
  have hne : t.holds .ne = !t.holds .eq := rfl
  by_cases hone : d = 1#32
  · -- a division by 1
    rw [decide_eq_true hone] at heq
    rw [heq] at hne
    have hhi : t.holds .hi = false := by
      show (t.c && !t.z) = false
      rw [show t.z = true from heq, Bool.not_true, Bool.and_false]
    have hls : t.holds .ls = true := by
      show (!t.c || t.z) = true
      rw [show t.z = true from heq, Bool.or_true]
    apply Gets.skips line₀ hne
    apply Gets.does line₁ heq
    apply Gets.skips line₂ (holds_set.trans hhi)
    apply Gets.does line₃ (holds_set.trans heq)
    refine Gets.here ⟨((Keeps.refl _ t).set (by simp)).set (by simp), .inl ⟨?_, ?_⟩⟩
    · exact holds_set.trans (holds_set.trans hls)
    · show 0#32 &&& _ = n % d
      rw [hone, BitVec.zero_and, BitVec.umod_one]
  rw [decide_eq_false hone] at heq
  rw [heq] at hne
  apply Gets.does line₀ hne
  show Gets _ _ (t.setSub (t.regs .r0) (t.regs .r1)) _ _
  rw [h0, h1]
  have heq' : (t.setSub n d).holds .eq = decide (n = d) := setSub_eq
  have hhi' : (t.setSub n d).holds .hi = decide (d < n) := setSub_hi
  have hls' : (t.setSub n d).holds .ls = decide (n ≤ d) := setSub_ls
  have hhs' : (t.setSub n d).holds .hs = decide (d ≤ n) := setSub_hs
  have hkeeps : Keeps [.r0] t (t.setSub n d) := ⟨fun _ _ => rfl, rfl⟩
  have hregs : (t.setSub n d).regs = t.regs := rfl
  generalize t.setSub n d = u at heq' hhi' hls' hhs' hkeeps hregs ⊢
  by_cases hsame : n = d
  · rw [decide_eq_true hsame] at heq'
    rw [decide_eq_true (BitVec.le_of_eq hsame)] at hls'
    rw [decide_eq_false (by rw [hsame]; exact BitVec.lt_irrefl d)] at hhi'
    apply Gets.does line₁ heq'
    apply Gets.skips line₂ (holds_set.trans hhi')
    apply Gets.does line₃ (holds_set.trans heq')
    refine Gets.here ⟨(hkeeps.set (by simp)).set (by simp), .inl ⟨?_, ?_⟩⟩
    · exact holds_set.trans (holds_set.trans hls')
    · show 0#32 &&& _ = n % d
      rw [hsame, BitVec.zero_and, BitVec.umod_self]
  rw [decide_eq_false hsame] at heq'
  apply Gets.skips line₁ heq'
  by_cases hle : n ≤ d
  · rw [decide_eq_true hle] at hls'
    rw [decide_eq_false (BitVec.not_lt.mpr hle)] at hhi'
    apply Gets.skips line₂ hhi'
    apply Gets.skips line₃ heq'
    refine Gets.here ⟨hkeeps, .inl ⟨hls', ?_⟩⟩
    rw [hregs, h0, umod_of_lt (BitVec.lt_of_le_ne hle hsame)]
  have hlt : d < n := BitVec.not_le.mp hle
  rw [decide_eq_true hlt] at hhi'
  rw [decide_eq_true (BitVec.le_of_lt hlt)] at hhs'
  apply Gets.does line₂ hhi'
  show Gets _ _ (u.setNZC (u.regs .r1 &&& u.regs .r2) u.c) _ _
  rw [hregs, h1, h2, show u.c = true from hhs']
  by_cases hpow : d &&& (d - 1#32) = 0#32
  · obtain ⟨m, hm⟩ := power_of_and_pred hd hpow
    apply Gets.does line₃ (setNZC_eq.trans (decide_eq_true hpow))
    refine Gets.here ⟨Keeps.set ⟨hkeeps.regs, hkeeps.mem⟩ (by simp), .inl ⟨?_, ?_⟩⟩
    · refine holds_set.trans ?_
      show (!true || (d &&& (d - 1#32) == 0#32)) = true
      rw [hpow]
      rfl
    · show u.regs .r0 &&& u.regs .r2 = n % d
      rw [hregs, h0, h2, and_pred_eq_mod hd hm]
  · apply Gets.skips line₃ (setNZC_eq.trans (decide_eq_false hpow))
    refine Gets.here ⟨⟨hkeeps.regs, hkeeps.mem⟩, .inr ⟨?_, ?_⟩⟩
    · show (!true || (d &&& (d - 1#32) == 0#32)) = false
      rw [beq_false_of_ne hpow]
      rfl
    · show u.regs .r0 = n
      rw [hregs, h0]

/-- **`__umodsi3` takes the remainder**, and a division by 0 gives 0. -/
theorem umodsi3_divides (s : Core) :
    Calls lib1funcs .umodsi3 s
      (Divided s (if s.regs .r1 = 0#32 then 0#32 else s.regs .r0 % s.regs .r1)) := by
  refine ⟨64, by decide +kernel, ?_⟩
  apply Returns.entry (umodsi3_line 0 rfl)
  apply Returns.does (umodsi3_line 1 rfl) rfl
  show Returns _ _ ((s.setSub (s.regs .r1) 1#32).set .r2 (s.regs .r1 - 1#32)) _
  have heq : ((s.setSub (s.regs .r1) 1#32).set .r2 (s.regs .r1 - 1#32)).holds .eq =
      decide (s.regs .r1 = 1#32) := holds_set.trans setSub_eq
  have hlo : ((s.setSub (s.regs .r1) 1#32).set .r2 (s.regs .r1 - 1#32)).holds .lo =
      decide (s.regs .r1 < 1#32) := holds_set.trans setSub_lo
  have hkeeps : Keeps scratch s ((s.setSub (s.regs .r1) 1#32).set .r2 (s.regs .r1 - 1#32)) :=
    Keeps.set ⟨fun _ _ => rfl, rfl⟩ (by decide)
  by_cases hzero : s.regs .r1 = 0#32
  · rw [if_pos hzero]
    rw [decide_eq_true (by rw [hzero]; decide)] at hlo
    exact Returns.jumps (k := 258) (umodsi3_line 2 rfl) hlo (by decide +kernel)
      (ldiv0_returns hkeeps)
  rw [if_neg hzero]
  rw [decide_eq_false (not_lt_one hzero)] at hlo
  apply Returns.falls (umodsi3_line 2 rfl) hlo
  refine Gets.returns (modEasy_gets (umodsi3_line 3 rfl) (umodsi3_line 4 rfl) (umodsi3_line 5 rfl)
    (umodsi3_line 6 rfl) hzero rfl rfl rfl heq) ?_
  rintro t ⟨ht, ⟨hls, hrest⟩ | ⟨hls, h0⟩⟩
  · refine Returns.ret (umodsi3_line 7 rfl) hls (divided_of_keeps ?_ hrest)
    exact hkeeps.trans (ht.mono (by decide))
  · apply Returns.stays (umodsi3_line 7 rfl) hls
    have h1 : t.regs .r1 = s.regs .r1 := ht.regs .r1 (by decide)
    have hpos : 0 < (t.regs .r1).toNat := by
      rw [h1]
      exact toNat_pos hzero
    have hgets : Gets lib1funcs _ t _ _ :=
      (armModBody_gets (by decide : Reg.r1 ≠ Reg.r0) (by decide : Reg.r0 ≠ Reg.r2) (by decide)
        hpos).inside 72 118 armModBody_local (by decide +kernel) (by decide +kernel)
    refine hgets.returns ?_
    rintro u ⟨hrest, hu⟩
    refine Returns.ret (umodsi3_line 54 rfl) rfl (divided_of_keeps ?_ ?_)
    · exact (hkeeps.trans (ht.mono (by decide))).trans (hu.mono (by decide))
    · rw [hrest, h0, h1]
      rfl

end Unsigned

/-! ## `__divsi3` -/

section Signed

variable {s t : Core} {p : Nat} {n d : Word} {rd rn : Reg}

/-- `rsbmi` of a copy: the sign is taken away, or put back. -/
theorem negate_gets {listing : Lib1}
    (line : listing[p]? = some (.instr .mi (.op .rsb false rd rn (.imm 0#32))))
    (hsame : s.regs rn = s.regs rd) :
    Gets listing p s (p + 1) fun t =>
      t.regs rd = (if s.holds .mi then -s.regs rd else s.regs rd) ∧ Keeps [rd] s t ∧
        ∀ c, t.holds c = s.holds c := by
  cases hmi : s.holds .mi with
  | true =>
    apply Gets.does line hmi
    refine Gets.here ⟨?_, (Keeps.refl _ s).set (by simp), fun c => holds_set⟩
    show Function.update s.regs rd (0#32 - s.regs rn) rd = _
    rw [Function.update_self, hsame, BitVec.zero_sub]
    rfl
  | false =>
    apply Gets.skips line hmi
    exact Gets.here ⟨rfl, .refl _ s, fun _ => rfl⟩

/-- The end of the signed routines: the sign is put back. -/
theorem signs_returns {x : Word}
    (line₀ : lib1funcs[p]? = some (.instr .mi (.op .rsb false .r0 .r0 (.imm 0#32))))
    (line₁ : lib1funcs[p + 1]? = some (.ret .al)) (hs : Keeps scratch s t)
    (hx : (if t.holds .mi then -t.regs .r0 else t.regs .r0) = x) :
    Returns lib1funcs p t (Divided s x) := by
  refine (negate_gets line₀ rfl).returns ?_
  rintro u ⟨hu, hkeeps, -⟩
  refine Returns.ret line₁ rfl (divided_of_keeps (hs.trans (hkeeps.mono (by decide))) ?_)
  rw [hu, hx]

/-- The divisor and the dividend are positive, and `ip` has the sign. -/
structure SignsTaken (s t : Core) : Prop where
  keeps : Keeps scratch s t
  r1 : t.regs .r1 = (s.regs .r1).abs
  r2 : t.regs .r2 = (s.regs .r1).abs - 1#32
  r3 : t.regs .r3 = (s.regs .r0).abs
  ip : t.regs .ip = s.regs .r0 ^^^ s.regs .r1

theorem apart_div : Apart .r3 .r1 .r0 .r2 := by
  constructor <;> decide

/-- `cmp ip, #0` -/
theorem setSub_zero_mi {w : Word} : (t.setSub w 0#32).holds .mi = w.msb := by
  rw [setSub_mi, BitVec.sub_zero]

/-- Behind the tests. -/
theorem divsi3_body (hs : SignsTaken s t) (hd : s.regs .r1 ≠ 0#32) :
    Returns lib1funcs 132 t (Divided s ((s.regs .r0).sdiv (s.regs .r1))) := by
  have hpos : 0 < (t.regs .r1).toNat := by
    rw [hs.r1]
    exact toNat_pos (abs_ne_zero hd)
  have hgets : Gets lib1funcs _ t _ _ :=
    (armDivBody_gets apart_div hpos).inside 132 166 armDivBody_local (by decide +kernel)
      (by decide +kernel)
  refine hgets.returns ?_
  rintro u ⟨hquot, hu⟩
  have hkeeps := hs.keeps.trans (hu.mono (by decide : _ ⊆ scratch))
  have hip : u.regs .ip = s.regs .r0 ^^^ s.regs .r1 := (hu.regs .ip (by decide)).trans hs.ip
  apply Returns.does (divsi3_line 47 rfl) rfl
  refine signs_returns (divsi3_line 48 rfl) (divsi3_line 49 rfl) ⟨hkeeps.regs, hkeeps.mem⟩ ?_
  show (if (u.setSub (u.regs .ip) 0#32).holds .mi then -u.regs .r0 else u.regs .r0) = _
  rw [setSub_zero_mi, hip, hquot, hs.r3, hs.r1, sdiv_eq_abs]

/-- Label 12, where the divisor is a power of two. -/
theorem divsi3_power (hs : SignsTaken s t) (hpow : ∃ m, (s.regs .r1).abs.toNat = 2 ^ m) :
    Returns lib1funcs 178 t (Divided s ((s.regs .r0).sdiv (s.regs .r1))) := by
  obtain ⟨m, hm⟩ := hpow
  apply Returns.num (divsi3_line 59 rfl)
  have hgets : Gets lib1funcs _ t _ _ :=
    (armDiv2Order_gets (by decide : Reg.r1 ≠ Reg.r2) (hs.r1 ▸ hm)).inside 179 192 armDiv2Order_local
      (by decide +kernel) (by decide +kernel)
  refine hgets.returns ?_
  rintro u ⟨horder, hu⟩
  have hkeeps := hs.keeps.trans (hu.mono (by decide : _ ⊆ scratch))
  have hip : u.regs .ip = s.regs .r0 ^^^ s.regs .r1 := (hu.regs .ip (by decide)).trans hs.ip
  have hu3 : u.regs .r3 = (s.regs .r0).abs := (hu.regs .r3 (by decide)).trans hs.r3
  apply Returns.does (divsi3_line 73 rfl) rfl
  apply Returns.does (divsi3_line 74 rfl) rfl
  show Returns _ _ ((u.setSub (u.regs .ip) 0#32).set .r0
    (u.regs .r3 >>> ((u.regs .r2).toNat % 256))) _
  refine signs_returns (divsi3_line 75 rfl) (divsi3_line 76 rfl)
    (Keeps.set ⟨hkeeps.regs, hkeeps.mem⟩ (by decide)) ?_
  rw [holds_set, setSub_zero_mi, hip, set_regs, Function.update_self, hu3, horder, shift_eq_div hm,
    sdiv_eq_abs]

/-- Label 10: the divisor is 1 or -1. -/
theorem divsi3_one (hkeeps : Keeps scratch s t) (h0 : t.regs .r0 = s.regs .r0)
    (hip : t.regs .ip = s.regs .r0 ^^^ s.regs .r1) (hone : (s.regs .r1).abs = 1#32) :
    Returns lib1funcs 169 t (Divided s ((s.regs .r0).sdiv (s.regs .r1))) := by
  apply Returns.num (divsi3_line 50 rfl)
  apply Returns.does (divsi3_line 51 rfl) rfl
  refine signs_returns (divsi3_line 52 rfl) (divsi3_line 53 rfl) ⟨hkeeps.regs, hkeeps.mem⟩ ?_
  show (if (t.regs .ip ^^^ t.regs .r0).msb then -t.regs .r0 else t.regs .r0) = _
  rw [hip, h0, sdiv_eq_abs, hone, BitVec.udiv_one, BitVec.abs_eq]
  simp only [BitVec.msb_xor]
  cases (s.regs .r0).msb <;> cases (s.regs .r1).msb <;> simp

/-- Label 11, where the dividend is not greater. -/
theorem divsi3_less (hs : SignsTaken s t) (hd : s.regs .r1 ≠ 0#32)
    (heq : t.holds .eq = decide ((s.regs .r0).abs = (s.regs .r1).abs))
    (hlo : t.holds .lo = decide ((s.regs .r0).abs < (s.regs .r1).abs))
    (hle : (s.regs .r0).abs ≤ (s.regs .r1).abs) :
    Returns lib1funcs 173 t (Divided s ((s.regs .r0).sdiv (s.regs .r1))) := by
  apply Returns.num (divsi3_line 54 rfl)
  by_cases hsame : (s.regs .r0).abs = (s.regs .r1).abs
  · -- the quotient is 1 or -1
    rw [decide_eq_true hsame] at heq
    rw [hsame, decide_eq_false (BitVec.lt_irrefl _)] at hlo
    apply Returns.skips (divsi3_line 55 rfl) hlo
    apply Returns.does (divsi3_line 56 rfl) heq
    apply Returns.does (divsi3_line 57 rfl) (holds_set.trans heq)
    refine Returns.ret (divsi3_line 58 rfl) rfl
      (divided_of_keeps ((hs.keeps.set (by decide)).set (by decide)) ?_)
    show (t.regs .ip).sshiftRight 31 ||| 1#32 = _
    have hone : (s.regs .r1).abs / (s.regs .r1).abs = 1#32 := by
      rw [BitVec.udiv_self, if_neg (by simpa using abs_ne_zero hd)]
    rw [hs.ip, sdiv_eq_abs, hsame, hone, sshiftRight_or_one]
  · rw [decide_eq_false hsame] at heq
    rw [decide_eq_true (BitVec.lt_of_le_ne hle hsame)] at hlo
    apply Returns.does (divsi3_line 55 rfl) hlo
    apply Returns.skips (divsi3_line 56 rfl) (holds_set.trans heq)
    apply Returns.skips (divsi3_line 57 rfl) (holds_set.trans heq)
    refine Returns.ret (divsi3_line 58 rfl) rfl (divided_of_keeps (hs.keeps.set (by decide)) ?_)
    show 0#32 = _
    rw [sdiv_eq_abs, udiv_of_lt (BitVec.lt_of_le_ne hle hsame), BitVec.neg_zero, ite_self]

/-- **`__divsi3` divides** as signed numbers, and a division by 0 gives 0. -/
theorem divsi3_divides (s : Core) :
    Calls lib1funcs .divsi3 s (Divided s ((s.regs .r0).sdiv (s.regs .r1))) := by
  refine ⟨119, by decide +kernel, ?_⟩
  apply Returns.entry (divsi3_line 0 rfl)
  apply Returns.does (divsi3_line 1 rfl) rfl
  apply Returns.does (divsi3_line 2 rfl) rfl
  show Returns _ _ ((s.setSub (s.regs .r1) 0#32).set .ip (s.regs .r0 ^^^ s.regs .r1)) _
  have heq₁ : ((s.setSub (s.regs .r1) 0#32).set .ip (s.regs .r0 ^^^ s.regs .r1)).holds .eq =
      decide (s.regs .r1 = 0#32) := holds_set.trans setSub_eq
  have hmi₁ : ((s.setSub (s.regs .r1) 0#32).set .ip (s.regs .r0 ^^^ s.regs .r1)).holds .mi =
      (s.regs .r1).msb := holds_set.trans setSub_zero_mi
  have hkeeps₁ : Keeps scratch s
      ((s.setSub (s.regs .r1) 0#32).set .ip (s.regs .r0 ^^^ s.regs .r1)) :=
    Keeps.set ⟨fun _ _ => rfl, rfl⟩ (by decide)
  have hregs₁ : ((s.setSub (s.regs .r1) 0#32).set .ip (s.regs .r0 ^^^ s.regs .r1)).regs =
      Function.update s.regs .ip (s.regs .r0 ^^^ s.regs .r1) := rfl
  generalize (s.setSub (s.regs .r1) 0#32).set .ip (s.regs .r0 ^^^ s.regs .r1) = t₁
    at heq₁ hmi₁ hkeeps₁ hregs₁ ⊢
  by_cases hzero : s.regs .r1 = 0#32
  · rw [decide_eq_true hzero] at heq₁
    refine Returns.jumps (k := 258) (divsi3_line 3 rfl) heq₁ (by decide +kernel) ?_
    rw [hzero, BitVec.sdiv_zero]
    exact ldiv0_returns hkeeps₁
  rw [decide_eq_false hzero] at heq₁
  apply Returns.falls (divsi3_line 3 rfl) heq₁
  -- the divisor is made positive
  refine (negate_gets (divsi3_line 4 rfl) rfl).returns ?_
  rintro t₂ ⟨h1, hk₂, -⟩
  rw [hmi₁, hregs₁] at h1
  replace h1 : t₂.regs .r1 = (s.regs .r1).abs := h1
  have h0 : t₂.regs .r0 = s.regs .r0 := (hk₂.regs .r0 (by decide)).trans (congrFun hregs₁ .r0)
  have hip : t₂.regs .ip = s.regs .r0 ^^^ s.regs .r1 :=
    (hk₂.regs .ip (by decide)).trans (congrFun hregs₁ .ip)
  have hkeeps₂ : Keeps scratch s t₂ := hkeeps₁.trans (hk₂.mono (by decide))
  apply Returns.does (divsi3_line 5 rfl) rfl
  show Returns _ _ ((t₂.setSub (t₂.regs .r1) 1#32).set .r2 (t₂.regs .r1 - 1#32)) _
  rw [h1]
  have hkeeps₃ : Keeps scratch s ((t₂.setSub (s.regs .r1).abs 1#32).set .r2
      ((s.regs .r1).abs - 1#32)) := Keeps.set ⟨hkeeps₂.regs, hkeeps₂.mem⟩ (by decide)
  by_cases hone : (s.regs .r1).abs = 1#32
  · refine Returns.jumps (k := 169) (divsi3_line 6 rfl)
      (holds_set.trans (setSub_eq.trans (decide_eq_true hone))) (by decide +kernel) ?_
    exact divsi3_one hkeeps₃ h0 hip hone
  apply Returns.falls (divsi3_line 6 rfl)
    (holds_set.trans (setSub_eq.trans (decide_eq_false hone)))
  -- and so is the dividend
  apply Returns.does (divsi3_line 7 rfl) rfl
  show Returns _ _ ((((t₂.setSub _ _).set .r2 _).setNZC (t₂.regs .r0) _).set .r3 (t₂.regs .r0)) _
  refine (negate_gets (divsi3_line 8 rfl) rfl).returns ?_
  rintro t₄ ⟨h3, hk₄, -⟩
  have hready : SignsTaken s t₄ := by
    refine ⟨?_, (hk₄.regs .r1 (by decide)).trans h1, hk₄.regs .r2 (by decide), ?_,
      (hk₄.regs .ip (by decide)).trans hip⟩
    · refine Keeps.trans ?_ (hk₄.mono (by decide : _ ⊆ scratch))
      exact Keeps.set ⟨hkeeps₃.regs, hkeeps₃.mem⟩ (by decide)
    · rw [h3]
      show (if (t₂.regs .r0).msb then -t₂.regs .r0 else t₂.regs .r0) = _
      rw [h0]
      rfl
  apply Returns.does (divsi3_line 9 rfl) rfl
  show Returns _ _ (t₄.setSub (t₄.regs .r3) (t₄.regs .r1)) _
  rw [hready.r3, hready.r1]
  have hflags : ∀ u : Core, u.regs = t₄.regs → u.mem = t₄.mem → SignsTaken s u := by
    intro u hregs hmem
    refine ⟨⟨fun r hr => ?_, hmem.trans hready.keeps.mem⟩, ?_, ?_, ?_, ?_⟩
    · rw [hregs, hready.keeps.regs r hr]
    · rw [hregs, hready.r1]
    · rw [hregs, hready.r2]
    · rw [hregs, hready.r3]
    · rw [hregs, hready.ip]
  by_cases hle : (s.regs .r0).abs ≤ (s.regs .r1).abs
  · refine Returns.jumps (k := 173) (divsi3_line 10 rfl) (setSub_ls.trans (decide_eq_true hle))
      (by decide +kernel) ?_
    exact divsi3_less (hflags _ rfl rfl) hzero setSub_eq setSub_lo hle
  apply Returns.falls (divsi3_line 10 rfl) (setSub_ls.trans (decide_eq_false hle))
  apply Returns.does (divsi3_line 11 rfl) rfl
  show Returns _ _ (Core.setNZC _ (t₄.regs .r1 &&& t₄.regs .r2) _) _
  rw [hready.r1, hready.r2]
  by_cases hpow : (s.regs .r1).abs &&& ((s.regs .r1).abs - 1#32) = 0#32
  · refine Returns.jumps (k := 178) (divsi3_line 12 rfl) (setNZC_eq.trans (decide_eq_true hpow))
      (by decide +kernel) ?_
    exact divsi3_power (hflags _ rfl rfl) (power_of_and_pred (abs_ne_zero hzero) hpow)
  · apply Returns.falls (divsi3_line 12 rfl) (setNZC_eq.trans (decide_eq_false hpow))
    exact divsi3_body (hflags _ rfl rfl) hzero

/-- **`__modsi3` takes the signed remainder**, and a division by 0 gives 0. -/
theorem modsi3_divides (s : Core) :
    Calls lib1funcs .modsi3 s
      (Divided s (if s.regs .r1 = 0#32 then 0#32 else (s.regs .r0).srem (s.regs .r1))) := by
  refine ⟨196, by decide +kernel, ?_⟩
  apply Returns.entry (modsi3_line 0 rfl)
  apply Returns.does (modsi3_line 1 rfl) rfl
  show Returns _ _ (s.setSub (s.regs .r1) 0#32) _
  have hkeeps₁ : Keeps scratch s (s.setSub (s.regs .r1) 0#32) := ⟨fun _ _ => rfl, rfl⟩
  by_cases hzero : s.regs .r1 = 0#32
  · rw [if_pos hzero]
    exact Returns.jumps (k := 258) (modsi3_line 2 rfl) (setSub_eq.trans (decide_eq_true hzero))
      (by decide +kernel) (ldiv0_returns hkeeps₁)
  rw [if_neg hzero]
  apply Returns.falls (modsi3_line 2 rfl) (setSub_eq.trans (decide_eq_false hzero))
  -- the divisor is made positive
  refine (negate_gets (modsi3_line 3 rfl) rfl).returns ?_
  rintro t₂ ⟨h1, hk₂, -⟩
  rw [setSub_zero_mi] at h1
  replace h1 : t₂.regs .r1 = (s.regs .r1).abs := h1
  have h0 : t₂.regs .r0 = s.regs .r0 := hk₂.regs .r0 (by decide)
  have hkeeps₂ : Keeps scratch s t₂ := hkeeps₁.trans (hk₂.mono (by decide))
  -- and so is the dividend; `ip` has its sign
  apply Returns.does (modsi3_line 4 rfl) rfl
  show Returns _ _ ((t₂.setNZC (t₂.regs .r0) _).set .ip (t₂.regs .r0)) _
  refine (negate_gets (modsi3_line 5 rfl) rfl).returns ?_
  rintro t₃ ⟨h0', hk₃, -⟩
  replace h0' : t₃.regs .r0 = (s.regs .r0).abs := by
    rw [h0']
    show (if (t₂.regs .r0).msb then -t₂.regs .r0 else t₂.regs .r0) = _
    rw [h0]
    rfl
  have h1' : t₃.regs .r1 = (s.regs .r1).abs := (hk₃.regs .r1 (by decide)).trans h1
  have hip : t₃.regs .ip = s.regs .r0 := (hk₃.regs .ip (by decide)).trans h0
  have hkeeps₃ : Keeps scratch s t₃ := by
    refine Keeps.trans ?_ (hk₃.mono (by decide : _ ⊆ scratch))
    exact Keeps.set ⟨hkeeps₂.regs, hkeeps₂.mem⟩ (by decide)
  apply Returns.does (modsi3_line 6 rfl) rfl
  show Returns _ _ ((t₃.setSub (t₃.regs .r1) 1#32).set .r2 (t₃.regs .r1 - 1#32)) _
  have hkeeps₄ : Keeps scratch s ((t₃.setSub (t₃.regs .r1) 1#32).set .r2 (t₃.regs .r1 - 1#32)) :=
    Keeps.set ⟨hkeeps₃.regs, hkeeps₃.mem⟩ (by decide)
  have habs := abs_ne_zero hzero
  rw [h1'] at hkeeps₄ ⊢
  refine Gets.returns (modEasy_gets (modsi3_line 7 rfl) (modsi3_line 8 rfl) (modsi3_line 9 rfl)
    (modsi3_line 10 rfl) habs h0' h1' rfl (holds_set.trans setSub_eq)) ?_
  have hends : ∀ u : Core, Keeps scratch s u → u.regs .ip = s.regs .r0 →
      u.regs .r0 = (s.regs .r0).abs % (s.regs .r1).abs →
      Returns lib1funcs 254 u (Divided s ((s.regs .r0).srem (s.regs .r1))) := by
    intro u hkeeps hip hrest
    apply Returns.num (modsi3_line 58 rfl)
    apply Returns.does (modsi3_line 59 rfl) rfl
    refine signs_returns (modsi3_line 60 rfl) (modsi3_line 61 rfl) ⟨hkeeps.regs, hkeeps.mem⟩ ?_
    show (if (u.setSub (u.regs .ip) 0#32).holds .mi then -u.regs .r0 else u.regs .r0) = _
    rw [setSub_zero_mi, hip, hrest, srem_eq_abs]
  rintro u ⟨hu, ⟨hls, hrest⟩ | ⟨hls, hu0⟩⟩
  · refine Returns.jumps (k := 254) (modsi3_line 11 rfl) hls (by decide +kernel) ?_
    exact hends u (hkeeps₄.trans (hu.mono (by decide))) ((hu.regs .ip (by decide)).trans hip) hrest
  · apply Returns.falls (modsi3_line 11 rfl) hls
    have hu1 : u.regs .r1 = (s.regs .r1).abs := (hu.regs .r1 (by decide)).trans h1'
    have hpos : 0 < (u.regs .r1).toNat := by
      rw [hu1]
      exact toNat_pos habs
    have hgets : Gets lib1funcs _ u _ _ :=
      (armModBody_gets (by decide : Reg.r1 ≠ Reg.r0) (by decide : Reg.r0 ≠ Reg.r2) (by decide)
        hpos).inside 208 254 armModBody_local (by decide +kernel) (by decide +kernel)
    refine hgets.returns ?_
    rintro v ⟨hrest, hv⟩
    rw [hu0, hu1] at hrest
    refine hends v ((hkeeps₄.trans (hu.mono (by decide))).trans (hv.mono (by decide))) ?_ hrest
    exact (hv.regs .ip (by decide)).trans ((hu.regs .ip (by decide)).trans hip)

end Signed

end HeavenFox.Arch
