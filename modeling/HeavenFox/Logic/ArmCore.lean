/-
# HeavenFox.Logic.ArmCore -- listings of ARM instructions

A small library with nothing of the kernel in it.  An instruction of ARM is carried out under a
condition on the flags and may set them; its second operand goes through the shifter.  A listing is a
list of instructions with labels between them: numbered ones, of which a branch takes the nearest
before or behind it, and named ones.

`Goes listing n x y` says that `n` instructions lead from one place and state to another.  What a
block of a listing does alone it does inside a longer listing (`Goes.inside`), as long as it only
jumps inside itself; that is how a macro is verified once and used in many places.
-/
import Mathlib.Algebra.GroupWithZero.Nat
import Mathlib.Algebra.Ring.Int.Defs
import Mathlib.Logic.Function.Basic
import Mathlib.Tactic.Common

namespace HeavenFox.Logic.Arm

/-! ## Instructions -/

/-- The registers, the program counter apart. -/
inductive Reg where
  | r0 | r1 | r2 | r3 | r4 | r5 | r6 | r7 | r8 | r9 | r10 | r11 | ip | sp | lr
  deriving DecidableEq, Repr

abbrev Word := BitVec 32

inductive Cond where
  | al | eq | ne | hs | lo | mi | hi | ls | ge | lt
  deriving DecidableEq, Repr

/-- The second operand. -/
inductive Operand where
  | imm (w : Word)
  | reg (r : Reg)
  | lsl (r : Reg) (k : Nat)
  | lsr (r : Reg) (k : Nat)
  | asr (r : Reg) (k : Nat)
  | lsrReg (r rs : Reg)
  deriving DecidableEq, Repr

inductive Op where
  | and
  | orr
  | eor
  | add
  | sub
  | rsb
  deriving DecidableEq, Repr

/-- What an instruction does to the registers and the flags; `s` is set if it sets the flags. -/
inductive Instr where
  | mov (s : Bool) (rd : Reg) (x : Operand)
  | op (o : Op) (s : Bool) (rd rn : Reg) (x : Operand)
  | cmp (rn : Reg) (x : Operand)
  | cmn (rn : Reg) (x : Operand)
  | tst (rn : Reg) (x : Operand)
  | teq (rn : Reg) (x : Operand)
  | push (rd rn : Reg)
  deriving DecidableEq, Repr

/-- Where a branch goes: a numbered label before or behind it, or a named label. -/
inductive Target (σ : Type*) where
  | back (l : Nat)
  | fwd (l : Nat)
  | name (x : σ)
  deriving DecidableEq, Repr

/-- A line of a listing. -/
inductive Line (σ : Type*) where
  | num (l : Nat)
  | entry (x : σ)
  | instr (c : Cond) (i : Instr)
  | b (c : Cond) (t : Target σ)
  /-- `mov pc, lr` -/
  | ret (c : Cond)
  /-- `ldr pc, [rn], #4` -/
  | popPc (rn : Reg)
  deriving DecidableEq, Repr

abbrev Listing (σ : Type*) := List (Line σ)

/-! ## The core -/

/-- The registers, the flags, and the words of the memory. -/
structure Core where
  regs : Reg → Word
  n : Bool
  z : Bool
  c : Bool
  v : Bool
  mem : Word → Word

namespace Core

variable (s : Core)

def set (r : Reg) (w : Word) : Core := { s with regs := Function.update s.regs r w }

def setMem (a w : Word) : Core := { s with mem := Function.update s.mem a w }

/-- The flags of a result without an overflow. -/
def setNZC (w : Word) (c : Bool) : Core := { s with n := w.msb, z := w == 0#32, c := c }

/-- The flags of a difference; the carry is set where nothing is borrowed. -/
def setSub (a b : Word) : Core :=
  { s with n := (a - b).msb, z := a - b == 0#32, c := decide (b ≤ a), v := BitVec.ssubOverflow a b }

/-- The flags of a sum. -/
def setAdd (a b : Word) : Core :=
  { s with n := (a + b).msb, z := a + b == 0#32, c := BitVec.uaddOverflow a b,
           v := BitVec.saddOverflow a b }

def holds : Cond → Bool
  | .al => true
  | .eq => s.z
  | .ne => !s.z
  | .hs => s.c
  | .lo => !s.c
  | .mi => s.n
  | .hi => s.c && !s.z
  | .ls => !s.c || s.z
  | .ge => s.n == s.v
  | .lt => s.n != s.v

/-- The shifter: the value of an operand. -/
def value : Operand → Word
  | .imm w => w
  | .reg r => s.regs r
  | .lsl r k => s.regs r <<< k
  | .lsr r k => s.regs r >>> k
  | .asr r k => (s.regs r).sshiftRight k
  | .lsrReg r rs => s.regs r >>> ((s.regs rs).toNat % 256)

/-- The shifter: its carry.  An immediate of more than eight bits is a rotated one. -/
def carry : Operand → Bool
  | .imm w => if w.toNat < 256 then s.c else w.msb
  | .reg _ => s.c
  | .lsl r k => if k = 0 then s.c else (s.regs r).getLsbD (32 - k)
  | .lsr r k => if k = 0 then s.c else (s.regs r).getLsbD (k - 1)
  | .asr r k => if k = 0 then s.c else (s.regs r).getLsbD (k - 1)
  | .lsrReg r rs =>
    let k := (s.regs rs).toNat % 256
    if k = 0 then s.c else (s.regs r).getLsbD (k - 1)

end Core

/-- The value of an operation. -/
def Op.eval : Op → Word → Word → Word
  | .and, a, b => a &&& b
  | .orr, a, b => a ||| b
  | .eor, a, b => a ^^^ b
  | .add, a, b => a + b
  | .sub, a, b => a - b
  | .rsb, a, b => b - a

/-- The flags of an operation. -/
def Op.setFlags (s : Core) (carry : Bool) : Op → Word → Word → Core
  | .add, a, b => s.setAdd a b
  | .sub, a, b => s.setSub a b
  | .rsb, a, b => s.setSub b a
  | o, a, b => s.setNZC (o.eval a b) carry

/-- What one instruction does, if it is carried out. -/
def Instr.exec (s : Core) : Instr → Core
  | .mov f rd x => (if f then s.setNZC (s.value x) (s.carry x) else s).set rd (s.value x)
  | .op o f rd rn x =>
    (if f then o.setFlags s (s.carry x) (s.regs rn) (s.value x) else s).set rd
      (o.eval (s.regs rn) (s.value x))
  | .cmp rn x => s.setSub (s.regs rn) (s.value x)
  | .cmn rn x => s.setAdd (s.regs rn) (s.value x)
  | .tst rn x => s.setNZC (s.regs rn &&& s.value x) (s.carry x)
  | .teq rn x => s.setNZC (s.regs rn ^^^ s.value x) (s.carry x)
  | .push rd rn => (s.setMem (s.regs rn - 4#32) (s.regs rd)).set rn (s.regs rn - 4#32)

/-! ## What is read after a change -/

section Reads

variable {s t : Core} {r : Reg} {w a b : Word} {carry : Bool} {c : Cond}

@[simp] theorem set_regs : (s.set r w).regs = Function.update s.regs r w := rfl

@[simp] theorem set_mem : (s.set r w).mem = s.mem := rfl

@[simp] theorem setSub_regs : (s.setSub a b).regs = s.regs := rfl

@[simp] theorem setSub_mem : (s.setSub a b).mem = s.mem := rfl

@[simp] theorem setAdd_regs : (s.setAdd a b).regs = s.regs := rfl

@[simp] theorem setAdd_mem : (s.setAdd a b).mem = s.mem := rfl

@[simp] theorem setNZC_regs : (s.setNZC w carry).regs = s.regs := rfl

@[simp] theorem setNZC_mem : (s.setNZC w carry).mem = s.mem := rfl

/-- A register does not show in the flags. -/
@[simp] theorem holds_set : (s.set r w).holds c = s.holds c := by
  cases c <;> rfl

theorem sub_eq_zero_iff : (a - b == 0#32) = decide (a = b) := by
  rw [Bool.eq_iff_iff, beq_iff_eq, decide_eq_true_iff]
  constructor
  · intro h
    bv_omega
  · rintro rfl
    exact BitVec.sub_self a

@[simp] theorem setSub_lo : (s.setSub a b).holds .lo = decide (a < b) := by
  show (!decide (b ≤ a)) = _
  rw [← decide_not, decide_eq_decide]
  exact BitVec.not_le

@[simp] theorem setSub_hs : (s.setSub a b).holds .hs = decide (b ≤ a) := rfl

@[simp] theorem setSub_eq : (s.setSub a b).holds .eq = decide (a = b) := sub_eq_zero_iff

@[simp] theorem setSub_ne : (s.setSub a b).holds .ne = decide (a ≠ b) := by
  show (!(a - b == 0#32)) = _
  rw [sub_eq_zero_iff, decide_not]

@[simp] theorem setSub_mi : (s.setSub a b).holds .mi = (a - b).msb := rfl

@[simp] theorem setSub_hi : (s.setSub a b).holds .hi = decide (b < a) := by
  show (decide (b ≤ a) && !(a - b == 0#32)) = _
  rw [sub_eq_zero_iff, Bool.eq_iff_iff, Bool.and_eq_true, Bool.not_eq_true', decide_eq_false_iff_not,
    decide_eq_true_iff, decide_eq_true_iff]
  rw [BitVec.le_def, BitVec.lt_def, ← BitVec.toNat_inj]
  omega

@[simp] theorem setSub_ls : (s.setSub a b).holds .ls = decide (a ≤ b) := by
  have h : (s.setSub a b).holds .ls = !(s.setSub a b).holds .hi := by
    show (!decide (b ≤ a) || (a - b == 0#32)) = !(decide (b ≤ a) && !(a - b == 0#32))
    rw [Bool.not_and, Bool.not_not]
  rw [h, setSub_hi, ← decide_not, decide_eq_decide]
  exact BitVec.not_lt

@[simp] theorem setNZC_eq : (s.setNZC w carry).holds .eq = decide (w = 0#32) := by
  show (w == 0#32) = _
  rw [Bool.eq_iff_iff, beq_iff_eq, decide_eq_true_iff]

@[simp] theorem setNZC_ne : (s.setNZC w carry).holds .ne = decide (w ≠ 0#32) := by
  have heq : (s.setNZC w carry).holds .eq = decide (w = 0#32) := setNZC_eq
  rw [decide_not, ← heq]
  rfl

@[simp] theorem setNZC_mi : (s.setNZC w carry).holds .mi = w.msb := rfl

/-- The sign and the overflow of a result tell the sign of the exact one. -/
theorem sign_bne_overflow {x : Int} (h : -2 ^ 32 ≤ x) (h' : x < 2 ^ 32) :
    (decide (x.bmod (2 ^ 32) < 0) != (decide (2 ^ 31 ≤ x) || decide (x < -2 ^ 31))) =
      decide (x < 0) := by
  have hbmod : x.bmod (2 ^ 32) = if x % 4294967296 < 2147483648 then x % 4294967296
      else x % 4294967296 - 4294967296 := by
    rw [Int.bmod_def]
    rfl
  have hbmod' : x.bmod (2 ^ 32) < 0 ↔ 2 ^ 31 ≤ x ∨ -2 ^ 31 ≤ x ∧ x < 0 := by
    rw [hbmod]
    omega
  rw [decide_eq_decide.mpr hbmod']
  by_cases habove : 2 ^ 31 ≤ x
  · have hpos : ¬ x < 0 := by omega
    rw [decide_eq_true habove, decide_eq_true (Or.inl habove), decide_eq_false hpos, Bool.true_or]
    rfl
  by_cases hbelow : x < -2 ^ 31
  · rw [decide_eq_true hbelow, Bool.or_true, decide_eq_false (by omega), decide_eq_true (by omega)]
    rfl
  have hiff : (2 ^ 31 ≤ x ∨ -2 ^ 31 ≤ x ∧ x < 0) ↔ x < 0 := by omega
  rw [decide_eq_false habove, decide_eq_false hbelow, decide_eq_decide.mpr hiff]
  exact Bool.bne_false _

@[simp] theorem setSub_lt : (s.setSub a b).holds .lt = decide (a.toInt < b.toInt) := by
  have ha := BitVec.toInt_lt (x := a)
  have ha' := BitVec.le_toInt (x := a)
  have hb := BitVec.toInt_lt (x := b)
  have hb' := BitVec.le_toInt (x := b)
  have hneg : a.toInt < b.toInt ↔ a.toInt - b.toInt < 0 := by omega
  show ((a - b).msb != BitVec.ssubOverflow a b) = _
  rw [BitVec.msb_eq_toInt, BitVec.ssubOverflow, BitVec.toInt_sub, decide_eq_decide.mpr hneg]
  exact sign_bne_overflow (by omega) (by omega)

@[simp] theorem setSub_ge : (s.setSub a b).holds .ge = decide (b.toInt ≤ a.toInt) := by
  have h : (s.setSub a b).holds .ge = !(s.setSub a b).holds .lt := by
    show ((a - b).msb == _) = !((a - b).msb != _)
    rw [bne, Bool.not_not]
  rw [h, setSub_lt, ← decide_not, decide_eq_decide]
  exact Int.not_lt

@[simp] theorem setAdd_eq : (s.setAdd a b).holds .eq = decide (a + b = 0#32) := by
  show (a + b == 0#32) = _
  rw [Bool.eq_iff_iff, beq_iff_eq, decide_eq_true_iff]

@[simp] theorem setAdd_lt : (s.setAdd a b).holds .lt = decide (a.toInt + b.toInt < 0) := by
  have ha := BitVec.toInt_lt (x := a)
  have ha' := BitVec.le_toInt (x := a)
  have hb := BitVec.toInt_lt (x := b)
  have hb' := BitVec.le_toInt (x := b)
  show ((a + b).msb != BitVec.saddOverflow a b) = _
  rw [BitVec.msb_eq_toInt, BitVec.saddOverflow, BitVec.toInt_add]
  exact sign_bne_overflow (by omega) (by omega)
/-- All registers but those in `S` are as they were, and so is the memory. -/
structure Keeps (S : List Reg) (s t : Core) : Prop where
  regs : ∀ r, r ∉ S → t.regs r = s.regs r
  mem : t.mem = s.mem

theorem Keeps.refl (S : List Reg) (s : Core) : Keeps S s s := ⟨fun _ _ => rfl, rfl⟩

theorem Keeps.trans {S : List Reg} {u : Core} (h : Keeps S s t) (h' : Keeps S t u) : Keeps S s u :=
  ⟨fun r hr => (h'.regs r hr).trans (h.regs r hr), h'.mem.trans h.mem⟩

theorem Keeps.mono {S S' : List Reg} (h : Keeps S s t) (hS : S ⊆ S') : Keeps S' s t :=
  ⟨fun r hr => h.regs r fun hmem => hr (hS hmem), h.mem⟩

theorem Keeps.set {S : List Reg} (h : Keeps S s t) (hr : r ∈ S) : Keeps S s (t.set r w) := by
  refine ⟨fun r' hr' => ?_, h.mem⟩
  have hne : r' ≠ r := fun heq => hr' (heq ▸ hr)
  rw [set_regs, Function.update_of_ne hne]
  exact h.regs r' hr'

end Reads

/-! ## Running a listing -/

section Run

variable {σ : Type*} [DecidableEq σ]

/-- Is the line this numbered label? -/
def Line.isNum (l : Nat) : Line σ → Bool
  | .num l' => l' == l
  | _ => false

/-- Is the line this named label? -/
def Line.isEntry (x : σ) : Line σ → Bool
  | .entry x' => decide (x' = x)
  | _ => false

/-- The line of a label, for a branch in line `k`. -/
def Listing.find (listing : Listing σ) (k : Nat) : Target σ → Option Nat
  | .back l => ((listing.take k).reverse.findIdx? (·.isNum l)).map fun j => k - 1 - j
  | .fwd l => ((listing.drop (k + 1)).findIdx? (·.isNum l)).map fun j => k + 1 + j
  | .name x => listing.findIdx? (·.isEntry x)

/-- What a line leads to: another line, or out of the listing to an address. -/
inductive Next where
  | line (k : Nat) (s : Core)
  | left (w : Word) (s : Core)

/-- What line `k` does. -/
def Listing.exec (listing : Listing σ) (k : Nat) (s : Core) : Line σ → Option Next
  | .num _ => some (.line (k + 1) s)
  | .entry _ => some (.line (k + 1) s)
  | .instr c i => some (.line (k + 1) (if s.holds c then i.exec s else s))
  | .b c t =>
    if s.holds c then (listing.find k t).map fun j => .line j s else some (.line (k + 1) s)
  | .ret c => some (if s.holds c then .left (s.regs .lr) s else .line (k + 1) s)
  | .popPc rn => some (.left (s.mem (s.regs rn)) (s.set rn (s.regs rn + 4#32)))

def Listing.step (listing : Listing σ) (k : Nat) (s : Core) : Option Next :=
  listing[k]?.bind (listing.exec k s)

/-- At most so many lines; the run is over when the listing is left. -/
def Listing.run (listing : Listing σ) : Nat → Nat → Core → Option (Word × Core)
  | 0, _, _ => none
  | n + 1, k, s =>
    match listing.step k s with
    | none => none
    | some (.line k s) => listing.run n k s
    | some (.left w s) => some (w, s)

/-- `n` lines lead from line `j` to line `k`. -/
inductive Goes (listing : Listing σ) : Nat → Nat → Core → Nat → Core → Prop
  | refl (k : Nat) (s : Core) : Goes listing 0 k s k s
  | step {n i j k : Nat} {s t u : Core} (h : listing.step i s = some (.line j t))
      (rest : Goes listing n j t k u) : Goes listing (n + 1) i s k u

variable {listing : Listing σ} {m n i j k l : Nat} {s t u : Core} {c : Cond} {w : Word}

theorem Goes.one (h : listing.step i s = some (.line j t)) : Goes listing 1 i s j t :=
  .step h (.refl j t)

theorem Goes.trans (h : Goes listing n i s j t) (h' : Goes listing m j t k u) :
    Goes listing (n + m) i s k u := by
  induction h with
  | refl => rwa [Nat.zero_add]
  | step hstep _ ih =>
    rw [Nat.add_right_comm]
    exact .step hstep (ih h')

theorem Goes.leads (h : Goes listing n i s j t) (k : Nat) :
    listing.run (k + n) i s = listing.run k j t := by
  induction h with
  | refl => rfl
  | step hstep _ ih => rw [← Nat.add_assoc, Listing.run, hstep, ← ih]

/-- A run that comes to the end. -/
theorem Goes.run (h : Goes listing n i s j t) (hend : listing.step j t = some (.left w u))
    (hk : n + 1 ≤ k) : listing.run k i s = some (w, u) := by
  induction h generalizing k with
  | refl i s =>
    obtain ⟨k, rfl⟩ : ∃ k', k = k' + 1 := ⟨k - 1, by omega⟩
    rw [Listing.run, hend]
  | step hstep _ ih =>
    obtain ⟨k, rfl⟩ : ∃ k', k = k' + 1 := ⟨k - 1, by omega⟩
    rw [Listing.run, hstep]
    exact ih hend (by omega)

/-! ## One line -/

theorem step_of_line {line : Line σ} (h : listing[k]? = some line) :
    listing.step k s = listing.exec k s line := by
  rw [Listing.step, h]
  rfl

theorem goes_instr {i : Instr} (h : listing[k]? = some (.instr c i)) :
    Goes listing 1 k s (k + 1) (if s.holds c then i.exec s else s) :=
  .one (step_of_line h)

theorem goes_num (h : listing[k]? = some (.num l)) : Goes listing 1 k s (k + 1) s :=
  .one (step_of_line h)

theorem goes_entry {x : σ} (h : listing[k]? = some (.entry x)) : Goes listing 1 k s (k + 1) s :=
  .one (step_of_line h)

/-- A branch that is taken. -/
theorem goes_branch {t : Target σ} (h : listing[k]? = some (.b c t)) (hc : s.holds c = true)
    (ht : listing.find k t = some j) : Goes listing 1 k s j s := by
  apply Goes.one
  rw [step_of_line h, Listing.exec, if_pos hc, ht]
  rfl

/-- A branch that is not taken. -/
theorem goes_no_branch {t : Target σ} (h : listing[k]? = some (.b c t)) (hc : s.holds c = false) :
    Goes listing 1 k s (k + 1) s := by
  apply Goes.one
  rw [step_of_line h, Listing.exec, if_neg (by rw [hc]; exact Bool.false_ne_true)]

theorem goes_no_ret (h : listing[k]? = some (.ret c)) (hc : s.holds c = false) :
    Goes listing 1 k s (k + 1) s := by
  apply Goes.one
  rw [step_of_line h, Listing.exec, if_neg (by rw [hc]; exact Bool.false_ne_true)]

theorem step_ret (h : listing[k]? = some (.ret c)) (hc : s.holds c = true) :
    listing.step k s = some (.left (s.regs .lr) s) := by
  rw [step_of_line h, Listing.exec, if_pos hc]

/-! ## Rules -/

/-- The listing comes from line `i` to line `j`, where `Q` holds. -/
def Gets (listing : Listing σ) (i : Nat) (s : Core) (j : Nat) (Q : Core → Prop) : Prop :=
  ∃ n t, Goes listing n i s j t ∧ Q t

variable {Q R : Core → Prop}

theorem Gets.here (h : Q s) : Gets listing i s i Q := ⟨0, s, .refl i s, h⟩

theorem Goes.gets (h : Goes listing n i s j t) (hnext : Gets listing j t k Q) :
    Gets listing i s k Q := by
  obtain ⟨m, u, hgoes, hu⟩ := hnext
  exact ⟨n + m, u, h.trans hgoes, hu⟩

theorem Gets.after (h : Gets listing i s j Q) (hnext : ∀ t, Q t → Gets listing j t k R) :
    Gets listing i s k R := by
  obtain ⟨n, t, hgoes, ht⟩ := h
  exact hgoes.gets (hnext t ht)

theorem Gets.imp (h : Gets listing i s j Q) (hQ : ∀ t, Q t → R t) : Gets listing i s j R := by
  obtain ⟨n, t, hgoes, ht⟩ := h
  exact ⟨n, t, hgoes, hQ t ht⟩

theorem Gets.num (h : listing[i]? = some (.num l)) (hnext : Gets listing (i + 1) s j Q) :
    Gets listing i s j Q := (goes_num h).gets hnext

/-- An instruction that is carried out. -/
theorem Gets.does {a : Instr} (h : listing[i]? = some (.instr c a)) (hc : s.holds c = true)
    (hnext : Gets listing (i + 1) (a.exec s) j Q) : Gets listing i s j Q := by
  have hgoes := goes_instr (s := s) h
  rw [if_pos hc] at hgoes
  exact hgoes.gets hnext

/-- An instruction that is passed over. -/
theorem Gets.skips {a : Instr} (h : listing[i]? = some (.instr c a)) (hc : s.holds c = false)
    (hnext : Gets listing (i + 1) s j Q) : Gets listing i s j Q := by
  have hgoes := goes_instr (s := s) h
  rw [if_neg (by rw [hc]; exact Bool.false_ne_true)] at hgoes
  exact hgoes.gets hnext

theorem Gets.jumps {t : Target σ} (h : listing[i]? = some (.b c t)) (hc : s.holds c = true)
    (ht : listing.find i t = some k) (hnext : Gets listing k s j Q) : Gets listing i s j Q :=
  (goes_branch h hc ht).gets hnext

theorem Gets.falls {t : Target σ} (h : listing[i]? = some (.b c t)) (hc : s.holds c = false)
    (hnext : Gets listing (i + 1) s j Q) : Gets listing i s j Q :=
  (goes_no_branch h hc).gets hnext

/-- The listing is left for an address with a state that `Q` holds of, as soon as enough lines may
be run. -/
def Returns (listing : Listing σ) (i : Nat) (s : Core) (Q : Word → Core → Prop) : Prop :=
  ∃ n w t, (∀ k, n ≤ k → listing.run k i s = some (w, t)) ∧ Q w t

variable {P : Word → Core → Prop}

theorem Gets.returns (h : Gets listing i s j Q) (hnext : ∀ t, Q t → Returns listing j t P) :
    Returns listing i s P := by
  obtain ⟨n, t, hgoes, ht⟩ := h
  obtain ⟨m, w, u, hrun, hu⟩ := hnext t ht
  refine ⟨n + m, w, u, fun k hk => ?_, hu⟩
  rw [← hrun (k - n) (by omega)]
  have hsum : k - n + n = k := by omega
  rw [← hgoes.leads (k - n), hsum]

theorem Goes.returns (h : Goes listing n i s j t) (hnext : Returns listing j t P) :
    Returns listing i s P :=
  Gets.returns ⟨n, t, h, rfl⟩ fun _ heq => heq ▸ hnext

theorem Returns.num (h : listing[i]? = some (.num l)) (hnext : Returns listing (i + 1) s P) :
    Returns listing i s P := (goes_num h).returns hnext

theorem Returns.entry {x : σ} (h : listing[i]? = some (.entry x))
    (hnext : Returns listing (i + 1) s P) : Returns listing i s P := (goes_entry h).returns hnext

theorem Returns.does {a : Instr} (h : listing[i]? = some (.instr c a)) (hc : s.holds c = true)
    (hnext : Returns listing (i + 1) (a.exec s) P) : Returns listing i s P := by
  have hgoes := goes_instr (s := s) h
  rw [if_pos hc] at hgoes
  exact hgoes.returns hnext

theorem Returns.skips {a : Instr} (h : listing[i]? = some (.instr c a)) (hc : s.holds c = false)
    (hnext : Returns listing (i + 1) s P) : Returns listing i s P := by
  have hgoes := goes_instr (s := s) h
  rw [if_neg (by rw [hc]; exact Bool.false_ne_true)] at hgoes
  exact hgoes.returns hnext

theorem Returns.jumps {t : Target σ} (h : listing[i]? = some (.b c t)) (hc : s.holds c = true)
    (ht : listing.find i t = some k) (hnext : Returns listing k s P) : Returns listing i s P :=
  (goes_branch h hc ht).returns hnext

theorem Returns.falls {t : Target σ} (h : listing[i]? = some (.b c t)) (hc : s.holds c = false)
    (hnext : Returns listing (i + 1) s P) : Returns listing i s P :=
  (goes_no_branch h hc).returns hnext

/-- A return that is not taken. -/
theorem Returns.stays (h : listing[i]? = some (.ret c)) (hc : s.holds c = false)
    (hnext : Returns listing (i + 1) s P) : Returns listing i s P :=
  (goes_no_ret h hc).returns hnext

/-- `mov pc, lr` -/
theorem Returns.ret (h : listing[i]? = some (.ret c)) (hc : s.holds c = true)
    (hP : P (s.regs .lr) s) : Returns listing i s P :=
  ⟨1, s.regs .lr, s, fun _ hk => Goes.run (.refl i s) (step_ret h hc) hk, hP⟩

/-- `ldr pc, [rn], #4` -/
theorem Returns.popPc {r : Reg} (h : listing[i]? = some (.popPc r))
    (hP : P (s.mem (s.regs r)) (s.set r (s.regs r + 4#32))) : Returns listing i s P :=
  ⟨1, _, _, fun _ hk => Goes.run (.refl i s) (step_of_line h) hk, hP⟩

/-- A call of a named label. -/
def Calls (listing : Listing σ) (x : σ) (s : Core) (P : Word → Core → Prop) : Prop :=
  ∃ k, listing.find 0 (.name x) = some k ∧ Returns listing k s P

/-! ## A block inside a listing -/

/-- The line does not jump to a named label. -/
def Line.isLocal : Line σ → Bool
  | .b _ (.name _) => false
  | _ => true

section Inside

variable {before block after : Listing σ}

theorem find_back_inside (hk : k ≤ block.length) (h : block.find k (.back l) = some j) :
    (before ++ block ++ after).find (before.length + k) (.back l) = some (before.length + j) := by
  obtain ⟨i, hi, rfl⟩ := Option.map_eq_some_iff.mp h
  have hlen : i < ((block.take k).reverse).length := (List.findIdx?_eq_some_iff_getElem.mp hi).1
  rw [List.length_reverse, List.length_take] at hlen
  have htake : (before ++ block ++ after).take (before.length + k) = before ++ block.take k := by
    rw [List.append_assoc, List.take_length_add_append, List.take_append_of_le_length hk]
  unfold Listing.find
  dsimp only
  rw [htake, List.reverse_append, List.findIdx?_append, hi]
  show some (before.length + k - 1 - i) = some (before.length + (k - 1 - i))
  congr 1
  omega

theorem find_fwd_inside (hk : k < block.length) (h : block.find k (.fwd l) = some j) :
    (before ++ block ++ after).find (before.length + k) (.fwd l) = some (before.length + j) := by
  obtain ⟨i, hi, rfl⟩ := Option.map_eq_some_iff.mp h
  have hdrop : (before ++ block ++ after).drop (before.length + k + 1) =
      block.drop (k + 1) ++ after := by
    rw [List.append_assoc, Nat.add_assoc, List.drop_length_add_append,
      List.drop_append_of_le_length hk]
  unfold Listing.find
  dsimp only
  rw [hdrop, List.findIdx?_append, hi]
  show some (before.length + k + 1 + i) = some (before.length + (k + 1 + i))
  congr 1
  omega

omit [DecidableEq σ] in
theorem getElem?_inside {line : Line σ} {p : Nat} (h : block[i]? = some line)
    (hp : before.length = p) : (before ++ (block ++ after))[p + i]? = some line := by
  have hi : i < block.length := (List.getElem?_eq_some_iff.mp h).1
  rw [← hp, List.getElem?_append_right (Nat.le_add_right _ _), Nat.add_sub_cancel_left,
    List.getElem?_append_left hi, h]

/-- A line of a block does inside a listing what it does alone. -/
theorem step_inside (hlocal : ∀ line ∈ block, line.isLocal)
    (h : block.step i s = some (.line j t)) :
    (before ++ block ++ after).step (before.length + i) s =
      some (.line (before.length + j) t) := by
  cases hline : block[i]? with
  | none =>
    rw [Listing.step, hline] at h
    cases h
  | some line =>
    have hi : i < block.length := (List.getElem?_eq_some_iff.mp hline).1
    have hline' : (before ++ block ++ after)[before.length + i]? = some line := by
      rw [List.append_assoc]
      exact getElem?_inside hline rfl
    have hmem := hlocal line (List.mem_of_getElem? hline)
    rw [step_of_line hline] at h
    rw [step_of_line hline']
    -- only a branch looks at the other lines
    cases line with
    | num l =>
      cases h
      rfl
    | entry x =>
      cases h
      rfl
    | instr c i =>
      cases h
      rfl
    | ret c =>
      simp only [Listing.exec] at h ⊢
      split_ifs at h ⊢
      · cases h
      · cases h
        rfl
    | popPc rn => cases h
    | b c target =>
      simp only [Listing.exec] at h ⊢
      split_ifs at h ⊢
      · obtain ⟨k, hk, heq⟩ := Option.map_eq_some_iff.mp h
        obtain ⟨rfl, rfl⟩ := Next.line.inj heq
        cases target with
        | back l =>
          rw [find_back_inside (Nat.le_of_lt hi) hk]
          rfl
        | fwd l =>
          rw [find_fwd_inside hi hk]
          rfl
        | name x => cases hmem
      · cases h
        rfl

/-- **What a block does alone it does inside a listing.** -/
theorem Goes.inside (h : Goes block n i s j t) (hlocal : ∀ line ∈ block, line.isLocal) :
    Goes (before ++ block ++ after) n (before.length + i) s (before.length + j) t := by
  induction h with
  | refl => exact .refl _ _
  | step hstep _ ih => exact .step (step_inside hlocal hstep) ih

/-- The block from line `p` to line `q`. -/
theorem Gets.inside (p q : Nat) (h : Gets block i s j Q) (hlocal : ∀ line ∈ block, line.isLocal)
    (hlist : listing = listing.take p ++ block ++ listing.drop q)
    (hp : (listing.take p).length = p) : Gets listing (p + i) s (p + j) Q := by
  obtain ⟨n, t, hgoes, ht⟩ := h
  have hinside : Goes (listing.take p ++ block ++ listing.drop q) n _ s _ t := hgoes.inside hlocal
  rw [← hlist, hp] at hinside
  exact ⟨n, t, hinside, ht⟩

end Inside

end Run

end HeavenFox.Logic.Arm
