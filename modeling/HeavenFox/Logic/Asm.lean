/-
# HeavenFox.Logic.Asm -- short listings of a load/store assembler

A small library with nothing of the kernel in it.  A listing is a list of instructions between
which local labels stand; registers are numbered, as the operands of an inline listing are, and
memory is that of `Logic.Memory32`.  An instruction that stores enters the addresses of its bytes
in a log, so that one can say what a listing has written, not only what it has changed.

`leads_step` turns the instruction at the program counter into one round of `Logic.Loop`;
`Listing.run_framed` says that a byte that is not in the log is as it was.
-/
import HeavenFox.Logic.Memory32
import HeavenFox.Logic.Loop

namespace HeavenFox.Logic

/-! ## Listings -/

/-- An instruction, or a label in front of one. -/
inductive Instr where
  | label (l : Nat)
  | ldr (rd ra : Nat)
  | str (rs ra : Nat)
  | ldrb (rd ra : Nat)
  | strb (rs ra : Nat)
  | mov (rd imm : Nat)
  | add (rd imm : Nat)
  | cmp (rn rm : Nat)
  | b (l : Nat)
  | bhs (l : Nat)
  | bne (l : Nat)
  deriving DecidableEq, Repr

/-- A listing. -/
abbrev Listing := List Instr

/-- The registers, the outcome of the last comparison (not lower as an unsigned word, and equal), the
place in the listing, the memory, and the log of the stores. -/
structure Cpu where
  regs : Nat → Nat
  higherSame : Bool
  equal : Bool
  pc : Nat
  mem : Mem
  wrote : List Nat

namespace Cpu

/-- At the beginning of a listing whose operands are in registers. -/
def enter (regs : Nat → Nat) (mem : Mem) : Cpu := ⟨regs, false, false, 0, mem, []⟩

/-- Write a register. -/
def setReg (s : Cpu) (r v : Nat) : Cpu := { s with regs := Function.update s.regs r v }

/-- Store a byte. -/
def storeByte (s : Cpu) (a : Nat) (v : UInt8) : Cpu :=
  { s with mem := store8 s.mem a v, wrote := a :: s.wrote }

/-- Store a word. -/
def storeWord (s : Cpu) (a v : Nat) : Cpu :=
  { s with mem := store32 s.mem a v, wrote := a :: (a + 1) :: (a + 2) :: (a + 3) :: s.wrote }

/-- Go on to the next instruction. -/
def next (s : Cpu) : Cpu := { s with pc := s.pc + 1 }

/-- Go on at the label, if the condition holds. -/
def branch (s : Cpu) (listing : Listing) (l : Nat) (cond : Bool) : Cpu :=
  if cond then { s with pc := listing.idxOf (.label l) } else s.next

end Cpu

/-- What one instruction does. -/
def Listing.exec (listing : Listing) (s : Cpu) : Instr → Cpu
  | .label _ => s.next
  | .ldr rd ra => (s.setReg rd (load32 s.mem (s.regs ra))).next
  | .str rs ra => (s.storeWord (s.regs ra) (s.regs rs)).next
  | .ldrb rd ra => (s.setReg rd (s.mem (s.regs ra)).toNat).next
  | .strb rs ra => (s.storeByte (s.regs ra) (UInt8.ofNat (s.regs rs))).next
  | .mov rd imm => (s.setReg rd imm).next
  | .add rd imm => (s.setReg rd (add32 (s.regs rd) imm)).next
  | .cmp rn rm =>
    { s with
      higherSame := decide (s.regs rm ≤ s.regs rn)
      equal := decide (s.regs rn = s.regs rm) }.next
  | .b l => s.branch listing l true
  | .bhs l => s.branch listing l s.higherSame
  | .bne l => s.branch listing l !s.equal

/-- At most so many instructions; a listing is over when it is left at its end. -/
def Listing.run (listing : Listing) : Nat → Cpu → Option Cpu
  | 0, _ => none
  | n + 1, s =>
    match listing[s.pc]? with
    | none => some s
    | some i => listing.run n (listing.exec s i)

/-! ## Rounds -/

section Rounds

variable {listing : Listing} {s t : Cpu} {i : Instr} {n : Nat}

/-- The instruction at the program counter is one round. -/
theorem leads_step (h : listing[s.pc]? = some i)
    (hrest : Leads listing.run n (listing.exec s i) t) : Leads listing.run (n + 1) s t := by
  rw [Nat.add_comm]
  refine Leads.trans (fun k => ?_) hrest
  rw [Listing.run, h]

/-- A branch that is taken. -/
theorem leads_branch {l : Nat} {cond : Bool} (h : listing[s.pc]? = some i)
    (hexec : listing.exec s i = s.branch listing l cond) (hcond : cond = true)
    (hrest : Leads listing.run n { s with pc := listing.idxOf (.label l) } t) :
    Leads listing.run (n + 1) s t := by
  apply leads_step h
  rw [hexec, Cpu.branch, if_pos hcond]
  exact hrest

/-- A branch that is not taken. -/
theorem leads_no_branch {l : Nat} {cond : Bool} (h : listing[s.pc]? = some i)
    (hexec : listing.exec s i = s.branch listing l cond) (hcond : cond = false)
    (hrest : Leads listing.run n s.next t) : Leads listing.run (n + 1) s t := by
  apply leads_step h
  rw [hexec, Cpu.branch, hcond, if_neg Bool.false_ne_true]
  exact hrest

/-- A run that comes to the end of the listing. -/
theorem Listing.run_of_leads {k : Nat} (h : Leads listing.run n s t) (hend : listing[t.pc]? = none)
    (hk : n + 1 ≤ k) : listing.run k s = some t := by
  have hlast : Ends listing.run 1 t (some t) := by
    intro k
    rw [Listing.run, hend]
  exact (h.ends hlast).run hk

/-! ## What is not written -/

/-- Bytes that are not in the log are those of `m`. -/
def Cpu.Framed (m : Mem) (s : Cpu) : Prop := ∀ a, a ∉ s.wrote → s.mem a = m a

theorem Cpu.framed_enter (regs : Nat → Nat) (mem : Mem) : (Cpu.enter regs mem).Framed mem :=
  fun _ _ => rfl

theorem Cpu.Framed.storeByte {m : Mem} (h : s.Framed m) (a : Nat) (v : UInt8) :
    (s.storeByte a v).Framed m := by
  intro x hx
  obtain ⟨hne, hold⟩ := List.ne_and_not_mem_of_not_mem_cons hx
  show (if x = a then v else s.mem x) = m x
  rw [if_neg hne]
  exact h x hold

theorem Cpu.Framed.storeWord {m : Mem} (h : s.Framed m) (a v : Nat) :
    (s.storeWord a v).Framed m := by
  intro x hx
  simp only [Cpu.storeWord, List.mem_cons, not_or] at hx
  obtain ⟨h0, h1, h2, h3, hold⟩ := hx
  show store32 s.mem a v x = m x
  rw [store32_of_outside (by omega)]
  exact h x hold

theorem Cpu.Framed.branch {m : Mem} (h : s.Framed m) (l : Nat) (cond : Bool) :
    (s.branch listing l cond).Framed m := by
  unfold Cpu.branch
  split
  · exact h
  · exact h

/-- **One instruction** leaves alone what it does not enter in the log. -/
theorem Listing.exec_framed {m : Mem} (h : s.Framed m) (i : Instr) :
    (listing.exec s i).Framed m := by
  cases i with
  | label l => exact h
  | ldr rd ra => exact h
  | str rs ra => exact h.storeWord _ _
  | ldrb rd ra => exact h
  | strb rs ra => exact h.storeByte _ _
  | mov rd imm => exact h
  | add rd imm => exact h
  | cmp rn rm => exact h
  | b l => exact h.branch l _
  | bhs l => exact h.branch l _
  | bne l => exact h.branch l _

/-- **A run** leaves alone what is not in the log. -/
theorem Listing.run_framed {m : Mem} (h : s.Framed m) (hrun : listing.run n s = some t) :
    t.Framed m := by
  induction n generalizing s with
  | zero => cases hrun
  | succ n ih =>
    rw [Listing.run] at hrun
    split at hrun
    · cases hrun
      exact h
    · exact ih (listing.exec_framed h _) hrun

end Rounds

end HeavenFox.Logic
