/-
# HeavenFox.Common.MemManage -- setting, copying and comparing memory

The inline functions of `mem_manage.h`, on which `memset`, `memcpy` and `memcmp` of `mem_malloc.c`
are built.  Each loads the pointers from local variables, runs a loop of a few instructions, and
stores what the registers hold back to the variables, by their addresses.

So the places of the variables are part of a call: what it returns, and what it writes besides the
bytes it was asked to write, depends on what the last stores of the listing hit.
-/
import HeavenFox.Common.ErrorTypes
import HeavenFox.Logic.Asm

namespace HeavenFox.Common

open HeavenFox.Logic

/-! ## Listings

The numbers of the registers are those of the operands. -/

/-- The listing of `memory_set`. -/
def memorySetAsm : Listing :=
  [.ldr 0 1,
    .label 1,
    .cmp 0 2,
    .bhs 2,
    .strb 3 0,
    .add 0 1,
    .b 1,
    .label 2,
    .str 0 1]

/-- The listing of `memory_compare`. -/
def memoryCompareAsm : Listing :=
  [.ldr 0 4,
    .ldr 1 5,
    .label 1,
    .cmp 1 6,
    .bhs 3,
    .ldrb 2 0,
    .ldrb 3 1,
    .cmp 2 3,
    .bne 2,
    .add 0 1,
    .add 1 1,
    .b 1,
    .label 2,
    .mov 2 1,
    .str 2 7,
    .label 3,
    .str 0 4,
    .str 1 5]

/-- The listing of `memory_copy`. -/
def memoryCopyAsm : Listing :=
  [.ldr 0 3,
    .ldr 1 4,
    .label 1,
    .cmp 1 5,
    .bhs 2,
    .ldrb 2 1,
    .strb 2 0,
    .add 0 1,
    .add 1 1,
    .b 1,
    .label 2,
    .str 0 3,
    .str 1 4]

/-! ## Local variables -/

/-- The bytes of the word at `a`. -/
def WordAt (a x : Nat) : Prop := a ≤ x ∧ x < a + 4

/-- Where `memory_set` keeps the variable whose address it passes on. -/
structure SetVars where
  startAddr : Nat
  inMemory : startAddr + 4 ≤ 2 ^ 32

/-- Where `memory_copy` keeps those whose addresses it passes on. -/
structure CopyVars where
  s1Addr : Nat
  s2Addr : Nat
  inMemory : s1Addr + 4 ≤ 2 ^ 32 ∧ s2Addr + 4 ≤ 2 ^ 32
  apart : s1Addr + 4 ≤ s2Addr ∨ s2Addr + 4 ≤ s1Addr

/-- Where `memory_compare` keeps those whose addresses it passes on; `flag` is a byte. -/
structure CompareVars extends CopyVars where
  flag : Nat
  flagInMemory : flag < 2 ^ 32
  flagApart : ¬ WordAt s1Addr flag ∧ ¬ WordAt s2Addr flag

-- the bytes of the variables that a function owns: these and any others the compiler has put in memory
section Own

variable (others : Nat → Prop)

/-- The bytes of the variables of `memory_set`. -/
def SetVars.Own (v : SetVars) (x : Nat) : Prop := WordAt v.startAddr x ∨ others x

/-- The bytes of the variables of `memory_copy`. -/
def CopyVars.Own (v : CopyVars) (x : Nat) : Prop :=
  WordAt v.s1Addr x ∨ WordAt v.s2Addr x ∨ others x

/-- The bytes of the variables of `memory_compare`. -/
def CompareVars.Own (v : CompareVars) (x : Nat) : Prop := x = v.flag ∨ v.toCopyVars.Own others x

end Own

/-! ## The functions -/

/-- What a call leaves: its result, the memory, and the log of the bytes it has written. -/
structure MemDone (β : Type) where
  ret : β
  mem : Mem
  wrote : List Nat

/-- An inline listing. -/
def inlineAsm (listing : Listing) (rounds : Nat) (s : Cpu) : Except Stop Cpu :=
  match listing.run rounds s with
  | none => .error .spins
  | some t => .ok t

/-- The operands of the listing of `memory_set`. -/
def memorySetOperands (v : SetVars) (endAddr : Nat) (data : UInt8) : Nat → Nat
  | 1 => v.startAddr
  | 2 => endAddr
  | 3 => data.toNat
  | _ => 0

/-- `memory_set`. -/
def memorySet (v : SetVars) (rounds : Nat) (m : Mem) (dest : Nat) (data : UInt8) (size : Nat) :
    Except Stop (MemDone Unit) :=
  if dest = 0 then .ok ⟨(), m, []⟩
  else do
    let startAddr := dest
    let endAddr := add32 startAddr size
    let s ← inlineAsm memorySetAsm rounds
      ((Cpu.enter (memorySetOperands v endAddr data) m).storeWord v.startAddr startAddr)
    .ok ⟨(), s.mem, s.wrote⟩

/-- The operands of the listing of `memory_compare`. -/
def memoryCompareOperands (v : CompareVars) (endAddr : Nat) : Nat → Nat
  | 4 => v.s1Addr
  | 5 => v.s2Addr
  | 6 => endAddr
  | 7 => v.flag
  | _ => 0

/-- `memory_compare`.  The operand of its `str %2, [%7]` is the address of a byte. -/
def memoryCompare (v : CompareVars) (rounds : Nat) (m : Mem) (s1 s2 size : Nat) :
    Except Stop (MemDone UInt8) := do
  let s1Addr := s1
  let s2Addr := s2
  let endAddr := add32 s2Addr size
  let s ← inlineAsm memoryCompareAsm rounds
    ((((Cpu.enter (memoryCompareOperands v endAddr) m).storeByte v.flag 0).storeWord v.s1Addr
      s1Addr).storeWord v.s2Addr s2Addr)
  .ok ⟨s.mem v.flag, s.mem, s.wrote⟩

/-- The operands of the listing of `memory_copy`. -/
def memoryCopyOperands (v : CopyVars) (endAddr : Nat) : Nat → Nat
  | 3 => v.s1Addr
  | 4 => v.s2Addr
  | 5 => endAddr
  | _ => 0

/-- `memory_copy`.  It returns what the variable `s1_addr` holds after the listing. -/
def memoryCopy (v : CopyVars) (rounds : Nat) (m : Mem) (dest src size : Nat) :
    Except Stop (MemDone Nat) :=
  if dest = 0 ∨ src = 0 then .ok ⟨0, m, []⟩
  else do
    let s1Addr := dest
    let s2Addr := src
    let endAddr := add32 s2Addr size
    let s ← inlineAsm memoryCopyAsm rounds
      (((Cpu.enter (memoryCopyOperands v endAddr) m).storeWord v.s1Addr s1Addr).storeWord v.s2Addr
        s2Addr)
    .ok ⟨load32 s.mem v.s1Addr, s.mem, s.wrote⟩

/-! ## `mem_malloc.c` -/

namespace MemMalloc

/-- `memset`. -/
def memset (v : SetVars) (rounds : Nat) (m : Mem) (s : Nat) (c : Int) (n : Nat) :
    Except Stop (MemDone Nat) := do
  let done ← memorySet v rounds m s (UInt8.ofNat (asUint32 c)) n
  .ok ⟨s, done.mem, done.wrote⟩

/-- `memcmp`. -/
def memcmp (v : CompareVars) (rounds : Nat) (m : Mem) (s1 s2 n : Nat) :
    Except Stop (MemDone Int) := do
  let done ← memoryCompare v rounds m s1 s2 n
  .ok ⟨done.ret.toNat, done.mem, done.wrote⟩

/-- `memcpy`. -/
def memcpy (v : CopyVars) (rounds : Nat) (m : Mem) (dest src n : Nat) : Except Stop (MemDone Nat) :=
  memoryCopy v rounds m dest src n

end MemMalloc

end HeavenFox.Common
