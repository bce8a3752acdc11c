/-
# HeavenFox.Common.MemPool -- runs of the memory pool

A pool and the callers that use it, as one machine: requests, releases of
pointers that are currently live, and stores of the callers into the memory they
were given.  `live` records what the callers own; the pool itself never sees it.
-/
import HeavenFox.Common.MemSimple
import HeavenFox.Logic.Run

namespace HeavenFox.Common.MemPool

open HeavenFox.Logic

/-- The memory a pool is built on: a range longer than a block header whose end, which `kfree`
compares pointers with, is a 32-bit address. -/
structure Region where
  memAddr : Nat
  size : Nat
  fits : memAddr + size < 2 ^ 32
  longer : memBlockHeaderSize < size

/-- An allocation: the pointer that was returned and the size that was asked for. -/
structure Allocation where
  ptr : Nat
  size : Nat
  deriving DecidableEq, Repr

/-- The first byte of the allocation's header. -/
def Allocation.start (a : Allocation) : Nat := a.ptr - memBlockHeaderSize

/-- One past the last byte of the allocation. -/
def Allocation.stop (a : Allocation) : Nat := a.ptr + mrtNumAlign4 a.size

/-- Two allocations share no byte, their headers included. -/
def Allocation.Disjoint (a b : Allocation) : Prop := a.stop ≤ b.start ∨ b.stop ≤ a.start

instance (a b : Allocation) : Decidable (a.Disjoint b) :=
  inferInstanceAs (Decidable (_ ∨ _))

/-- The pool, its memory and what its callers own. -/
structure State where
  mem : Mem
  info : MemInfo
  live : List Allocation

/-- What a caller can do. -/
inductive Op where
  | alloc (size : Nat)
  | free (ptr : Nat)
  | write (addr : Nat) (v : UInt8)
  deriving DecidableEq, Repr

/-- A pool just created by `memory_simple_block_create` on the region, whatever its memory held. -/
def fresh (r : Region) (m : Mem) : State :=
  let (_, mem, info) := memorySimpleBlockCreate m (some ⟨0, 0, 0⟩) r.memAddr r.size
  ⟨mem, info.getD ⟨0, 0, 0⟩, []⟩

/-- One call.  A call that does not return makes no step. -/
def step (s : State) : Op → Option State
  | .alloc size =>
    match allocSpareSimpleMemory s.mem s.info.sprtMem size with
    | .error _ => none
    | .ok (ptr, mem) =>
      some { s with mem, live := if ptr = 0 then s.live else ⟨ptr, size⟩ :: s.live }
  | .free ptr =>
    match freeEmploySimpleMemory s.mem s.info.sprtMem ptr with
    | .error _ => none
    | .ok mem => some { s with mem, live := s.live.filter fun a => a.ptr ≠ ptr }
  | .write addr v => some { s with mem := store8 s.mem addr v }

/-- What callers may do: sizes that do not wrap once aligned and extended by a header, releases of
live pointers, stores into memory they own. -/
def Legal (s : State) : Op → Prop
  | .alloc size => size < 2 ^ 32 ∧ mrtNumAlign4 size + memBlockHeaderSize < 2 ^ 32
  | .free ptr => ∃ a ∈ s.live, a.ptr = ptr
  | .write addr _ => ∃ a ∈ s.live, a.ptr ≤ addr ∧ addr < a.stop

instance (s : State) : ∀ op, Decidable (Legal s op)
  | .alloc _ => inferInstanceAs (Decidable (_ ∧ _))
  | .free ptr => inferInstanceAs (Decidable (∃ a ∈ s.live, a.ptr = ptr))
  | .write addr _ => inferInstanceAs (Decidable (∃ a ∈ s.live, a.ptr ≤ addr ∧ addr < a.stop))

/-- The live allocations with their headers share no byte and lie inside the pool. -/
def Safe (s : State) : Prop :=
  s.live.Pairwise Allocation.Disjoint ∧
    ∀ a ∈ s.live, s.info.base ≤ a.start ∧ a.stop ≤ s.info.base + s.info.lenth

instance (s : State) : Decidable (Safe s) := inferInstanceAs (Decidable (_ ∧ _))

/-! ## Links that are current -/

/-- The block of the list whose `sprt_next` is `block`, null if there is none. -/
def listPrev (m : Mem) (block : Nat) : Nat → Nat → Nat
  | 0, _ => 0
  | n + 1, a =>
    if isValid a then
      if get m a .sprtNext = block then a else listPrev m block n (get m a .sprtNext)
    else 0

/-- A release that gets past the pointer checks finds the block that really precedes its own in
`sprt_prev`, and null in the first block.  Neither a split nor a merge writes the `sprt_prev` of the
block behind it, so this is not a matter of course. -/
def PrevCurrent (s : State) : Op → Prop
  | .free ptr =>
    let sprtBlock := sub32 ptr memBlockHeaderSize
    isValid ptr = true → isValid sprtBlock = true →
      get s.mem sprtBlock .sprtPrev = listPrev s.mem sprtBlock walkRounds s.info.sprtMem
  | _ => True

instance (s : State) : ∀ op, Decidable (PrevCurrent s op)
  | .alloc _ => isTrue trivial
  | .free _ => inferInstanceAs (Decidable (_ → _ → _))
  | .write _ _ => isTrue trivial

/-- A release of a pointer that does not read as an error code, and neither does its header. -/
def PtrValid : Op → Prop
  | .free ptr => isValid ptr = true ∧ isValid (sub32 ptr memBlockHeaderSize) = true
  | _ => True

instance : ∀ op, Decidable (PtrValid op)
  | .alloc _ => isTrue trivial
  | .free _ => inferInstanceAs (Decidable (_ ∧ _))
  | .write _ _ => isTrue trivial

end HeavenFox.Common.MemPool
