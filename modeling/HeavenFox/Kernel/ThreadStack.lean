/-
# HeavenFox.Kernel.ThreadStack -- the stack of a thread and its first context

`real_thread_set_stack` is given the low end of a range of memory.  It computes the initial stack
pointer from the high end, rounding down, and clears the registers that the first switch to the
thread will load, where `real_thread_get_context` finds them.

Base and size are of any alignment.  `setStack_context` says that the stack pointer is a multiple of
8 all the same, and the registers lie in the range that was given; so what the call clears is in the
stack (`setStackIn_clears`).
-/
import HeavenFox.Common.MemPrimitives
import HeavenFox.Common.MemSimple
import HeavenFox.Kernel.Thread

namespace HeavenFox.Kernel

open HeavenFox.Common HeavenFox.Logic

/-! ## The context -/

namespace ThreadAttr

/-- `real_thread_get_context`. -/
def getContext (attr : ThreadAttr) : Nat :=
  let base := add32 attr.stackAddr schedulerContextRegsSize
  sub32 (mrtAlign base 8) schedulerContextRegsSize

/-- `real_thread_set_stack`, with the memory that its last statement clears. -/
def setStackIn (v : SetVars) (rounds : Nat) (m : Mem) (attr : ThreadAttr)
    (ptrDync ptrStack stacksize : Nat) : Except Stop (Nat × ThreadAttr × Mem) :=
  if isValid ptrStack = false ∨ stacksize < realThreadStackMin then .ok (0, attr, m)
  else if ptrDync ≠ 0 ∧ ptrDync ≠ ptrStack then .ok (0, attr, m)
  else do
    let attr := (attr.setStack ptrDync ptrStack stacksize).2
    let sprtRegs := attr.getContext
    let done ← MemMalloc.memset v rounds m sprtRegs 0 schedulerContextRegsSize
    .ok (attr.stackAddr, attr, done.mem)

/-- What `real_thread_set_stack` accepts. -/
structure StackAccepted (ptrDync ptrStack stacksize : Nat) : Prop where
  valid : isValid ptrStack = true
  size : realThreadStackMin ≤ stacksize
  dync : ptrDync = 0 ∨ ptrDync = ptrStack

section Stack

variable {dync ptr size : Nat} {attr : ThreadAttr}

/-- The two checks of the call. -/
theorem StackAccepted.checks (h : StackAccepted dync ptr size) :
    ¬ (isValid ptr = false ∨ size < realThreadStackMin) ∧ ¬ (dync ≠ 0 ∧ dync ≠ ptr) := by
  refine ⟨?_, fun hdync => h.dync.elim hdync.1 hdync.2⟩
  rw [h.valid, not_or]
  exact ⟨nofun, Nat.not_lt.mpr h.size⟩

/-- What the call leaves. -/
theorem StackAccepted.setStack_eq (h : StackAccepted dync ptr size) (attr : ThreadAttr) :
    attr.setStack dync ptr size =
      (stackTop ptr size,
        { attr with ptrStackStart := dync, stackAddr := stackTop ptr size, stacksize := size }) := by
  rw [setStack, if_neg h.checks.1, if_neg h.checks.2]

/-- Rounding down twice: the registers fit between the stack pointer and the end of the stack. -/
theorem stackTop_bounds (hwrap : ptr + size ≤ 2 ^ 32) (hsize : realThreadStackMin ≤ size) :
    stackTop ptr size % 8 = 0 ∧ ptr ≤ stackTop ptr size ∧
      stackTop ptr size + schedulerContextRegsSize + 16 ≤ ptr + size := by
  have hmin : 1024 ≤ size := hsize
  -- the sum is 0 for a stack that ends with the last byte of memory, and is right again after this
  have hhigh : sub32 (add32 ptr size) 16 = ptr + size - 16 := by
    unfold sub32 add32
    omega
  have htop : stackTop ptr size = (sub32 ((ptr + size - 16) / 8 * 8) 72) / 8 * 8 := by
    show sub32 (sub32 (add32 ptr size) 16 &&& not32 7) 72 &&& not32 7 = _
    rw [hhigh, and_not32_seven (sub32_lt _ _), and_not32_seven (by omega)]
  have hregs : sub32 ((ptr + size - 16) / 8 * 8) 72 = (ptr + size - 16) / 8 * 8 - 72 :=
    sub32_of_le (by omega) (by omega)
  rw [htop, hregs, schedulerContextRegsSize]
  omega

/-- The registers are at the stack pointer, if that is aligned. -/
theorem getContext_eq (halign : attr.stackAddr % 8 = 0)
    (hroom : attr.stackAddr + schedulerContextRegsSize + 16 ≤ 2 ^ 32) :
    attr.getContext = attr.stackAddr := by
  have hroom' : attr.stackAddr + 72 + 16 ≤ 2 ^ 32 := hroom
  have hbase : add32 attr.stackAddr 72 = attr.stackAddr + 72 := add32_of_lt (by omega)
  have hup : mrtAlign (attr.stackAddr + 72) 8 = attr.stackAddr + 72 := by
    show add32 (attr.stackAddr + 72) 7 &&& not32 7 = _
    rw [add32_of_lt (by omega), and_not32_seven (by omega)]
    omega
  show sub32 (mrtAlign (add32 attr.stackAddr 72) 8) 72 = attr.stackAddr
  rw [hbase, hup, sub32_of_le (by omega) (by omega), Nat.add_sub_cancel]

/-- **The first context.**  For every stack that `real_thread_set_stack` accepts and that does not
wrap around, the stack pointer it returns and stores is not null and a multiple of 8, and the
registers that `real_thread_get_context` finds lie in the stack. -/
theorem setStack_context (attr : ThreadAttr) (h : StackAccepted dync ptr size)
    (hwrap : ptr + size ≤ 2 ^ 32) :
    let attr' := (attr.setStack dync ptr size).2
    (attr.setStack dync ptr size).1 = attr'.stackAddr ∧ attr'.stackAddr ≠ 0 ∧
      attr'.stackAddr % 8 = 0 ∧ ptr ≤ attr'.getContext ∧
      attr'.getContext + schedulerContextRegsSize ≤ ptr + size := by
  obtain ⟨halign, hlow, hhigh⟩ := stackTop_bounds hwrap h.size
  have hpos := (isValid_iff.mp h.valid).1
  rw [h.setStack_eq]
  intro attr'
  have hstack : attr'.stackAddr = stackTop ptr size := rfl
  have hcontext : attr'.getContext = stackTop ptr size := getContext_eq halign (by omega)
  refine ⟨rfl, ?_, halign, ?_, ?_⟩
  · show stackTop ptr size ≠ 0
    omega
  · rw [hcontext]
    exact hlow
  · rw [hcontext]
    omega

/-- A stack of 1025 bytes at an odd address. -/
theorem setStack_context_odd :
    let attr' := (zero.setStack 0 0x80000011 1025).2
    (zero.setStack 0 0x80000011 1025).1 = attr'.stackAddr ∧ attr'.stackAddr ≠ 0 ∧
      attr'.stackAddr % 8 = 0 ∧ 0x80000011 ≤ attr'.getContext ∧
      attr'.getContext + schedulerContextRegsSize ≤ 0x80000011 + 1025 :=
  setStack_context zero ⟨by decide, by decide, Or.inl rfl⟩ (by decide)

/-- The call returns a stack pointer exactly for what it accepts. -/
theorem setStack_ne_zero_iff (attr : ThreadAttr) (hwrap : ptr + size ≤ 2 ^ 32) :
    (attr.setStack dync ptr size).1 ≠ 0 ↔ StackAccepted dync ptr size := by
  constructor
  · intro h
    unfold setStack at h
    by_cases hbad : isValid ptr = false ∨ size < realThreadStackMin
    · rw [if_pos hbad] at h
      exact absurd rfl h
    · rw [if_neg hbad] at h
      by_cases hdync : dync ≠ 0 ∧ dync ≠ ptr
      · rw [if_pos hdync] at h
        exact absurd rfl h
      · obtain ⟨hvalid, hsize⟩ := not_or.mp hbad
        exact ⟨by simpa using hvalid, Nat.le_of_not_lt hsize, by omega⟩
  · intro h
    have hpos := (isValid_iff.mp h.valid).1
    obtain ⟨-, hlow, -⟩ := stackTop_bounds hwrap h.size
    rw [h.setStack_eq]
    show stackTop ptr size ≠ 0
    omega

/-- **What is cleared** is the first context and nothing besides it; `memset` keeps its variables
outside the stack. -/
theorem setStackIn_clears {v : SetVars} {others : Nat → Prop} {m : Mem}
    (h : StackAccepted dync ptr size) (hwrap : ptr + size ≤ 2 ^ 32)
    (hown : Outside (v.Own others) ptr size) (attr : ThreadAttr) :
    ∃ m', TerminatesWith (fun rounds => attr.setStackIn v rounds m dync ptr size)
        (stackTop ptr size, (attr.setStack dync ptr size).2, m') ∧
      (∀ i < schedulerContextRegsSize, m' (stackTop ptr size + i) = 0) ∧
      ∀ a, ¬ v.Own others a → ¬ (ptr ≤ a ∧ a < ptr + size) → m' a = m a := by
  obtain ⟨halign, hlow, hhigh⟩ := stackTop_bounds hwrap h.size
  have hpos := (isValid_iff.mp h.valid).1
  have hset := h.setStack_eq attr
  have hcontext : (attr.setStack dync ptr size).2.getContext = stackTop ptr size := by
    rw [hset]
    exact getContext_eq halign (hhigh.trans hwrap)
  have hinside : Outside (v.Own others) (stackTop ptr size) schedulerContextRegsSize := by
    intro i hi
    obtain ⟨j, hj⟩ : ∃ j, stackTop ptr size + i = ptr + j := ⟨stackTop ptr size + i - ptr, by omega⟩
    rw [hj]
    exact hown j (by omega)
  obtain ⟨done, ⟨rounds₀, hdone⟩, -, hfilled, hkept⟩ :=
    MemMalloc.memset_fills (m := m) v 0 (by omega : stackTop ptr size ≠ 0) (by omega) hinside
  refine ⟨done.mem, ⟨rounds₀, fun rounds hrounds => ?_⟩, hfilled, fun a ha hout => ?_⟩
  · show attr.setStackIn v rounds m dync ptr size = _
    rw [setStackIn, if_neg h.checks.1, if_neg h.checks.2]
    have hmemset : MemMalloc.memset v rounds m (attr.setStack dync ptr size).2.getContext 0
        schedulerContextRegsSize = .ok done := by
      rw [hcontext]
      exact hdone rounds hrounds
    show (MemMalloc.memset v rounds m (attr.setStack dync ptr size).2.getContext 0 _ >>= _) = _
    rw [hmemset, hset]
    rfl
  · exact hkept a ha (by omega)

end Stack

end ThreadAttr

end HeavenFox.Kernel
