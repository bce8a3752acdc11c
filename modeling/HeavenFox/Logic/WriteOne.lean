/-
# HeavenFox.Logic.WriteOne -- registers that act on the ones written

A write to such a register sets, or clears, the bits where a 1 is written and leaves the others.
`reg |= mask` reads the register and writes back what it has read.  Where ones set that does no harm,
but where ones clear it clears every bit that was set (`clearOnOne_or`).
-/

namespace HeavenFox.Logic

variable {n : Nat} {reg mask written : BitVec n} {k : Nat}

/-- The register after a write, if ones set. -/
def setOnOne (reg written : BitVec n) : BitVec n := reg ||| written

/-- The register after a write, if ones clear. -/
def clearOnOne (reg written : BitVec n) : BitVec n := reg &&& ~~~written

theorem getLsbD_clearOnOne :
    (clearOnOne reg written).getLsbD k = (reg.getLsbD k && !written.getLsbD k) := by
  rw [clearOnOne, BitVec.getLsbD_and, BitVec.getLsbD_not]
  by_cases hk : k < n
  · rw [decide_eq_true hk, Bool.true_and]
  · have hreg : reg.getLsbD k = false := BitVec.getLsbD_of_ge reg k (Nat.le_of_not_lt hk)
    rw [hreg, Bool.false_and, Bool.false_and]

/-- `reg |= mask` where ones set: the bits of the mask are set. -/
theorem setOnOne_or : setOnOne reg (reg ||| mask) = reg ||| mask := by
  rw [setOnOne, ← BitVec.or_assoc, BitVec.or_self]

/-- **`reg |= mask` where ones clear**: nothing is left. -/
theorem clearOnOne_or : clearOnOne reg (reg ||| mask) = 0#n := by
  apply BitVec.eq_of_getLsbD_eq
  intro k _
  rw [getLsbD_clearOnOne, BitVec.getLsbD_or, BitVec.getLsbD_zero]
  cases reg.getLsbD k <;> rfl

end HeavenFox.Logic
