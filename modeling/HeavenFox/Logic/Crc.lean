/-
# HeavenFox.Logic.Crc -- cyclic redundancy checks as remainders of polynomials

A sequence of bits is a polynomial over the field of two elements, its first bit the highest
coefficient.  Its CRC with a generator `g` of degree `n` is the remainder of that polynomial, times
`X ^ n`, on division by `g`.

A device computes it in a register of `n` bits that is shifted once for each bit of the message
(`crcStep`).  The register is a polynomial of degree below `n`, one step multiplies it by `X`, adds
the bit and divides by `g` again, and so a run over the message leaves the CRC (`regPoly_crcRun`).
-/
import Mathlib.Algebra.Field.ZMod
import Mathlib.Algebra.Polynomial.Div
import Mathlib.Algebra.Polynomial.OfFn
import Mathlib.Data.ZMod.Basic
import Mathlib.Algebra.CharP.Two

namespace HeavenFox.Logic

open Polynomial

/-! ## Bits and registers as polynomials -/

/-- A bit as a number modulo two. -/
def bitVal (b : Bool) : ZMod 2 := if b then 1 else 0

theorem bitVal_xor (a b : Bool) : bitVal (a ^^ b) = bitVal a + bitVal b := by
  cases a <;> cases b <;> decide

/-- The polynomial of a sequence of bits, the first one the highest coefficient. -/
noncomputable def bitsPoly (bits : List Bool) : (ZMod 2)[X] :=
  bits.foldl (fun p b => X * p + C (bitVal b)) 0

/-- The polynomial of a register. -/
noncomputable def regPoly {n : Nat} (r : BitVec n) : (ZMod 2)[X] :=
  ofFn n fun i => bitVal (r.getLsbD i)

/-- The generator of degree `n` with the given lower coefficients. -/
noncomputable def generator {n : Nat} (low : BitVec n) : (ZMod 2)[X] := X ^ n + regPoly low

/-- The CRC of a sequence of bits. -/
noncomputable def crcPoly {n : Nat} (low : BitVec n) (bits : List Bool) : (ZMod 2)[X] :=
  (bitsPoly bits * X ^ n) %ₘ generator low

section Register

variable {n : Nat} (r low : BitVec n)

theorem regPoly_coeff (k : Nat) : (regPoly r).coeff k = bitVal (r.getLsbD k) := by
  rcases Nat.lt_or_ge k n with hk | hk
  · exact ofFn_coeff_eq_val_of_lt _ hk
  · rw [regPoly, ofFn_coeff_eq_zero_of_ge _ hk, BitVec.getLsbD_of_ge r k hk]
    rfl

theorem regPoly_degree : (regPoly r).degree < n := ofFn_degree_lt _

theorem regPoly_zero : regPoly (0 : BitVec n) = 0 := by
  ext k
  rw [regPoly_coeff, coeff_zero]
  simp [bitVal]

theorem regPoly_xor (a b : BitVec n) : regPoly (a ^^^ b) = regPoly a + regPoly b := by
  ext k
  rw [coeff_add, regPoly_coeff, regPoly_coeff, regPoly_coeff, BitVec.getLsbD_xor, bitVal_xor]

theorem generator_monic : (generator low).Monic := monic_X_pow_add (regPoly_degree low)

theorem generator_degree : (generator low).degree = n := by
  rw [generator, degree_add_eq_left_of_degree_lt, degree_X_pow]
  rw [degree_X_pow]
  exact regPoly_degree low

/-- A shift multiplies by `X`, and the bit that leaves the register is the coefficient of `X ^ n`. -/
theorem X_mul_regPoly (hn : 0 < n) :
    X * regPoly r = regPoly (r <<< 1) + C (bitVal r.msb) * X ^ n := by
  ext k
  rw [coeff_add, coeff_C_mul, coeff_X_pow, regPoly_coeff]
  cases k with
  | zero =>
    have h0 : (0 : Nat) ≠ n := Nat.ne_of_lt hn
    rw [coeff_X_mul_zero, if_neg h0]
    simp [bitVal]
  | succ k =>
    rw [coeff_X_mul, regPoly_coeff, BitVec.getLsbD_shiftLeft, BitVec.msb_eq_getLsbD_last]
    by_cases hk : k + 1 = n
    · subst hk
      simp [bitVal]
    · rcases Nat.lt_or_ge (k + 1) n with hlt | hge
      · simp [hk, hlt]
      · have hout : r.getLsbD k = false := BitVec.getLsbD_of_ge r k (by omega)
        simp [hk, hout, bitVal]

end Register

/-! ## The register over a message -/

/-- One bit of the message: the register is shifted, and the generator is subtracted where the bit
that leaves it and the one of the message differ. -/
def crcStep {n : Nat} (low r : BitVec n) (b : Bool) : BitVec n :=
  if r.msb ^^ b then (r <<< 1) ^^^ low else r <<< 1

/-- The register behind a message. -/
def crcRun {n : Nat} (low : BitVec n) (bits : List Bool) : BitVec n := bits.foldl (crcStep low) 0

section Run

variable {n : Nat} {low r : BitVec n}

/-- One step divides what it has brought in. -/
theorem regPoly_crcStep (hn : 0 < n) (b : Bool) :
    regPoly (crcStep low r b) = (X * regPoly r + C (bitVal b) * X ^ n) %ₘ generator low := by
  have hsum : X * regPoly r + C (bitVal b) * X ^ n =
      regPoly (r <<< 1) + C (bitVal (r.msb ^^ b)) * X ^ n := by
    rw [X_mul_regPoly r hn, bitVal_xor, C_add, add_mul, add_assoc]
  have hself : ∀ q : BitVec n, regPoly q %ₘ generator low = regPoly q := fun q =>
    (modByMonic_eq_self_iff (generator_monic low)).mpr (by
      rw [generator_degree]
      exact regPoly_degree q)
  rw [hsum, crcStep]
  cases r.msb ^^ b with
  | false =>
    rw [if_neg Bool.false_ne_true]
    show _ = (regPoly (r <<< 1) + C 0 * X ^ n) %ₘ _
    rw [C_0, zero_mul, add_zero, hself]
  | true =>
    rw [if_pos rfl]
    show _ = (regPoly (r <<< 1) + C 1 * X ^ n) %ₘ _
    -- the power is the generator and its lower coefficients, for a sum of two equals is zero
    have hpow : (X ^ n : (ZMod 2)[X]) = generator low + regPoly low := by
      rw [generator, add_assoc, CharTwo.add_self_eq_zero, add_zero]
    rw [C_1, one_mul, hpow, add_left_comm, ← regPoly_xor, add_modByMonic,
      modByMonic_self (generator_monic low), zero_add, hself]

/-- **A run of the register leaves the CRC of the message.** -/
theorem regPoly_crcRun (hn : 0 < n) (low : BitVec n) (bits : List Bool) :
    regPoly (crcRun low bits) = crcPoly low bits := by
  unfold crcRun crcPoly bitsPoly
  induction bits using List.reverseRecOn with
  | nil =>
    show regPoly 0 = (0 * X ^ n) %ₘ _
    rw [regPoly_zero, zero_mul, zero_modByMonic]
  | append_singleton bits b ih =>
    rw [List.foldl_concat, List.foldl_concat, regPoly_crcStep hn, ih]
    generalize bits.foldl (fun p b => X * p + C (bitVal b)) 0 = p
    generalize hg : generator low = g
    have hmonic : g.Monic := hg ▸ generator_monic low
    have hself : (p * X ^ n) %ₘ g %ₘ g = (p * X ^ n) %ₘ g :=
      (modByMonic_eq_self_iff hmonic).mpr (degree_modByMonic_lt _ hmonic)
    -- a remainder may be taken before the multiplication by `X`
    have hX : (X * ((p * X ^ n) %ₘ g)) %ₘ g = (X * p * X ^ n) %ₘ g := by
      calc (X * ((p * X ^ n) %ₘ g)) %ₘ g
          = ((X %ₘ g) * ((p * X ^ n) %ₘ g)) %ₘ g := by rw [mul_modByMonic, hself]
        _ = (X * (p * X ^ n)) %ₘ g := (mul_modByMonic _ _ _).symm
        _ = (X * p * X ^ n) %ₘ g := by rw [mul_assoc]
    rw [add_modByMonic, hX, ← add_modByMonic, ← add_mul]

end Run

end HeavenFox.Logic
