import Mathlib

/-! Bit vectors as polynomials with coefficients modulo two, the lowest bit the
constant one, and shift registers with feedback: a register that is shifted up by one
place, and has the low part of a polynomial added when a bit leaves it, holds the
remainder after a division by that polynomial. -/
namespace FsdFilter.BinaryPolynomials
open Polynomial

variable {w v : ℕ}

/-- A bit as a coefficient. -/
def coefficient (bit : Bool) : ZMod 2 := if bit then 1 else 0

theorem coefficient_xor (a b : Bool) : coefficient (a ^^ b) = coefficient a + coefficient b := by
  cases a <;> cases b <;> decide

theorem coefficient_injective : Function.Injective coefficient := by decide

/-- The polynomial whose coefficients are the bits of a vector. -/
noncomputable def polynomial (x : BitVec w) : (ZMod 2)[X] :=
  ∑ i ∈ Finset.range w, monomial i (coefficient (x.getLsbD i))

@[simp] theorem coeff_polynomial (x : BitVec w) (i : ℕ) :
    (polynomial x).coeff i = coefficient (x.getLsbD i) := by
  simp only [polynomial, finsetSum_coeff, coeff_monomial, Finset.sum_ite_eq', Finset.mem_range]
  by_cases within : i < w
  · simp [within]
  · simp [within, BitVec.getLsbD_of_ge x i (by omega), coefficient]

theorem polynomial_injective : Function.Injective (polynomial : BitVec w → (ZMod 2)[X]) := by
  intro x y same
  apply BitVec.eq_of_getLsbD_eq
  intro i _
  apply coefficient_injective
  simpa using congrArg (fun p => coeff p i) same

@[simp] theorem polynomial_zero : polynomial (0#w) = 0 := by
  ext i
  simp [coefficient]

theorem polynomial_one (wide : 0 < w) : polynomial (1#w) = 1 := by
  ext i
  simp [coefficient, coeff_one, wide, eq_comm]

theorem polynomial_xor (x y : BitVec w) : polynomial (x ^^^ y) = polynomial x + polynomial y := by
  ext i
  simp [coefficient_xor]

theorem degree_polynomial (x : BitVec w) : degree (polynomial x) < w := by
  rw [degree_lt_iff_coeff_zero]
  intro i high
  simp [BitVec.getLsbD_of_ge x i high, coefficient]

theorem polynomial_setWidth (x : BitVec w) (wider : w ≤ v) :
    polynomial (x.setWidth v) = polynomial x := by
  ext i
  by_cases within : i < v
  · simp [within]
  · simp [within, BitVec.getLsbD_of_ge x i (by omega)]

/-- A shift up multiplies, as long as what it drops is added back. -/
theorem polynomial_shiftLeft (x : BitVec w) (k : ℕ) (fits : k ≤ w) :
    polynomial (x <<< k) + X ^ w * polynomial (x >>> (w - k)) = X ^ k * polynomial x := by
  ext i
  rw [coeff_add, coeff_X_pow_mul', coeff_X_pow_mul', coeff_polynomial, coeff_polynomial,
    coeff_polynomial, BitVec.getLsbD_shiftLeft, BitVec.getLsbD_ushiftRight]
  by_cases low : i < w
  · by_cases below : i < k
    · simp [low, below, show ¬ w ≤ i by omega, show ¬ k ≤ i by omega, coefficient]
    · simp [low, below, show ¬ w ≤ i by omega, show k ≤ i by omega]
  · have place : w - k + (i - w) = i - k := by omega
    simp [low, show w ≤ i by omega, show k ≤ i by omega, coefficient, place]

/-- The divisor with the coefficients `low` below its leading `X ^ w`. -/
noncomputable def divisor (low : BitVec w) : (ZMod 2)[X] := X ^ w + polynomial low

theorem divisor_monic (low : BitVec w) : (divisor low).Monic :=
  monic_X_pow_add (degree_polynomial low)

theorem degree_divisor (low : BitVec w) : degree (divisor low) = w := by
  rw [divisor, degree_add_eq_left_of_degree_lt] <;> simp [degree_polynomial]

/-- A vector modulo the divisor. -/
noncomputable def residue (low : BitVec w) (x : BitVec v) : AdjoinRoot (divisor low) :=
  AdjoinRoot.mk (divisor low) (polynomial x)

@[simp] theorem residue_zero (low : BitVec w) : residue low (0#v) = 0 := by
  simp [residue]

theorem residue_one (low : BitVec w) (wide : 0 < v) : residue low (1#v) = 1 := by
  rw [residue, polynomial_one wide, map_one]

theorem residue_xor (low : BitVec w) (x y : BitVec v) :
    residue low (x ^^^ y) = residue low x + residue low y := by
  simp [residue, polynomial_xor]

theorem residue_setWidth {u : ℕ} (low : BitVec w) (x : BitVec v) (wider : v ≤ u) :
    residue low (x.setWidth u) = residue low x := by
  simp [residue, polynomial_setWidth x wider]

theorem residue_shiftLeft (low : BitVec w) (x : BitVec v) (k : ℕ) (fits : k ≤ v) :
    residue low (x <<< k) + AdjoinRoot.root (divisor low) ^ v * residue low (x >>> (v - k)) =
      AdjoinRoot.root (divisor low) ^ k * residue low x := by
  have same := congrArg (AdjoinRoot.mk (divisor low)) (polynomial_shiftLeft x k fits)
  simpa [residue] using same

/-- Polynomials below the divisor's degree do not agree modulo it. -/
theorem small_residues {low : BitVec w} {p q : (ZMod 2)[X]} (small : degree p < w)
    (small' : degree q < w) (same : AdjoinRoot.mk (divisor low) p = AdjoinRoot.mk (divisor low) q) :
    p = q := by
  have divides : divisor low ∣ p - q := AdjoinRoot.mk_eq_mk.mp same
  have below : degree (p - q) < degree (divisor low) := by
    rw [degree_divisor]
    exact (degree_sub_le p q).trans_lt (max_lt small small')
  by_contra differ
  exact (divisor_monic low).not_dvd_of_degree_lt (sub_ne_zero.mpr differ) below divides

/-- A register holds what it stands for. -/
theorem residue_injective (low : BitVec w) :
    Function.Injective (residue low : BitVec w → AdjoinRoot (divisor low)) := by
  intro x y same
  exact polynomial_injective (small_residues (degree_polynomial x) (degree_polynomial y) same)

/-- What a register stands for modulo the divisor is also its remainder. -/
theorem polynomial_eq_remainder {low x : BitVec w} {p : (ZMod 2)[X]}
    (same : residue low x = AdjoinRoot.mk (divisor low) p) :
    polynomial x = p %ₘ divisor low := by
  have within : polynomial x %ₘ divisor low = polynomial x := by
    rw [modByMonic_eq_self_iff (divisor_monic low), degree_divisor]
    exact degree_polynomial x
  rw [← within]
  exact modByMonic_eq_of_dvd_sub (divisor_monic low) (AdjoinRoot.mk_eq_mk.mp same)

/-- The leading power is what the feedback adds. -/
theorem root_pow_width (low : BitVec w) : AdjoinRoot.root (divisor low) ^ w = residue low low := by
  rw [← AdjoinRoot.mk_X, ← map_pow, residue, AdjoinRoot.mk_eq_mk, CharTwo.sub_eq_add]
  exact dvd_rfl

/-- With a lowest coefficient of one, multiplying by `X` can be undone. -/
theorem root_isUnit {low : BitVec w} (wide : 0 < w) (odd : low.getLsbD 0 = true) :
    IsUnit (AdjoinRoot.root (divisor low)) := by
  have constant : (divisor low).coeff 0 = 1 := by
    simp [divisor, coeff_X_pow, wide.ne, odd, coefficient]
  have split := congrArg (AdjoinRoot.mk (divisor low)) (divX_mul_X_add (divisor low))
  rw [constant, AdjoinRoot.mk_self, map_add, map_mul, AdjoinRoot.mk_X, C_1, map_one] at split
  have inverse : AdjoinRoot.root (divisor low) *
      -AdjoinRoot.mk (divisor low) (divX (divisor low)) = 1 := by
    linear_combination -split
  exact IsUnit.of_mul_eq_one _ inverse

/-- The register's next value: it is shifted up, and what leaves it is fed back. -/
def feedback (low x : BitVec w) : BitVec w :=
  if x.msb then x <<< 1 ^^^ low else x <<< 1

/-- The bit that leaves a register. -/
theorem shifted_out (x : BitVec w) (wide : 0 < w) : x >>> (w - 1) = if x.msb then 1#w else 0#w := by
  apply BitVec.eq_of_getLsbD_eq
  intro i _
  rw [BitVec.getLsbD_ushiftRight, BitVec.msb_eq_getLsbD_last]
  rcases Nat.eq_zero_or_pos i with rfl | above
  · cases x.getLsbD (w - 1) <;> simp [wide]
  · cases last : x.getLsbD (w - 1) <;>
      simp [BitVec.getLsbD_of_ge x (w - 1 + i) (by omega), above.ne']

theorem residue_feedback (low x : BitVec w) (wide : 0 < w) :
    residue low (feedback low x) = AdjoinRoot.root (divisor low) * residue low x := by
  have shifted := residue_shiftLeft low x 1 wide
  rw [root_pow_width, shifted_out x wide, pow_one] at shifted
  rw [← shifted, feedback]
  split
  case isTrue left =>
    simp [residue_xor, residue_one low wide]
  case isFalse stays => simp

theorem residue_feedback_iterate (low x : BitVec w) (wide : 0 < w) (n : ℕ) :
    residue low ((feedback low)^[n] x) = AdjoinRoot.root (divisor low) ^ n * residue low x := by
  induction n with
  | zero => simp
  | succ n ih =>
    rw [Function.iterate_succ_apply', residue_feedback low _ wide, ih, pow_succ', mul_assoc]

end FsdFilter.BinaryPolynomials
