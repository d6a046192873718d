import Mathlib.Algebra.Group.Int.Defs
import Mathlib.Algebra.Group.Nat.Defs

/-! A signed 32-bit counter that counts natural numbers: it tells two amounts
apart as long as both fit in 32 bits, and shows the amount itself as long as
that fits in 31. -/
namespace FsdFilter.WrappingCounter

/-- The counter after `n` increments of a counter at zero. -/
abbrev count (n : ℕ) : Int32 := Int32.ofNat n

theorem count_succ (n : ℕ) : count (n + 1) = count n + 1 := Int32.ofNat_add n 1

theorem count_pred {n : ℕ} (positive : 0 < n) : count (n - 1) = count n - 1 :=
  Int32.ofNat_sub n 1 positive

theorem pred_eq_iff {c d : Int32} : c - 1 = d ↔ c = d + 1 := by
  constructor
  · rintro rfl
    exact (Int32.sub_add_cancel c 1).symm
  · rintro rfl
    exact Int32.add_sub_cancel d 1

/-- Below 2^31 the counter shows the amount. -/
theorem count_toInt {n : ℕ} (fits : n < 2 ^ 31) : (count n).toInt = n := Int32.toInt_ofNat_of_lt fits

theorem count_eq_iff_mod {m n : ℕ} : count m = count n ↔ m % 2 ^ 32 = n % 2 ^ 32 := by
  constructor
  · intro same
    have bits := congrArg (fun c : Int32 => c.toBitVec.toNat) same
    simpa using bits
  · intro same
    apply Int32.toBitVec_inj.mp
    apply BitVec.eq_of_toNat_eq
    simpa using same

/-- Below 2^32 the counter tells two amounts apart. -/
theorem count_eq_iff {m n : ℕ} (mFits : m < 2 ^ 32) (nFits : n < 2 ^ 32) :
    count m = count n ↔ m = n := by
  rw [count_eq_iff_mod, Nat.mod_eq_of_lt mFits, Nat.mod_eq_of_lt nFits]

theorem count_eq_zero {n : ℕ} (fits : n < 2 ^ 32) : count n = 0 ↔ n = 0 :=
  count_eq_iff (n := 0) fits (by decide)

theorem count_eq_one {n : ℕ} (fits : n < 2 ^ 32) : count n = 1 ↔ n = 1 :=
  count_eq_iff (n := 1) fits (by decide)

/-- An increment below the largest value does not wrap. -/
theorem toInt_succ {c : Int32} (fits : c.toInt + 1 < 2 ^ 31) : (c + 1).toInt = c.toInt + 1 := by
  have below := c.le_toInt
  rw [Int32.toInt_add]
  have one : (1 : Int32).toInt = 1 := rfl
  rw [one]
  exact Int.bmod_eq_of_le_mul_two (by omega) (by omega)

/-- A decrement of a positive counter does not wrap. -/
theorem toInt_pred {c : Int32} (positive : 0 < c.toInt) : (c - 1).toInt = c.toInt - 1 := by
  have above := c.toInt_lt
  rw [Int32.toInt_sub]
  have one : (1 : Int32).toInt = 1 := rfl
  rw [one]
  exact Int.bmod_eq_of_le_mul_two (by omega) (by omega)

end FsdFilter.WrappingCounter
