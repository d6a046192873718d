import Mathlib.Algebra.Polynomial.Degree.Lemmas
import Mathlib.Data.Int.ModEq
import Mathlib.Data.Nat.Prime.Basic
import Mathlib.Tactic.LinearCombination

/-! Digests that take in one symbol after another. When each symbol's step can be
undone, what follows two messages never brings their digests together; when the steps
are linear, a message's digest is that of its symbols as digits of one number. -/
namespace FsdFilter.ByteDigests
open Polynomial

section Steps
variable {σ β : Type} {absorb : σ → β → σ}

/-- The step of every symbol can be undone. -/
def Reversible (absorb : σ → β → σ) : Prop :=
  ∀ b, Function.Injective fun s => absorb s b

/-- From any state, messages of `n` symbols lead to different states. -/
def Separates (n : ℕ) (absorb : σ → β → σ) : Prop :=
  ∀ (s : σ) (bs bs' : List β), bs.length = n → bs'.length = n →
    bs.foldl absorb s = bs'.foldl absorb s → bs = bs'

theorem foldl_injective (reversible : Reversible absorb) (bs : List β) :
    Function.Injective fun s => bs.foldl absorb s := by
  induction bs with
  | nil => exact fun _ _ same => same
  | cons b bs ih => exact fun s s' same => reversible b (ih same)

theorem separates_one (distinct : ∀ s, Function.Injective (absorb s)) : Separates 1 absorb := by
  intro s bs bs' one one' same
  obtain ⟨b, rfl⟩ := List.length_eq_one_iff.mp one
  obtain ⟨b', rfl⟩ := List.length_eq_one_iff.mp one'
  exact congrArg (fun c => [c]) (distinct s same)

/-- Messages that differ only in a stretch of `n` symbols have different digests. -/
theorem stretch_separated {n : ℕ} (reversible : Reversible absorb) (separates : Separates n absorb)
    (s : σ) {before after middle middle' : List β} (long : middle.length = n)
    (long' : middle'.length = n)
    (same : (before ++ middle ++ after).foldl absorb s = (before ++ middle' ++ after).foldl absorb s) :
    middle = middle' := by
  simp only [List.foldl_append] at same
  exact separates _ middle middle' long long' (foldl_injective reversible after same)

end Steps

section Mixing
variable {w : ℕ}

/-- A number plus itself shifted up: it is multiplied by an odd number. -/
theorem add_shiftLeft_injective {k : ℕ} (moved : 0 < k) :
    Function.Injective fun x : BitVec w => x + x <<< k := by
  intro x y same
  have scaled (z : BitVec w) : (z + z <<< k).toNat = z.toNat * (1 + 2 ^ k) % 2 ^ w := by
    rw [BitVec.toNat_add, BitVec.toNat_shiftLeft, Nat.shiftLeft_eq, Nat.add_mod_mod, mul_add, mul_one]
  have odd : Nat.Coprime (2 ^ w) (1 + 2 ^ k) := by
    apply Nat.Coprime.pow_left
    rw [Nat.coprime_two_left]
    exact Odd.add_even odd_one (even_two.pow_of_ne_zero moved.ne')
  have agree : x.toNat * (1 + 2 ^ k) ≡ y.toNat * (1 + 2 ^ k) [MOD 2 ^ w] := by
    rw [Nat.ModEq, ← scaled, ← scaled]
    exact congrArg BitVec.toNat same
  have cancelled : x.toNat ≡ y.toNat [MOD 2 ^ w] := Nat.ModEq.cancel_right_of_coprime odd agree
  exact BitVec.eq_of_toNat_eq (cancelled.eq_of_lt_of_lt x.isLt y.isLt)

/-- A number and itself shifted down: the highest bit stays, and each bit tells the next. -/
theorem xor_shiftRight_injective {k : ℕ} (moved : 0 < k) :
    Function.Injective fun x : BitVec w => x ^^^ x >>> k := by
  intro x y same
  have fixed : x ^^^ y = (x ^^^ y) >>> k := by
    apply BitVec.eq_of_getLsbD_eq
    intro i _
    have bit := congrArg (fun z : BitVec w => z.getLsbD i) same
    simp only [BitVec.getLsbD_xor, BitVec.getLsbD_ushiftRight] at bit ⊢
    revert bit
    cases x.getLsbD i <;> cases y.getLsbD i <;> cases x.getLsbD (k + i) <;> simp
  have shrunk : (x ^^^ y).toNat = (x ^^^ y).toNat / 2 ^ k := by
    rw [← Nat.shiftRight_eq_div_pow, ← BitVec.toNat_ushiftRight, ← fixed]
  have none : (x ^^^ y).toNat = 0 := by
    by_contra some
    exact absurd shrunk.symm (Nat.div_lt_self (Nat.pos_of_ne_zero some) (Nat.one_lt_two_pow moved.ne')).ne
  exact BitVec.xor_eq_zero_iff.mp (BitVec.eq_of_toNat_eq (by simpa using none))

end Mixing

section Digits
variable {A B β σ : Type} [CommRing A] [CommRing B]

/-- A message as a number in base `x`, the first symbol the highest digit. -/
def digits (x : A) (digit : β → A) : List β → A
  | [] => 0
  | b :: bs => x ^ bs.length * digit b + digits x digit bs

theorem map_digits (f : A →+* B) (x : A) (digit : β → A) (bs : List β) :
    f (digits x digit bs) = digits (f x) (fun b => f (digit b)) bs := by
  induction bs with
  | nil => simp [digits]
  | cons b bs ih => simp [digits, ih]

/-- What a linear step makes of a whole message. -/
theorem foldl_linear {absorb : σ → β → σ} {value : σ → A} {digit : β → A} {x c : A}
    (linear : ∀ s b, value (absorb s b) = x * value s + c * digit b) (s : σ) (bs : List β) :
    value (bs.foldl absorb s) = x ^ bs.length * value s + c * digits x digit bs := by
  induction bs generalizing s with
  | nil => simp [digits]
  | cons b bs ih =>
    rw [List.foldl_cons, ih, linear, digits, List.length_cons]
    ring

/-- Digests of a linear step agree exactly when the numbers do. -/
theorem foldl_linear_eq_iff {absorb : σ → β → σ} {value : σ → A} {digit : β → A} {x c : A}
    (linear : ∀ s b, value (absorb s b) = x * value s + c * digit b)
    (faithful : Function.Injective value) (unit : IsUnit c) (s : σ) {bs bs' : List β}
    (long : bs.length = bs'.length) :
    bs.foldl absorb s = bs'.foldl absorb s ↔ digits x digit bs = digits x digit bs' := by
  rw [← faithful.eq_iff, foldl_linear linear, foldl_linear linear, long, add_right_inj,
    unit.mul_right_inj]

/-- A linear step is undone when its base is a unit. -/
theorem reversible_of_linear {absorb : σ → β → σ} {value : σ → A} {digit : β → A} {x c : A}
    (linear : ∀ s b, value (absorb s b) = x * value s + c * digit b)
    (faithful : Function.Injective value) (unit : IsUnit x) : Reversible absorb := by
  intro b s s' same
  have agree : x * value s + c * digit b = x * value s' + c * digit b := by
    rw [← linear, ← linear]
    exact congrArg value same
  exact faithful (unit.mul_right_inj.mp (add_right_cancel agree))

/-- Below a power of `X` nothing reaches the coefficients above it. -/
theorem split_at_power {m : ℕ} {p p' q q' : A[X]} (low : degree q < m) (low' : degree q' < m)
    (same : X ^ m * p + q = X ^ m * p' + q') : p = p' ∧ q = q' := by
  have high : p = p' := by
    ext i
    have at_place := congrArg (fun r => coeff r (i + m)) same
    simpa [coeff_X_pow_mul, coeff_eq_zero_of_degree_lt (low.trans_le (by exact_mod_cast Nat.le_add_left m i)),
      coeff_eq_zero_of_degree_lt (low'.trans_le (by exact_mod_cast Nat.le_add_left m i))] using at_place
  subst high
  exact ⟨rfl, add_left_cancel same⟩

theorem degree_shifted {w : ℕ} {p : A[X]} (small : degree p < w) (m : ℕ) :
    degree (X ^ m * p) < (m + w : ℕ) := by
  rw [degree_lt_iff_coeff_zero]
  intro i high
  have above : w ≤ i - m := by omega
  rw [coeff_X_pow_mul', if_pos (by omega)]
  exact coeff_eq_zero_of_degree_lt (small.trans_le (by exact_mod_cast above))

/-- A number of `n` digits of `w` coefficients has `w * n` coefficients. -/
theorem degree_digits {w : ℕ} {digit : β → A[X]} (small : ∀ b, degree (digit b) < w) (bs : List β) :
    degree (digits (X ^ w) digit bs) < (w * bs.length : ℕ) := by
  induction bs with
  | nil => simp [digits]
  | cons b bs ih =>
    rw [digits, ← pow_mul, List.length_cons, Nat.mul_succ]
    refine (degree_add_le _ _).trans_lt (max_lt ?_ (ih.trans_le ?_))
    · exact degree_shifted (small b) _
    · exact_mod_cast Nat.le_add_right _ _

/-- Digits of `w` coefficients can be read back from the number. -/
theorem digits_injective {w : ℕ} {digit : β → A[X]} (small : ∀ b, degree (digit b) < w)
    (faithful : Function.Injective digit) {bs bs' : List β} (long : bs.length = bs'.length)
    (same : digits (X ^ w) digit bs = digits (X ^ w) digit bs') : bs = bs' := by
  induction bs generalizing bs' with
  | nil => exact (List.length_eq_zero_iff.mp long.symm).symm
  | cons b bs ih =>
    cases bs' with
    | nil => cases long
    | cons b' bs' =>
      have tails : bs.length = bs'.length := Nat.succ.inj long
      rw [digits, digits, ← tails, ← pow_mul] at same
      obtain ⟨first, rest⟩ := split_at_power (degree_digits small bs)
        (tails ▸ degree_digits small bs') same
      rw [faithful first, ih tails rest]

end Digits

end FsdFilter.ByteDigests
