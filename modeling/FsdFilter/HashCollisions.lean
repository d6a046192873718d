import FsdFilter.BinaryPolynomials
import FsdFilter.ByteDigests
import FsdFilter.HashFunctions

/-! Which keys the hash functions tell apart. The table of `ght_crc_hash` does a division
of polynomials eight places at a time, and the rotation of `ght_rotating_hash` is one by
`X ^ 32 + 1`; the rounds of all three functions can be undone. -/
namespace FsdFilter.HashCollisions
open CommonHashTable HashFunctions BinaryPolynomials ByteDigests Polynomial

/-! ## Remainders -/

/-- The coefficients of the CRC-32 polynomial below its leading one. -/
def crcLow : UInt := 0x04c11db7

/-- The CRC-32 polynomial. -/
noncomputable def crcPolynomial : (ZMod 2)[X] :=
  X ^ 32 + X ^ 26 + X ^ 23 + X ^ 22 + X ^ 16 + X ^ 12 + X ^ 11 + X ^ 10 + X ^ 8 + X ^ 7 + X ^ 5 +
    X ^ 4 + X ^ 2 + X + 1

theorem divisor_crcLow : divisor crcLow = crcPolynomial := by
  simp [divisor, polynomial, crcLow, Finset.sum_range_succ, coefficient, crcPolynomial,
    ← X_pow_eq_monomial]
  ring

theorem divisor_one : divisor 1#32 = X ^ 32 + 1 := by
  rw [divisor, polynomial_one (by decide)]

/-- A key as a polynomial in base `X ^ w`: the first byte has the highest power. -/
noncomputable def keyPolynomial (w : ℕ) (key : HashKey) : (ZMod 2)[X] :=
  digits (X ^ w) polynomial key.bytes

/-- The table holds eight places of the division for each byte. -/
theorem crc32Table_eq : crc32Table =
    (List.range 256).map fun i => (feedback crcLow)^[8] (BitVec.ofNat 32 i <<< 24) := by
  decide +kernel

theorem crc32Table_get (index : UInt) (below : index.toNat < crc32Table.length) :
    crc32Table.get ⟨index.toNat, below⟩ = (feedback crcLow)^[8] (index <<< 24) := by
  simp [crc32Table_eq]

theorem residue_table (index : UInt) (below : index.toNat < crc32Table.length) :
    residue crcLow (crc32Table.get ⟨index.toNat, below⟩) =
      AdjoinRoot.root (divisor crcLow) ^ 32 * residue crcLow index := by
  have nothing : index >>> (32 - 24) = 0#32 := by
    rw [crc32Table_length] at below
    apply BitVec.eq_of_toNat_eq
    rw [BitVec.toNat_ushiftRight, Nat.shiftRight_eq_div_pow]
    exact Nat.div_eq_of_lt below
  have shifted := residue_shiftLeft crcLow index 24 (by decide)
  rw [nothing, residue_zero, mul_zero, add_zero] at shifted
  rw [crc32Table_get, residue_feedback_iterate crcLow _ (by decide), shifted]
  ring

theorem residue_crcRound (crc : UInt) (byte : BitVec 8) :
    residue crcLow (crcRound crc byte) = AdjoinRoot.root (divisor crcLow) ^ 8 * residue crcLow crc +
      AdjoinRoot.root (divisor crcLow) ^ 32 * residue crcLow byte := by
  have shifted := residue_shiftLeft crcLow crc 8 (by decide)
  rw [crcRound, residue_xor, residue_table, tableIndex, residue_xor,
    residue_setWidth crcLow byte (by decide), ← shifted]
  ring

theorem residue_rotatingRound (hash : UInt) (byte : BitVec 8) :
    residue 1#32 (rotatingRound hash byte) =
      AdjoinRoot.root (divisor 1#32) ^ 4 * residue 1#32 hash + 1 * residue 1#32 byte := by
  have shifted := residue_shiftLeft 1#32 hash 4 (by decide)
  rw [root_pow_width, residue_one _ (by decide), one_mul] at shifted
  rw [rotatingRound, residue_xor, residue_xor, residue_setWidth _ byte (by decide), ← shifted, one_mul]

/-- A key's digits modulo the divisor are its polynomial's residue. -/
theorem digits_residue (low : UInt) (w : ℕ) (bytes : List (BitVec 8)) :
    digits (AdjoinRoot.root (divisor low) ^ w) (residue low) bytes =
      AdjoinRoot.mk (divisor low) (digits (X ^ w) polynomial bytes) := by
  rw [map_digits, map_pow, AdjoinRoot.mk_X]
  rfl

/-- The register of `ght_crc_hash` after a key, before it is complemented. -/
theorem crc_register (key : HashKey) :
    residue crcLow (~~~ghtCrcHash key) = AdjoinRoot.mk (divisor crcLow)
      (X ^ (8 * key.iSize) * polynomial (0xffffffff : UInt) + X ^ 32 * keyPolynomial 8 key) := by
  rw [ghtCrcHash, BitVec.not_not, foldl_linear residue_crcRound, digits_residue]
  simp [residue, keyPolynomial, HashKey.iSize, pow_mul]

theorem rotating_register (key : HashKey) :
    residue 1#32 (ghtRotatingHash key) = AdjoinRoot.mk (divisor 1#32) (keyPolynomial 4 key) := by
  rw [ghtRotatingHash, foldl_linear residue_rotatingRound, digits_residue]
  simp [keyPolynomial]

theorem crc_collides_iff {key key' : HashKey} (long : key.iSize = key'.iSize) :
    ghtCrcHash key = ghtCrcHash key' ↔
      crcPolynomial ∣ keyPolynomial 8 key - keyPolynomial 8 key' := by
  have unit : IsUnit (AdjoinRoot.root (divisor crcLow) ^ 32) :=
    (root_isUnit (by decide) (by decide)).pow 32
  rw [ghtCrcHash, ghtCrcHash, BitVec.not_inj,
    foldl_linear_eq_iff residue_crcRound (residue_injective crcLow) unit _ long, digits_residue,
    digits_residue, AdjoinRoot.mk_eq_mk, divisor_crcLow]
  rfl

theorem rotating_collides_iff (key key' : HashKey) :
    ghtRotatingHash key = ghtRotatingHash key' ↔
      X ^ 32 + 1 ∣ keyPolynomial 4 key - keyPolynomial 4 key' := by
  rw [← (residue_injective 1#32).eq_iff, rotating_register, rotating_register, AdjoinRoot.mk_eq_mk,
    divisor_one]

/-- Two of the hash functions are remainders. `ght_crc_hash` divides the key, followed by
four zero bytes and with 32 ones added to the first 32 bits of that, by the CRC-32
polynomial; `ght_rotating_hash` divides the key, whose bytes overlap by half, by
`X ^ 32 + 1`. Keys collide just when the divisor divides their difference. -/
theorem hashes_are_remainders (key key' : HashKey) :
    (polynomial (~~~ghtCrcHash key) =
        (X ^ (8 * key.iSize) * polynomial (0xffffffff : UInt) + X ^ 32 * keyPolynomial 8 key) %ₘ
          crcPolynomial ∧
      polynomial (ghtRotatingHash key) = keyPolynomial 4 key %ₘ (X ^ 32 + 1)) ∧
    (key.iSize = key'.iSize → (ghtCrcHash key = ghtCrcHash key' ↔
      crcPolynomial ∣ keyPolynomial 8 key - keyPolynomial 8 key')) ∧
    (ghtRotatingHash key = ghtRotatingHash key' ↔
      X ^ 32 + 1 ∣ keyPolynomial 4 key - keyPolynomial 4 key') := by
  refine ⟨⟨?_, ?_⟩, crc_collides_iff, rotating_collides_iff key key'⟩
  · rw [← divisor_crcLow]
    exact polynomial_eq_remainder (crc_register key)
  · rw [← divisor_one]
    exact polynomial_eq_remainder (rotating_register key)

/-- The addresses of two operations vectors as keys. -/
def twoVectors : HashKey × HashKey :=
  (⟨[0x00, 0x10, 0x20, 0x80, 0xff, 0xff, 0xff, 0xff], by decide⟩,
    ⟨[0x40, 0x1c, 0x20, 0x80, 0xff, 0xff, 0xff, 0xff], by decide⟩)

/-- For instance for the addresses of two operations vectors. -/
theorem hashes_are_remainders_vectors :
    ghtCrcHash twoVectors.1 = ghtCrcHash twoVectors.2 ↔
      crcPolynomial ∣ keyPolynomial 8 twoVectors.1 - keyPolynomial 8 twoVectors.2 :=
  (hashes_are_remainders twoVectors.1 twoVectors.2).2.1 rfl

/-! ## Keys that are close to each other -/

theorem crcRound_reversible : Reversible crcRound :=
  reversible_of_linear residue_crcRound (residue_injective crcLow)
    ((root_isUnit (by decide) (by decide)).pow 8)

theorem rotatingRound_reversible : Reversible rotatingRound :=
  reversible_of_linear residue_rotatingRound (residue_injective 1#32)
    ((root_isUnit (by decide) (by decide)).pow 4)

/-- Four bytes fill the register: none of what they say is lost. -/
theorem crcRound_separates {n : ℕ} (few : n ≤ 4) : Separates n crcRound := by
  intro crc bytes bytes' long long' same
  have unit : IsUnit (AdjoinRoot.root (divisor crcLow) ^ 32) :=
    (root_isUnit (by decide) (by decide)).pow 32
  have agree := (foldl_linear_eq_iff residue_crcRound (residue_injective crcLow) unit crc
    (long.trans long'.symm)).mp same
  rw [digits_residue, digits_residue] at agree
  have fits (bs : List (BitVec 8)) (short : bs.length = n) :
      degree (digits (X ^ 8) polynomial bs) < 32 := by
    refine (degree_digits degree_polynomial bs).trans_le ?_
    exact_mod_cast (by omega : 8 * bs.length ≤ 32)
  exact digits_injective degree_polynomial polynomial_injective (long.trans long'.symm)
    (small_residues (fits bytes long) (fits bytes' long') agree)

theorem rotatingRound_separates : Separates 1 rotatingRound := by
  apply separates_one
  intro hash byte byte' same
  have agree := congrArg (residue 1#32) same
  rw [residue_rotatingRound, residue_rotatingRound, add_right_inj, one_mul, one_mul] at agree
  have fits (b : BitVec 8) : degree (polynomial b) < 32 :=
    (degree_polynomial b).trans (by exact_mod_cast (by decide : 8 < 32))
  exact polynomial_injective (small_residues (fits byte) (fits byte') agree)

/-- The round of `ght_one_at_a_time_hash`. -/
def oneAtATimeRound (hash : UInt) (byte : BitVec 8) : UInt :=
  let hash : UInt := hash + byte.setWidth 32
  let hash : UInt := hash + hash <<< 10
  hash ^^^ hash >>> 6

/-- What `ght_one_at_a_time_hash` does after the last byte. -/
def oneAtATimeEnd (hash : UInt) : UInt :=
  let hash : UInt := hash + hash <<< 3
  let hash : UInt := hash ^^^ hash >>> 11
  hash + hash <<< 15

theorem ghtOneAtATimeHash_eq (key : HashKey) :
    ghtOneAtATimeHash key = oneAtATimeEnd (key.bytes.foldl oneAtATimeRound 0) := rfl

theorem oneAtATimeRound_reversible : Reversible oneAtATimeRound := by
  intro byte hash hash' same
  have unshifted := xor_shiftRight_injective (by decide) same
  have unscaled := add_shiftLeft_injective (by decide) unshifted
  exact (BitVec.add_left_inj _).mp unscaled

theorem oneAtATimeRound_separates : Separates 1 oneAtATimeRound := by
  apply separates_one
  intro hash byte byte' same
  have unshifted := xor_shiftRight_injective (by decide) same
  have unscaled := add_shiftLeft_injective (by decide) unshifted
  have wide : byte.setWidth 32 = byte'.setWidth 32 := (BitVec.add_right_inj _).mp unscaled
  have narrow := congrArg (BitVec.setWidth 8) wide
  simpa using narrow

theorem oneAtATimeEnd_injective : Function.Injective oneAtATimeEnd := by
  intro hash hash' same
  have third := add_shiftLeft_injective (by decide) same
  have second := xor_shiftRight_injective (by decide) third
  exact add_shiftLeft_injective (by decide) second

/-- Keys of one size that differ only within four adjacent bytes never have the same
`ght_crc_hash`, and keys that differ in a single byte have the same hash under none of
the three functions. -/
theorem close_keys_differ {key key' : HashKey} {before middle middle' after : List (BitVec 8)}
    (bytes : key.bytes = before ++ middle ++ after)
    (bytes' : key'.bytes = before ++ middle' ++ after)
    (long : middle.length = middle'.length) (differ : middle ≠ middle') :
    (middle.length ≤ 4 → ghtCrcHash key ≠ ghtCrcHash key') ∧
    (middle.length = 1 → ghtOneAtATimeHash key ≠ ghtOneAtATimeHash key' ∧
      ghtRotatingHash key ≠ ghtRotatingHash key') := by
  refine ⟨fun few same => differ ?_, fun one => ⟨fun same => differ ?_, fun same => differ ?_⟩⟩
  · rw [ghtCrcHash, ghtCrcHash, BitVec.not_inj, bytes, bytes'] at same
    exact stretch_separated crcRound_reversible (crcRound_separates few) _ rfl long.symm same
  · rw [ghtOneAtATimeHash_eq, ghtOneAtATimeHash_eq, oneAtATimeEnd_injective.eq_iff, bytes,
      bytes'] at same
    exact stretch_separated oneAtATimeRound_reversible oneAtATimeRound_separates _ one
      (long.symm.trans one) same
  · rw [ghtRotatingHash, ghtRotatingHash, bytes, bytes'] at same
    exact stretch_separated rotatingRound_reversible rotatingRound_separates _ one
      (long.symm.trans one) same

/-- For instance two vectors in one page of memory. -/
theorem close_keys_differ_vectors : ghtCrcHash twoVectors.1 ≠ ghtCrcHash twoVectors.2 :=
  have first : twoVectors.1.bytes = [] ++ [0x00, 0x10] ++ [0x20, 0x80, 0xff, 0xff, 0xff, 0xff] := rfl
  have second : twoVectors.2.bytes = [] ++ [0x40, 0x1c] ++ [0x20, 0x80, 0xff, 0xff, 0xff, 0xff] := rfl
  (close_keys_differ first second rfl (by decide)).1 (by decide)

end FsdFilter.HashCollisions
