import Mathlib.Order.Bounds.Basic
import FsdFilter.TableCreation

/-! The sizing loop of `ght_create`. It shifts a 1 by a growing count and takes the mask
from the count; above the largest power of two of an `unsigned int` it never ends. -/
namespace FsdFilter.TableSizing
open SizedBlocks CommonHashTable TableRepresentation TableCreation

variable {D : Type} {kernel : Kernel} {h h' : Heap D} {t : HashTable D}
  {requested iSize iSizeMask : UInt}

/-- After some rounds the sizing loop is left with this size and this mask. -/
def Ends (requested iSize iSizeMask : UInt) : Prop :=
  ∃ rounds i, sizeFrom requested rounds 1 1 = some (iSize, i) ∧
    iSizeMask = (1 : UInt) <<< ((i - 1) % 32) - 1

/-- The size is the least power of two that is large enough, and the mask cuts the
hashes to all the buckets. -/
structure ExactSize (requested iSize iSizeMask : UInt) : Prop where
  least : IsLeast {n | max 1 requested.toNat ≤ n ∧ ∃ k, n = 2 ^ k} iSize.toNat
  mask : iSizeMask = iSize - 1
  below : ∀ hash : UInt, hash &&& iSizeMask < iSize
  reached : ∀ bucket : UInt, bucket < iSize → ∃ hash : UInt, hash &&& iSizeMask = bucket

/-- A mask below a power of two cuts a hash to the remainder. -/
theorem masked_toNat {k : ℕ} (small : k < 32) (hash : UInt) :
    (hash &&& ((1 : UInt) <<< k - 1)).toNat = hash.toNat % 2 ^ k := by
  have least : (1 : UInt) ≤ (1 : UInt) <<< k := by
    rw [BitVec.le_def, shifted_toNat small]
    exact Nat.one_le_two_pow
  rw [BitVec.toNat_and, BitVec.toNat_sub_of_le least, shifted_toNat small]
  exact Nat.and_two_pow_sub_one_eq_mod hash.toNat k

/-- The loop ends with the exact size. -/
theorem ends_exact (fits : requested.toNat ≤ 2 ^ 31) :
    ∃ iSize iSizeMask, Ends requested iSize iSizeMask ∧ tableSize requested = some (iSize, iSizeMask) ∧
      ExactSize requested iSize iSizeMask := by
  obtain ⟨j, -, small, ended, large, passed⟩ := sizeFrom_some fits 34 0 (by decide) (by decide)
  have started : sizeFrom requested 34 1 1 = some ((1 : UInt) <<< j, j + 1) := ended
  have count : (1 : UInt) <<< ((j + 1 - 1) % 32) - 1 = (1 : UInt) <<< j - 1 := by
    rw [Nat.add_sub_cancel, Nat.mod_eq_of_lt small]
  refine ⟨(1 : UInt) <<< j, (1 : UInt) <<< j - 1, ⟨34, j + 1, started, count.symm⟩, ?_,
    ⟨⟨?_, ?_⟩, rfl, ?_, ?_⟩⟩
  · rw [tableSize, started, Option.map_some]
    exact congrArg (fun mask => some ((1 : UInt) <<< j, mask)) count
  · rw [Set.mem_ofPred_eq, shifted_toNat small]
    exact ⟨Nat.max_le.mpr ⟨Nat.one_le_two_pow, large⟩, j, rfl⟩
  · rintro _ ⟨enough, k, rfl⟩
    rw [shifted_toNat small]
    by_contra shorter
    have before : k < j := (Nat.pow_lt_pow_iff_right (by decide)).mp (Nat.lt_of_not_le shorter)
    exact Nat.not_le_of_lt (passed k (Nat.zero_le _) before) (Nat.le_trans (Nat.le_max_right ..) enough)
  · intro hash
    rw [BitVec.lt_def, masked_toNat small, shifted_toNat small]
    exact Nat.mod_lt _ (Nat.two_pow_pos j)
  · intro bucket inside
    rw [BitVec.lt_def, shifted_toNat small] at inside
    refine ⟨bucket, BitVec.eq_of_toNat_eq ?_⟩
    rw [masked_toNat small, Nat.mod_eq_of_lt inside]

/-- A size above all powers of two keeps the loop going. -/
theorem fits_of_ends (ends : Ends requested iSize iSizeMask) : requested.toNat ≤ 2 ^ 31 := by
  obtain ⟨rounds, i, ended, -⟩ := ends
  by_contra huge
  cases (sizeFrom_none (Nat.lt_of_not_le huge) rounds 1 1 (by decide)).symm.trans ended

/-- The sizes of a table that `ght_create` returned. -/
theorem created_exact {nonBlock : Bool}
    (ran : ghtCreate kernel requested nonBlock h = .ok (some t, h')) :
    ExactSize requested t.iSize t.iSizeMask := by
  by_cases served : requested.toNat ≤ 2 ^ 31 ∧ tableServed kernel h.blocks.attempts = true
  · obtain ⟨iSize, iSizeMask, -, sized, exact'⟩ := ends_exact served.1
    obtain ⟨h₁, t₁, ran₁, created, -, mask, -⟩ := ghtCreate_served served.1 nonBlock served.2
    cases ran.symm.trans ran₁
    have sameMask : t.iSizeMask = iSizeMask := by
      rw [mask, newMask, sized]
      rfl
    have sameSize : t.iSize = iSize := by
      have masked := created.represents.indexed.sized.masked
      have positive : (1 : UInt) ≤ iSize :=
        BitVec.le_def.mpr (Nat.le_trans (Nat.le_max_left ..) exact'.least.1.1)
      apply BitVec.eq_of_toNat_eq
      rw [← masked, sameMask, exact'.mask, BitVec.toNat_sub_of_le positive]
      exact Nat.sub_add_cancel positive
    rw [sameMask, sameSize]
    exact exact'
  · rcases ghtCreate_fails nonBlock served with ⟨-, stopped⟩ | ⟨-, h₁, failed, -⟩
    · cases ran.symm.trans stopped
    · cases ran.symm.trans failed

/-- The loop ends, with the exact size, for the sizes up to the largest power of two. -/
theorem sizing_exact_iff (requested : UInt) :
    ((∃ iSize iSizeMask, Ends requested iSize iSizeMask ∧ ExactSize requested iSize iSizeMask) ↔
        requested.toNat ≤ 2 ^ 31) ∧
      ((∀ rounds, sizeFrom requested rounds 1 1 = none) ↔ 2 ^ 31 < requested.toNat) ∧
      ∀ (D : Type) (kernel : Kernel) (nonBlock : Bool) (h h' : Heap D) (t : HashTable D),
        ghtCreate kernel requested nonBlock h = .ok (some t, h') →
          ExactSize requested t.iSize t.iSizeMask := by
  refine ⟨⟨?_, fun fits => ?_⟩, ⟨fun endless => ?_, fun huge rounds => ?_⟩,
    fun _ _ _ _ _ _ ran => created_exact ran⟩
  · rintro ⟨iSize, iSizeMask, ends, -⟩
    exact fits_of_ends ends
  · obtain ⟨iSize, iSizeMask, ends, -, exact'⟩ := ends_exact fits
    exact ⟨iSize, iSizeMask, ends, exact'⟩
  · by_contra fits
    obtain ⟨iSize, iSizeMask, ⟨rounds, i, ended, -⟩, -⟩ := ends_exact (Nat.le_of_not_lt fits)
    cases (endless rounds).symm.trans ended
  · exact sizeFrom_none huge rounds 1 1 (by decide)

/-- One bucket more than the largest power of two. -/
theorem sizing_endless :
    ¬ ∃ iSize iSizeMask, Ends 0x80000001 iSize iSizeMask ∧ ExactSize 0x80000001 iSize iSizeMask := by
  rintro ⟨iSize, iSizeMask, ends, -⟩
  have fits : (0x80000001 : UInt).toNat ≤ 2 ^ 31 := fits_of_ends ends
  revert fits
  decide

end FsdFilter.TableSizing
