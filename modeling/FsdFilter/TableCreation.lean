import FsdFilter.EntryCreation

/-! Creating a table: its size is the next power of two, and three attempts to allocate
have to succeed. -/
namespace FsdFilter.TableCreation
open SizedBlocks LinkedLists StateRuns CommonHashTable TableMemory ChainEdits TableRepresentation
open EntryCreation

variable {D : Type} {kernel : Kernel} {h h' : Heap D}

/-! ### The size -/

theorem shifted_toNat {k : ℕ} (small : k < 32) : ((1 : UInt) <<< k).toNat = 2 ^ k := by
  rw [BitVec.toNat_shiftLeft, Nat.mod_eq_of_lt]
  · exact Nat.one_shiftLeft k
  · exact (Nat.one_shiftLeft k).symm ▸ Nat.pow_lt_pow_right (by decide) small

/-- The sizing loop ends at the first power of two that is large enough. -/
theorem sizeFrom_some {requested : UInt} (fits : requested.toNat ≤ 2 ^ 31) (fuel k : ℕ) (small : k < 32)
    (enough : 32 ≤ fuel + k) : ∃ j, k ≤ j ∧ j < 32 ∧
      sizeFrom requested fuel ((1 : UInt) <<< k) (k + 1) = some ((1 : UInt) <<< j, j + 1) ∧
        requested.toNat ≤ 2 ^ j ∧
      ∀ m, k ≤ m → m < j → 2 ^ m < requested.toNat := by
  induction fuel generalizing k with
  | zero => omega
  | succ fuel ih =>
    rw [sizeFrom]
    by_cases more : (1 : UInt) <<< k < requested
    · have less : 2 ^ k < requested.toNat := by
        have less := BitVec.lt_def.mp more
        rwa [shifted_toNat small] at less
      have below : 2 ^ k < 2 ^ 31 := Nat.lt_of_lt_of_le less fits
      have next : k + 1 < 32 := Nat.succ_lt_succ ((Nat.pow_lt_pow_iff_right (by decide)).mp below)
      rw [if_pos more, Nat.mod_eq_of_lt next]
      obtain ⟨j, after, small', ended, large, passed⟩ := ih (k + 1) next (by omega)
      refine ⟨j, Nat.le_of_succ_le after, small', ended, large, fun m from' before => ?_⟩
      rcases Nat.eq_or_lt_of_le from' with rfl | later
      · exact less
      · exact passed m later before
    · rw [if_neg more]
      refine ⟨k, Nat.le_refl _, small, rfl, ?_, fun m from' before => absurd before (Nat.not_lt_of_le from')⟩
      have large := BitVec.not_lt.mp more
      rwa [BitVec.le_def, shifted_toNat small] at large

/-- The number of buckets and the mask for a size that the loop reaches. -/
theorem tableSize_some {requested : UInt} (fits : requested.toNat ≤ 2 ^ 31) :
    ∃ iSize iSizeMask, tableSize requested = some (iSize, iSizeMask) ∧ WellSized iSize iSizeMask := by
  obtain ⟨j, -, small, sized, -⟩ := sizeFrom_some fits 34 0 (by decide) (by decide)
  refine ⟨(1 : UInt) <<< j, (1 : UInt) <<< j - 1, ?_, ?_⟩
  · have start : sizeFrom requested 34 1 1 = _ := sized
    rw [tableSize, start, Option.map_some]
    dsimp only
    rw [Nat.add_sub_cancel, Nat.mod_eq_of_lt small]
  · have positive : 1 ≤ 2 ^ j := Nat.one_le_two_pow
    have least : (1 : UInt) ≤ (1 : UInt) <<< j := by
      rw [BitVec.le_def, shifted_toNat small]
      exact positive
    refine ⟨?_, j, small, shifted_toNat small⟩
    rw [BitVec.toNat_sub_of_le least, shifted_toNat small]
    exact Nat.sub_add_cancel positive

/-- The mask of a table that is created with a size. -/
def newMask (requested : UInt) : UInt := ((tableSize requested).map Prod.snd).getD 0

/-- The size that `ght_insert` asks for is one that the loop reaches. -/
theorem doubled_fits {iSize iSizeMask : UInt} (sized : WellSized iSize iSizeMask) :
    (2 * iSize).toNat ≤ 2 ^ 31 := by
  obtain ⟨k, small, size⟩ := sized.power
  rw [BitVec.toNat_mul, size]
  rcases Nat.lt_or_ge k 31 with less | last
  · have bound : 2 ^ (k + 1) ≤ 2 ^ 31 := Nat.pow_le_pow_right (by decide) less
    refine Nat.le_trans (Nat.mod_le ..) (Nat.le_trans (Nat.le_of_eq ?_) bound)
    rw [Nat.pow_succ, Nat.mul_comm]
    rfl
  · have whole : k = 31 := Nat.le_antisymm (Nat.le_of_lt_succ small) last
    rw [whole]
    decide

/-- The sizing loop never gets to a size above all powers of two. -/
theorem sizeFrom_none {requested : UInt} (huge : 2 ^ 31 < requested.toNat) (fuel : ℕ)
    (iSize : UInt) (i : ℕ) (small : iSize.toNat ≤ 2 ^ 31) : sizeFrom requested fuel iSize i = none := by
  induction fuel generalizing iSize i with
  | zero => rfl
  | succ fuel ih =>
    have more : iSize < requested := BitVec.lt_def.mpr (Nat.lt_of_le_of_lt small huge)
    rw [sizeFrom, if_pos more]
    apply ih
    have shift : i % 32 < 32 := Nat.mod_lt _ (by decide)
    rw [shifted_toNat shift]
    exact Nat.pow_le_pow_right (by decide) (Nat.le_of_lt_succ shift)

theorem tableSize_none {requested : UInt} (huge : 2 ^ 31 < requested.toNat) :
    tableSize requested = none := by
  rw [tableSize, sizeFrom_none huge 34 1 1 (by decide)]
  rfl

/-! ### `ght_create` -/

/-- The three attempts of `ght_create` succeed. -/
def tableServed (kernel : Kernel) (n : ℕ) : Bool :=
  kernel.grants n && kernel.grants (n + 1) && kernel.grants (n + 2)

/-- A new table has no entries, and all its blocks are new. -/
structure CreatedTable (kernel : Kernel) (h h' : Heap D) (t : HashTable D) : Prop where
  extends' : Extends h h'
  represents : Represents kernel h' t [] fun _ => []
  new : ∀ x ∈ footprint kernel h' t [], h.blocks.fresh ≤ x
  attempts : h'.blocks.attempts = h.blocks.attempts + 3
  bucketLimit : t.bucketLimit = 0
  iAutomaticRehash : t.iAutomaticRehash = false

/-- Three blocks one after the other, and a table in them. -/
theorem created_represents {nonBlock : Bool} {iSize iSizeMask : UInt}
    (sized : WellSized iSize iSizeMask) (blocks : h'.blocks =
      ((h.blocks.granted sizeofHashTable).granted (iSize.toNat * 8)).granted (iSize.toNat * 4)) :
    Represents kernel h'
      (.created iSize iSizeMask nonBlock h.blocks.fresh (h.blocks.fresh + 1) (h.blocks.fresh + 2)) []
      fun _ => [] := by
  refine ⟨⟨rfl, rfl, List.nodup_nil, fun _ => rfl, fun _ => List.nodup_nil,
    fun _ _ _ inside => (by cases inside), ?_⟩, ⟨fun _ inside => (by cases inside), ?_, ?_, ?_, ?_⟩,
    ⟨fun a b => ?_, fun _ => rfl, rfl, List.nodup_nil, sized, ⟨fun limited => absurd rfl limited, nofun⟩⟩⟩
  · rintro a (inside | ⟨b, inside⟩) <;> cases inside
  · rw [blocks, Blocks.granted_old (Nat.lt_succ_of_lt (Nat.lt_succ_self _)),
      Blocks.granted_old (Nat.lt_succ_self _)]
    exact Blocks.granted_new ..
  · rw [blocks, Blocks.granted_old (Nat.lt_succ_self _)]
    exact Blocks.granted_new ..
  · rw [blocks]
    exact Blocks.granted_new ..
  · simp [footprint, HashTable.created]
  · simp

/-- `ght_create`, with the memory that it needs. -/
theorem ghtCreate_served {requested : UInt} (fits : requested.toNat ≤ 2 ^ 31) (nonBlock : Bool)
    (served : tableServed kernel h.blocks.attempts = true) :
    ∃ h' t, ghtCreate kernel requested nonBlock h = .ok (some t, h') ∧ CreatedTable kernel h h' t ∧
      t.nonBlock = nonBlock ∧ t.iSizeMask = newMask requested ∧
      Blocks.Accounts h.blocks [] h'.blocks (footprint kernel h' t []) := by
  obtain ⟨iSize, iSizeMask, sized, wellSized⟩ := tableSize_some fits
  rw [tableServed, Bool.and_eq_true, Bool.and_eq_true] at served
  obtain ⟨⟨first, second⟩, third⟩ := served
  let h₁ : Heap D := { h with blocks := h.blocks.granted sizeofHashTable }
  let h₂ : Heap D := { h with blocks := h₁.blocks.granted (iSize.toNat * 8) }
  let h₃ : Heap D := { h with blocks := h₂.blocks.granted (iSize.toNat * 4) }
  have header : alloc kernel sizeofHashTable h = .ok (some h.blocks.fresh, h₁) := alloc_granted _ first
  have entries : alloc kernel (iSize.toNat * 8) h₁ = .ok (some (h.blocks.fresh + 1), h₂) :=
    alloc_granted _ second
  have counters : alloc kernel (iSize.toNat * 4) h₂ = .ok (some (h.blocks.fresh + 2), h₃) :=
    alloc_granted _ third
  refine ⟨h₃, _, ?_, ⟨?_, created_represents wellSized rfl, ?_, rfl, rfl, rfl⟩, rfl, ?_, ?_⟩
  · rw [ghtCreate, bind_ok header]
    dsimp only
    rw [sized]
    dsimp only
    rw [bind_ok entries]
    dsimp only
    rw [bind_ok counters]
    rfl
  · exact ((extends_granted ..).trans (extends_granted ..)).trans (extends_granted ..)
  · intro x inside
    have three : x = h.blocks.fresh ∨ x = h.blocks.fresh + 1 ∨ x = h.blocks.fresh + 2 := by
      simpa [footprint, HashTable.created] using inside
    rcases three with rfl | rfl | rfl
    · exact Nat.le_refl _
    · exact Nat.le_add_right ..
    · exact Nat.le_add_right ..
  · rw [newMask, sized]
    rfl
  · have two : Blocks.Accounts h.blocks [] h₂.blocks [h.blocks.fresh + 1, h.blocks.fresh] :=
      (Blocks.Accounts.of_granted ..).trans ((Blocks.Accounts.of_granted ..).append [h.blocks.fresh])
    have three : Blocks.Accounts h.blocks [] h₃.blocks [h.blocks.fresh + 2, h.blocks.fresh + 1,
        h.blocks.fresh] :=
      two.trans ((Blocks.Accounts.of_granted ..).append [h.blocks.fresh + 1, h.blocks.fresh])
    exact three.congr (fun _ => Iff.rfl) fun a =>
      (List.reverse_perm [h.blocks.fresh + 2, h.blocks.fresh + 1, h.blocks.fresh]).mem_iff

/-- `ght_create` that does not get the memory it needs, or does not get to the size. -/
theorem ghtCreate_fails {requested : UInt} (nonBlock : Bool)
    (fails : ¬ (requested.toNat ≤ 2 ^ 31 ∧ tableServed kernel h.blocks.attempts = true)) :
    2 ^ 31 < requested.toNat ∧ ghtCreate kernel requested nonBlock h = .error .endless ∨
      tableServed kernel h.blocks.attempts = false ∧
        ∃ h', ghtCreate kernel requested nonBlock h = .ok (none, h') ∧
          Blocks.Accounts h.blocks [] h'.blocks [] := by
  cases first : kernel.grants h.blocks.attempts with
  | false =>
    refine .inr ⟨?_, { h with blocks := h.blocks.refused }, ?_, Blocks.Accounts.refl.atAttempt _⟩
    · rw [tableServed, first, Bool.false_and, Bool.false_and]
    · rw [ghtCreate, bind_ok (alloc_refused _ first)]
      rfl
  | true =>
    by_cases fits : requested.toNat ≤ 2 ^ 31
    · refine .inr ⟨Bool.eq_false_iff.mpr fun served => fails ⟨fits, served⟩, ?_⟩
      obtain ⟨iSize, iSizeMask, sized, wellSized⟩ := tableSize_some fits
      let h₁ : Heap D := { h with blocks := h.blocks.granted sizeofHashTable }
      have header : h₁.blocks.size h.blocks.fresh = some sizeofHashTable := Blocks.granted_new ..
      cases second : kernel.grants h₁.blocks.attempts with
      | false =>
        let h₂ : Heap D := { h with blocks := h₁.blocks.refused }
        have headerLeft : h₂.blocks.size h.blocks.fresh = some sizeofHashTable := header
        have accounts : Blocks.Accounts h.blocks [] h₂.blocks [h.blocks.fresh] :=
          (Blocks.Accounts.of_granted ..).atAttempt _
        refine ⟨freed h₂ [h.blocks.fresh], ?_, accounts.trans (.of_without ..)⟩
        rw [ghtCreate, bind_ok (alloc_granted _ first)]
        dsimp only
        rw [sized]
        dsimp only
        rw [bind_ok (alloc_refused _ second)]
        dsimp only
        exact bind_ok (fnFree_freed headerLeft)
      | true =>
        let h₂ : Heap D := { h with blocks := h₁.blocks.granted (iSize.toNat * 8) }
        have third : kernel.grants h₂.blocks.attempts = false := by
          refine Bool.eq_false_iff.mpr fun third => fails ⟨fits, ?_⟩
          rw [tableServed, Bool.and_eq_true, Bool.and_eq_true]
          exact ⟨⟨first, second⟩, third⟩
        let h₃ : Heap D := { h with blocks := h₂.blocks.refused }
        have entriesLeft : h₃.blocks.size (h.blocks.fresh + 1) = some (iSize.toNat * 8) :=
          Blocks.granted_new h₁.blocks _
        have headerLeft : (freed h₃ [h.blocks.fresh + 1]).blocks.size h.blocks.fresh =
            some sizeofHashTable := by
          refine (Blocks.without_size (by simp)).trans ?_
          exact (Blocks.granted_old (Nat.lt_succ_self _) _).trans header
        have accounts : Blocks.Accounts h.blocks [] h₃.blocks [h.blocks.fresh + 1, h.blocks.fresh] :=
          (Blocks.Accounts.of_granted ..).trans
            (((Blocks.Accounts.of_granted ..).append [h.blocks.fresh]).atAttempt _)
        have returned : Blocks.Accounts h₃.blocks [h.blocks.fresh + 1, h.blocks.fresh]
            (h₃.blocks.without [h.blocks.fresh + 1]) [h.blocks.fresh] :=
          (Blocks.Accounts.of_without h₃.blocks [h.blocks.fresh + 1]).append [h.blocks.fresh]
        refine ⟨freed (freed h₃ [h.blocks.fresh + 1]) [h.blocks.fresh], ?_,
          (accounts.trans returned).trans (.of_without ..)⟩
        rw [ghtCreate, bind_ok (alloc_granted _ first)]
        dsimp only
        rw [sized]
        dsimp only
        rw [bind_ok (alloc_granted _ second)]
        dsimp only
        rw [bind_ok (alloc_refused _ third)]
        dsimp only
        exact (bind_ok (fnFree_freed entriesLeft)).trans (bind_ok (fnFree_freed headerLeft))
    · refine .inl ⟨Nat.lt_of_not_le fits, ?_⟩
      rw [ghtCreate, bind_ok (alloc_granted _ first)]
      dsimp only
      rw [tableSize_none (Nat.lt_of_not_le fits)]
      rfl

/-- A table that `ght_create` returns was created. -/
theorem createdTable_of_returned {requested : UInt} {nonBlock : Bool} {t : HashTable D}
    (ran : ghtCreate kernel requested nonBlock h = .ok (some t, h')) : CreatedTable kernel h h' t := by
  by_cases served : requested.toNat ≤ 2 ^ 31 ∧ tableServed kernel h.blocks.attempts = true
  · obtain ⟨h₁, t₁, ran₁, created, -⟩ := ghtCreate_served served.1 nonBlock served.2
    cases ran.symm.trans ran₁
    exact created
  · rcases ghtCreate_fails nonBlock served with ⟨-, stopped⟩ | ⟨-, h₁, failed, -⟩
    · cases ran.symm.trans stopped
    · cases ran.symm.trans failed

end FsdFilter.TableCreation
