import FsdFilter.TableRepresentation

/-! Creating an entry. Which attempts to allocate succeed decides whether there is one;
the memory that was in use stays as it was in any case. -/
namespace FsdFilter.EntryCreation
open SizedBlocks StateRuns CommonHashTable TableMemory TableRepresentation

variable {D : Type} {kernel : Kernel} {h h' h'' : Heap D} {t : HashTable D} {nonBlock : Bool} {n : ℕ}

/-! ### Which attempts succeed -/

section Attempts
variable (kernel : Kernel) (nonBlock : Bool) (n : ℕ)

/-- The block of an entry is allocated at the first or, without blocking, at the second
attempt. -/
def blockServed : Bool := kernel.grants n || nonBlock && kernel.grants (n + 1)

/-- The next attempt after those for the block of an entry. -/
def afterBlock : ℕ := if kernel.grants n || !nonBlock then n + 1 else n + 2

/-- An entry is created: a DBG build needs a block for the shadow of the key too. -/
def nodeServed : Bool :=
  blockServed kernel nonBlock n && (!kernel.dbg || kernel.grants (afterBlock kernel nonBlock n))

/-- The next attempt after those for an entry. -/
def afterNode : ℕ :=
  if blockServed kernel nonBlock n && kernel.dbg then afterBlock kernel nonBlock n + 1
  else afterBlock kernel nonBlock n

end Attempts

/-! ### The memory grows -/

/-- Whatever was in use stays as it was. -/
structure Extends (h h' : Heap D) : Prop where
  old : ∀ x < h.blocks.fresh, cell h' x = cell h x
  fresh : h.blocks.fresh ≤ h'.blocks.fresh

theorem Extends.refl : Extends h h := ⟨fun _ _ => rfl, Nat.le_refl _⟩

theorem Extends.trans (first : Extends h h') (second : Extends h' h'') : Extends h h'' := by
  refine ⟨fun x older => ?_, Nat.le_trans first.fresh second.fresh⟩
  exact (second.old x (Nat.lt_of_lt_of_le older first.fresh)).trans (first.old x older)

/-- A table is not touched by what only extends the memory. -/
theorem Extends.represents {nodes : List Addr} {chain : UInt → List Addr} (extends' : Extends h h')
    (represents : Represents kernel h t nodes chain) : Represents kernel h' t nodes chain :=
  represents.frame fun x member => extends'.old x (represents.stored.inUse member)

theorem Extends.sameNode {nodes : List Addr} {chain : UInt → List Addr} (extends' : Extends h h')
    (represents : Represents kernel h t nodes chain) : ∀ c ∈ nodes, SameNode h h' c :=
  fun c member => sameNode_of_cell (extends'.old c (represents.stored.inUse (nodes_subset member)))

/-! ### `he_create` -/

/-- The memory after the attempts for the block of an entry. -/
def attempted (kernel : Kernel) (nonBlock : Bool) (h : Heap D) (blocks : Blocks) : Heap D :=
  { h with blocks := blocks.atAttempt (afterBlock kernel nonBlock h.blocks.attempts) }

theorem allocEntry_served {size : ℕ} (served : blockServed kernel nonBlock h.blocks.attempts = true) :
    allocEntry kernel nonBlock size h =
      .ok (some h.blocks.fresh, attempted kernel nonBlock h (h.blocks.granted size)) := by
  cases first : kernel.grants h.blocks.attempts with
  | true =>
    rw [allocEntry, bind_ok (alloc_granted size first), attempted, afterBlock, first]
    rfl
  | false =>
    rw [blockServed, first, Bool.false_or, Bool.and_eq_true] at served
    obtain ⟨retry, second⟩ := served
    rw [allocEntry, bind_ok (alloc_refused size first), attempted, afterBlock, first, retry]
    exact alloc_granted size second

theorem allocEntry_refused {size : ℕ}
    (refused : blockServed kernel nonBlock h.blocks.attempts = false) :
    allocEntry kernel nonBlock size h = .ok (none, attempted kernel nonBlock h h.blocks) := by
  rw [blockServed, Bool.or_eq_false_iff] at refused
  obtain ⟨first, second⟩ := refused
  rw [allocEntry, bind_ok (alloc_refused size first), attempted, afterBlock, first]
  cases retry : nonBlock with
  | false => rfl
  | true =>
    rw [retry, Bool.true_and] at second
    exact alloc_refused size second

/-- An entry that was just created: its blocks are new and nothing leads to it. -/
structure Created (kernel : Kernel) (h h' : Heap D) (a : Addr) (pData : Option D)
    (key : HashKey) : Prop where
  extends' : Extends h h'
  node : Node kernel h' a
  own : (blocksOf kernel h' a).Nodup
  new : ∀ x ∈ blocksOf kernel h' a, h.blocks.fresh ≤ x
  key : h'.key a = key
  pData : h'.pData a = pData
  newer : h'.pNewer a = none

/-- A granted attempt extends the memory. -/
theorem extends_granted (attempts size : ℕ) :
    Extends h { h with blocks := (h.blocks.granted size).atAttempt attempts } := by
  refine ⟨fun x older => ?_, Nat.le_succ _⟩
  simp only [cell, Blocks.atAttempt, Blocks.granted_old older]

/-- A refused attempt leaves the memory as it was. -/
theorem extends_refused (attempts : ℕ) : Extends h { h with blocks := h.blocks.atAttempt attempts } :=
  ⟨fun _ _ => rfl, Nat.le_refl _⟩

/-- Filling in a new entry extends the memory. -/
theorem extends_filled {a : Addr} (extends' : Extends h h') (new : h.blocks.fresh ≤ a)
    (pData : Option D) (key : HashKey) (size : ℕ) : Extends h (h'.filled a pData key size) := by
  refine ⟨fun x older => ?_, extends'.fresh⟩
  have other : x ≠ a := Nat.ne_of_lt (Nat.lt_of_lt_of_le older new)
  rw [← extends'.old x older]
  simp only [cell, Heap.filled, Function.update_of_ne other]

/-- Writing the shadow of a new entry extends the memory. -/
theorem extends_shadow {a : Addr} (extends' : Extends h h') (new : h.blocks.fresh ≤ a)
    (shadow : Option Addr) :
    Extends h { h' with keyShadow := Function.update h'.keyShadow a shadow } := by
  refine ⟨fun x older => ?_, extends'.fresh⟩
  have other : x ≠ a := Nat.ne_of_lt (Nat.lt_of_lt_of_le older new)
  rw [← extends'.old x older]
  simp only [cell, Function.update_of_ne other]

/-- A block that was allocated since is given back. -/
theorem extends_freed {gone : List Addr} (extends' : Extends h h')
    (new : ∀ x ∈ gone, h.blocks.fresh ≤ x) :
    Extends h (freed h' gone) := by
  refine ⟨fun x older => ?_, extends'.fresh⟩
  exact (cell_freed fun inside => Nat.not_lt_of_le (new x inside) older).trans (extends'.old x older)

/-- An entry is created by filling in its block. -/
theorem created_of_filled (extends' : Extends h h') (pData : Option D) (key : HashKey)
    (block : h'.blocks.size h.blocks.fresh = some (kernel.sizeofHashEntry + key.iSize))
    (shadow : kernel.dbg = true → h'.keyShadow h.blocks.fresh = some (h.blocks.fresh + 1) ∧
      h'.blocks.size (h.blocks.fresh + 1) = some key.iSize) :
    Created kernel h
      (h'.filled h.blocks.fresh pData key (kernel.sizeofHashEntry + key.iSize)) h.blocks.fresh pData
      key := by
  have keyed : (h'.filled h.blocks.fresh pData key (kernel.sizeofHashEntry + key.iSize)).key
      h.blocks.fresh = key :=
    Function.update_self ..
  have blocks : blocksOf kernel (h'.filled h.blocks.fresh pData key (kernel.sizeofHashEntry + key.iSize))
      h.blocks.fresh = h.blocks.fresh :: if kernel.dbg then [h.blocks.fresh + 1] else [] := by
    rw [blocksOf]
    cases dbg : kernel.dbg with
    | false => rfl
    | true => rw [if_pos rfl, if_pos rfl, Heap.filled, (shadow dbg).1, Option.toList_some]
  refine ⟨extends_filled extends' (Nat.le_refl _) .., ⟨?_, ?_, fun dbg => ⟨_, (shadow dbg).1, ?_⟩⟩,
    ?_, ?_, keyed, Function.update_self .., Function.update_self ..⟩
  · rw [keyed]
    exact block
  · rw [keyed]
    exact Function.update_self ..
  · rw [keyed]
    exact (shadow dbg).2
  · rw [blocks]
    cases kernel.dbg <;> simp
  · rw [blocks]
    cases kernel.dbg <;> simp

/-- `he_create`, with the memory that it needs. -/
theorem heCreate_served (pData : Option D) (key : HashKey)
    (served : nodeServed kernel t.nonBlock h.blocks.attempts = true) :
    ∃ h' a, heCreate kernel t pData key h = .ok (some a, h') ∧ Created kernel h h' a pData key ∧
      h'.blocks.attempts = afterNode kernel t.nonBlock h.blocks.attempts ∧
      Blocks.Accounts h.blocks [] h'.blocks (blocksOf kernel h' a) := by
  rw [nodeServed, Bool.and_eq_true] at served
  obtain ⟨block, shadow⟩ := served
  let h₁ := attempted kernel t.nonBlock h (h.blocks.granted (kernel.sizeofHashEntry + key.iSize))
  have allocated : h₁.blocks.size h.blocks.fresh = some (kernel.sizeofHashEntry + key.iSize) :=
    Function.update_self ..
  have live : h₁.blocks.live h.blocks.fresh = true := Blocks.live_of_size allocated
  have extended : Extends h h₁ := extends_granted ..
  have accounts : Blocks.Accounts h.blocks [] h₁.blocks [h.blocks.fresh] :=
    (Blocks.Accounts.of_granted ..).atAttempt _
  cases dbg : kernel.dbg with
  | false =>
    refine ⟨h₁.filled h.blocks.fresh pData key (kernel.sizeofHashEntry + key.iSize), h.blocks.fresh,
      ?_, ?_, ?_, ?_⟩
    · rw [heCreate, bind_ok (allocEntry_served block)]
      dsimp only
      rw [dbg, if_neg Bool.false_ne_true]
      exact assign_bind live
    · refine created_of_filled extended pData key allocated fun dbg' => ?_
      rw [dbg] at dbg'
      cases dbg'
    · rw [afterNode, dbg, Bool.and_false, if_neg Bool.false_ne_true]
      rfl
    · rw [blocksOf, dbg, if_neg Bool.false_ne_true]
      exact accounts
  | true =>
    rw [dbg, Bool.not_true, Bool.false_or] at shadow
    let h₂ : Heap D := { h₁ with
      blocks := h₁.blocks.granted key.iSize
      keyShadow := Function.update h.keyShadow h.blocks.fresh (some (h.blocks.fresh + 1)) }
    have allocated' : h₂.blocks.size h.blocks.fresh = some (kernel.sizeofHashEntry + key.iSize) :=
      (Function.update_of_ne (Nat.ne_of_lt (Nat.lt_succ_self _)) ..).trans allocated
    have live' : h₂.blocks.live h.blocks.fresh = true := Blocks.live_of_size allocated'
    have extended' : Extends h h₂ :=
      extends_shadow (extended.trans (extends_granted ..)) (Nat.le_refl _) (some (h.blocks.fresh + 1))
    have accounts' : Blocks.Accounts h₁.blocks [h.blocks.fresh] h₂.blocks [h.blocks.fresh + 1,
        h.blocks.fresh] :=
      (Blocks.Accounts.of_granted h₁.blocks key.iSize).append [h.blocks.fresh]
    refine ⟨h₂.filled h.blocks.fresh pData key (kernel.sizeofHashEntry + key.iSize), h.blocks.fresh,
      ?_, ?_, ?_, ?_⟩
    · have granted : alloc kernel key.iSize h₁ = _ := alloc_granted key.iSize shadow
      rw [heCreate, bind_ok (allocEntry_served block)]
      dsimp only
      rw [if_pos dbg, bind_ok granted, assign_bind, if_neg (Option.some_ne_none _)]
      · exact assign_bind live'
      · exact live'
    · exact created_of_filled extended' pData key allocated' fun _ =>
        ⟨Function.update_self .., Function.update_self ..⟩
    · rw [afterNode, block, dbg, Bool.and_true, if_pos rfl]
      rfl
    · have shadowed : h₂.keyShadow h.blocks.fresh = some (h.blocks.fresh + 1) := Function.update_self ..
      rw [blocksOf, if_pos dbg, Heap.filled, shadowed, Option.toList_some]
      exact (accounts.trans accounts').congr (fun _ => Iff.rfl) fun a => List.Perm.mem_iff (.swap ..)

/-- `he_create` that does not get the memory it needs. -/
theorem heCreate_refused (pData : Option D) (key : HashKey)
    (refused : nodeServed kernel t.nonBlock h.blocks.attempts = false) :
    ∃ h', heCreate kernel t pData key h = .ok (none, h') ∧ Extends h h' ∧
      h'.blocks.attempts = afterNode kernel t.nonBlock h.blocks.attempts ∧
      Blocks.Accounts h.blocks [] h'.blocks [] := by
  cases block : blockServed kernel t.nonBlock h.blocks.attempts with
  | false =>
    refine ⟨_, ?_, extends_refused (afterBlock kernel t.nonBlock h.blocks.attempts), ?_,
      Blocks.Accounts.refl.atAttempt _⟩
    · rw [heCreate, bind_ok (allocEntry_refused block)]
      rfl
    · rw [afterNode, block, Bool.false_and, if_neg Bool.false_ne_true]
      rfl
  | true =>
    rw [nodeServed, block, Bool.true_and, Bool.or_eq_false_iff, Bool.not_eq_false'] at refused
    obtain ⟨dbg, shadow⟩ := refused
    let h₁ := attempted kernel t.nonBlock h (h.blocks.granted (kernel.sizeofHashEntry + key.iSize))
    let h₂ : Heap D := { h₁ with
      blocks := h₁.blocks.refused, keyShadow := Function.update h.keyShadow h.blocks.fresh none }
    have allocated : h₂.blocks.size h.blocks.fresh = some (kernel.sizeofHashEntry + key.iSize) :=
      Function.update_self ..
    have live : h₂.blocks.live h.blocks.fresh = true := Blocks.live_of_size allocated
    have extended : Extends h h₂ :=
      extends_shadow ((extends_granted ..).trans (extends_refused ..)) (Nat.le_refl _) none
    have refused' : alloc kernel key.iSize h₁ = _ := alloc_refused key.iSize shadow
    have accounts : Blocks.Accounts h.blocks [] h₂.blocks [h.blocks.fresh] :=
      ((Blocks.Accounts.of_granted ..).atAttempt _).atAttempt _
    refine ⟨freed h₂ [h.blocks.fresh], ?_, extends_freed extended (by simp), ?_,
      accounts.trans (.of_without ..)⟩
    · rw [heCreate, bind_ok (allocEntry_served block)]
      dsimp only
      rw [if_pos dbg, bind_ok refused', assign_bind, if_pos rfl]
      · exact bind_ok (fnFree_freed allocated)
      · exact live
    · rw [afterNode, block, dbg, Bool.and_true, if_pos rfl]
      rfl

/-- An entry that `he_create` returns was created. -/
theorem created_of_returned {a : Addr} {pData : Option D} {key : HashKey}
    (ran : heCreate kernel t pData key h = .ok (some a, h')) : Created kernel h h' a pData key := by
  cases served : nodeServed kernel t.nonBlock h.blocks.attempts with
  | true =>
    obtain ⟨h₁, a₁, ran₁, created, -⟩ := heCreate_served pData key served
    cases ran.symm.trans ran₁
    exact created
  | false =>
    obtain ⟨h₁, refused, -⟩ := heCreate_refused pData key served
    cases ran.symm.trans refused

end FsdFilter.EntryCreation
