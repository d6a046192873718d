import FsdFilter.InsertOutcomes

/-! What `ght_insert` does to the entries as blocks of memory: which of them stay where
they are, which are freed, and which are new. An entry that is inserted comes last by
age. A rehash frees all the old entries and leaves copies. -/
namespace FsdFilter.InsertionEffects
open SizedBlocks LinkedLists StateRuns CommonHashTable TableMemory ChainEdits TableRepresentation
open TableSearch TableOperations EntryCreation TableInsertion TableCreation TableRehash
open InsertOutcomes

variable {D : Type} {kernel : Kernel} {h h' : Heap D} {t t' : HashTable D} {nodes nodes' : List Addr}
  {chain : UInt → List Addr} {a p : Addr} {b : UInt} {key : HashKey} {pData : Option D}

/-- The test of `ght_insert` for a bucket that loses its last entry. -/
def Full (t : HashTable D) (b : UInt) : Prop := t.bucketLimit ≠ 0 ∧ t.bucketLimit ≤ t.pNr b

instance (t : HashTable D) (b : UInt) : Decidable (Full t b) := inferInstanceAs (Decidable (_ ∧ _))

/-- The entries that stay when a new one is placed in a bucket, and those that are freed. -/
inductive Staying (t : HashTable D) (nodes : List Addr) (chain : UInt → List Addr) (b : UInt) :
    List Addr → List Addr → Prop
  | all (room : ¬ Full t b) : Staying t nodes chain b nodes []
  | without (full : Full t b) {p : Addr} (member : p ∈ nodes) (last : (chain b).getLast? = some p) :
      Staying t nodes chain b (nodes.erase p) [p]

theorem Staying.sublist {left gone : List Addr} (staying : Staying t nodes chain b left gone) :
    left.Sublist nodes := by
  cases staying with
  | all => exact .refl _
  | without => exact List.erase_sublist

/-- The blocks of the entries that stay, and those that are freed. -/
theorem Staying.footprint_mem {left gone : List Addr} (staying : Staying t nodes chain b left gone)
    (x : Addr) :
    x ∈ footprint kernel h t nodes ↔
      x ∈ gone.flatMap (blocksOf kernel h) ++ footprint kernel h t left := by
  cases staying with
  | all => rw [List.flatMap_nil, List.nil_append]
  | without _ member _ =>
    rw [List.flatMap_singleton]
    exact (footprint_perm member).mem_iff

/-- The new entry is placed last by age, and the blocks of the entry that gives way are
freed. -/
theorem finishInsert_effect (represents : Represents kernel h t nodes chain)
    (new : NewEntry kernel h t nodes a) :
    ∃ h' t' left gone chain', finishInsert kernel (h.key a) a t h = .ok ((.ghtOk, t'), h') ∧
      Represents kernel h' t' (left ++ [a]) chain' ∧
        Staying t nodes chain (t.bucketOf (h.key a)) left gone ∧
      h'.blocks = h.blocks.without (gone.flatMap (blocksOf kernel h)) ∧
      Blocks.Accounts h.blocks (footprint kernel h t nodes ++ blocksOf kernel h a) h'.blocks
        (footprint kernel h' t' (left ++ [a])) := by
  by_cases full : Full t (t.bucketOf (h.key a))
  · obtain ⟨p, member, last, h', t', chain', placed, -, represents', -, blocks, owned⟩ :=
      placeEntry_evicts represents new full
    have staying : Staying t nodes chain (t.bucketOf (h.key a)) _ _ := .without full member last
    refine ⟨h', t', _, _, chain', ?_, represents', staying, ?_, ?_⟩
    · rw [finishInsert, bind_ok placed, pure_run]
    · rw [blocks, List.flatMap_singleton]
    · rw [owned, blocks]
      have released := (Blocks.Accounts.of_without h.blocks (blocksOf kernel h p)).append
        (footprint kernel h t (nodes.erase p) ++ blocksOf kernel h a)
      refine released.congr (fun x => ?_) fun _ => Iff.rfl
      rw [← List.append_assoc, List.mem_append, List.mem_append, staying.footprint_mem,
        List.flatMap_singleton]
  · obtain ⟨h', t', chain', placed, -, represents', -, relinked, owned, -⟩ :=
      placeEntry_run represents new full
    refine ⟨h', t', _, _, chain', ?_, represents', .all full, ?_, ?_⟩
    · rw [finishInsert, bind_ok placed, pure_run]
    · rw [relinked.blocks, List.flatMap_nil, Blocks.without_nil]
    · rw [owned, relinked.blocks]
      exact .refl

/-! ### The whole insertion -/

/-- A new entry was inserted. -/
structure Inserted (kernel : Kernel) (h : Heap D) (t : HashTable D) (nodes : List Addr)
    (pData : Option D) (key : HashKey) (h' : Heap D) (t' : HashTable D)
    (nodes' : List Addr) : Prop where
  absent : ∀ c ∈ nodes, h.key c ≠ key
  served : nodeServed kernel t.nonBlock h.blocks.attempts = true
  ran : ghtInsert kernel t pData key h = .ok ((.ghtOk, t'), h')
  represents : ∃ chain', Represents kernel h' t' nodes' chain'
  accounts : Blocks.Accounts h.blocks (footprint kernel h t nodes) h'.blocks
    (footprint kernel h' t' nodes')

/-- What an insertion can do to the entries. -/
inductive InsertEffect (kernel : Kernel) (h : Heap D) (t : HashTable D) (nodes : List Addr)
    (chain : UInt → List Addr) (pData : Option D) (key : HashKey) : Prop
  | unchanged {code : StatusCode} {h' : Heap D} (ran : ghtInsert kernel t pData key h = .ok ((code, t), h'))
      (extends' : Extends h h') (accounts : Blocks.Accounts h.blocks [] h'.blocks [])
      (early : (∃ c ∈ nodes, h.key c = key) ∨ nodeServed kernel t.nonBlock h.blocks.attempts = false)
  | stopped (missing : ∃ n, tableServed kernel n = false)
    (ran : ghtInsert kernel t pData key h = .error .nullDereference)
  | placed {h' : Heap D} {t' : HashTable D} {left gone : List Addr} {a : Addr}
      (inserted : Inserted kernel h t nodes pData key h' t' (left ++ [a])) (sparse : overfull t = false)
      (staying : Staying t nodes chain (t.bucketOf key) left gone) (new : h.blocks.fresh ≤ a)
      (dead : ∀ x ∈ gone, h'.blocks.live x = false)
  | rebuilt {h' : Heap D} {t' : HashTable D} {nodes' : List Addr}
      (inserted : Inserted kernel h t nodes pData key h' t' nodes') (crowded : overfull t = true)
      (new : ∀ c ∈ nodes', h.blocks.fresh ≤ c) (dead : ∀ c ∈ nodes, h'.blocks.live c = false)

theorem ghtInsert_effect (represents : Represents kernel h t nodes chain) (pData : Option D)
    (key : HashKey) :
    InsertEffect kernel h t nodes chain pData key := by
  rcases present_or_absent h nodes key with ⟨c, member, rfl⟩ | absent
  · exact .unchanged (insertWith_present _ pData represents member) .refl .refl (.inl ⟨c, member, rfl⟩)
  cases served : nodeServed kernel t.nonBlock h.blocks.attempts with
  | false =>
    obtain ⟨h', ran, extends', -, accounts⟩ :=
      insertWith_refused (ghtRehash kernel) pData represents absent served
    exact .unchanged ran extends' accounts (.inr served)
  | true =>
    obtain ⟨h₁, a, created, -, accounts, ran⟩ :=
      insertWith_served (ghtRehash kernel) pData represents absent served
    have represents₁ := created.extends'.represents represents
    have new₁ := created_new created represents absent
    have aNew : h.blocks.fresh ≤ a := created.new a self_mem_blocksOf
    have same := created.extends'.sameNode represents
    have accounts₁ : Blocks.Accounts h.blocks (footprint kernel h t nodes) h₁.blocks
        (footprint kernel h₁ t nodes ++ blocksOf kernel h₁ a) := by
      rw [footprint_congr same]
      exact (accounts.append (footprint kernel h t nodes)).congr (fun _ => Iff.rfl) fun x =>
        List.perm_append_comm.mem_iff
    cases crowded : overfull t with
    | false =>
      obtain ⟨h', t', left, gone, chain', finished, represents', staying, blocks, accounts'⟩ :=
        finishInsert_effect represents₁ new₁
      rw [crowded, if_neg Bool.false_ne_true] at ran
      rw [created.key] at finished staying
      refine .placed ⟨absent, served, ran.trans finished, ⟨chain', represents'⟩,
        accounts₁.trans accounts'⟩ crowded
        staying aNew fun c member => ?_
      rw [blocks]
      exact Blocks.not_live_without (List.mem_flatMap.mpr ⟨c, member, self_mem_blocksOf⟩)
    | true =>
      rw [crowded, if_pos rfl] at ran
      by_cases fits : (2 * t.iSize).toNat ≤ 2 ^ 31 ∧ tableServed kernel h₁.blocks.attempts = true
      · obtain ⟨h₂, t₂, nodes₂, chain₂, rehashed, grows, represents₂, -, copied, accounts₂,
          newer, dead⟩ :=
          ghtRehash_run represents₁ fits.1 fits.2
        obtain ⟨new₂, kept⟩ := newEntry_after grows new₁ fun entry inside =>
          (survivors_sublist ..).subset (copied ▸ inside)
        obtain ⟨h', t', left, gone, chain', finished, represents', staying, blocks, accounts'⟩ :=
          finishInsert_effect represents₂ new₂
        rw [kept.key, created.key] at finished
        rw [kept.blocksOf_eq] at accounts'
        have accounted := (accounts₁.trans (accounts₂.append (blocksOf kernel h₁ a))).trans accounts'
        rw [bind_ok rehashed] at ran
        refine .rebuilt ⟨absent, served, ran.trans finished, ⟨chain', represents'⟩, accounted⟩ crowded
          (fun c member => ?_) fun c member => ?_
        · rcases List.mem_append.mp member with old | here
          · exact Nat.le_trans created.extends'.fresh (newer c (staying.sublist.subset old))
          · exact List.mem_singleton.mp here ▸ aNew
        · rw [blocks]
          exact Blocks.without_not_live (dead c member) _
      · obtain ⟨fault, kind, stopped⟩ := ghtRehash_faults (t := t) fits
        rw [bind_error stopped] at ran
        cases kind with
        | refused missing => exact .stopped ⟨_, missing⟩ ran
        | huge above => exact absurd above (Nat.not_lt_of_le (doubled_fits represents.indexed.sized))

end FsdFilter.InsertionEffects
