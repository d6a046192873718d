import Mathlib.Logic.Function.Iterate
import FsdFilter.InsertOutcomes

/-! Failed allocations. An insertion that fails leaves the table alone, but a rehash
drops every entry whose copy could not be allocated, and all the entries after one
without data; without memory for the new table it stops the kernel. -/
namespace FsdFilter.AllocationFailures
open SizedBlocks LinkedLists StateRuns CommonHashTable TableMemory ChainEdits TableRepresentation
open TableSearch TableOperations EntryCreation TableInsertion TableCreation TableRehash
open InsertOutcomes

variable {D : Type} {kernel : Kernel} {h h' : Heap D} {t t' : HashTable D} {nodes nodes' : List Addr}
  {chain chain' : UInt → List Addr} {key : HashKey} {pData : Option D} {iSize : UInt}

/-! ### Entries and tables -/

/-- The entries from one on, along `p_newer`. -/
def entriesFrom (h : Heap D) : ℕ → Option Addr → List (HashKey × Option D)
  | _, none => []
  | 0, some _ => []
  | fuel + 1, some a => (h.key a, h.pData a) :: entriesFrom h fuel (h.pNewer a)

/-- The keys and the data in a table, oldest first. -/
def entries (h : Heap D) (t : HashTable D) : List (HashKey × Option D) :=
  entriesFrom h h.blocks.fresh t.pOldest

theorem entriesFrom_walk (h : Heap D) (fuel : ℕ) (p : Option Addr) :
    entriesFrom h fuel p = contents h (walk h.pNewer fuel p) := by
  induction fuel generalizing p with
  | zero => cases p <;> rfl
  | succ fuel ih =>
    cases p with
    | none => rfl
    | some a =>
      rw [entriesFrom, walk, ih]
      rfl

theorem entries_eq (represents : Represents kernel h t nodes chain) :
    entries h t = contents h nodes := by
  have linked := represents.linkage.age
  have first : t.pOldest = nodes.head? := linked.next_none
  have walked : walk h.pNewer h.blocks.fresh nodes.head? = nodes :=
    linked.walk_eq (fun _ => rfl) represents.nodes_length
  rw [entries, entriesFrom_walk, first, walked]

/-- The memory holds the table, so that every operation finds its lists and counts in order. -/
def Usable (kernel : Kernel) (h : Heap D) (t : HashTable D) : Prop :=
  ∃ nodes chain, Represents kernel h t nodes chain

/-- The tables that the functions of the file lead to, whatever is allocated. The hash
function is set while the table is empty, and a callback leaves the table alone. -/
inductive Reachable (kernel : Kernel) : Heap D → HashTable D → Prop
  | created {h h' : Heap D} {t : HashTable D} {iSize : UInt} {nonBlock : Bool} (fnHash : HashKey → UInt)
      (ran : ghtCreate kernel iSize nonBlock h = .ok (some t, h')) : Reachable kernel h'
      (ghtSetHash t fnHash)
  | heuristics {h : Heap D} {t : HashTable D} (reached : Reachable kernel h t) (iHeuristics : UInt) :
      Reachable kernel h (ghtSetHeuristics t iHeuristics)
  | rehashing {h : Heap D} {t : HashTable D} (reached : Reachable kernel h t) (bRehash : Bool) :
      Reachable kernel h (ghtSetRehash t bRehash)
  | bounded {h h' : Heap D} {t t' : HashTable D} {limit : UInt} {fn : Option (BucketFree D)}
      (reached : Reachable kernel h t) (leavesAlone : ∀ code ∈ fn, LeavesAlone code)
      (ran : ghtSetBoundedBuckets t limit fn h = .ok (t', h')) : Reachable kernel h' t'
  | inserted {h h' : Heap D} {t t' : HashTable D} {pData : Option D} {key : HashKey} {code : StatusCode}
      (reached : Reachable kernel h t) (ran : ghtInsert kernel t pData key h = .ok ((code, t'), h')) :
      Reachable kernel h' t'
  | got {h h' : Heap D} {t t' : HashTable D} {pData : Option D} {key : HashKey}
      (reached : Reachable kernel h t) (ran : ghtGet t key h = .ok ((pData, t'), h')) :
      Reachable kernel h' t'
  | replaced {h h' : Heap D} {t t' : HashTable D} {pData pOld : Option D} {key : HashKey}
      (reached : Reachable kernel h t) (ran : ghtReplace t pData key h = .ok ((pOld, t'), h')) :
      Reachable kernel h' t'
  | removed {h h' : Heap D} {t t' : HashTable D} {pData : Option D} {key : HashKey}
      (reached : Reachable kernel h t) (ran : ghtRemove kernel t key h = .ok ((pData, t'), h')) :
      Reachable kernel h' t'
  | rehashed {h h' : Heap D} {t t' : HashTable D} {iSize : UInt}
      (reached : Reachable kernel h t) (ran : ghtRehash kernel t iSize h = .ok (t', h')) :
      Reachable kernel h' t'

/-! ### Every operation leaves a usable table -/

theorem usable_created {iSize : UInt} {nonBlock : Bool} (fnHash : HashKey → UInt)
    (ran : ghtCreate kernel iSize nonBlock h = .ok (some t, h')) :
    Usable kernel h' (ghtSetHash t fnHash) :=
  ⟨_, _, (createdTable_of_returned ran).represents.hashed fnHash⟩

theorem usable_inserted {code : StatusCode} (usable : Usable kernel h t)
    (ran : ghtInsert kernel t pData key h = .ok ((code, t'), h')) : Usable kernel h' t' := by
  obtain ⟨nodes, chain, represents⟩ := usable
  cases ghtInsert_outcome represents pData key with
  | unchanged ran₁ extends' _ =>
    cases ran.symm.trans ran₁
    exact ⟨_, _, extends'.represents represents⟩
  | stopped _ _ _ _ stopped => cases ran.symm.trans stopped
  | placed _ _ _ ran₁ represents₁ _ =>
    cases ran.symm.trans ran₁
    exact ⟨_, _, represents₁⟩

theorem usable_got (usable : Usable kernel h t) (ran : ghtGet t key h = .ok ((pData, t'), h')) :
    Usable kernel h' t' := by
  obtain ⟨nodes, chain, represents⟩ := usable
  rcases present_or_absent h nodes key with ⟨a, member, rfl⟩ | absent
  · obtain ⟨h₁, t₁, ran₁, -, -, chain₁, represents₁⟩ := ghtGet_present represents member
    cases ran.symm.trans ran₁
    exact ⟨_, _, represents₁⟩
  · cases ran.symm.trans (ghtGet_absent represents absent)
    exact ⟨_, _, represents⟩

theorem usable_replaced {pOld : Option D} (usable : Usable kernel h t)
    (ran : ghtReplace t pData key h = .ok ((pOld, t'), h')) : Usable kernel h' t' := by
  obtain ⟨nodes, chain, represents⟩ := usable
  rcases present_or_absent h nodes key with ⟨a, member, rfl⟩ | absent
  · obtain ⟨h₁, t₁, ran₁, -, -, chain₁, represents₁⟩ :=
      ghtReplace_present represents member pData
    cases ran.symm.trans ran₁
    exact ⟨_, _, Represents.withData represents₁ a pData⟩
  · cases ran.symm.trans (ghtReplace_absent represents absent pData)
    exact ⟨_, _, represents⟩

theorem usable_removed (usable : Usable kernel h t)
    (ran : ghtRemove kernel t key h = .ok ((pData, t'), h')) :
    Usable kernel h' t' := by
  obtain ⟨nodes, chain, represents⟩ := usable
  rcases present_or_absent h nodes key with ⟨a, member, rfl⟩ | absent
  · obtain ⟨h₁, t₁, chain₁, ran₁, -, represents₁, -⟩ := ghtRemove_present represents member
    cases ran.symm.trans ran₁
    exact ⟨_, _, represents₁⟩
  · cases ran.symm.trans (ghtRemove_absent represents absent)
    exact ⟨_, _, represents⟩

theorem usable_rehashed (usable : Usable kernel h t) (ran : ghtRehash kernel t iSize h = .ok (t', h')) :
    Usable kernel h' t' := by
  obtain ⟨nodes, chain, represents⟩ := usable
  by_cases served : iSize.toNat ≤ 2 ^ 31 ∧ tableServed kernel h.blocks.attempts = true
  · obtain ⟨h₁, t₁, nodes₁, chain₁, ran₁, -, represents₁, -⟩ :=
      ghtRehash_run represents served.1 served.2
    cases ran.symm.trans ran₁
    exact ⟨_, _, represents₁⟩
  · obtain ⟨fault, -, stopped⟩ := ghtRehash_faults (t := t) served
    cases ran.symm.trans stopped

/-- Every reachable table is in order. -/
theorem Reachable.usable (reached : Reachable kernel h t) : Usable kernel h t := by
  induction reached with
  | created fnHash ran => exact usable_created fnHash ran
  | heuristics _ iHeuristics ih =>
    obtain ⟨nodes, chain, represents⟩ := ih
    exact ⟨_, _, represents.configured iHeuristics _ represents.indexed.bounded⟩
  | rehashing _ bRehash ih =>
    obtain ⟨nodes, chain, represents⟩ := ih
    exact ⟨_, _, represents.configured _ bRehash represents.indexed.bounded⟩
  | bounded _ leavesAlone ran ih =>
    obtain ⟨nodes, chain, represents⟩ := ih
    have bounded := bounded_of_set leavesAlone ran
    cases (ghtSetBoundedBuckets_run bounded).symm.trans ran
    exact ⟨_, _, represents.configured _ _ bounded⟩
  | inserted _ ran ih => exact usable_inserted ih ran
  | got _ ran ih => exact usable_got ih ran
  | replaced _ ran ih => exact usable_replaced ih ran
  | removed _ ran ih => exact usable_removed ih ran
  | rehashed _ ran ih => exact usable_rehashed ih ran

/-! ### What is kept -/

/-- All entries are still there with their data and in their order, in a usable table. -/
structure Keeps (kernel : Kernel) (h : Heap D) (t : HashTable D) (h' : Heap D)
    (t' : HashTable D) : Prop where
  kept : (entries h t).Sublist (entries h' t')
  usable : Usable kernel h' t'

/-- `ght_insert` returns and loses nothing; when it fails, it leaves the table and all
memory that was in use as they were. -/
def InsertKeeps (kernel : Kernel) (h : Heap D) (t : HashTable D) (pData : Option D)
    (key : HashKey) : Prop :=
  ∃ code t' h', ghtInsert kernel t pData key h = .ok ((code, t'), h') ∧ Keeps kernel h t h' t' ∧
    (code ≠ .ghtOk → t' = t ∧ Extends h h')

/-- `ght_rehash` returns and loses nothing. -/
def RehashKeeps (kernel : Kernel) (h : Heap D) (t : HashTable D) (iSize : UInt) : Prop :=
  ∃ t' h', ghtRehash kernel t iSize h = .ok (t', h') ∧ Keeps kernel h t h' t'

/-- A rehash gets all the memory that it needs, and all entries have data. -/
def RehashServed (kernel : Kernel) (attempts : ℕ) (t : HashTable D) (iSize : UInt)
    (all : List (HashKey × Option D)) :
    Prop :=
  iSize.toNat ≤ 2 ^ 31 ∧ tableServed kernel attempts = true ∧
    allServed kernel t.nonBlock (attempts + 3) all.length = true ∧ ∀ entry ∈ all, entry.2 ≠ none

/-- An insertion does not get to add an entry, or the rehash before it is served and
the bucket has room. -/
def InsertServed (kernel : Kernel) (attempts : ℕ) (t : HashTable D) (key : HashKey)
    (all : List (HashKey × Option D)) :
    Prop :=
  key ∈ all.map Prod.fst ∨ nodeServed kernel t.nonBlock attempts = false ∨
    (overfull t = true → RehashServed kernel (afterNode kernel t.nonBlock attempts) t (2 * t.iSize) all) ∧
      hasRoom t (placementMask t) all key = true

/-- Nothing is kept in place of what is missing. -/
theorem sublist_of_append {α : Type} {l left : List α} {x : α} (sublist : l.Sublist (left ++ [x]))
    (other : x ∉ l) :
    l.Sublist left := by
  obtain ⟨first, last, rfl, inLeft, inLast⟩ := List.sublist_append_iff.mp sublist
  cases last with
  | nil => rwa [List.append_nil]
  | cons y rest =>
    have same : y = x := List.mem_singleton.mp (inLast.subset List.mem_cons_self)
    exact absurd (same ▸ List.mem_append_right first List.mem_cons_self) other

/-- Nothing is lost exactly when all entries are retained and there is room. -/
theorem kept_iff {room : Bool} {all base result : List (HashKey × Option D)}
    (retained : base.Sublist all) (placed : Placed room base (key, pData) result)
    (absent : key ∉ all.map Prod.fst) :
    all.Sublist result ↔ base = all ∧ room = true := by
  obtain ⟨left, sublist, rfl, count⟩ := placed
  constructor
  · intro kept
    have whole := sublist_of_append kept fun inside => absent (List.mem_map_of_mem inside)
    have longest := whole.length_le
    have shorter := retained.length_le
    cases room with
    | true => exact ⟨retained.eq_of_length_le (Nat.le_trans longest sublist.length_le), rfl⟩
    | false =>
      rw [if_neg Bool.false_ne_true] at count
      omega
  · rintro ⟨rfl, rfl⟩
    have all := sublist.eq_of_length count
    exact all ▸ List.sublist_append_left ..

/-- The entries that are retained are all of them when the rehash is served. -/
theorem retained_eq_iff {attempts : ℕ} {all : List (HashKey × Option D)}
    (sized : WellSized t.iSize t.iSizeMask)
    (memory : overfull t = true → tableServed kernel (afterNode kernel t.nonBlock attempts) = true) :
    retained kernel attempts t all = all ↔
      (overfull t = true → RehashServed kernel (afterNode kernel t.nonBlock attempts) t
        (2 * t.iSize) all) := by
  rw [retained]
  cases crowded : overfull t with
  | false => simp
  | true =>
    rw [if_pos rfl, survivors_eq_iff]
    exact ⟨fun served _ => ⟨doubled_fits sized, memory crowded, served⟩, fun served => (served rfl).2.2⟩

theorem retained_sublist (kernel : Kernel) (attempts : ℕ) (t : HashTable D)
    (all : List (HashKey × Option D)) :
    (retained kernel attempts t all).Sublist all := by
  rw [retained]
  split
  · exact survivors_sublist ..
  · exact List.Sublist.refl _

/-- An insertion keeps everything exactly when it is served. -/
theorem insertKeeps_iff (represents : Represents kernel h t nodes chain) (pData : Option D)
    (key : HashKey) :
    InsertKeeps kernel h t pData key ↔ InsertServed kernel h.blocks.attempts t key (entries h t) := by
  rw [entries_eq represents]
  cases ghtInsert_outcome represents pData key with
  | @unchanged code h₁ ran extends' early =>
    have represents₁ := extends'.represents represents
    have same : contents h₁ nodes = contents h nodes := contents_congr (extends'.sameNode represents)
    have kept : Keeps kernel h t h₁ t := by
      refine ⟨?_, _, _, represents₁⟩
      rw [entries_eq represents, entries_eq represents₁, same]
    exact iff_of_true ⟨code, t, h₁, ran, kept, fun _ => ⟨rfl, extends'⟩⟩ (early.imp_right .inl)
  | stopped absent served crowded missing stopped =>
    refine iff_of_false ?_ ?_
    · rintro ⟨code, t₁, h₁, ran, -⟩
      cases ran.symm.trans stopped
    · rintro (present | refused | ⟨rehashServed, -⟩)
      · exact absent_key absent present
      · exact Bool.false_ne_true (refused.symm.trans served)
      · exact Bool.false_ne_true (missing.symm.trans (rehashServed crowded).2.1)
  | @placed h₁ t₁ nodes₁ chain₁ absent served memory ran represents₁ entry =>
    have missingKey := absent_key absent
    have condition : InsertServed kernel h.blocks.attempts t key (contents h nodes) ↔
        retained kernel h.blocks.attempts t (contents h nodes) = contents h nodes ∧
          hasRoom t (placementMask t) (contents h nodes) key = true := by
      rw [InsertServed, served, retained_eq_iff represents.indexed.sized memory]
      simp [missingKey]
    have kept : InsertKeeps kernel h t pData key ↔ (contents h nodes).Sublist (contents h₁ nodes₁) := by
      constructor
      · rintro ⟨code, t₂, h₂, ran₂, ⟨kept, -⟩, -⟩
        cases ran.symm.trans ran₂
        rwa [entries_eq represents, entries_eq represents₁] at kept
      · intro kept
        refine ⟨_, t₁, h₁, ran, ⟨?_, _, _, represents₁⟩, fun failed => absurd rfl failed⟩
        rwa [entries_eq represents, entries_eq represents₁]
    rw [kept, kept_iff (retained_sublist ..) entry missingKey, condition]
    refine and_congr_right fun same => ?_
    rw [placementRoom, same]

/-- A rehash keeps everything exactly when it is served. -/
theorem rehashKeeps_iff (represents : Represents kernel h t nodes chain) (iSize : UInt) :
    RehashKeeps kernel h t iSize ↔ RehashServed kernel h.blocks.attempts t iSize (entries h t) := by
  rw [entries_eq represents]
  by_cases served : iSize.toNat ≤ 2 ^ 31 ∧ tableServed kernel h.blocks.attempts = true
  · obtain ⟨h₁, t₁, nodes₁, chain₁, ran, -, represents₁, -, copied, -⟩ :=
      ghtRehash_run represents served.1 served.2
    have all : RehashKeeps kernel h t iSize ↔
        survivors kernel t.nonBlock (h.blocks.attempts + 3) (contents h nodes) = contents h nodes := by
      constructor
      · rintro ⟨t₂, h₂, ran₂, kept, -⟩
        cases ran.symm.trans ran₂
        rw [entries_eq represents, entries_eq represents₁, copied] at kept
        exact (survivors_sublist ..).antisymm kept
      · intro same
        refine ⟨t₁, h₁, ran, ?_, _, _, represents₁⟩
        rw [entries_eq represents, entries_eq represents₁, copied, same]
    rw [all, survivors_eq_iff, RehashServed]
    exact ⟨fun entries => ⟨served.1, served.2, entries⟩, fun whole => whole.2.2⟩
  · obtain ⟨fault, -, stopped⟩ := ghtRehash_faults (t := t) served
    refine iff_of_false ?_ fun whole => served ⟨whole.1, whole.2.1⟩
    rintro ⟨t₁, h₁, ran, -⟩
    cases ran.symm.trans stopped

/-- Which failed allocations lose entries. -/
theorem nothingLost_iff (reached : Reachable kernel h t) :
    (∀ (pData : Option D) (key : HashKey),
      InsertKeeps kernel h t pData key ↔ InsertServed kernel h.blocks.attempts t key (entries h t)) ∧
    ∀ iSize : UInt, RehashKeeps kernel h t iSize ↔
    RehashServed kernel h.blocks.attempts t iSize (entries h t) := by
  obtain ⟨nodes, chain, represents⟩ := reached.usable
  exact ⟨insertKeeps_iff represents, rehashKeeps_iff represents⟩

/-! ### Tables that lose entries -/

/-- A reachable table whose entries are these. It has no limit and does not rehash by
itself. -/
structure Holding (kernel : Kernel) (h : Heap D) (t : HashTable D)
    (all : List (HashKey × Option D)) : Prop where
  reached : Reachable kernel h t
  represents : ∃ nodes chain, Represents kernel h t nodes chain ∧ contents h nodes = all
  bucketLimit : t.bucketLimit = 0
  iAutomaticRehash : t.iAutomaticRehash = false
  nonBlock : t.nonBlock = true
  iSizeMask : t.iSizeMask = newMask 8

theorem Holding.entries_eq {all : List (HashKey × Option D)} (holds : Holding kernel h t all) :
    entries h t = all := by
  obtain ⟨nodes, chain, represents, rfl⟩ := holds.represents
  exact AllocationFailures.entries_eq represents

/-- A new table holds nothing. -/
theorem holding_created (fnHash : HashKey → UInt) (served : tableServed kernel 0 = true) :
    ∃ (h : Heap D) (t : HashTable D), Holding kernel h t [] ∧ h.blocks.attempts = 3 := by
  have fits : (8 : UInt).toNat ≤ 2 ^ 31 := by decide
  obtain ⟨h, t, ran, created, nonBlock, mask, -⟩ :=
    ghtCreate_served (h := (Heap.empty : Heap D)) fits true served
  have represents : Represents kernel h (ghtSetHash t fnHash) [] fun _ => [] :=
    created.represents.hashed fnHash
  exact ⟨h, ghtSetHash t fnHash, ⟨.created fnHash ran, ⟨[], _, represents, rfl⟩, created.bucketLimit,
    created.iAutomaticRehash, nonBlock, mask⟩, created.attempts⟩

/-- An insertion that gets its memory adds an entry. -/
theorem Holding.insert {all : List (HashKey × Option D)} (holds : Holding kernel h t all)
    (absent : key ∉ all.map Prod.fst) (served : nodeServed kernel true h.blocks.attempts = true)
    (pData : Option D) :
    ∃ h' t', Holding kernel h' t' (all ++ [(key, pData)]) ∧
      h'.blocks.attempts = afterNode kernel true h.blocks.attempts := by
  obtain ⟨reached, ⟨nodes, chain, represents, rfl⟩, limit, still, nonBlock, mask⟩ := holds
  have unknown : ∀ c ∈ nodes, h.key c ≠ key := by
    rintro c member rfl
    exact absent (List.mem_map.mpr ⟨_, List.mem_map_of_mem member, rfl⟩)
  obtain ⟨status, h', t', nodes', chain', ran, grows, represents', attempts, mask', contents', -⟩ :=
    insertWith_grows (ghtRehash kernel) represents unknown limit still pData
  rw [nonBlock] at attempts contents'
  rw [if_pos served] at contents'
  exact ⟨h', t', ⟨.inserted reached ran, ⟨nodes', chain', represents', contents'⟩,
    grows.config.bucketLimit.trans limit, grows.config.iAutomaticRehash.trans still,
    grows.config.nonBlock.trans nonBlock, mask'.trans mask⟩, attempts⟩

/-- Entries with different keys are added one after the other. -/
theorem Holding.inserts {all more : List (HashKey × Option D)} (holds : Holding kernel h t all)
    (distinct : ((all ++ more).map Prod.fst).Nodup)
    (served : allServed kernel true h.blocks.attempts more.length = true) :
    ∃ h' t', Holding kernel h' t' (all ++ more) ∧
      h'.blocks.attempts = (afterNode kernel true)^[more.length] h.blocks.attempts := by
  induction more generalizing h t all with
  | nil => exact ⟨h, t, (List.append_nil all).symm ▸ holds, rfl⟩
  | cons entry rest ih =>
    rw [List.length_cons, allServed, Bool.and_eq_true] at served
    have absent : entry.1 ∉ all.map Prod.fst := by
      intro inside
      rw [List.map_append] at distinct
      exact (List.nodup_append.mp distinct).2.2 _ inside _ (List.mem_map_of_mem List.mem_cons_self) rfl
    obtain ⟨h₁, t₁, holds₁, attempts⟩ := holds.insert absent served.1 entry.2
    have joined : all ++ [(entry.1, entry.2)] ++ rest = all ++ entry :: rest := List.append_assoc ..
    rw [← joined] at distinct ⊢
    rw [← attempts] at served
    obtain ⟨h', t', holds', attempts'⟩ := ih holds₁ distinct served.2
    exact ⟨h', t', holds', attempts'.trans (congrArg _ attempts)⟩

/-- A table can hold any entries with different keys, if there is memory for them. -/
theorem holding_reachable (kernel : Kernel) (fnHash : HashKey → UInt) {all : List (HashKey × Option D)}
    (distinct : (all.map Prod.fst).Nodup) (table : tableServed kernel 0 = true)
    (served : allServed kernel true 3 all.length = true) :
    ∃ (h : Heap D) (t : HashTable D), Holding kernel h t all ∧
      h.blocks.attempts = (afterNode kernel true)^[all.length] 3 := by
  obtain ⟨h₁, t₁, created, attempts⟩ := holding_created (D := D) fnHash table
  rw [← attempts] at served ⊢
  exact created.inserts distinct served

/-- No memory is left after so many attempts. -/
def exhausted (attempts : ℕ) : Kernel := ⟨false, fun n => n < attempts⟩

/-- Three entries, the last one without data. -/
def threeEntries : List (HashKey × Option ℕ) :=
  [(byteKey 1, some 1), (byteKey 2, some 2), (byteKey 3, none)]

/-- The conditions at a table with three entries; its rehash would get memory for two. -/
theorem nothingLost_iff_threeEntries :
    ∃ (h : Heap ℕ) (t : HashTable ℕ), Reachable (exhausted 11) h t ∧ entries h t = threeEntries ∧
    (∀ (pData : Option ℕ) (key : HashKey), InsertKeeps (exhausted 11) h t pData key ↔
      InsertServed (exhausted 11) h.blocks.attempts t key (entries h t)) ∧
    ∀ iSize : UInt, RehashKeeps (exhausted 11) h t iSize ↔
      RehashServed (exhausted 11) h.blocks.attempts t iSize (entries h t) := by
  obtain ⟨h, t, holds, -⟩ := holding_reachable (exhausted 11) ghtOneAtATimeHash
    (by decide : (threeEntries.map Prod.fst).Nodup) rfl rfl
  exact ⟨h, t, holds.reached, holds.entries_eq, nothingLost_iff holds.reached⟩

/-- A rehash that cannot copy the only entry loses it. -/
theorem ghtRehash_loses : ∃ (h h' : Heap ℕ) (t t' : HashTable ℕ), Reachable (exhausted 7) h t ∧
    entries h t = [(byteKey 1, some 1)] ∧ ghtRehash (exhausted 7) t 16 h = .ok (t', h') ∧
    entries h' t' = [] ∧
      ¬ RehashKeeps (exhausted 7) h t 16 := by
  obtain ⟨h, t, holds, attempts⟩ := holding_reachable (exhausted 7) ghtOneAtATimeHash
    (by decide : ([(byteKey 1, some 1)].map Prod.fst).Nodup) rfl rfl
  have nonBlock := holds.nonBlock
  obtain ⟨nodes, chain, represents, all⟩ := holds.represents
  have served : tableServed (exhausted 7) h.blocks.attempts = true := by
    rw [attempts]
    rfl
  have fits : (16 : UInt).toNat ≤ 2 ^ 31 := by decide
  obtain ⟨h', t', nodes', chain', ran, -, represents', -, copied, -⟩ :=
    ghtRehash_run represents fits served
  rw [all, attempts, nonBlock] at copied
  have nothing : entries h' t' = [] := (entries_eq represents').trans copied
  refine ⟨h, h', t, t', holds.reached, holds.entries_eq, ran, nothing, ?_⟩
  rintro ⟨t₁, h₁, ran₁, kept, -⟩
  cases ran.symm.trans ran₁
  rw [nothing, holds.entries_eq] at kept
  cases kept

end FsdFilter.AllocationFailures
