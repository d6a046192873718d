import FsdFilter.TableRehash

/-! What `ght_insert` leaves, as a function of what it found: a table that is over its
size is rehashed first, with the losses of that, and a bucket at its limit gives up
its last entry. -/
namespace FsdFilter.InsertOutcomes
open SizedBlocks LinkedLists StateRuns CommonHashTable TableMemory ChainEdits TableRepresentation
open TableSearch TableOperations EntryCreation TableInsertion TableCreation TableRehash

variable {D : Type} {kernel : Kernel} {h h' : Heap D} {t t' : HashTable D} {nodes nodes' : List Addr}
  {chain chain' : UInt → List Addr} {a : Addr} {b : UInt} {key : HashKey} {pData : Option D}

/-! ### Which entries survive -/

theorem survivors_sublist (kernel : Kernel) (nonBlock : Bool) (n : ℕ)
    (entries : List (HashKey × Option D)) :
    (survivors kernel nonBlock n entries).Sublist entries := by
  induction entries generalizing n with
  | nil => exact List.Sublist.refl _
  | cons entry rest ih =>
    obtain ⟨key, data⟩ := entry
    cases data with
    | none => exact List.nil_sublist _
    | some data =>
      rw [survivors]
      split
      · exact (ih _).cons_cons _
      · exact (ih _).cons _

/-- So many entries in a row are created. -/
def allServed (kernel : Kernel) (nonBlock : Bool) : ℕ → ℕ → Bool
  | _, 0 => true
  | n, count + 1 =>
    nodeServed kernel nonBlock n && allServed kernel nonBlock (afterNode kernel nonBlock n) count

/-- All entries survive when there is memory for each of them, and each has data. -/
theorem survivors_eq_iff {nonBlock : Bool} {n : ℕ} {entries : List (HashKey × Option D)} :
    survivors kernel nonBlock n entries = entries ↔
      allServed kernel nonBlock n entries.length = true ∧ ∀ entry ∈ entries, entry.2 ≠ none := by
  induction entries generalizing n with
  | nil => simp [survivors, allServed]
  | cons entry rest ih =>
    obtain ⟨key, data⟩ := entry
    cases data with
    | none => simp [survivors]
    | some data =>
      cases served : nodeServed kernel nonBlock n with
      | true => simp [survivors, allServed, served, ih]
      | false =>
        have shorter := (survivors_sublist kernel nonBlock (afterNode kernel nonBlock n) rest).length_le
        have lost : survivors kernel nonBlock (afterNode kernel nonBlock n) rest ≠
            (key, some data) :: rest := by
          intro same
          rw [same, List.length_cons] at shorter
          exact Nat.not_succ_le_self _ shorter
        simp [survivors, allServed, served, lost]

/-! ### The room in a bucket -/

/-- A bucket takes one more entry: there is no limit, or it is not reached. -/
def hasRoom (t : HashTable D) (iSizeMask : UInt) (entries : List (HashKey × Option D))
    (key : HashKey) : Bool :=
  t.bucketLimit = 0 ||
    BitVec.ofNat 32
    (entries.countP fun entry => t.fnHash entry.1 &&& iSizeMask = t.fnHash key &&& iSizeMask) <
      t.bucketLimit

/-- The entries of a bucket are those with its hash. -/
theorem chain_count (represents : Represents kernel h t nodes chain) (b : UInt) :
    (chain b).length = (contents h nodes).countP fun entry => t.bucketOf entry.1 = b := by
  have same : (chain b).Perm (nodes.filter fun c => t.bucketOf (h.key c) = b) := by
    refine (List.perm_ext_iff_of_nodup (represents.linkage.chainDistinct b)
      (represents.linkage.distinct.filter _)).mpr fun c => ?_
    rw [represents.indexed.inChain, List.mem_filter, decide_eq_true_eq]
  rw [same.length_eq, contents, List.countP_map, List.countP_eq_length_filter]
  rfl

theorem hasRoom_iff (represents : Represents kernel h t nodes chain) (key : HashKey) :
    hasRoom t t.iSizeMask (contents h nodes) key = true ↔
      ¬ (t.bucketLimit ≠ 0 ∧ t.bucketLimit ≤ t.pNr (t.bucketOf key)) := by
  have count := chain_count represents (t.bucketOf key)
  rw [represents.indexed.nr, count, hasRoom, Bool.or_eq_true, decide_eq_true_eq,
    decide_eq_true_eq, not_and_or, not_not, BitVec.not_le]
  rfl

theorem hasRoom_congr (config : SameConfig t t') (iSizeMask : UInt)
    (entries : List (HashKey × Option D)) :
    hasRoom t' iSizeMask entries key = hasRoom t iSizeMask entries key := by
  rw [hasRoom, config.bucketLimit, config.fnHash]
  rfl

/-! ### The new entry is placed -/

/-- The new entry is the last one, after all the others or, without room, all but one. -/
def Placed (room : Bool) (entries : List (HashKey × Option D)) (entry : HashKey × Option D)
    (entries' : List (HashKey × Option D)) : Prop :=
  ∃ left, left.Sublist entries ∧ entries' = left ++ [entry] ∧
    left.length + (if room then 0 else 1) = entries.length

theorem Placed.all {room : Bool} {entries entries' : List (HashKey × Option D)}
    {entry : HashKey × Option D} (placed : Placed room entries entry entries')
    (roomy : room = true) : entries' = entries ++ [entry] := by
  obtain ⟨left, sublist, whole, count⟩ := placed
  rw [roomy, if_pos rfl] at count
  rw [whole, sublist.eq_of_length count]

/-- `ght_insert` with the entry that it created. -/
theorem finishInsert_run (represents : Represents kernel h t nodes chain)
    (new : NewEntry kernel h t nodes a) :
    ∃ h' t' nodes' chain', finishInsert kernel (h.key a) a t h = .ok ((.ghtOk, t'), h') ∧
      SameConfig t t' ∧ Represents kernel h' t' nodes' chain' ∧
      Placed (hasRoom t t.iSizeMask (contents h nodes) (h.key a)) (contents h nodes)
      (h.key a, h.pData a)
        (contents h' nodes') := by
  cases room : hasRoom t t.iSizeMask (contents h nodes) (h.key a) with
  | true =>
    obtain ⟨h', t', chain', placed, config, represents', contents', -⟩ :=
      placeEntry_run represents new ((hasRoom_iff represents _).mp room)
    refine ⟨h', t', _, chain', ?_, config, represents', contents h nodes, .refl _, contents', rfl⟩
    rw [finishInsert, bind_ok placed, pure_run]
  | false =>
    have full := not_not.mp (mt (hasRoom_iff represents _).mpr (ne_true_of_eq_false room))
    obtain ⟨p, member, -, h', t', chain', placed, config, represents', contents', -⟩ :=
      placeEntry_evicts represents new full
    refine ⟨h', t', _, chain', ?_, config, represents', contents h (nodes.erase p),
      List.erase_sublist.map _, contents', ?_⟩
    · rw [finishInsert, bind_ok placed, pure_run]
    · rw [contents, contents, List.length_map, List.length_map, List.length_erase_of_mem member,
        if_neg Bool.false_ne_true]
      exact Nat.sub_add_cancel (List.length_pos_of_mem member)

/-- A rehash does not touch the entry that waits to be placed. -/
theorem newEntry_after (grows : Grows kernel h t nodes h' t' nodes') (new : NewEntry kernel h t nodes a)
    (copied : ∀ entry ∈ contents h' nodes', entry ∈ contents h nodes) :
    NewEntry kernel h' t' nodes' a ∧ SameNode h h' a := by
  have kept : ∀ x ∈ blocksOf kernel h a, cell h' x = cell h x :=
    fun x block => grows.outside x (new.node.inUse block) (new.apart x block)
  have here := kept a self_mem_blocksOf
  have same := sameNode_of_cell here
  refine ⟨⟨new.node.congr fun x block => sameNode_of_cell (kept x block), ?_, fun x block inside => ?_, ?_,
    fun c member => ?_⟩, same⟩
  · rw [same.blocksOf_eq]
    exact new.own
  · rw [same.blocksOf_eq] at block
    rcases grows.inside x inside with within | newer
    · exact new.apart x block within
    · exact Nat.not_lt_of_le newer (new.node.inUse block)
  · exact (congrArg Cell.pNewer here).trans new.newer
  · obtain ⟨e, old, entry⟩ := List.mem_map.mp (copied _ (List.mem_map_of_mem member))
    have one : h.key e = h'.key c := congrArg Prod.fst entry
    rw [← one, same.key]
    exact new.key e old

/-! ### The outcomes -/

section Outcomes
variable (kernel : Kernel) (n : ℕ) (t : HashTable D) (entries : List (HashKey × Option D))

/-- The entries that a table still has when the new one is placed; `n` attempts to
allocate were made. -/
def retained : List (HashKey × Option D) :=
  if overfull t then survivors kernel t.nonBlock (afterNode kernel t.nonBlock n + 3) entries
  else entries

/-- The mask when the new entry is placed. -/
def placementMask : UInt := if overfull t then newMask (2 * t.iSize) else t.iSizeMask

/-- There is room for the new entry when it is placed. -/
def placementRoom (key : HashKey) : Bool :=
  hasRoom t (placementMask t) (retained kernel n t entries) key

end Outcomes

/-- A table that is over its size is rehashed before the new entry is placed. -/
theorem ghtInsert_placed (represents : Represents kernel h t nodes chain)
    (absent : ∀ c ∈ nodes, h.key c ≠ key)
    (served : nodeServed kernel t.nonBlock h.blocks.attempts = true) (pData : Option D)
    (memory : overfull t = true → tableServed kernel (afterNode kernel t.nonBlock h.blocks.attempts) = true) :
    ∃ h' t' nodes' chain', ghtInsert kernel t pData key h = .ok ((.ghtOk, t'), h') ∧ SameConfig t t' ∧
      Represents kernel h' t' nodes' chain' ∧
      Placed (placementRoom kernel h.blocks.attempts t (contents h nodes) key)
        (retained kernel h.blocks.attempts t (contents h nodes)) (key, pData) (contents h' nodes') := by
  obtain ⟨h₁, a, created, attempts, -, ran⟩ :=
    insertWith_served (ghtRehash kernel) pData represents absent served
  have represents₁ := created.extends'.represents represents
  have new₁ := created_new created represents absent
  have same : contents h₁ nodes = contents h nodes :=
    contents_congr (created.extends'.sameNode represents)
  rw [placementRoom, placementMask, retained]
  cases crowded : overfull t with
  | false =>
    obtain ⟨h', t', nodes', chain', finished, config, represents', placed⟩ :=
      finishInsert_run represents₁ new₁
    rw [created.key, created.pData, same] at placed
    rw [created.key] at finished
    refine ⟨h', t', nodes', chain', ?_, config, represents', placed⟩
    rw [crowded, if_neg Bool.false_ne_true] at ran
    exact ran.trans finished
  | true =>
    obtain ⟨h₂, t₂, nodes₂, chain₂, rehashed, grows, represents₂, mask, copied, -⟩ :=
      ghtRehash_run represents₁ (doubled_fits represents.indexed.sized)
        ((congrArg _ attempts).trans (memory crowded))
    rw [attempts, same] at copied
    obtain ⟨new₂, kept⟩ := newEntry_after grows new₁ fun entry inside => by
      rw [same]
      exact (survivors_sublist ..).subset (copied ▸ inside)
    obtain ⟨h', t', nodes', chain', finished, config, represents', placed⟩ :=
      finishInsert_run represents₂ new₂
    rw [kept.key, kept.pData, created.key, created.pData, mask, copied, hasRoom_congr grows.config] at placed
    rw [kept.key, created.key] at finished
    refine ⟨h', t', nodes', chain', ?_, grows.config.trans config, represents', placed⟩
    rw [crowded, if_pos rfl, bind_ok rehashed] at ran
    exact ran.trans finished

/-- A table that is over its size, without the memory for a larger one, stops the kernel. -/
theorem ghtInsert_faults (represents : Represents kernel h t nodes chain)
    (absent : ∀ c ∈ nodes, h.key c ≠ key)
    (served : nodeServed kernel t.nonBlock h.blocks.attempts = true) (pData : Option D)
    (crowded : overfull t = true)
    (missing : tableServed kernel (afterNode kernel t.nonBlock h.blocks.attempts) = false) :
    ∃ fault, ghtInsert kernel t pData key h = .error fault := by
  obtain ⟨h₁, a, created, attempts, -, ran⟩ :=
    insertWith_served (ghtRehash kernel) pData represents absent served
  have fails : ¬ ((2 * t.iSize).toNat ≤ 2 ^ 31 ∧ tableServed kernel h₁.blocks.attempts = true) := by
    rintro ⟨-, granted⟩
    rw [attempts, missing] at granted
    cases granted
  obtain ⟨fault, -, stopped⟩ := ghtRehash_faults (t := t) fails
  refine ⟨fault, ?_⟩
  rw [crowded, if_pos rfl, bind_error stopped] at ran
  exact ran

/-- What an insertion can do: leave the table alone, stop the kernel in the rehash, or
place a new entry. -/
inductive InsertOutcome (kernel : Kernel) (h : Heap D) (t : HashTable D) (nodes : List Addr)
    (pData : Option D) (key : HashKey) : Prop
  | unchanged {code : StatusCode} {h' : Heap D} (ran : ghtInsert kernel t pData key h = .ok ((code, t), h'))
      (extends' : Extends h h')
      (early : key ∈ (contents h nodes).map Prod.fst ∨ nodeServed kernel t.nonBlock h.blocks.attempts = false)
  | stopped {fault : Fault} (absent : ∀ c ∈ nodes, h.key c ≠ key)
      (served : nodeServed kernel t.nonBlock h.blocks.attempts = true) (crowded : overfull t = true)
      (missing : tableServed kernel (afterNode kernel t.nonBlock h.blocks.attempts) = false)
      (ran : ghtInsert kernel t pData key h = .error fault)
  | placed {h' : Heap D} {t' : HashTable D} {nodes' : List Addr} {chain' : UInt → List Addr}
      (absent : ∀ c ∈ nodes, h.key c ≠ key) (served : nodeServed kernel t.nonBlock h.blocks.attempts = true)
      (memory : overfull t = true → tableServed kernel (afterNode kernel t.nonBlock h.blocks.attempts) = true)
      (ran : ghtInsert kernel t pData key h = .ok ((.ghtOk, t'), h'))
      (represents' : Represents kernel h' t' nodes' chain')
      (entry : Placed (placementRoom kernel h.blocks.attempts t (contents h nodes) key)
        (retained kernel h.blocks.attempts t (contents h nodes)) (key, pData) (contents h' nodes'))

theorem ghtInsert_outcome (represents : Represents kernel h t nodes chain) (pData : Option D)
    (key : HashKey) :
    InsertOutcome kernel h t nodes pData key := by
  rcases present_or_absent h nodes key with ⟨a, member, rfl⟩ | absent
  · exact .unchanged (insertWith_present _ pData represents member) .refl (.inl (present_key member))
  cases served : nodeServed kernel t.nonBlock h.blocks.attempts with
  | false =>
    obtain ⟨h', ran, extends', -⟩ :=
      insertWith_refused (ghtRehash kernel) pData represents absent served
    exact .unchanged ran extends' (.inr served)
  | true =>
    by_cases memory : overfull t = true →
      tableServed kernel (afterNode kernel t.nonBlock h.blocks.attempts) = true
    · obtain ⟨h', t', nodes', chain', ran, -, represents', placed⟩ :=
        ghtInsert_placed represents absent served pData memory
      exact .placed absent served memory ran represents' placed
    · obtain ⟨crowded, missing⟩ := Classical.not_imp.mp memory
      have missing := eq_false_of_ne_true missing
      obtain ⟨fault, ran⟩ := ghtInsert_faults represents absent served pData crowded missing
      exact .stopped absent served crowded missing ran

end FsdFilter.InsertOutcomes
