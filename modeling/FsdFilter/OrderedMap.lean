import FsdFilter.InsertOutcomes

/-! The hash table as a map that keeps the order of insertion. Any sequence of its
operations is run next to the same sequence on a list of keys and data, oldest first;
the results are the same, whatever the hash function, the heuristics and the rehashes. -/
namespace FsdFilter.OrderedMap
open SizedBlocks LinkedLists StateRuns CommonHashTable TableMemory ChainEdits TableRepresentation
open TableSearch TableOperations EntryCreation TableInsertion TableCreation TableRehash
open InsertOutcomes

variable {D : Type} {kernel : Kernel} {h h' : Heap D} {t t' : HashTable D} {nodes : List Addr}
  {chain : UInt → List Addr} {key : HashKey} {all : List (HashKey × Option D)}

/-- What a user of a table calls. -/
inductive Op (D : Type) where
  | insert (key : HashKey) (pData : D)
  | get (key : HashKey)
  | replace (key : HashKey) (pData : Option D)
  | remove (key : HashKey)
  | rehash (iSize : UInt)
  | setHeuristics (iHeuristics : UInt)
  | setRehash (bRehash : Bool)
  | iterate
  | size

/-- What a call returns. -/
inductive Result (D : Type) where
  | code (status : StatusCode)
  | data (pData : Option D)
  | entries (all : List (HashKey × Option D))
  | count (n : ℕ)
  | done
  deriving DecidableEq

/-! ### The list -/

/-- A call on the list: what it returns, and the list after it. -/
def Op.reference (all : List (HashKey × Option D)) : Op D → Result D × List (HashKey × Option D)
  | insert key pData =>
    if key ∈ all.map Prod.fst then (.code .ghtAlreadyInHash, all)
    else (.code .ghtOk, all ++ [(key, some pData)])
  | get key => (.data (all.lookup key).join, all)
  | replace key pData =>
    (.data (all.lookup key).join, all.map fun entry => if entry.1 = key then (entry.1, pData) else entry)
  | remove key => (.data (all.lookup key).join, all.filter fun entry => entry.1 ≠ key)
  | rehash _ => (.done, all)
  | setHeuristics _ => (.done, all)
  | setRehash _ => (.done, all)
  | iterate => (.entries all, all)
  | size => (.count all.length, all)

/-- The results of all calls on the list. -/
def referenceRun (all : List (HashKey × Option D)) : List (Op D) → List (Result D)
  | [] => []
  | op :: ops => (op.reference all).1 :: referenceRun (op.reference all).2 ops

/-! ### The table -/

/-- The loop over the entries with `ght_next`. -/
def iterateFrom : ℕ → Iterator → Option D → HashM D (List (HashKey × Option D))
  | _, _, none => pure []
  | 0, _, some _ => throw .endless
  | fuel + 1, iterator, some data => do
    let pEntry ← deref iterator.pEntry
    let key ← field (·.key) pEntry
    let (iterator, p) ← ghtNext iterator
    let rest ← iterateFrom fuel iterator p
    pure ((key, some data) :: rest)

/-- A complete iteration. -/
def iterateAll (t : HashTable D) : HashM D (List (HashKey × Option D)) := do
  let (iterator, p) ← ghtFirst t
  let h ← get
  iterateFrom h.blocks.fresh iterator p

/-- A call on the table. -/
def Op.run (kernel : Kernel) (t : HashTable D) : Op D → HashM D (Result D × HashTable D)
  | insert key pData => do
    let (status, t) ← ghtInsert kernel t (some pData) key
    pure (.code status, t)
  | get key => do
    let (pData, t) ← ghtGet t key
    pure (.data pData, t)
  | replace key pData => do
    let (pOld, t) ← ghtReplace t pData key
    pure (.data pOld, t)
  | remove key => do
    let (pRet, t) ← ghtRemove kernel t key
    pure (.data pRet, t)
  | rehash iSize => do
    let t ← ghtRehash kernel t iSize
    pure (.done, t)
  | setHeuristics iHeuristics => pure (.done, ghtSetHeuristics t iHeuristics)
  | setRehash bRehash => pure (.done, ghtSetRehash t bRehash)
  | iterate => do
    let all ← iterateAll t
    pure (.entries all, t)
  | size => pure (.count (ghtSize t).toNat, t)

/-- The results of all calls on a table. -/
def callAll (kernel : Kernel) (t : HashTable D) : List (Op D) → HashM D (List (Result D))
  | [] => pure []
  | op :: ops => do
    let (result, t) ← op.run kernel t
    let results ← callAll kernel t ops
    pure (result :: results)

/-- A table is created, its hash function is set, and the calls are made. -/
def tableRun (kernel : Kernel) (iSize : UInt) (nonBlock : Bool) (fnHash : HashKey → UInt)
    (ops : List (Op D)) :
    HashM D (List (Result D)) := do
  match ← ghtCreate kernel iSize nonBlock with
  | none => throw .nullDereference
  | some t => callAll kernel (ghtSetHash t fnHash) ops

/-! ### Memory that is always there -/

section Served
variable (served : ∀ n, kernel.grants n = true) {nonBlock : Bool}
include served

theorem nodeServed_all (n : ℕ) : nodeServed kernel nonBlock n = true := by
  simp [nodeServed, blockServed, served]

theorem tableServed_all (n : ℕ) : tableServed kernel n = true := by
  simp [tableServed, served]

theorem allServed_all (n count : ℕ) : allServed kernel nonBlock n count = true := by
  induction count generalizing n with
  | zero => rfl
  | succ count ih => rw [allServed, nodeServed_all served, ih, Bool.and_self]

/-- All entries with data survive a rehash. -/
theorem survivors_all (n : ℕ) (data : ∀ entry ∈ all, entry.2 ≠ none) :
    survivors kernel nonBlock n all = all :=
  survivors_eq_iff.mpr ⟨allServed_all served .., data⟩

end Served

/-! ### One call -/

/-- The memory holds a table with these entries. Its buckets have no limit, and all
entries have data. -/
structure Holds (kernel : Kernel) (h : Heap D) (t : HashTable D)
    (all : List (HashKey × Option D)) : Prop where
  represents : ∃ nodes chain, Represents kernel h t nodes chain ∧ contents h nodes = all
  limit : t.bucketLimit = 0
  data : ∀ entry ∈ all, entry.2 ≠ none

theorem insert_run (served : ∀ n, kernel.grants n = true) (holds : Holds kernel h t all)
    (key : HashKey) (pData : D) :
    ∃ t' h', (Op.insert key pData).run kernel t h =
      .ok ((((Op.insert key pData).reference all).1, t'), h') ∧
      Holds kernel h' t' ((Op.insert key pData).reference all).2 := by
  obtain ⟨⟨nodes, chain, represents, rfl⟩, limit, data⟩ := id holds
  rcases present_or_absent h nodes key with ⟨a, member, rfl⟩ | absent
  · refine ⟨t, h, ?_, ?_⟩
    · rw [Op.run, ghtInsert, bind_ok (insertWith_present _ _ represents member), Op.reference,
        if_pos (present_key member)]
      rfl
    · rw [Op.reference, if_pos (present_key member)]
      exact holds
  · obtain ⟨h', t', nodes', chain', ran, config, represents', placed⟩ :=
      ghtInsert_placed represents absent (nodeServed_all served _) (some pData) fun _ =>
        tableServed_all served _
    have everything : retained kernel h.blocks.attempts t (contents h nodes) = contents h nodes := by
      rw [retained, survivors_all served _ data, ite_self]
    have roomy : placementRoom kernel h.blocks.attempts t (contents h nodes) key = true := by
      rw [placementRoom, hasRoom, limit]
      rfl
    rw [everything] at placed
    rw [Op.reference, if_neg (absent_key absent)]
    refine ⟨t', h', ?_, ⟨_, _, represents', placed.all roomy⟩, config.bucketLimit.trans limit,
      fun entry inside => ?_⟩
    · rw [Op.run, bind_ok ran]
      rfl
    · rcases List.mem_append.mp inside with old | new
      · exact data entry old
      · rw [List.mem_singleton.mp new]
        exact Option.some_ne_none pData

theorem get_run (holds : Holds kernel h t all) (key : HashKey) :
    ∃ t' h', (Op.get key).run kernel t h = .ok ((((Op.get key).reference all).1, t'), h') ∧
      Holds kernel h' t' ((Op.get key).reference all).2 := by
  obtain ⟨⟨nodes, chain, represents, rfl⟩, limit, data⟩ := id holds
  rcases present_or_absent h nodes key with ⟨a, member, rfl⟩ | absent
  · obtain ⟨h', t', ran, reheaded, relinked, chain', represents'⟩ := ghtGet_present represents member
    refine ⟨t', h', ?_,
      ⟨nodes, chain', represents', contents_congr fun c _ => sameNode_of_relinked relinked c⟩,
      (sameConfig_of_reheaded reheaded).bucketLimit.trans limit, data⟩
    rw [Op.run, bind_ok ran, Op.reference, lookup_present represents.indexed member]
    rfl
  · refine ⟨t, h, ?_, holds⟩
    rw [Op.run, bind_ok (ghtGet_absent represents absent), Op.reference, lookup_absent absent]
    rfl

theorem replace_run (holds : Holds kernel h t all) (key : HashKey) {pData : Option D}
    (some' : pData ≠ none) :
    ∃ t' h', (Op.replace key pData).run kernel t h =
      .ok ((((Op.replace key pData).reference all).1, t'), h') ∧
      Holds kernel h' t' ((Op.replace key pData).reference all).2 := by
  obtain ⟨⟨nodes, chain, represents, rfl⟩, limit, data⟩ := id holds
  rcases present_or_absent h nodes key with ⟨a, member, rfl⟩ | absent
  · obtain ⟨h', t', ran, reheaded, relinked, chain', represents'⟩ :=
      ghtReplace_present represents member pData
    have same : ∀ c, SameNode h h' c := fun c => sameNode_of_relinked relinked c
    have entries := contents_replace represents'.indexed member pData
    rw [(same a).key, contents_congr fun c _ => same c] at entries
    refine ⟨t', _, ?_, ⟨nodes, chain', Represents.withData represents' a pData, entries⟩,
      (sameConfig_of_reheaded reheaded).bucketLimit.trans limit, fun entry inside => ?_⟩
    · rw [Op.run, bind_ok ran, Op.reference, lookup_present represents.indexed member]
      rfl
    · obtain ⟨old, before, rfl⟩ := List.mem_map.mp inside
      split
      · exact some'
      · exact data old before
  · have unchanged : ((contents h nodes).map fun entry => if entry.1 = key then (entry.1, pData)
      else entry) =
        contents h nodes := by
      refine (List.map_congr_left fun entry inside => if_neg ?_).trans (List.map_id' _)
      rintro rfl
      exact absent_key absent (List.mem_map_of_mem inside)
    rw [Op.reference, unchanged, lookup_absent absent]
    refine ⟨t, h, ?_, holds⟩
    rw [Op.run, bind_ok (ghtReplace_absent represents absent pData)]
    rfl

theorem remove_run (holds : Holds kernel h t all) (key : HashKey) :
    ∃ t' h', (Op.remove key).run kernel t h = .ok ((((Op.remove key).reference all).1, t'), h') ∧
      Holds kernel h' t' ((Op.remove key).reference all).2 := by
  obtain ⟨⟨nodes, chain, represents, rfl⟩, limit, data⟩ := id holds
  rcases present_or_absent h nodes key with ⟨a, member, rfl⟩ | absent
  · obtain ⟨h', t', chain', ran, config, represents', contents', -⟩ :=
      ghtRemove_present represents member
    have remaining :=
      contents'.trans (contents_erase represents.indexed represents.linkage.distinct member)
    refine ⟨t', h', ?_, ⟨_, chain', represents', remaining⟩, config.bucketLimit.trans limit,
      fun entry inside => ?_⟩
    · rw [Op.run, bind_ok ran, Op.reference, lookup_present represents.indexed member]
      rfl
    · exact data entry (List.mem_of_mem_filter inside)
  · have unchanged : ((contents h nodes).filter fun entry => entry.1 ≠ key) = contents h nodes := by
      refine List.filter_eq_self.mpr fun entry inside => ?_
      rw [decide_eq_true_eq]
      rintro rfl
      exact absent_key absent (List.mem_map_of_mem inside)
    rw [Op.reference, unchanged, lookup_absent absent]
    refine ⟨t, h, ?_, holds⟩
    rw [Op.run, bind_ok (ghtRemove_absent represents absent)]
    rfl

theorem rehash_run (served : ∀ n, kernel.grants n = true) (holds : Holds kernel h t all) {iSize : UInt}
    (fits : iSize.toNat ≤ 2 ^ 31) :
    ∃ t' h', (Op.rehash iSize).run kernel t h = .ok ((.done, t'), h') ∧ Holds kernel h' t' all := by
  obtain ⟨⟨nodes, chain, represents, rfl⟩, limit, data⟩ := holds
  obtain ⟨h', t', nodes', chain', ran, grows, represents', -, copied, -⟩ :=
    ghtRehash_run represents fits (tableServed_all served _)
  rw [survivors_all served _ data] at copied
  refine ⟨t', h', ?_, ⟨nodes', chain', represents', copied⟩, grows.config.bucketLimit.trans limit, data⟩
  rw [Op.run, bind_ok ran]
  rfl

/-- The loop visits the entries that are left. -/
theorem iterateFrom_run {before rest : List Addr} {fuel : ℕ}
    (represents : Represents kernel h t nodes chain) (split : nodes = before ++ rest)
    (data : ∀ c ∈ rest, h.pData c ≠ none) (enough : rest.length ≤ fuel) :
    iterateFrom fuel (iteratorAt rest) (rest.head?.bind h.pData) h = .ok (contents h rest, h) := by
  induction rest generalizing before fuel with
  | nil => cases fuel <;> rfl
  | cons a rest ih =>
    obtain ⟨d, here⟩ := Option.ne_none_iff_exists'.mp (data a List.mem_cons_self)
    cases fuel with
    | zero => cases enough
    | succ fuel =>
      have member : a ∈ nodes := by
        rw [split]
        exact List.mem_append_right _ List.mem_cons_self
      have split' : nodes = (before ++ [a]) ++ rest := by
        rw [split, List.append_assoc, List.singleton_append]
      have following :=
        ih split' (fun c later => data c (List.mem_cons_of_mem _ later)) (Nat.le_of_succ_le_succ enough)
      have first : contents h (a :: rest) = (h.key a, some d) :: contents h rest := by
        rw [contents, List.map_cons, here]
        rfl
      rw [List.head?_cons, Option.bind_some, here, iterateFrom, iteratorAt, List.head?_cons,
        deref_some, pure_bind_run, field_bind (represents.linkage.live a (.inl member)), first]
      exact (bind_ok (ghtNext_run represents split)).trans (bind_ok following)

theorem iterate_run (holds : Holds kernel h t all) :
    Op.iterate.run kernel t h = .ok ((.entries all, t), h) := by
  obtain ⟨⟨nodes, chain, represents, rfl⟩, -, data⟩ := holds
  have visited := iterateFrom_run represents (List.nil_append nodes).symm
    (fun c member => data _ (List.mem_map_of_mem member)) represents.nodes_length
  have whole : iterateAll t h = .ok (contents h nodes, h) := by
    rw [iterateAll, bind_ok (ghtFirst_run represents)]
    exact visited
  rw [Op.run, bind_ok whole]
  rfl

/-! ### Whole sequences -/

/-- `ght_size` counts as far as an `unsigned int` does. -/
def Result.wrapped : Result D → Result D
  | .count n => .count (n % 2 ^ 32)
  | result => result

/-- Sizes are at most `2^30`. -/
def Op.sized : Op D → Bool
  | rehash iSize => iSize.toNat ≤ 2 ^ 30
  | _ => true

/-- Nothing is replaced by NULL. -/
def Op.replacesByData : Op D → Bool
  | replace _ pData => pData.isSome
  | _ => true

/-- One call keeps table and list together, and returns the same. -/
theorem op_run (served : ∀ n, kernel.grants n = true) (holds : Holds kernel h t all) (op : Op D)
    (sized : op.sized = true) (data : op.replacesByData = true) :
    ∃ t' h', op.run kernel t h = .ok (((op.reference all).1.wrapped, t'), h') ∧
      Holds kernel h' t' (op.reference all).2 := by
  cases op with
  | insert key pData =>
    obtain ⟨t', h', ran, holds'⟩ := insert_run served holds key pData
    have same : ((Op.insert key pData).reference all).1.wrapped =
        ((Op.insert key pData).reference all).1 := by
      rw [Op.reference]
      split <;> rfl
    refine ⟨t', h', ?_, holds'⟩
    rw [same]
    exact ran
  | get key => exact get_run holds key
  | replace key pData => exact replace_run holds key (Option.isSome_iff_ne_none.mp data)
  | remove key => exact remove_run holds key
  | rehash iSize =>
    have small : iSize.toNat ≤ 2 ^ 30 := of_decide_eq_true sized
    exact rehash_run served holds (Nat.le_trans small (by decide))
  | setHeuristics iHeuristics =>
    obtain ⟨⟨nodes, chain, represents, same⟩, limit, data⟩ := holds
    exact ⟨_, h, rfl, ⟨nodes, chain, represents.configured iHeuristics _ represents.indexed.bounded,
      same⟩, limit, data⟩
  | setRehash bRehash =>
    obtain ⟨⟨nodes, chain, represents, same⟩, limit, data⟩ := holds
    exact ⟨_, h, rfl, ⟨nodes, chain, represents.configured _ bRehash represents.indexed.bounded,
      same⟩, limit, data⟩
  | iterate => exact ⟨t, h, iterate_run holds, holds⟩
  | size =>
    refine ⟨t, h, ?_, holds⟩
    obtain ⟨⟨nodes, chain, represents, rfl⟩, -, -⟩ := holds
    have count : (ghtSize t).toNat = (contents h nodes).length % 2 ^ 32 := by
      rw [ghtSize, represents.indexed.items, BitVec.toNat_ofNat, contents, List.length_map]
    rw [Op.run, count]
    rfl

/-- All calls return the same. -/
theorem callAll_run (served : ∀ n, kernel.grants n = true) (holds : Holds kernel h t all)
    (ops : List (Op D)) (sized : ∀ op ∈ ops, op.sized = true)
    (data : ∀ op ∈ ops, op.replacesByData = true) :
    ∃ h', callAll kernel t ops h = .ok ((referenceRun all ops).map Result.wrapped, h') := by
  induction ops generalizing h t all with
  | nil => exact ⟨h, rfl⟩
  | cons op ops ih =>
    obtain ⟨t₁, h₁, ran, holds₁⟩ :=
      op_run served holds op (sized op List.mem_cons_self) (data op List.mem_cons_self)
    obtain ⟨h', rest⟩ := ih holds₁ (fun other later => sized other (List.mem_cons_of_mem _ later))
      fun other later => data other (List.mem_cons_of_mem _ later)
    refine ⟨h', ?_⟩
    rw [callAll, bind_ok ran]
    dsimp only
    rw [bind_ok rest, pure_run, referenceRun, List.map_cons]

/-- A new table holds nothing. -/
theorem created_holds (served : ∀ n, kernel.grants n = true) {iSize : UInt}
    (small : iSize.toNat ≤ 2 ^ 30) (nonBlock : Bool) (fnHash : HashKey → UInt) (h : Heap D) :
    ∃ h' t, ghtCreate kernel iSize nonBlock h = .ok (some t, h') ∧
      Holds kernel h' (ghtSetHash t fnHash) [] := by
  obtain ⟨h', t, ran, created, -⟩ := ghtCreate_served (h := h) (Nat.le_trans small (by decide)) nonBlock
    (tableServed_all served _)
  exact ⟨h', t, ran, ⟨[], _, created.represents.hashed fnHash, rfl⟩, created.bucketLimit,
    fun _ inside => by cases inside⟩

/-- The table is a map that keeps the order of insertion. -/
theorem tableRun_ordered (served : ∀ n, kernel.grants n = true) {iSize : UInt}
    (small : iSize.toNat ≤ 2 ^ 30) (nonBlock : Bool) (fnHash : HashKey → UInt) (ops : List (Op D))
    (sized : ∀ op ∈ ops, op.sized = true) (data : ∀ op ∈ ops, op.replacesByData = true) (h : Heap D) :
    ∃ h', tableRun kernel iSize nonBlock fnHash ops h =
      .ok ((referenceRun [] ops).map Result.wrapped, h') := by
  obtain ⟨h₁, t, ran, holds⟩ := created_holds served small nonBlock fnHash h
  obtain ⟨h', results⟩ := callAll_run served holds ops sized data
  refine ⟨h', ?_⟩
  rw [tableRun, bind_ok ran]
  exact results

def alwaysGranted : Kernel := ⟨false, fun _ => true⟩

/-- A key of four bytes. -/
def numbered (i : ℕ) : HashKey where
  bytes := [BitVec.ofNat 8 i, BitVec.ofNat 8 (i / 2 ^ 8), BitVec.ofNat 8 (i / 2 ^ 16),
    BitVec.ofNat 8 (i / 2 ^ 24)]
  short := (by decide : 4 < 2 ^ 32)

/-- Two keys with one hash, a lookup, a replacement, a rehash and an iteration. -/
theorem tableRun_ordered_collision :
    ∃ h', tableRun alwaysGranted 1 true (fun _ => 0)
      [.insert (numbered 0) 5, .setHeuristics 2, .insert (numbered 1) 6, .get (numbered 0), .rehash 4,
        .replace (numbered 0) (some 7), .iterate, .size] (Heap.empty : Heap ℕ) =
      .ok ((referenceRun []
        [.insert (numbered 0) 5, .setHeuristics 2, .insert (numbered 1) 6, .get (numbered 0), .rehash 4,
          .replace (numbered 0) (some 7), .iterate, .size]).map Result.wrapped, h') :=
  tableRun_ordered (fun _ => rfl) (by decide) _ _ _ (by decide) (by decide) _

/-! ### Entries without data, and more entries than can be counted -/

/-- All results are those of the list. -/
def Agrees (kernel : Kernel) (iSize : UInt) (nonBlock : Bool) (fnHash : HashKey → UInt)
    (ops : List (Op D)) (h : Heap D) :
    Prop := ∃ h', tableRun kernel iSize nonBlock fnHash ops h = .ok (referenceRun [] ops, h')

theorem numbered_injective {i j : ℕ} (below : i < 2 ^ 32) (below' : j < 2 ^ 32)
    (same : numbered i = numbered j) :
    i = j := by
  have bytes := congrArg HashKey.bytes same
  simp only [numbered, List.cons.injEq, BitVec.toNat_eq, BitVec.toNat_ofNat] at bytes
  omega

theorem numbered_nodup {count : ℕ} (few : count ≤ 2 ^ 32) :
    ((List.range count).map numbered).Nodup := by
  refine List.nodup_range.map_on fun i inside j inside' same => ?_
  exact numbered_injective (Nat.lt_of_lt_of_le (List.mem_range.mp inside) few)
    (Nat.lt_of_lt_of_le (List.mem_range.mp inside') few) same

/-- New keys are appended. -/
theorem referenceRun_inserts (keys : List HashKey) (all : List (HashKey × Option D)) (pData : D)
    (ops : List (Op D)) (distinct : (all.map Prod.fst ++ keys).Nodup) :
    referenceRun all (keys.map (fun key => .insert key pData) ++ ops) =
      List.replicate keys.length (.code .ghtOk) ++ referenceRun
        (all ++ keys.map fun key => (key, some pData)) ops := by
  induction keys generalizing all with
  | nil =>
    rw [List.map_nil, List.map_nil, List.append_nil, List.nil_append, List.length_nil,
      List.replicate_zero, List.nil_append]
  | cons key keys ih =>
    have new : key ∉ all.map Prod.fst := fun inside =>
      (List.nodup_append.mp distinct).2.2 key inside key List.mem_cons_self rfl
    have distinct' : ((all ++ [(key, some pData)]).map Prod.fst ++ keys).Nodup := by
      rw [List.map_append, List.append_assoc]
      exact distinct
    rw [List.map_cons, List.cons_append, referenceRun, Op.reference, if_neg new, ih _ distinct',
      List.append_assoc]
    rfl

/-- So many insertions with different keys, and `ght_size`. -/
def insertions (count : ℕ) : List (Op ℕ) :=
  ((List.range count).map numbered).map (fun key => .insert key 1) ++ [.size]

theorem referenceRun_insertions {count : ℕ} (few : count ≤ 2 ^ 32) :
    referenceRun [] (insertions count) = List.replicate count (.code .ghtOk) ++ [.count count] := by
  rw [insertions, referenceRun_inserts _ [] 1 [.size] (numbered_nodup few), List.length_map,
    List.length_range, referenceRun,
    Op.reference, List.nil_append, List.length_map, List.length_map, List.length_range]
  rfl

theorem insertions_plain (count : ℕ) :
    ∀ op ∈ insertions count, op.sized = true ∧ op.replacesByData = true := by
  intro op inside
  rcases List.mem_append.mp inside with insertion | last
  · obtain ⟨key, -, rfl⟩ := List.mem_map.mp insertion
    exact ⟨rfl, rfl⟩
  · rw [List.mem_singleton.mp last]
    exact ⟨rfl, rfl⟩

/-- With as many entries as an `unsigned int` has values, `ght_size` returns 0. -/
theorem size_wraps {count : ℕ} (few : count ≤ 2 ^ 32)
    (agrees : Agrees alwaysGranted 8 true (fun _ => 0) (insertions count) (Heap.empty : Heap ℕ)) :
    count % 2 ^ 32 = count := by
  obtain ⟨h', ran⟩ := agrees
  have plain := insertions_plain count
  obtain ⟨h₁, t, created, holds⟩ : ∃ h' t, ghtCreate alwaysGranted 8 true (Heap.empty : Heap ℕ) =
    .ok (some t, h') ∧
      Holds alwaysGranted h' (ghtSetHash t fun _ => 0) [] := created_holds (fun _ => rfl) (by decide) ..
  obtain ⟨h₂, results⟩ :=
    callAll_run (fun _ => rfl) holds (insertions count) (fun op inside => (plain op inside).1)
    fun op inside => (plain op inside).2
  rw [tableRun, bind_ok created] at ran
  have same : (referenceRun [] (insertions count)).map Result.wrapped =
      referenceRun [] (insertions count) :=
    congrArg Prod.fst (Except.ok.inj (results.symm.trans ran))
  rw [referenceRun_insertions few, List.map_append] at same
  have last := congrArg List.getLast? same
  rw [List.map_singleton, List.getLast?_concat, List.getLast?_concat] at last
  exact Result.count.inj (Option.some.inj last)

/-- An entry whose data are replaced by NULL, and an iteration. -/
def replacedByNull : List (Op ℕ) := [.insert (numbered 0) 5, .replace (numbered 0) none, .iterate]

/-- The table differs from the list when data are replaced by NULL, and when there are
`2^32` entries. -/
theorem tableRun_differs :
    ¬ Agrees alwaysGranted 8 true (fun _ => 0) replacedByNull (Heap.empty : Heap ℕ) ∧
      ¬ Agrees alwaysGranted 8 true (fun _ => 0) (insertions (2 ^ 32)) (Heap.empty : Heap ℕ) := by
  constructor
  · rintro ⟨h', ran⟩
    have differs :
        (tableRun alwaysGranted 8 true (fun _ => 0) replacedByNull Heap.empty).toOption.map Prod.fst ≠
          some (referenceRun [] replacedByNull) := by decide +kernel
    exact differs (congrArg (fun outcome => outcome.toOption.map Prod.fst) ran)
  · intro agrees
    have wrapped := size_wraps (Nat.le_refl _) agrees
    rw [Nat.mod_self] at wrapped
    cases wrapped

end FsdFilter.OrderedMap
