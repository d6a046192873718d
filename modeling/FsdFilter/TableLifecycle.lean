import FsdFilter.InsertionEffects

/-! The memory of a table from `ght_create` to `ght_finalize`. A block that is freed
twice, with another size than it was allocated with, or used after that stops the
model, so that runs which do not stop freed each block once and with its size; in the
end nothing of the table is left. Attempts to allocate may fail at any time. -/
namespace FsdFilter.TableLifecycle
open SizedBlocks LinkedLists StateRuns CommonHashTable TableMemory ChainEdits TableRepresentation
open TableSearch TableOperations EntryCreation TableInsertion TableCreation TableRelease TableRehash
open InsertOutcomes InsertionEffects

variable {D : Type} {kernel : Kernel} {h h' : Heap D} {t t' : HashTable D} {nodes : List Addr}
  {chain : UInt → List Addr} {key : HashKey} {pData : Option D}

/-- A call on a table. -/
inductive Call (D : Type) where
  | insert (key : HashKey) (pData : Option D)
  | get (key : HashKey)
  | replace (key : HashKey) (pData : Option D)
  | remove (key : HashKey)
  | rehash (iSize : UInt)
  | setHeuristics (iHeuristics : UInt)
  | setRehash (bRehash : Bool)
  | setBoundedBuckets (limit : UInt) (fn : Option (BucketFree D))

/-- What a call makes of the table; its result is dropped. -/
def Call.run (kernel : Kernel) (t : HashTable D) : Call D → HashM D (HashTable D)
  | insert key pData => do
    let (_, t) ← ghtInsert kernel t pData key
    pure t
  | get key => do
    let (_, t) ← ghtGet t key
    pure t
  | replace key pData => do
    let (_, t) ← ghtReplace t pData key
    pure t
  | remove key => do
    let (_, t) ← ghtRemove kernel t key
    pure t
  | rehash iSize => ghtRehash kernel t iSize
  | setHeuristics iHeuristics => pure (ghtSetHeuristics t iHeuristics)
  | setRehash bRehash => pure (ghtSetRehash t bRehash)
  | setBoundedBuckets limit fn => ghtSetBoundedBuckets t limit fn

/-- The calls one after the other. -/
def runCalls (kernel : Kernel) (t : HashTable D) : List (Call D) → HashM D (HashTable D)
  | [] => pure t
  | call :: calls => do
    let t ← call.run kernel t
    runCalls kernel t calls

/-- A table is created, its hash function is set, the calls are made and the table is
finalized. -/
def lifecycle (kernel : Kernel) (iSize : UInt) (nonBlock : Bool) (fnHash : HashKey → UInt)
    (calls : List (Call D)) :
    HashM D Unit := do
  match ← ghtCreate kernel iSize nonBlock with
  | none => pure ()
  | some t =>
    let t ← runCalls kernel (ghtSetHash t fnHash) calls
    ghtFinalize kernel t

/-! ### One call -/

/-- The blocks of the table are accounted for, and the table is in order. -/
def Accounted (kernel : Kernel) (h : Heap D) (t : HashTable D) (nodes : List Addr) (h' : Heap D)
    (t' : HashTable D) : Prop :=
  ∃ nodes' chain', Represents kernel h' t' nodes' chain' ∧
    Blocks.Accounts h.blocks (footprint kernel h t nodes) h'.blocks (footprint kernel h' t' nodes')

/-- What a call asks for that the kernel may not survive: a table of some size, or a limit
of the buckets without a callback. -/
inductive Ask where
  | table (iSize : UInt)
  | limitAlone
  deriving DecidableEq

def Call.asks : Call D → List Ask
  | rehash iSize => [.table iSize]
  | setBoundedBuckets limit none => if limit = 0 then [] else [.limitAlone]
  | _ => []

/-- What stops the kernel: a rehash without the memory for a table, a size that is never
reached, or a limit without a callback. -/
def Unserved (kernel : Kernel) (asks : List Ask) (fault : Fault) : Prop :=
  fault = .nullDereference ∧ (∃ n, tableServed kernel n = false) ∨
    fault = .endless ∧ (∃ size, .table size ∈ asks ∧ 2 ^ 31 < size.toNat) ∨
      fault = .panic ∧ .limitAlone ∈ asks

/-- A callback that is set leaves the table alone. -/
def Call.Quiet : Call D → Prop
  | setBoundedBuckets _ fn => ∀ code ∈ fn, LeavesAlone code
  | _ => True

/-- The entries stay as they are, in the same blocks, but for their places in the chains
and their data. -/
structure Kept (kernel : Kernel) (h : Heap D) (t : HashTable D) (nodes : List Addr) (h' : Heap D)
    (t' : HashTable D) :
    Prop where
  represents : ∃ chain', Represents kernel h' t' nodes chain'
  blocks : h'.blocks = h.blocks
  owned : footprint kernel h' t' nodes = footprint kernel h t nodes

theorem Kept.refl (represents : Represents kernel h t nodes chain) : Kept kernel h t nodes h t :=
  ⟨⟨chain, represents⟩, rfl, rfl⟩

/-- Entries that only changed places. -/
theorem Kept.reordered {inside : Addr → Prop} (relinked : Relinked h h' inside)
    (reheaded : Reheaded t t') (represents : ∃ chain', Represents kernel h' t' nodes chain') :
    Kept kernel h t nodes h' t' := by
  have same : footprint kernel h' t nodes = footprint kernel h t nodes :=
    footprint_congr fun c _ => sameNode_of_relinked relinked c
  refine ⟨represents, relinked.blocks, ?_⟩
  obtain ⟨entries, oldest, newest, rfl⟩ := reheaded
  exact same

theorem Kept.withData (kept : Kept kernel h t nodes h' t') (a : Addr) (pData : Option D) :
    Kept kernel h t nodes { h' with pData := Function.update h'.pData a pData } t' := by
  obtain ⟨⟨chain', represents⟩, blocks, owned⟩ := kept
  exact ⟨⟨chain', Represents.withData represents a pData⟩, blocks, owned⟩

theorem Kept.accounted (kept : Kept kernel h t nodes h' t') : Accounted kernel h t nodes h' t' := by
  obtain ⟨⟨chain', represents⟩, blocks, owned⟩ := kept
  refine ⟨nodes, chain', represents, ?_⟩
  rw [owned, blocks]
  exact .refl

/-- The calls that neither add entries nor remove any. -/
def Call.Keeps : Call D → Prop
  | insert _ _ | remove _ | rehash _ => False
  | setBoundedBuckets limit fn => Bounded limit fn
  | _ => True

theorem get_kept (represents : Represents kernel h t nodes chain) (key : HashKey) :
    ∃ t' h', (Call.get key).run kernel t h = .ok (t', h') ∧ Kept kernel h t nodes h' t' := by
  rcases present_or_absent h nodes key with ⟨a, member, rfl⟩ | absent
  · obtain ⟨h', t', ran, reheaded, relinked, represents'⟩ := ghtGet_present represents member
    exact ⟨t', h', bind_ok ran, .reordered relinked reheaded represents'⟩
  · exact ⟨t, h, bind_ok (ghtGet_absent represents absent), .refl represents⟩

theorem replace_kept (represents : Represents kernel h t nodes chain) (key : HashKey)
    (pData : Option D) :
    ∃ t' h', (Call.replace key pData).run kernel t h = .ok (t', h') ∧ Kept kernel h t nodes h' t' := by
  rcases present_or_absent h nodes key with ⟨a, member, rfl⟩ | absent
  · obtain ⟨h', t', ran, reheaded, relinked, represents'⟩ := ghtReplace_present represents member pData
    have kept : Kept kernel h t nodes h' t' := .reordered relinked reheaded represents'
    exact ⟨t', _, bind_ok ran, kept.withData a pData⟩
  · exact ⟨t, h, bind_ok (ghtReplace_absent represents absent pData), .refl represents⟩

theorem call_kept (represents : Represents kernel h t nodes chain) {call : Call D}
    (keeps : call.Keeps) :
    ∃ t' h', call.run kernel t h = .ok (t', h') ∧ Kept kernel h t nodes h' t' := by
  cases call with
  | insert key pData => exact keeps.elim
  | remove key => exact keeps.elim
  | rehash iSize => exact keeps.elim
  | get key => exact get_kept represents key
  | replace key pData => exact replace_kept represents key pData
  | setHeuristics iHeuristics =>
    exact ⟨_, h, rfl, ⟨chain, represents.configured iHeuristics _ represents.indexed.bounded⟩, rfl, rfl⟩
  | setRehash bRehash =>
    exact ⟨_, h, rfl, ⟨chain, represents.configured _ bRehash represents.indexed.bounded⟩, rfl, rfl⟩
  | setBoundedBuckets limit fn =>
    exact ⟨_, h, ghtSetBoundedBuckets_run keeps, ⟨chain, represents.configured _ _ keeps⟩, rfl, rfl⟩

theorem kept_accounted (represents : Represents kernel h t nodes chain) {call : Call D}
    (keeps : call.Keeps) :
    ∃ t' h', call.run kernel t h = .ok (t', h') ∧ Accounted kernel h t nodes h' t' := by
  obtain ⟨t', h', ran, kept⟩ := call_kept represents keeps
  exact ⟨t', h', ran, kept.accounted⟩

/-- An entry that was inserted is accounted for. -/
theorem inserted_accounted {nodes' : List Addr}
    (inserted : Inserted kernel h t nodes pData key h' t' nodes') :
    ∃ t' h', (Call.insert key pData).run kernel t h = .ok (t', h') ∧
      Accounted kernel h t nodes h' t' := by
  obtain ⟨chain', represents'⟩ := inserted.represents
  exact ⟨_, _, bind_ok inserted.ran, nodes', chain', represents', inserted.accounts⟩

theorem insert_accounted (represents : Represents kernel h t nodes chain) (key : HashKey)
    (pData : Option D) :
    (∃ t' h', (Call.insert key pData).run kernel t h = .ok (t', h') ∧ Accounted kernel h t nodes h' t') ∨
      ∃ fault, (Call.insert key pData).run kernel t h = .error fault ∧ Unserved kernel [] fault := by
  cases ghtInsert_effect represents pData key with
  | @unchanged code h' ran extends' accounts early =>
    refine .inl ⟨t, h', bind_ok ran, nodes, chain, extends'.represents represents, ?_⟩
    rw [footprint_congr (extends'.sameNode represents)]
    exact accounts.append _
  | stopped missing ran => exact .inr ⟨_, bind_error ran, .inl ⟨rfl, missing⟩⟩
  | placed inserted _ _ _ _ => exact .inl (inserted_accounted inserted)
  | rebuilt inserted _ _ _ => exact .inl (inserted_accounted inserted)

theorem remove_accounted (represents : Represents kernel h t nodes chain) (key : HashKey) :
    ∃ t' h', (Call.remove key).run kernel t h = .ok (t', h') ∧ Accounted kernel h t nodes h' t' := by
  rcases present_or_absent h nodes key with ⟨a, member, rfl⟩ | absent
  · obtain ⟨h', t', chain', ran, -, represents', -, blocks, owned⟩ :=
      ghtRemove_present represents member
    refine ⟨t', h', bind_ok ran, _, chain', represents', ?_⟩
    rw [owned, blocks]
    have released := (Blocks.Accounts.of_without h.blocks (blocksOf kernel h a)).append
      (footprint kernel h t (nodes.erase a))
    exact released.congr (fun x => (footprint_perm member).mem_iff) fun _ => Iff.rfl
  · exact ⟨t, h, bind_ok (ghtRemove_absent represents absent), nodes, chain, represents, .refl⟩

theorem rehash_accounted (represents : Represents kernel h t nodes chain) (iSize : UInt) :
    (∃ t' h', (Call.rehash iSize).run kernel t h = .ok (t', h') ∧ Accounted kernel h t nodes h' t') ∨
      ∃ fault, (Call.rehash iSize).run kernel t h = .error fault ∧
        Unserved kernel [.table iSize] fault := by
  by_cases served : iSize.toNat ≤ 2 ^ 31 ∧ tableServed kernel h.blocks.attempts = true
  · obtain ⟨h', t', nodes', chain', ran, -, represents', -, -, accounts, -⟩ :=
      ghtRehash_run represents served.1 served.2
    exact .inl ⟨t', h', ran, nodes', chain', represents', accounts⟩
  · obtain ⟨fault, kind, stopped⟩ := ghtRehash_faults (t := t) served
    refine .inr ⟨fault, stopped, ?_⟩
    cases kind with
    | refused missing => exact .inl ⟨rfl, _, missing⟩
    | huge above => exact .inr (.inl ⟨rfl, iSize, List.mem_singleton_self _, above⟩)

theorem bounded_accounted (represents : Represents kernel h t nodes chain) (limit : UInt)
    {fn : Option (BucketFree D)} (quiet : (Call.setBoundedBuckets limit fn).Quiet) :
    (∃ t' h', (Call.setBoundedBuckets limit fn).run kernel t h = .ok (t', h') ∧
      Accounted kernel h t nodes h' t') ∨
      ∃ fault, (Call.setBoundedBuckets limit fn).run kernel t h = .error fault ∧
        Unserved kernel (Call.setBoundedBuckets limit fn).asks fault := by
  by_cases usable : limit ≠ 0 → fn ≠ none
  · exact .inl (kept_accounted represents ⟨usable, quiet⟩)
  · obtain ⟨limited, missing⟩ := Classical.not_imp.mp usable
    obtain rfl := not_not.mp missing
    refine .inr ⟨.panic, ghtSetBoundedBuckets_panics limited, .inr (.inr ⟨rfl, ?_⟩)⟩
    rw [Call.asks, if_neg limited]
    exact List.mem_singleton_self _

/-- Every call accounts for the blocks of the table, or stops the kernel. -/
theorem call_accounted (represents : Represents kernel h t nodes chain) (call : Call D)
    (quiet : call.Quiet) :
    (∃ t' h', call.run kernel t h = .ok (t', h') ∧ Accounted kernel h t nodes h' t') ∨
      ∃ fault, call.run kernel t h = .error fault ∧ Unserved kernel call.asks fault := by
  cases call with
  | insert key pData => exact insert_accounted represents key pData
  | remove key => exact .inl (remove_accounted represents key)
  | rehash iSize => exact rehash_accounted represents iSize
  | setBoundedBuckets limit fn => exact bounded_accounted represents limit quiet
  | _ => exact .inl (kept_accounted represents trivial)

/-! ### Whole runs -/

theorem Unserved.mono {asks more : List Ask} {fault : Fault} (unserved : Unserved kernel asks fault)
    (inside : ∀ ask ∈ asks, ask ∈ more) : Unserved kernel more fault := by
  rcases unserved with refused | ⟨endless, size, member, above⟩ | ⟨panics, member⟩
  · exact .inl refused
  · exact .inr (.inl ⟨endless, size, inside _ member, above⟩)
  · exact .inr (.inr ⟨panics, inside _ member⟩)

/-- All calls account for the blocks of the table. -/
theorem runCalls_accounted (represents : Represents kernel h t nodes chain) (calls : List (Call D))
    (quiet : ∀ call ∈ calls, call.Quiet) :
    (∃ t' h', runCalls kernel t calls h = .ok (t', h') ∧ Accounted kernel h t nodes h' t') ∨
      ∃ fault, runCalls kernel t calls h = .error fault ∧
        Unserved kernel (calls.flatMap Call.asks) fault := by
  induction calls generalizing h t nodes chain with
  | nil => exact .inl ⟨t, h, rfl, nodes, chain, represents, .refl⟩
  | cons call calls ih =>
    have later : ∀ other ∈ calls, other.Quiet :=
      fun other inside => quiet other (List.mem_cons_of_mem _ inside)
    rcases call_accounted represents call (quiet call List.mem_cons_self) with
      ⟨t₁, h₁, ran, nodes₁, chain₁, represents₁, accounts⟩ | ⟨fault, stopped, unserved⟩
    · rcases ih represents₁ later with
        ⟨t', h', after, nodes', chain', represents', accounts'⟩ | ⟨fault, stopped, unserved⟩
      · exact .inl ⟨t', h', (bind_ok ran).trans after, nodes', chain', represents',
          accounts.trans accounts'⟩
      · refine .inr ⟨fault, (bind_ok ran).trans stopped, unserved.mono fun ask inside => ?_⟩
        exact List.mem_append_right _ inside
    · refine .inr ⟨fault, bind_error stopped, unserved.mono fun ask here => ?_⟩
      exact List.mem_append_left _ here

/-- A run that comes to its end leaves the blocks as they were before the table was
created; no run stops at a free. -/
def Balanced (kernel : Kernel) (asks : List Ask) (h : Heap D) : Except Fault (Unit × Heap D) → Prop
  | .ok (_, h') => h'.blocks.size = h.blocks.size
  | .error fault => Unserved kernel asks fault

/-- Each block of a table is freed once, with the size it was allocated with, and nothing
is left in the end, if the callback for full buckets leaves the table alone. -/
theorem lifecycle_balanced (kernel : Kernel) (iSize : UInt) (nonBlock : Bool) (fnHash : HashKey → UInt)
    (calls : List (Call D)) (quiet : ∀ call ∈ calls, call.Quiet) (h : Heap D) :
    Balanced kernel (.table iSize :: calls.flatMap Call.asks) h
      (lifecycle kernel iSize nonBlock fnHash calls h) := by
  by_cases served : iSize.toNat ≤ 2 ^ 31 ∧ tableServed kernel h.blocks.attempts = true
  · obtain ⟨h₁, t, created, table, -, -, accounts⟩ := ghtCreate_served served.1 nonBlock served.2
    have represents : Represents kernel h₁ (ghtSetHash t fnHash) [] fun _ => [] :=
      table.represents.hashed fnHash
    rcases runCalls_accounted represents calls quiet with
      ⟨t', h₂, ran, nodes, chain, represents', accounts'⟩ | ⟨fault, stopped, unserved⟩
    · have ended : lifecycle kernel iSize nonBlock fnHash calls h =
          .ok ((), freed h₂ (footprint kernel h₂ t' nodes)) := by
        rw [lifecycle, bind_ok created]
        exact (bind_ok ran).trans (ghtFinalize_run represents')
      rw [ended]
      exact ((accounts.trans accounts').trans (.of_without ..)).balanced
    · have ended : lifecycle kernel iSize nonBlock fnHash calls h = .error fault := by
        rw [lifecycle, bind_ok created]
        exact bind_error stopped
      rw [ended]
      exact unserved.mono fun ask later => List.mem_cons_of_mem _ later
  · rcases ghtCreate_fails nonBlock served with ⟨above, stopped⟩ | ⟨-, h₁, failed, accounts⟩
    · have ended : lifecycle kernel iSize nonBlock fnHash calls h = .error .endless :=
        bind_error stopped
      rw [ended]
      exact .inr (.inl ⟨rfl, iSize, List.mem_cons_self, above⟩)
    · have ended : lifecycle kernel iSize nonBlock fnHash calls h = .ok ((), h₁) := bind_ok failed
      rw [ended]
      exact accounts.balanced

/-- A DBG build that always gets its memory. -/
def debugging : Kernel := ⟨true, fun _ => true⟩

/-- Two entries for a bucket that has room for one. -/
def crowding (fn : BucketFree ℕ) : List (Call ℕ) :=
  [.setBoundedBuckets 1 (some fn), .insert (byteKey 0) (some 0), .insert (byteKey 1) (some 1)]

/-- A callback that does nothing. -/
def ignoring : BucketFree D := fun _ _ fields => pure fields

theorem ignoring_leavesAlone : LeavesAlone (ignoring : BucketFree D) := fun _ _ _ _ => rfl

theorem crowding_quiet {fn : BucketFree ℕ} (leavesAlone : LeavesAlone fn) :
    ∀ call ∈ crowding fn, call.Quiet := by
  simp only [crowding, List.forall_mem_cons, Call.Quiet, true_and]
  exact ⟨fun _ given => Option.mem_some_iff.mp given ▸ leavesAlone, List.forall_mem_nil _⟩

/-- The first entry is dropped. -/
theorem lifecycle_balanced_crowded : ∃ h : Heap ℕ, h = Heap.empty ∧
    Balanced debugging (.table 4 :: (crowding ignoring).flatMap Call.asks) h
      (lifecycle debugging 4 true (fun _ => 0) (crowding ignoring) h) := by
  -- the run is not evaluated
  obtain ⟨h, empty⟩ : ∃ h : Heap ℕ, h = Heap.empty := ⟨_, rfl⟩
  have quiet : ∀ call ∈ crowding ignoring, call.Quiet := crowding_quiet ignoring_leavesAlone
  exact ⟨h, empty, lifecycle_balanced debugging 4 true (fun _ => 0) (crowding ignoring) quiet h⟩

/-- A callback that makes a call on the table when it is called for one key. Of other
keys it takes no notice. -/
def reentering (kernel : Kernel) (pinned : HashKey) (call : Call D) : BucketFree D :=
  fun _ key fields =>
  if key = pinned then do
    let t ← call.run kernel { fields with fnBucketFree := some ignoring }
    pure t.toTableFields
  else pure fields

/-- What stops a run. -/
def faultOf : Except Fault (Unit × Heap D) → Option Fault
  | .ok _ => none
  | .error fault => some fault

theorem not_balanced_of_useAfterFree {asks : List Ask}
    {result : Except Fault (Unit × Heap D)} {a : Addr}
    (used : faultOf result = some (.useAfterFree a)) : ¬ Balanced kernel asks h result := by
  cases result with
  | ok final => cases used
  | error fault =>
    cases used
    rintro (⟨other, -⟩ | ⟨other, -⟩ | ⟨other, -⟩) <;> cases other

/-- The blocks are accounted for when the callback of the first entry makes a call. -/
def BalancedReentering (call : Call ℕ) : Prop :=
  let calls := crowding (reentering debugging (byteKey 0) call)
  Balanced debugging (.table 4 :: calls.flatMap Call.asks) Heap.empty
    (lifecycle debugging 4 true (fun _ => 0) calls Heap.empty)

/-- The first entry is dropped, and its callback inserts it again: the bucket is full with
the new entry alone, which is dropped in turn, and the first insertion then writes to it.
A rehash frees the new entry too, and so does a removal. -/
theorem reentering_unbalanced : ¬ BalancedReentering (.insert (byteKey 0) (some 0)) ∧
    ¬ BalancedReentering (.rehash 8) ∧ ¬ BalancedReentering (.remove (byteKey 1)) := by
  rw [BalancedReentering, BalancedReentering, BalancedReentering]
  refine ⟨not_balanced_of_useAfterFree (a := 5) ?_, not_balanced_of_useAfterFree (a := 5) ?_,
    not_balanced_of_useAfterFree (a := 5) ?_⟩ <;> decide +kernel

end FsdFilter.TableLifecycle
