import FsdFilter.TableCreation
import FsdFilter.TableInsertion
import FsdFilter.TableRelease

/-! `ght_rehash`: the entries are created again, one by one, in a new table, and the old
ones are freed. Which of them survive is decided by the attempts to allocate; the order
of age stays. -/
namespace FsdFilter.TableRehash
open SizedBlocks LinkedLists StateRuns CommonHashTable TableMemory ChainEdits TableRepresentation
open TableSearch TableOperations EntryCreation TableInsertion TableCreation TableRelease

variable {D : Type} {kernel : Kernel} {h h' h'' : Heap D} {t t' t'' : HashTable D}
  {nodes nodes' nodes'' : List Addr} {chain chain' : UInt → List Addr} {a : Addr} {key : HashKey}
  {pData : Option D}

/-- The entries that are created again: those before the first without data, as long as
there is memory for them. -/
def survivors (kernel : Kernel) (nonBlock : Bool) :
    ℕ → List (HashKey × Option D) → List (HashKey × Option D)
  | _, [] => []
  | _, (_, none) :: _ => []
  | n, (key, some data) :: rest =>
    if nodeServed kernel nonBlock n then
      (key, some data) :: survivors kernel nonBlock (afterNode kernel nonBlock n) rest
    else survivors kernel nonBlock (afterNode kernel nonBlock n) rest

/-- A table takes new blocks only, and leaves the memory of others alone. -/
structure Grows (kernel : Kernel) (h : Heap D) (t : HashTable D) (nodes : List Addr) (h' : Heap D)
    (t' : HashTable D) (nodes' : List Addr) : Prop where
  config : SameConfig t t'
  outside : ∀ x < h.blocks.fresh, x ∉ footprint kernel h t nodes → cell h' x = cell h x
  inside : ∀ x ∈ footprint kernel h' t' nodes', x ∈ footprint kernel h t nodes ∨ h.blocks.fresh ≤ x
  fresh : h.blocks.fresh ≤ h'.blocks.fresh

theorem Grows.refl : Grows kernel h t nodes h t nodes :=
  ⟨.refl, fun _ _ _ => rfl, fun _ inside => .inl inside, Nat.le_refl _⟩

theorem Grows.trans (first : Grows kernel h t nodes h' t' nodes')
    (second : Grows kernel h' t' nodes' h'' t'' nodes'') :
    Grows kernel h t nodes h'' t'' nodes'' := by
  refine ⟨first.config.trans second.config, fun x older apart => ?_, fun x inside => ?_,
    Nat.le_trans first.fresh second.fresh⟩
  · refine (second.outside x (Nat.lt_of_lt_of_le older first.fresh) fun inside => ?_).trans
      (first.outside x older apart)
    rcases first.inside x inside with within | newer
    · exact apart within
    · exact Nat.not_lt_of_le newer older
  · rcases second.inside x inside with within | newer
    · exact first.inside x within
    · exact .inr (Nat.le_trans first.fresh newer)

/-- One insertion into a table without a limit that does not rehash by itself. -/
theorem insertWith_grows (rehash : HashTable D → UInt → HashM D (HashTable D))
    (represents : Represents kernel h t nodes chain) (absent : ∀ c ∈ nodes, h.key c ≠ key)
    (limit : t.bucketLimit = 0) (still : t.iAutomaticRehash = false) (pData : Option D) :
    ∃ status h' t' nodes' chain', insertWith kernel rehash t pData key h = .ok ((status, t'), h') ∧
      Grows kernel h t nodes h' t' nodes' ∧ Represents kernel h' t' nodes' chain' ∧
      h'.blocks.attempts = afterNode kernel t.nonBlock h.blocks.attempts ∧ t'.iSizeMask = t.iSizeMask ∧
      contents h' nodes' = contents h nodes ++
        (if nodeServed kernel t.nonBlock h.blocks.attempts then [(key, pData)] else []) ∧
      Blocks.Accounts h.blocks (footprint kernel h t nodes) h'.blocks
      (footprint kernel h' t' nodes') := by
  cases served : nodeServed kernel t.nonBlock h.blocks.attempts with
  | false =>
    obtain ⟨h', ran, extends', attempts, accounts⟩ :=
      insertWith_refused rehash pData represents absent served
    have same := extends'.sameNode represents
    refine ⟨_, h', t, nodes, chain, ran,
      ⟨.refl, fun x older _ => extends'.old x older, fun x inside => ?_, extends'.fresh⟩,
      extends'.represents represents, attempts, rfl, ?_, ?_⟩
    · rw [footprint_congr same] at inside
      exact .inl inside
    · rw [if_neg Bool.false_ne_true, List.append_nil, contents_congr same]
    · rw [footprint_congr same]
      exact accounts.append (footprint kernel h t nodes)
  | true =>
    obtain ⟨h₁, a, created, attempts, accounts, ran⟩ :=
      insertWith_served rehash pData represents absent served
    have represents₁ := created.extends'.represents represents
    have new := created_new created represents absent
    have same := created.extends'.sameNode represents
    have room : ¬ (t.bucketLimit ≠ 0 ∧ t.bucketLimit ≤ t.pNr (t.bucketOf (h₁.key a))) :=
      fun full => full.1 limit
    obtain ⟨h₂, t₂, chain₂, placed, config, represents₂, contents₂, relinked, blocks, mask⟩ :=
      placeEntry_run represents₁ new room
    rw [created.key] at placed contents₂
    rw [created.pData] at contents₂
    rw [footprint_congr same] at blocks
    refine ⟨.ghtOk, h₂, t₂, nodes ++ [a], chain₂, ?_,
      ⟨config, fun x older apart => ?_, fun x inside => ?_, ?_⟩, represents₂, ?_, mask, ?_, ?_⟩
    · rw [ran, overfull, still, Bool.false_and, if_neg Bool.false_ne_true, finishInsert,
        bind_ok placed, pure_run]
    · refine (relinked.cell_eq ?_).trans (created.extends'.old x older)
      rintro (rfl | member)
      · exact Nat.not_lt_of_le (created.new x self_mem_blocksOf) older
      · exact apart (nodes_subset member)
    · rw [blocks] at inside
      rcases List.mem_append.mp inside with within | mine
      · exact .inl within
      · exact .inr (created.new x mine)
    · rw [relinked.blocks]
      exact created.extends'.fresh
    · rw [relinked.blocks]
      exact attempts
    · rw [contents₂, if_pos rfl, contents_congr same]
    · rw [relinked.blocks, blocks]
      exact (accounts.append (footprint kernel h t nodes)).congr (fun _ => Iff.rfl) fun x =>
        List.perm_append_comm.mem_iff

/-! ### The loop over the old entries -/

/-- A table that shares nothing with one that grows stays as it is. -/
theorem Grows.bystander {old : List Addr} {other : HashTable D} {others : UInt → List Addr}
    (grows : Grows kernel h t nodes h' t' nodes') (represents : Represents kernel h other old others)
    (apart : ∀ x ∈ footprint kernel h other old, x ∉ footprint kernel h t nodes) :
    (∀ c ∈ old, SameNode h h' c) ∧ Represents kernel h' other old others ∧
      ∀ x ∈ footprint kernel h' other old, x ∉ footprint kernel h' t' nodes' := by
  have kept : ∀ x ∈ footprint kernel h other old, cell h' x = cell h x :=
    fun x inside => grows.outside x (represents.stored.inUse inside) (apart x inside)
  have same : ∀ c ∈ old, SameNode h h' c :=
    fun c member => sameNode_of_cell (kept c (nodes_subset member))
  refine ⟨same, represents.frame kept, fun x inside within => ?_⟩
  rw [footprint_congr same] at inside
  rcases grows.inside x within with here | newer
  · exact apart x inside here
  · exact Nat.not_lt_of_le newer (represents.stored.inUse inside)

/-- The keys of entries that were just copied differ from those still to come. -/
theorem copied_keys {done done' rest : List Addr} {served : Bool}
    (copied : contents h' done' = contents h done ++ if served then [(h.key a, pData)] else [])
    (keys : ∀ c ∈ done, ∀ d ∈ a :: rest, h.key c ≠ h.key d)
    (distinct : ∀ d ∈ rest, h.key a ≠ h.key d) (same : ∀ d ∈ rest, SameNode h h' d) :
    ∀ c ∈ done', ∀ d ∈ rest, h'.key c ≠ h'.key d := by
  intro c member d later
  have inside : (h'.key c, h'.pData c) ∈ contents h' done' := List.mem_map_of_mem member
  rw [copied] at inside
  rw [(same d later).key]
  rcases List.mem_append.mp inside with old | new
  · obtain ⟨e, early, entry⟩ := List.mem_map.mp old
    have one : h.key e = h'.key c := congrArg Prod.fst entry
    rw [← one]
    exact keys e early d (List.mem_cons_of_mem _ later)
  · cases served with
    | false =>
      rw [if_neg Bool.false_ne_true] at new
      cases new
    | true =>
      rw [if_pos rfl, List.mem_singleton] at new
      have one : h'.key c = h.key a := congrArg Prod.fst new
      rw [one]
      exact distinct d later

/-- The loop of `ght_rehash` with some of the entries still to come: the copies are in
the temporary table, which shares nothing with the old one. -/
structure Copying (kernel : Kernel) (h : Heap D) (t : HashTable D) (nodes : List Addr)
    (chain : UInt → List Addr) (rest : List Addr) (tmp : HashTable D) (done : List Addr)
    (chained : UInt → List Addr) : Prop where
  old : Represents kernel h t nodes chain
  split : ∃ before, nodes = before ++ rest
  new : Represents kernel h tmp done chained
  apart : ∀ x ∈ footprint kernel h t nodes, x ∉ footprint kernel h tmp done
  limit : tmp.bucketLimit = 0
  still : tmp.iAutomaticRehash = false
  keys : ∀ c ∈ done, ∀ d ∈ rest, h.key c ≠ h.key d

theorem Copying.member {tmp : HashTable D} {done rest : List Addr} {chained : UInt → List Addr}
    (copying : Copying kernel h t nodes chain rest tmp done chained) {c : Addr} (later : c ∈ rest) :
    c ∈ nodes := by
  obtain ⟨before, split⟩ := copying.split
  rw [split]
  exact List.mem_append_right _ later

/-- One entry is copied, if there is memory for it. -/
theorem Copying.step {tmp : HashTable D} {done rest : List Addr} {chained : UInt → List Addr} {d : D}
    (copying : Copying kernel h t nodes chain (a :: rest) tmp done chained)
    (data : h.pData a = some d) :
    ∃ status h' tmp' done' chained',
      insertWith kernel (fun _ _ => throw .nestedRehash) tmp (h.pData a) (h.key a) h =
        .ok ((status, tmp'), h') ∧
      Copying kernel h' t nodes chain rest tmp' done' chained' ∧ Grows kernel h tmp done h' tmp' done' ∧
      tmp'.iSizeMask = tmp.iSizeMask ∧
      contents h' done' ++ survivors kernel tmp'.nonBlock h'.blocks.attempts (contents h' rest) =
        contents h done ++ survivors kernel tmp.nonBlock h.blocks.attempts (contents h (a :: rest)) ∧
      Blocks.Accounts h.blocks (footprint kernel h tmp done) h'.blocks
      (footprint kernel h' tmp' done') := by
  have member : a ∈ nodes := copying.member List.mem_cons_self
  have restOf : ∀ c ∈ rest, c ∈ nodes := fun c later => copying.member (List.mem_cons_of_mem _ later)
  obtain ⟨old, ⟨before, split⟩, new, apart, limit, still, keys⟩ := copying
  obtain ⟨status, h₁, tmp₁, done₁, chained₁, inserted, grows, new₁, attempts, mask, copied,
    accounts⟩ :=
    insertWith_grows (fun _ _ => throw .nestedRehash) new
      (fun c inside => keys c inside a List.mem_cons_self) limit
      still (h.pData a)
  obtain ⟨same, old₁, apart₁⟩ := grows.bystander old apart
  have distinct : ∀ c ∈ rest, h.key a ≠ h.key c := by
    intro c later equal
    have one := old.indexed.key_inj (restOf c later) member equal
    have nodup := old.linkage.distinct
    rw [split] at nodup
    exact (List.nodup_cons.mp (List.nodup_append.mp nodup).2.1).1 (one ▸ later)
  have keys₁ := copied_keys copied keys distinct fun c later => same c (restOf c later)
  have split₁ : nodes = (before ++ [a]) ++ rest := by
    rw [split, List.append_assoc, List.singleton_append]
  refine ⟨status, h₁, tmp₁, done₁, chained₁, inserted, ⟨old₁, ⟨_, split₁⟩, new₁, apart₁,
    grows.config.bucketLimit.trans limit, grows.config.iAutomaticRehash.trans still, keys₁⟩, grows,
    mask, ?_, accounts⟩
  have first : contents h (a :: rest) = (h.key a, some d) :: contents h rest := by
    rw [contents, List.map_cons, data]
    rfl
  rw [copied, attempts, grows.config.nonBlock, contents_congr fun c later => same c (restOf c later),
    List.append_assoc, first, survivors, data]
  cases nodeServed kernel tmp.nonBlock h.blocks.attempts <;> rfl

/-- The iterator of the loop moves on. -/
theorem Copying.next {tmp : HashTable D} {done rest : List Addr} {chained : UInt → List Addr}
    (copying : Copying kernel h t nodes chain rest tmp done chained) (a : Addr) :
    ghtNext (iteratorAt (a :: rest)) h = .ok ((iteratorAt rest, rest.head?.bind h.pData), h) := by
  obtain ⟨before, split⟩ := copying.split
  exact ghtNext_saved copying.old split rfl

/-- The loop of `ght_rehash` copies the entries that survive. -/
theorem reinsertFrom_run {tmp : HashTable D} {done rest : List Addr}
    {chained : UInt → List Addr} {fuel : ℕ}
    (copying : Copying kernel h t nodes chain rest tmp done chained) (enough : rest.length ≤ fuel) :
    ∃ h' tmp' done' chained',
      reinsertFrom kernel fuel tmp (iteratorAt rest) (rest.head?.bind h.pData) h = .ok (tmp', h') ∧
      Grows kernel h tmp done h' tmp' done' ∧ Represents kernel h' tmp' done' chained' ∧
      tmp'.iSizeMask = tmp.iSizeMask ∧
      contents h' done' = contents h done ++ survivors kernel tmp.nonBlock h.blocks.attempts
      (contents h rest) ∧
      Blocks.Accounts h.blocks (footprint kernel h tmp done) h'.blocks
      (footprint kernel h' tmp' done') := by
  induction rest generalizing h tmp done chained fuel with
  | nil =>
    refine ⟨h, tmp, done, chained, ?_, .refl, copying.new, rfl, (List.append_nil _).symm, .refl⟩
    cases fuel <;> rfl
  | cons a rest ih =>
    cases data : h.pData a with
    | none =>
      -- an entry without data ends the loop
      refine ⟨h, tmp, done, chained, ?_, .refl, copying.new, rfl, ?_, .refl⟩
      · rw [List.head?_cons, Option.bind_some, data]
        cases fuel <;> rfl
      · rw [contents, contents, List.map_cons, data, survivors, List.append_nil]
    | some d =>
      cases fuel with
      | zero => cases enough
      | succ fuel =>
        have live := copying.old.linkage.live a (.inl (copying.member List.mem_cons_self))
        obtain ⟨status, h₁, tmp₁, done₁, chained₁, inserted, copying₁, grows, mask, copied,
          accounts⟩ := copying.step data
        obtain ⟨h', tmp', done', chained', ran, grows', new', mask', copied', accounts'⟩ :=
          ih copying₁ (Nat.le_of_succ_le_succ enough)
        refine ⟨h', tmp', done', chained', ?_, grows.trans grows', new', mask'.trans mask,
          copied'.trans copied, accounts.trans accounts'⟩
        rw [List.head?_cons, Option.bind_some, data, reinsertFrom, iteratorAt,
          List.head?_cons, deref_some,
          pure_bind_run, field_bind live, field_bind live, bind_ok inserted]
        exact (bind_ok (copying₁.next a)).trans ran

/-! ### `ght_rehash` -/

/-- The table with the buckets and the lists of another one. -/
def replaced (t tmp : HashTable D) : HashTable D :=
  { t with
    iSize := tmp.iSize, iSizeMask := tmp.iSizeMask, iItems := tmp.iItems, ppEntries := tmp.ppEntries,
    pNr := tmp.pNr, pOldest := tmp.pOldest, pNewest := tmp.pNewest,
    entriesBlock := tmp.entriesBlock, nrBlock := tmp.nrBlock }

/-- What `ght_rehash` frees in the end. -/
def leftovers (kernel : Kernel) (h : Heap D) (t tmp : HashTable D) (nodes : List Addr) : List Addr :=
  body kernel h t nodes ++ [tmp.header]

theorem body_subset {x : Addr} (inside : x ∈ body kernel h t nodes) : x ∈ footprint kernel h t nodes :=
  mem_footprint.mpr (List.mem_append_left _ inside)

/-- The old table takes over the new one. -/
theorem replaced_represents {tmp : HashTable D} {done : List Addr} {chained : UInt → List Addr}
    (old : Represents kernel h t nodes chain) (new : Represents kernel h tmp done chained)
    (apart : ∀ x ∈ footprint kernel h t nodes, x ∉ footprint kernel h tmp done)
    (hash : tmp.fnHash = t.fnHash) :
    Represents kernel (freed h (leftovers kernel h t tmp nodes)) (replaced t tmp) done chained := by
  obtain ⟨linkage, stored, indexed⟩ := id new
  obtain ⟨headerApart, tail⟩ := List.nodup_cons.mp stored.apart
  have kept : ∀ x ∈ footprint kernel h tmp done, x ≠ tmp.header →
      x ∉ leftovers kernel h t tmp nodes := by
    intro x inside other gone
    rcases List.mem_append.mp gone with gone | gone
    · exact apart x (body_subset gone) inside
    · exact other (List.mem_singleton.mp gone)
  have keptTail : ∀ x ∈ tmp.entriesBlock :: tmp.nrBlock :: done.flatMap (blocksOf kernel h),
      x ∉ leftovers kernel h t tmp nodes := by
    intro x inside
    refine kept x (List.mem_cons_of_mem _ inside) ?_
    rintro rfl
    exact headerApart inside
  have keptBlocks : ∀ c ∈ done, ∀ x ∈ blocksOf kernel h c, x ∉ leftovers kernel h t tmp nodes := by
    intro c member x block
    exact keptTail x
      (List.mem_cons_of_mem _ (List.mem_cons_of_mem _ (List.mem_flatMap.mpr ⟨c, member, block⟩)))
  have headerIn : t.header ∈ footprint kernel h t nodes := List.mem_cons_self
  have headerKept : t.header ∉ leftovers kernel h t tmp nodes := by
    intro gone
    rcases List.mem_append.mp gone with gone | gone
    · exact header_not_mem old.stored gone
    · refine apart t.header headerIn ?_
      rw [List.mem_singleton.mp gone]
      exact List.mem_cons_self
  have bucket : ∀ key, (replaced t tmp).bucketOf key = tmp.bucketOf key := by
    intro key
    rw [HashTable.bucketOf, HashTable.bucketOf, hash]
    rfl
  refine ⟨(linkage.congr fun c member => cell_freed ?_).recount rfl rfl rfl,
    ⟨fun c member => ?_, ?_, ?_, ?_, ?_⟩,
    ⟨fun c b => ?_, indexed.nr, indexed.items, indexed.keys, indexed.sized, old.indexed.bounded⟩⟩
  · exact keptBlocks c (indexed.member member) c self_mem_blocksOf
  · exact (stored.node c member).congr fun x block =>
      sameNode_of_cell (cell_freed (keptBlocks c member x block))
  · exact (Blocks.without_size headerKept).trans old.stored.header
  · exact (Blocks.without_size (keptTail _ List.mem_cons_self)).trans stored.entries
  · exact (Blocks.without_size (keptTail _ (List.mem_cons_of_mem _ List.mem_cons_self))).trans
      stored.counters
  · refine List.nodup_cons.mpr ⟨fun inside => ?_, tail⟩
    exact apart t.header headerIn (List.mem_cons_of_mem _ inside)
  · rw [bucket]
    exact indexed.inChain c b

/-- The old table and the new one with the copies, before the old one is freed. -/
structure Copied (kernel : Kernel) (h : Heap D) (t : HashTable D) (nodes : List Addr)
    (chain : UInt → List Addr) (h' : Heap D) (tmp : HashTable D) (done : List Addr)
    (chained : UInt → List Addr) : Prop where
  extends' : Extends h h'
  old : Represents kernel h' t nodes chain
  new : Represents kernel h' tmp done chained
  newer : ∀ x ∈ footprint kernel h' tmp done, h.blocks.fresh ≤ x
  fnHash : tmp.fnHash = t.fnHash

theorem Copied.same (copied : Copied kernel h t nodes chain h' t' nodes' chain')
    (represents : Represents kernel h t nodes chain) :
    footprint kernel h' t nodes = footprint kernel h t nodes :=
  footprint_congr (copied.extends'.sameNode represents)

/-- The two tables share no block. -/
theorem Copied.apart (copied : Copied kernel h t nodes chain h' t' nodes' chain')
    (represents : Represents kernel h t nodes chain) :
    ∀ x ∈ footprint kernel h' t nodes, x ∉ footprint kernel h' t' nodes' := by
  intro x inside newer
  rw [copied.same represents] at inside
  exact Nat.not_lt_of_le (copied.newer x newer) (represents.stored.inUse inside)

/-- The table that `ght_rehash` creates, as it sets it up. -/
def temporary (t tmp : HashTable D) : HashTable D :=
  ghtSetRehash (ghtSetHeuristics (ghtSetHash tmp t.fnHash) 0) false

/-- Nothing is copied yet. -/
theorem copying_start {tmp : HashTable D} (represents : Represents kernel h t nodes chain)
    (created : CreatedTable kernel h h' tmp) :
    Copying kernel h' t nodes chain nodes (temporary t tmp) [] fun _ => [] := by
  have same := created.extends'.sameNode represents
  have new : Represents kernel h' (temporary t tmp) [] _ :=
    (created.represents.hashed t.fnHash).configured 0 false created.represents.indexed.bounded
  refine ⟨created.extends'.represents represents, ⟨[], rfl⟩, new, fun x inside newer => ?_,
    created.bucketLimit, rfl, fun c none' => absurd none' List.not_mem_nil⟩
  rw [footprint_congr same] at inside
  exact Nat.not_lt_of_le (created.new x newer) (represents.stored.inUse inside)

/-- The first half of `ght_rehash`: a new table, and a copy of each entry that survives. -/
theorem copy_run (represents : Represents kernel h t nodes chain) {requested : UInt}
    (fits : requested.toNat ≤ 2 ^ 31) (served : tableServed kernel h.blocks.attempts = true) :
    ∃ h₁ tmp h' tmp' done chained, ghtCreate kernel requested t.nonBlock h = .ok (some tmp, h₁) ∧
      Represents kernel h₁ t nodes chain ∧
      reinsertFrom kernel h₁.blocks.fresh (temporary t tmp) (iteratorAt nodes)
      (nodes.head?.bind h₁.pData) h₁ =
        .ok (tmp', h') ∧
      Copied kernel h t nodes chain h' tmp' done chained ∧ tmp'.iSizeMask = newMask requested ∧
      contents h' done = survivors kernel t.nonBlock (h.blocks.attempts + 3) (contents h nodes) ∧
      Blocks.Accounts h.blocks [] h'.blocks (footprint kernel h' tmp' done) := by
  obtain ⟨h₁, tmp, createdRun, created, nonBlock, mask, accounts⟩ :=
    ghtCreate_served fits t.nonBlock served
  have copying := copying_start represents created
  have old₁ := copying.old
  have same₁ := created.extends'.sameNode represents
  obtain ⟨h', tmp', done, chained, copiedRun, grows, new', mask', copied, accounts'⟩ :=
    reinsertFrom_run copying old₁.nodes_length
  refine ⟨h₁, tmp, h', tmp', done, chained, createdRun, old₁, copiedRun, ⟨⟨fun x older => ?_, ?_⟩,
    (grows.bystander old₁ copying.apart).2.1, new', fun x inside => ?_, grows.config.fnHash⟩,
    mask'.trans mask, ?_, accounts.trans accounts'⟩
  · refine (grows.outside x (Nat.lt_of_lt_of_le older created.extends'.fresh) fun inside => ?_).trans
      (created.extends'.old x older)
    exact Nat.not_lt_of_le (created.new x inside) older
  · exact Nat.le_trans created.extends'.fresh grows.fresh
  · rcases grows.inside x inside with first | later
    · exact created.new x first
    · exact Nat.le_trans created.extends'.fresh later
  · have block : (temporary t tmp).nonBlock = t.nonBlock := nonBlock
    rw [copied, contents_congr same₁, created.attempts, block]
    rfl

/-- `ght_rehash` with the memory for the new table: the entries that survive are those
whose copies could be allocated. -/
theorem ghtRehash_run (represents : Represents kernel h t nodes chain) {requested : UInt}
    (fits : requested.toNat ≤ 2 ^ 31) (served : tableServed kernel h.blocks.attempts = true) :
    ∃ h' t' nodes' chain', ghtRehash kernel t requested h = .ok (t', h') ∧
      Grows kernel h t nodes h' t' nodes' ∧
      Represents kernel h' t' nodes' chain' ∧ t'.iSizeMask = newMask requested ∧
      contents h' nodes' = survivors kernel t.nonBlock (h.blocks.attempts + 3) (contents h nodes) ∧
      Blocks.Accounts h.blocks (footprint kernel h t nodes) h'.blocks (footprint kernel h' t' nodes') ∧
      (∀ c ∈ nodes', h.blocks.fresh ≤ c) ∧ ∀ c ∈ nodes, h'.blocks.live c = false := by
  obtain ⟨h₁, tmp, h₂, tmp₂, done, chained, createdRun, old₁, copiedRun, copied, mask, survived,
    accounts⟩ :=
    copy_run represents fits served
  have apart := copied.apart represents
  obtain ⟨entriesFreed, countersFreed⟩ := body_freed copied.old
  have headerKept : tmp₂.header ∉ body kernel h₂ t nodes :=
    fun gone => apart _ (body_subset gone) List.mem_cons_self
  refine ⟨freed h₂ (leftovers kernel h₂ t tmp₂ nodes), replaced t tmp₂, done, chained, ?_,
    ⟨⟨rfl, rfl, rfl, rfl, rfl, rfl⟩, fun x older outside => ?_, fun x inside => ?_,
    copied.extends'.fresh⟩,
    replaced_represents copied.old copied.new apart copied.fnHash, mask, survived, ?_,
    fun c member => copied.newer c (nodes_subset member), fun c member => ?_⟩
  · rw [ghtRehash, bind_ok createdRun]
    dsimp only
    rw [bind_ok (ghtFirst_run old₁)]
    dsimp only
    refine (get_bind _).trans ((bind_ok copiedRun).trans ?_)
    rw [bind_ok (freeBuckets_run copied.old), bind_ok entriesFreed, bind_ok countersFreed,
      bind_ok (fnFree_after copied.new.stored.header headerKept)]
    rfl
  · have kept : x ∉ leftovers kernel h₂ t tmp₂ nodes := by
      intro gone
      rcases List.mem_append.mp gone with gone | gone
      · exact outside (copied.same represents ▸ body_subset gone)
      · rw [List.mem_singleton.mp gone] at older
        exact Nat.not_lt_of_le (copied.newer _ List.mem_cons_self) older
    exact (cell_freed kept).trans (copied.extends'.old x older)
  · rcases List.mem_cons.mp inside with rfl | inside
    · exact .inl List.mem_cons_self
    · exact .inr (copied.newer x (List.mem_cons_of_mem _ inside))
  · -- the old body and the header of the new table go, the old header stays
    have grown := accounts.append (footprint kernel h t nodes)
    have released : Blocks.Accounts h₂.blocks (leftovers kernel h₂ t tmp₂ nodes)
        (h₂.blocks.without (leftovers kernel h₂ t tmp₂ nodes)) [] := .of_without ..
    have kept := released.append (footprint kernel h₂ (replaced t tmp₂) done)
    refine grown.trans (kept.congr (fun x => ?_) fun _ => Iff.rfl)
    rw [← copied.same represents, List.mem_append, mem_footprint (t := t), mem_footprint (t := tmp₂)]
    simp only [footprint, leftovers, body, replaced, List.mem_append, List.mem_cons,
      List.not_mem_nil, or_false]
    grind
  · have inBody : c ∈ nodes.flatMap (blocksOf kernel h₂) :=
      List.mem_flatMap.mpr ⟨c, member, self_mem_blocksOf⟩
    refine Blocks.not_live_without (List.mem_append_left _ ?_)
    exact List.mem_append_left _ (List.mem_append_left _ inBody)

/-- How `ght_rehash` stops the kernel: it gets no memory for the new table, or never
finds a size for it. -/
inductive RehashFault (kernel : Kernel) (attempts : ℕ) (requested : UInt) : Fault → Prop
  | refused (missing : tableServed kernel attempts = false) :
    RehashFault kernel attempts requested .nullDereference
  | huge (above : 2 ^ 31 < requested.toNat) : RehashFault kernel attempts requested .endless

/-- `ght_rehash` without a new table stops the kernel. -/
theorem ghtRehash_faults {requested : UInt}
    (fails : ¬ (requested.toNat ≤ 2 ^ 31 ∧ tableServed kernel h.blocks.attempts = true)) :
    ∃ fault, RehashFault kernel h.blocks.attempts requested fault ∧ ghtRehash kernel t requested h =
      .error fault := by
  rcases ghtCreate_fails t.nonBlock fails with ⟨above, stopped⟩ | ⟨missing, h', failed, -⟩
  · exact ⟨.endless, .huge above, bind_error stopped⟩
  · refine ⟨.nullDereference, .refused missing, ?_⟩
    rw [ghtRehash, bind_ok failed]
    rfl

end FsdFilter.TableRehash
