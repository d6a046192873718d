import Mathlib.Data.List.Basic
import FsdFilter.ChainEdits

/-! When the memory holds a hash table: the entries by age, the chain of each bucket,
and the blocks that the table owns. An entry is in the chain of the bucket of its key,
and no key is there twice. -/
namespace FsdFilter.TableRepresentation
open SizedBlocks LinkedLists StateRuns CommonHashTable TableMemory ChainEdits

variable {D : Type} {kernel : Kernel} {h h' : Heap D} {t t' : HashTable D} {nodes : List Addr}
  {chain : UInt → List Addr} {a : Addr} {b : UInt} {key : HashKey}

/-- `search_in_bucket` takes keys for equal when they have the same bytes. -/
theorem sameKey_iff {stored : HashKey} : sameKey stored key = true ↔ stored = key := by
  rw [sameKey, memcmpEqual, Bool.and_eq_true, decide_eq_true_eq, decide_eq_true_eq]
  constructor
  · rintro ⟨size, bytes⟩
    have whole : stored.bytes.take stored.iSize = stored.bytes := List.take_length
    have whole' : key.bytes.take stored.iSize = key.bytes := by
      rw [size]
      exact List.take_length
    rw [whole, whole'] at bytes
    cases stored
    cases key
    cases bytes
    rfl
  · rintro rfl
    exact ⟨rfl, rfl⟩

/-- The blocks of an entry: its own, and in a DBG build that of the shadow of its key. -/
def blocksOf (kernel : Kernel) (h : Heap D) (a : Addr) : List Addr :=
  a :: if kernel.dbg then (h.keyShadow a).toList else []

/-- All the blocks of a table. -/
def footprint (kernel : Kernel) (h : Heap D) (t : HashTable D) (nodes : List Addr) : List Addr :=
  t.header :: t.entriesBlock :: t.nrBlock :: nodes.flatMap (blocksOf kernel h)

/-- An entry is allocated as `he_create` does it. -/
structure Node (kernel : Kernel) (h : Heap D) (a : Addr) : Prop where
  block : h.blocks.size a = some (kernel.sizeofHashEntry + (h.key a).iSize)
  size : h.size a = kernel.sizeofHashEntry + (h.key a).iSize
  shadow : kernel.dbg = true → ∃ s, h.keyShadow a = some s ∧ h.blocks.size s = some (h.key a).iSize

/-- The blocks of a table are allocated, each for one purpose. -/
structure Stored (kernel : Kernel) (h : Heap D) (t : HashTable D) (nodes : List Addr) : Prop where
  node : ∀ a ∈ nodes, Node kernel h a
  header : h.blocks.size t.header = some sizeofHashTable
  entries : h.blocks.size t.entriesBlock = some (t.iSize.toNat * 8)
  counters : h.blocks.size t.nrBlock = some (t.iSize.toNat * 4)
  apart : (footprint kernel h t nodes).Nodup

/-- The number of buckets is a power of two, and the mask keeps a hash below it. -/
structure WellSized (iSize iSizeMask : UInt) : Prop where
  masked : iSizeMask.toNat + 1 = iSize.toNat
  power : ∃ k < 32, iSize.toNat = 2 ^ k

/-- What `ght_insert` relies on when it calls `fn_bucket_free`: the table and its memory
are left alone. -/
def LeavesAlone (code : BucketFree D) : Prop :=
  ∀ pData key fields h, code pData key fields h = .ok (fields, h)

/-- The settings for bounded buckets: a limit has a callback, which leaves the table
alone. -/
structure Bounded (limit : UInt) (fn : Option (BucketFree D)) : Prop where
  given : limit ≠ 0 → fn ≠ none
  leavesAlone : ∀ code ∈ fn, LeavesAlone code

theorem Bounded.of_leavesAlone {limit : UInt} {code : BucketFree D} (leavesAlone : LeavesAlone code) :
    Bounded limit (some code) :=
  ⟨fun _ => Option.some_ne_none code, fun _ given => Option.mem_some_iff.mp given ▸ leavesAlone⟩

/-- The chains hold what the keys say, the counts are right, and a limit of the buckets
can be used. -/
structure Indexed (h : Heap D) (t : HashTable D) (nodes : List Addr)
    (chain : UInt → List Addr) : Prop where
  inChain : ∀ a b, a ∈ chain b ↔ a ∈ nodes ∧ t.bucketOf (h.key a) = b
  nr : ∀ b, t.pNr b = BitVec.ofNat 32 (chain b).length
  items : t.iItems = BitVec.ofNat 32 nodes.length
  keys : (nodes.map h.key).Nodup
  sized : WellSized t.iSize t.iSizeMask
  bounded : Bounded t.bucketLimit t.fnBucketFree

/-- The memory holds the table with these entries, oldest first. -/
structure Represents (kernel : Kernel) (h : Heap D) (t : HashTable D) (nodes : List Addr)
    (chain : UInt → List Addr) : Prop where
  linkage : Linkage h t nodes chain
  stored : Stored kernel h t nodes
  indexed : Indexed h t nodes chain

/-- The keys and the data of entries. -/
def contents (h : Heap D) (nodes : List Addr) : List (HashKey × Option D) :=
  nodes.map fun a => (h.key a, h.pData a)

/-! ### Frames -/

/-- The blocks and the contents at an address are the same. -/
structure SameNode (h h' : Heap D) (a : Addr) : Prop where
  block : h'.blocks.size a = h.blocks.size a
  key : h'.key a = h.key a
  pData : h'.pData a = h.pData a
  size : h'.size a = h.size a
  keyShadow : h'.keyShadow a = h.keyShadow a

theorem sameNode_of_cell (same : cell h' a = cell h a) : SameNode h h' a :=
  ⟨congrArg Cell.block same, congrArg Cell.key same, congrArg Cell.pData same, congrArg Cell.size same,
    congrArg Cell.keyShadow same⟩

theorem sameNode_of_relinked {inside : Addr → Prop} (relinked : Relinked h h' inside) (a : Addr) :
    SameNode h h' a :=
  ⟨by rw [relinked.blocks], by rw [relinked.key], by rw [relinked.pData], by rw [relinked.size],
    by rw [relinked.keyShadow]⟩

theorem SameNode.blocksOf_eq (same : SameNode h h' a) : blocksOf kernel h' a = blocksOf kernel h a := by
  rw [blocksOf, same.keyShadow]
  rfl

theorem self_mem_blocksOf : a ∈ blocksOf kernel h a := List.mem_cons_self

theorem shadow_mem_blocksOf {s : Addr} (dbg : kernel.dbg = true) (shadow : h.keyShadow a = some s) :
    s ∈ blocksOf kernel h a := by
  rw [blocksOf, if_pos dbg, shadow]
  exact List.mem_cons_of_mem _ List.mem_cons_self

theorem blocksOf_subset (member : a ∈ nodes) {x : Addr} (block : x ∈ blocksOf kernel h a) :
    x ∈ footprint kernel h t nodes := by
  refine List.mem_cons_of_mem _ (List.mem_cons_of_mem _ (List.mem_cons_of_mem _ ?_))
  exact List.mem_flatMap.mpr ⟨a, member, block⟩

theorem nodes_subset (member : a ∈ nodes) : a ∈ footprint kernel h t nodes :=
  blocksOf_subset member self_mem_blocksOf

theorem Node.congr (node : Node kernel h a) (same : ∀ x ∈ blocksOf kernel h a, SameNode h h' x) :
    Node kernel h' a := by
  have here := same a self_mem_blocksOf
  constructor
  · rw [here.block, here.key]
    exact node.block
  · rw [here.size, here.key]
    exact node.size
  · intro dbg
    obtain ⟨s, shadow, block⟩ := node.shadow dbg
    refine ⟨s, here.keyShadow.trans shadow, ?_⟩
    rw [(same s (shadow_mem_blocksOf dbg shadow)).block, here.key]
    exact block

theorem flatMap_blocksOf (same : ∀ a ∈ nodes, SameNode h h' a) :
    nodes.flatMap (blocksOf kernel h') = nodes.flatMap (blocksOf kernel h) :=
  List.flatMap_congr fun a member => (same a member).blocksOf_eq

theorem footprint_congr (same : ∀ a ∈ nodes, SameNode h h' a) :
    footprint kernel h' t nodes = footprint kernel h t nodes := by
  rw [footprint, flatMap_blocksOf same]
  rfl

/-- The table is stored where the blocks and the contents are the same. -/
theorem Stored.congr (stored : Stored kernel h t nodes)
    (same : ∀ x ∈ footprint kernel h t nodes, SameNode h h' x) (header : t'.header = t.header)
    (entries : t'.entriesBlock = t.entriesBlock) (counters : t'.nrBlock = t.nrBlock)
    (size : t'.iSize = t.iSize) : Stored kernel h' t' nodes := by
  refine ⟨fun a member => ?_, ?_, ?_, ?_, ?_⟩
  · exact (stored.node a member).congr fun x block => same x (blocksOf_subset member block)
  · rw [header, (same t.header (by simp [footprint])).block]
    exact stored.header
  · rw [entries, size, (same t.entriesBlock (by simp [footprint])).block]
    exact stored.entries
  · rw [counters, size, (same t.nrBlock (by simp [footprint])).block]
    exact stored.counters
  · rw [footprint, header, entries, counters, flatMap_blocksOf fun a member => same a (nodes_subset member)]
    exact stored.apart

theorem contents_congr (same : ∀ a ∈ nodes, SameNode h h' a) :
    contents h' nodes = contents h nodes := by
  apply List.map_congr_left
  intro a member
  rw [(same a member).key, (same a member).pData]

/-- The blocks of an entry are in use. -/
theorem Node.inUse (node : Node kernel h a) {x : Addr} (block : x ∈ blocksOf kernel h a) :
    x < h.blocks.fresh := by
  apply Blocks.lt_fresh
  rcases List.mem_cons.mp block with rfl | shadow
  · exact Blocks.live_of_size node.block
  · cases dbg : kernel.dbg with
    | false =>
      rw [dbg, if_neg Bool.false_ne_true] at shadow
      cases shadow
    | true =>
      obtain ⟨s, shadowIs, size⟩ := node.shadow dbg
      rw [if_pos dbg, shadowIs, Option.toList_some, List.mem_singleton] at shadow
      rw [shadow]
      exact Blocks.live_of_size size

/-- All the blocks of a table are in use. -/
theorem Stored.inUse (stored : Stored kernel h t nodes) {x : Addr}
    (member : x ∈ footprint kernel h t nodes) :
    x < h.blocks.fresh := by
  rcases List.mem_cons.mp member with rfl | member
  · exact Blocks.lt_fresh (Blocks.live_of_size stored.header)
  rcases List.mem_cons.mp member with rfl | member
  · exact Blocks.lt_fresh (Blocks.live_of_size stored.entries)
  rcases List.mem_cons.mp member with rfl | member
  · exact Blocks.lt_fresh (Blocks.live_of_size stored.counters)
  obtain ⟨a, inNodes, block⟩ := List.mem_flatMap.mp member
  exact (stored.node a inNodes).inUse block

/-! ### What a represented table says -/

/-- There are no more entries than addresses were handed out. -/
theorem length_le_fresh {l : List Addr} (distinct : l.Nodup) (live : ∀ a ∈ l, h.blocks.live a = true) :
    l.length ≤ h.blocks.fresh := by
  have inside : l ⊆ List.range h.blocks.fresh :=
    fun a member => List.mem_range.mpr (Blocks.lt_fresh (live a member))
  have shorter := (List.subperm_of_subset distinct inside).length_le
  rwa [List.length_range] at shorter

theorem Represents.chain_length (represents : Represents kernel h t nodes chain) (b : UInt) :
    (chain b).length ≤ h.blocks.fresh :=
  length_le_fresh (represents.linkage.chainDistinct b)
    (fun a member => represents.linkage.live a (.inr ⟨b, member⟩))

theorem Represents.nodes_length (represents : Represents kernel h t nodes chain) :
    nodes.length ≤ h.blocks.fresh :=
  length_le_fresh represents.linkage.distinct (fun a member => represents.linkage.live a (.inl member))

theorem Indexed.mem_chain (indexed : Indexed h t nodes chain) (member : a ∈ nodes) :
    a ∈ chain (t.bucketOf (h.key a)) := (indexed.inChain a _).mpr ⟨member, rfl⟩

theorem Indexed.member (indexed : Indexed h t nodes chain) (member : Member nodes chain a) :
    a ∈ nodes := by
  rcases member with member | ⟨b, member⟩
  · exact member
  · exact ((indexed.inChain a b).mp member).1

/-- Two entries have different keys. -/
theorem Indexed.key_inj (indexed : Indexed h t nodes chain) {c : Addr} (first : a ∈ nodes)
    (second : c ∈ nodes) (same : h.key c = h.key a) : c = a :=
  List.inj_on_of_nodup_map indexed.keys second first same

/-- A hash is cut to a bucket of the table. -/
theorem bucketOf_lt (sized : WellSized t.iSize t.iSizeMask) (key : HashKey) :
    (t.bucketOf key).toNat < t.iSize.toNat := by
  rw [HashTable.bucketOf, BitVec.toNat_and, ← sized.masked]
  exact Nat.lt_succ_of_le Nat.and_le_right

/-- The order in a chain says nothing. -/
theorem Indexed.reordered {l : List Addr} (indexed : Indexed h t nodes chain) (keys : h'.key = h.key)
    (reheaded : Reheaded t t') (perm : l.Perm (chain b)) :
    Indexed h' t' nodes (Function.update chain b l) := by
  obtain ⟨entries, oldest, newest, rfl⟩ := reheaded
  refine ⟨fun a b' => ?_, fun b' => ?_, indexed.items, ?_, indexed.sized, indexed.bounded⟩
  · rw [keys]
    refine Iff.trans ?_ (indexed.inChain a b')
    by_cases here : b' = b
    · rw [here, Function.update_self]
      exact perm.mem_iff
    · rw [Function.update_of_ne here]
  · by_cases here : b' = b
    · rw [here, Function.update_self, perm.length_eq]
      exact indexed.nr b
    · rw [Function.update_of_ne here]
      exact indexed.nr b'
  · rw [keys]
    exact indexed.keys

/-- A lookup may reorder a chain: the table stays the same. -/
theorem Represents.rechained {l : List Addr} (represents : Represents kernel h t nodes chain)
    (rechained : Rechained h t nodes chain b l h' t') :
    Reheaded t t' ∧ Relinked h h' (· ∈ nodes) ∧
      Represents kernel h' t' nodes (Function.update chain b l) := by
  obtain ⟨reheaded, relinked, perm, linkage⟩ := rechained
  refine ⟨reheaded, relinked.mono fun c member => represents.indexed.member (.inr ⟨b, member⟩),
    linkage, ?_, represents.indexed.reordered relinked.key reheaded perm⟩
  obtain ⟨entries, oldest, newest, rfl⟩ := reheaded
  exact represents.stored.congr (fun x _ => sameNode_of_relinked relinked x) rfl rfl rfl rfl

/-- The keys of the entries are all that the counts and chains depend on. -/
theorem Indexed.congr (indexed : Indexed h t nodes chain) (keys : ∀ a ∈ nodes, h'.key a = h.key a) :
    Indexed h' t nodes chain := by
  refine ⟨fun a b => ?_, indexed.nr, indexed.items, ?_, indexed.sized, indexed.bounded⟩
  · refine (indexed.inChain a b).trans (and_congr_right fun member => ?_)
    rw [keys a member]
  · rw [List.map_congr_left keys]
    exact indexed.keys

/-- The head pointers do not matter for what the chains hold. -/
theorem Indexed.reheaded (indexed : Indexed h t nodes chain) (reheaded : Reheaded t t') :
    Indexed h t' nodes chain := by
  obtain ⟨entries, oldest, newest, rfl⟩ := reheaded
  exact ⟨indexed.inChain, indexed.nr, indexed.items, indexed.keys, indexed.sized, indexed.bounded⟩

/-- Links that were rewritten hold the same table when they form the same lists. -/
theorem represents_of_relinked {inside : Addr → Prop} (relinked : Relinked h h' inside)
    (reheaded : Reheaded t t') (linkage : Linkage h' t' nodes chain)
    (stored : Stored kernel h t nodes) (indexed : Indexed h t nodes chain) :
    Represents kernel h' t' nodes chain := by
  have same : ∀ x, SameNode h h' x := fun x => sameNode_of_relinked relinked x
  refine ⟨linkage, ?_, (indexed.congr fun c _ => (same c).key).reheaded reheaded⟩
  obtain ⟨entries, oldest, newest, rfl⟩ := reheaded
  exact stored.congr (fun x _ => same x) rfl rfl rfl rfl

/-- The counts are no part of the blocks. -/
theorem Stored.recount (stored : Stored kernel h t nodes) (items : UInt) (nr : UInt → UInt) :
    Stored kernel h { t with iItems := items, pNr := nr } nodes :=
  { stored with }

/-- The settings of a table are no part of what it holds. -/
theorem Represents.configured {limit : UInt} {fn : Option (BucketFree D)}
    (represents : Represents kernel h t nodes chain) (heuristics : UInt) (rehash : Bool)
    (bounded : Bounded limit fn) :
    Represents kernel h { t with
      iHeuristics := heuristics, iAutomaticRehash := rehash, bucketLimit := limit,
        fnBucketFree := fn } nodes chain :=
  ⟨represents.linkage.recount rfl rfl rfl, { represents.stored with },
    { represents.indexed with bounded := bounded }⟩

/-- A limit that comes with a callback is set. -/
theorem ghtSetBoundedBuckets_run {limit : UInt} {fn : Option (BucketFree D)}
    (bounded : Bounded limit fn) :
    ghtSetBoundedBuckets t limit fn h =
      .ok ({ t with bucketLimit := limit, fnBucketFree := fn }, h) := by
  rw [ghtSetBoundedBuckets, if_neg]
  · rfl
  · rintro ⟨limited, missing⟩
    exact bounded.given limited (Option.isNone_iff_eq_none.mp missing)

/-- A limit without a callback is not survived. -/
theorem ghtSetBoundedBuckets_panics {limit : UInt} (limited : limit ≠ 0) :
    ghtSetBoundedBuckets t limit none h = .error .panic := by
  rw [ghtSetBoundedBuckets, if_pos ⟨limited, rfl⟩]
  rfl

/-- A limit that was set can be used. -/
theorem bounded_of_set {limit : UInt} {fn : Option (BucketFree D)}
    (leavesAlone : ∀ code ∈ fn, LeavesAlone code)
    (ran : ghtSetBoundedBuckets t limit fn h = .ok (t', h')) : Bounded limit fn := by
  refine ⟨?_, leavesAlone⟩
  rintro limited rfl
  rw [ghtSetBoundedBuckets_panics limited] at ran
  cases ran

/-- A callback that leaves the table alone is called without effect. -/
theorem callBucketFree_run (bounded : Bounded t.bucketLimit t.fnBucketFree)
    (limited : t.bucketLimit ≠ 0) (pData : Option D) (key : HashKey) :
    callBucketFree t pData key h = .ok (t, h) := by
  obtain ⟨code, given⟩ := Option.ne_none_iff_exists'.mp (bounded.given limited)
  have called : code pData key t.toTableFields h = .ok (t.toTableFields, h) :=
    bounded.leavesAlone code given ..
  rw [callBucketFree, given]
  dsimp only
  rw [bind_ok called, pure_run, ← given]

/-- The hash function of an empty table can be changed. -/
theorem Represents.hashed (represents : Represents kernel h t [] fun _ => [])
    (fnHash : HashKey → UInt) :
    Represents kernel h { t with fnHash } [] fun _ => [] :=
  ⟨represents.linkage.recount rfl rfl rfl, { represents.stored with },
    { represents.indexed with inChain := fun _ _ => by simp }⟩

/-- A table stays as it is while others use the rest of the memory. -/
theorem Represents.frame (represents : Represents kernel h t nodes chain)
    (same : ∀ x ∈ footprint kernel h t nodes, cell h' x = cell h x) :
    Represents kernel h' t nodes chain := by
  constructor
  · exact represents.linkage.congr fun a member =>
      same a (nodes_subset (represents.indexed.member member))
  · exact represents.stored.congr (fun x member => sameNode_of_cell (same x member)) rfl rfl rfl rfl
  · exact represents.indexed.congr fun a member => (sameNode_of_cell (same a (nodes_subset member))).key

/-! ### One entry less -/

/-- A count of the table after one entry less. -/
theorem count_pred {n : ℕ} (some' : 0 < n) : BitVec.ofNat 32 n - 1 = BitVec.ofNat 32 (n - 1) := by
  obtain ⟨k, rfl⟩ := Nat.exists_eq_succ_of_ne_zero (Nat.ne_of_gt some')
  rw [Nat.succ_sub_one, Nat.succ_eq_add_one, BitVec.ofNat_add]
  exact BitVec.add_sub_cancel ..

/-- The table without an entry, before its blocks are freed. -/
theorem Indexed.erase (indexed : Indexed h t nodes chain) (distinct : nodes.Nodup)
    (chainDistinct : ∀ b, (chain b).Nodup) (member : a ∈ nodes) (bucket : t.bucketOf (h.key a) = b) :
    Indexed h { t with iItems := t.iItems - 1, pNr := Function.update t.pNr b (t.pNr b - 1) }
      (nodes.erase a) (Function.update chain b ((chain b).erase a)) := by
  have inChain : a ∈ chain b := (indexed.inChain a b).mpr ⟨member, bucket⟩
  refine ⟨fun c b' => ?_, fun b' => ?_, ?_, ?_, indexed.sized, indexed.bounded⟩
  · have place : c ∈ chain b' ↔ c ∈ nodes ∧ t.bucketOf (h.key c) = b' := indexed.inChain c b'
    rw [distinct.mem_erase_iff, and_assoc]
    by_cases here : b' = b
    · rw [here, Function.update_self, (chainDistinct b).mem_erase_iff, ← here, place]
      rfl
    · rw [Function.update_of_ne here, place]
      refine ⟨fun inside => ⟨?_, inside⟩, fun inside => inside.2⟩
      rintro rfl
      exact here (inside.2.symm.trans bucket)
  · by_cases here : b' = b
    · rw [here]
      simp only [Function.update_self]
      rw [indexed.nr b, count_pred (List.length_pos_of_mem inChain), List.length_erase_of_mem inChain]
    · simp only [Function.update_of_ne here]
      exact indexed.nr b'
  · rw [List.length_erase_of_mem member, ← count_pred (List.length_pos_of_mem member), ← indexed.items]
  · exact indexed.keys.sublist (List.erase_sublist.map h.key)

/-! ### One entry more -/

/-- The counts and chains with a new key. -/
theorem Indexed.insert (indexed : Indexed h t nodes chain) (new : ∀ c ∈ nodes, h.key c ≠ h.key a)
    (bucket : t.bucketOf (h.key a) = b) :
    Indexed h { t with iItems := t.iItems + 1, pNr := Function.update t.pNr b (t.pNr b + 1) }
      (nodes ++ [a]) (Function.update chain b (a :: chain b)) := by
  refine ⟨fun c b' => ?_, fun b' => ?_, ?_, ?_, indexed.sized, indexed.bounded⟩
  · have place : c ∈ chain b' ↔ c ∈ nodes ∧ t.bucketOf (h.key c) = b' := indexed.inChain c b'
    show c ∈ Function.update chain b (a :: chain b) b' ↔ c ∈ nodes ++ [a] ∧ t.bucketOf (h.key c) = b'
    rw [List.mem_append, List.mem_singleton, or_and_right, ← place]
    by_cases here : b' = b
    · rw [here, Function.update_self, List.mem_cons, or_comm]
      exact or_congr_right ⟨fun same => ⟨same, same ▸ bucket⟩, And.left⟩
    · have notSelf : ¬ (c = a ∧ t.bucketOf (h.key c) = b') := by
        rintro ⟨rfl, same⟩
        exact here (same.symm.trans bucket)
      rw [Function.update_of_ne here]
      exact ⟨.inl, fun inside => inside.resolve_right notSelf⟩
  · by_cases here : b' = b
    · rw [here]
      simp only [Function.update_self]
      rw [indexed.nr b, List.length_cons, BitVec.ofNat_add]
      rfl
    · simp only [Function.update_of_ne here]
      exact indexed.nr b'
  · rw [List.length_append, List.length_singleton, BitVec.ofNat_add, ← indexed.items]
    rfl
  · rw [List.map_append, List.map_singleton]
    refine List.nodup_append.mpr ⟨indexed.keys, List.nodup_singleton _, ?_⟩
    intro key old other here same
    obtain ⟨c, member, rfl⟩ := List.mem_map.mp old
    exact new c member (same.trans (List.mem_singleton.mp here))

theorem footprint_append :
    footprint kernel h t (nodes ++ [a]) = footprint kernel h t nodes ++ blocksOf kernel h a := by
  simp only [footprint, List.flatMap_append, List.flatMap_singleton, List.cons_append]

/-- The blocks of a new entry join those of the table. -/
theorem Stored.append (stored : Stored kernel h t nodes) (node : Node kernel h a)
    (own : (blocksOf kernel h a).Nodup)
    (new : ∀ x ∈ blocksOf kernel h a, x ∉ footprint kernel h t nodes) :
    Stored kernel h t (nodes ++ [a]) := by
  refine { stored with node := fun c member => ?_, apart := ?_ }
  · rcases List.mem_append.mp member with old | here
    · exact stored.node c old
    · exact List.mem_singleton.mp here ▸ node
  · rw [footprint_append]
    exact List.nodup_append.mpr ⟨stored.apart, own, fun x inside y block same => new y block (same ▸ inside)⟩

/-! ### Giving blocks back -/

/-- The memory after blocks were freed. -/
def freed (h : Heap D) (gone : List Addr) : Heap D := { h with blocks := h.blocks.without gone }

theorem cell_freed {gone : List Addr} {x : Addr} (kept : x ∉ gone) :
    cell (freed h gone) x = cell h x := by
  rw [cell, cell, freed, Blocks.without_size kept]

theorem freed_append (gone more : List Addr) : freed h (gone ++ more) = freed (freed h gone) more := by
  rw [freed, freed, freed, Blocks.without_append]

theorem freed_nil : freed h [] = h := by
  rw [freed, Blocks.without_nil]

theorem freed_congr {gone gone' : List Addr} (same : ∀ x, x ∈ gone ↔ x ∈ gone') :
    freed h gone = freed h gone' := by
  rw [freed, freed, Blocks.without_congr same]

theorem fnFree_freed {size : ℕ} (allocated : h.blocks.size a = some size) :
    fnFree a size h = .ok ((), freed h [a]) :=
  fnFree_run allocated

theorem relinked_freed {inside : Addr → Prop} (relinked : Relinked h h' inside) (gone : List Addr) :
    Relinked (freed h gone) (freed h' gone) inside :=
  { relinked with blocks := by rw [freed, freed, relinked.blocks] }

theorem Represents.freed {gone : List Addr} (represents : Represents kernel h t nodes chain)
    (apart : ∀ x ∈ footprint kernel h t nodes, x ∉ gone) :
    Represents kernel (freed h gone) t nodes chain :=
  represents.frame fun x member => cell_freed (apart x member)

/-- The blocks of one entry, and those of the table without it. -/
theorem footprint_perm (member : a ∈ nodes) :
    (footprint kernel h t nodes).Perm (blocksOf kernel h a ++ footprint kernel h t (nodes.erase a)) := by
  have parts : (nodes.flatMap (blocksOf kernel h)).Perm
      (blocksOf kernel h a ++ (nodes.erase a).flatMap (blocksOf kernel h)) :=
    (List.perm_cons_erase member).flatMap_right (blocksOf kernel h)
  exact (parts.append_left [t.header, t.entriesBlock, t.nrBlock]).trans (List.perm_append_comm_assoc ..)

/-- An entry shares no block with the rest of the table. -/
theorem Stored.own_blocks (stored : Stored kernel h t nodes) (member : a ∈ nodes) :
    (blocksOf kernel h a).Nodup ∧ (footprint kernel h t (nodes.erase a)).Nodup ∧
      ∀ x ∈ footprint kernel h t (nodes.erase a), x ∉ blocksOf kernel h a := by
  obtain ⟨own, rest, apart⟩ := List.nodup_append.mp ((footprint_perm member).nodup_iff.mp stored.apart)
  exact ⟨own, rest, fun x inside block => apart x block x inside rfl⟩

theorem footprint_erase (member : a ∈ nodes) {x : Addr}
    (inside : x ∈ footprint kernel h t (nodes.erase a)) :
    x ∈ footprint kernel h t nodes :=
  (footprint_perm member).mem_iff.mpr (List.mem_append_right _ inside)

theorem Stored.erase (stored : Stored kernel h t nodes) (member : a ∈ nodes) :
    Stored kernel h t (nodes.erase a) :=
  { stored with
    node := fun c inside => stored.node c (List.mem_of_mem_erase inside)
    apart := (stored.own_blocks member).2.1 }

/-- `he_finalize` frees the blocks of an entry. -/
theorem heFinalize_run (node : Node kernel h a) (apart : (blocksOf kernel h a).Nodup) :
    heFinalize kernel a h = .ok ((), freed h (blocksOf kernel h a)) := by
  have live := Blocks.live_of_size node.block
  cases dbg : kernel.dbg with
  | false =>
    rw [heFinalize, dbg, if_neg Bool.false_ne_true]
    dsimp only
    rw [field_bind live, node.size, fnFree_freed node.block, blocksOf, dbg, if_neg Bool.false_ne_true]
  | true =>
    obtain ⟨s, shadow, block⟩ := node.shadow dbg
    have blocks : blocksOf kernel h a = [a, s] := by
      rw [blocksOf, if_pos dbg, shadow]
      rfl
    rw [blocks] at apart ⊢
    have other : a ∉ [s] := (List.nodup_cons.mp apart).1
    have kept : (freed h [s]).blocks.size a = h.blocks.size a := Blocks.without_size other
    have live' : (freed h [s]).blocks.live a = true := by
      rw [Blocks.live, kept]
      exact live
    have size : (freed h [s]).size a = kernel.sizeofHashEntry + (h.key a).iSize := node.size
    rw [heFinalize, if_pos dbg, field_bind live, shadow]
    dsimp only
    rw [field_bind live, bind_ok (fnFree_freed block), field_bind live', size,
      fnFree_freed (kept.trans node.block),
      ← freed_append, List.singleton_append, freed_congr fun x => List.Perm.mem_iff (.swap a s [])]

end FsdFilter.TableRepresentation
