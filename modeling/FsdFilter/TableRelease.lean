import FsdFilter.TableRepresentation

/-! Freeing a table: the chains one after the other, each entry once and with the size
it was allocated with. -/
namespace FsdFilter.TableRelease
open SizedBlocks LinkedLists StateRuns CommonHashTable TableMemory ChainEdits TableRepresentation

variable {D : Type} {kernel : Kernel} {h h' : Heap D} {t t' : HashTable D} {nodes : List Addr}
  {chain : UInt → List Addr} {a : Addr} {b : UInt}

/-- Different entries share no block. -/
theorem blocksOf_apart (stored : Stored kernel h t nodes) {c : Addr} (first : a ∈ nodes)
    (second : c ∈ nodes) (other : c ≠ a) {x : Addr} (block : x ∈ blocksOf kernel h c) :
    x ∉ blocksOf kernel h a :=
  (stored.own_blocks first).2.2 x (blocksOf_subset ((List.mem_erase_of_ne other).mpr second) block)

/-- The blocks of some of the entries. -/
theorem flatMap_nodup (stored : Stored kernel h t nodes) {l : List Addr} (distinct : l.Nodup)
    (inside : ∀ c ∈ l, c ∈ nodes) :
    (l.flatMap (blocksOf kernel h)).Nodup := by
  refine List.nodup_flatMap.mpr ⟨fun c member => (stored.own_blocks (inside c member)).1, ?_⟩
  refine distinct.pairwise_of_forall_ne fun c first d second other => ?_
  intro x block block'
  exact blocksOf_apart stored (inside d second) (inside c first) other block block'

/-- `free_entry_chain` frees the entries of a chain. -/
theorem freeChainFrom_run {next : Option Addr → Option Addr} {prev : Addr → Option Addr}
    {x : Option Addr} {l : List Addr} {fuel : ℕ} (links : Links next prev x l none)
    (fields : ∀ c, next (some c) = h.pNext c) (node : ∀ c ∈ l, Node kernel h c)
    (apart : (l.flatMap (blocksOf kernel h)).Nodup) (enough : l.length ≤ fuel) :
    freeChainFrom kernel fuel l.head? h = .ok ((), freed h (l.flatMap (blocksOf kernel h))) := by
  induction l generalizing h x fuel with
  | nil =>
    rw [List.flatMap_nil, freed_nil]
    cases fuel <;> rfl
  | cons c rest ih =>
    cases fuel with
    | zero => cases enough
    | succ fuel =>
      obtain ⟨-, -, links⟩ := links
      rw [List.flatMap_cons] at apart ⊢
      obtain ⟨own, restApart, disjoint⟩ := List.nodup_append.mp apart
      have here := node c List.mem_cons_self
      have following : h.pNext c = rest.head? := by
        rw [← fields c, links.next_eq, Option.or_none]
      have node' : ∀ d ∈ rest, Node kernel (freed h (blocksOf kernel h c)) d := by
        intro d member
        refine (node d (List.mem_cons_of_mem _ member)).congr fun y block =>
          sameNode_of_cell (cell_freed ?_)
        intro gone
        exact disjoint y gone y (List.mem_flatMap.mpr ⟨d, member, block⟩) rfl
      rw [List.head?_cons, freeChainFrom, field_bind (Blocks.live_of_size here.block), following,
        bind_ok (heFinalize_run here own), freed_append]
      exact ih links fields node' restApart (Nat.le_of_succ_le_succ enough)

/-- The blocks of the entries in the first buckets. -/
def bucketBlocks (kernel : Kernel) (h : Heap D) (chain : UInt → List Addr) (count : ℕ) : List Addr :=
  (List.range count).flatMap fun i => (chain (BitVec.ofNat 32 i)).flatMap (blocksOf kernel h)

theorem bucketBlocks_succ (kernel : Kernel) (h : Heap D) (chain : UInt → List Addr) (count : ℕ) :
    bucketBlocks kernel h chain (count + 1) =
      bucketBlocks kernel h chain count ++ (chain (BitVec.ofNat 32 count)).flatMap
        (blocksOf kernel h) := by
  rw [bucketBlocks, bucketBlocks, List.range_succ, List.flatMap_append, List.flatMap_singleton]

/-- Bucket after bucket is freed. -/
theorem freeBuckets_first (represents : Represents kernel h t nodes chain) {count : ℕ}
    (inside : count ≤ t.iSize.toNat) :
    freeBuckets kernel t count h = .ok ((), freed h (bucketBlocks kernel h chain count)) := by
  obtain ⟨linkage, stored, indexed⟩ := id represents
  induction count with
  | zero =>
    rw [bucketBlocks, List.range_zero, List.flatMap_nil, freed_nil]
    rfl
  | succ count ih =>
    have linked := linkage.chained (BitVec.ofNat 32 count)
    have first : t.ppEntries (BitVec.ofNat 32 count) = (chain (BitVec.ofNat 32 count)).head? :=
      linked.next_none
    have inNodes : ∀ c ∈ chain (BitVec.ofNat 32 count), c ∈ nodes :=
      fun c member => indexed.member (.inr ⟨_, member⟩)
    have kept : ∀ c ∈ chain (BitVec.ofNat 32 count), ∀ x ∈ blocksOf kernel h c,
        x ∉ bucketBlocks kernel h chain count := by
      intro c member x block gone
      obtain ⟨i, early, gone⟩ := List.mem_flatMap.mp gone
      obtain ⟨d, elsewhere, gone⟩ := List.mem_flatMap.mp gone
      have below := List.mem_range.mp early
      have bound := t.iSize.isLt
      refine blocksOf_apart stored (indexed.member (.inr ⟨_, elsewhere⟩)) (inNodes c member)
        ?_ block gone
      rintro rfl
      have same := congrArg BitVec.toNat (linkage.once c _ _ elsewhere member)
      rw [BitVec.toNat_ofNat, BitVec.toNat_ofNat, Nat.mod_eq_of_lt (by omega),
        Nat.mod_eq_of_lt (by omega)] at same
      omega
    have node : ∀ c ∈ chain (BitVec.ofNat 32 count),
        Node kernel (freed h (bucketBlocks kernel h chain count)) c :=
      fun c member => (stored.node c (inNodes c member)).congr fun x block =>
        sameNode_of_cell (cell_freed (kept c member x block))
    have chainFreed :=
      freeChainFrom_run (h := freed h (bucketBlocks kernel h chain count)) linked (fun _ => rfl) node
      (flatMap_nodup stored (linkage.chainDistinct _) inNodes) (represents.chain_length _)
    rw [freeBuckets, bind_ok (ih (Nat.le_of_succ_le inside)), freeEntryChain, get_bind, first]
    refine chainFreed.trans ?_
    rw [bucketBlocks_succ, freed_append]
    rfl

/-- All buckets hold all entries. -/
theorem mem_bucketBlocks (represents : Represents kernel h t nodes chain) (x : Addr) :
    x ∈ bucketBlocks kernel h chain t.iSize.toNat ↔ x ∈ nodes.flatMap (blocksOf kernel h) := by
  rw [bucketBlocks, List.mem_flatMap, List.mem_flatMap]
  constructor
  · rintro ⟨i, -, gone⟩
    obtain ⟨c, member, block⟩ := List.mem_flatMap.mp gone
    exact ⟨c, represents.indexed.member (.inr ⟨_, member⟩), block⟩
  · rintro ⟨c, member, block⟩
    refine ⟨(t.bucketOf (h.key c)).toNat, List.mem_range.mpr (bucketOf_lt represents.indexed.sized _), ?_⟩
    rw [BitVec.ofNat_toNat, BitVec.setWidth_eq]
    exact List.mem_flatMap.mpr ⟨c, represents.indexed.mem_chain member, block⟩

/-- The loop over all buckets frees every entry. -/
theorem freeBuckets_run (represents : Represents kernel h t nodes chain) :
    freeBuckets kernel t t.iSize.toNat h = .ok ((), freed h (nodes.flatMap (blocksOf kernel h))) := by
  rw [freeBuckets_first represents (Nat.le_refl _), freed_congr (mem_bucketBlocks represents)]

/-- A block that was not freed yet is freed. -/
theorem fnFree_after {gone : List Addr} {x : Addr} {size : ℕ} (allocated : h.blocks.size x = some size)
    (kept : x ∉ gone) : fnFree x size (freed h gone) = .ok ((), freed h (gone ++ [x])) := by
  rw [freed_append]
  exact fnFree_freed ((Blocks.without_size kept).trans allocated)

/-- The blocks of the entries and of the two arrays. -/
def body (kernel : Kernel) (h : Heap D) (t : HashTable D) (nodes : List Addr) : List Addr :=
  nodes.flatMap (blocksOf kernel h) ++ [t.entriesBlock] ++ [t.nrBlock]

/-- The entries and the two arrays are freed, one after the other. -/
theorem body_freed (represents : Represents kernel h t nodes chain) :
    fnFree t.entriesBlock (t.iSize.toNat * 8) (freed h (nodes.flatMap (blocksOf kernel h))) =
        .ok ((), freed h (nodes.flatMap (blocksOf kernel h) ++ [t.entriesBlock])) ∧
      fnFree t.nrBlock (t.iSize.toNat * 4) (freed h (nodes.flatMap (blocksOf kernel h) ++ [t.entriesBlock])) =
        .ok ((), freed h (body kernel h t nodes)) := by
  obtain ⟨-, stored, -⟩ := represents
  obtain ⟨-, rest⟩ := List.nodup_cons.mp stored.apart
  obtain ⟨entries, rest⟩ := List.nodup_cons.mp rest
  obtain ⟨counters, -⟩ := List.nodup_cons.mp rest
  refine ⟨fnFree_after stored.entries fun gone => entries (List.mem_cons_of_mem _ gone),
    fnFree_after stored.counters fun gone => ?_⟩
  rcases List.mem_append.mp gone with gone | gone
  · exact counters gone
  · rw [List.mem_singleton] at gone
    exact entries (gone ▸ List.mem_cons_self)

theorem header_not_mem (stored : Stored kernel h t nodes) : t.header ∉ body kernel h t nodes := by
  obtain ⟨apart, -⟩ := List.nodup_cons.mp stored.apart
  intro gone
  rcases List.mem_append.mp gone with gone | gone
  · rcases List.mem_append.mp gone with gone | gone
    · exact apart (List.mem_cons_of_mem _ (List.mem_cons_of_mem _ gone))
    · exact apart (List.mem_singleton.mp gone ▸ List.mem_cons_self)
  · exact apart (List.mem_singleton.mp gone ▸ List.mem_cons_of_mem _ List.mem_cons_self)

theorem mem_footprint {x : Addr} :
    x ∈ footprint kernel h t nodes ↔ x ∈ body kernel h t nodes ++ [t.header] := by
  simp only [footprint, body, List.mem_cons, List.mem_append, List.not_mem_nil, or_false]
  grind

/-- `ght_finalize` frees the blocks of the table, and no others. -/
theorem ghtFinalize_run (represents : Represents kernel h t nodes chain) :
    ghtFinalize kernel t h = .ok ((), freed h (footprint kernel h t nodes)) := by
  obtain ⟨entries, counters⟩ := body_freed represents
  rw [ghtFinalize, bind_ok (freeBuckets_run represents), bind_ok entries, bind_ok counters,
    fnFree_after represents.stored.header (header_not_mem represents.stored), freed_congr fun _ =>
    mem_footprint]

end FsdFilter.TableRelease
