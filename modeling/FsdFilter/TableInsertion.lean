import FsdFilter.EntryCreation
import FsdFilter.TableOperations

/-! Placing a new entry: first in its bucket and last by age. A bucket that is full
loses its last entry. -/
namespace FsdFilter.TableInsertion
open SizedBlocks LinkedLists StateRuns CommonHashTable TableMemory ChainEdits TableRepresentation
open TableSearch TableOperations EntryCreation

variable {D : Type} {kernel : Kernel} {h h' : Heap D} {t t' : HashTable D} {nodes : List Addr}
  {chain : UInt → List Addr} {a : Addr} {b : UInt}

/-- `push_entry`. -/
theorem pushEntry_run (linkage : Linkage h t nodes chain) (stray : Stray h chain a) (b : UInt) :
    ∃ h', pushEntry t b a h = .ok (t.setBucket b (some a), h') ∧
      Relinked h h' (fun c => c = a ∨ c ∈ chain b) ∧
      Linkage h' (t.setBucket b (some a)) nodes (Function.update chain b (a :: chain b)) ∧
      h'.pNewer = h.pNewer := by
  obtain ⟨relinked, linkage'⟩ := linkage.pushed stray b
  have first : t.ppEntries b = (chain b).head? := (linkage.chained b).next_none
  have headLive : LiveAt h.blocks (t.ppEntries b) := by
    rw [first]
    exact linkage.headLive (List.nil_append (chain b)).symm
  refine ⟨_, ?_, relinked, linkage', rfl⟩
  simp only [pushEntry, setNext_bind, setPrev_bind, setPrevOf_bind, stray.live, headLive, pure_run]

/-- `append_entry`. -/
theorem appendEntry_run (linkage : Linkage h t nodes chain) (live : h.blocks.live a = true)
    (new : a ∉ nodes) (last : h.pNewer a = none) :
    ∃ h' t', appendEntry t a h = .ok (t', h') ∧ Reheaded t t' ∧
      Relinked h h' (fun c => c = a ∨ c ∈ nodes) ∧ Linkage h' t' (nodes ++ [a]) chain := by
  obtain ⟨relinked, linkage'⟩ := linkage.appended live new last
  have first : t.pOldest = nodes.head? := linkage.age.next_none
  refine ⟨_, _, ?_, ?_, relinked, linkage'⟩
  · have oldest : (if t.pOldest = none then { t with pOldest := some a } else t) =
        oldestTo t nodes.getLast? (some a) := by
      rw [first]
      cases nodes with
      | nil => rfl
      | cons c rest => rw [List.getLast?_cons]; rfl
    rw [appendEntry, oldest]
    dsimp only
    rw [setOlder_bind live, oldestTo_pNewest, linkage.newest]
    cases placed : nodes.getLast? with
    | none => rfl
    | some c =>
      have lastLive : h.blocks.live c = true := linkage.live c (.inl (List.mem_of_getLast? placed))
      dsimp only
      rw [setNewer_bind]
      · rfl
      · exact lastLive
  · obtain ⟨entries, oldest, newest, shape⟩ : Reheaded t (oldestTo t nodes.getLast? (some a)) :=
      reheaded_oldestTo
    exact ⟨entries, oldest, some a, by rw [shape]⟩

/-- The loop to the last entry of a chain. -/
theorem lastFrom_run {next : Option Addr → Option Addr} {prev : Addr → Option Addr}
    {rest : List Addr} {fuel : ℕ} {p : Addr} (links : Links next prev (some a) rest none)
    (fields : ∀ c, next (some c) = h.pNext c) (live : ∀ c ∈ a :: rest, h.blocks.live c = true)
    (enough : rest.length < fuel) (last : (a :: rest).getLast? = some p) :
    lastFrom fuel a h = .ok (p, h) := by
  induction rest generalizing a fuel with
  | nil =>
    cases fuel with
    | zero => cases enough
    | succ fuel =>
      have ended : h.pNext a = none := (fields a).symm.trans links
      rw [lastFrom, field_bind (live a List.mem_cons_self), ended]
      cases last
      rfl
  | cons c rest ih =>
    cases fuel with
    | zero => cases enough
    | succ fuel =>
      obtain ⟨first, -, links⟩ := links
      have following : h.pNext a = some c := (fields a).symm.trans first
      rw [lastFrom, field_bind (live a List.mem_cons_self), following]
      rw [List.getLast?_cons_cons] at last
      exact ih links (fun d member => live d (List.mem_cons_of_mem _ member))
        (Nat.lt_of_succ_lt_succ enough) last

/-! ### The whole insertion -/

/-- An entry that is not in the table, with a key that is not there either. -/
structure NewEntry (kernel : Kernel) (h : Heap D) (t : HashTable D) (nodes : List Addr)
    (a : Addr) : Prop where
  node : Node kernel h a
  own : (blocksOf kernel h a).Nodup
  apart : ∀ x ∈ blocksOf kernel h a, x ∉ footprint kernel h t nodes
  newer : h.pNewer a = none
  key : ∀ c ∈ nodes, h.key c ≠ h.key a

theorem NewEntry.not_mem (new : NewEntry kernel h t nodes a) : a ∉ nodes :=
  fun member => new.apart a self_mem_blocksOf (nodes_subset member)

theorem NewEntry.stray (new : NewEntry kernel h t nodes a)
    (represents : Represents kernel h t nodes chain) :
    Stray h chain a := by
  refine ⟨Blocks.live_of_size new.node.block, fun b inChain => new.not_mem ?_⟩
  exact represents.indexed.member (.inr ⟨b, inChain⟩)

/-- An entry joins a bucket that is not full. -/
theorem placeEntry_joins (represents : Represents kernel h t nodes chain)
    (new : NewEntry kernel h t nodes a)
    (room : ¬ (t.bucketLimit ≠ 0 ∧ t.bucketLimit ≤ t.pNr (t.bucketOf (h.key a)))) :
    ∃ h' t', placeEntry kernel t (t.bucketOf (h.key a)) a h = .ok (t', h') ∧ SameConfig t t' ∧
      Represents kernel h' t' (nodes ++ [a])
        (Function.update chain (t.bucketOf (h.key a)) (a :: chain (t.bucketOf (h.key a)))) ∧
      contents h' (nodes ++ [a]) = contents h nodes ++ [(h.key a, h.pData a)] ∧
      Relinked h h' (fun c => c = a ∨ c ∈ nodes) ∧
      footprint kernel h' t' (nodes ++ [a]) = footprint kernel h t nodes ++ blocksOf kernel h a ∧
      t'.iSizeMask = t.iSizeMask := by
  obtain ⟨linkage, stored, indexed⟩ := id represents
  obtain ⟨h₁, pushed, relinked, linkage₁, newer⟩ := pushEntry_run linkage (new.stray represents)
    (t.bucketOf (h.key a))
  have counted : countEntry kernel (t.setBucket (t.bucketOf (h.key a)) (some a))
      (t.bucketOf (h.key a)) a h₁ = _ :=
    congrFun (if_neg room) h₁
  have live : h₁.blocks.live a = true := by
    rw [relinked.blocks]
    exact (new.stray represents).live
  have linkage₂ : Linkage h₁ { t.setBucket (t.bucketOf (h.key a)) (some a) with
      iItems := t.iItems + 1
      pNr := Function.update t.pNr (t.bucketOf (h.key a))
        (t.pNr (t.bucketOf (h.key a)) + 1) } nodes _ :=
    linkage₁.recount rfl rfl rfl
  obtain ⟨h₂, t₂, appended, reheaded, relinked', linkage'⟩ :=
    appendEntry_run linkage₂ live new.not_mem (newer ▸ new.newer)
  have whole : Relinked h h₂ (fun c => c = a ∨ c ∈ nodes) := by
    refine (relinked.mono ?_).trans relinked'
    rintro c (rfl | inChain)
    · exact .inl rfl
    · exact .inr (indexed.member (.inr ⟨_, inChain⟩))
  have reheaded' : Reheaded { t with
      iItems := t.iItems + 1
      pNr := Function.update t.pNr (t.bucketOf (h.key a)) (t.pNr (t.bucketOf (h.key a)) + 1) } t₂ :=
    Reheaded.trans ⟨_, _, _, rfl⟩ reheaded
  refine ⟨h₂, t₂, ?_, ?_, represents_of_relinked whole reheaded' linkage'
    ((stored.append new.node new.own new.apart).recount ..) (indexed.insert new.key rfl), ?_, whole, ?_⟩
  · rw [placeEntry, bind_ok pushed, bind_ok counted]
    exact appended
  · have config := sameConfig_of_reheaded reheaded'
    exact ⟨config.fnHash, config.iHeuristics, config.iAutomaticRehash, config.bucketLimit,
      config.nonBlock, config.header⟩
  · rw [contents_congr fun c _ => sameNode_of_relinked whole c, contents, List.map_append]
    rfl
  · have same : footprint kernel h₂ t (nodes ++ [a]) = footprint kernel h t (nodes ++ [a]) :=
      footprint_congr fun c _ => sameNode_of_relinked whole c
    obtain ⟨entries, oldest, newest, rfl⟩ := reheaded'
    exact ⟨same.trans footprint_append, rfl⟩

theorem placeEntry_run (represents : Represents kernel h t nodes chain)
    (new : NewEntry kernel h t nodes a)
    (room : ¬ (t.bucketLimit ≠ 0 ∧ t.bucketLimit ≤ t.pNr (t.bucketOf (h.key a)))) :
    ∃ h' t' chain', placeEntry kernel t (t.bucketOf (h.key a)) a h = .ok (t', h') ∧ SameConfig t t' ∧
      Represents kernel h' t' (nodes ++ [a]) chain' ∧
      contents h' (nodes ++ [a]) = contents h nodes ++ [(h.key a, h.pData a)] ∧
      Relinked h h' (fun c => c = a ∨ c ∈ nodes) ∧
      footprint kernel h' t' (nodes ++ [a]) = footprint kernel h t nodes ++ blocksOf kernel h a ∧
      t'.iSizeMask = t.iSizeMask := by
  obtain ⟨h', t', ran, config, represents', rest⟩ := placeEntry_joins represents new room
  exact ⟨h', t', _, ran, config, represents', rest⟩

/-- A full bucket is not empty. -/
theorem last_of_full (indexed : Indexed h t nodes chain)
    (full : t.bucketLimit ≠ 0 ∧ t.bucketLimit ≤ t.pNr b) :
    ∃ p, (chain b).getLast? = some p := by
  cases placed : (chain b).getLast? with
  | some p => exact ⟨p, rfl⟩
  | none =>
    obtain ⟨limited, full⟩ := full
    rw [indexed.nr b, List.getLast?_eq_none_iff.mp placed] at full
    exact absurd (BitVec.le_zero_iff.mp full) limited

/-- The table when one entry of a bucket went and another one came. -/
theorem exchanged (indexed : Indexed h t nodes chain) (linkage : Linkage h t nodes chain) {p : Addr}
    (inNodes : p ∈ nodes) (bucketOld : t.bucketOf (h.key p) = b) (bucketNew : t.bucketOf (h.key a) = b)
    (new : ∀ c ∈ nodes, h.key c ≠ h.key a) :
    Indexed h t (nodes.erase p ++ [a]) (Function.update chain b (a :: (chain b).erase p)) := by
  have out := indexed.erase linkage.distinct linkage.chainDistinct inNodes bucketOld
  have back := out.insert (fun c member => new c (List.mem_of_mem_erase member)) bucketNew
  simp only [Function.update_self, Function.update_idem, BitVec.sub_add_cancel,
    Function.update_eq_self] at back
  exact back

/-- The loop ends at the last entry of the bucket. -/
theorem lastFrom_chain {rest : List Addr} {p : Addr} (linkage : Linkage h t nodes chain)
    (split : chain b = a :: rest) (last : (a :: rest).getLast? = some p) :
    lastFrom h.blocks.fresh a h = .ok (p, h) := by
  have distinct := linkage.chainDistinct b
  have linked := linkage.chained b
  rw [split] at distinct linked
  have live : ∀ c ∈ a :: rest, h.blocks.live c = true :=
    fun c member => linkage.live c (.inr ⟨b, split ▸ member⟩)
  exact lastFrom_run linked.2.2 (fun _ => rfl) live (length_le_fresh distinct live) last

/-- The last entry of a full bucket leaves its lists and is freed. -/
theorem countEntry_evicts {rest : List Addr} {p : Addr} (linkage : Linkage h t nodes chain)
    (split : chain b = a :: rest) (placed : rest.getLast? = some p) (inNodes : p ∈ nodes)
    (node : Node kernel h p) (own : (blocksOf kernel h p).Nodup)
    (bounded : Bounded t.bucketLimit t.fnBucketFree)
    (full : t.bucketLimit ≠ 0 ∧ t.bucketLimit ≤ t.pNr b) :
    ∃ h' t', countEntry kernel t b a h = .ok (t', freed h' (blocksOf kernel h p)) ∧ Reheaded t t' ∧
      Relinked h h' (fun _ => True) ∧
        Linkage h' t' (nodes.erase p) (Function.update chain b (a :: rest.erase p)) ∧
      ∀ c, c ∉ nodes → h'.pNewer c = h.pNewer c := by
  have inRest := List.mem_of_getLast? placed
  have distinct := linkage.chainDistinct b
  rw [split] at distinct
  have other : a ≠ p := by
    rintro rfl
    exact (List.nodup_cons.mp distinct).1 inRest
  have last : (a :: rest).getLast? = some p := by
    rw [List.getLast?_cons, placed]
    rfl
  have found := lastFrom_chain linkage split last
  have inChain : p ∈ chain b := by
    rw [split]
    exact List.mem_cons_of_mem _ inRest
  obtain ⟨h', t', removed, reheaded, relinked, linkage', newer⟩ :=
    removeFromChain_run linkage inNodes inChain
  rw [split, List.erase_cons_tail (by simpa using other)] at linkage'
  have same : ∀ x, SameNode h h' x := fun x => sameNode_of_relinked relinked x
  have finalized := heFinalize_run (node.congr fun x _ => same x) ((same p).blocksOf_eq ▸ own)
  rw [(same p).blocksOf_eq] at finalized
  have live : h'.blocks.live p = true := by
    rw [relinked.blocks]
    exact Blocks.live_of_size node.block
  have called : callBucketFree t' (h'.pData p) (h'.key p) h' = .ok (t', h') := by
    obtain ⟨entries, oldest, newest, rfl⟩ := reheaded
    apply callBucketFree_run
    · exact bounded
    · exact full.1
  refine ⟨h', t', ?_, reheaded, relinked.mono fun _ _ => trivial, linkage', newer⟩
  rw [countEntry, if_pos full, get_bind, bind_ok found, bind_ok removed, field_bind live,
    field_bind live, bind_ok called, bind_ok finalized, pure_run]

/-- An entry joins a bucket that is full: the last entry of the bucket is lost. -/
theorem placeEntry_replaces (represents : Represents kernel h t nodes chain)
    (new : NewEntry kernel h t nodes a)
    (full : t.bucketLimit ≠ 0 ∧ t.bucketLimit ≤ t.pNr (t.bucketOf (h.key a))) :
    ∃ p ∈ nodes, (chain (t.bucketOf (h.key a))).getLast? = some p ∧
      ∃ h' t', placeEntry kernel t (t.bucketOf (h.key a)) a h = .ok (t', h') ∧ SameConfig t t' ∧
        Represents kernel h' t' (nodes.erase p ++ [a]) (Function.update chain (t.bucketOf (h.key a))
          (a :: (chain (t.bucketOf (h.key a))).erase p)) ∧
        contents h' (nodes.erase p ++ [a]) = contents h (nodes.erase p) ++ [(h.key a, h.pData a)] ∧
        h'.blocks = h.blocks.without (blocksOf kernel h p) ∧ t'.iSizeMask = t.iSizeMask ∧
        footprint kernel h' t' (nodes.erase p ++ [a]) =
        footprint kernel h t (nodes.erase p) ++ blocksOf kernel h a := by
  obtain ⟨linkage, stored, indexed⟩ := id represents
  generalize bucketNew : t.bucketOf (h.key a) = b at full ⊢
  obtain ⟨p, placed⟩ := last_of_full indexed full
  obtain ⟨inNodes, bucketOld⟩ := (indexed.inChain p b).mp (List.mem_of_getLast? placed)
  obtain ⟨own, -, apart⟩ := stored.own_blocks inNodes
  obtain ⟨h₁, pushed, relinked, linkage₁, newer⟩ := pushEntry_run linkage (new.stray represents) b
  have same : ∀ x, SameNode h h₁ x := fun x => sameNode_of_relinked relinked x
  obtain ⟨h₂, t₂, counted, reheaded, relinked', linkage₂, newer'⟩ :=
    countEntry_evicts linkage₁ (Function.update_self ..) placed inNodes
      ((stored.node p inNodes).congr fun x _ => same x) ((same p).blocksOf_eq ▸ own)
      indexed.bounded full
  rw [(same p).blocksOf_eq] at counted
  rw [Function.update_idem] at linkage₂
  -- nothing that stays was freed
  have kept : ∀ x ∈ footprint kernel h t (nodes.erase p ++ [a]), x ∉ blocksOf kernel h p := by
    intro x inside block
    rw [footprint_append] at inside
    rcases List.mem_append.mp inside with old | mine
    · exact apart x old block
    · exact new.apart x mine (blocksOf_subset inNodes block)
  have indexed' := exchanged indexed linkage inNodes bucketOld bucketNew new.key
  have linkage₃ : Linkage (freed h₂ (blocksOf kernel h p)) t₂ _ _ := linkage₂.congr fun c member => by
    refine cell_freed (kept c (nodes_subset ?_))
    rcases member with old | chained
    · exact List.mem_append_left _ old
    · exact indexed'.member (.inr chained)
  have live₃ := linkage₃.live a (.inr ⟨b, by rw [Function.update_self]; exact List.mem_cons_self⟩)
  have newer₃ : (freed h₂ (blocksOf kernel h p)).pNewer a = none :=
    (newer' a new.not_mem).trans (newer ▸ new.newer)
  obtain ⟨h₃, t₃, appended, reheaded', relinked'', linkage'⟩ :=
    appendEntry_run linkage₃ live₃ (fun member => new.not_mem (List.mem_of_mem_erase member)) newer₃
  have stored' : Stored kernel (freed h (blocksOf kernel h p)) t (nodes.erase p ++ [a]) := by
    refine ((stored.erase inNodes).append new.node new.own fun x block inside => ?_).congr
      (fun x inside => ?_)
      rfl rfl rfl rfl
    · exact new.apart x block (footprint_erase inNodes inside)
    · exact sameNode_of_cell (cell_freed (kept x inside))
  have unlinked := (relinked.mono fun _ _ => trivial).trans relinked'
  have whole :=
    (relinked_freed unlinked (blocksOf kernel h p)).trans (relinked''.mono fun _ _ => trivial)
  have heads : Reheaded t t₃ := .trans (.trans ⟨_, _, _, rfl⟩ reheaded) reheaded'
  refine ⟨p, inNodes, placed, h₃, t₃, ?_, sameConfig_of_reheaded heads,
    represents_of_relinked whole heads linkage' stored' (indexed'.congr fun _ _ => rfl), ?_, ?_, ?_⟩
  · rw [placeEntry, bind_ok pushed, bind_ok counted]
    exact appended
  · have restored : contents h₃ (nodes.erase p ++ [a]) =
        contents (freed h (blocksOf kernel h p)) (nodes.erase p ++ [a]) :=
      contents_congr fun c _ => sameNode_of_relinked whole c
    rw [restored, contents, List.map_append]
    rfl
  · rw [whole.blocks, freed]
  · -- freeing blocks changes no shadow
    have same : footprint kernel h₃ t (nodes.erase p ++ [a]) =
        footprint kernel (freed h (blocksOf kernel h p)) t (nodes.erase p ++ [a]) :=
      footprint_congr fun c _ => sameNode_of_relinked whole c
    obtain ⟨entries, oldest, newest, rfl⟩ := heads
    exact ⟨rfl, same.trans footprint_append⟩

theorem placeEntry_evicts (represents : Represents kernel h t nodes chain)
    (new : NewEntry kernel h t nodes a)
    (full : t.bucketLimit ≠ 0 ∧ t.bucketLimit ≤ t.pNr (t.bucketOf (h.key a))) :
    ∃ p ∈ nodes, (chain (t.bucketOf (h.key a))).getLast? = some p ∧
      ∃ h' t' chain', placeEntry kernel t (t.bucketOf (h.key a)) a h = .ok (t', h') ∧ SameConfig t t' ∧
        Represents kernel h' t' (nodes.erase p ++ [a]) chain' ∧
        contents h' (nodes.erase p ++ [a]) = contents h (nodes.erase p) ++ [(h.key a, h.pData a)] ∧
        h'.blocks = h.blocks.without (blocksOf kernel h p) ∧
        footprint kernel h' t' (nodes.erase p ++ [a]) =
        footprint kernel h t (nodes.erase p) ++ blocksOf kernel h a := by
  obtain ⟨p, member, last, h', t', ran, config, represents', same, blocks, -, owned⟩ :=
    placeEntry_replaces represents new full
  exact ⟨p, member, last, h', t', _, ran, config, represents', same, blocks, owned⟩

/-! ### `ght_insert` up to where it may rehash -/

/-- The created entry is a new one for the table. -/
theorem created_new {key : HashKey} {pData : Option D} (created : Created kernel h h' a pData key)
    (represents : Represents kernel h t nodes chain) (absent : ∀ c ∈ nodes, h.key c ≠ key) :
    NewEntry kernel h' t nodes a := by
  have same := created.extends'.sameNode represents
  refine ⟨created.node, created.own, fun x block inside => ?_, created.newer, fun c member => ?_⟩
  · rw [footprint_congr same] at inside
    exact Nat.not_lt_of_le (created.new x block) (represents.stored.inUse inside)
  · rw [created.key, (same c member).key]
    exact absent c member

/-- The test of `ght_insert` for a table that has to be rehashed. -/
def overfull (t : HashTable D) : Bool := t.iAutomaticRehash && 2 * t.iSize < t.iItems

/-- `ght_insert` after the test. -/
def finishInsert (kernel : Kernel) (key : HashKey) (a : Addr) (t : HashTable D) :
    HashM D (StatusCode × HashTable D) := do
  let t ← placeEntry kernel t (t.bucketOf key) a
  pure (.ghtOk, t)

section Insert
variable (rehash : HashTable D → UInt → HashM D (HashTable D)) {key : HashKey} (pData : Option D)

/-- A key that is there is not inserted again. -/
theorem insertWith_present (represents : Represents kernel h t nodes chain) (member : a ∈ nodes) :
    insertWith kernel rehash t pData (h.key a) h = .ok ((.ghtAlreadyInHash, t), h) := by
  rw [insertWith, bind_ok ((searchInBucket_found represents member 0).trans found_plain)]
  dsimp only
  rw [if_pos (Option.some_ne_none a), pure_run]

/-- Without memory for the entry nothing is inserted. -/
theorem insertWith_refused (represents : Represents kernel h t nodes chain)
    (absent : ∀ c ∈ nodes, h.key c ≠ key)
    (refused : nodeServed kernel t.nonBlock h.blocks.attempts = false) :
    ∃ h', insertWith kernel rehash t pData key h = .ok ((.ghtError, t), h') ∧ Extends h h' ∧
      h'.blocks.attempts = afterNode kernel t.nonBlock h.blocks.attempts ∧
      Blocks.Accounts h.blocks [] h'.blocks [] := by
  obtain ⟨h', created, extends', attempts, accounts⟩ := heCreate_refused pData key refused
  refine ⟨h', ?_, extends', attempts, accounts⟩
  rw [insertWith, bind_ok (searchInBucket_absent represents absent ..)]
  dsimp only
  rw [if_neg (fun some' => some' rfl), bind_ok created]
  rfl

/-- The entry is created before the table is rehashed. -/
theorem insertWith_served (represents : Represents kernel h t nodes chain)
    (absent : ∀ c ∈ nodes, h.key c ≠ key)
    (served : nodeServed kernel t.nonBlock h.blocks.attempts = true) :
    ∃ h' a, Created kernel h h' a pData key ∧
      h'.blocks.attempts = afterNode kernel t.nonBlock h.blocks.attempts ∧
      Blocks.Accounts h.blocks [] h'.blocks (blocksOf kernel h' a) ∧
      insertWith kernel rehash t pData key h =
        if overfull t then (rehash t (2 * t.iSize) >>= finishInsert kernel key a) h'
        else finishInsert kernel key a t h' := by
  obtain ⟨h', a, created, facts, attempts, accounts⟩ := heCreate_served pData key served
  refine ⟨h', a, facts, attempts, accounts, ?_⟩
  rw [insertWith, bind_ok (searchInBucket_absent represents absent ..)]
  dsimp only
  rw [if_neg (fun some' => some' rfl), bind_ok created, overfull]
  dsimp only
  split
  · rfl
  · rfl

end Insert

end FsdFilter.TableInsertion
