import FsdFilter.TableSearch

/-! Lookups, replacements, removals and iterations, as what they do to the entries by
age. None of them allocates, and none uses an address outside the table. -/
namespace FsdFilter.TableOperations
open SizedBlocks LinkedLists StateRuns CommonHashTable TableMemory ChainEdits TableRepresentation
open TableSearch

variable {D : Type} {kernel : Kernel} {h h' : Heap D} {t t' t'' : HashTable D} {nodes : List Addr}
  {chain : UInt → List Addr} {a : Addr} {key : HashKey} {pData : Option D}

/-- What no operation on the entries changes. -/
structure SameConfig (t t' : HashTable D) : Prop where
  fnHash : t'.fnHash = t.fnHash
  iHeuristics : t'.iHeuristics = t.iHeuristics
  iAutomaticRehash : t'.iAutomaticRehash = t.iAutomaticRehash
  bucketLimit : t'.bucketLimit = t.bucketLimit
  nonBlock : t'.nonBlock = t.nonBlock
  header : t'.header = t.header

theorem SameConfig.refl : SameConfig t t := ⟨rfl, rfl, rfl, rfl, rfl, rfl⟩

theorem SameConfig.trans (first : SameConfig t t') (second : SameConfig t' t'') : SameConfig t t'' :=
  ⟨second.fnHash.trans first.fnHash, second.iHeuristics.trans first.iHeuristics,
    second.iAutomaticRehash.trans first.iAutomaticRehash, second.bucketLimit.trans first.bucketLimit,
    second.nonBlock.trans first.nonBlock, second.header.trans first.header⟩

theorem sameConfig_of_reheaded (reheaded : Reheaded t t') : SameConfig t t' := by
  obtain ⟨entries, oldest, newest, rfl⟩ := reheaded
  exact ⟨rfl, rfl, rfl, rfl, rfl, rfl⟩

/-! ### Entries as keys and data -/

/-- A key is in the table or not. -/
theorem present_or_absent (h : Heap D) (nodes : List Addr) (key : HashKey) :
    (∃ a ∈ nodes, h.key a = key) ∨ ∀ a ∈ nodes, h.key a ≠ key := by
  by_cases present : ∃ a ∈ nodes, h.key a = key
  · exact .inl present
  · exact .inr fun a member same => present ⟨a, member, same⟩

theorem lookup_present (indexed : Indexed h t nodes chain) (member : a ∈ nodes) :
    (contents h nodes).lookup (h.key a) = some (h.pData a) := by
  obtain ⟨before, after, split⟩ := List.append_of_mem member
  have distinct := indexed.keys
  rw [split, List.map_append, List.map_cons] at distinct
  refine List.lookup_eq_some_iff.mpr ⟨contents h before, contents h after, ?_, ?_⟩
  · rw [contents, split, List.map_append, List.map_cons]
    rfl
  · intro entry inside
    obtain ⟨c, early, rfl⟩ := List.mem_map.mp inside
    rw [bne_iff_ne]
    intro same
    exact (List.nodup_append.mp distinct).2.2 _ (List.mem_map_of_mem early) _
      List.mem_cons_self same.symm

theorem lookup_absent (absent : ∀ a ∈ nodes, h.key a ≠ key) : (contents h nodes).lookup key = none := by
  refine List.lookup_eq_none_iff.mpr fun entry inside => ?_
  obtain ⟨c, member, rfl⟩ := List.mem_map.mp inside
  rw [bne_iff_ne]
  exact Ne.symm (absent c member)

theorem present_key (member : a ∈ nodes) : h.key a ∈ (contents h nodes).map Prod.fst := by
  rw [contents, List.map_map]
  exact List.mem_map_of_mem member

theorem absent_key (absent : ∀ a ∈ nodes, h.key a ≠ key) : key ∉ (contents h nodes).map Prod.fst := by
  rw [contents, List.map_map]
  intro inside
  obtain ⟨c, member, same⟩ := List.mem_map.mp inside
  exact absent c member same

/-- Without one entry. -/
theorem contents_erase (indexed : Indexed h t nodes chain) (distinct : nodes.Nodup)
    (member : a ∈ nodes) :
    contents h (nodes.erase a) = (contents h nodes).filter fun entry => entry.1 ≠ h.key a := by
  rw [distinct.erase_eq_filter, contents, contents, List.filter_map]
  refine congrArg (List.map _) (List.filter_congr fun c inside => ?_)
  have same : c = a ↔ h.key c = h.key a := ⟨congrArg h.key, indexed.key_inj member inside⟩
  simpa [bne, BEq.beq] using same

/-- With other data in one entry. -/
theorem contents_replace (indexed : Indexed h t nodes chain) (member : a ∈ nodes) (pData : Option D) :
    contents { h with pData := Function.update h.pData a pData } nodes =
      (contents h nodes).map fun entry => if entry.1 = h.key a then (entry.1, pData) else entry := by
  rw [contents, contents, List.map_map]
  refine List.map_congr_left fun c inside => ?_
  by_cases here : c = a
  · rw [here]
    simp
  · have other : h.key c ≠ h.key a := fun same => here (indexed.key_inj member inside same)
    simp [Function.update_of_ne here, other]

/-! ### Lookups -/

/-- `ght_get` of a key that is there. -/
theorem ghtGet_rechains (represents : Represents kernel h t nodes chain) (member : a ∈ nodes) :
    ∃ h' t', ghtGet t (h.key a) h = .ok ((h.pData a, t'), h') ∧ Reheaded t t' ∧
      Relinked h h' (· ∈ nodes) ∧
      Represents kernel h' t' nodes (Function.update chain (t.bucketOf (h.key a))
        (promote (t.iHeuristics.setWidth 8) (· = a) (chain (t.bucketOf (h.key a))))) := by
  obtain ⟨h', t', ran, reheaded, relinked, represents'⟩ :=
    searchInBucket_rechains represents member (t.iHeuristics.setWidth 8)
  refine ⟨h', t', ?_, reheaded, relinked, represents'⟩
  rw [ghtGet, bind_ok ran]
  dsimp only
  rw [field_bind (represents'.linkage.live a (.inl member)), relinked.pData, pure_run]

theorem ghtGet_present (represents : Represents kernel h t nodes chain) (member : a ∈ nodes) :
    ∃ h' t', ghtGet t (h.key a) h = .ok ((h.pData a, t'), h') ∧ Reheaded t t' ∧
      Relinked h h' (· ∈ nodes) ∧ ∃ chain', Represents kernel h' t' nodes chain' := by
  obtain ⟨h', t', ran, reheaded, relinked, represents'⟩ := ghtGet_rechains represents member
  exact ⟨h', t', ran, reheaded, relinked, _, represents'⟩

/-- `ght_get` of a key that is not there. -/
theorem ghtGet_absent (represents : Represents kernel h t nodes chain)
    (absent : ∀ c ∈ nodes, h.key c ≠ key) :
    ghtGet t key h = .ok ((none, t), h) := by
  rw [ghtGet, bind_ok (searchInBucket_absent represents absent ..)]
  rfl

/-- `ght_replace` of a key that is there. -/
theorem ghtReplace_rechains (represents : Represents kernel h t nodes chain) (member : a ∈ nodes)
    (pData : Option D) :
    ∃ h' t', ghtReplace t pData (h.key a) h =
        .ok ((h.pData a, t'), { h' with pData := Function.update h'.pData a pData }) ∧ Reheaded t t' ∧
      Relinked h h' (· ∈ nodes) ∧
      Represents kernel h' t' nodes (Function.update chain (t.bucketOf (h.key a))
        (promote (t.iHeuristics.setWidth 8) (· = a) (chain (t.bucketOf (h.key a))))) := by
  obtain ⟨h', t', ran, reheaded, relinked, represents'⟩ :=
    searchInBucket_rechains represents member (t.iHeuristics.setWidth 8)
  refine ⟨h', t', ?_, reheaded, relinked, represents'⟩
  have live := represents'.linkage.live a (.inl member)
  rw [ghtReplace, bind_ok ran]
  dsimp only
  rw [field_bind live, setData, assign_bind live, relinked.pData, pure_run]

theorem ghtReplace_present (represents : Represents kernel h t nodes chain) (member : a ∈ nodes)
    (pData : Option D) :
    ∃ h' t', ghtReplace t pData (h.key a) h =
        .ok ((h.pData a, t'), { h' with pData := Function.update h'.pData a pData }) ∧ Reheaded t t' ∧
      Relinked h h' (· ∈ nodes) ∧ ∃ chain', Represents kernel h' t' nodes chain' := by
  obtain ⟨h', t', ran, reheaded, relinked, represents'⟩ := ghtReplace_rechains represents member pData
  exact ⟨h', t', ran, reheaded, relinked, _, represents'⟩

/-- `ght_replace` of a key that is not there. -/
theorem ghtReplace_absent (represents : Represents kernel h t nodes chain)
    (absent : ∀ c ∈ nodes, h.key c ≠ key) (pData : Option D) :
    ghtReplace t pData key h = .ok ((none, t), h) := by
  rw [ghtReplace, bind_ok (searchInBucket_absent represents absent ..)]
  rfl

/-- The data of an entry are no part of the lists. -/
theorem Represents.withData (represents : Represents kernel h t nodes chain) (a : Addr)
    (pData : Option D) :
    Represents kernel { h with pData := Function.update h.pData a pData } t nodes chain := by
  obtain ⟨linkage, stored, indexed⟩ := represents
  refine ⟨⟨linkage.age, linkage.newest, linkage.distinct, linkage.chained, linkage.chainDistinct,
    linkage.once,
    linkage.live⟩, ⟨fun c member => ?_, stored.header, stored.entries, stored.counters, stored.apart⟩,
    indexed.congr fun _ _ => rfl⟩
  have node := stored.node c member
  exact ⟨node.block, node.size, node.shadow⟩

/-! ### Removals -/

/-- `ght_remove` of a key that is there. -/
theorem ghtRemove_erases (represents : Represents kernel h t nodes chain) (member : a ∈ nodes) :
    ∃ h' t', ghtRemove kernel t (h.key a) h = .ok ((h.pData a, t'), h') ∧ SameConfig t t' ∧
      Represents kernel h' t' (nodes.erase a)
        (Function.update chain (t.bucketOf (h.key a)) ((chain (t.bucketOf (h.key a))).erase a)) ∧
      contents h' (nodes.erase a) = contents h (nodes.erase a) ∧ t'.iSizeMask = t.iSizeMask ∧
      h'.blocks = h.blocks.without (blocksOf kernel h a) ∧
      footprint kernel h' t' (nodes.erase a) = footprint kernel h t (nodes.erase a) := by
  obtain ⟨linkage, stored, indexed⟩ := id represents
  have inChain := indexed.mem_chain member
  obtain ⟨h₁, t₁, ran, reheaded, relinked, linkage', -⟩ := removeFromChain_run linkage member inChain
  obtain ⟨own, -, apart⟩ := stored.own_blocks member
  have same : ∀ x, SameNode h h₁ x := fun x => sameNode_of_relinked relinked x
  have node : Node kernel h₁ a := (stored.node a member).congr fun x _ => same x
  have live : h₁.blocks.live a = true := Blocks.live_of_size node.block
  have blocks : blocksOf kernel h₁ a = blocksOf kernel h a := (same a).blocksOf_eq
  obtain ⟨entries, oldest, newest, rfl⟩ := reheaded
  have linkage₂ : Linkage h₁ { t with
      ppEntries := entries, pOldest := oldest, pNewest := newest, iItems := t.iItems - 1
      pNr := Function.update t.pNr (t.bucketOf (h.key a)) (t.pNr (t.bucketOf (h.key a)) - 1) }
        (nodes.erase a) _ :=
    linkage'.recount rfl rfl rfl
  have remaining := represents_of_relinked relinked ⟨entries, oldest, newest, rfl⟩ linkage₂
    ((stored.erase member).recount ..) (indexed.erase linkage.distinct linkage.chainDistinct member rfl)
  have apart' : ∀ x ∈ footprint kernel h₁ { t with
      ppEntries := entries, pOldest := oldest, pNewest := newest, iItems := t.iItems - 1
      pNr := Function.update t.pNr (t.bucketOf (h.key a)) (t.pNr (t.bucketOf (h.key a)) - 1) }
        (nodes.erase a),
      x ∉ blocksOf kernel h a := by
    intro x inside
    apply apart x
    rwa [footprint, flatMap_blocksOf fun c _ => same c] at inside
  refine ⟨_, _, ?_, ?_, remaining.freed apart', ?_, rfl, ?_, ?_⟩
  · rw [ghtRemove, bind_ok ((searchInBucket_found represents member 0).trans found_plain)]
    dsimp only
    rw [bind_ok ran]
    dsimp only
    rw [field_bind live, bind_ok (heFinalize_run node (blocks ▸ own)), pure_run, blocks, (same a).pData]
  · exact ⟨rfl, rfl, rfl, rfl, rfl, rfl⟩
  · show contents h₁ (nodes.erase a) = contents h (nodes.erase a)
    exact contents_congr fun c _ => same c
  · rw [freed, relinked.blocks]
  · show t.header :: t.entriesBlock :: t.nrBlock :: (nodes.erase a).flatMap (blocksOf kernel h₁) = _
    rw [flatMap_blocksOf fun c _ => same c]
    rfl

theorem ghtRemove_present (represents : Represents kernel h t nodes chain) (member : a ∈ nodes) :
    ∃ h' t' chain', ghtRemove kernel t (h.key a) h = .ok ((h.pData a, t'), h') ∧ SameConfig t t' ∧
      Represents kernel h' t' (nodes.erase a) chain' ∧ contents h' (nodes.erase a) =
        contents h (nodes.erase a) ∧
      h'.blocks = h.blocks.without (blocksOf kernel h a) ∧
      footprint kernel h' t' (nodes.erase a) = footprint kernel h t (nodes.erase a) := by
  obtain ⟨h', t', ran, config, represents', same, -, rest⟩ := ghtRemove_erases represents member
  exact ⟨h', t', _, ran, config, represents', same, rest⟩

/-- `ght_remove` of a key that is not there. -/
theorem ghtRemove_absent (represents : Represents kernel h t nodes chain)
    (absent : ∀ c ∈ nodes, h.key c ≠ key) :
    ghtRemove kernel t key h = .ok ((none, t), h) := by
  rw [ghtRemove, bind_ok (searchInBucket_absent represents absent ..)]
  rfl

/-! ### Iterations -/

/-- The iterator at the first of the entries that are still to come. -/
def iteratorAt (rest : List Addr) : Iterator := ⟨rest.head?, rest.tail.head?⟩

/-- `ght_first` returns the oldest entry. -/
theorem ghtFirst_run (represents : Represents kernel h t nodes chain) :
    ghtFirst t h = .ok ((iteratorAt nodes, nodes.head?.bind h.pData), h) := by
  have first : t.pOldest = nodes.head? := represents.linkage.age.next_none
  cases nodes with
  | nil =>
    rw [ghtFirst, first]
    rfl
  | cons a rest =>
    have live := represents.linkage.live a (.inl List.mem_cons_self)
    have aged : Linked (follow t.pOldest h.pNewer) h.pOlder ([] ++ a :: rest) := represents.linkage.age
    have newer : h.pNewer a = rest.head? := aged.neighbours.2
    rw [ghtFirst, first, List.head?_cons]
    dsimp only
    rw [field_bind live, field_bind live, newer]
    rfl

/-- `ght_next` returns the entry that it saved the pointer to. -/
theorem ghtNext_saved {before rest : List Addr} {iterator : Iterator}
    (represents : Represents kernel h t nodes chain) (split : nodes = before ++ rest)
    (saved : iterator.pNext = rest.head?) :
    ghtNext iterator h = .ok ((iteratorAt rest, rest.head?.bind h.pData), h) := by
  cases rest with
  | nil =>
    rw [ghtNext, saved]
    rfl
  | cons c rest =>
    have aged := represents.linkage.age
    rw [split] at aged
    have newer : h.pNewer c = rest.head? := aged.neighbours.2
    have live : h.blocks.live c = true := by
      apply represents.linkage.live c (.inl _)
      rw [split]
      exact List.mem_append_right _ List.mem_cons_self
    rw [ghtNext, saved, List.head?_cons]
    dsimp only
    rw [field_bind live, field_bind live, newer]
    rfl

/-- `ght_next` returns the entry that is next in age. -/
theorem ghtNext_run {before rest : List Addr} (represents : Represents kernel h t nodes chain)
    (split : nodes = before ++ a :: rest) :
    ghtNext (iteratorAt (a :: rest)) h = .ok ((iteratorAt rest, rest.head?.bind h.pData), h) := by
  have split' : nodes = (before ++ [a]) ++ rest := by
    rw [split, List.append_assoc, List.singleton_append]
  exact ghtNext_saved represents split' rfl

end FsdFilter.TableOperations
