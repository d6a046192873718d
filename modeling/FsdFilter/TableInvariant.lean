import Mathlib.Algebra.GroupWithZero.Nat
import FsdFilter.AllocationFailures
import FsdFilter.OrderedMap

/-! What holds of every table that the functions lead to, read off its pointers: the
chain of each bucket and the list by age, as the links lead through them. -/
namespace FsdFilter.TableInvariant
open SizedBlocks LinkedLists StateRuns CommonHashTable TableMemory ChainEdits TableRepresentation
open TableSearch TableOperations EntryCreation TableInsertion TableCreation TableRehash
open InsertOutcomes AllocationFailures OrderedMap

variable {D : Type} {kernel : Kernel} {h h' : Heap D} {t t' : HashTable D} {nodes : List Addr}
  {chain : UInt → List Addr} {a : Addr} {b : UInt}

/-! ### The lists that the pointers lead through -/

/-- The chain of a bucket, from `pp_entries` along `p_next`. -/
def chainOf (h : Heap D) (t : HashTable D) (b : UInt) : List Addr :=
  walk h.pNext h.blocks.fresh (t.ppEntries b)

/-- The entries by age, from `p_oldest` along `p_newer`. -/
def byAge (h : Heap D) (t : HashTable D) : List Addr := walk h.pNewer h.blocks.fresh t.pOldest

/-- The number of entries in all buckets. -/
def total (h : Heap D) (t : HashTable D) : ℕ :=
  ((List.range t.iSize.toNat).map fun i => (chainOf h t (BitVec.ofNat 32 i)).length).sum

theorem chainOf_eq (represents : Represents kernel h t nodes chain) (b : UInt) :
    chainOf h t b = chain b := by
  have linked := represents.linkage.chained b
  have first : t.ppEntries b = (chain b).head? := linked.next_none
  rw [chainOf, first]
  exact linked.walk_eq (fun _ => rfl) (represents.chain_length b)

theorem byAge_eq (represents : Represents kernel h t nodes chain) : byAge h t = nodes := by
  have linked := represents.linkage.age
  have first : t.pOldest = nodes.head? := linked.next_none
  rw [byAge, first]
  exact linked.walk_eq (fun _ => rfl) represents.nodes_length

/-- The buckets share out the entries. -/
theorem buckets_perm (represents : Represents kernel h t nodes chain) :
    ((List.range t.iSize.toNat).flatMap fun i => chain (BitVec.ofNat 32 i)).Perm nodes := by
  obtain ⟨linkage, -, indexed⟩ := represents
  have bound := t.iSize.isLt
  refine (List.perm_ext_iff_of_nodup ?_ linkage.distinct).mpr fun c => ?_
  · refine List.nodup_flatMap.mpr ⟨fun i _ => linkage.chainDistinct _, ?_⟩
    refine List.nodup_range.pairwise_of_forall_ne fun i inside j inside' other => ?_
    intro c first second
    have same := congrArg BitVec.toNat (linkage.once c _ _ first second)
    rw [List.mem_range] at inside inside'
    rw [BitVec.toNat_ofNat, BitVec.toNat_ofNat, Nat.mod_eq_of_lt (by omega),
      Nat.mod_eq_of_lt (by omega)] at same
    exact other same
  · rw [List.mem_flatMap]
    constructor
    · rintro ⟨i, -, member⟩
      exact indexed.member (.inr ⟨_, member⟩)
    · intro member
      refine ⟨(t.bucketOf (h.key c)).toNat, List.mem_range.mpr (bucketOf_lt indexed.sized _), ?_⟩
      rw [BitVec.ofNat_toNat, BitVec.setWidth_eq]
      exact indexed.mem_chain member

theorem total_eq (represents : Represents kernel h t nodes chain) : total h t = nodes.length := by
  rw [← (buckets_perm represents).length_eq, List.length_flatMap, total]
  simp only [chainOf_eq represents]

/-! ### The invariant -/

/-- The chains and the list by age are doubly linked lists of the same entries. The
first entry of a list has none before it, and the last has none behind it. -/
structure ListsHold (h : Heap D) (t : HashTable D) : Prop where
  chained : ∀ b, Linked (follow (t.ppEntries b) h.pNext) h.pPrev (chainOf h t b)
  chainDistinct : ∀ b, (chainOf h t b).Nodup
  hashed : ∀ b, ∀ a ∈ chainOf h t b, t.fnHash (h.key a) &&& t.iSizeMask = b
  keys : ∀ b b', ∀ a ∈ chainOf h t b, ∀ c ∈ chainOf h t b', h.key a = h.key c → a = c
  age : Linked (follow t.pOldest h.pNewer) h.pOlder (byAge h t)
  newest : t.pNewest = (byAge h t).getLast?
  distinct : (byAge h t).Nodup
  same : ∀ a, a ∈ byAge h t ↔ ∃ b < t.iSize, a ∈ chainOf h t b
  allocated : ∀ a ∈ byAge h t, h.blocks.live a = true
  mask : t.iSizeMask = t.iSize - 1

/-- `p_nr` is the length of each chain, and `i_items` the number of all entries. -/
structure CountsHold (h : Heap D) (t : HashTable D) : Prop where
  nr : ∀ b, (t.pNr b).toInt = (chainOf h t b).length
  items : t.iItems.toNat = total h t

/-- The counts, as far as an `int` and an `unsigned int` count. -/
structure CountsWrap (h : Heap D) (t : HashTable D) : Prop where
  nr : ∀ b, t.pNr b = BitVec.ofNat 32 (chainOf h t b).length
  items : t.iItems = BitVec.ofNat 32 (total h t)

/-- The mask has all the bits below the size. -/
theorem mask_eq {iSize iSizeMask : UInt} (sized : WellSized iSize iSizeMask) :
    iSizeMask = iSize - 1 := by
  have positive : (1 : UInt) ≤ iSize := by
    rw [BitVec.le_def, ← sized.masked]
    exact Nat.le_add_left ..
  apply BitVec.eq_of_toNat_eq
  rw [BitVec.toNat_sub_of_le positive, ← sized.masked]
  rfl

theorem listsHold (represents : Represents kernel h t nodes chain) : ListsHold h t := by
  obtain ⟨linkage, -, indexed⟩ := id represents
  have chains : chainOf h t = chain := funext (chainOf_eq represents)
  have age := byAge_eq represents
  have inNodes : ∀ {b a}, a ∈ chain b → a ∈ nodes :=
    fun member => indexed.member (.inr ⟨_, member⟩)
  refine ⟨chains ▸ linkage.chained, chains ▸ linkage.chainDistinct, fun b a member => ?_,
    fun b b' a member c member' same => ?_, age.symm ▸ linkage.age, age.symm ▸ linkage.newest,
    age.symm ▸ linkage.distinct, fun a => ?_, fun a member => linkage.live a (.inl (age ▸ member)),
    mask_eq indexed.sized⟩
  · rw [chains] at member
    exact ((indexed.inChain a b).mp member).2
  · rw [chains] at member member'
    exact indexed.key_inj (inNodes member') (inNodes member) same
  · rw [chains, age]
    constructor
    · exact fun member => ⟨_, BitVec.lt_def.mpr (bucketOf_lt indexed.sized _), indexed.mem_chain member⟩
    · rintro ⟨b, -, member⟩
      exact inNodes member

theorem countsWrap (represents : Represents kernel h t nodes chain) : CountsWrap h t := by
  refine ⟨fun b => ?_, ?_⟩
  · rw [chainOf_eq represents]
    exact represents.indexed.nr b
  · rw [total_eq represents]
    exact represents.indexed.items

/-- Below `2^31` entries the counts are those of the lists. -/
theorem countsHold (represents : Represents kernel h t nodes chain) (few : total h t < 2 ^ 31) :
    CountsHold h t := by
  have wraps := countsWrap represents
  rw [total_eq represents] at few
  refine ⟨fun b => ?_, ?_⟩
  · have inside : chain b ⊆ nodes := fun c member => represents.indexed.member (.inr ⟨b, member⟩)
    have fewer := (List.subperm_of_subset (represents.linkage.chainDistinct b) inside).length_le
    have short : (chain b).length < 2 ^ 31 := Nat.lt_of_le_of_lt fewer few
    rw [wraps.nr b, chainOf_eq represents, BitVec.toInt_ofNat',
      Int.bmod_eq_of_le_mul_two (by omega) (by omega)]
  · rw [wraps.items, BitVec.toNat_ofNat, Nat.mod_eq_of_lt]
    rw [total_eq represents]
    omega

/-! ### More entries than can be counted -/

section Filled
variable {h : Heap ℕ} {count : ℕ}
  (filled : contents h nodes = (List.range count).map fun i => (numbered i, some 1))
include filled

theorem filled_length : nodes.length = count := by
  have lengths := congrArg List.length filled
  rwa [contents, List.length_map, List.length_map, List.length_range] at lengths

/-- The data of an entry, and its key. -/
theorem filled_entry (member : a ∈ nodes) : h.pData a = some 1 ∧ ∃ i < count, h.key a = numbered i := by
  have entry : (h.key a, h.pData a) ∈ contents h nodes := List.mem_map_of_mem member
  rw [filled] at entry
  obtain ⟨i, inside, same⟩ := List.mem_map.mp entry
  exact ⟨(congrArg Prod.snd same).symm, i, List.mem_range.mp inside, (congrArg Prod.fst same).symm⟩

/-- The next key is not there yet. -/
theorem filled_absent (few : count < 2 ^ 32) : ∀ a ∈ nodes, h.key a ≠ numbered count := by
  intro a member same
  obtain ⟨-, i, below, key⟩ := filled_entry filled member
  have one := numbered_injective (by omega) few (key.symm.trans same)
  omega

end Filled

/-- A table can have as many entries as there are different keys. -/
theorem filled_reachable {count : ℕ} (few : count ≤ 2 ^ 32) :
    ∃ (h : Heap ℕ) (t : HashTable ℕ) (nodes : List Addr)
    (chain : UInt → List Addr), Reachable alwaysGranted h t ∧ Represents alwaysGranted h t nodes chain ∧
      contents h nodes = (List.range count).map (fun i => (numbered i, some 1)) ∧ t.bucketLimit = 0 ∧
      t.iAutomaticRehash = false ∧ t.iSizeMask = newMask 8 := by
  have distinct : (((List.range count).map fun i => (numbered i, some 1)).map Prod.fst).Nodup := by
    rw [List.map_map]
    exact numbered_nodup few
  obtain ⟨h, t, holds, -⟩ :=
    holding_reachable alwaysGranted (fun _ => 0) distinct rfl (allServed_all (fun _ => rfl) 3 _)
  obtain ⟨nodes, chain, represents, filled⟩ := holds.represents
  exact ⟨h, t, nodes, chain, holds.reached, represents, filled, holds.bucketLimit,
    holds.iAutomaticRehash, holds.iSizeMask⟩

end FsdFilter.TableInvariant
