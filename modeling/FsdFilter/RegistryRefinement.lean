import FsdFilter.InsertionEffects
import FsdFilter.RegistryTable
import FsdFilter.Simulation
import FsdFilter.VectorTransparency

/-! The threads on the hash table do what the threads on the registry do. The table of
`FltVnodeHooksHashTable` is never rehashed, has no heuristics and no bucket limit: its
entries by age are the registered vectors in the order of their registration. -/
namespace FsdFilter.RegistryRefinement
open StateRuns VnodeOps HookRegistry HookCalls Interleaving ReaderWriterLock RegistryTable
open Simulation SizedBlocks TableRepresentation
open CommonHashTable (HashKey HashTable Kernel ghtGet ghtInsert ghtRemove ghtCreate)

/-- The keys of two vectors are different. -/
theorem vopKey_injective : Function.Injective vopKey := by
  intro v w same
  have bytes : (List.range 8).map (fun i => v.extractLsb' (8 * i) 8) =
      (List.range 8).map fun i => w.extractLsb' (8 * i) 8 := congrArg HashKey.bytes same
  apply BitVec.eq_of_getLsbD_eq
  intro j inside
  have byte : v.extractLsb' (8 * (j / 8)) 8 = w.extractLsb' (8 * (j / 8)) 8 :=
    List.map_inj_left.mp bytes (j / 8) (List.mem_range.mpr (by omega))
  have bit := congrArg (fun b : BitVec 8 => b.getLsbD (j % 8)) byte
  simp only [BitVec.getLsbD_extractLsb', Nat.mod_lt j (by decide : 0 < 8), decide_true,
    Bool.true_and] at bit
  rwa [Nat.div_add_mod] at bit

/-! ### The registry in the table -/

/-- The registered vectors as keys and data, in the order of their registration. -/
def registered (registry : Registry) : List (HashKey × Option EntryPtr) :=
  registry.entries.reverse.map fun binding => (vopKey binding.1, some binding.2)

variable {registry : Registry} {vOp : VopVector} {p : EntryPtr}

theorem mem_registered {entry : HashKey × Option EntryPtr} :
    entry ∈ registered registry ↔ ∃ v q, registry.lookup v = some q ∧ entry = (vopKey v, some q) := by
  simp only [registered, List.mem_map, List.mem_reverse]
  constructor
  · rintro ⟨⟨v, q⟩, member, rfl⟩
    exact ⟨v, q, AList.mem_lookup_iff.mpr member, rfl⟩
  · rintro ⟨v, q, found, rfl⟩
    exact ⟨⟨v, q⟩, AList.mem_lookup_iff.mp found, rfl⟩

/-- A new vector is the last one. -/
theorem registered_insert (absent : registry.lookup vOp = none) :
    registered (registry.insert vOp p) = registered registry ++ [(vopKey vOp, some p)] := by
  rw [registered, AList.entries_insert_of_notMem (AList.lookup_eq_none.mp absent)]
  simp [registered]

theorem kerase_eq_filter {entries : List (Sigma fun _ : VopVector => EntryPtr)}
    (distinct : entries.NodupKeys) :
    entries.kerase vOp = entries.filter fun binding => binding.1 ≠ vOp := by
  induction entries with
  | nil => rfl
  | cons binding rest ih =>
    obtain ⟨fresh, distinct⟩ := List.nodupKeys_cons.mp distinct
    by_cases here : vOp = binding.1
    · have others : rest.filter (fun binding => binding.1 ≠ vOp) = rest := by
        refine List.filter_eq_self.mpr fun other inside => decide_eq_true ?_
        rintro same
        exact fresh (here ▸ same ▸ List.mem_keys_of_mem inside)
      rw [List.kerase_cons_eq here, List.filter_cons_of_neg (by simpa using here.symm), others]
    · rw [List.kerase_cons_ne here, ih distinct, List.filter_cons_of_pos (by simpa using Ne.symm here)]

/-- The others stay in their order. -/
theorem registered_erase :
    registered (registry.erase vOp) = (registered registry).filter fun entry =>
      entry.1 ≠ vopKey vOp := by
  have erased : (registry.erase vOp).entries = registry.entries.filter fun binding => binding.1 ≠ vOp :=
    kerase_eq_filter registry.nodupKeys
  rw [registered, registered, erased, List.filter_map, ← List.filter_reverse]
  refine congrArg (List.map _) (List.filter_congr fun binding _ => ?_)
  simp [vopKey_injective.eq_iff]

/-! ### Calls to the hash table -/

/-- The table holds the registry, and accounts for all blocks that were allocated since
`before`. -/
structure Registers (kernel : Kernel) (before : Blocks) (h : CommonHashTable.Heap EntryPtr)
    (t : HashTable EntryPtr) (registry : Registry) : Prop where
  holds : ∃ nodes chain, Represents kernel h t nodes chain ∧ contents h nodes = registered registry ∧
    Blocks.Accounts before [] h.blocks (footprint kernel h t nodes)
  iHeuristics : t.iHeuristics = 0
  iAutomaticRehash : t.iAutomaticRehash = false
  bucketLimit : t.bucketLimit = 0

variable {kernel : Kernel} {before : Blocks} {h h' : CommonHashTable.Heap EntryPtr}
  {t t' : HashTable EntryPtr} {nodes : List Addr}

theorem node_of_registered (same : contents h nodes = registered registry)
    (found : registry.lookup vOp = some p) :
    ∃ a ∈ nodes, h.key a = vopKey vOp ∧ h.pData a = some p := by
  have member : (vopKey vOp, some p) ∈ contents h nodes := by
    rw [same]
    exact mem_registered.mpr ⟨vOp, p, found, rfl⟩
  obtain ⟨a, inside, entry⟩ := List.mem_map.mp member
  exact ⟨a, inside, congrArg Prod.fst entry, congrArg Prod.snd entry⟩

theorem no_node_of_unregistered (same : contents h nodes = registered registry)
    (absent : registry.lookup vOp = none) :
    ∀ a ∈ nodes, h.key a ≠ vopKey vOp := by
  intro a inside keyed
  have member : (h.key a, h.pData a) ∈ registered registry := by
    rw [← same]
    exact List.mem_map_of_mem inside
  obtain ⟨v, q, found, entry⟩ := mem_registered.mp member
  have key : vopKey v = vopKey vOp := (congrArg Prod.fst entry).symm.trans keyed
  rw [vopKey_injective key, absent] at found
  cases found

/-- A lookup writes nothing: under the shared lock the readers leave each other alone. -/
theorem ghtGet_registered (registers : Registers kernel before h t registry) (vOp : VopVector) :
    ghtGet t (vopKey vOp) h = .ok ((registry.lookup vOp, t), h) := by
  obtain ⟨nodes, chain, represents, same, -⟩ := registers.holds
  have plain : t.iHeuristics.setWidth 8 = 0 := by
    rw [registers.iHeuristics]
    rfl
  cases found : registry.lookup vOp with
  | none => exact TableOperations.ghtGet_absent represents (no_node_of_unregistered same found)
  | some p =>
    obtain ⟨a, member, key, data⟩ := node_of_registered same found
    have search := TableSearch.searchInBucket_found represents member 0
    rw [CommonHashTable.ghtGet, plain, ← key, bind_ok (search.trans TableSearch.found_plain)]
    dsimp only
    rw [TableMemory.field_bind (represents.linkage.live a (.inl member)), data, pure_run]

/-- An insertion registers a vector that is not registered yet, or changes nothing. -/
theorem ghtInsert_registered (registers : Registers kernel before h t registry) (vOp : VopVector)
    (p : EntryPtr) :
    ∃ rc t' h', ghtInsert kernel t (some p) (vopKey vOp) h = .ok ((rc, t'), h') ∧
      ((rc = .ghtOk ∧ registry.lookup vOp = none ∧ Registers kernel before h' t' (registry.insert vOp p)) ∨
        (rc ≠ .ghtOk ∧ Registers kernel before h' t' registry)) := by
  obtain ⟨nodes, chain, represents, same, accounts⟩ := registers.holds
  cases found : registry.lookup vOp with
  | some q =>
    obtain ⟨a, member, key, -⟩ := node_of_registered same found
    refine ⟨.ghtAlreadyInHash, t, h, ?_, .inr ⟨nofun, registers⟩⟩
    rw [← key]
    exact TableInsertion.insertWith_present _ _ represents member
  | none =>
    have absent := no_node_of_unregistered same found
    cases served : EntryCreation.nodeServed kernel t.nonBlock h.blocks.attempts with
    | false =>
      obtain ⟨h', ran, extends', -, unchanged⟩ :=
        TableInsertion.insertWith_refused (CommonHashTable.ghtRehash kernel) (some p) represents
          absent served
      have kept := extends'.sameNode represents
      refine ⟨.ghtError, t, h', ran,
        .inr ⟨nofun, ⟨nodes, chain, extends'.represents represents, ?_, ?_⟩, registers.2,
        registers.3, registers.4⟩⟩
      · exact (contents_congr kept).trans same
      · rw [footprint_congr kept]
        exact accounts.trans (unchanged.append (footprint kernel h t nodes))
    | true =>
      obtain ⟨h₁, a, created, -, allocated, ran⟩ :=
        TableInsertion.insertWith_served (CommonHashTable.ghtRehash kernel) (some p) represents
          absent served
      have kept := created.extends'.sameNode represents
      have new := TableInsertion.created_new created represents absent
      have room : ¬ (t.bucketLimit ≠ 0 ∧ t.bucketLimit ≤ t.pNr (t.bucketOf (h₁.key a))) :=
        fun full => full.1 registers.bucketLimit
      obtain ⟨h', t', chain', placed, config, represents', contents', relinked, owned, -⟩ :=
        TableInsertion.placeEntry_run (created.extends'.represents represents) new room
      rw [created.key] at placed
      have small : TableInsertion.overfull t = false := by
        rw [TableInsertion.overfull, registers.iAutomaticRehash]; rfl
      rw [small, if_neg Bool.false_ne_true, TableInsertion.finishInsert, bind_ok placed,
        pure_run] at ran
      refine ⟨.ghtOk, t', h', ran, .inl ⟨rfl, rfl, ⟨_, chain', represents', ?_, ?_⟩,
        config.iHeuristics.trans registers.iHeuristics,
        config.iAutomaticRehash.trans registers.iAutomaticRehash,
        config.bucketLimit.trans registers.bucketLimit⟩⟩
      · rw [contents', contents_congr kept, same, created.key, created.pData, registered_insert found]
      · have grown : Blocks.Accounts h.blocks (footprint kernel h t nodes) h₁.blocks
            (blocksOf kernel h₁ a ++ footprint kernel h t nodes) :=
          allocated.append (footprint kernel h t nodes)
        rw [owned, relinked.blocks, footprint_congr kept]
        exact (accounts.trans grown).congr (fun _ => Iff.rfl) fun x => List.perm_append_comm.mem_iff

/-- A removal returns what was registered and unregisters it. -/
theorem ghtRemove_registered (registers : Registers kernel before h t registry) (vOp : VopVector) :
    ∃ t' h', ghtRemove kernel t (vopKey vOp) h = .ok ((registry.lookup vOp, t'), h') ∧
      Registers kernel before h' t' (registry.erase vOp) := by
  obtain ⟨nodes, chain, represents, same, accounts⟩ := registers.holds
  cases found : registry.lookup vOp with
  | none =>
    have unchanged : registry.erase vOp = registry :=
      AList.ext (List.kerase_of_notMem_keys (AList.lookup_eq_none.mp found))
    refine ⟨t, h, TableOperations.ghtRemove_absent represents (no_node_of_unregistered same found), ?_⟩
    rw [unchanged]
    exact registers
  | some p =>
    obtain ⟨a, member, key, data⟩ := node_of_registered same found
    obtain ⟨h', t', chain', ran, config, represents', contents', blocks, owned⟩ :=
      TableOperations.ghtRemove_present represents member
    rw [key, data] at ran
    refine ⟨t', h', ran, ⟨_, chain', represents', ?_, ?_⟩, config.iHeuristics.trans registers.iHeuristics,
      config.iAutomaticRehash.trans registers.iAutomaticRehash,
      config.bucketLimit.trans registers.bucketLimit⟩
    · rw [contents', TableOperations.contents_erase represents.indexed represents.linkage.distinct
        member, same, key, registered_erase]
    · rw [owned, blocks]
      have released := (Blocks.Accounts.of_without h.blocks (blocksOf kernel h a)).append
        (footprint kernel h t (nodes.erase a))
      exact accounts.trans (released.congr (fun x => (footprint_perm member).mem_iff) fun _ => Iff.rfl)

/-- A table that `ght_create` returns has the settings of a new one. -/
theorem created_of_returned {iSize : CommonHashTable.UInt} {nonBlock : Bool}
    (created : ghtCreate kernel iSize nonBlock h = .ok (some t, h')) :
    ∃ size mask header entriesBlock nrBlock, t =
      .created size mask nonBlock header entriesBlock nrBlock := by
  obtain ⟨header, h₁, -, ran⟩ := of_bind_ok created
  cases header with
  | none => cases ran
  | some header =>
    cases sized : CommonHashTable.tableSize iSize with
    | none =>
      dsimp only at ran
      rw [sized] at ran
      cases ran
    | some found =>
      dsimp only at ran
      rw [sized] at ran
      obtain ⟨entries, h₂, -, ran⟩ := of_bind_ok ran
      cases entries with
      | none =>
        obtain ⟨_, _, -, ran⟩ := of_bind_ok ran
        cases ran
      | some entriesBlock =>
        obtain ⟨counters, h₃, -, ran⟩ := of_bind_ok ran
        cases counters with
        | none =>
          obtain ⟨_, _, -, ran⟩ := of_bind_ok ran
          obtain ⟨_, _, -, ran⟩ := of_bind_ok ran
          cases ran
        | some nrBlock =>
          cases ran
          exact ⟨_, _, _, _, _, rfl⟩

/-- A new table holds the empty registry. -/
theorem ghtCreate_registered {iSize : CommonHashTable.UInt} {nonBlock : Bool}
    (created : ghtCreate kernel iSize nonBlock h = .ok (some t, h')) :
    Registers kernel h.blocks h' t ∅ := by
  obtain ⟨size, mask, header, entriesBlock, nrBlock, settings⟩ := created_of_returned created
  by_cases served : iSize.toNat ≤ 2 ^ 31 ∧ TableCreation.tableServed kernel h.blocks.attempts = true
  · obtain ⟨h₁, t₁, ran₁, table, -, -, accounts⟩ :=
      TableCreation.ghtCreate_served served.1 nonBlock served.2
    cases created.symm.trans ran₁
    refine ⟨⟨[], _, table.represents, rfl, accounts⟩, ?_, table.iAutomaticRehash, table.bucketLimit⟩
    rw [settings]
    rfl
  · rcases TableCreation.ghtCreate_fails nonBlock served with ⟨-, stopped⟩ | ⟨-, h₁, failed, -⟩
    · cases created.symm.trans stopped
    · cases created.symm.trans failed

/-! ### Code that does not use the registry -/

/-- The state with another registry. -/
def withRegistry (registry : Registry) (f : FilterState) : FilterState :=
  { f with registry := registry }

/-- The code does the same whatever is registered, and leaves the registry alone. -/
structure Blind {α : Type} (code : FilterM α) : Prop where
  same : ∀ registry, Matches (fun f g => g = withRegistry registry f) Eq code code

theorem blind_entryAt (p : EntryPtr) : Blind (entryAt p) := by
  refine ⟨?_⟩
  rintro registry f g rfl
  simp only [entryAt, withRegistry]
  cases f.heap p with
  | none => exact .error rfl
  | some entry => exact .ok rfl

theorem blind_storeEntry (p : EntryPtr) (entry : Option FltVnodeHookEntry) :
    Blind (storeEntry p entry) := by
  refine ⟨?_⟩
  rintro registry f g rfl
  exact .ok rfl

theorem blind_readSlot (vOp : VopVector) (offset : VmOffset) : Blind (readSlot vOp offset) := by
  refine ⟨?_⟩
  rintro registry f g rfl
  exact .ok rfl

theorem blind_writeSlot (vOp : VopVector) (offset : VmOffset) (func : VopFunc) :
    Blind (writeSlot vOp offset func) := by
  refine ⟨?_⟩
  rintro registry f g rfl
  exact .ok rfl

theorem blind_newEntry (alloc : Allocator) : Blind (newEntry alloc) := by
  refine ⟨?_⟩
  rintro registry f g rfl
  simp only [newEntry, withRegistry]
  cases alloc.pick f.heap with
  | none => exact .ok rfl
  | some p => exact .ok rfl

theorem blind_pure {α : Type} (a : α) : Blind (pure a : FilterM α) := ⟨fun _ => .pure a⟩

theorem Blind.bind {α β : Type} {code : FilterM α} {next : α → FilterM β} (first : Blind code)
    (rest : ∀ a, Blind (next a)) : Blind (code >>= next) :=
  ⟨fun registry => (first.same registry).bind fun a => (rest a).same registry⟩

theorem blind_retain (p : EntryPtr) : Blind (retain p) :=
  (blind_entryAt p).bind fun _ => blind_storeEntry ..

theorem blind_release (p : EntryPtr) : Blind (release p) :=
  (blind_entryAt p).bind fun _ => blind_storeEntry ..

theorem blind_incrementVnodeCounter (p : EntryPtr) : Blind (incrementVnodeCounter p) :=
  (blind_entryAt p).bind fun _ => (blind_storeEntry ..).bind fun _ => blind_pure _

theorem blind_decrementVnodeCounter (p : EntryPtr) : Blind (decrementVnodeCounter p) :=
  (blind_entryAt p).bind fun _ => (blind_storeEntry ..).bind fun _ => blind_pure _

theorem blind_getVnodeCounter (p : EntryPtr) : Blind (getVnodeCounter p) :=
  (blind_entryAt p).bind fun _ => blind_pure _

theorem blind_getOrignalVop (p : EntryPtr) (indx : FltVopEnum) : Blind (getOrignalVop p indx) :=
  (blind_entryAt p).bind fun _ => blind_pure _

variable {offsets : List FltVnodeOpvOffsetDesc}

theorem blind_hookEntry (vnode : Vnode) (new : EntryPtr) (desc : VnodeopvEntryDesc HookRoutine) :
    Blind (hookEntry offsets vnode new desc) := by
  unfold hookEntry
  cases hookSlot offsets desc.opveOp with
  | none => exact blind_pure ()
  | some slot =>
    refine (blind_entryAt new).bind fun entry => (blind_readSlot ..).bind fun original => ?_
    split
    · exact blind_storeEntry ..
    · exact (blind_storeEntry ..).bind fun _ => blind_writeSlot ..

theorem blind_unhookEntry (vnode : Vnode) (existing : EntryPtr) (desc : VnodeopvEntryDesc HookRoutine) :
    Blind (unhookEntry offsets vnode existing desc) := by
  unfold unhookEntry
  cases hookSlot offsets desc.opveOp with
  | none => exact blind_pure ()
  | some slot =>
    refine (blind_entryAt existing).bind fun entry => ?_
    split
    · exact blind_writeSlot ..
    · exact blind_pure ()

theorem blind_currentVnodeOp (vnode : Vnode) (indx : FltVopEnum) :
    Blind (currentVnodeOp offsets vnode indx) := by
  have fails : ∀ fault : Fault, Blind (throw fault : FilterM VopFunc) := by
    intro fault
    refine ⟨?_⟩
    rintro registry f g rfl
    exact .error rfl
  unfold currentVnodeOp
  cases fltRetriveVnodeOpvEntryDescByVnodeOp gFltVnodeVopEnumEntries indx with
  | none => exact fails _
  | some enumDescEntry =>
    dsimp only
    cases fltRetriveVnodeOpvOffsetDescByVnodeOpDesc offsets enumDescEntry.opveOp with
    | none => exact fails _
    | some offsetDescEntry => exact blind_readSlot ..

/-- The program points whose code uses the registry. -/
def usesRegistry : HookThreads.Pc → Bool
  | .hookLookup _ | .hookRecheck _ _ | .hookAddEntry _ _ | .unhookLookup _ | .unhookRemove _ _
  | .getLookup _ _ | .getLookupAgain _ _ => true
  | _ => false

/-- The same lock, and a state with another registry. -/
def SharedWith (registry : Registry) (s i : HookThreads.Shared) : Prop :=
  i.lock = s.lock ∧ i.filter = withRegistry registry s.filter

theorem perform_blind {α : Type} {code : FilterM α} {next : α → HookThreads.Pc} (blind : Blind code)
    {s i : HookThreads.Shared} (related : SharedWith registry s i) :
    Follows (SharedWith registry) Eq (HookThreads.perform s code next)
      (HookThreads.perform i code next) := by
  have answers := blind.same registry s.filter i.filter related.2
  unfold HookThreads.perform
  generalize code s.filter = outcome, code i.filter = outcome' at answers ⊢
  cases answers with
  | ok same => exact .next ⟨related.1, same⟩
  | error same => exact .fault same

/-- Everywhere else a step does not see the registry. -/
theorem step_blind {s i : HookThreads.Shared} {pc : HookThreads.Pc} (act : HookThreads.Act)
    (elsewhere : usesRegistry pc = false) (related : SharedWith registry s i) :
    Follows (SharedWith registry) Eq (HookThreads.step offsets s pc act)
      (HookThreads.step offsets i pc act) := by
  cases pc with
  | hookLookup | hookRecheck | hookAddEntry | unhookLookup | unhookRemove | getLookup
  | getLookupAgain => cases elsewhere
  | idle | done =>
    cases act with
    | call call => exact .next related
    | _ => exact .blocked
  | hookNewEntry =>
    cases act with
    | allocate alloc => exact perform_blind (blind_newEntry alloc) related
    | _ => exact .blocked
  | hookIncrement | hookIncrementExisting | hookIncrementNew =>
    cases act with
    | run => exact perform_blind (blind_incrementVnodeCounter _) related
    | _ => exact .blocked
  | hookReleaseExisting | hookReleaseNew | unhookReleaseFast | unhookRelease | getRelease =>
    cases act with
    | run => exact perform_blind (blind_release _) related
    | _ => exact .blocked
  | hookUnlockShared | hookUnlockExclusive | unhookUnlockExclusive =>
    cases act with
    | run =>
      refine .next ⟨?_, related.2⟩
      simp only [related.1]
    | _ => exact .blocked
  | hookLockExclusive | unhookLockExclusive =>
    cases act with
    | run =>
      simp only [HookThreads.step, HookThreads.acquire, related.1]
      cases s.lock.lockWrite with
      | none => exact .blocked
      | some lock => exact .next ⟨rfl, related.2⟩
    | _ => exact .blocked
  | hookSlots vnode new rest =>
    cases act with
    | run =>
      cases rest with
      | nil => exact .next related
      | cons desc rest => exact perform_blind (blind_hookEntry ..) related
    | _ => cases rest <;> exact .blocked
  | unhookSlots vnode removed rest =>
    cases act with
    | run =>
      cases rest with
      | nil => exact .next related
      | cons desc rest => exact perform_blind (blind_unhookEntry ..) related
    | _ => cases rest <;> exact .blocked
  | unhookDecrement =>
    cases act with
    | run => exact perform_blind (blind_decrementVnodeCounter _) related
    | _ => exact .blocked
  | unhookTest =>
    cases act with
    | run => exact perform_blind (blind_getVnodeCounter _) related
    | _ => exact .blocked
  | getRead =>
    cases act with
    | run => exact perform_blind (blind_getOrignalVop ..) related
    | _ => exact .blocked

/-! ### Code that does -/

/-- The state with the table stands for the one with the registry. -/
structure Implements (kernel : Kernel) (before : Blocks) (s : TableState) (f : FilterState) : Prop where
  mem : f.mem = s.mem
  heap : f.heap = s.heap
  table : Registers kernel before s.nodes s.hashTable f.registry

/-- The hash table itself never faults. -/
def SameFault (fault : TableFault) (cause : Fault) : Prop := fault = .filter cause

theorem Implements.withoutRegistry {s : TableState} {f : FilterState}
    (implements : Implements kernel before s f) :
    f = withRegistry f.registry s.withoutRegistry :=
  FilterState.ext implements.mem rfl implements.heap

theorem Implements.leave {s : TableState} {f after : FilterState}
    (implements : Implements kernel before s f) :
    Implements kernel before (s.leave after) (withRegistry f.registry after) :=
  ⟨rfl, rfl, implements.table⟩

theorem elsewhere_matches {α : Type} {code : FilterM α} (blind : Blind code) :
    Matches (Implements kernel before) SameFault (elsewhere code) code := by
  intro s f implements
  have answers := blind.same f.registry s.withoutRegistry f implements.withoutRegistry
  unfold elsewhere
  generalize code s.withoutRegistry = outcome, code f = outcome' at answers ⊢
  cases answers with
  | ok same =>
    subst same
    exact .ok implements.leave
  | error same => exact .error (congrArg _ same)

theorem onTable_run {α : Type}
    {code : HashTable EntryPtr → CommonHashTable.HashM EntryPtr (α × HashTable EntryPtr)}
    {s : TableState} {a : α} (ran : code s.hashTable s.nodes = .ok ((a, t'), h')) :
    onTable code s = .ok (a, { s with nodes := h', hashTable := t' }) := by
  simp only [onTable, ran]

theorem retrieveEntry_matches (vOp : VopVector) (reference : Bool) :
    Matches (Implements kernel before) SameFault (RegistryTable.retrieveEntry vOp reference)
      (HookRegistry.retrieveEntry vOp reference) := by
  intro s f implements
  have looked : onTable (fun hashTable => ghtGet hashTable (vopKey vOp)) s =
      .ok (f.registry.lookup vOp, s) :=
    onTable_run (ghtGet_registered implements.table vOp)
  rw [RegistryTable.retrieveEntry, bind_ok looked, HookRegistry.retrieveEntry, FilterM.bind_get]
  cases f.registry.lookup vOp with
  | none => exact .ok implements
  | some p =>
    cases reference with
    | false => exact .ok implements
    | true => exact ((elsewhere_matches (blind_retain p)).bind fun _ => .pure (some p)) s f implements

/-- Whether the kernel grants the memory for a node decides what `AddEntry` does. -/
theorem addEntry_matches (vOp : VopVector) (p : EntryPtr) {s : TableState} {f : FilterState}
    (implements : Implements kernel before s f) :
    ∃ allocated, Answers (Implements kernel before) SameFault
      (RegistryTable.addEntry kernel vOp p s) (HookRegistry.addEntry vOp p allocated f) := by
  obtain ⟨rc, t', h', ran, outcome⟩ := ghtInsert_registered implements.table vOp p
  have inserted : onTable (fun hashTable => ghtInsert kernel hashTable (some p) (vopKey vOp)) s =
      .ok (rc, { s with nodes := h', hashTable := t' }) := onTable_run ran
  rw [RegistryTable.addEntry, bind_ok inserted]
  rcases outcome with ⟨rfl, absent, table⟩ | ⟨refused, table⟩
  · refine ⟨true, ?_⟩
    have next : Implements kernel before { s with nodes := h', hashTable := t' } (f.register vOp p) :=
      ⟨implements.mem, implements.heap, table⟩
    rw [if_pos rfl, HookRegistry.addEntry, FilterM.bind_get, absent]
    exact ((elsewhere_matches (blind_retain p)).bind fun _ => .pure true) _ _ next
  · refine ⟨false, ?_⟩
    rw [if_neg refused, addEntry_refused]
    exact .ok ⟨implements.mem, implements.heap, table⟩

theorem removeEntry_matches (vOp : VopVector) : Matches (Implements kernel before) SameFault
    (RegistryTable.removeEntry kernel vOp) (HookRegistry.removeEntry vOp) := by
  intro s f implements
  obtain ⟨t', h', ran, table⟩ := ghtRemove_registered implements.table vOp
  have removed : RegistryTable.removeEntry kernel vOp s =
      .ok (f.registry.lookup vOp, { s with nodes := h', hashTable := t' }) := onTable_run ran
  rw [removed]
  have next : Implements kernel before { s with nodes := h', hashTable := t' } (f.unregister vOp) :=
    ⟨implements.mem, implements.heap, table⟩
  cases found : f.registry.lookup vOp with
  | none =>
    rw [removeEntry_absent found]
    rw [FilterState.unregister_absent found] at next
    exact .ok next
  | some p =>
    rw [removeEntry_found found]
    exact .ok next

/-! ### Threads -/

/-- What the threads share with the table stands for what they share with the registry. -/
structure SharedImplements (kernel : Kernel) (before : Blocks) (s : TableShared)
    (i : HookThreads.Shared) : Prop where
  lock : i.lock = s.lock
  filter : Implements kernel before s.filter i.filter

theorem perform_matches {α : Type} {s : TableShared} {i : HookThreads.Shared} {code : TableM α}
    {code' : FilterM α} {next : α → HookThreads.Pc} (lock : i.lock = s.lock)
    (answers : Answers (Implements kernel before) SameFault (code s.filter) (code' i.filter)) :
    Follows (SharedImplements kernel before) SameFault (perform s code next)
      (HookThreads.perform i code' next) := by
  unfold perform HookThreads.perform
  generalize code s.filter = outcome, code' i.filter = outcome' at answers ⊢
  cases answers with
  | ok related => exact .next ⟨lock, related⟩
  | error same => exact .fault same

theorem performShared_matches {α : Type} {s : TableShared} {i : HookThreads.Shared} {code : TableM α}
    {code' : FilterM α} {next : α → HookThreads.Pc} (related : SharedImplements kernel before s i)
    (matches' : Matches (Implements kernel before) SameFault code code') :
    Follows (SharedImplements kernel before) SameFault (performShared s code next)
      (HookThreads.performShared i code' next) := by
  unfold performShared HookThreads.performShared
  rw [related.lock]
  cases s.lock.lockRead with
  | none => exact .blocked
  | some held => exact perform_matches related.lock (matches' _ _ related.filter)

/-- A step from any other program point. -/
theorem stepElsewhere_follows {s : TableShared} {i : HookThreads.Shared} {pc : HookThreads.Pc}
    (act : HookThreads.Act) (related : SharedImplements kernel before s i)
    (other : usesRegistry pc = false) :
    Follows (SharedImplements kernel before) SameFault (stepElsewhere offsets s pc act)
      (HookThreads.step offsets i pc act) := by
  have shared : SharedWith i.filter.registry ⟨s.filter.withoutRegistry, s.lock⟩ i :=
    ⟨related.lock, related.filter.withoutRegistry⟩
  have follows : Follows (SharedWith i.filter.registry) Eq
      (HookThreads.step offsets ⟨s.filter.withoutRegistry, s.lock⟩ pc act)
      (HookThreads.step offsets i pc act) :=
    step_blind act other shared
  unfold stepElsewhere
  generalize HookThreads.step offsets ⟨s.filter.withoutRegistry, s.lock⟩ pc act = outcome,
    HookThreads.step offsets i pc act = outcome' at follows ⊢
  cases follows with
  | blocked => exact .blocked
  | fault same => exact .fault (congrArg _ same)
  | next after =>
    refine .next ⟨after.1, ?_⟩
    rw [after.2]
    exact related.filter.leave

/-- **The table refines the registry**, step by step. -/
theorem simulates (kernel : Kernel) (before : Blocks) (offsets : List FltVnodeOpvOffsetDesc) :
    Simulates (threads kernel offsets) (HookThreads.threads offsets)
      (SharedImplements kernel before) SameFault := by
  intro s i pc act related
  cases pc with
  | hookLookup vnode =>
    refine ⟨act, ?_⟩
    cases act with
    | run =>
      have answers := retrieveEntry_matches (fltGetVnodeOpVector vnode) true _ _ related.filter
      simp only [threads, HookThreads.threads, step, HookThreads.step, related.lock]
      cases s.lock.lockRead with
      | none => exact .blocked
      | some held =>
        dsimp only
        generalize RegistryTable.retrieveEntry (fltGetVnodeOpVector vnode) true s.filter = outcome,
          HookRegistry.retrieveEntry (fltGetVnodeOpVector vnode) true i.filter = outcome' at answers ⊢
        cases answers with
        | error same => exact .fault same
        | @ok found =>
          rename_i filter
          cases found with
          | some existingEntry => exact .next ⟨rfl, filter⟩
          | none => exact .next ⟨rfl, filter⟩
    | _ => exact .blocked
  | hookRecheck vnode new =>
    refine ⟨act, ?_⟩
    cases act with
    | run => exact perform_matches related.lock (retrieveEntry_matches _ false _ _ related.filter)
    | _ => exact .blocked
  | hookAddEntry vnode new =>
    cases act with
    | run =>
      obtain ⟨allocated, answers⟩ := addEntry_matches (fltGetVnodeOpVector vnode) new related.filter
      exact ⟨.insert allocated, perform_matches related.lock answers⟩
    | _ => exact ⟨.run, .blocked⟩
  | unhookLookup vnode =>
    refine ⟨act, ?_⟩
    cases act with
    | run => exact performShared_matches related (retrieveEntry_matches _ true)
    | _ => exact .blocked
  | unhookRemove vnode existingEntry =>
    refine ⟨act, ?_⟩
    cases act with
    | run =>
      exact perform_matches related.lock
        (((elsewhere_matches (blind_release existingEntry)).bind fun _ => removeEntry_matches _) _ _
        related.filter)
    | _ => exact .blocked
  | getLookup vnode indx =>
    refine ⟨act, ?_⟩
    cases act with
    | run => exact performShared_matches related (retrieveEntry_matches _ true)
    | _ => exact .blocked
  | getLookupAgain vnode indx =>
    refine ⟨act, ?_⟩
    cases act with
    | run =>
      refine performShared_matches related ((retrieveEntry_matches _ true).bind fun found => ?_)
      cases found with
      | some existingEntry => exact .pure _
      | none => exact (elsewhere_matches (blind_currentVnodeOp vnode indx)).bind fun _ => .pure _
    | _ => exact .blocked
  | _ => exact ⟨act, stepElsewhere_follows act related rfl⟩

end FsdFilter.RegistryRefinement
