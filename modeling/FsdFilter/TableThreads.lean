import FsdFilter.AllocationFailures
import FsdFilter.OrderedMap
import FsdFilter.RegistryRefinement
import FsdFilter.ReferenceAccounting
import FsdFilter.TableInvariant

/-! What holds in every run of the threads on the hash table. Each run is one on the
registry, so what the registry keeps is kept here; the table itself is written only under
the exclusive lock, and its blocks are those of the registered vectors. -/
namespace FsdFilter.TableThreads
open StateRuns VnodeOps HookRegistry HookCalls VectorCounts Interleaving ReaderWriterLock Simulation
open RegistryTable ThreadAccounting ThreadProtection VectorTransparency RegistryRefinement
open SizedBlocks TableRepresentation
open CommonHashTable (HashKey HashTable Kernel ghtCreate)

variable {kernel : Kernel} {offsets : List FltVnodeOpvOffsetDesc} {mem : VopMemory}
  {iSize : CommonHashTable.UInt} {nonBlock : Bool} {h h' : CommonHashTable.Heap EntryPtr}
  {t : HashTable EntryPtr} {T : Type}
  {c c' : Config TableShared HookThreads.Pc T} {u : T} {a : HookThreads.Act}

/-- The keys and the data of the table, the oldest first. -/
def tableEntries (s : TableState) : List (HashKey × Option EntryPtr) :=
  AllocationFailures.entries s.nodes s.hashTable

/-- The blocks of the table. -/
def tableBlocks (kernel : Kernel) (s : TableState) : List Addr :=
  footprint kernel s.nodes s.hashTable (TableInvariant.byAge s.nodes s.hashTable)

/-! ### A run -/

/-- The first call of the filter: a table of eight buckets, in memory that was not used. -/
def firstTable : HashTable EntryPtr × CommonHashTable.Heap EntryPtr :=
  match ghtCreate OrderedMap.alwaysGranted 8 true CommonHashTable.Heap.empty with
  | .ok (some t, h) => (t, h)
  | _ => (.created 0 0 true 0 0 0, .empty)

theorem firstTable_created :
    ghtCreate OrderedMap.alwaysGranted 8 true .empty = .ok (some firstTable.1, firstTable.2) := rfl

/-- One thread hooks a vector, the other one then looks a function up. -/
def hookThenLookup : List (Fin 2 × HookThreads.Act) :=
  HookThreads.takes HookThreads.thread0
    ([.call (.hook ⟨64, .vreg, false⟩), .run, .allocate (.within 4)] ++ List.replicate 19 .run) ++
  HookThreads.takes HookThreads.thread1 [.call (.getOriginal ⟨64, .vreg, false⟩ .read),
    .run, .run, .run]

def files : Vectors := .ofFileSystems .consecutive fun _ _ => 1

theorem hooked_reached : ∃ c : Config TableShared HookThreads.Pc (Fin 2),
    Reaches (threads OrderedMap.alwaysGranted files.table) anyStep
    (start files.original firstTable.1 firstTable.2) c ∧
      c.pc 1 = .done (.original ⟨64, .vreg, false⟩ .read (.fsd 1)) ∧
      tableEntries c.shared.filter = [(vopKey 64, some 0)] := by
  obtain ⟨c, reached, ends⟩ :=
    exists_reached_of_replay (threads OrderedMap.alwaysGranted files.table) anyStep
    (start files.original firstTable.1 firstTable.2) hookThenLookup
    (fun c => c.pc 1 = .done (.original ⟨64, .vreg, false⟩ .read (.fsd 1)) ∧
      tableEntries c.shared.filter = [(vopKey 64, some 0)]) (by decide +kernel)
  exact ⟨c, reached, of_decide_eq_true ends⟩

/-! ### Runs on the registry -/

/-- The configuration with the table shows what the one with the registry does. -/
structure ShowsRegistry (c : Config TableShared HookThreads.Pc T)
    (d : Config HookThreads.Shared HookThreads.Pc T) : Prop where
  pc : d.pc = c.pc
  lock : d.shared.lock = c.shared.lock
  mem : d.shared.filter.mem = c.shared.filter.mem
  heap : d.shared.filter.heap = c.shared.filter.heap
  entries : tableEntries c.shared.filter = registered d.shared.filter.registry

theorem entries_of_registers {before : Blocks} {registry : Registry}
    (registers : Registers kernel before h t registry) :
    AllocationFailures.entries h t = registered registry := by
  obtain ⟨nodes, chain, represents, same, -⟩ := registers.holds
  exact (AllocationFailures.entries_eq represents).trans same

theorem start_implements (created : ghtCreate kernel iSize nonBlock h = .ok (some t, h')) :
    SharedImplements kernel h.blocks (start (T := T) mem t h').shared
      (HookThreads.start (T := T) mem).shared :=
  ⟨rfl, rfl, rfl, ghtCreate_registered created⟩

variable [DecidableEq T]

/-- The run on the registry that goes with one on the table. -/
theorem registry_run (created : ghtCreate kernel iSize nonBlock h = .ok (some t, h'))
    (reached : Reaches (threads kernel offsets) anyStep (start mem t h') c) :
    ∃ i, Reaches (HookThreads.threads offsets) anyStep (HookThreads.start mem) ⟨i, c.pc⟩ ∧
      SharedImplements kernel h.blocks c.shared i :=
  (simulates kernel h.blocks offsets).reaches (start_implements (T := T) created) reached

/-- **The hash table is the registry.** Every run of the threads on the hash table is a run
on the finite map of vectors, with the same program points, slots and entries, and the
table's entries in the order of their registration; no step faults in the hash table. -/
theorem table_runs_as_registry (kernel : Kernel) (offsets : List FltVnodeOpvOffsetDesc)
    (mem : VopMemory) (created : ghtCreate kernel iSize nonBlock h = .ok (some t, h'))
    (reached : Reaches (threads kernel offsets) anyStep (start mem t h') c) :
    (∃ d, Reaches (HookThreads.threads offsets) anyStep (HookThreads.start mem) d ∧ ShowsRegistry c d) ∧
      ∀ u a fault, (threads kernel offsets).advance c u a ≠ .fault (.table fault) := by
  obtain ⟨i, run, related⟩ := registry_run created reached
  refine ⟨⟨_, run, rfl, related.lock, related.filter.mem, related.filter.heap,
    entries_of_registers related.filter.table⟩, ?_⟩
  intro u a fault stopped
  obtain ⟨b, cause, -, same⟩ := (simulates kernel h.blocks offsets).fault related stopped
  cases same

theorem table_runs_as_registry_hooked : ∃ c : Config TableShared HookThreads.Pc (Fin 2),
    c.pc 1 = .done (.original ⟨64, .vreg, false⟩ .read (.fsd 1)) ∧
      (∃ d, Reaches (HookThreads.threads files.table) anyStep (HookThreads.start files.original) d ∧
        ShowsRegistry c d) ∧
      ∀ u a fault, (threads OrderedMap.alwaysGranted files.table).advance c u a ≠ .fault
      (.table fault) := by
  obtain ⟨c, reached, finished, -⟩ := hooked_reached
  exact ⟨c, finished, table_runs_as_registry _ _ _ firstTable_created reached⟩

/-! ### The slots -/

section Slots
variable [Fintype T]

/-- Nothing but a lookup of an operation without a descriptor stops the kernel. -/
theorem only_nullDescriptor (vectors : Vectors)
    (created : ghtCreate kernel iSize nonBlock h = .ok (some t, h'))
    (reached : Reaches (threads kernel vectors.table) anyStep (start vectors.original t h') c)
    {fault : TableFault} (stopped : (threads kernel vectors.table).advance c u a = .fault fault) :
    ∃ indx, fault = .filter (.nullDescriptor indx) := by
  obtain ⟨i, run, related⟩ := registry_run created reached
  obtain ⟨b, cause, matched, rfl⟩ := (simulates kernel h.blocks vectors.table).fault related stopped
  cases cause with
  | nullDescriptor indx => exact ⟨indx, rfl⟩
  | freedEntry entry =>
    have safe := protected_of_reaches run
    refine absurd (System.advance_fault matched) (ReferenceAccounting.step_safe ?_ ?_ ?_)
    · exact fun e has => safe.held_live has
    · exact fun v e found => safe.registered_live found
    · exact safe.recheck u

end Slots

/-! ### Who writes the table -/

/-- The table and its memory are the same. -/
def SameTable (s s' : TableState) : Prop := s'.nodes = s.nodes ∧ s'.hashTable = s.hashTable

theorem elsewhere_keepsTable {α : Type} (code : FilterM α) (s : TableState) :
    Ensures (elsewhere code) s fun _ => SameTable s := by
  intro a s' ran
  unfold elsewhere at ran
  cases outcome : code s.withoutRegistry with
  | error fault => rw [outcome] at ran; cases ran
  | ok found => rw [outcome] at ran; cases ran; exact ⟨rfl, rfl⟩

section Steps
variable {before : Blocks} {registry : Registry} {s s' : TableShared} {pc pc' : HookThreads.Pc}

theorem retrieveEntry_keepsTable {s : TableState}
    (registers : Registers kernel before s.nodes s.hashTable registry) (vOp : VopVector)
    (reference : Bool) :
    Ensures (RegistryTable.retrieveEntry vOp reference) s fun _ => SameTable s := by
  refine .after (onTable_run (ghtGet_registered registers vOp)) ?_
  cases registry.lookup vOp with
  | none => exact .of_ok rfl ⟨rfl, rfl⟩
  | some p =>
    cases reference with
    | false => exact .of_ok rfl ⟨rfl, rfl⟩
    | true => exact (elsewhere_keepsTable (retain p) s).bind fun _ s' same => .of_ok rfl same

theorem perform_keepsTable {α : Type} {code : TableM α} {next : α → HookThreads.Pc}
    (keeps : Ensures code s.filter fun _ => SameTable s.filter)
    (stepped : perform s code next = .next (s', pc')) :
    SameTable s.filter s'.filter := by
  unfold perform at stepped
  cases ran : code s.filter with
  | error fault => rw [ran] at stepped; cases stepped
  | ok found => rw [ran] at stepped; cases stepped; exact keeps _ _ ran

theorem performShared_keepsTable {α : Type} {code : TableM α} {next : α → HookThreads.Pc}
    (keeps : Ensures code s.filter fun _ => SameTable s.filter)
    (stepped : performShared s code next = .next (s', pc')) :
    SameTable s.filter s'.filter := by
  unfold performShared at stepped
  cases free : s.lock.lockRead with
  | none => rw [free] at stepped; cases stepped
  | some held => rw [free] at stepped; exact perform_keepsTable keeps stepped

theorem stepElsewhere_keepsTable (stepped : stepElsewhere offsets s pc a = .next (s', pc')) :
    SameTable s.filter s'.filter := by
  unfold stepElsewhere at stepped
  cases ran : HookThreads.step offsets ⟨s.filter.withoutRegistry, s.lock⟩ pc a with
  | blocked => rw [ran] at stepped; cases stepped
  | fault reason => rw [ran] at stepped; cases stepped
  | next after => rw [ran] at stepped; cases stepped; exact ⟨rfl, rfl⟩

/-- Without the exclusive lock no step writes the table. -/
theorem step_keepsTable (registers : Registers kernel before s.filter.nodes s.filter.hashTable registry)
    (stepped : step kernel offsets s pc a = .next (s', pc')) (shared : pc.mode ≠ .exclusive) :
    SameTable s.filter s'.filter := by
  have lookup := fun vOp => retrieveEntry_keepsTable registers vOp true
  cases pc with
  | hookRecheck | hookAddEntry | unhookRemove => exact absurd rfl shared
  | hookLookup vnode =>
    cases a with
    | run =>
      simp only [step] at stepped
      cases free : s.lock.lockRead with
      | none => rw [free] at stepped; cases stepped
      | some held =>
        simp only [free] at stepped
        cases ran : RegistryTable.retrieveEntry (fltGetVnodeOpVector vnode) true s.filter with
        | error fault => rw [ran] at stepped; cases stepped
        | ok result =>
          obtain ⟨found, filter⟩ := result
          have keeps := lookup _ _ _ ran
          rw [ran] at stepped
          cases found <;> (cases stepped; exact keeps)
    | _ => cases stepped
  | unhookLookup vnode =>
    cases a with
    | run => exact performShared_keepsTable (lookup _) stepped
    | _ => cases stepped
  | getLookup vnode indx =>
    cases a with
    | run => exact performShared_keepsTable (lookup _) stepped
    | _ => cases stepped
  | getLookupAgain vnode indx =>
    cases a with
    | run =>
      refine performShared_keepsTable ((lookup _).bind fun found middle same => ?_) stepped
      cases found with
      | some e => exact .of_ok rfl same
      | none =>
        refine (elsewhere_keepsTable (currentVnodeOp offsets vnode indx) middle).bind
          fun _ last same' => ?_
        exact .of_ok rfl ⟨same'.1.trans same.1, same'.2.trans same.2⟩
    | _ => cases stepped
  | _ => exact stepElsewhere_keepsTable stepped

end Steps

/-- **The table is never raced for.** A step that changes the table or its memory is taken
by a thread that holds the lock exclusively, and no other thread holds it then; the
lookups under the shared lock write nothing. -/
theorem table_written_alone [Fintype T] (created : ghtCreate kernel iSize nonBlock h = .ok (some t, h'))
    (reached : Reaches (threads kernel offsets) anyStep (start mem t h') c)
    (moved : (threads kernel offsets).advance c u a = .next c')
    (written : ¬ SameTable c.shared.filter c'.shared.filter) :
    (c.pc u).mode = .exclusive ∧ ∀ v, v ≠ u → (c.pc v).mode = .free := by
  obtain ⟨i, run, related⟩ := registry_run created reached
  obtain ⟨point, stepped, -⟩ := System.advance_next moved
  have exclusive : (c.pc u).mode = .exclusive := by
    by_contra shared
    exact written (step_keepsTable related.filter.table stepped shared)
  exact ⟨exclusive, fun v other => (protected_of_reaches run).inStep.alone exclusive other⟩

/-- One thread is about to register a vector. -/
def beforeAddEntry : List (Fin 2 × HookThreads.Act) :=
  HookThreads.takes HookThreads.thread0 [.call (.hook ⟨64, .vreg, false⟩), .run,
    .allocate (.within 4), .run, .run]

/-- The step of a thread writes the number of entries. -/
def countsEntry (c : Config TableShared HookThreads.Pc (Fin 2)) (u : Fin 2) : Bool :=
  match (threads OrderedMap.alwaysGranted files.table).advance c u .run with
  | .next c' => c'.shared.filter.hashTable.iItems ≠ c.shared.filter.hashTable.iItems
  | _ => false

theorem table_written_alone_addEntry : ∃ c c' : Config TableShared HookThreads.Pc (Fin 2),
    (threads OrderedMap.alwaysGranted files.table).advance c 0 .run = .next c' ∧
      ¬ SameTable c.shared.filter c'.shared.filter ∧
      (c.pc 0).mode = .exclusive ∧ ∀ v, v ≠ 0 → (c.pc v).mode = .free := by
  obtain ⟨c, reached, counts⟩ :=
    exists_reached_of_replay (threads OrderedMap.alwaysGranted files.table) anyStep
    (start files.original firstTable.1 firstTable.2) beforeAddEntry (fun c => countsEntry c 0)
    (by decide +kernel)
  cases moved : (threads OrderedMap.alwaysGranted files.table).advance c 0 .run with
  | next c' =>
    rw [countsEntry, moved] at counts
    have written : ¬ SameTable c.shared.filter c'.shared.filter :=
      fun same => of_decide_eq_true counts (congrArg (·.iItems) same.2)
    exact ⟨c, c', moved, written, table_written_alone firstTable_created reached moved written⟩
  | blocked => rw [countsEntry, moved] at counts; cases counts
  | fault reason => rw [countsEntry, moved] at counts; cases counts

/-! ### The blocks -/

/-- The blocks of an entry are allocated: one, and in a DBG build one more. -/
theorem node_blocks {e : Addr} (node : Node kernel h e) :
    (∀ x ∈ blocksOf kernel h e, h.blocks.live x = true) ∧ (blocksOf kernel h e).length =
      if kernel.dbg then 2 else 1 := by
  have own := Blocks.live_of_size node.block
  cases dbg : kernel.dbg with
  | false => simp [blocksOf, dbg, own]
  | true =>
    obtain ⟨s, shadow, block⟩ := node.shadow dbg
    simp [blocksOf, dbg, shadow, own, Blocks.live_of_size block]

theorem stored_live {nodes : List Addr} (stored : Stored kernel h t nodes) {x : Addr}
    (member : x ∈ footprint kernel h t nodes) : h.blocks.live x = true := by
  simp only [footprint, List.mem_cons, List.mem_flatMap] at member
  rcases member with rfl | rfl | rfl | ⟨e, inside, block⟩
  · exact Blocks.live_of_size stored.header
  · exact Blocks.live_of_size stored.entries
  · exact Blocks.live_of_size stored.counters
  · exact (node_blocks (stored.node e inside)).1 x block

theorem footprint_length {nodes : List Addr} (stored : Stored kernel h t nodes) :
    (footprint kernel h t nodes).length = 3 + (if kernel.dbg then 2 else 1) * nodes.length := by
  have lengths : nodes.map (fun e => (blocksOf kernel h e).length) = nodes.map fun _ =>
      if kernel.dbg then 2 else 1 :=
    List.map_congr_left fun e inside => (node_blocks (stored.node e inside)).2
  simp only [footprint, List.length_cons, List.length_flatMap, lengths, List.map_const',
    List.sum_replicate_nat]
  rw [Nat.mul_comm]
  omega

/-- **Nothing leaks.** In every run the blocks that were allocated since the table was
created and are not freed are those of the table: three, and one for each registered
vector, or two in a DBG build. -/
theorem table_blocks_accounted (created : ghtCreate kernel iSize nonBlock h = .ok (some t, h'))
    (reached : Reaches (threads kernel offsets) anyStep (start mem t h') c) :
    (tableBlocks kernel c.shared.filter).Nodup ∧
      (∀ x ∈ tableBlocks kernel c.shared.filter, c.shared.filter.nodes.blocks.live x = true ∧
        h.blocks.live x = false) ∧
      (∀ x, x ∉ tableBlocks kernel c.shared.filter → c.shared.filter.nodes.blocks.size x = h.blocks.size x) ∧
      (tableBlocks kernel c.shared.filter).length =
        3 + (if kernel.dbg then 2 else 1) * (tableEntries c.shared.filter).length := by
  obtain ⟨i, run, related⟩ := registry_run created reached
  obtain ⟨nodes, chain, represents, same, accounts⟩ := related.filter.table.holds
  rw [tableBlocks, TableInvariant.byAge_eq represents, tableEntries, AllocationFailures.entries_eq represents]
  refine ⟨represents.stored.apart, fun x inside => ⟨stored_live represents.stored inside, ?_⟩,
    fun x outside => ?_, ?_⟩
  · have new := (accounts.taken x inside).resolve_left List.not_mem_nil
    rw [Blocks.live, Blocks.size_of_fresh new]
    rfl
  · exact accounts.rest x List.not_mem_nil outside
  · rw [footprint_length represents.stored, contents, List.length_map]

theorem table_blocks_accounted_hooked : ∃ c : Config TableShared HookThreads.Pc (Fin 2),
    tableEntries c.shared.filter = [(vopKey 64, some 0)] ∧
      (tableBlocks OrderedMap.alwaysGranted c.shared.filter).length = 4 := by
  obtain ⟨c, reached, -, entries⟩ := hooked_reached
  obtain ⟨-, -, -, count⟩ := table_blocks_accounted firstTable_created reached
  refine ⟨c, entries, ?_⟩
  rw [count, entries]
  rfl

end FsdFilter.TableThreads
