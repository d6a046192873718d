import FsdFilter.CommonHashTable
import FsdFilter.HookThreads

/-! `FltVnodeHooksHashTable` on the hash table of `CommonHashTable.cpp`, and the threads
of the hook routines with it. The key of an entry is the address of an operations vector
as the eight bytes of the local variable `v_op`. -/
namespace FsdFilter.RegistryTable
open StateRuns VnodeOps HookRegistry HookCalls Interleaving ReaderWriterLock

/-- The bytes of a `v_op` in memory, the lowest first. -/
def vopKey (vOp : VopVector) : CommonHashTable.HashKey where
  bytes := (List.range 8).map fun i => vOp.extractLsb' (8 * i) 8
  short := by
    rw [List.length_map, List.length_range]
    decide

/-- The shared state of the filter, with the table and its memory. -/
structure TableState where
  mem : VopMemory
  heap : Heap
  nodes : CommonHashTable.Heap EntryPtr
  hashTable : CommonHashTable.HashTable EntryPtr

/-- Accesses that stop the kernel. -/
inductive TableFault where
  | filter (fault : Fault)
  | table (fault : CommonHashTable.Fault)
  deriving DecidableEq, Repr

/-- Code of the filter: it changes the state or faults. -/
abbrev TableM : Type → Type := StateT TableState (Except TableFault)

/-- What the state is to code that does not use the registry. -/
def TableState.withoutRegistry (s : TableState) : FilterState := ⟨s.mem, ∅, s.heap⟩

/-- Takes over what such code changed. -/
def TableState.leave (s : TableState) (filter : FilterState) : TableState :=
  { s with mem := filter.mem, heap := filter.heap }

/-- Code that does not use the registry. -/
def elsewhere {α : Type} (code : FilterM α) : TableM α := fun s =>
  match code s.withoutRegistry with
  | .ok (a, filter) => .ok (a, s.leave filter)
  | .error fault => .error (.filter fault)

/-- A call to the hash table. -/
def onTable {α : Type} (code : CommonHashTable.HashTable EntryPtr →
    CommonHashTable.HashM EntryPtr (α × CommonHashTable.HashTable EntryPtr)) : TableM α := fun s =>
  match code s.hashTable s.nodes with
  | .ok ((a, hashTable), nodes) => .ok (a, { s with nodes := nodes, hashTable := hashTable })
  | .error fault => .error (.table fault)

/-! ### `FltVnodeHooksHashTable` -/

/-- `RetrieveEntry`. -/
def retrieveEntry (vOp : VopVector) (reference : Bool) : TableM (Option EntryPtr) := do
  match ← onTable fun hashTable => CommonHashTable.ghtGet hashTable (vopKey vOp) with
  | some entry =>
    if reference then elsewhere (retain entry)
    pure (some entry)
  | none => pure none

/-- `AddEntry`. -/
def addEntry (kernel : CommonHashTable.Kernel) (vOp : VopVector) (entry : EntryPtr) : TableM Bool := do
  let rc ← onTable fun hashTable => CommonHashTable.ghtInsert kernel hashTable (some entry) (vopKey vOp)
  if rc = .ghtOk then
    elsewhere (retain entry)
    pure true
  else
    pure false

/-- `RemoveEntry`. -/
def removeEntry (kernel : CommonHashTable.Kernel) (vOp : VopVector) : TableM (Option EntryPtr) :=
  onTable fun hashTable => CommonHashTable.ghtRemove kernel hashTable (vopKey vOp)

/-! ### Threads -/

/-- What the threads share: the filter's state and the lock of the registry. -/
structure TableShared where
  filter : TableState
  lock : RwLock

/-- Runs some code of the filter and goes on where its result leads. -/
def perform {α : Type} (s : TableShared) (action : TableM α) (next : α → HookThreads.Pc) :
    Outcome TableFault (TableShared × HookThreads.Pc) :=
  match action s.filter with
  | .ok (result, filter) => .next ({ s with filter := filter }, next result)
  | .error fault => .fault fault

/-- The same in a section of its own under the shared lock. -/
def performShared {α : Type} (s : TableShared) (action : TableM α) (next : α → HookThreads.Pc) :
    Outcome TableFault (TableShared × HookThreads.Pc) :=
  match s.lock.lockRead with
  | some _ => perform s action next
  | none => .blocked

/-- A step from a program point that does not use the registry. -/
def stepElsewhere (offsets : List FltVnodeOpvOffsetDesc) (s : TableShared) (pc : HookThreads.Pc)
    (act : HookThreads.Act) :
    Outcome TableFault (TableShared × HookThreads.Pc) :=
  match HookThreads.step offsets ⟨s.filter.withoutRegistry, s.lock⟩ pc act with
  | .blocked => .blocked
  | .fault fault => .fault (.filter fault)
  | .next (after, point) => .next (⟨s.filter.leave after.filter, after.lock⟩, point)

/-- One step of a thread. Whether `ght_insert` gets the memory it needs is up to the
kernel. -/
def step (kernel : CommonHashTable.Kernel) (offsets : List FltVnodeOpvOffsetDesc) (s : TableShared) :
    HookThreads.Pc → HookThreads.Act → Outcome TableFault (TableShared × HookThreads.Pc)
  | .hookLookup vnode, .run =>
    match s.lock.lockRead with
    | none => .blocked
    | some held =>
      match retrieveEntry (fltGetVnodeOpVector vnode) true s.filter with
      | .ok (some existingEntry, filter) => .next (⟨filter, held⟩, .hookIncrement vnode existingEntry)
      | .ok (none, filter) => .next (⟨filter, s.lock⟩, .hookNewEntry vnode)
      | .error fault => .fault fault
  | .hookRecheck vnode new, .run =>
    perform s (retrieveEntry (fltGetVnodeOpVector vnode) false) fun
      | some existingEntry => .hookIncrementExisting vnode new existingEntry
      | none => .hookAddEntry vnode new
  | .hookAddEntry vnode new, .run =>
    perform s (addEntry kernel (fltGetVnodeOpVector vnode) new) fun
      | true => .hookIncrementNew vnode new
      | false => .hookUnlockExclusive vnode new .kIOReturnNoMemory
  | .hookAddEntry _ _, _ => .blocked
  | .unhookLookup vnode, .run =>
    performShared s (retrieveEntry (fltGetVnodeOpVector vnode) true) fun
      | some existingEntry => .unhookDecrement vnode existingEntry
      | none => .done (.unhooked vnode)
  | .unhookRemove vnode existingEntry, .run =>
    perform s (do elsewhere (release existingEntry); removeEntry kernel (fltGetVnodeOpVector vnode)) fun
      | some removed => .unhookSlots vnode removed gFltVnodeVopHookEntries
      | none => .unhookUnlockExclusive vnode none
  | .getLookup vnode indx, .run =>
    performShared s (retrieveEntry (fltGetVnodeOpVector vnode) true) fun
      | some existingEntry => .getRead vnode indx existingEntry
      | none => .getLookupAgain vnode indx
  | .getLookupAgain vnode indx, .run =>
    performShared s (do
      match ← retrieveEntry (fltGetVnodeOpVector vnode) true with
      | some existingEntry => pure (.getRead vnode indx existingEntry)
      | none => do
        let original ← elsewhere (currentVnodeOp offsets vnode indx)
        pure (.done (.original vnode indx original))) id
  | pc, act => stepElsewhere offsets s pc act

/-- The threads of the filter. -/
def threads (kernel : CommonHashTable.Kernel) (offsets : List FltVnodeOpvOffsetDesc) :
    System TableShared HookThreads.Pc HookThreads.Act TableFault := ⟨step kernel offsets⟩

variable {T : Type}

/-- Nothing is hooked and no thread is in a call. -/
def start (mem : VopMemory) (hashTable : CommonHashTable.HashTable EntryPtr)
    (nodes : CommonHashTable.Heap EntryPtr) :
    Config TableShared HookThreads.Pc T :=
  ⟨⟨⟨mem, fun _ => none, nodes, hashTable⟩, .unlocked⟩, fun _ => .idle⟩

end FsdFilter.RegistryTable
