import FsdFilter.HookCalls
import FsdFilter.ReaderWriterLock

/-! The hook routines run by threads that interleave. A program point stands
between two accesses of the source: every section under the shared lock, every
atomic counter operation and every slot of the two loops is a step of its own,
and so are the lock operations and releases around them. -/
namespace FsdFilter.HookThreads
open VnodeOps HookRegistry HookCalls Interleaving ReaderWriterLock

/-- What the threads share: the filter's state and the lock of the registry. -/
structure Shared where
  filter : FilterState
  lock : RwLock

/-- A call a thread makes. -/
inductive Call where
  | hook (vnode : Vnode)
  | unhook (vnode : Vnode)
  | getOriginal (vnode : Vnode) (indx : FltVopEnum)
  deriving DecidableEq, Repr

/-- What a call returned. -/
inductive Result where
  | hooked (vnode : Vnode) (answer : HookReturn)
  | unhooked (vnode : Vnode)
  | original (vnode : Vnode) (indx : FltVopEnum) (func : VopFunc)
  deriving DecidableEq, Repr

/-- Program points. A point carries the local variables still in use. -/
inductive Pc where
  | idle
  | done (result : Result)
  -- `FltHookVnodeVop`
  | hookLookup (vnode : Vnode)
  | hookIncrement (vnode : Vnode) (existingEntry : EntryPtr)
  | hookUnlockShared (vnode : Vnode) (existingEntry : EntryPtr)
  | hookReleaseExisting (vnode : Vnode) (existingEntry : EntryPtr)
  | hookNewEntry (vnode : Vnode)
  | hookLockExclusive (vnode : Vnode) (newEntry : EntryPtr)
  | hookRecheck (vnode : Vnode) (newEntry : EntryPtr)
  | hookIncrementExisting (vnode : Vnode) (newEntry existingEntry : EntryPtr)
  | hookAddEntry (vnode : Vnode) (newEntry : EntryPtr)
  | hookIncrementNew (vnode : Vnode) (newEntry : EntryPtr)
  | hookSlots (vnode : Vnode) (newEntry : EntryPtr) (rest : List (VnodeopvEntryDesc HookRoutine))
  | hookUnlockExclusive (vnode : Vnode) (newEntry : EntryPtr) (rc : IOReturn)
  | hookReleaseNew (vnode : Vnode) (newEntry : EntryPtr) (rc : IOReturn)
  -- `FltUnHookVnodeVop`
  | unhookLookup (vnode : Vnode)
  | unhookDecrement (vnode : Vnode) (existingEntry : EntryPtr)
  | unhookReleaseFast (vnode : Vnode) (existingEntry : EntryPtr)
  | unhookLockExclusive (vnode : Vnode) (existingEntry : EntryPtr)
  | unhookTest (vnode : Vnode) (existingEntry : EntryPtr)
  | unhookRemove (vnode : Vnode) (existingEntry : EntryPtr)
  | unhookSlots (vnode : Vnode) (removed : EntryPtr) (rest : List (VnodeopvEntryDesc HookRoutine))
  | unhookUnlockExclusive (vnode : Vnode) (last : Option EntryPtr)
  | unhookRelease (vnode : Vnode) (last : EntryPtr)
  -- `FltGetOriginalVnodeOp`
  | getLookup (vnode : Vnode) (indx : FltVopEnum)
  | getLookupAgain (vnode : Vnode) (indx : FltVopEnum)
  | getRead (vnode : Vnode) (indx : FltVopEnum) (existingEntry : EntryPtr)
  | getRelease (vnode : Vnode) (indx : FltVopEnum) (existingEntry : EntryPtr) (original : VopFunc)
  deriving DecidableEq, Repr

/-- How a program point holds the lock of the registry. -/
def Pc.mode : Pc → Mode
  | .hookIncrement .. | .hookUnlockShared .. => .shared
  | .hookRecheck .. | .hookIncrementExisting .. | .hookAddEntry .. | .hookIncrementNew ..
  | .hookSlots .. | .hookUnlockExclusive .. => .exclusive
  | .unhookTest .. | .unhookRemove .. | .unhookSlots .. | .unhookUnlockExclusive .. => .exclusive
  | _ => .free

/-- No call is in progress. -/
def Pc.resting : Pc → Bool
  | .idle | .done _ => true
  | _ => false

/-- What the environment decides: which call a resting thread makes, and what
memory an allocation or an insertion gets. -/
inductive Act where
  | call (call : Call)
  | run
  | allocate (alloc : Allocator)
  | insert (allocated : Bool)

/-- The tests a call makes before it looks at shared state. -/
def Call.enter : Call → Pc
  | .hook vnode =>
    if fltGetVnodeOpVector vnode = fltVopUnknownOffset then
      .done (.hooked vnode ⟨.kIOReturnError, none⟩)
    else if vnode.isRecycled then .done (.hooked vnode ⟨.kIOReturnNoDevice, none⟩)
    else if !vnode.isDiskRelated then .done (.hooked vnode ⟨.kIOReturnSuccess, some false⟩)
    else .hookLookup vnode
  | .unhook vnode =>
    if !vnode.isDiskRelated then .done (.unhooked vnode)
    else if fltGetVnodeOpVector vnode = fltVopUnknownOffset then .done (.unhooked vnode)
    else .unhookLookup vnode
  | .getOriginal vnode indx => .getLookup vnode indx

/-- What `FltHookVnodeVop` returns after its exclusive section. -/
def hookAnswer (rc : IOReturn) : HookReturn :=
  ⟨rc, if rc = .kIOReturnSuccess then some true else none⟩

/-- Runs some code of the filter and goes on where its result leads. -/
def perform {α : Type} (s : Shared) (action : FilterM α) (next : α → Pc) :
    Outcome Fault (Shared × Pc) :=
  match action s.filter with
  | .ok (result, filter) => .next ({ s with filter := filter }, next result)
  | .error fault => .fault fault

/-- The same in a section of its own under the shared lock. -/
def performShared {α : Type} (s : Shared) (action : FilterM α) (next : α → Pc) :
    Outcome Fault (Shared × Pc) :=
  match s.lock.lockRead with
  | some _ => perform s action next
  | none => .blocked

/-- Waits for the lock and goes on holding it. -/
def acquire (s : Shared) (lock : Option RwLock) (next : Pc) : Outcome Fault (Shared × Pc) :=
  match lock with
  | some lock => .next ({ s with lock := lock }, next)
  | none => .blocked

/-- Gives the lock back. -/
def releaseLock (s : Shared) (mode : Mode) (next : Pc) : Outcome Fault (Shared × Pc) :=
  .next ({ s with lock := s.lock.unlock mode }, next)

/-- One step of a thread. -/
def step (offsets : List FltVnodeOpvOffsetDesc) (s : Shared) : Pc → Act → Outcome Fault (Shared × Pc)
  | .idle, .call call => .next (s, call.enter)
  | .done _, .call call => .next (s, call.enter)
  -- the shared section of `FltHookVnodeVop` goes on to the increment when it finds an entry
  | .hookLookup vnode, .run =>
    match s.lock.lockRead with
    | none => .blocked
    | some held =>
      match retrieveEntry (fltGetVnodeOpVector vnode) true s.filter with
      | .ok (some existingEntry, filter) => .next (⟨filter, held⟩, .hookIncrement vnode existingEntry)
      | .ok (none, filter) => .next (⟨filter, s.lock⟩, .hookNewEntry vnode)
      | .error fault => .fault fault
  | .hookIncrement vnode existingEntry, .run =>
    perform s (incrementVnodeCounter existingEntry) fun _ => .hookUnlockShared vnode existingEntry
  | .hookUnlockShared vnode existingEntry, .run =>
    releaseLock s .shared (.hookReleaseExisting vnode existingEntry)
  | .hookReleaseExisting vnode existingEntry, .run =>
    perform s (release existingEntry) fun _ => .done (.hooked vnode ⟨.kIOReturnSuccess, some true⟩)
  | .hookNewEntry vnode, .allocate alloc =>
    perform s (newEntry alloc) fun
      | some new => .hookLockExclusive vnode new
      | none => .done (.hooked vnode ⟨.kIOReturnNoMemory, none⟩)
  | .hookLockExclusive vnode new, .run => acquire s s.lock.lockWrite (.hookRecheck vnode new)
  | .hookRecheck vnode new, .run =>
    perform s (retrieveEntry (fltGetVnodeOpVector vnode) false) fun
      | some existingEntry => .hookIncrementExisting vnode new existingEntry
      | none => .hookAddEntry vnode new
  | .hookIncrementExisting vnode new existingEntry, .run =>
    perform s (incrementVnodeCounter existingEntry) fun _ =>
      .hookUnlockExclusive vnode new .kIOReturnSuccess
  | .hookAddEntry vnode new, .insert allocated =>
    perform s (addEntry (fltGetVnodeOpVector vnode) new allocated) fun
      | true => .hookIncrementNew vnode new
      | false => .hookUnlockExclusive vnode new .kIOReturnNoMemory
  | .hookIncrementNew vnode new, .run =>
    perform s (incrementVnodeCounter new) fun _ => .hookSlots vnode new gFltVnodeVopHookEntries
  | .hookSlots vnode new (desc :: rest), .run =>
    perform s (hookEntry offsets vnode new desc) fun _ => .hookSlots vnode new rest
  | .hookSlots vnode new [], .run => .next (s, .hookUnlockExclusive vnode new .kIOReturnSuccess)
  | .hookUnlockExclusive vnode new rc, .run => releaseLock s .exclusive (.hookReleaseNew vnode new rc)
  | .hookReleaseNew vnode new rc, .run =>
    perform s (release new) fun _ => .done (.hooked vnode (hookAnswer rc))
  | .unhookLookup vnode, .run =>
    performShared s (retrieveEntry (fltGetVnodeOpVector vnode) true) fun
      | some existingEntry => .unhookDecrement vnode existingEntry
      | none => .done (.unhooked vnode)
  | .unhookDecrement vnode existingEntry, .run =>
    perform s (decrementVnodeCounter existingEntry) fun before =>
      if before ≠ 1 then .unhookReleaseFast vnode existingEntry
      else .unhookLockExclusive vnode existingEntry
  | .unhookReleaseFast vnode existingEntry, .run =>
    perform s (release existingEntry) fun _ => .done (.unhooked vnode)
  | .unhookLockExclusive vnode existingEntry, .run =>
    acquire s s.lock.lockWrite (.unhookTest vnode existingEntry)
  | .unhookTest vnode existingEntry, .run =>
    perform s (getVnodeCounter existingEntry) fun counter =>
      if counter ≠ 0 then .unhookUnlockExclusive vnode (some existingEntry)
      else .unhookRemove vnode existingEntry
  -- the entry just tested is let go, the one of the registry is taken instead
  | .unhookRemove vnode existingEntry, .run =>
    perform s (do release existingEntry; removeEntry (fltGetVnodeOpVector vnode)) fun
      | some removed => .unhookSlots vnode removed gFltVnodeVopHookEntries
      | none => .unhookUnlockExclusive vnode none
  | .unhookSlots vnode removed (desc :: rest), .run =>
    perform s (unhookEntry offsets vnode removed desc) fun _ => .unhookSlots vnode removed rest
  | .unhookSlots vnode removed [], .run => .next (s, .unhookUnlockExclusive vnode (some removed))
  | .unhookUnlockExclusive vnode last, .run =>
    releaseLock s .exclusive (match last with
      | some last => .unhookRelease vnode last
      | none => .done (.unhooked vnode))
  | .unhookRelease vnode last, .run => perform s (release last) fun _ => .done (.unhooked vnode)
  | .getLookup vnode indx, .run =>
    performShared s (retrieveEntry (fltGetVnodeOpVector vnode) true) fun
      | some existingEntry => .getRead vnode indx existingEntry
      | none => .getLookupAgain vnode indx
  | .getLookupAgain vnode indx, .run =>
    performShared s (do
      match ← retrieveEntry (fltGetVnodeOpVector vnode) true with
      | some existingEntry => pure (.getRead vnode indx existingEntry)
      | none => do
        let original ← currentVnodeOp offsets vnode indx
        pure (.done (.original vnode indx original))) id
  | .getRead vnode indx existingEntry, .run =>
    perform s (getOrignalVop existingEntry indx) fun original =>
      .getRelease vnode indx existingEntry original
  | .getRelease vnode indx existingEntry original, .run =>
    perform s (release existingEntry) fun _ => .done (.original vnode indx original)
  | _, _ => .blocked

/-- The threads of the filter. -/
def threads (offsets : List FltVnodeOpvOffsetDesc) : System Shared Pc Act Fault := ⟨step offsets⟩

variable {T : Type}

/-- Nothing is hooked and no thread is in a call. -/
def start (mem : VopMemory) : Config Shared Pc T :=
  ⟨⟨FilterState.initial mem, .unlocked⟩, fun _ => .idle⟩

/-- One thread takes steps in a row. -/
def takes (t : T) (acts : List Act) : List (T × Act) := acts.map fun act => (t, act)

/-- The first of two threads. -/
def thread0 : Fin 2 := 0

/-- The second one. -/
def thread1 : Fin 2 := 1

end FsdFilter.HookThreads
