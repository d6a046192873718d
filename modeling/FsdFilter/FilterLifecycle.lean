import FsdFilter.GateThreads
import FsdFilter.RegistryTable
import FsdFilter.RegistryTeardown

/-! The driver from `com_FsdFilter::start` to `free`, while IOKit gives up its references
and the kernel's threads already enter the filter: the listener is called from the moment
that `kauth_listen_scope` accepts it. -/
namespace FsdFilter.FilterLifecycle
open SizedBlocks VnodeOps HookRegistry HookCalls Interleaving ReaderWriterLock HookThreads
open RegistryTable GateThreads
open CommonHashTable (HashM HashTable Kernel alloc fnFree ghtCreate)

/-- `FltIOKitKAuthVnodeGate`. -/
structure Gate where
  retainCount : ℕ
  vnodeListener : Bool

/-- What the driver, IOKit and the threads of the kernel share. -/
structure DriverShared where
  mem : VopMemory
  entries : HookRegistry.Heap
  -- the blocks of `mac_kalloc`, `IORWLockAlloc` and `new FltVnodeHooksHashTable`
  nodes : CommonHashTable.Heap EntryPtr
  sVnodeHooksHashTable : Option Addr
  hashTable : Option (HashTable EntryPtr)
  rwLock : Option Addr
  lock : RwLock
  gate : Option Gate
  gVnodeGate : Bool
  -- `kauth` calls `VnodeAuthorizeCallback`
  listening : Bool
  instance' : Bool
  serviceRegistered : Bool
  -- of `com_FsdFilter`; some of the references are IOKit's
  retainCount : ℕ
  ioReferences : ℕ
  starting : Bool

/-- Accesses that stop the kernel. -/
inductive DriverFault where
  | call (fault : TableFault)
  | memory (fault : CommonHashTable.Fault)
  | noRegistry
  | freedDriver
  deriving DecidableEq, Repr

/-! ### The registry -/

/-- What `DeleteStaticTable` works on. -/
def DriverShared.teardown (s : DriverShared) : RegistryTeardown.TeardownState where
  heap := s.nodes
  retainCount e := ((s.entries e).map (·.retainCount)).getD 0
  hashTable := s.hashTable
  rwLock := s.rwLock
  sVnodeHooksHashTable := s.sVnodeHooksHashTable

/-- Takes over what a teardown left; the objects of the entries are not in the heap. -/
def DriverShared.tornDown (s : DriverShared) (left : RegistryTeardown.TeardownState) : DriverShared :=
  { s with
    nodes := left.heap, hashTable := left.hashTable, rwLock := left.rwLock,
    sVnodeHooksHashTable := left.sVnodeHooksHashTable }

/-- The registry and what else the hook routines use, once it was created. -/
def DriverShared.table (s : DriverShared) : Option TableShared :=
  match s.sVnodeHooksHashTable, s.rwLock, s.hashTable with
  | some _, some _, some hashTable => some ⟨⟨s.mem, s.entries, s.nodes, hashTable⟩, s.lock⟩
  | _, _, _ => none

/-- `OSObject::release` of the gate. -/
def Gate.release (gate : Gate) : Option Gate :=
  if gate.retainCount = 1 then none else some { gate with retainCount := gate.retainCount - 1 }

/-- `com_FsdFilter::free`; the listener stays registered. -/
def free (kernel : Kernel) (s : DriverShared) : Except DriverFault DriverShared :=
  let s := if s.gVnodeGate then { s with gate := s.gate.bind Gate.release, gVnodeGate := false } else s
  match RegistryTeardown.deleteStaticTable kernel s.teardown with
  | .error fault => .error (.memory fault)
  | .ok ((), left) => .ok (s.tornDown left)

/-- `OSObject::release` of the driver. -/
def release (kernel : Kernel) (s : DriverShared) : Except DriverFault DriverShared :=
  if s.retainCount = 0 then .error .freedDriver
  else if s.retainCount = 1 then free kernel { s with retainCount := 0 }
  else .ok { s with retainCount := s.retainCount - 1 }

/-- Where `com_FsdFilter::start` is, with `withCallbackRegistration` in it. -/
inductive StartPc where
  | getVnodeLayout
  | vfsHookInit
  | createStaticTable
  | newGate
  | registerVnodeScopeCallback
  | setGate
  | registerService
  | retain
  | exitOnError
  -- it returned true or false
  | started
  | failed
  deriving DecidableEq, Repr

/-- `VFSHookInit`. -/
def vfsHookInit : IOReturn := .kIOReturnSuccess

/-- Who takes a step: the call of `start`, IOKit, or a thread of the kernel. -/
inductive Party (T : Type) where
  | start
  | ioKit
  | kernel (t : T)
  deriving DecidableEq

/-- Where a party is. -/
inductive Place where
  | start (point : StartPc)
  | ioKit
  | kernel (point : GatePc)
  deriving DecidableEq, Repr

/-- The parties are at their own places. -/
def placed {α : Type} (place : α → Place) :
    Outcome DriverFault (DriverShared × α) → Outcome DriverFault (DriverShared × Place)
  | .blocked => .blocked
  | .fault fault => .fault fault
  | .next (s, point) => .next (s, place point)

variable {T : Type}

/-- The places of the parties. -/
def places (point : StartPc) (kernel : T → GatePc) : Party T → Place
  | .start => .start point
  | .ioKit => .ioKit
  | .kernel t => .kernel (kernel t)

/-- The driver was loaded: IOKit has all the references. -/
def DriverShared.loaded (mem : VopMemory) (nodes : CommonHashTable.Heap EntryPtr)
    (ioReferences : ℕ) : DriverShared where
  mem := mem
  entries _ := none
  nodes := nodes
  sVnodeHooksHashTable := none
  hashTable := none
  rwLock := none
  lock := .unlocked
  gate := none
  gVnodeGate := false
  listening := false
  instance' := false
  serviceRegistered := false
  retainCount := ioReferences
  ioReferences := ioReferences
  starting := true

end FsdFilter.FilterLifecycle
