import Mathlib.Data.List.AList
import FsdFilter.StateRuns
import FsdFilter.VnodeOps

/-! The state that the hook routines share and the primitive operations on it:
`FltVnodeHookEntry` objects with their reference counts, the registry
`sVnodeHooksHashTable` and the slots of the operations vectors. Release
semantics: the assertions of the source are compiled out. -/
namespace FsdFilter.HookRegistry
open StateRuns VnodeOps

/-- `VOPFUNC*`: the address of an operations vector. -/
abbrev VopVector : Type := BitVec 64

/-- The slots of all operations vectors, by vector and byte offset. -/
abbrev VopMemory : Type := VopVector → VmOffset → VopFunc

/-- The address of an entry object. -/
abbrev EntryPtr : Type := ℕ

/-- What the hook routines read of a `vnode_t`. -/
structure Vnode where
  vOp : VopVector
  vType : Vtype
  isRecycled : Bool
  deriving DecidableEq, Repr

/-- `FltGetVnodeOpVector`, once the layout inference has found `v_op`. -/
def fltGetVnodeOpVector (vnode : Vnode) : VopVector := vnode.vOp

@[simp] theorem fltGetVnodeOpVector_eq (vnode : Vnode) : fltGetVnodeOpVector vnode = vnode.vOp := rfl

/-- The test for a regular file or a directory that the hook routines share. -/
def Vnode.isDiskRelated (vnode : Vnode) : Bool :=
  vnode.vType == .vreg || vnode.vType == .vdir

/-- `IOReturn` values of the hook routines. -/
inductive IOReturn where
  | kIOReturnSuccess | kIOReturnError | kIOReturnNoDevice | kIOReturnNoMemory
  deriving DecidableEq, Repr

/-- `FltVnodeHookEntry`; `retainCount` is what `OSObject` keeps. -/
structure FltVnodeHookEntry where
  vNodeCounter : Int32
  origVop : FltVopEnum → VopFunc
  retainCount : ℕ

namespace FltVnodeHookEntry

/-- `init`, as `newEntry` leaves the object. -/
def init : FltVnodeHookEntry := ⟨0, fun _ => .null, 1⟩

def getOrignalVop (entry : FltVnodeHookEntry) (indx : FltVopEnum) : VopFunc := entry.origVop indx

def setOriginalVop (entry : FltVnodeHookEntry) (indx : FltVopEnum) (orig : VopFunc) :
    FltVnodeHookEntry :=
  { entry with origVop := Function.update entry.origVop indx orig }

def setOriginalVopAsNotHooked (entry : FltVnodeHookEntry) (indx : FltVopEnum) : FltVnodeHookEntry :=
  entry.setOriginalVop indx .vopNotHooked

def isHooked (entry : FltVnodeHookEntry) (indx : FltVopEnum) : Bool :=
  entry.origVop indx != .vopNotHooked

def incremented (entry : FltVnodeHookEntry) : FltVnodeHookEntry :=
  { entry with vNodeCounter := entry.vNodeCounter + 1 }

def decremented (entry : FltVnodeHookEntry) : FltVnodeHookEntry :=
  { entry with vNodeCounter := entry.vNodeCounter - 1 }

def retained (entry : FltVnodeHookEntry) : FltVnodeHookEntry :=
  { entry with retainCount := entry.retainCount + 1 }

/-- What a release leaves: nothing when the last reference goes. -/
def released (entry : FltVnodeHookEntry) : Option FltVnodeHookEntry :=
  if entry.retainCount = 1 then none else some { entry with retainCount := entry.retainCount - 1 }

end FltVnodeHookEntry

abbrev Heap : Type := EntryPtr → Option FltVnodeHookEntry

/-- The registry: which entry is registered for a vector, newest first. -/
abbrev Registry : Type := AList fun _ : VopVector => EntryPtr

/-- The shared state of the filter. A heap address without an entry is free. -/
@[ext] structure FilterState where
  mem : VopMemory
  registry : Registry
  heap : Heap

/-- The state before the first hook: `mem` as the file systems left it. -/
def FilterState.initial (mem : VopMemory) : FilterState := ⟨mem, ∅, fun _ => none⟩

/-- Accesses that stop the kernel. -/
inductive Fault where
  | freedEntry (entry : EntryPtr)
  | nullDescriptor (indx : FltVopEnum)
  deriving DecidableEq, Repr

/-- Code of the filter: it changes the state or faults. -/
abbrev FilterM : Type → Type := StateT FilterState (Except Fault)

section Sequencing
variable {α β : Type} {s middle : FilterState}

@[simp] theorem FilterM.bind_get (next : FilterState → FilterM β) :
    ((get : FilterM FilterState) >>= next) s = next s s := rfl

@[simp] theorem FilterM.bind_modify (change : FilterState → FilterState) (next : Unit → FilterM β) :
    ((modify change : FilterM Unit) >>= next) s = next () (change s) := rfl

@[simp] theorem FilterM.bind_pure (a : α) (next : α → FilterM β) :
    ((pure a : FilterM α) >>= next) s = next a s := rfl

end Sequencing

/-! ### Entries -/

/-- Reads an entry; a freed one faults. -/
def entryAt (p : EntryPtr) : FilterM FltVnodeHookEntry := fun s =>
  match s.heap p with
  | some entry => .ok (entry, s)
  | none => .error (.freedEntry p)

/-- What one access leaves at the entry's address. -/
def FilterState.setEntry (s : FilterState) (p : EntryPtr) (entry : Option FltVnodeHookEntry) :
    FilterState :=
  { s with heap := Function.update s.heap p entry }

@[simp] theorem FilterState.setEntry_heap_self (s : FilterState) (p : EntryPtr)
    (entry : Option FltVnodeHookEntry) : (s.setEntry p entry).heap p = entry :=
  Function.update_self ..

theorem FilterState.setEntry_heap_ne {s : FilterState} {p e : EntryPtr}
    {entry : Option FltVnodeHookEntry} (apart : p ≠ e) : (s.setEntry p entry).heap e = s.heap e :=
  Function.update_of_ne (Ne.symm apart) ..

/-- Storing at a live address leaves free ones free. -/
theorem FilterState.setEntry_free {s : FilterState} {p e : EntryPtr} {found : Option FltVnodeHookEntry}
    {entry : FltVnodeHookEntry} (live : s.heap p = some entry) (free : s.heap e = none) :
    (s.setEntry p found).heap e = none := by
  have apart : p ≠ e := by
    rintro rfl
    rw [free] at live
    cases live
  rw [setEntry_heap_ne apart, free]

/-- A live entry afterwards is the one stored or one of the others. -/
theorem FilterState.setEntry_cases {s : FilterState} {p e : EntryPtr} {found : Option FltVnodeHookEntry}
    {entry entry' : FltVnodeHookEntry} (live : s.heap e = some entry)
    (live' : (s.setEntry p found).heap e = some entry') :
    (p = e ∧ found = some entry') ∨ (p ≠ e ∧ entry' = entry) := by
  by_cases here : p = e
  · subst here
    rw [setEntry_heap_self] at live'
    exact .inl ⟨rfl, live'⟩
  · rw [setEntry_heap_ne here, live] at live'
    exact .inr ⟨here, (Option.some.inj live').symm⟩

def storeEntry (p : EntryPtr) (entry : Option FltVnodeHookEntry) : FilterM Unit :=
  modify fun s => s.setEntry p entry

def retain (p : EntryPtr) : FilterM Unit := do
  let entry ← entryAt p
  storeEntry p (some entry.retained)

/-- `OSObject::release`: the last release frees the object. -/
def release (p : EntryPtr) : FilterM Unit := do
  let entry ← entryAt p
  storeEntry p entry.released

/-- `incrementVnodeCounter`: the value before the increment. -/
def incrementVnodeCounter (p : EntryPtr) : FilterM Int32 := do
  let entry ← entryAt p
  storeEntry p (some entry.incremented)
  pure entry.vNodeCounter

/-- `decrementVnodeCounter`: the value before the decrement. -/
def decrementVnodeCounter (p : EntryPtr) : FilterM Int32 := do
  let entry ← entryAt p
  storeEntry p (some entry.decremented)
  pure entry.vNodeCounter

def getVnodeCounter (p : EntryPtr) : FilterM Int32 := do
  let entry ← entryAt p
  pure entry.vNodeCounter

def getOrignalVop (p : EntryPtr) (indx : FltVopEnum) : FilterM VopFunc := do
  let entry ← entryAt p
  pure (entry.getOrignalVop indx)

/-- Where the allocator puts a new object, if it has room: never on a live one. -/
structure Allocator where
  pick : Heap → Option EntryPtr
  fresh : ∀ heap p, pick heap = some p → heap p = none

/-- An allocator over the first `size` addresses that takes the first free one. -/
def Allocator.within (size : ℕ) : Allocator where
  pick heap := (List.range size).find? fun p => (heap p).isNone
  fresh heap p found := by simpa using List.find?_some found

/-- `FltVnodeHookEntry::newEntry`. -/
def newEntry (alloc : Allocator) : FilterM (Option EntryPtr) := fun s =>
  match alloc.pick s.heap with
  | some p => .ok (some p, s.setEntry p (some .init))
  | none => .ok (none, s)

/-! ### The registry -/

def FilterState.register (s : FilterState) (vOp : VopVector) (p : EntryPtr) : FilterState :=
  { s with registry := s.registry.insert vOp p }

def FilterState.unregister (s : FilterState) (vOp : VopVector) : FilterState :=
  { s with registry := s.registry.erase vOp }

theorem FilterState.unregister_absent {s : FilterState} {vOp : VopVector}
    (absent : s.registry.lookup vOp = none) : s.unregister vOp = s := by
  have same : s.registry.erase vOp = s.registry :=
    AList.ext (List.kerase_of_notMem_keys (AList.lookup_eq_none.mp absent))
  rw [FilterState.unregister, same]

/-- `RetrieveEntry`. -/
def retrieveEntry (vOp : VopVector) (reference : Bool) : FilterM (Option EntryPtr) := do
  match (← get).registry.lookup vOp with
  | some p =>
    if reference then retain p
    pure (some p)
  | none => pure none

/-- `AddEntry`: `ght_insert` refuses a present key and may run out of memory;
an added entry is retained. -/
def addEntry (vOp : VopVector) (p : EntryPtr) (allocated : Bool) : FilterM Bool := do
  match (← get).registry.lookup vOp with
  | some _ => pure false
  | none =>
    if allocated then
      modify fun s => s.register vOp p
      retain p
      pure true
    else
      pure false

/-- `RemoveEntry`: the registry's reference goes to the caller. -/
def removeEntry (vOp : VopVector) : FilterM (Option EntryPtr) := do
  match (← get).registry.lookup vOp with
  | some p =>
    modify fun s => s.unregister vOp
    pure (some p)
  | none => pure none

/-! ### Slots -/

def readSlot (vOp : VopVector) (offset : VmOffset) : FilterM VopFunc := do
  pure ((← get).mem vOp offset)

def FilterState.setSlot (s : FilterState) (vOp : VopVector) (offset : VmOffset) (func : VopFunc) :
    FilterState :=
  { s with mem := Function.update s.mem vOp (Function.update (s.mem vOp) offset func) }

/-- `FltWriteWiredSrcToWiredDst` for one slot of a wired vector. -/
def writeSlot (vOp : VopVector) (offset : VmOffset) (func : VopFunc) : FilterM Unit :=
  modify fun s => s.setSlot vOp offset func

/-! ### What the primitives do -/

section Runs
variable {s : FilterState} {p : EntryPtr} {entry : FltVnodeHookEntry} {vOp : VopVector}

theorem entryAt_run (live : s.heap p = some entry) : entryAt p s = .ok (entry, s) := by
  simp only [entryAt, live]

theorem retain_run (live : s.heap p = some entry) :
    retain p s = .ok ((), s.setEntry p (some entry.retained)) :=
  bind_ok (entryAt_run live)

theorem release_run (live : s.heap p = some entry) :
    release p s = .ok ((), s.setEntry p entry.released) :=
  bind_ok (entryAt_run live)

theorem incrementVnodeCounter_run (live : s.heap p = some entry) :
    incrementVnodeCounter p s =
      .ok (entry.vNodeCounter, s.setEntry p (some entry.incremented)) :=
  bind_ok (entryAt_run live)

theorem decrementVnodeCounter_run (live : s.heap p = some entry) :
    decrementVnodeCounter p s =
      .ok (entry.vNodeCounter, s.setEntry p (some entry.decremented)) :=
  bind_ok (entryAt_run live)

theorem getVnodeCounter_run (live : s.heap p = some entry) :
    getVnodeCounter p s = .ok (entry.vNodeCounter, s) :=
  bind_ok (entryAt_run live)

theorem getOrignalVop_run (live : s.heap p = some entry) (indx : FltVopEnum) :
    getOrignalVop p indx s = .ok (entry.origVop indx, s) :=
  bind_ok (entryAt_run live)

theorem retrieveEntry_absent (absent : s.registry.lookup vOp = none) (reference : Bool) :
    retrieveEntry vOp reference s = .ok (none, s) := by
  simp only [retrieveEntry, FilterM.bind_get, absent, pure_run]

theorem retrieveEntry_found (found : s.registry.lookup vOp = some p) (live : s.heap p = some entry) :
    retrieveEntry vOp true s = .ok (some p, s.setEntry p (some entry.retained)) := by
  simp only [retrieveEntry, FilterM.bind_get, found, ↓reduceIte]
  exact bind_ok (retain_run live)

theorem retrieveEntry_found_unreferenced (found : s.registry.lookup vOp = some p) :
    retrieveEntry vOp false s = .ok (some p, s) := by
  simp only [retrieveEntry, FilterM.bind_get, found, Bool.false_eq_true, ↓reduceIte]
  rfl

theorem removeEntry_absent (absent : s.registry.lookup vOp = none) :
    removeEntry vOp s = .ok (none, s) := by
  simp only [removeEntry, FilterM.bind_get, absent, pure_run]

theorem removeEntry_found (found : s.registry.lookup vOp = some p) :
    removeEntry vOp s = .ok (some p, s.unregister vOp) := by
  simp only [removeEntry, FilterM.bind_get, found, FilterM.bind_modify, pure_run]

theorem addEntry_refused (vOp : VopVector) (p : EntryPtr) :
    addEntry vOp p false s = .ok (false, s) := by
  simp only [addEntry, FilterM.bind_get]
  cases s.registry.lookup vOp <;> rfl

theorem addEntry_added (absent : s.registry.lookup vOp = none) (live : s.heap p = some entry) :
    addEntry vOp p true s =
      .ok (true, (s.register vOp p).setEntry p (some entry.retained)) := by
  simp only [addEntry, FilterM.bind_get, absent, ↓reduceIte, FilterM.bind_modify]
  exact bind_ok (retain_run (s := s.register vOp p) live)

end Runs

end FsdFilter.HookRegistry
