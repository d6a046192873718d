import FsdFilter.HookThreads
import FsdFilter.SlotBytes
import Mathlib.Data.Set.Basic

/-! The threads of the hook routines on physical memory. The slots of the operations vectors
are words behind the page map of the kernel; they are read as such, and are written with
`FltWriteWiredSrcToWiredDst` from a variable on the stack of the thread. -/
namespace FsdFilter.WiredSlots
open VnodeOps HookRegistry PagedMemory VnodeLayout LayoutScans WiredCopy SlotBytes Interleaving
open ReaderWriterLock
open HookThreads (Pc)

/-! ### Function pointers -/

/-- The hook routines of `VFSHooks.cpp`. -/
def hookRoutines : List HookRoutine :=
  [.fltFsdReclaimHook, .fltVnopReadHook, .fltVnopOpenHook, .fltVnopWriteHook, .fltVnopPageinHook,
    .fltVnopPageoutHook,
   .fltVnopLookupHook, .fltVnopCreateHook, .fltVnopCloseHook, .fltVnopInactiveHook, .fltVnopRenameHook,
   .fltVnopExchangeHook]

theorem mem_hookRoutines (routine : HookRoutine) : routine ∈ hookRoutines := by cases routine <;> decide

/-- Where the hook routines are loaded. -/
structure HookAddresses where
  addr : HookRoutine → BitVec 64
  injective : Function.Injective addr
  proper : ∀ routine, addr routine ≠ 0 ∧ addr routine ≠ -1

namespace HookAddresses
variable (hooks : HookAddresses)

/-- A function pointer as a word. -/
def word : VopFunc → BitVec 64
  | .null => 0
  | .vopNotHooked => -1
  | .hook routine => hooks.addr routine
  | .fsd address => BitVec.ofNat 64 address

/-- A word as a function pointer. -/
def func (word : BitVec 64) : VopFunc :=
  if word = 0 then .null
  else if word = -1 then .vopNotHooked
  else
    match hookRoutines.find? fun routine => hooks.addr routine = word with
    | some routine => .hook routine
    | none => .fsd word.toNat

theorem word_func (word : BitVec 64) : hooks.word (hooks.func word) = word := by
  unfold func
  split_ifs with null reserved
  · exact null.symm
  · exact reserved.symm
  · cases found : hookRoutines.find? fun routine => hooks.addr routine = word with
    | none => exact (BitVec.ofNat_toNat 64 word).trans (BitVec.setWidth_eq word)
    | some routine =>
      have here : hooks.addr routine = word := by simpa using List.find?_some found
      exact here

theorem func_hook (routine : HookRoutine) : hooks.func (hooks.addr routine) = .hook routine := by
  obtain ⟨notNull, notReserved⟩ := hooks.proper routine
  rw [func, if_neg notNull, if_neg notReserved]
  cases found : hookRoutines.find? fun other => hooks.addr other = hooks.addr routine with
  | none =>
    have missed := List.find?_eq_none.mp found routine (mem_hookRoutines routine)
    simp at missed
  | some other =>
    have same : hooks.addr other = hooks.addr routine := by simpa using List.find?_some found
    rw [hooks.injective same]

end HookAddresses

/-! ### The memory of the vectors -/

/-- The kernel's memory as the file systems left it, the operations vectors in it and the
stacks of the threads. -/
structure Wiring where
  memory : WiredMemory
  hooks : HookAddresses
  offsets : OpvOffsets
  vectors : Set VopVector
  stack : Set VmOffset
  whole : ∀ v ∈ vectors, ∀ desc ∈ offsets.table, Whole memory (v + desc.offset)
  apart : ∀ v ∈ vectors, ∀ w ∈ vectors, ∀ desc ∈ offsets.table, ∀ other ∈ offsets.table,
    v ≠ w ∨ desc.offset ≠ other.offset → Apart memory (v + desc.offset) (w + other.offset)
  stackApart : ∀ v ∈ vectors, ∀ desc ∈ offsets.table, ∀ phys, Within memory (v + desc.offset) phys →
    phys ∉ stack
  unreserved : ∀ v ∈ vectors, ∀ desc ∈ offsets.table, memory.virtual.word (v + desc.offset) ≠ -1

/-- A variable of a thread, `hook` or `original`. -/
structure StackVariable (wiring : Wiring) where
  addr : VmOffset
  whole : Whole wiring.memory addr
  onStack : ∀ phys, Within wiring.memory addr phys → phys ∈ wiring.stack

/-- The state of the filter, with the memory; the slots of `filter` are not used. -/
structure WiredState where
  memory : WiredMemory
  filter : FilterState

/-- Accesses that stop the kernel. -/
inductive WiredFault where
  | filter (fault : Fault)
  | scan (stop : ScanStop)
  deriving DecidableEq, Repr

/-- Code of the filter: it changes the state or faults. -/
abbrev WiredM : Type → Type := StateT WiredState (Except WiredFault)

/-- Code that uses no slots. -/
def onFilter {α : Type} (code : FilterM α) : WiredM α := fun s =>
  match code s.filter with
  | .ok (a, filter) => .ok (a, { s with filter := filter })
  | .error fault => .error (.filter fault)

/-- Reads a slot. -/
def readSlot (hooks : HookAddresses) (slot : VmOffset) : WiredM VopFunc := fun s =>
  match load s.memory.virtual slot with
  | .ok word => .ok (hooks.func word, s)
  | .error stop => .error (.scan stop)

/-- Writes a slot, and returns how many bytes were copied. -/
def writeSlot (hooks : HookAddresses) (variable' slot : VmOffset) (func : VopFunc) :
    WiredM (BitVec 32) := fun s =>
  match writeWord s.memory variable' slot (hooks.word func) with
  | .ok (bytes, memory) => .ok (bytes, { s with memory := memory })
  | .error stop => .error (.scan stop)

section Code
variable (wiring : Wiring)

/-- The body of the hooking loop for one entry of `gFltVnodeVopHookEntries`. -/
def hookEntry (variable' : VmOffset) (vnode : Vnode) (newEntry : EntryPtr)
    (desc : VnodeopvEntryDesc HookRoutine) :
    WiredM Unit := do
  match hookSlot wiring.offsets.table desc.opveOp with
  | none => pure ()
  | some slot =>
    let entry ← onFilter (entryAt newEntry)
    let original ← readSlot wiring.hooks (fltGetVnodeOpVector vnode + slot.offset)
    if !vnode.isDiskRelated && desc.opveOp = .vnopStrategy then
      onFilter (storeEntry newEntry (some (entry.setOriginalVopAsNotHooked slot.indx)))
    else
      onFilter (storeEntry newEntry (some (entry.setOriginalVop slot.indx original)))
      let _ ← writeSlot wiring.hooks variable' (fltGetVnodeOpVector vnode + slot.offset)
        (.hook desc.opveImpl)
      pure ()

/-- The body of the restoring loop for one entry of `gFltVnodeVopHookEntries`. -/
def unhookEntry (variable' : VmOffset) (vnode : Vnode) (existingEntry : EntryPtr)
    (desc : VnodeopvEntryDesc HookRoutine) : WiredM Unit := do
  match hookSlot wiring.offsets.table desc.opveOp with
  | none => pure ()
  | some slot =>
    let entry ← onFilter (entryAt existingEntry)
    if entry.isHooked slot.indx then
      let _ ← writeSlot wiring.hooks variable' (fltGetVnodeOpVector vnode + slot.offset)
        (entry.getOrignalVop slot.indx)
      pure ()

/-- The slow path of `FltGetOriginalVnodeOp`. -/
def currentVnodeOp (vnode : Vnode) (indx : FltVopEnum) : WiredM VopFunc :=
  match fltRetriveVnodeOpvEntryDescByVnodeOp gFltVnodeVopEnumEntries indx with
  | none => throw (.filter (.nullDescriptor indx))
  | some enumDescEntry =>
    match fltRetriveVnodeOpvOffsetDescByVnodeOpDesc wiring.offsets.table enumDescEntry.opveOp with
    | none => throw (.filter (.nullDescriptor indx))
    | some offsetDescEntry => readSlot wiring.hooks (fltGetVnodeOpVector vnode + offsetDescEntry.offset)

end Code

/-! ### Threads -/

/-- What the threads share: the filter's state and the lock of the registry. -/
structure WiredShared where
  state : WiredState
  lock : RwLock

/-- What the environment decides, and where the variable of the thread is. -/
structure WiredAct (wiring : Wiring) where
  act : HookThreads.Act
  variable' : StackVariable wiring

/-- Runs some code of the filter and goes on where its result leads. -/
def perform {α : Type} (s : WiredShared) (action : WiredM α) (next : α → Pc) :
    Outcome WiredFault (WiredShared × Pc) :=
  match action s.state with
  | .ok (result, state) => .next ({ s with state := state }, next result)
  | .error fault => .fault fault

/-- A step from a program point that uses no slots. -/
def stepElsewhere (wiring : Wiring) (s : WiredShared) (pc : Pc) (act : HookThreads.Act) :
    Outcome WiredFault (WiredShared × Pc) :=
  match HookThreads.step wiring.offsets.table ⟨s.state.filter, s.lock⟩ pc act with
  | .blocked => .blocked
  | .fault fault => .fault (.filter fault)
  | .next (after, point) => .next (⟨{ s.state with filter := after.filter }, after.lock⟩, point)

/-- One step of a thread whose variable is at `variable'`. -/
def step (wiring : Wiring) (s : WiredShared) (variable' : VmOffset) :
    Pc → HookThreads.Act → Outcome WiredFault (WiredShared × Pc)
  | .hookSlots vnode new (desc :: rest), .run =>
    perform s (hookEntry wiring variable' vnode new desc) fun _ => .hookSlots vnode new rest
  | .unhookSlots vnode removed (desc :: rest), .run =>
    perform s (unhookEntry wiring variable' vnode removed desc) fun _ => .unhookSlots vnode removed rest
  | .getLookupAgain vnode indx, .run =>
    match s.lock.lockRead with
    | none => .blocked
    | some _ =>
      perform s (do
        match ← onFilter (retrieveEntry (fltGetVnodeOpVector vnode) true) with
        | some existingEntry => pure (.getRead vnode indx existingEntry)
        | none => do
          let original ← currentVnodeOp wiring vnode indx
          pure (.done (.original vnode indx original))) id
  | pc, act => stepElsewhere wiring s pc act

/-- The threads of the filter. -/
def threads (wiring : Wiring) : System WiredShared Pc (WiredAct wiring) WiredFault :=
  ⟨fun s pc choice => step wiring s choice.variable'.addr pc choice.act⟩

variable {T : Type}

/-- Nothing is hooked and no thread is in a call. -/
def start (wiring : Wiring) : Config WiredShared Pc T :=
  ⟨⟨⟨wiring.memory, .initial fun _ _ => .null⟩, .unlocked⟩, fun _ => .idle⟩

end FsdFilter.WiredSlots
