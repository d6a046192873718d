import FsdFilter.FilterLifecycle
import FsdFilter.TableThreads

/-! The driver from its loading on. Until the listener is registered no thread is in the
filter; from then on the registry is there, nobody gives it back, and the threads run on
it as they do on a new table. A start that fails leaves nothing behind. -/
namespace FsdFilter.LifecycleSafety
open HookRegistry hiding release
open SizedBlocks VnodeOps HookCalls VectorCounts Interleaving ReaderWriterLock HookThreads
open RegistryTable GateThreads FilterLifecycle StateRuns TableRepresentation TableCreation TableMemory
open CommonHashTable (HashTable Kernel ghtCreate alloc fnFree)

variable {kernel : Kernel} {offsets : OpvOffsets} {functions : VopVector → VmOffset → ℕ}
  {before : Blocks} {T : Type} {s s' : DriverShared} {h h' : CommonHashTable.Heap EntryPtr}

/-! ### The registry before its first use -/

/-- There is no registry, and no block of it. -/
structure NoRegistry (before : Blocks) (s : DriverShared) : Prop where
  static : s.sVnodeHooksHashTable = none
  hashTable : s.hashTable = none
  rwLock : s.rwLock = none
  accounts : Blocks.Accounts before [] s.nodes.blocks []

/-- The registry was created, and nothing happened to its memory since. -/
structure NewRegistry (kernel : Kernel) (before : Blocks) (s : DriverShared) (this lock : Addr)
    (t : HashTable EntryPtr) (h : CommonHashTable.Heap EntryPtr) : Prop where
  static : s.sVnodeHooksHashTable = some this
  rwLock : s.rwLock = some lock
  hashTable : s.hashTable = some t
  created : ghtCreate kernel 8 true h = .ok (some t, s.nodes)
  live : h.blocks.live this = true ∧ h.blocks.live lock = true
  distinct : lock ≠ this
  accounts : Blocks.Accounts before [] h.blocks [lock, this]

/-- Before the listener is registered there may be a registry, but nobody has used it. -/
def Unused (kernel : Kernel) (before : Blocks) (s : DriverShared) : Prop :=
  NoRegistry before s ∨ ∃ this lock t h, NewRegistry kernel before s this lock t h

theorem Unused.congr (unused : Unused kernel before s)
    (static : s'.sVnodeHooksHashTable = s.sVnodeHooksHashTable)
    (hashTable : s'.hashTable = s.hashTable) (rwLock : s'.rwLock = s.rwLock)
    (nodes : s'.nodes = s.nodes) :
    Unused kernel before s' := by
  rcases unused with none' | ⟨this, lock, t, h, new⟩
  · exact .inl ⟨static.trans none'.static, hashTable.trans none'.hashTable, rwLock.trans none'.rwLock,
      nodes ▸ none'.accounts⟩
  · exact .inr ⟨this, lock, t, h, static.trans new.static, rwLock.trans new.rwLock,
      hashTable.trans new.hashTable, nodes ▸ new.created, new.live, new.distinct, new.accounts⟩

/-- `release` while others hold the driver. -/
theorem release_shared (shared : 1 < s.retainCount) :
    release kernel s = .ok { s with retainCount := s.retainCount - 1 } := by
  rw [release, if_neg (by omega), if_neg (by omega)]

/-! ### The invariant -/

/-- The filter was not entered: the memory is as it was and no thread has an event. -/
structure Dormant (mem : VopMemory) (s : DriverShared) (points : T → GatePc) : Prop where
  idle : ∀ t, points t = ⟨.idle, []⟩
  mem : s.mem = mem
  entries : s.entries = fun _ => none
  lock : s.lock = .unlocked
  listening : s.listening = false
  gVnodeGate : s.gVnodeGate = false

/-- The threads of the kernel run on a registry that was new when the listener was
registered. -/
structure Running (kernel : Kernel) (offsets : OpvOffsets) (mem : VopMemory) (s : DriverShared)
    (points : T → GatePc) [DecidableEq T] : Prop where
  listening : s.listening = true
  runs : ∃ (h h' : CommonHashTable.Heap EntryPtr) (t : HashTable EntryPtr)
    (d : Config TableShared Pc T), ghtCreate kernel 8 true h = .ok (some t, h') ∧
      Reaches (RegistryTable.threads kernel offsets.table) anyStep (RegistryTable.start mem t h') d ∧
      s.table = some d.shared ∧ ∀ u, (points u).point = d.pc u

/-- The references to the driver: IOKit's, and its own once `start` has succeeded. A start
that fails gives up one that is not its own. -/
def Counted (s : DriverShared) : StartPc → Prop
  | .started => s.retainCount = s.ioReferences + 1 ∧ s.starting = false
  | .failed => s.retainCount + 1 = s.ioReferences ∧ s.starting = false
  | _ => s.retainCount = s.ioReferences ∧ 0 < s.ioReferences ∧ s.starting = true

section Invariant
variable [DecidableEq T]

/-- What holds at each point of `start`. -/
def Stage (kernel : Kernel) (offsets : OpvOffsets) (mem : VopMemory) (before : Blocks)
    (s : DriverShared) (points : T → GatePc) : StartPc → Prop
  | .getVnodeLayout | .vfsHookInit | .createStaticTable =>
    Dormant mem s points ∧ NoRegistry before s ∧ s.gate = none
  | .newGate =>
    Dormant mem s points ∧ (∃ this lock t h, NewRegistry kernel before s this lock t h) ∧ s.gate = none
  | .registerVnodeScopeCallback =>
    Dormant mem s points ∧ (∃ this lock t h, NewRegistry kernel before s this lock t h) ∧
      s.gate = some ⟨1, false⟩
  | .setGate | .registerService | .retain | .started => Running kernel offsets mem s points
  | .exitOnError => Dormant mem s points ∧ Unused kernel before s ∧ s.gate = none
  | .failed =>
    (Dormant mem s points ∧ Unused kernel before s ∧ s.gate = none) ∧
      (s.retainCount = 0 → NoRegistry before s)

/-- The invariant of the whole. -/
structure Safe (kernel : Kernel) (offsets : OpvOffsets) (mem : VopMemory) (before : Blocks)
    (c : Config DriverShared Place (Party T)) (point : StartPc) (points : T → GatePc) : Prop where
  places : c.pc = places point points
  counted : Counted c.shared point
  stage : Stage kernel offsets mem before c.shared points point

variable {mem : VopMemory} {points : T → GatePc} {point point' : StartPc} {act : StartAct}

theorem Running.congr (running : Running kernel offsets mem s points)
    (listening : s'.listening = s.listening) (table : s'.table = s.table) :
    Running kernel offsets mem s' points := by
  refine ⟨listening.trans running.listening, ?_⟩
  rw [table]
  exact running.runs

omit [DecidableEq T] in
theorem Dormant.congr (dormant : Dormant mem s points) (same : s'.mem = s.mem)
    (entries : s'.entries = s.entries) (lock : s'.lock = s.lock)
    (listening : s'.listening = s.listening) (gVnodeGate : s'.gVnodeGate = false) :
    Dormant mem s' points :=
  ⟨dormant.idle, same.trans dormant.mem, entries.trans dormant.entries, lock.trans dormant.lock,
    listening.trans dormant.listening, gVnodeGate⟩

/-- The outcome of a step of `start`: what holds is kept, and the kernel is not stopped. -/
def Keeps (kernel : Kernel) (offsets : OpvOffsets) (mem : VopMemory) (before : Blocks)
    (points : T → GatePc) :
    Outcome DriverFault (DriverShared × StartPc) → Prop
  | .blocked => True
  | .fault _ => False
  | .next (s, point) => Counted s point ∧ Stage kernel offsets mem before s points point

/-- Only the end of a failed start looks at the counts. -/
theorem Stage.counts (stage : Stage kernel offsets mem before s points point) (going : point ≠ .failed)
    (retainCount ioReferences : ℕ) :
    Stage kernel offsets mem before
      { s with retainCount := retainCount, ioReferences := ioReferences } points point := by
  have dormant (was : Dormant mem s points) : Dormant mem
      { s with retainCount := retainCount, ioReferences := ioReferences } points :=
    was.congr rfl rfl rfl rfl was.gVnodeGate
  cases point with
  | getVnodeLayout | vfsHookInit | createStaticTable =>
    exact ⟨dormant stage.1,
      ⟨stage.2.1.static, stage.2.1.hashTable, stage.2.1.rwLock, stage.2.1.accounts⟩, stage.2.2⟩
  | newGate | registerVnodeScopeCallback =>
    obtain ⟨this, lock, t, h, new⟩ := stage.2.1
    exact ⟨dormant stage.1, ⟨this, lock, t, h, new.static, new.rwLock, new.hashTable, new.created,
      new.live, new.distinct, new.accounts⟩, stage.2.2⟩
  | exitOnError => exact ⟨dormant stage.1, stage.2.1.congr rfl rfl rfl rfl, stage.2.2⟩
  | setGate | registerService | retain | started => exact Running.congr stage rfl rfl
  | failed => exact absurd rfl going

variable {u : T} {gateAct : GateAct} {p p' : GatePc}

end Invariant

variable [DecidableEq T] [Fintype T]

end FsdFilter.LifecycleSafety
