import FsdFilter.Simulation
import FsdFilter.ThreadSteps
import FsdFilter.WiredSlots

/-! The threads on physical memory do what the threads on the slots do, as long as their
vnodes have vectors whose pages are there and whose slots do not overlap. -/
namespace FsdFilter.WiredRefinement
open StateRuns VnodeOps HookRegistry HookCalls Interleaving ReaderWriterLock Simulation ThreadSteps
open PagedMemory VnodeLayout LayoutScans WiredCopy SlotBytes WiredSlots
open HookThreads (Pc Act Call Shared)

variable {wiring : Wiring} {hooks : HookAddresses} {mem : VopMemory} {α : Type} {p : EntryPtr}

/-! ### Code that uses no slots -/

/-- A function pointer that is a word. -/
def Canonical (hooks : HookAddresses) (func : VopFunc) : Prop := hooks.func (hooks.word func) = func

theorem canonical_func (word : BitVec 64) : Canonical hooks (hooks.func word) :=
  congrArg hooks.func (hooks.word_func word)

theorem canonical_hook (routine : HookRoutine) : Canonical hooks (.hook routine) :=
  hooks.func_hook routine

/-- An entry has saved what was in memory. -/
def CanonicalEntry (hooks : HookAddresses) (entry : FltVnodeHookEntry) : Prop :=
  ∀ indx, Canonical hooks (entry.origVop indx)

theorem canonicalEntry_init : CanonicalEntry hooks .init := fun _ => rfl

theorem CanonicalEntry.setOriginalVop {entry : FltVnodeHookEntry}
    (saved : CanonicalEntry hooks entry) (indx : FltVopEnum) {orig : VopFunc}
    (canonical : Canonical hooks orig) : CanonicalEntry hooks (entry.setOriginalVop indx orig) := by
  intro other
  by_cases here : other = indx
  · subst here
    simpa [FltVnodeHookEntry.setOriginalVop] using canonical
  · simpa [FltVnodeHookEntry.setOriginalVop, here] using saved other

/-- The same but for the slots. -/
structure Beside (hooks : HookAddresses) (mem : VopMemory) (f g : FilterState) : Prop where
  same : g = { f with mem := mem }
  saved : ∀ e entry, f.heap e = some entry → CanonicalEntry hooks entry

/-- Code that does the same whatever is in the slots. -/
def Alike (hooks : HookAddresses) (code : FilterM α) : Prop :=
  ∀ mem, Matches (Beside hooks mem) Eq code code

theorem Beside.setEntry {f g : FilterState} {entry : Option FltVnodeHookEntry}
    (beside : Beside hooks mem f g) (saved : ∀ after, entry = some after → CanonicalEntry hooks after) :
    Beside hooks mem (f.setEntry p entry) (g.setEntry p entry) := by
  obtain ⟨rfl, before⟩ := beside
  refine ⟨rfl, fun e after live => ?_⟩
  by_cases here : p = e
  · subst here
    rw [FilterState.setEntry_heap_self] at live
    exact saved after live
  · rw [FilterState.setEntry_heap_ne here] at live
    exact before e after live

theorem alike_pure (a : α) : Alike hooks (pure a : FilterM α) := fun _ => .pure a

theorem Alike.bind {β : Type} {code : FilterM α} {next : α → FilterM β} (first : Alike hooks code)
    (rest : ∀ a, Alike hooks (next a)) : Alike hooks (code >>= next) :=
  fun mem => (first mem).bind fun a => rest a mem

theorem alike_entryAt {next : FltVnodeHookEntry → FilterM α}
    (rest : ∀ entry, CanonicalEntry hooks entry → Alike hooks (next entry)) :
    Alike hooks (entryAt p >>= next) := by
  intro mem f g beside
  obtain ⟨rfl, saved⟩ := beside
  cases live : f.heap p with
  | none =>
    have stopped : ∀ g : FilterState, g.heap p = none → entryAt p g = .error (.freedEntry p) :=
      fun g freed => by simp only [entryAt, freed]
    rw [bind_error (stopped f live), bind_error (stopped { f with mem := mem } live)]
    exact .error rfl
  | some entry =>
    rw [bind_ok (entryAt_run live), bind_ok (entryAt_run (s := { f with mem := mem }) live)]
    exact rest entry (saved p entry live) mem f _ ⟨rfl, saved⟩

theorem alike_storeEntry {entry : Option FltVnodeHookEntry}
    (saved : ∀ after, entry = some after → CanonicalEntry hooks after) :
    Alike hooks (storeEntry p entry) := fun _ _ _ beside => .ok (beside.setEntry saved)

theorem alike_retain (p : EntryPtr) : Alike hooks (retain p) :=
  alike_entryAt fun entry saved => alike_storeEntry fun after same => by cases same; exact saved

theorem alike_release (p : EntryPtr) : Alike hooks (release p) := by
  refine alike_entryAt fun entry saved => alike_storeEntry fun after same => ?_
  rw [FltVnodeHookEntry.released] at same
  split at same
  · cases same
  · cases same
    exact saved

theorem alike_incrementVnodeCounter (p : EntryPtr) : Alike hooks (incrementVnodeCounter p) :=
  alike_entryAt fun entry saved =>
    (alike_storeEntry fun after same => by cases same; exact saved).bind fun _ => alike_pure _

theorem alike_decrementVnodeCounter (p : EntryPtr) : Alike hooks (decrementVnodeCounter p) :=
  alike_entryAt fun entry saved =>
    (alike_storeEntry fun after same => by cases same; exact saved).bind fun _ => alike_pure _

theorem alike_getVnodeCounter (p : EntryPtr) : Alike hooks (getVnodeCounter p) :=
  alike_entryAt fun _ _ => alike_pure _

theorem alike_getOrignalVop (p : EntryPtr) (indx : FltVopEnum) : Alike hooks (getOrignalVop p indx) :=
  alike_entryAt fun _ _ => alike_pure _

theorem alike_newEntry (alloc : Allocator) : Alike hooks (newEntry alloc) := by
  intro mem f g beside
  have next : ∀ p, Beside hooks mem (f.setEntry p (some .init)) (g.setEntry p (some .init)) :=
    fun p => beside.setEntry fun after same => by cases same; exact canonicalEntry_init
  obtain ⟨rfl, saved⟩ := beside
  simp only [newEntry]
  cases alloc.pick f.heap with
  | none => exact .ok ⟨rfl, saved⟩
  | some p => exact .ok (next p)

theorem alike_retrieveEntry (vOp : VopVector) (reference : Bool) :
    Alike hooks (retrieveEntry vOp reference) := by
  intro mem f g beside
  have registry : g.registry = f.registry := by rw [beside.same]
  rw [retrieveEntry, FilterM.bind_get, FilterM.bind_get, registry]
  cases f.registry.lookup vOp with
  | none => exact .ok beside
  | some p =>
    cases reference with
    | false => exact .ok beside
    | true => exact ((alike_retain p).bind fun _ => alike_pure _) mem f g beside

theorem alike_addEntry (vOp : VopVector) (p : EntryPtr) (allocated : Bool) :
    Alike hooks (addEntry vOp p allocated) := by
  intro mem f g beside
  have registry : g.registry = f.registry := by rw [beside.same]
  rw [addEntry, FilterM.bind_get, FilterM.bind_get, registry]
  cases f.registry.lookup vOp with
  | some other => exact .ok beside
  | none =>
    cases allocated with
    | false => exact .ok beside
    | true =>
      have next : Beside hooks mem (f.register vOp p) (g.register vOp p) := by
        obtain ⟨rfl, saved⟩ := beside
        exact ⟨rfl, saved⟩
      exact ((alike_retain p).bind fun _ => alike_pure true) mem _ _ next

theorem alike_removeEntry (vOp : VopVector) : Alike hooks (removeEntry vOp) := by
  intro mem f g beside
  have registry : g.registry = f.registry := by rw [beside.same]
  rw [removeEntry, FilterM.bind_get, FilterM.bind_get, registry]
  cases f.registry.lookup vOp with
  | none => exact .ok beside
  | some p =>
    obtain ⟨rfl, saved⟩ := beside
    exact .ok ⟨rfl, saved⟩

/-- The program points whose code uses the slots. -/
def usesSlots : Pc → Bool
  | .hookSlots _ _ (_ :: _) | .unhookSlots _ _ (_ :: _) | .getLookupAgain _ _ => true
  | _ => false

/-- The same lock, and a state with other slots. -/
def SharedBeside (hooks : HookAddresses) (mem : VopMemory) (s i : Shared) : Prop :=
  i.lock = s.lock ∧ Beside hooks mem s.filter i.filter

section Steps
variable {offsets : List FltVnodeOpvOffsetDesc} {s i : Shared} {pc : Pc}

theorem perform_alike {code : FilterM α} {next : α → Pc} (alike : Alike hooks code)
    (related : SharedBeside hooks mem s i) :
    Follows (SharedBeside hooks mem) Eq (HookThreads.perform s code next)
      (HookThreads.perform i code next) := by
  have answers := alike mem s.filter i.filter related.2
  unfold HookThreads.perform
  generalize code s.filter = outcome, code i.filter = outcome' at answers ⊢
  cases answers with
  | ok beside => exact .next ⟨related.1, beside⟩
  | error same => exact .fault same

theorem performShared_alike {code : FilterM α} {next : α → Pc} (alike : Alike hooks code)
    (related : SharedBeside hooks mem s i) :
    Follows (SharedBeside hooks mem) Eq (HookThreads.performShared s code next)
      (HookThreads.performShared i code next) := by
  unfold HookThreads.performShared
  rw [related.1]
  cases s.lock.lockRead with
  | none => exact .blocked
  | some held => exact perform_alike alike related

/-- Everywhere else a step does not see the slots. -/
theorem step_alike (act : Act) (elsewhere : usesSlots pc = false)
    (related : SharedBeside hooks mem s i) :
    Follows (SharedBeside hooks mem) Eq (HookThreads.step offsets s pc act)
      (HookThreads.step offsets i pc act) := by
  cases pc with
  | getLookupAgain => cases elsewhere
  | idle | done =>
    cases act with
    | call call => exact .next related
    | _ => exact .blocked
  | hookLookup vnode =>
    cases act with
    | run =>
      have alike : Alike hooks (retrieveEntry (fltGetVnodeOpVector vnode) true) :=
        alike_retrieveEntry _ _
      have answers := alike mem s.filter i.filter related.2
      simp only [HookThreads.step, related.1]
      cases s.lock.lockRead with
      | none => exact .blocked
      | some held =>
        dsimp only
        generalize retrieveEntry (fltGetVnodeOpVector vnode) true s.filter = outcome,
          retrieveEntry (fltGetVnodeOpVector vnode) true i.filter = outcome' at answers ⊢
        cases answers with
        | error same => exact .fault same
        | @ok found =>
          rename_i beside
          cases found with
          | some existingEntry => exact .next ⟨rfl, beside⟩
          | none => exact .next ⟨rfl, beside⟩
    | _ => exact .blocked
  | hookRecheck =>
    cases act with
    | run => exact perform_alike (alike_retrieveEntry _ _) related
    | _ => exact .blocked
  | hookAddEntry =>
    cases act with
    | insert allocated => exact perform_alike (alike_addEntry _ _ _) related
    | _ => exact .blocked
  | unhookLookup | getLookup =>
    cases act with
    | run => exact performShared_alike (alike_retrieveEntry _ _) related
    | _ => exact .blocked
  | unhookRemove =>
    cases act with
    | run => exact perform_alike ((alike_release _).bind fun _ => alike_removeEntry _) related
    | _ => exact .blocked
  | hookNewEntry =>
    cases act with
    | allocate alloc => exact perform_alike (alike_newEntry alloc) related
    | _ => exact .blocked
  | hookIncrement | hookIncrementExisting | hookIncrementNew =>
    cases act with
    | run => exact perform_alike (alike_incrementVnodeCounter _) related
    | _ => exact .blocked
  | hookReleaseExisting | hookReleaseNew | unhookReleaseFast | unhookRelease | getRelease =>
    cases act with
    | run => exact perform_alike (alike_release _) related
    | _ => exact .blocked
  | hookUnlockShared | hookUnlockExclusive | unhookUnlockExclusive =>
    cases act with
    | run =>
      refine .next ⟨?_, related.2⟩
      simp only [related.1]
    | _ => exact .blocked
  | hookLockExclusive | unhookLockExclusive =>
    cases act with
    | run =>
      simp only [HookThreads.step, HookThreads.acquire, related.1]
      cases s.lock.lockWrite with
      | none => exact .blocked
      | some lock => exact .next ⟨rfl, related.2⟩
    | _ => exact .blocked
  | hookSlots vnode new rest | unhookSlots vnode new rest =>
    cases rest with
    | cons desc rest => cases elsewhere
    | nil =>
      cases act with
      | run => exact .next related
      | _ => exact .blocked
  | unhookDecrement =>
    cases act with
    | run => exact perform_alike (alike_decrementVnodeCounter _) related
    | _ => exact .blocked
  | unhookTest =>
    cases act with
    | run => exact perform_alike (alike_getVnodeCounter _) related
    | _ => exact .blocked
  | getRead =>
    cases act with
    | run => exact perform_alike (alike_getOrignalVop _ _) related
    | _ => exact .blocked

end Steps

/-! ### Slots in memory -/

/-- The slots are the words of the memory, and no byte that is not one of a hooked slot or of
a stack has changed. -/
structure Shows (wiring : Wiring) (s : WiredState) (f : FilterState) : Prop where
  beside : Beside wiring.hooks f.mem s.filter f
  frame : s.memory.frame = wiring.memory.frame
  slots : ∀ v ∈ wiring.vectors, ∀ desc ∈ wiring.offsets.table,
    f.mem v desc.offset = wiring.hooks.func (s.memory.virtual.word (v + desc.offset))
  untouched : ∀ phys ∉ wiring.stack,
    (∀ v ∈ wiring.vectors, ∀ patch ∈ hookPatches wiring.offsets.table,
    ¬ Within wiring.memory (v + patch.addr) phys) →
    s.memory.phys phys = wiring.memory.phys phys

/-- The page fault of a slot never happens. -/
def SameFault (fault : WiredFault) (cause : Fault) : Prop := fault = .filter cause

section Slots
variable {s : WiredState} {f : FilterState} {v : VopVector} {desc : FltVnodeOpvOffsetDesc}
  {memory after : WiredMemory}

theorem onFilter_answers {code : FilterM α} (alike : Alike wiring.hooks code) :
    Matches (Shows wiring) SameFault (onFilter code) code := by
  intro s f shows
  have answers := alike f.mem s.filter f shows.beside
  unfold onFilter
  generalize code s.filter = outcome, code f = outcome' at answers ⊢
  cases answers with
  | @ok a filter f' beside =>
    have mem : f'.mem = f.mem := by rw [beside.same]
    exact .ok ⟨mem ▸ beside, shows.frame, mem ▸ shows.slots, shows.untouched⟩
  | error same => exact .error (congrArg _ same)

/-- What is read of an entry is canonical. -/
theorem onFilter_entryAt {next : FltVnodeHookEntry → WiredM α} {next' : FltVnodeHookEntry → FilterM α}
    (rest : ∀ entry, CanonicalEntry wiring.hooks entry →
    Matches (Shows wiring) SameFault (next entry) (next' entry)) :
    Matches (Shows wiring) SameFault (onFilter (entryAt p) >>= next) (entryAt p >>= next') := by
  intro s f shows
  have heap : f.heap = s.filter.heap := by rw [shows.beside.same]
  cases live : s.filter.heap p with
  | none =>
    have stopped : entryAt p f = .error (.freedEntry p) := by simp only [entryAt, heap, live]
    have stopped' : onFilter (entryAt p) s = .error (.filter (.freedEntry p)) := by
      simp only [onFilter, entryAt, live]
    rw [bind_error stopped, bind_error stopped']
    exact .error rfl
  | some entry =>
    have ran : onFilter (entryAt p) s = .ok (entry, s) := by simp only [onFilter, entryAt_run live]
    rw [bind_ok ran, bind_ok (entryAt_run (heap ▸ live))]
    exact rest entry (shows.beside.saved p entry live) s f shows

/-- A slot is read whole. -/
theorem readSlot_run (shows : Shows wiring s f) (wired : v ∈ wiring.vectors)
    (known : desc ∈ wiring.offsets.table) :
    WiredSlots.readSlot wiring.hooks (v + desc.offset) s = .ok (f.mem v desc.offset, s) := by
  have readable := ((wiring.whole v wired desc known).congr shows.frame).read
  simp only [WiredSlots.readSlot, load, readable, shows.slots v wired desc known]

theorem readSlot_matches {next : VopFunc → WiredM α} {next' : VopFunc → FilterM α}
    (wired : v ∈ wiring.vectors) (known : desc ∈ wiring.offsets.table)
    (rest : ∀ func, Canonical wiring.hooks func → Matches (Shows wiring) SameFault (next func) (next' func)) :
    Matches (Shows wiring) SameFault (WiredSlots.readSlot wiring.hooks (v + desc.offset) >>= next)
      (HookRegistry.readSlot v desc.offset >>= next') := by
  intro s f shows
  rw [bind_ok (readSlot_run shows wired known)]
  have canonical : Canonical wiring.hooks (f.mem v desc.offset) := by
    rw [shows.slots v wired desc known]
    exact canonical_func _
  exact rest _ canonical s f shows

/-- A write leaves the words of other slots as they are. -/
theorem word_kept {variable' slot other value : VmOffset}
    (written : Written memory variable' slot value after) (notSlot : Apart memory other slot)
    (notVariable : Apart memory other variable') :
    after.virtual.word other = memory.virtual.word other := by
  refine word_congr fun i inside => ?_
  change after.phys (after.physAddr (byteAt other i)) = memory.phys (memory.physAddr (byteAt other i))
  rw [physAddr_congr written.frame]
  apply written.others
  · rintro ⟨j, within, same⟩
    exact notSlot i inside j within same
  · rintro ⟨j, within, same⟩
    exact notVariable i inside j within same

theorem apart_congr {addr other : VmOffset} (frame : memory.frame = wiring.memory.frame)
    (apart : Apart wiring.memory addr other) : Apart memory addr other := by
  rw [Apart, physAddr_congr frame]
  exact apart

/-- A slot is no variable of a stack. -/
theorem apart_variable (variable' : StackVariable wiring) (wired : v ∈ wiring.vectors)
    (known : desc ∈ wiring.offsets.table) :
    Apart wiring.memory (v + desc.offset) variable'.addr := by
  intro i inside j within same
  exact wiring.stackApart v wired desc known _ ⟨i, inside, rfl⟩
    (variable'.onStack _ ⟨j, within, same⟩)

/-- **A slot is written** in memory as it is in the vector: all eight bytes, and no others but
those of the variable. -/
theorem writeSlot_run (shows : Shows wiring s f) (variable' : StackVariable wiring)
    (wired : v ∈ wiring.vectors) (known : desc ∈ wiring.offsets.table)
    (hooked : ∃ patch ∈ hookPatches wiring.offsets.table, patch.addr = desc.offset) {func : VopFunc}
    (canonical : Canonical wiring.hooks func) :
    ∃ s', WiredSlots.writeSlot wiring.hooks variable'.addr (v + desc.offset) func s = .ok (8, s') ∧
      Shows wiring s' (f.setSlot v desc.offset func) := by
  have frame := shows.frame
  have apart := apart_variable variable' wired known
  obtain ⟨after, ran, written⟩ := writeWord_writes (variable'.whole.congr frame)
    ((wiring.whole v wired desc known).congr frame)
    (apart_congr frame fun i inside j within same => apart j within i inside same.symm)
    (wiring.hooks.word func)
  refine ⟨{ s with memory := after }, by
    simp only [WiredSlots.writeSlot, ran], ?_, written.frame.trans frame, ?_, ?_⟩
  · obtain ⟨same, saved⟩ := shows.beside
    refine ⟨?_, saved⟩
    rw [same]
    rfl
  · intro w wired' other known'
    by_cases here : w = v ∧ other.offset = desc.offset
    · obtain ⟨rfl, offset⟩ := here
      rw [offset, written.value]
      simpa [FilterState.setSlot] using canonical.symm
    · have different : w ≠ v ∨ other.offset ≠ desc.offset := not_and_or.mp here
      have kept : (f.setSlot v desc.offset func).mem w other.offset = f.mem w other.offset := by
        by_cases vector : w = v
        · have offset := different.resolve_left (not_not.mpr vector)
          simp [FilterState.setSlot, vector, Function.update_of_ne offset]
        · simp [FilterState.setSlot, Function.update_of_ne vector]
      rw [kept, shows.slots w wired' other known', word_kept written
        (apart_congr frame (wiring.apart w wired' v wired other known' desc known different))
        (apart_congr frame (apart_variable variable' wired' known'))]
  · intro phys offStack offSlots
    obtain ⟨patch, member, addr⟩ := hooked
    have notSlot := offSlots v wired patch member
    rw [addr] at notSlot
    rw [written.others phys, shows.untouched phys offStack offSlots]
    · rwa [Within, physAddr_congr frame]
    · rw [Within, physAddr_congr frame]
      exact fun inside => offStack (variable'.onStack phys inside)

/-- Where a hook goes. -/
theorem hookSlot_known {hook : VnodeopvEntryDesc HookRoutine} {slot : HookSlot}
    (found : hookSlot wiring.offsets.table hook.opveOp = some slot) :
    ∃ desc ∈ wiring.offsets.table, desc.offset = slot.offset := by
  obtain ⟨desc, named, rest⟩ := Option.bind_eq_some_iff.mp found
  obtain ⟨enum, -, same⟩ := Option.bind_eq_some_iff.mp rest
  cases same
  exact ⟨desc, List.mem_of_find?_eq_some named, rfl⟩

theorem hookSlot_hooked {hook : VnodeopvEntryDesc HookRoutine} {slot : HookSlot}
    (registered : hook ∈ gFltVnodeVopHookEntries)
    (found : hookSlot wiring.offsets.table hook.opveOp = some slot) :
    ∃ patch ∈ hookPatches wiring.offsets.table, patch.addr = slot.offset := by
  refine ⟨⟨slot.offset, slot.indx, .hook hook.opveImpl⟩,
    List.mem_filterMap.mpr ⟨hook, registered, ?_⟩, rfl⟩
  simp only [hookPatch, found, Option.map_some]

theorem hookEntry_matches (variable' : StackVariable wiring) {vnode : Vnode}
    (wired : vnode.vOp ∈ wiring.vectors) (new : EntryPtr) {hook : VnodeopvEntryDesc HookRoutine}
    (registered : hook ∈ gFltVnodeVopHookEntries) :
    Matches (Shows wiring) SameFault (WiredSlots.hookEntry wiring variable'.addr vnode new hook)
      (HookCalls.hookEntry wiring.offsets.table vnode new hook) := by
  unfold WiredSlots.hookEntry HookCalls.hookEntry
  cases found : hookSlot wiring.offsets.table hook.opveOp with
  | none => exact .pure ()
  | some slot =>
    obtain ⟨desc, known, offset⟩ := hookSlot_known found
    have hooked := hookSlot_hooked registered found
    rw [← offset] at hooked
    dsimp only
    rw [← offset]
    refine onFilter_entryAt fun entry saved => readSlot_matches wired known fun original canonical => ?_
    split
    · refine onFilter_answers (alike_storeEntry fun after same => ?_)
      cases same
      exact saved.setOriginalVop _ rfl
    · refine (onFilter_answers (alike_storeEntry fun after same => ?_)).bind fun _ => ?_
      · cases same
        exact saved.setOriginalVop _ canonical
      · intro s f shows
        obtain ⟨s', ran, shows'⟩ :=
          writeSlot_run shows variable' wired known hooked (canonical_hook hook.opveImpl)
        rw [fltGetVnodeOpVector_eq, bind_ok ran]
        exact .ok shows'

theorem unhookEntry_matches (variable' : StackVariable wiring) {vnode : Vnode}
    (wired : vnode.vOp ∈ wiring.vectors) (existing : EntryPtr)
    {hook : VnodeopvEntryDesc HookRoutine} (registered : hook ∈ gFltVnodeVopHookEntries) :
    Matches (Shows wiring) SameFault (WiredSlots.unhookEntry wiring variable'.addr vnode existing hook)
      (HookCalls.unhookEntry wiring.offsets.table vnode existing hook) := by
  unfold WiredSlots.unhookEntry HookCalls.unhookEntry
  cases found : hookSlot wiring.offsets.table hook.opveOp with
  | none => exact .pure ()
  | some slot =>
    obtain ⟨desc, known, offset⟩ := hookSlot_known found
    have hooked := hookSlot_hooked registered found
    rw [← offset] at hooked
    dsimp only
    rw [← offset]
    refine onFilter_entryAt fun entry saved => ?_
    split
    · intro s f shows
      obtain ⟨s', ran, shows'⟩ := writeSlot_run shows variable' wired known hooked (saved slot.indx)
      rw [fltGetVnodeOpVector_eq, FltVnodeHookEntry.getOrignalVop, bind_ok ran]
      exact .ok shows'
    · exact .pure ()

theorem currentVnodeOp_matches {vnode : Vnode} (wired : vnode.vOp ∈ wiring.vectors)
    (indx : FltVopEnum) :
    Matches (Shows wiring) SameFault (WiredSlots.currentVnodeOp wiring vnode indx)
      (HookCalls.currentVnodeOp wiring.offsets.table vnode indx) := by
  unfold WiredSlots.currentVnodeOp HookCalls.currentVnodeOp
  cases fltRetriveVnodeOpvEntryDescByVnodeOp gFltVnodeVopEnumEntries indx with
  | none => exact fun _ _ _ => .error rfl
  | some enumDescEntry =>
    dsimp only
    cases named : fltRetriveVnodeOpvOffsetDescByVnodeOpDesc wiring.offsets.table
      enumDescEntry.opveOp with
    | none => exact fun _ _ _ => .error rfl
    | some desc =>
      intro s f shows
      have known : desc ∈ wiring.offsets.table := List.mem_of_find?_eq_some named
      dsimp only
      rw [fltGetVnodeOpVector_eq, readSlot_run shows wired known]
      exact .ok shows

end Slots

/-! ### Threads -/

/-- A thread works on a vector in memory, and through the table of hooks. -/
def Wired (wiring : Wiring) : Pc → Prop
  | .idle | .done _ => True
  | .hookSlots vnode _ rest | .unhookSlots vnode _ rest =>
    vnode.vOp ∈ wiring.vectors ∧ ∀ desc ∈ rest, desc ∈ gFltVnodeVopHookEntries
  | .hookLookup vnode | .hookIncrement vnode _ | .hookUnlockShared vnode _
  | .hookReleaseExisting vnode _ | .hookNewEntry vnode | .hookLockExclusive vnode _
  | .hookRecheck vnode _ | .hookIncrementExisting vnode _ _ | .hookAddEntry vnode _
  | .hookIncrementNew vnode _ | .hookUnlockExclusive vnode _ _ | .hookReleaseNew vnode _ _
  | .unhookLookup vnode | .unhookDecrement vnode _ | .unhookReleaseFast vnode _
  | .unhookLockExclusive vnode _ | .unhookTest vnode _ | .unhookRemove vnode _
  | .unhookUnlockExclusive vnode _ | .unhookRelease vnode _ | .getLookup vnode _
  | .getLookupAgain vnode _ | .getRead vnode _ _ | .getRelease vnode _ _ _ => vnode.vOp ∈ wiring.vectors

/-- The vnode of a call. -/
def calledVnode : Call → Vnode
  | .hook vnode | .unhook vnode | .getOriginal vnode _ => vnode

/-- Calls are made for vnodes whose vector is in memory. -/
def OnVectors (wiring : Wiring) (choice : WiredAct wiring) : Prop :=
  ∀ call, choice.act = .call call → (calledVnode call).vOp ∈ wiring.vectors

/-- A step stays on the vector of its call. -/
theorem localStep_wired {s s' : Shared} {a : Act} {pc pc' : Pc}
    (stepped : LocalStep wiring.offsets.table s a pc s' pc') (wired : Wired wiring pc)
    (called : ∀ call, a = .call call → (calledVnode call).vOp ∈ wiring.vectors) : Wired wiring pc' := by
  cases stepped with
  | enter call resting entered =>
    have onVector := called _ call
    cases entered <;> first | exact onVector | exact trivial
  | hookIncrementNew => exact ⟨wired, fun _ member => member⟩
  | unhookRemoveFound => exact ⟨wired, fun _ member => member⟩
  | hookSlotSkipped | hookSlotNotHooked | hookSlotInstalled | unhookSlotSkipped
  | unhookSlotNotHooked | unhookSlotRestored =>
    exact ⟨wired.1, fun desc member => wired.2 desc (List.mem_cons_of_mem _ member)⟩
  | hookSlotsDone | unhookSlotsDone => exact wired.1
  | _ => first | exact wired | exact trivial

/-- What the threads share with the memory stands for what they share with the slots. -/
structure SharedShows (wiring : Wiring) (s : WiredShared) (i : Shared) : Prop where
  lock : i.lock = s.lock
  state : Shows wiring s.state i.filter

section Simulation
variable {s : WiredShared} {i : Shared}

theorem perform_matches {code : WiredM α} {code' : FilterM α} {next : α → Pc}
    (related : SharedShows wiring s i) (matches' : Matches (Shows wiring) SameFault code code') :
    Follows (SharedShows wiring) SameFault (perform s code next)
      (HookThreads.perform i code' next) := by
  have answers := matches' _ _ related.state
  unfold perform HookThreads.perform
  generalize code s.state = outcome, code' i.filter = outcome' at answers ⊢
  cases answers with
  | ok shows => exact .next ⟨related.lock, shows⟩
  | error same => exact .fault same

/-- A step from any other program point. -/
theorem stepElsewhere_follows {pc : Pc} (act : Act) (related : SharedShows wiring s i)
    (other : usesSlots pc = false) :
    Follows (SharedShows wiring) SameFault (stepElsewhere wiring s pc act)
      (HookThreads.step wiring.offsets.table i pc act) := by
  have beside : SharedBeside wiring.hooks i.filter.mem ⟨s.state.filter, s.lock⟩ i :=
    ⟨related.lock, related.state.beside⟩
  have follows : Follows (SharedBeside wiring.hooks i.filter.mem) Eq
      (HookThreads.step wiring.offsets.table ⟨s.state.filter, s.lock⟩ pc act)
      (HookThreads.step wiring.offsets.table i pc act) := step_alike act other beside
  unfold stepElsewhere
  generalize HookThreads.step wiring.offsets.table ⟨s.state.filter, s.lock⟩ pc act = outcome,
    HookThreads.step wiring.offsets.table i pc act = outcome' at follows ⊢
  cases follows with
  | blocked => exact .blocked
  | fault same => exact .fault (congrArg _ same)
  | @next after i' point beside =>
    obtain ⟨lock, beside⟩ := beside
    have mem : i'.filter.mem = i.filter.mem := by rw [beside.same]
    exact .next ⟨lock, mem ▸ beside, related.state.frame, mem ▸ related.state.slots,
      related.state.untouched⟩

theorem step_follows (variable' : StackVariable wiring) {pc : Pc} (act : Act)
    (related : SharedShows wiring s i) (wired : Wired wiring pc) :
    Follows (SharedShows wiring) SameFault (step wiring s variable'.addr pc act)
      (HookThreads.step wiring.offsets.table i pc act) := by
  cases pc with
  | hookSlots vnode new rest =>
    cases rest with
    | nil => exact stepElsewhere_follows act related rfl
    | cons hook rest =>
      cases act with
      | run =>
        exact perform_matches related
          (hookEntry_matches variable' wired.1 new (wired.2 hook List.mem_cons_self))
      | _ => exact .blocked
  | unhookSlots vnode removed rest =>
    cases rest with
    | nil => exact stepElsewhere_follows act related rfl
    | cons hook rest =>
      cases act with
      | run =>
        exact perform_matches related
          (unhookEntry_matches variable' wired.1 removed (wired.2 hook List.mem_cons_self))
      | _ => exact .blocked
  | getLookupAgain vnode indx =>
    cases act with
    | run =>
      have looked : Matches (Shows wiring) SameFault
        (onFilter (retrieveEntry (fltGetVnodeOpVector vnode) true))
          (retrieveEntry (fltGetVnodeOpVector vnode) true) := onFilter_answers (alike_retrieveEntry _ _)
      simp only [step, HookThreads.step, HookThreads.performShared, related.lock]
      cases s.lock.lockRead with
      | none => exact .blocked
      | some held =>
        refine perform_matches related (looked.bind fun found => ?_)
        cases found with
        | some existingEntry => exact .pure _
        | none => exact (currentVnodeOp_matches wired indx).bind fun _ => .pure _
    | _ => exact .blocked
  | _ => exact stepElsewhere_follows act related rfl

end Simulation

/-- **The memory shows the slots**, step by step. -/
theorem simulates (wiring : Wiring) : SimulatesWhile (WiredSlots.threads wiring)
    (HookThreads.threads wiring.offsets.table) (SharedShows wiring) SameFault (Wired wiring)
    (OnVectors wiring) WiredAct.act where
  follows _ _ _ choice related wired _ := step_follows choice.variable' choice.act related wired
  keeps _ _ _ _ _ wired onVectors stepped := localStep_wired (localStep_of_step stepped) wired onVectors

end FsdFilter.WiredRefinement
