import FsdFilter.HookThreads

/-! Everything one step of a thread can do, said once. Each case names what the
step found and gives the state it leaves, so that no invariant has to look at
the code again. -/
namespace FsdFilter.ThreadSteps
open StateRuns VnodeOps HookRegistry HookCalls Interleaving ReaderWriterLock HookThreads

/-! ### What the primitives found -/

section Found
variable {s s' : FilterState} {p : EntryPtr} {vOp : VopVector}

theorem entryAt_ok {entry : FltVnodeHookEntry} (ran : entryAt p s = .ok (entry, s')) :
    s.heap p = some entry ∧ s' = s := by
  unfold entryAt at ran
  cases live : s.heap p with
  | none => rw [live] at ran; cases ran
  | some other => rw [live] at ran; cases ran; exact ⟨rfl, rfl⟩

theorem bind_entryAt_ok {α : Type} {next : FltVnodeHookEntry → FilterM α} {result : α × FilterState}
    (ran : (entryAt p >>= next) s = .ok result) :
    ∃ entry, s.heap p = some entry ∧ next entry s = .ok result := by
  obtain ⟨entry, middle, read, rest⟩ := of_bind_ok ran
  obtain ⟨live, rfl⟩ := entryAt_ok read
  exact ⟨entry, live, rest⟩

theorem retain_ok {u : Unit} (ran : retain p s = .ok (u, s')) :
    ∃ entry, s.heap p = some entry ∧ s' = s.setEntry p (some entry.retained) := by
  obtain ⟨entry, live, stored⟩ := bind_entryAt_ok ran
  cases stored
  exact ⟨entry, live, rfl⟩

theorem release_ok {u : Unit} (ran : release p s = .ok (u, s')) :
    ∃ entry, s.heap p = some entry ∧ s' = s.setEntry p entry.released := by
  obtain ⟨entry, live, stored⟩ := bind_entryAt_ok ran
  cases stored
  exact ⟨entry, live, rfl⟩

theorem incrementVnodeCounter_ok {before : Int32} (ran : incrementVnodeCounter p s = .ok (before, s')) :
    ∃ entry, s.heap p = some entry ∧ before = entry.vNodeCounter ∧
      s' = s.setEntry p (some entry.incremented) := by
  obtain ⟨entry, live, stored⟩ := bind_entryAt_ok ran
  cases stored
  exact ⟨entry, live, rfl, rfl⟩

theorem decrementVnodeCounter_ok {before : Int32} (ran : decrementVnodeCounter p s = .ok (before, s')) :
    ∃ entry, s.heap p = some entry ∧ before = entry.vNodeCounter ∧
      s' = s.setEntry p (some entry.decremented) := by
  obtain ⟨entry, live, stored⟩ := bind_entryAt_ok ran
  cases stored
  exact ⟨entry, live, rfl, rfl⟩

theorem getVnodeCounter_ok {counter : Int32} (ran : getVnodeCounter p s = .ok (counter, s')) :
    ∃ entry, s.heap p = some entry ∧ counter = entry.vNodeCounter ∧ s' = s := by
  obtain ⟨entry, live, stored⟩ := bind_entryAt_ok ran
  cases stored
  exact ⟨entry, live, rfl, rfl⟩

theorem getOrignalVop_ok {indx : FltVopEnum} {func : VopFunc}
    (ran : getOrignalVop p indx s = .ok (func, s')) :
    ∃ entry, s.heap p = some entry ∧ func = entry.origVop indx ∧ s' = s := by
  obtain ⟨entry, live, stored⟩ := bind_entryAt_ok ran
  cases stored
  exact ⟨entry, live, rfl, rfl⟩

theorem newEntry_ok {alloc : Allocator} {new : Option EntryPtr}
    (ran : newEntry alloc s = .ok (new, s')) :
    (new = none ∧ s' = s) ∨
      ∃ p, new = some p ∧ s.heap p = none ∧ s' = s.setEntry p (some .init) := by
  unfold newEntry at ran
  cases picked : alloc.pick s.heap with
  | none => rw [picked] at ran; cases ran; exact .inl ⟨rfl, rfl⟩
  | some p => rw [picked] at ran; cases ran; exact .inr ⟨p, rfl, alloc.fresh _ _ picked, rfl⟩

theorem retrieveEntry_ok {found : Option EntryPtr} (ran : retrieveEntry vOp true s = .ok (found, s')) :
    (found = none ∧ s.registry.lookup vOp = none ∧ s' = s) ∨
      ∃ p entry, found = some p ∧ s.registry.lookup vOp = some p ∧ s.heap p = some entry ∧
        s' = s.setEntry p (some entry.retained) := by
  cases registered : s.registry.lookup vOp with
  | none =>
    rw [retrieveEntry_absent registered] at ran
    cases ran
    exact .inl ⟨rfl, rfl, rfl⟩
  | some p =>
    simp only [retrieveEntry, FilterM.bind_get, registered, ↓reduceIte] at ran
    obtain ⟨_, middle, retained, rest⟩ := of_bind_ok ran
    obtain ⟨entry, live, rfl⟩ := retain_ok retained
    cases rest
    exact .inr ⟨p, entry, rfl, rfl, live, rfl⟩

theorem retrieveEntry_unreferenced_ok {found : Option EntryPtr}
    (ran : retrieveEntry vOp false s = .ok (found, s')) :
    found = s.registry.lookup vOp ∧ s' = s := by
  cases registered : s.registry.lookup vOp with
  | none =>
    rw [retrieveEntry_absent registered] at ran
    cases ran
    exact ⟨rfl, rfl⟩
  | some p =>
    rw [retrieveEntry_found_unreferenced registered] at ran
    cases ran
    exact ⟨rfl, rfl⟩

theorem addEntry_ok {allocated added : Bool} (ran : addEntry vOp p allocated s = .ok (added, s')) :
    (added = false ∧ s' = s) ∨
      ∃ entry, added = true ∧ s.registry.lookup vOp = none ∧ s.heap p = some entry ∧
        s' = (s.register vOp p).setEntry p (some entry.retained) := by
  unfold addEntry at ran
  rw [FilterM.bind_get] at ran
  cases registered : s.registry.lookup vOp with
  | some other => rw [registered] at ran; cases ran; exact .inl ⟨rfl, rfl⟩
  | none =>
    rw [registered] at ran
    cases allocated with
    | false => cases ran; exact .inl ⟨rfl, rfl⟩
    | true =>
      simp only [↓reduceIte, FilterM.bind_modify] at ran
      obtain ⟨_, middle, retained, rest⟩ := of_bind_ok ran
      obtain ⟨entry, live, rfl⟩ := retain_ok retained
      cases rest
      exact .inr ⟨entry, rfl, rfl, live, rfl⟩

theorem releaseRemove_ok {removed : Option EntryPtr}
    (ran : (do release p; removeEntry vOp : FilterM (Option EntryPtr)) s = .ok (removed, s')) :
    ∃ entry, s.heap p = some entry ∧ removed = s.registry.lookup vOp ∧
      s' = (s.setEntry p entry.released).unregister vOp := by
  obtain ⟨_, middle, released, rest⟩ := of_bind_ok ran
  obtain ⟨entry, live, rfl⟩ := release_ok released
  refine ⟨entry, live, ?_⟩
  cases registered : s.registry.lookup vOp with
  | none =>
    rw [removeEntry_absent (s := s.setEntry p entry.released) registered] at rest
    cases rest
    exact ⟨rfl, (FilterState.unregister_absent (s := s.setEntry p entry.released) registered).symm⟩
  | some q =>
    rw [removeEntry_found (s := s.setEntry p entry.released) registered] at rest
    cases rest
    exact ⟨rfl, rfl⟩

variable {offsets : List FltVnodeOpvOffsetDesc} {vnode : Vnode} {u : Unit}

/-- One round of the hooking loop, whatever the vnode's type. -/
theorem hookEntry_ok {desc : VnodeopvEntryDesc HookRoutine}
    (ran : hookEntry offsets vnode p desc s = .ok (u, s')) :
    (hookSlot offsets desc.opveOp = none ∧ s' = s) ∨
      ∃ slot entry, hookSlot offsets desc.opveOp = some slot ∧ s.heap p = some entry ∧
        ((vnode.isDiskRelated = false ∧
            s' = s.setEntry p (some (entry.setOriginalVopAsNotHooked slot.indx))) ∨
          s' = (s.setEntry p (some (entry.setOriginalVop slot.indx (s.mem vnode.vOp slot.offset)))).setSlot
            vnode.vOp slot.offset (.hook desc.opveImpl)) := by
  unfold hookEntry at ran
  cases found : hookSlot offsets desc.opveOp with
  | none => rw [found] at ran; cases ran; exact .inl ⟨rfl, rfl⟩
  | some slot =>
    rw [found] at ran
    simp only at ran
    obtain ⟨entry, live, rest⟩ := bind_entryAt_ok ran
    simp only [readSlot, bind_assoc, FilterM.bind_get, FilterM.bind_pure] at rest
    refine .inr ⟨slot, entry, rfl, live, ?_⟩
    split at rest
    · rename_i skipped
      simp only [Bool.and_eq_true, Bool.not_eq_true'] at skipped
      cases rest
      exact .inl ⟨skipped.1, rfl⟩
    · cases rest
      exact .inr rfl

/-- One round of the restoring loop. -/
theorem unhookEntry_ok {desc : VnodeopvEntryDesc HookRoutine}
    (ran : unhookEntry offsets vnode p desc s = .ok (u, s')) :
    (hookSlot offsets desc.opveOp = none ∧ s' = s) ∨
      ∃ slot entry, hookSlot offsets desc.opveOp = some slot ∧ s.heap p = some entry ∧
        ((entry.origVop slot.indx = .vopNotHooked ∧ s' = s) ∨
          s' = s.setSlot vnode.vOp slot.offset (entry.origVop slot.indx)) := by
  unfold unhookEntry at ran
  cases found : hookSlot offsets desc.opveOp with
  | none => rw [found] at ran; cases ran; exact .inl ⟨rfl, rfl⟩
  | some slot =>
    rw [found] at ran
    simp only at ran
    obtain ⟨entry, live, rest⟩ := bind_entryAt_ok ran
    refine .inr ⟨slot, entry, rfl, live, ?_⟩
    split at rest
    · cases rest
      exact .inr rfl
    · rename_i unhooked
      cases rest
      exact .inl ⟨by simpa [FltVnodeHookEntry.isHooked] using unhooked, rfl⟩

theorem currentVnodeOp_ok {indx : FltVopEnum} {func : VopFunc}
    (ran : currentVnodeOp offsets vnode indx s = .ok (func, s')) : s' = s := by
  unfold currentVnodeOp at ran
  cases named : fltRetriveVnodeOpvEntryDescByVnodeOp gFltVnodeVopEnumEntries indx with
  | none => rw [named] at ran; cases ran
  | some enumDescEntry =>
    rw [named] at ran
    simp only at ran
    cases placed : fltRetriveVnodeOpvOffsetDescByVnodeOpDesc offsets enumDescEntry.opveOp with
    | none => rw [placed] at ran; cases ran
    | some offsetDescEntry => rw [placed] at ran; cases ran; rfl

end Found

/-! ### The steps -/

/-- Where a call begins: at once with its answer, or at its first lookup. -/
inductive Entered : Call → Pc → Prop where
  | refused {x : Vnode} {answer : HookReturn} (uncounted : answer.isVopHooked ≠ some true) :
      Entered (.hook x) (.done (.hooked x answer))
  | hook {x : Vnode} (eligible : x.isDiskRelated = true) (known : x.vOp ≠ fltVopUnknownOffset) :
      Entered (.hook x) (.hookLookup x)
  | ignored {x : Vnode} (ineligible : ¬ (x.isDiskRelated = true ∧ x.vOp ≠ fltVopUnknownOffset)) :
      Entered (.unhook x) (.done (.unhooked x))
  | unhook {x : Vnode} (eligible : x.isDiskRelated = true) (known : x.vOp ≠ fltVopUnknownOffset) :
      Entered (.unhook x) (.unhookLookup x)
  | getOriginal {x : Vnode} {indx : FltVopEnum} : Entered (.getOriginal x indx) (.getLookup x indx)

theorem entered (call : Call) : Entered call call.enter := by
  cases call with
  | hook x =>
    rw [Call.enter]
    split
    · exact .refused nofun
    · rename_i known
      split
      · exact .refused nofun
      · split
        · exact .refused nofun
        · rename_i eligible
          exact .hook (by simpa using eligible) known
  | unhook x =>
    rw [Call.enter]
    split
    · rename_i ineligible
      exact .ignored fun both => by simp [both.1] at ineligible
    · rename_i eligible
      split
      · rename_i unknown
        exact .ignored fun both => both.2 unknown
      · rename_i known
        exact .unhook (by simpa using eligible) known
  | getOriginal x indx => exact .getOriginal

/-- One step of a thread: from the shared state and a program point to the next. -/
inductive LocalStep (offsets : List FltVnodeOpvOffsetDesc) (s : Shared) (a : Act) :
    Pc → Shared → Pc → Prop where
  | enter {pc point : Pc} {call : Call} (called : a = .call call) (resting : pc.resting = true)
      (entered : Entered call point) : LocalStep offsets s a pc s point
  | hookLookupFound {x : Vnode} {e : EntryPtr} {entry : FltVnodeHookEntry} {held : RwLock}
      (taken : s.lock.lockRead = some held) (found : s.filter.registry.lookup x.vOp = some e)
      (live : s.filter.heap e = some entry) :
      LocalStep offsets s a (.hookLookup x) ⟨s.filter.setEntry e (some entry.retained), held⟩
        (.hookIncrement x e)
  | hookLookupMissed {x : Vnode} {held : RwLock} (taken : s.lock.lockRead = some held)
      (absent : s.filter.registry.lookup x.vOp = none) :
      LocalStep offsets s a (.hookLookup x) s (.hookNewEntry x)
  | hookIncrement {x : Vnode} {e : EntryPtr} {entry : FltVnodeHookEntry}
      (live : s.filter.heap e = some entry) :
      LocalStep offsets s a (.hookIncrement x e) ⟨s.filter.setEntry e (some entry.incremented), s.lock⟩
        (.hookUnlockShared x e)
  | hookUnlockShared {x : Vnode} {e : EntryPtr} :
      LocalStep offsets s a (.hookUnlockShared x e) ⟨s.filter, s.lock.unlock .shared⟩
        (.hookReleaseExisting x e)
  | hookReleaseExisting {x : Vnode} {e : EntryPtr} {entry : FltVnodeHookEntry}
      (live : s.filter.heap e = some entry) :
      LocalStep offsets s a (.hookReleaseExisting x e) ⟨s.filter.setEntry e entry.released, s.lock⟩
        (.done (.hooked x ⟨.kIOReturnSuccess, some true⟩))
  | hookNoMemory {x : Vnode} :
      LocalStep offsets s a (.hookNewEntry x) s (.done (.hooked x ⟨.kIOReturnNoMemory, none⟩))
  | hookNewEntry {x : Vnode} {p : EntryPtr} (free : s.filter.heap p = none) :
      LocalStep offsets s a (.hookNewEntry x) ⟨s.filter.setEntry p (some .init), s.lock⟩
        (.hookLockExclusive x p)
  | hookLockExclusive {x : Vnode} {p : EntryPtr} {held : RwLock}
      (taken : s.lock.lockWrite = some held) :
      LocalStep offsets s a (.hookLockExclusive x p) ⟨s.filter, held⟩ (.hookRecheck x p)
  | hookRecheckFound {x : Vnode} {p e : EntryPtr} (found : s.filter.registry.lookup x.vOp = some e) :
      LocalStep offsets s a (.hookRecheck x p) s (.hookIncrementExisting x p e)
  | hookRecheckMissed {x : Vnode} {p : EntryPtr} (absent : s.filter.registry.lookup x.vOp = none) :
      LocalStep offsets s a (.hookRecheck x p) s (.hookAddEntry x p)
  | hookIncrementExisting {x : Vnode} {p e : EntryPtr} {entry : FltVnodeHookEntry}
      (live : s.filter.heap e = some entry) :
      LocalStep offsets s a (.hookIncrementExisting x p e)
        ⟨s.filter.setEntry e (some entry.incremented), s.lock⟩
        (.hookUnlockExclusive x p .kIOReturnSuccess)
  | hookAddEntry {x : Vnode} {p : EntryPtr} {entry : FltVnodeHookEntry}
      (absent : s.filter.registry.lookup x.vOp = none) (live : s.filter.heap p = some entry) :
      LocalStep offsets s a (.hookAddEntry x p)
        ⟨(s.filter.register x.vOp p).setEntry p (some entry.retained), s.lock⟩
        (.hookIncrementNew x p)
  | hookAddEntryRefused {x : Vnode} {p : EntryPtr} :
      LocalStep offsets s a (.hookAddEntry x p) s (.hookUnlockExclusive x p .kIOReturnNoMemory)
  | hookIncrementNew {x : Vnode} {p : EntryPtr} {entry : FltVnodeHookEntry}
      (live : s.filter.heap p = some entry) :
      LocalStep offsets s a (.hookIncrementNew x p) ⟨s.filter.setEntry p (some entry.incremented), s.lock⟩
        (.hookSlots x p gFltVnodeVopHookEntries)
  | hookSlotSkipped {x : Vnode} {p : EntryPtr} {desc : VnodeopvEntryDesc HookRoutine}
      {rest : List (VnodeopvEntryDesc HookRoutine)} (skipped : hookSlot offsets desc.opveOp = none) :
      LocalStep offsets s a (.hookSlots x p (desc :: rest)) s (.hookSlots x p rest)
  | hookSlotNotHooked {x : Vnode} {p : EntryPtr} {desc : VnodeopvEntryDesc HookRoutine}
      {rest : List (VnodeopvEntryDesc HookRoutine)} {slot : HookSlot} {entry : FltVnodeHookEntry}
      (device : x.isDiskRelated = false) (live : s.filter.heap p = some entry) :
      LocalStep offsets s a (.hookSlots x p (desc :: rest))
        ⟨s.filter.setEntry p (some (entry.setOriginalVopAsNotHooked slot.indx)), s.lock⟩
        (.hookSlots x p rest)
  | hookSlotInstalled {x : Vnode} {p : EntryPtr} {desc : VnodeopvEntryDesc HookRoutine}
      {rest : List (VnodeopvEntryDesc HookRoutine)} {slot : HookSlot} {entry : FltVnodeHookEntry}
      (installed : hookSlot offsets desc.opveOp = some slot) (live : s.filter.heap p = some entry) :
      LocalStep offsets s a (.hookSlots x p (desc :: rest))
        ⟨(s.filter.setEntry p
            (some (entry.setOriginalVop slot.indx (s.filter.mem x.vOp slot.offset)))).setSlot
          x.vOp slot.offset (.hook desc.opveImpl), s.lock⟩
        (.hookSlots x p rest)
  | hookSlotsDone {x : Vnode} {p : EntryPtr} :
      LocalStep offsets s a (.hookSlots x p []) s (.hookUnlockExclusive x p .kIOReturnSuccess)
  | hookUnlockExclusive {x : Vnode} {p : EntryPtr} {rc : IOReturn} :
      LocalStep offsets s a (.hookUnlockExclusive x p rc) ⟨s.filter, s.lock.unlock .exclusive⟩
        (.hookReleaseNew x p rc)
  | hookReleaseNew {x : Vnode} {p : EntryPtr} {rc : IOReturn} {entry : FltVnodeHookEntry}
      (live : s.filter.heap p = some entry) :
      LocalStep offsets s a (.hookReleaseNew x p rc) ⟨s.filter.setEntry p entry.released, s.lock⟩
        (.done (.hooked x (hookAnswer rc)))
  | unhookLookupFound {x : Vnode} {e : EntryPtr} {entry : FltVnodeHookEntry} {held : RwLock}
      (taken : s.lock.lockRead = some held) (found : s.filter.registry.lookup x.vOp = some e)
      (live : s.filter.heap e = some entry) :
      LocalStep offsets s a (.unhookLookup x) ⟨s.filter.setEntry e (some entry.retained), s.lock⟩
        (.unhookDecrement x e)
  | unhookLookupMissed {x : Vnode} {held : RwLock} (taken : s.lock.lockRead = some held)
      (absent : s.filter.registry.lookup x.vOp = none) :
      LocalStep offsets s a (.unhookLookup x) s (.done (.unhooked x))
  | unhookDecrementMore {x : Vnode} {e : EntryPtr} {entry : FltVnodeHookEntry}
      (live : s.filter.heap e = some entry) (more : entry.vNodeCounter ≠ 1) :
      LocalStep offsets s a (.unhookDecrement x e) ⟨s.filter.setEntry e (some entry.decremented), s.lock⟩
        (.unhookReleaseFast x e)
  | unhookDecrementLast {x : Vnode} {e : EntryPtr} {entry : FltVnodeHookEntry}
      (live : s.filter.heap e = some entry) (last : entry.vNodeCounter = 1) :
      LocalStep offsets s a (.unhookDecrement x e) ⟨s.filter.setEntry e (some entry.decremented), s.lock⟩
        (.unhookLockExclusive x e)
  | unhookReleaseFast {x : Vnode} {e : EntryPtr} {entry : FltVnodeHookEntry}
      (live : s.filter.heap e = some entry) :
      LocalStep offsets s a (.unhookReleaseFast x e) ⟨s.filter.setEntry e entry.released, s.lock⟩
        (.done (.unhooked x))
  | unhookLockExclusive {x : Vnode} {e : EntryPtr} {held : RwLock}
      (taken : s.lock.lockWrite = some held) :
      LocalStep offsets s a (.unhookLockExclusive x e) ⟨s.filter, held⟩ (.unhookTest x e)
  | unhookTestCounted {x : Vnode} {e : EntryPtr} {entry : FltVnodeHookEntry}
      (live : s.filter.heap e = some entry) (counted : entry.vNodeCounter ≠ 0) :
      LocalStep offsets s a (.unhookTest x e) s (.unhookUnlockExclusive x (some e))
  | unhookTestZero {x : Vnode} {e : EntryPtr} {entry : FltVnodeHookEntry}
      (live : s.filter.heap e = some entry) (zero : entry.vNodeCounter = 0) :
      LocalStep offsets s a (.unhookTest x e) s (.unhookRemove x e)
  | unhookRemoveFound {x : Vnode} {e removed : EntryPtr} {entry : FltVnodeHookEntry}
      (live : s.filter.heap e = some entry)
      (found : s.filter.registry.lookup x.vOp = some removed) :
      LocalStep offsets s a (.unhookRemove x e)
        ⟨(s.filter.setEntry e entry.released).unregister x.vOp, s.lock⟩
        (.unhookSlots x removed gFltVnodeVopHookEntries)
  | unhookRemoveMissed {x : Vnode} {e : EntryPtr} {entry : FltVnodeHookEntry}
      (live : s.filter.heap e = some entry) (absent : s.filter.registry.lookup x.vOp = none) :
      LocalStep offsets s a (.unhookRemove x e)
        ⟨(s.filter.setEntry e entry.released).unregister x.vOp, s.lock⟩
        (.unhookUnlockExclusive x none)
  | unhookSlotSkipped {x : Vnode} {p : EntryPtr} {desc : VnodeopvEntryDesc HookRoutine}
      {rest : List (VnodeopvEntryDesc HookRoutine)} (skipped : hookSlot offsets desc.opveOp = none) :
      LocalStep offsets s a (.unhookSlots x p (desc :: rest)) s (.unhookSlots x p rest)
  | unhookSlotNotHooked {x : Vnode} {p : EntryPtr} {desc : VnodeopvEntryDesc HookRoutine}
      {rest : List (VnodeopvEntryDesc HookRoutine)} {slot : HookSlot} {entry : FltVnodeHookEntry}
      (found : hookSlot offsets desc.opveOp = some slot) (live : s.filter.heap p = some entry)
      (notHooked : entry.origVop slot.indx = .vopNotHooked) :
      LocalStep offsets s a (.unhookSlots x p (desc :: rest)) s (.unhookSlots x p rest)
  | unhookSlotRestored {x : Vnode} {p : EntryPtr} {desc : VnodeopvEntryDesc HookRoutine}
      {rest : List (VnodeopvEntryDesc HookRoutine)} {slot : HookSlot} {entry : FltVnodeHookEntry}
      (found : hookSlot offsets desc.opveOp = some slot) (live : s.filter.heap p = some entry) :
      LocalStep offsets s a (.unhookSlots x p (desc :: rest))
        ⟨s.filter.setSlot x.vOp slot.offset (entry.origVop slot.indx), s.lock⟩ (.unhookSlots x p rest)
  | unhookSlotsDone {x : Vnode} {p : EntryPtr} :
      LocalStep offsets s a (.unhookSlots x p []) s (.unhookUnlockExclusive x (some p))
  | unhookUnlockLast {x : Vnode} {p : EntryPtr} :
      LocalStep offsets s a (.unhookUnlockExclusive x (some p)) ⟨s.filter, s.lock.unlock .exclusive⟩
        (.unhookRelease x p)
  | unhookUnlockNone {x : Vnode} :
      LocalStep offsets s a (.unhookUnlockExclusive x none) ⟨s.filter, s.lock.unlock .exclusive⟩
        (.done (.unhooked x))
  | unhookRelease {x : Vnode} {p : EntryPtr} {entry : FltVnodeHookEntry}
      (live : s.filter.heap p = some entry) :
      LocalStep offsets s a (.unhookRelease x p) ⟨s.filter.setEntry p entry.released, s.lock⟩
        (.done (.unhooked x))
  | getLookupFound {x : Vnode} {indx : FltVopEnum} {e : EntryPtr} {entry : FltVnodeHookEntry}
      {held : RwLock} (taken : s.lock.lockRead = some held)
      (found : s.filter.registry.lookup x.vOp = some e) (live : s.filter.heap e = some entry) :
      LocalStep offsets s a (.getLookup x indx) ⟨s.filter.setEntry e (some entry.retained), s.lock⟩
        (.getRead x indx e)
  | getLookupMissed {x : Vnode} {indx : FltVopEnum} {held : RwLock}
      (taken : s.lock.lockRead = some held) (absent : s.filter.registry.lookup x.vOp = none) :
      LocalStep offsets s a (.getLookup x indx) s (.getLookupAgain x indx)
  | getLookupAgainFound {x : Vnode} {indx : FltVopEnum} {e : EntryPtr} {entry : FltVnodeHookEntry}
      {held : RwLock} (taken : s.lock.lockRead = some held)
      (found : s.filter.registry.lookup x.vOp = some e) (live : s.filter.heap e = some entry) :
      LocalStep offsets s a (.getLookupAgain x indx) ⟨s.filter.setEntry e (some entry.retained), s.lock⟩
        (.getRead x indx e)
  | getCurrent {x : Vnode} {indx : FltVopEnum} {func : VopFunc} {held : RwLock}
      (taken : s.lock.lockRead = some held) (absent : s.filter.registry.lookup x.vOp = none)
      (read : currentVnodeOp offsets x indx s.filter = .ok (func, s.filter)) :
      LocalStep offsets s a (.getLookupAgain x indx) s (.done (.original x indx func))
  | getRead {x : Vnode} {indx : FltVopEnum} {e : EntryPtr} {entry : FltVnodeHookEntry}
      (live : s.filter.heap e = some entry) :
      LocalStep offsets s a (.getRead x indx e) s (.getRelease x indx e (entry.origVop indx))
  | getRelease {x : Vnode} {indx : FltVopEnum} {e : EntryPtr} {func : VopFunc}
      {entry : FltVnodeHookEntry} (live : s.filter.heap e = some entry) :
      LocalStep offsets s a (.getRelease x indx e func) ⟨s.filter.setEntry e entry.released, s.lock⟩
        (.done (.original x indx func))

section Inversion
variable {offsets : List FltVnodeOpvOffsetDesc} {s s' : Shared} {a : Act} {pc pc' : Pc}

theorem perform_next {α : Type} {action : FilterM α} {next : α → Pc}
    (performed : perform s action next = .next (s', pc')) :
    ∃ result filter, action s.filter = .ok (result, filter) ∧ s' = ⟨filter, s.lock⟩ ∧
      pc' = next result := by
  unfold perform at performed
  split at performed
  · rename_i result filter ran
    cases performed
    exact ⟨result, filter, ran, rfl, rfl⟩
  · cases performed

theorem performShared_next {α : Type} {action : FilterM α} {next : α → Pc}
    (performed : performShared s action next = .next (s', pc')) :
    ∃ held result filter, s.lock.lockRead = some held ∧ action s.filter = .ok (result, filter) ∧
      s' = ⟨filter, s.lock⟩ ∧ pc' = next result := by
  unfold performShared at performed
  split at performed
  · rename_i held taken
    obtain ⟨result, filter, ran⟩ := perform_next performed
    exact ⟨held, result, filter, taken, ran⟩
  · cases performed

theorem acquire_next {lock : Option RwLock} {next : Pc}
    (acquired : acquire s lock next = .next (s', pc')) :
    ∃ held, lock = some held ∧ s' = ⟨s.filter, held⟩ ∧ pc' = next := by
  unfold acquire at acquired
  split at acquired
  · rename_i held
    cases acquired
    exact ⟨held, rfl, rfl, rfl⟩
  · cases acquired

/-- Every step the code takes is one of the cases. -/
theorem localStep_of_step (stepped : step offsets s pc a = .next (s', pc')) :
    LocalStep offsets s a pc s' pc' := by
  -- one bullet for each arm of `step`, in its order
  unfold step at stepped
  split at stepped
  · cases stepped; exact .enter rfl rfl (entered _)
  · cases stepped; exact .enter rfl rfl (entered _)
  · split at stepped
    · cases stepped
    · rename_i taken
      split at stepped
      · rename_i retrieved
        cases stepped
        obtain ⟨missed, _⟩ | ⟨e, entry, same, found, live, rfl⟩ := retrieveEntry_ok retrieved
        · cases missed
        · cases same; exact .hookLookupFound taken found live
      · rename_i retrieved
        cases stepped
        obtain ⟨_, absent, rfl⟩ | ⟨_, _, missed, _⟩ := retrieveEntry_ok retrieved
        · exact .hookLookupMissed taken absent
        · cases missed
      · cases stepped
  · obtain ⟨_, _, ran, rfl, rfl⟩ := perform_next stepped
    obtain ⟨entry, live, _, rfl⟩ := incrementVnodeCounter_ok ran
    exact .hookIncrement live
  · cases stepped; exact .hookUnlockShared
  · obtain ⟨_, _, ran, rfl, rfl⟩ := perform_next stepped
    obtain ⟨entry, live, rfl⟩ := release_ok ran
    exact .hookReleaseExisting live
  · obtain ⟨new, _, ran, rfl, rfl⟩ := perform_next stepped
    obtain ⟨rfl, rfl⟩ | ⟨p, rfl, free, rfl⟩ := newEntry_ok ran
    · exact .hookNoMemory
    · exact .hookNewEntry free
  · obtain ⟨held, taken, rfl, rfl⟩ := acquire_next stepped
    exact .hookLockExclusive taken
  · obtain ⟨found, _, ran, rfl, rfl⟩ := perform_next stepped
    obtain ⟨same, rfl⟩ := retrieveEntry_unreferenced_ok ran
    cases found with
    | none => exact .hookRecheckMissed same.symm
    | some e => exact .hookRecheckFound same.symm
  · obtain ⟨_, _, ran, rfl, rfl⟩ := perform_next stepped
    obtain ⟨entry, live, _, rfl⟩ := incrementVnodeCounter_ok ran
    exact .hookIncrementExisting live
  · obtain ⟨added, _, ran, rfl, rfl⟩ := perform_next stepped
    obtain ⟨rfl, rfl⟩ | ⟨entry, rfl, absent, live, rfl⟩ := addEntry_ok ran
    · exact .hookAddEntryRefused
    · exact .hookAddEntry absent live
  · obtain ⟨_, _, ran, rfl, rfl⟩ := perform_next stepped
    obtain ⟨entry, live, _, rfl⟩ := incrementVnodeCounter_ok ran
    exact .hookIncrementNew live
  · obtain ⟨_, _, ran, rfl, rfl⟩ := perform_next stepped
    obtain ⟨skipped, rfl⟩ | ⟨slot, entry, found, live, ⟨device, rfl⟩ | rfl⟩ := hookEntry_ok ran
    · exact .hookSlotSkipped skipped
    · exact .hookSlotNotHooked device live
    · exact .hookSlotInstalled found live
  · cases stepped; exact .hookSlotsDone
  · cases stepped; exact .hookUnlockExclusive
  · obtain ⟨_, _, ran, rfl, rfl⟩ := perform_next stepped
    obtain ⟨entry, live, rfl⟩ := release_ok ran
    exact .hookReleaseNew live
  · obtain ⟨held, found, _, taken, ran, rfl, rfl⟩ := performShared_next stepped
    obtain ⟨rfl, absent, rfl⟩ | ⟨e, entry, rfl, found, live, rfl⟩ := retrieveEntry_ok ran
    · exact .unhookLookupMissed taken absent
    · exact .unhookLookupFound taken found live
  · obtain ⟨before, _, ran, rfl, rfl⟩ := perform_next stepped
    obtain ⟨entry, live, rfl, rfl⟩ := decrementVnodeCounter_ok ran
    by_cases last : entry.vNodeCounter = 1
    · rw [if_neg (not_not.mpr last)]
      exact .unhookDecrementLast live last
    · rw [if_pos last]
      exact .unhookDecrementMore live last
  · obtain ⟨_, _, ran, rfl, rfl⟩ := perform_next stepped
    obtain ⟨entry, live, rfl⟩ := release_ok ran
    exact .unhookReleaseFast live
  · obtain ⟨held, taken, rfl, rfl⟩ := acquire_next stepped
    exact .unhookLockExclusive taken
  · obtain ⟨counter, _, ran, rfl, rfl⟩ := perform_next stepped
    obtain ⟨entry, live, rfl, rfl⟩ := getVnodeCounter_ok ran
    by_cases zero : entry.vNodeCounter = 0
    · rw [if_neg (not_not.mpr zero)]
      exact .unhookTestZero live zero
    · rw [if_pos zero]
      exact .unhookTestCounted live zero
  · obtain ⟨removed, _, ran, rfl, rfl⟩ := perform_next stepped
    obtain ⟨entry, live, same, rfl⟩ := releaseRemove_ok ran
    cases removed with
    | none => exact .unhookRemoveMissed live same.symm
    | some removed => exact .unhookRemoveFound live same.symm
  · obtain ⟨_, _, ran, rfl, rfl⟩ := perform_next stepped
    obtain ⟨skipped, rfl⟩ | ⟨slot, entry, found, live, ⟨notHooked, rfl⟩ | rfl⟩ :=
      unhookEntry_ok ran
    · exact .unhookSlotSkipped skipped
    · exact .unhookSlotNotHooked found live notHooked
    · exact .unhookSlotRestored found live
  · cases stepped; exact .unhookSlotsDone
  · cases stepped
    split
    · exact .unhookUnlockLast
    · exact .unhookUnlockNone
  · obtain ⟨_, _, ran, rfl, rfl⟩ := perform_next stepped
    obtain ⟨entry, live, rfl⟩ := release_ok ran
    exact .unhookRelease live
  · obtain ⟨held, found, _, taken, ran, rfl, rfl⟩ := performShared_next stepped
    obtain ⟨rfl, absent, rfl⟩ | ⟨e, entry, rfl, found, live, rfl⟩ := retrieveEntry_ok ran
    · exact .getLookupMissed taken absent
    · exact .getLookupFound taken found live
  · obtain ⟨held, point, _, taken, ran, rfl, rfl⟩ := performShared_next stepped
    obtain ⟨found, middle, retrieved, rest⟩ := of_bind_ok ran
    obtain ⟨rfl, absent, rfl⟩ | ⟨e, entry, rfl, found, live, rfl⟩ := retrieveEntry_ok retrieved
    · obtain ⟨func, last, read, rest⟩ := of_bind_ok rest
      obtain rfl := currentVnodeOp_ok read
      cases rest
      exact .getCurrent taken absent read
    · cases rest
      exact .getLookupAgainFound taken found live
  · obtain ⟨_, _, ran, rfl, rfl⟩ := perform_next stepped
    obtain ⟨entry, live, rfl, rfl⟩ := getOrignalVop_ok ran
    exact .getRead live
  · obtain ⟨_, _, ran, rfl, rfl⟩ := perform_next stepped
    obtain ⟨entry, live, rfl⟩ := release_ok ran
    exact .getRelease live
  · cases stepped

variable {T : Type} [DecidableEq T] {c c' : Config Shared Pc T} {t : T}

theorem localStep_of_advance (moved : (threads offsets).advance c t a = .next c') :
    ∃ point, LocalStep offsets c.shared a (c.pc t) c'.shared point ∧
      c'.pc = Function.update c.pc t point := by
  obtain ⟨point, stepped, points⟩ := System.advance_next moved
  exact ⟨point, localStep_of_step stepped, points⟩

end Inversion

/-! ### Frames -/

section Frames
variable {offsets : List FltVnodeOpvOffsetDesc} {s s' : Shared} {a : Act} {pc pc' : Pc}

/-- Without the exclusive lock no step changes the registry or a vector. -/
theorem LocalStep.quiet (stepped : LocalStep offsets s a pc s' pc') (unlocked : pc.mode ≠ .exclusive) :
    s'.filter.registry = s.filter.registry ∧ s'.filter.mem = s.filter.mem := by
  cases stepped with
  | hookAddEntry | hookSlotInstalled | unhookRemoveFound | unhookRemoveMissed | unhookSlotRestored =>
    exact absurd rfl unlocked
  | _ => exact ⟨rfl, rfl⟩

/-- The registry changes only by an entry being added or removed. -/
theorem LocalStep.registry_cases (stepped : LocalStep offsets s a pc s' pc') :
    s'.filter.registry = s.filter.registry ∨
      (∃ x p, pc = .hookAddEntry x p ∧ pc' = .hookIncrementNew x p ∧
        s.filter.registry.lookup x.vOp = none ∧ s'.filter.registry = s.filter.registry.insert x.vOp p) ∨
      ∃ x e removed, pc = .unhookRemove x e ∧ pc' = .unhookSlots x removed gFltVnodeVopHookEntries ∧
        s.filter.registry.lookup x.vOp = some removed ∧
        s'.filter.registry = s.filter.registry.erase x.vOp := by
  cases stepped with
  | hookAddEntry absent => exact .inr (.inl ⟨_, _, rfl, rfl, absent, rfl⟩)
  | unhookRemoveFound _ found => exact .inr (.inr ⟨_, _, _, rfl, rfl, found, rfl⟩)
  | @unhookRemoveMissed x p entry _ absent =>
    exact .inl (congrArg (·.registry)
      (FilterState.unregister_absent (s := s.filter.setEntry p entry.released) absent))
  | _ => exact .inl rfl

end Frames

/-! ### The lock -/

section Locking
variable {offsets : List FltVnodeOpvOffsetDesc}

/-- Steps change the lock exactly as the modes of their program points tell. -/
theorem LocalStep.lockStep {s s' : Shared} {a : Act} {pc pc' : Pc}
    (stepped : LocalStep offsets s a pc s' pc') :
    LockStep s.lock pc.mode s'.lock pc'.mode := by
  cases stepped with
  | enter called resting entered =>
    cases pc with
    | idle => cases entered <;> exact .keep
    | done result => cases entered <;> exact .keep
    | _ => cases resting
  | hookLookupFound taken => exact .read taken
  | hookUnlockShared => exact .release
  | hookLockExclusive taken => exact .write taken
  | hookUnlockExclusive => exact .release
  | unhookLockExclusive taken => exact .write taken
  | unhookUnlockLast => exact .release
  | unhookUnlockNone => exact .release
  | _ => exact .keep

variable {T : Type} [Fintype T] [DecidableEq T] {mem : VopMemory} {c : Config Shared Pc T}

/-- In every reachable configuration the lock counts the threads that hold it. -/
theorem inStep_of_reaches {ok : Guard Shared Pc T Act}
    (reached : Reaches (threads offsets) ok (start mem) c) :
    InStep c.shared.lock Pc.mode c.pc := by
  refine reached.invariant (fun c => InStep c.shared.lock Pc.mode c.pc)
    (.unlocked fun _ => rfl) ?_
  intro c t a c' inStep _ moved
  obtain ⟨point, stepped, points⟩ := localStep_of_advance moved
  rw [points]
  exact inStep.stepped stepped.lockStep

end Locking

end FsdFilter.ThreadSteps
