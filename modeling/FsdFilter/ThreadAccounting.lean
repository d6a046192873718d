import FsdFilter.ThreadSteps

/-! The references to an entry: its count is what the threads hold at their
program points plus the registry's own reference. From that follows that no
thread touches an entry after its last reference is gone. -/
namespace FsdFilter.ThreadAccounting
open VnodeOps HookRegistry HookCalls Interleaving ReaderWriterLock HookThreads ThreadSteps

/-- The entry a program point holds a reference to. -/
def held : Pc → Option EntryPtr
  | .hookIncrement _ e | .hookUnlockShared _ e | .hookReleaseExisting _ e => some e
  | .hookLockExclusive _ p | .hookRecheck _ p | .hookIncrementExisting _ p _ | .hookAddEntry _ p
  | .hookIncrementNew _ p | .hookSlots _ p _ | .hookUnlockExclusive _ p _ | .hookReleaseNew _ p _ =>
    some p
  | .unhookDecrement _ e | .unhookReleaseFast _ e | .unhookLockExclusive _ e | .unhookTest _ e
  | .unhookRemove _ e => some e
  | .unhookSlots _ r _ | .unhookRelease _ r => some r
  | .unhookUnlockExclusive _ last => last
  | .getRead _ _ e | .getRelease _ _ e _ => some e
  | _ => none

/-- One reference to `p`, as `e` counts it. -/
def one (p e : EntryPtr) : ℕ := if p = e then 1 else 0

/-- How many references to `e` a program point holds. -/
def holds (e : EntryPtr) (pc : Pc) : ℕ := (held pc).elim 0 (one · e)

/-- How many references to `e` the registry holds. -/
def registryRefs (s : FilterState) (e : EntryPtr) : ℕ := s.registry.entries.countP (·.2 = e)

/-- The reference count of `e`, zero once it is freed. -/
def refCount (s : FilterState) (e : EntryPtr) : ℕ := (s.heap e).elim 0 (·.retainCount)

section Counting
variable {s : FilterState} {p e : EntryPtr} {entry : FltVnodeHookEntry} {vOp : VopVector}

@[simp] theorem registryRefs_setEntry (found : Option FltVnodeHookEntry) :
    registryRefs (s.setEntry p found) e = registryRefs s e := rfl

@[simp] theorem registryRefs_setSlot (offset : VmOffset) (func : VopFunc) :
    registryRefs (s.setSlot vOp offset func) e = registryRefs s e := rfl

@[simp] theorem refCount_setSlot (offset : VmOffset) (func : VopFunc) :
    refCount (s.setSlot vOp offset func) e = refCount s e := rfl

@[simp] theorem refCount_register : refCount (s.register vOp p) e = refCount s e := rfl

@[simp] theorem refCount_unregister : refCount (s.unregister vOp) e = refCount s e := rfl

theorem refCount_setEntry (found : Option FltVnodeHookEntry) (e : EntryPtr) :
    refCount (s.setEntry p found) e = if p = e then found.elim 0 (·.retainCount) else refCount s e := by
  by_cases same : p = e
  · subst same; simp [refCount, FilterState.setEntry]
  · simp [refCount, FilterState.setEntry, same, Ne.symm same]

theorem refCount_of_live (live : s.heap p = some entry) : refCount s p = entry.retainCount := by
  simp [refCount, live]

/-- A counter operation or a saved function leaves the count alone. -/
theorem refCount_kept (entry' : FltVnodeHookEntry) (live : s.heap p = some entry)
    (same : entry'.retainCount = entry.retainCount) (e : EntryPtr) :
    refCount (s.setEntry p (some entry')) e = refCount s e := by
  rw [refCount_setEntry]
  split_ifs with here
  · subst here; rw [refCount_of_live live]; exact same
  · rfl

theorem refCount_incremented (live : s.heap p = some entry) (e : EntryPtr) :
    refCount (s.setEntry p (some entry.incremented)) e = refCount s e :=
  refCount_kept (entry.incremented) live rfl e

theorem refCount_decremented (live : s.heap p = some entry) (e : EntryPtr) :
    refCount (s.setEntry p (some entry.decremented)) e = refCount s e :=
  refCount_kept (entry.decremented) live rfl e

theorem refCount_retained (live : s.heap p = some entry) (e : EntryPtr) :
    refCount (s.setEntry p (some entry.retained)) e = refCount s e + one p e := by
  rw [refCount_setEntry, one]
  split_ifs with here
  · subst here; rw [refCount_of_live live]; rfl
  · rfl

theorem refCount_released (live : s.heap p = some entry) (positive : 0 < entry.retainCount)
    (e : EntryPtr) :
    refCount (s.setEntry p entry.released) e + one p e = refCount s e := by
  rw [refCount_setEntry, one]
  split_ifs with here
  · subst here
    rw [refCount_of_live live]
    unfold FltVnodeHookEntry.released
    split_ifs with last
    · simp [last]
    · simp only [Option.elim_some]; omega
  · rfl

theorem refCount_created (free : s.heap p = none) (e : EntryPtr) :
    refCount (s.setEntry p (some .init)) e = refCount s e + one p e := by
  rw [refCount_setEntry, one]
  split_ifs with here
  · subst here; simp [refCount, free, FltVnodeHookEntry.init]
  · rfl

theorem registryRefs_register (absent : s.registry.lookup vOp = none) (e : EntryPtr) :
    registryRefs (s.register vOp p) e = registryRefs s e + one p e := by
  have new : vOp ∉ s.registry := AList.lookup_eq_none.mp absent
  unfold registryRefs FilterState.register
  rw [AList.entries_insert_of_notMem new, List.countP_cons]
  simp [one]

private theorem countP_kerase {entries : List (Sigma fun _ : VopVector => EntryPtr)}
    (found : entries.dlookup vOp = some p) (e : EntryPtr) :
    (entries.kerase vOp).countP (·.2 = e) + one p e = entries.countP (·.2 = e) := by
  induction entries with
  | nil => cases found
  | cons binding rest ih =>
    by_cases here : vOp = binding.1
    · obtain ⟨v, q⟩ := binding
      obtain rfl : vOp = v := here
      rw [List.dlookup_cons_eq] at found
      cases found
      have first : List.kerase vOp (⟨vOp, p⟩ :: rest) = rest := List.kerase_cons_eq rfl
      rw [first, List.countP_cons]
      simp [one]
    · rw [List.dlookup_cons_ne _ _ here] at found
      rw [List.kerase_cons_ne here, List.countP_cons, List.countP_cons, ← ih found]
      omega

theorem registryRefs_unregister (found : s.registry.lookup vOp = some p) (e : EntryPtr) :
    registryRefs (s.unregister vOp) e + one p e = registryRefs s e :=
  countP_kerase found e

/-- The registry refers to what it has registered. -/
theorem registryRefs_pos : 0 < registryRefs s e ↔ ∃ v, s.registry.lookup v = some e := by
  rw [registryRefs, List.countP_pos_iff]
  constructor
  · rintro ⟨⟨v, q⟩, member, same⟩
    obtain rfl : q = e := by simpa using same
    exact ⟨v, AList.mem_lookup_iff.mpr member⟩
  · rintro ⟨v, found⟩
    exact ⟨⟨v, e⟩, AList.mem_lookup_iff.mp found, by simp⟩

end Counting

/-- An entry that the registry refers to once belongs to one vector. -/
theorem owner_of_single {s : FilterState} {e : EntryPtr} {v w : VopVector}
    (single : registryRefs s e ≤ 1) (first : s.registry.lookup v = some e)
    (second : s.registry.lookup w = some e) : v = w := by
  by_contra apart
  have less := registryRefs_unregister first e
  have kept : (s.unregister v).registry.lookup w = some e :=
    (AList.lookup_erase_ne (Ne.symm apart)).trans second
  have still := registryRefs_pos.mpr ⟨w, kept⟩
  simp only [one, ↓reduceIte] at less
  omega

/-! ### One step -/

theorem released_alive {entry entry' : FltVnodeHookEntry} (positive : 0 < entry.retainCount)
    (left : entry.released = some entry') : 0 < entry'.retainCount := by
  unfold FltVnodeHookEntry.released at left
  split_ifs at left with last
  cases left
  simp only
  omega

theorem entered_held {call : Call} {point : Pc} (entered : Entered call point) : held point = none := by
  cases entered <;> rfl

theorem resting_held {pc : Pc} (resting : pc.resting = true) : held pc = none := by
  cases pc with
  | idle => rfl
  | done result => rfl
  | _ => cases resting

variable {offsets : List FltVnodeOpvOffsetDesc} {s s' : Shared} {a : Act} {pc pc' : Pc}

/-- **Conservation.** A step changes the count of an entry by what its thread
and the registry take or give back. -/
theorem step_conserves (stepped : LocalStep offsets s a pc s' pc')
    (alive : ∀ {e entry}, s.filter.heap e = some entry → 0 < entry.retainCount) (e : EntryPtr) :
    refCount s'.filter e + holds e pc + registryRefs s.filter e =
      refCount s.filter e + holds e pc' + registryRefs s'.filter e := by
  cases stepped with
  | enter called resting entered => simp only [holds, entered_held entered, resting_held resting]
  | hookLookupFound _ _ live | unhookLookupFound _ _ live | getLookupFound _ _ live
  | getLookupAgainFound _ _ live =>
    have retained := refCount_retained live e
    simp only [holds, held, Option.elim_some, Option.elim_none, registryRefs_setEntry]
    omega
  | hookReleaseExisting live | hookReleaseNew live | unhookReleaseFast live | unhookRelease live
  | getRelease live =>
    have released := refCount_released live (alive live) e
    simp only [holds, held, Option.elim_some, Option.elim_none, registryRefs_setEntry]
    omega
  | hookIncrement live | hookIncrementExisting live | hookIncrementNew live =>
    simp only [refCount_incremented live, registryRefs_setEntry, holds, held]
  | unhookDecrementMore live | unhookDecrementLast live =>
    simp only [refCount_decremented live, registryRefs_setEntry, holds, held]
  | @hookSlotNotHooked x p desc rest slot entry _ live =>
    have kept := refCount_kept (entry.setOriginalVopAsNotHooked slot.indx) live rfl e
    simp only [kept, registryRefs_setEntry, holds, held]
  | @hookSlotInstalled x p desc rest slot entry _ live =>
    have kept := refCount_kept (entry.setOriginalVop slot.indx (s.filter.mem x.vOp slot.offset))
      live rfl e
    simp only [refCount_setSlot, registryRefs_setSlot, kept, registryRefs_setEntry, holds, held]
  | hookNewEntry free =>
    have created := refCount_created free e
    simp only [holds, held, Option.elim_some, Option.elim_none, registryRefs_setEntry]
    omega
  | @hookAddEntry x p entry absent live =>
    have retained := refCount_retained (s := s.filter.register x.vOp p) live e
    have registered := registryRefs_register (p := p) absent e
    simp only [holds, held, registryRefs_setEntry, refCount_register] at retained ⊢
    omega
  | @unhookRemoveFound x p removed entry live found =>
    have released := refCount_released live (alive live) e
    have unregistered := registryRefs_unregister (s := s.filter.setEntry p entry.released) found e
    simp only [holds, held, Option.elim_some, registryRefs_setEntry, refCount_unregister] at unregistered ⊢
    omega
  | @unhookRemoveMissed x p entry live absent =>
    have released := refCount_released live (alive live) e
    have unchanged := FilterState.unregister_absent (s := s.filter.setEntry p entry.released) absent
    simp only [holds, held, Option.elim_some, Option.elim_none, unchanged, registryRefs_setEntry]
    omega
  | _ => rfl

private theorem setEntry_alive {s : FilterState} {p : EntryPtr} {found : Option FltVnodeHookEntry}
    (alive : ∀ {e entry}, s.heap e = some entry → 0 < entry.retainCount)
    (positive : ∀ {entry}, found = some entry → 0 < entry.retainCount) :
    ∀ {e entry}, (s.setEntry p found).heap e = some entry → 0 < entry.retainCount := by
  intro e entry live
  by_cases here : p = e
  · subst here
    rw [FilterState.setEntry_heap_self] at live
    exact positive live
  · rw [FilterState.setEntry_heap_ne here] at live
    exact alive live

/-- No entry is left without a reference. -/
theorem step_keepsAlive (stepped : LocalStep offsets s a pc s' pc')
    (alive : ∀ {e entry}, s.filter.heap e = some entry → 0 < entry.retainCount) :
    ∀ {e entry}, s'.filter.heap e = some entry → 0 < entry.retainCount := by
  intro e entry'
  cases stepped with
  | hookLookupFound | unhookLookupFound | getLookupFound | getLookupAgainFound | hookAddEntry =>
    exact setEntry_alive alive fun same => by cases same; exact Nat.succ_pos _
  | hookReleaseExisting live | hookReleaseNew live | unhookReleaseFast live | unhookRelease live
  | getRelease live | unhookRemoveFound live | unhookRemoveMissed live =>
    exact setEntry_alive alive (released_alive (alive live))
  | hookIncrement live | hookIncrementExisting live | hookIncrementNew live
  | unhookDecrementMore live | unhookDecrementLast live | hookSlotNotHooked _ live
  | hookSlotInstalled _ live =>
    have positive := alive live
    exact setEntry_alive alive fun same => by cases same; exact positive
  | hookNewEntry =>
    exact setEntry_alive alive fun same => by cases same; exact Nat.one_pos
  | _ => exact alive

/-- The entry a thread has created and not yet registered. -/
def creating : Pc → Option EntryPtr
  | .hookLockExclusive _ p | .hookRecheck _ p | .hookIncrementExisting _ p _ | .hookAddEntry _ p =>
    some p
  | _ => none

/-- The entry a thread has registered and still fills in. -/
def publishing : Pc → Option (VopVector × EntryPtr)
  | .hookIncrementNew x p | .hookSlots x p _ => some (x.vOp, p)
  | _ => none

/-- The registered entry a thread is about to count under the exclusive lock. -/
def rechecked : Pc → Option (VopVector × EntryPtr)
  | .hookIncrementExisting x _ e => some (x.vOp, e)
  | _ => none

/-- An entry that the thread neither holds nor can look up is left alone. -/
theorem step_leavesAlone {e : EntryPtr} (stepped : LocalStep offsets s a pc s' pc')
    (apart : held pc ≠ some e) (live : s.filter.heap e ≠ none)
    (unseen : (∀ v, s.filter.registry.lookup v ≠ some e) ∨ (s.lock.writer = true ∧ pc.mode = .free))
    (recheck : ∀ v q, rechecked pc = some (v, q) → s.filter.registry.lookup v = some q) :
    s'.filter.heap e = s.filter.heap e ∧ held pc' ≠ some e := by
  have looked : ∀ {v q lock'}, s.lock.lockRead = some lock' → s.filter.registry.lookup v = some q →
      q ≠ e := by
    rintro v q lock' taken found rfl
    rcases unseen with unregistered | ⟨written, _⟩
    · exact unregistered v found
    · rw [RwLock.writer_of_lockRead taken] at written
      cases written
  have own : ∀ {q}, held pc = some q → q ≠ e := by
    rintro q has rfl
    exact apart has
  have stays : ∀ {q}, q ≠ e → some q ≠ some e := fun other same => other (Option.some.inj same)
  cases stepped with
  | enter called resting entered => exact ⟨rfl, by rw [entered_held entered]; nofun⟩
  | hookLookupFound taken found | unhookLookupFound taken found | getLookupFound taken found
  | getLookupAgainFound taken found =>
    have other := looked taken found
    exact ⟨FilterState.setEntry_heap_ne other, stays other⟩
  | hookReleaseExisting | hookReleaseNew | unhookReleaseFast | unhookRelease | getRelease
  | unhookRemoveMissed =>
    exact ⟨FilterState.setEntry_heap_ne (own rfl), nofun⟩
  | hookIncrement | hookIncrementNew | unhookDecrementMore | unhookDecrementLast
  | hookSlotNotHooked | hookSlotInstalled | hookAddEntry =>
    exact ⟨FilterState.setEntry_heap_ne (own rfl), apart⟩
  | @hookIncrementExisting x p q entry =>
    rcases unseen with unregistered | ⟨_, free⟩
    · have other : q ≠ e := fun same => unregistered x.vOp (same ▸ recheck _ _ rfl)
      exact ⟨FilterState.setEntry_heap_ne other, apart⟩
    · cases free
  | @hookNewEntry x p free =>
    have other : p ≠ e := fun same => live (same ▸ free)
    exact ⟨FilterState.setEntry_heap_ne other, stays other⟩
  | @unhookRemoveFound x p removed entry _ found =>
    rcases unseen with unregistered | ⟨_, free⟩
    · exact ⟨FilterState.setEntry_heap_ne (own rfl), stays fun same => unregistered x.vOp (same ▸ found)⟩
    · cases free
  | hookLookupMissed | hookNoMemory | unhookLookupMissed | unhookUnlockNone | getLookupMissed
  | getCurrent => exact ⟨rfl, nofun⟩
  | _ => exact ⟨rfl, apart⟩

end FsdFilter.ThreadAccounting
