import FsdFilter.ThreadProtection

/-! The reference count of every entry is what the threads and the registry
hold, in every run; so no thread touches an entry after its last reference is
gone. -/
namespace FsdFilter.ReferenceAccounting
open StateRuns VnodeOps HookRegistry HookCalls Interleaving ReaderWriterLock HookThreads ThreadSteps
open ThreadAccounting ThreadProtection

variable {offsets : List FltVnodeOpvOffsetDesc} {s : Shared} {pc : Pc}

/-! ### No access to a freed entry -/

section Safety
variable {α : Type} {action : FilterM α} {next : α → Pc} {fault : Fault} {x : Vnode} {e : EntryPtr}
  {entry : FltVnodeHookEntry} {filter : FilterState}

theorem perform_safe (ran : ∃ result, action s.filter = .ok result) :
    perform s action next ≠ .fault fault := by
  obtain ⟨result, ran⟩ := ran
  simp only [perform, ran]
  nofun

theorem performShared_safe (ran : ∃ result, action s.filter = .ok result) :
    performShared s action next ≠ .fault fault := by
  unfold performShared
  split
  · exact perform_safe ran
  · nofun

theorem retrieveEntry_total (reference : Bool)
    (live : ∀ v e, filter.registry.lookup v = some e → ∃ entry, filter.heap e = some entry)
    (vOp : VopVector) :
    ∃ result, retrieveEntry vOp reference filter = .ok result := by
  cases found : filter.registry.lookup vOp with
  | none => exact ⟨_, retrieveEntry_absent found reference⟩
  | some e =>
    obtain ⟨entry, live⟩ := live vOp e found
    cases reference with
    | true => exact ⟨_, retrieveEntry_found found live⟩
    | false => exact ⟨_, retrieveEntry_found_unreferenced found⟩

theorem addEntry_total (live : filter.heap e = some entry) (vOp : VopVector) (allocated : Bool) :
    ∃ result, addEntry vOp e allocated filter = .ok result := by
  cases allocated with
  | false => exact ⟨_, addEntry_refused vOp e⟩
  | true =>
    cases found : filter.registry.lookup vOp with
    | none => exact ⟨_, addEntry_added found live⟩
    | some other => exact ⟨(false, filter), by simp only [addEntry, FilterM.bind_get, found]; rfl⟩

theorem newEntry_total (alloc : Allocator) : ∃ result, newEntry alloc filter = .ok result := by
  unfold newEntry
  split
  · exact ⟨_, rfl⟩
  · exact ⟨_, rfl⟩

theorem releaseRemove_total (live : filter.heap e = some entry) (vOp : VopVector) :
    ∃ result, (do release e; removeEntry vOp : FilterM (Option EntryPtr)) filter = .ok result := by
  rw [bind_ok (release_run live)]
  cases found : (filter.setEntry e entry.released).registry.lookup vOp with
  | none => exact ⟨_, removeEntry_absent found⟩
  | some removed => exact ⟨_, removeEntry_found found⟩

theorem hookEntry_total (live : filter.heap e = some entry) (desc : VnodeopvEntryDesc HookRoutine) :
    ∃ result, hookEntry offsets x e desc filter = .ok result := by
  unfold hookEntry
  cases hookSlot offsets desc.opveOp with
  | none => exact ⟨_, rfl⟩
  | some slot =>
    simp only
    rw [bind_ok (entryAt_run live)]
    simp only [readSlot, bind_assoc, FilterM.bind_get, FilterM.bind_pure]
    split
    · exact ⟨_, rfl⟩
    · exact ⟨_, rfl⟩

theorem unhookEntry_total (live : filter.heap e = some entry) (desc : VnodeopvEntryDesc HookRoutine) :
    ∃ result, unhookEntry offsets x e desc filter = .ok result := by
  unfold unhookEntry
  cases hookSlot offsets desc.opveOp with
  | none => exact ⟨_, rfl⟩
  | some slot =>
    simp only
    rw [bind_ok (entryAt_run live)]
    split
    · exact ⟨_, rfl⟩
    · exact ⟨_, rfl⟩

/-- The slow lookup touches no entry. -/
theorem currentVnodeOp_fault {indx : FltVopEnum}
    (failed : currentVnodeOp offsets x indx filter = .error fault) : fault = .nullDescriptor indx := by
  unfold currentVnodeOp at failed
  cases named : fltRetriveVnodeOpvEntryDescByVnodeOp gFltVnodeVopEnumEntries indx with
  | none => rw [named] at failed; cases failed; rfl
  | some enumDescEntry =>
    rw [named] at failed
    simp only at failed
    cases placed : fltRetriveVnodeOpvOffsetDescByVnodeOpDesc offsets enumDescEntry.opveOp with
    | none => rw [placed] at failed; cases failed; rfl
    | some offsetDescEntry => rw [placed] at failed; cases failed

/-- A thread whose entries are live does not fault on an entry. -/
theorem step_safe {a : Act} {freed : EntryPtr}
    (heldLive : ∀ e, held pc = some e → ∃ entry, s.filter.heap e = some entry)
    (registeredLive : ∀ v e, s.filter.registry.lookup v = some e → ∃ entry,
    s.filter.heap e = some entry)
    (recheck : ∀ v e, rechecked pc = some (v, e) → s.filter.registry.lookup v = some e) :
    step offsets s pc a ≠ .fault (.freedEntry freed) := by
  have own : ∀ {e}, held pc = some e → ∃ entry, s.filter.heap e = some entry :=
    fun has => heldLive _ has
  -- one bullet for each arm of `step`, in its order
  unfold step
  split
  · nofun
  · nofun
  · split
    · nofun
    · split
      · nofun
      · nofun
      · rename_i failed
        obtain ⟨result, ran⟩ := retrieveEntry_total true registeredLive _
        rw [ran] at failed
        cases failed
  · obtain ⟨entry, live⟩ := own rfl
    exact perform_safe ⟨_, incrementVnodeCounter_run live⟩
  · nofun
  · obtain ⟨entry, live⟩ := own rfl
    exact perform_safe ⟨_, release_run live⟩
  · exact perform_safe (newEntry_total _)
  · unfold acquire
    split <;> nofun
  · exact perform_safe (retrieveEntry_total false registeredLive _)
  · obtain ⟨entry, live⟩ := registeredLive _ _ (recheck _ _ rfl)
    exact perform_safe ⟨_, incrementVnodeCounter_run live⟩
  · obtain ⟨entry, live⟩ := own rfl
    exact perform_safe (addEntry_total live _ _)
  · obtain ⟨entry, live⟩ := own rfl
    exact perform_safe ⟨_, incrementVnodeCounter_run live⟩
  · obtain ⟨entry, live⟩ := own rfl
    exact perform_safe (hookEntry_total live _)
  · nofun
  · nofun
  · obtain ⟨entry, live⟩ := own rfl
    exact perform_safe ⟨_, release_run live⟩
  · exact performShared_safe (retrieveEntry_total true registeredLive _)
  · obtain ⟨entry, live⟩ := own rfl
    exact perform_safe ⟨_, decrementVnodeCounter_run live⟩
  · obtain ⟨entry, live⟩ := own rfl
    exact perform_safe ⟨_, release_run live⟩
  · unfold acquire
    split <;> nofun
  · obtain ⟨entry, live⟩ := own rfl
    exact perform_safe ⟨_, getVnodeCounter_run live⟩
  · obtain ⟨entry, live⟩ := own rfl
    exact perform_safe (releaseRemove_total live _)
  · obtain ⟨entry, live⟩ := own rfl
    exact perform_safe (unhookEntry_total live _)
  · nofun
  · nofun
  · obtain ⟨entry, live⟩ := own rfl
    exact perform_safe ⟨_, release_run live⟩
  · exact performShared_safe (retrieveEntry_total true registeredLive _)
  · rename_i x indx
    unfold performShared
    split
    · unfold perform
      split
      · nofun
      · rename_i failed
        rintro ⟨⟩
        cases found : s.filter.registry.lookup (fltGetVnodeOpVector x) with
        | some e =>
          obtain ⟨entry, live⟩ := registeredLive _ _ found
          rw [bind_ok (retrieveEntry_found found live)] at failed
          cases failed
        | none =>
          rw [bind_ok (retrieveEntry_absent found true)] at failed
          cases ran : currentVnodeOp offsets x indx s.filter with
          | ok result =>
            simp only [bind, StateT.bind, Except.bind, ran] at failed
            cases failed
          | error fault =>
            -- what is left of the slow lookup faults only on a missing descriptor
            have missing := currentVnodeOp_fault ran
            simp only [bind, StateT.bind, Except.bind, ran] at failed
            cases failed
            cases missing
    · nofun
  · obtain ⟨entry, live⟩ := own rfl
    exact perform_safe ⟨_, getOrignalVop_run live _⟩
  · obtain ⟨entry, live⟩ := own rfl
    exact perform_safe ⟨_, release_run live⟩
  · nofun

end Safety

/-! ### The result -/

variable {T : Type} [Fintype T] [DecidableEq T] {c : Config Shared Pc T}

/-- Whether the registry has the entry. -/
def isRegistered (s : FilterState) (e : EntryPtr) : Bool := s.registry.entries.any (·.2 = e)

theorem isRegistered_iff {s : FilterState} {e : EntryPtr} :
    isRegistered s e = true ↔ ∃ v, s.registry.lookup v = some e := by
  rw [← registryRefs_pos, registryRefs, List.countP_pos_iff, isRegistered, List.any_eq_true]

/-- The references of all entries add up. -/
structure Accounted (offsets : List FltVnodeOpvOffsetDesc) (c : Config Shared Pc T) : Prop where
  counted : ∀ e entry, c.shared.filter.heap e = some entry →
    entry.retainCount = tally (holds e) c.pc + (isRegistered c.shared.filter e).toNat
  positive : ∀ e entry, c.shared.filter.heap e = some entry → 0 < entry.retainCount
  freed : ∀ e, c.shared.filter.heap e = none →
    (∀ t, held (c.pc t) ≠ some e) ∧ ∀ v, c.shared.filter.registry.lookup v ≠ some e
  untouched : ∀ t a e, (threads offsets).advance c t a ≠ .fault (.freedEntry e)
  quiescent : (∀ t, (c.pc t).resting = true) → ∀ e,
    (∀ entry, c.shared.filter.heap e = some entry → entry.retainCount = 1) ∧
      ((∃ entry, c.shared.filter.heap e = some entry) ↔ ∃ v, c.shared.filter.registry.lookup v = some e)

theorem registryRefs_toNat {s : FilterState} {e : EntryPtr} (single : registryRefs s e ≤ 1) :
    registryRefs s e = (isRegistered s e).toNat := by
  cases registered : isRegistered s e with
  | true =>
    have positive := registryRefs_pos.mpr (isRegistered_iff.mp registered)
    exact Nat.le_antisymm single positive
  | false =>
    by_contra some
    rw [isRegistered_iff.mpr (registryRefs_pos.mp (Nat.pos_of_ne_zero some))] at registered
    cases registered

/-- **Reference accounting.** In every run of any number of threads, whatever
they call and whichever allocation fails, the references add up. -/
theorem references_accounted {mem : VopMemory}
    (reached : Reaches (threads offsets) anyStep (start mem) c) : Accounted offsets c := by
  have safe := protected_of_reaches reached
  have counted : ∀ e entry, c.shared.filter.heap e = some entry →
      entry.retainCount = tally (holds e) c.pc + (isRegistered c.shared.filter e).toNat := by
    intro e entry live
    rw [← refCount_of_live live, ← registryRefs_toNat (safe.single e)]
    exact safe.balanced e
  refine ⟨counted, fun e entry live => safe.alive live, ?_, ?_, ?_⟩
  · intro e freed
    constructor
    · intro t has
      obtain ⟨entry, live⟩ := safe.held_live has
      rw [freed] at live
      cases live
    · intro v found
      obtain ⟨entry, live⟩ := safe.registered_live found
      rw [freed] at live
      cases live
  · intro t a e stopped
    exact step_safe (fun e => safe.held_live) (fun v e => safe.registered_live) (safe.recheck t)
      (System.advance_fault stopped)
  · intro resting e
    have nobody : tally (holds e) c.pc = 0 := tally_eq_zero fun t => by
      simp only [holds, resting_held (resting t), Option.elim_none]
    have registered : ∀ {entry}, c.shared.filter.heap e = some entry →
        entry.retainCount = (isRegistered c.shared.filter e).toNat := by
      intro entry live
      rw [counted e entry live, nobody, Nat.zero_add]
    have one_of_live : ∀ {entry}, c.shared.filter.heap e = some entry →
        isRegistered c.shared.filter e = true := by
      intro entry live
      have positive := safe.alive live
      rw [registered live] at positive
      by_contra missing
      rw [Bool.not_eq_true] at missing
      simp [missing] at positive
    refine ⟨fun entry live => ?_, ?_, ?_⟩
    · rw [registered live, one_of_live live]
      rfl
    · rintro ⟨entry, live⟩
      exact isRegistered_iff.mp (one_of_live live)
    · rintro ⟨v, found⟩
      exact safe.registered_live found

/-- Two threads of which one hooks a vector while the other one looks it up. -/
def hookAndLookup : List (Fin 2 × Act) :=
  takes thread0 ([.call (.hook ⟨64, .vreg, false⟩), .run, .allocate (.within 4), .run, .run,
    .insert true, .run] ++
    List.replicate 14 .run) ++
  takes thread1 [.call (.getOriginal ⟨64, .vreg, false⟩ .read), .run]

theorem references_accounted_while_looked_up :
    ∃ c : Config Shared Pc (Fin 2),
      Reaches (threads OpvOffsets.consecutive.table) anyStep (start fun _ _ => .fsd 1) c ∧
      held (c.pc 1) = some 0 ∧ Accounted OpvOffsets.consecutive.table c := by
  obtain ⟨c, reached, looking⟩ := exists_reached_of_replay (threads OpvOffsets.consecutive.table)
    anyStep (start fun _ _ => .fsd 1) hookAndLookup (fun c => held (c.pc 1) == some 0)
    (by decide +kernel)
  exact ⟨c, reached, by simpa using looking, references_accounted reached⟩

end FsdFilter.ReferenceAccounting
