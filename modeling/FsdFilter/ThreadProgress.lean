import FsdFilter.Progress
import FsdFilter.TableThreads

/-! Every call gets done. A call has a bounded number of steps, lock and loops included, and
the lock of the registry is the only thing that a call waits for. -/
namespace FsdFilter.ThreadProgress
open VnodeOps HookRegistry HookCalls Interleaving ReaderWriterLock Progress RegistryTable
open ThreadSteps RegistryRefinement
open HookThreads (Pc Act Call Shared)
open CommonHashTable (HashTable Kernel ghtCreate)

variable {kernel : Kernel} {offsets : List FltVnodeOpvOffsetDesc} {s s' : Shared}
  {pc pc' : Pc} {a : Act}

/-! ### The work of a call -/

/-- A thread is inside a call. -/
def inCall (pc : Pc) : Bool := !pc.resting

/-- The slots that the loops go through. -/
abbrev slotCount : ℕ := gFltVnodeVopHookEntries.length

/-- How many steps a thread has before it at most until its call returns. -/
def workLeft : Pc → ℕ
  | .idle | .done _ => 0
  | .hookReleaseNew .. => 1
  | .hookUnlockExclusive .. => 2
  | .hookSlots _ _ rest => rest.length + 3
  | .hookIncrementNew .. => slotCount + 4
  | .hookAddEntry .. => slotCount + 5
  | .hookIncrementExisting .. => 3
  | .hookRecheck .. => slotCount + 6
  | .hookLockExclusive .. => slotCount + 7
  | .hookNewEntry .. => slotCount + 8
  | .hookReleaseExisting .. => 1
  | .hookUnlockShared .. => 2
  | .hookIncrement .. => 3
  | .hookLookup .. => slotCount + 9
  | .unhookRelease .. => 1
  | .unhookUnlockExclusive .. => 2
  | .unhookSlots _ _ rest => rest.length + 3
  | .unhookRemove .. => slotCount + 4
  | .unhookTest .. => slotCount + 5
  | .unhookLockExclusive .. => slotCount + 6
  | .unhookReleaseFast .. => 1
  | .unhookDecrement .. => slotCount + 7
  | .unhookLookup .. => slotCount + 8
  | .getRelease .. => 1
  | .getRead .. => 2
  | .getLookupAgain .. => 3
  | .getLookup .. => 4

/-- The most steps that a call has. -/
def callBound : ℕ := slotCount + 9

theorem workLeft_entered {call : Call} (entered : Entered call pc) : workLeft pc ≤ callBound := by
  cases entered <;> simp [workLeft, callBound]

theorem localStep_countsDown (stepped : LocalStep offsets s a pc s' pc') (busy : inCall pc = true) :
    workLeft pc' < workLeft pc := by
  cases stepped with
  | enter called resting entered => simp [inCall, resting] at busy
  | _ => simp [workLeft]

/-! ### Where a thread waits -/

/-- What the environment decides at a program point; allocations may fail. -/
def actAt : Pc → Act
  | .hookNewEntry _ => .allocate (.within 0)
  | .hookAddEntry .. => .insert false
  | _ => .run

theorem next_unblocked {S F : Type} (after : S × Pc) :
    (.next after : Outcome F (S × Pc)) ≠ .blocked := by
  intro waits
  cases waits

theorem fault_unblocked {S F : Type} (fault : F) : (.fault fault : Outcome F (S × Pc)) ≠ .blocked := by
  intro waits
  cases waits

theorem perform_unblocked {α : Type} {action : FilterM α} {next : α → Pc} :
    HookThreads.perform s action next ≠ .blocked := by
  unfold HookThreads.perform
  split
  · exact next_unblocked _
  · exact fault_unblocked _

theorem performShared_unblocked {α : Type} {action : FilterM α} {next : α → Pc}
    (free : s.lock = .unlocked) :
    HookThreads.performShared s action next ≠ .blocked := by
  simp only [HookThreads.performShared, free]
  exact perform_unblocked

/-- A holder of the lock goes on, and everybody does when it is free. -/
theorem step_unblocked (busy : inCall pc = true) (goes : pc.mode ≠ .free ∨ s.lock = .unlocked) :
    HookThreads.step offsets s pc (actAt pc) ≠ .blocked := by
  have lockFree : pc.mode = .free → s.lock = .unlocked :=
    fun free => goes.resolve_left fun holds => holds free
  cases pc with
  | idle | done => cases busy
  | hookLookup vnode =>
    have taken : s.lock.lockRead = some ⟨1, false⟩ := by rw [lockFree rfl]; rfl
    simp only [HookThreads.step, actAt, taken]
    split
    · exact next_unblocked _
    · exact next_unblocked _
    · exact fault_unblocked _
  | hookLockExclusive | unhookLockExclusive =>
    have taken : s.lock.lockWrite = some ⟨0, true⟩ := by rw [lockFree rfl]; rfl
    simp only [HookThreads.step, actAt, HookThreads.acquire, taken]
    exact next_unblocked _
  | unhookLookup | getLookup | getLookupAgain => exact performShared_unblocked (lockFree rfl)
  | hookSlots vnode new rest =>
    cases rest with
    | nil => exact next_unblocked _
    | cons desc rest => exact perform_unblocked
  | unhookSlots vnode removed rest =>
    cases rest with
    | nil => exact next_unblocked _
    | cons desc rest => exact perform_unblocked
  | hookUnlockShared | hookUnlockExclusive | unhookUnlockExclusive => exact next_unblocked _
  | hookNewEntry =>
    simp only [HookThreads.step, actAt]
    exact perform_unblocked
  | _ => exact perform_unblocked

/-! ### On the hash table -/

section Table
variable {s s' : TableShared}

theorem perform_next {α : Type} {action : TableM α} {next : α → Pc}
    (performed : perform s action next = .next (s', pc')) :
    ∃ result filter, action s.filter = .ok (result, filter) ∧ pc' = next result := by
  unfold perform at performed
  split at performed
  · rename_i result filter ran
    cases performed
    exact ⟨result, filter, ran, rfl⟩
  · cases performed

theorem performShared_next {α : Type} {action : TableM α} {next : α → Pc}
    (performed : performShared s action next = .next (s', pc')) :
    ∃ result filter, action s.filter = .ok (result, filter) ∧ pc' = next result := by
  unfold performShared at performed
  split at performed
  · exact perform_next performed
  · cases performed

theorem stepElsewhere_countsDown (busy : inCall pc = true)
    (stepped : stepElsewhere offsets s pc a = .next (s', pc')) :
    workLeft pc' < workLeft pc := by
  unfold stepElsewhere at stepped
  split at stepped
  · cases stepped
  · cases stepped
  · rename_i after point inner
    cases stepped
    exact localStep_countsDown (localStep_of_step inner) busy

/-- A thread at rest begins a call. -/
theorem table_enters (resting : inCall pc = false)
    (stepped : step kernel offsets s pc a = .next (s', pc')) :
    workLeft pc' ≤ callBound := by
  have elsewhere : stepElsewhere offsets s pc a = .next (s', pc') := by
    cases pc with
    | idle | done => exact stepped
    | _ => cases resting
  unfold stepElsewhere at elsewhere
  split at elsewhere
  · cases elsewhere
  · cases elsewhere
  · rename_i after point inner
    cases elsewhere
    cases localStep_of_step inner with
    | enter called rests entered => exact workLeft_entered entered
    | _ => cases resting

/-- On the hash table it is the same work. -/
theorem table_countsDown (kernel : Kernel) (offsets : List FltVnodeOpvOffsetDesc) :
    CountsDown (threads kernel offsets) inCall workLeft := by
  intro s p a s' p' busy stepped
  simp only [threads] at stepped
  -- one bullet for each arm of `step`, in its order
  unfold RegistryTable.step at stepped
  split at stepped
  · split at stepped
    · cases stepped
    · split at stepped
      · cases stepped
        simp [workLeft]
      · cases stepped
        simp [workLeft]
      · cases stepped
  · obtain ⟨found, filter, -, rfl⟩ := perform_next stepped
    cases found <;> simp [workLeft]
  · obtain ⟨added, filter, -, rfl⟩ := perform_next stepped
    cases added <;> simp [workLeft]
  · cases stepped
  · obtain ⟨found, filter, -, rfl⟩ := performShared_next stepped
    cases found <;> simp [workLeft]
  · obtain ⟨removed, filter, -, rfl⟩ := perform_next stepped
    cases removed <;> simp [workLeft]
  · obtain ⟨found, filter, -, rfl⟩ := performShared_next stepped
    cases found <;> simp [workLeft]
  · obtain ⟨point, filter, ran, rfl⟩ := performShared_next stepped
    obtain ⟨found, middle, -, rest⟩ := StateRuns.of_bind_ok ran
    cases found with
    | some entry =>
      cases rest
      simp [workLeft]
    | none =>
      obtain ⟨original, last, -, rest⟩ := StateRuns.of_bind_ok rest
      cases rest
      simp [workLeft]
  · exact stepElsewhere_countsDown busy stepped

theorem perform_goes {α : Type} {action : TableM α} {next : α → Pc} :
    perform s action next ≠ .blocked := by
  unfold perform
  split
  · exact next_unblocked _
  · exact fault_unblocked _

theorem performShared_goes {α : Type} {action : TableM α} {next : α → Pc} (free : s.lock = .unlocked) :
    performShared s action next ≠ .blocked := by
  simp only [performShared, free]
  exact perform_goes

theorem stepElsewhere_goes
    (goes : HookThreads.step offsets ⟨s.filter.withoutRegistry, s.lock⟩ pc a ≠ .blocked) :
    stepElsewhere offsets s pc a ≠ .blocked := by
  unfold stepElsewhere
  split
  · rename_i waits
    exact absurd waits goes
  · exact fault_unblocked _
  · exact next_unblocked _

theorem table_unblocked (busy : inCall pc = true) (goes : pc.mode ≠ .free ∨ s.lock = .unlocked) :
    ∃ a, step kernel offsets s pc a ≠ .blocked := by
  have lockFree : pc.mode = .free → s.lock = .unlocked :=
    fun free => goes.resolve_left fun holds => holds free
  have inner : HookThreads.step offsets ⟨s.filter.withoutRegistry, s.lock⟩ pc
      (actAt pc) ≠ .blocked := step_unblocked busy goes
  cases pc with
  | hookLookup vnode =>
    have taken : s.lock.lockRead = some ⟨1, false⟩ := by rw [lockFree rfl]; rfl
    refine ⟨.run, ?_⟩
    simp only [step, taken]
    split
    · exact next_unblocked _
    · exact next_unblocked _
    · exact fault_unblocked _
  | unhookLookup | getLookup | getLookupAgain => exact ⟨.run, performShared_goes (lockFree rfl)⟩
  | hookRecheck | hookAddEntry | unhookRemove => exact ⟨.run, perform_goes⟩
  | _ => exact ⟨_, stepElsewhere_goes inner⟩

/-- The lock of the registry is the only thing that a call waits for. -/
theorem table_waitsForLock (kernel : Kernel) (offsets : List FltVnodeOpvOffsetDesc) :
    WaitsForLock (threads kernel offsets) TableShared.lock Pc.mode inCall where
  inCall pc holds := by
    cases pc with
    | idle | done => exact absurd rfl holds
    | _ => rfl
  holder s pc holds := by
    refine table_unblocked ?_ (.inl holds)
    cases pc with
    | idle | done => exact absurd rfl holds
    | _ => rfl
  others s pc busy free := table_unblocked busy (.inr free)

end Table

/-! ### Calls complete -/

section Complete
variable {mem : VopMemory} {iSize : CommonHashTable.UInt} {nonBlock : Bool}
  {h h' : CommonHashTable.Heap EntryPtr} {t : HashTable EntryPtr} {T : Type} [Fintype T]
  [DecidableEq T] {c c' : Config TableShared Pc T}

omit [Fintype T] in
/-- A thread never has more work before it than a whole call. -/
theorem workLeft_le (reached : Reaches (threads kernel offsets) anyStep (start mem t h') c) (u : T) :
    workLeft (c.pc u) ≤ callBound := by
  refine reached.invariant (fun c => ∀ u, workLeft (c.pc u) ≤ callBound) (fun _ => Nat.zero_le _) ?_ u
  intro c v a c' bounded _ moved u
  obtain ⟨point, stepped, points⟩ := System.advance_next moved
  rw [points]
  by_cases own : u = v
  · subst own
    rw [Function.update_self]
    cases busy : inCall (c.pc u) with
    | true =>
      exact Nat.le_of_lt (Nat.lt_of_lt_of_le (table_countsDown _ _ _ _ _ _ _ busy stepped) (bounded u))
    | false => exact table_enters busy stepped
  · rw [Function.update_of_ne own]
    exact bounded u

/-- Some call goes on: it takes a step, or it stops the kernel at an operation that has no
descriptor. -/
def GoesOn (kernel : Kernel) (offsets : List FltVnodeOpvOffsetDesc)
    (c : Config TableShared Pc T) : Prop :=
  ∃ u a, inCall (c.pc u) = true ∧ ((∃ c', (threads kernel offsets).advance c u a = .next c') ∨
    ∃ indx, (threads kernel offsets).advance c u a = .fault (.filter (.nullDescriptor indx)))

/-- All calls have returned, and the lock is free. -/
def AllReturned (c : Config TableShared Pc T) : Prop :=
  (∀ u, inCall (c.pc u) = false) ∧ c.shared.lock = .unlocked

theorem goesOn_or_returned (vectors : VectorCounts.Vectors)
    (created : ghtCreate kernel iSize nonBlock h = .ok (some t, h'))
    (reached : Reaches (threads kernel vectors.table) anyStep (start vectors.original t h') c) :
    GoesOn kernel vectors.table c ∨ AllReturned c := by
  obtain ⟨i, run, related⟩ := TableThreads.registry_run created reached
  have inStep := related.lock ▸ inStep_of_reaches run
  by_cases some' : ∃ u, inCall (c.pc u) = true
  · obtain ⟨u, a, busy, goes⟩ := (table_waitsForLock kernel vectors.table).exists_unblocked inStep some'
    refine .inl ⟨u, a, busy, ?_⟩
    cases moved : (threads kernel vectors.table).advance c u a with
    | blocked => exact absurd moved goes
    | next c' => exact .inl ⟨c', rfl⟩
    | fault fault =>
      obtain ⟨indx, rfl⟩ := TableThreads.only_nullDescriptor vectors created reached moved
      exact .inr ⟨indx, rfl⟩
  · have resting : ∀ u, inCall (c.pc u) = false :=
      fun u => Bool.eq_false_of_not_eq_true fun busy => some' ⟨u, busy⟩
    refine .inr ⟨resting, unlocked_of_free inStep fun u => ?_⟩
    have rests := resting u
    generalize c.pc u = pc at rests
    cases pc with
    | idle | done => rfl
    | _ => cases rests

/-- **Every call completes.** From any configuration of any run: whatever the other threads
do, a thread takes at most `callBound` more steps before its call returns; when no further
calls are made, all threads together take at most that many each; and the run does not get
stuck before all calls have returned and the lock is free. -/
theorem calls_complete (kernel : Kernel) (vectors : VectorCounts.Vectors)
    (created : ghtCreate kernel iSize nonBlock h = .ok (some t, h'))
    (reached : Reaches (threads kernel vectors.table) anyStep (start vectors.original t h') c) :
    (∀ u schedule c', Runs (threads kernel vectors.table) (staysIn inCall u) c schedule c' →
      schedule.countP (·.1 = u) ≤ callBound) ∧
    ∀ schedule c', Runs (threads kernel vectors.table) (working inCall) c schedule c' →
      schedule.length ≤ Fintype.card T * callBound ∧
        (GoesOn kernel vectors.table c' ∨ AllReturned c') := by
  have down := table_countsDown kernel vectors.table
  constructor
  · intro u schedule c' run
    have counted := down.own_steps run
    have bounded := workLeft_le reached u
    omega
  · intro schedule c' run
    have counted := down.all_steps run
    have bounded : tally workLeft c.pc ≤ Fintype.card T * callBound := tally_le (workLeft_le reached)
    exact ⟨by omega, goesOn_or_returned vectors created (run.reaches reached)⟩

/-- One thread looks a function up while another one hooks the vector. -/
def lookupDuringHook : List (Fin 2 × Act) :=
  HookThreads.takes HookThreads.thread0 [.call (.getOriginal ⟨64, .vreg, false⟩ .read)] ++
  HookThreads.takes HookThreads.thread1 [.call (.hook ⟨64, .vreg, false⟩), .run,
    .allocate (.within 4), .run]

theorem calls_complete_waiting : ∃ c : Config TableShared Pc (Fin 2),
    c.pc 0 = .getLookup ⟨64, .vreg, false⟩ .read ∧ c.shared.lock = ⟨0, true⟩ ∧
      GoesOn OrderedMap.alwaysGranted TableThreads.files.table c := by
  obtain ⟨c, reached, ends⟩ :=
    exists_reached_of_replay (threads OrderedMap.alwaysGranted TableThreads.files.table) anyStep
    (start TableThreads.files.original TableThreads.firstTable.1 TableThreads.firstTable.2)
    lookupDuringHook
    (fun c => c.pc 0 = .getLookup ⟨64, .vreg, false⟩ .read ∧ c.shared.lock = ⟨0, true⟩)
    (by decide +kernel)
  obtain ⟨waits, locked⟩ := of_decide_eq_true ends
  have goes := ((calls_complete _ _ TableThreads.firstTable_created reached).2 [] c .nil).2
  refine ⟨c, waits, locked, goes.resolve_right fun returned => ?_⟩
  have rests := returned.1 0
  rw [waits] at rests
  cases rests

end Complete
end FsdFilter.ThreadProgress
