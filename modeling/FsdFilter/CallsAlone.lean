import FsdFilter.ThreadSteps

/-! The two models of the hook routines agree: a thread that makes a call while
no other thread moves takes the steps of the interleaved machine to the very
state and answer of the call run to completion. -/
namespace FsdFilter.CallsAlone
open StateRuns VnodeOps HookRegistry HookCalls Interleaving ReaderWriterLock HookThreads ThreadSteps

variable {offsets : List FltVnodeOpvOffsetDesc} {s s' : FilterState} {lock : RwLock} {x : Vnode}
  {after : Shared × Pc}

/-- A point that runs code of the filter goes on from what the code leaves. -/
theorem alone_perform {α : Type} {action : FilterM α} {next : α → Pc} {result : α}
    {point : Pc} (a : Act) (ran : action s = .ok (result, s'))
    (code : step offsets ⟨s, lock⟩ point a = perform ⟨s, lock⟩ action next)
    (rest : (threads offsets).Alone (⟨s', lock⟩, next result) after) :
    (threads offsets).Alone (⟨s, lock⟩, point) after := by
  refine .head ⟨a, ?_⟩ rest
  change step offsets ⟨s, lock⟩ point a = _
  rw [code]
  simp only [perform, ran]

/-- The hooking loop. -/
theorem alone_hookSlots {new : EntryPtr} {entries : List (VnodeopvEntryDesc HookRoutine)}
    (ran : entries.forM (hookEntry offsets x new) s = .ok ((), s')) :
    (threads offsets).Alone (⟨s, lock⟩, .hookSlots x new entries)
      (⟨s', lock⟩, .hookUnlockExclusive x new .kIOReturnSuccess) := by
  induction entries generalizing s with
  | nil =>
    cases ran
    exact .single ⟨.run, rfl⟩
  | cons desc rest ih =>
    change (hookEntry offsets x new desc >>= fun _ => rest.forM (hookEntry offsets x new)) s =
      .ok ((), s') at ran
    obtain ⟨_, middle, body, loop⟩ := of_bind_ok ran
    exact alone_perform .run body rfl (ih loop)

/-- The restoring loop. -/
theorem alone_unhookSlots {removed : EntryPtr} {entries : List (VnodeopvEntryDesc HookRoutine)}
    (ran : entries.forM (unhookEntry offsets x removed) s = .ok ((), s')) :
    (threads offsets).Alone (⟨s, lock⟩, .unhookSlots x removed entries)
      (⟨s', lock⟩, .unhookUnlockExclusive x (some removed)) := by
  induction entries generalizing s with
  | nil =>
    cases ran
    exact .single ⟨.run, rfl⟩
  | cons desc rest ih =>
    change (unhookEntry offsets x removed desc >>= fun _ =>
      rest.forM (unhookEntry offsets x removed)) s = .ok ((), s') at ran
    obtain ⟨_, middle, body, loop⟩ := of_bind_ok ran
    exact alone_perform .run body rfl (ih loop)

/-- The exclusive section of `FltHookVnodeVop`. -/
theorem alone_hookExclusive {new : EntryPtr} {allocated : Bool} {rc : IOReturn}
    (ran : hookExclusive offsets x new allocated s = .ok (rc, s')) :
    (threads offsets).Alone (⟨s, lock⟩, .hookRecheck x new)
      (⟨s', lock⟩, .hookUnlockExclusive x new rc) := by
  obtain ⟨found, middle, retrieved, rest⟩ := of_bind_ok ran
  apply alone_perform .run retrieved rfl
  cases found with
  | some existing =>
    obtain ⟨_, counted, incremented, rest⟩ := of_bind_ok rest
    cases rest
    exact alone_perform .run incremented rfl .refl
  | none =>
    obtain ⟨added, inserted, adding, rest⟩ := of_bind_ok rest
    apply alone_perform (.insert allocated) adding rfl
    cases added with
    | false =>
      cases rest
      exact .refl
    | true =>
      obtain ⟨_, counted, incremented, rest⟩ := of_bind_ok rest
      obtain ⟨_, hooked, looped, rest⟩ := of_bind_ok rest
      cases rest
      exact alone_perform .run incremented rfl (alone_hookSlots looped)

/-- The exclusive section of `FltUnHookVnodeVop`. -/
theorem alone_unhookExclusive {existing : EntryPtr} {last : Option EntryPtr}
    (ran : unhookExclusive offsets x existing s = .ok (last, s')) :
    (threads offsets).Alone (⟨s, lock⟩, .unhookTest x existing)
      (⟨s', lock⟩, .unhookUnlockExclusive x last) := by
  obtain ⟨counter, tested, read, rest⟩ := of_bind_ok ran
  apply alone_perform .run read rfl
  split at rest
  · cases rest
    rw [if_pos ‹_›]
    exact .refl
  · rw [if_neg ‹_›]
    obtain ⟨_, released, releasing, rest⟩ := of_bind_ok rest
    obtain ⟨removed, taken, removing, rest⟩ := of_bind_ok rest
    apply alone_perform .run (bind_ok releasing |>.trans removing) rfl
    cases removed with
    | none =>
      cases rest
      exact .refl
    | some removed =>
      obtain ⟨_, restored, looped, rest⟩ := of_bind_ok rest
      cases rest
      exact alone_unhookSlots looped

/-- A resting thread enters a call. -/
theorem alone_enter (call : Call) {point : Pc} {s : Shared} (resting : point.resting = true)
    (rest : (threads offsets).Alone (s, call.enter) after) :
    (threads offsets).Alone (s, point) after := by
  refine .head ⟨.call call, ?_⟩ rest
  cases point with
  | idle | done => rfl
  | _ => cases resting

theorem alone_hookDiskVnode {supply : Supply} {answer : HookReturn}
    (ran : hookDiskVnode offsets supply x s = .ok (answer, s')) :
    (threads offsets).Alone (⟨s, .unlocked⟩, .hookLookup x) (⟨s', .unlocked⟩,
      .done (.hooked x answer)) := by
  obtain ⟨found, middle, retrieved, rest⟩ := of_bind_ok ran
  cases found with
  | some existing =>
    obtain ⟨_, counted, incremented, rest⟩ := of_bind_ok rest
    obtain ⟨_, released, releasing, rest⟩ := of_bind_ok rest
    cases rest
    have looked : step offsets ⟨s, .unlocked⟩ (.hookLookup x) .run =
        .next (⟨middle, ⟨1, false⟩⟩, .hookIncrement x existing) := by
      simp only [step, RwLock.lockRead, RwLock.unlocked, Bool.false_eq_true, if_false, retrieved]
    refine .head ⟨.run, looked⟩ (alone_perform .run incremented rfl ?_)
    exact .head ⟨.run, rfl⟩ (alone_perform .run releasing rfl .refl)
  | none =>
    obtain ⟨new, created, creating, rest⟩ := of_bind_ok rest
    have looked : step offsets ⟨s, .unlocked⟩ (.hookLookup x) .run =
        .next (⟨middle, .unlocked⟩, .hookNewEntry x) := by
      simp only [step, RwLock.lockRead, RwLock.unlocked, Bool.false_eq_true, if_false, retrieved]
    refine .head ⟨.run, looked⟩ (alone_perform (.allocate supply.alloc) creating rfl ?_)
    cases new with
    | none =>
      cases rest
      exact .refl
    | some new =>
      obtain ⟨rc, hooked, inside, rest⟩ := of_bind_ok rest
      obtain ⟨_, released, releasing, rest⟩ := of_bind_ok rest
      cases rest
      refine .head ⟨.run, rfl⟩ ((alone_hookExclusive inside).trans ?_)
      exact .head ⟨.run, rfl⟩ (alone_perform .run releasing rfl .refl)

/-- **`FltHookVnodeVop`** made by a thread alone. -/
theorem alone_hook {supply : Supply} {answer : HookReturn} {point : Pc} (resting : point.resting = true)
    (ran : fltHookVnodeVop offsets supply x s = .ok (answer, s')) :
    (threads offsets).Alone (⟨s, .unlocked⟩, point) (⟨s', .unlocked⟩, .done (.hooked x answer)) := by
  apply alone_enter (.hook x) resting
  unfold fltHookVnodeVop at ran
  simp only [Call.enter]
  split_ifs at ran ⊢
  · cases ran; exact .refl
  · cases ran; exact .refl
  · cases ran; exact .refl
  · exact alone_hookDiskVnode ran

theorem alone_unhookDiskVnode (ran : unhookDiskVnode offsets x s = .ok ((), s')) :
    (threads offsets).Alone (⟨s, .unlocked⟩, .unhookLookup x) (⟨s', .unlocked⟩,
      .done (.unhooked x)) := by
  obtain ⟨found, middle, retrieved, rest⟩ := of_bind_ok ran
  apply alone_perform .run retrieved rfl
  cases found with
  | none =>
    cases rest
    exact .refl
  | some existing =>
    obtain ⟨before, counted, decremented, rest⟩ := of_bind_ok rest
    apply alone_perform .run decremented rfl
    split at rest
    · rw [if_pos ‹_›]
      exact alone_perform .run rest rfl .refl
    · rw [if_neg ‹_›]
      obtain ⟨last, unhooked, inside, rest⟩ := of_bind_ok rest
      refine .head ⟨.run, rfl⟩ ((alone_unhookExclusive inside).trans ?_)
      cases last with
      | none =>
        cases rest
        exact .single ⟨.run, rfl⟩
      | some last => exact .head ⟨.run, rfl⟩ (alone_perform .run rest rfl .refl)

/-- **`FltUnHookVnodeVop`** made by a thread alone. -/
theorem alone_unhook {point : Pc} (resting : point.resting = true)
    (ran : fltUnHookVnodeVop offsets x s = .ok ((), s')) :
    (threads offsets).Alone (⟨s, .unlocked⟩, point) (⟨s', .unlocked⟩, .done (.unhooked x)) := by
  apply alone_enter (.unhook x) resting
  unfold fltUnHookVnodeVop at ran
  simp only [Call.enter]
  split_ifs at ran ⊢
  · cases ran; exact .refl
  · cases ran; exact .refl
  · exact alone_unhookDiskVnode ran

theorem alone_savedVnodeOp {existing : EntryPtr} {indx : FltVopEnum} {func : VopFunc}
    (ran : savedVnodeOp existing indx s = .ok (func, s')) :
    (threads offsets).Alone (⟨s, lock⟩, .getRead x indx existing)
      (⟨s', lock⟩, .done (.original x indx func)) := by
  obtain ⟨original, read, reading, rest⟩ := of_bind_ok ran
  obtain ⟨_, released, releasing, rest⟩ := of_bind_ok rest
  cases rest
  exact alone_perform .run reading rfl (alone_perform .run releasing rfl .refl)

/-- **`FltGetOriginalVnodeOp`** made by a thread alone. -/
theorem alone_getOriginal {indx : FltVopEnum} {func : VopFunc} {point : Pc}
    (resting : point.resting = true) (ran : fltGetOriginalVnodeOp offsets x indx s = .ok (func, s')) :
    (threads offsets).Alone (⟨s, .unlocked⟩, point) (⟨s', .unlocked⟩, .done (.original x indx func)) := by
  apply alone_enter (.getOriginal x indx) resting
  obtain ⟨found, middle, retrieved, rest⟩ := of_bind_ok ran
  apply alone_perform .run retrieved rfl
  cases found with
  | some existing => exact alone_savedVnodeOp rest
  | none =>
    obtain ⟨again, later, retrievedAgain, rest⟩ := of_bind_ok rest
    cases again with
    | some existing =>
      exact alone_perform .run (bind_ok retrievedAgain) rfl (alone_savedVnodeOp rest)
    | none =>
      exact alone_perform .run (bind_ok retrievedAgain |>.trans (bind_ok rest)) rfl .refl

/-- A call run to completion. -/
def complete (offsets : List FltVnodeOpvOffsetDesc) (supply : Supply) : Call → FilterM Result
  | .hook vnode => do pure (.hooked vnode (← fltHookVnodeVop offsets supply vnode))
  | .unhook vnode => do
    fltUnHookVnodeVop offsets vnode
    pure (.unhooked vnode)
  | .getOriginal vnode indx =>
    do pure (.original vnode indx (← fltGetOriginalVnodeOp offsets vnode indx))

/-- **Completed calls are runs**: in every configuration with a free lock a
resting thread can make a call and be done with it before any other thread moves. -/
theorem complete_reaches {T : Type} [DecidableEq T] {c : Config Shared Pc T} {t : T} {supply : Supply}
    {call : Call} {result : Result} (free : c.shared.lock = .unlocked)
    (resting : (c.pc t).resting = true)
    (ran : complete offsets supply call c.shared.filter = .ok (result, s')) :
    Reaches (threads offsets) anyStep c ⟨⟨s', .unlocked⟩, Function.update c.pc t (.done result)⟩ := by
  suffices (threads offsets).Alone (c.shared, c.pc t) (⟨s', .unlocked⟩, .done result) from this.reaches
  have shared : c.shared = ⟨c.shared.filter, .unlocked⟩ := by rw [← free]
  rw [shared]
  cases call with
  | hook vnode =>
    obtain ⟨answer, _, called, rest⟩ := of_bind_ok ran
    cases rest
    exact alone_hook resting called
  | unhook vnode =>
    obtain ⟨_, _, called, rest⟩ := of_bind_ok ran
    cases rest
    exact alone_unhook resting called
  | getOriginal vnode indx =>
    obtain ⟨func, _, called, rest⟩ := of_bind_ok ran
    cases rest
    exact alone_getOriginal resting called

end FsdFilter.CallsAlone
