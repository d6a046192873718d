import FsdFilter.VectorTransparency
import FsdFilter.WrappingCounter

/-! Runs whose unhooks are matched with hooks. A ghost state keeps, for every
vector, the completed hooks whose unhook has not begun; what a counter ought to
show are these and the calls under way. -/
namespace FsdFilter.MatchedCalls
open VnodeOps HookRegistry HookCalls VectorCounts Interleaving ReaderWriterLock HookThreads
open ThreadSteps ThreadAccounting ThreadProtection VectorTransparency WrappingCounter

/-- The vectors of the completed hooks whose unhook has not begun. -/
abbrev Outstanding : Type := List VopVector

/-- The vector of a counted hook that completes with the next step. -/
def completes : Pc → Option VopVector
  | .hookReleaseExisting x _ => some x.vOp
  | .hookReleaseNew x _ .kIOReturnSuccess => some x.vOp
  | _ => none

/-- The vector of an unhook that begins with this step. -/
def begins : Pc → Act → Option VopVector
  | pc, .call (.unhook x) => if pc.resting && isUnhookable x then some x.vOp else none
  | _, _ => none

/-- An unhook begins only when there is a completed hook to match it with. -/
def observe (outstanding : Outstanding) (pc : Pc) (a : Act) : Option Outstanding :=
  match completes pc, begins pc a with
  | some v, _ => some (v :: outstanding)
  | none, some v =>
    if v ∈ outstanding then some (outstanding.erase v) else none
  | none, none => some outstanding

/-- The threads, their unhooks matched. -/
def matched (offsets : List FltVnodeOpvOffsetDesc) : System (Shared × Outstanding) Pc Act Fault :=
  (threads offsets).observed observe

/-- Nothing is hooked and nothing outstanding. -/
def matchedStart {T : Type} (mem : VopMemory) : Config (Shared × Outstanding) Pc T :=
  ⟨((start (T := T) mem).shared, []), fun _ => .idle⟩

/-- The entry that the next step increments, and the vector it is counted for. -/
def increments : Pc → Option (VopVector × EntryPtr)
  | .hookIncrement x e | .hookIncrementExisting x _ e | .hookIncrementNew x e => some (x.vOp, e)
  | _ => none

/-- The entry that the next step decrements, and the vector it is counted for. -/
def decrements : Pc → Option (VopVector × EntryPtr)
  | .unhookDecrement x e => some (x.vOp, e)
  | _ => none

/-- The vector on which a call has counted and not completed, or has begun to
take back and not yet done so. -/
def flying : Pc → Option VopVector
  | .hookUnlockShared x _ | .hookReleaseExisting x _ | .hookSlots x _ _ => some x.vOp
  | .hookUnlockExclusive x _ .kIOReturnSuccess | .hookReleaseNew x _ .kIOReturnSuccess => some x.vOp
  | .unhookLookup x | .unhookDecrement x _ => some x.vOp
  | _ => none

/-- The thread that will look whether an entry can be removed, or has just made it. -/
def removes : Pc → Option (VopVector × EntryPtr)
  | .unhookLockExclusive x e | .unhookTest x e | .unhookRemove x e | .hookIncrementNew x e =>
    some (x.vOp, e)
  | _ => none

/-- Whether an optional vector is `v`, as a number. -/
def at_ (v : VopVector) (found : Option VopVector) : ℕ := if found = some v then 1 else 0

def inFlight (v : VopVector) (pc : Pc) : ℕ := at_ v (flying pc)

/-- What the counter of a vector ought to show. -/
def due {T : Type} [Fintype T] (outstanding : Outstanding) (pc : T → Pc) (v : VopVector) : ℕ :=
  outstanding.count v + tally (inFlight v) pc

/-! ### One step -/

section Step
variable {offsets : List FltVnodeOpvOffsetDesc} {s s' : Shared} {a : Act} {pc pc' : Pc}
  {outstanding outstanding' : Outstanding}

private theorem released_counter {old new : FltVnodeHookEntry} (left : old.released = some new) :
    new.vNodeCounter = old.vNodeCounter := by
  unfold FltVnodeHookEntry.released at left
  split_ifs at left
  cases left
  rfl

/-- A counter is changed by nothing but the counter operations. -/
theorem step_counter {e : EntryPtr} {entry entry' : FltVnodeHookEntry}
    (stepped : LocalStep offsets s a pc s' pc') (live : s.filter.heap e = some entry)
    (live' : s'.filter.heap e = some entry') :
    entry'.vNodeCounter = (if (increments pc).map (·.2) = some e then entry.vNodeCounter + 1
      else if (decrements pc).map (·.2) = some e then entry.vNodeCounter - 1
        else entry.vNodeCounter) := by
  cases stepped with
  | hookLookupFound _ _ found | unhookLookupFound _ _ found | getLookupFound _ _ found
  | getLookupAgainFound _ _ found | hookAddEntry _ found | hookSlotNotHooked _ found
  | hookSlotInstalled _ found =>
    obtain ⟨rfl, left⟩ | ⟨_, rfl⟩ := FilterState.setEntry_cases live live'
    · obtain rfl := Option.some.inj (found.symm.trans live)
      cases left
      rfl
    · rfl
  | hookReleaseExisting found | hookReleaseNew found | unhookReleaseFast found
  | unhookRelease found | getRelease found | unhookRemoveFound found | unhookRemoveMissed found =>
    obtain ⟨rfl, left⟩ | ⟨_, rfl⟩ := FilterState.setEntry_cases live live'
    · obtain rfl := Option.some.inj (found.symm.trans live)
      exact released_counter left
    · rfl
  | hookIncrement found | hookIncrementExisting found | hookIncrementNew found =>
    obtain ⟨rfl, left⟩ | ⟨other, rfl⟩ := FilterState.setEntry_cases live live'
    · obtain rfl := Option.some.inj (found.symm.trans live)
      cases left
      simp [increments, FltVnodeHookEntry.incremented]
    · simp [increments, decrements, other]
  | unhookDecrementMore found | unhookDecrementLast found =>
    obtain ⟨rfl, left⟩ | ⟨other, rfl⟩ := FilterState.setEntry_cases live live'
    · obtain rfl := Option.some.inj (found.symm.trans live)
      cases left
      simp [increments, decrements, FltVnodeHookEntry.decremented]
    · simp [increments, decrements, other]
  | hookNewEntry free =>
    obtain ⟨rfl, _⟩ | ⟨_, rfl⟩ := FilterState.setEntry_cases live live'
    · rw [free] at live
      cases live
    · rfl
  | enter called resting entered =>
    obtain rfl := Option.some.inj (live.symm.trans live')
    cases pc with
    | idle | done => rfl
    | _ => cases resting
  | _ =>
    obtain rfl := Option.some.inj (live.symm.trans live')
    rfl

/-- In the middle of a call nothing outstanding changes, unless it completes. -/
theorem observe_busy (busy : pc.resting = false) (incomplete : completes pc = none) :
    observe outstanding pc a = some outstanding := by
  have still : begins pc a = none := by
    unfold begins
    split
    · simp [busy]
    · rfl
  simp only [observe, incomplete, still]

theorem observe_completes {v : VopVector} (complete : completes pc = some v) :
    observe outstanding pc a = some (v :: outstanding) := by
  simp only [observe, complete]

private theorem count_pushed (outstanding : Outstanding) (w v : VopVector) :
    (w :: outstanding).count v = outstanding.count v + at_ v (some w) := by
  simp [List.count_cons, at_]

private theorem count_erased {outstanding : Outstanding} {w : VopVector} (member : w ∈ outstanding)
    (v : VopVector) : (outstanding.erase w).count v + at_ v (some w) = outstanding.count v := by
  rw [← count_pushed]
  exact (List.perm_cons_erase member).symm.count_eq v

/-- What is due changes with the counter operations of the vector. -/
theorem step_due (stepped : LocalStep offsets s a pc s' pc')
    (seen : observe outstanding pc a = some outstanding')
    (registered : ∀ w, flying pc = some w → s.filter.registry.lookup w ≠ none) (v : VopVector) :
    outstanding'.count v + inFlight v pc' + at_ v ((decrements pc).map (·.1)) =
      outstanding.count v + inFlight v pc + at_ v ((increments pc).map (·.1)) := by
  cases stepped with
  | @enter _ _ call called resting entered =>
    subst called
    have quiet : completes pc = none ∧ inFlight v pc = 0 ∧ increments pc = none ∧
        decrements pc = none := by
      cases pc with
      | idle | done => exact ⟨rfl, rfl, rfl, rfl⟩
      | _ => cases resting
    obtain ⟨incomplete, none, noIncrement, noDecrement⟩ := quiet
    rw [noIncrement, noDecrement, none]
    cases entered with
    | @unhook x eligible known =>
      have begun : begins pc (.call (.unhook x)) = some x.vOp := by
        simp [begins, resting, isUnhookable, eligible, known]
      simp only [observe, incomplete, begun] at seen
      split_ifs at seen with member
      cases seen
      exact count_erased member v
    | @ignored x ineligible =>
      have idle : begins pc (.call (.unhook x)) = .none := by
        have out : isUnhookable x = false := by
          by_contra in_
          rw [Bool.not_eq_false, isUnhookable, Bool.and_eq_true, bne_iff_ne] at in_
          exact ineligible in_
        simp [begins, out]
      simp only [observe, incomplete, idle] at seen
      cases seen
      rfl
    | _ =>
      simp only [observe, incomplete, begins] at seen
      cases seen
      rfl
  | @hookReleaseExisting x =>
    rw [observe_completes rfl] at seen
    cases seen
    rw [count_pushed]
    rfl
  | @hookReleaseNew x p rc =>
    cases rc with
    | kIOReturnSuccess =>
      rw [observe_completes rfl] at seen
      cases seen
      rw [count_pushed]
      rfl
    | _ =>
      rw [observe_busy rfl rfl] at seen
      cases seen
      rfl
  | @hookUnlockExclusive x p rc =>
    rw [observe_busy rfl rfl] at seen
    cases seen
    cases rc <;> rfl
  | unhookLookupMissed _ absent => exact absurd absent (registered _ rfl)
  | _ =>
    rw [observe_busy rfl rfl] at seen
    cases seen
    rfl

end Step

end FsdFilter.MatchedCalls
