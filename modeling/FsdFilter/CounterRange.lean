import FsdFilter.MatchedCalls

/-! The range of the vnode counters. An unhook looks an entry up and takes one
from its counter later; a hook counts an entry and looks at the counter
afterwards. A record of the run keeps the counts that stand, complete and not
taken back; what a counter ought to show are these and the ones under way, and
it does as long as every unhook has a standing count to take back. -/
namespace FsdFilter.CounterRange
open VnodeOps HookRegistry HookCalls Interleaving ReaderWriterLock HookThreads ThreadSteps
open ThreadAccounting ThreadProtection WrappingCounter MatchedCalls

/-- For every entry, the counts of completed hooks that no unhook has begun to
take back. -/
abbrev Standing : Type := EntryPtr → ℕ

/-- What a step leaves standing. A hook completes its count when it has looked at
the counter afterwards, or at once where it does not; an unhook begins with the
lookup that finds the entry. -/
def settle (s : Shared) (pc : Pc) (standing : Standing) : Standing := fun e =>
  match pc with
  -- the entry that is made here was counted by nobody
  | .hookNewEntry _ => if (s.filter.heap e).isSome then standing e else 0
  | .hookReleaseExisting _ c | .hookIncrementExisting _ _ c | .hookIncrementNew _ c =>
    standing e + one c e
  | .unhookLookup x => standing e - (s.filter.registry.lookup x.vOp).elim 0 (one · e)
  | _ => standing e

/-- The threads, with a record of what stands. -/
def recordedThreads (offsets : List FltVnodeOpvOffsetDesc) : System (Shared × Standing) Pc Act Fault :=
  (threads offsets).recorded settle

/-- Nothing is hooked and no count stands. -/
def recordedStart {T : Type} (mem : VopMemory) : Config (Shared × Standing) Pc T :=
  ⟨((start (T := T) mem).shared, fun _ => 0), fun _ => .idle⟩

/-- The entry that a thread is about to take one from, or has counted and will
look at. -/
def claimed : Pc → Option EntryPtr
  | .unhookDecrement _ e | .hookUnlockShared _ e | .hookReleaseExisting _ e => some e
  | _ => none

/-- What a program point claims of the counter of `e`. -/
def claims (e : EntryPtr) (pc : Pc) : ℕ := (claimed pc).elim 0 (one · e)

/-- The entry that an unhook finds with the next step. -/
def finds (s : FilterState) : Pc → Option EntryPtr
  | .unhookLookup x => s.registry.lookup x.vOp
  | _ => none

/-- What the counter of an entry ought to show. -/
def owed {T : Type} [Fintype T] (standing : Standing) (pc : T → Pc) (e : EntryPtr) : ℕ :=
  standing e + tally (claims e) pc

section Step
variable {offsets : List FltVnodeOpvOffsetDesc} {s s' : Shared} {a : Act} {pc pc' : Pc} {e : EntryPtr}
  {entry : FltVnodeHookEntry}

/-- What is owed on an entry changes with the counter operations. -/
theorem step_owed (standing : Standing) (stepped : LocalStep offsets s a pc s' pc')
    (live : s.filter.heap e = some entry) (stands : finds s.filter pc = some e → 0 < standing e) :
    settle s pc standing e + claims e pc' + (if (decrements pc).map (·.2) = some e then 1 else 0) =
      standing e + claims e pc + if (increments pc).map (·.2) = some e then 1 else 0 := by
  cases stepped with
  | enter called resting entered =>
    have nothing : claims e pc' = 0 := by cases entered <;> rfl
    rw [nothing]
    cases pc with
    | idle | done => rfl
    | _ => cases resting
  | @unhookLookupFound x q _ _ taken found =>
    by_cases here : q = e
    · subst here
      have positive := stands found
      simp only [settle, found, claims, claimed, increments, decrements, one, Option.elim_some,
        Option.elim_none, Option.map_none, reduceCtorEq, ↓reduceIte]
      omega
    · simp [settle, found, claims, claimed, increments, decrements, one, here]
  | unhookLookupMissed taken absent =>
    simp [settle, absent, claims, claimed, increments, decrements]
  | hookNewEntry | hookNoMemory => simp [settle, live, claims, claimed, increments, decrements]
  | hookIncrement | hookUnlockShared | hookReleaseExisting | hookIncrementExisting
  | hookIncrementNew | unhookDecrementMore | unhookDecrementLast =>
    simp [settle, claims, claimed, increments, decrements, one]
  | _ => rfl

/-- An entry that comes to life has not been counted. -/
theorem step_created (standing : Standing) (stepped : LocalStep offsets s a pc s' pc')
    (free : s.filter.heap e = none) (live : s'.filter.heap e = some entry) :
    entry.vNodeCounter = 0 ∧ settle s pc standing e = 0 ∧ claims e pc' = 0 := by
  cases stepped with
  | @hookNewEntry x p =>
    by_cases here : p = e
    · subst here
      rw [FilterState.setEntry_heap_self] at live
      cases live
      refine ⟨rfl, ?_, rfl⟩
      simp only [settle, free, Option.isSome_none, Bool.false_eq_true, ↓reduceIte]
    · rw [FilterState.setEntry_heap_ne here, free] at live
      cases live
  | hookLookupFound _ _ found | unhookLookupFound _ _ found | getLookupFound _ _ found
  | getLookupAgainFound _ _ found | hookAddEntry _ found | hookSlotNotHooked _ found
  | hookSlotInstalled _ found | hookIncrement found | hookIncrementExisting found
  | hookIncrementNew found | unhookDecrementMore found | unhookDecrementLast found
  | hookReleaseExisting found | hookReleaseNew found | unhookReleaseFast found
  | unhookRelease found | getRelease found | unhookRemoveFound found | unhookRemoveMissed found =>
    cases (FilterState.setEntry_free found free).symm.trans live
  | _ => cases free.symm.trans live

theorem claimed_held {pc : Pc} (has : claimed pc = some e) : held pc = some e := by
  cases pc with
  | unhookDecrement | hookUnlockShared | hookReleaseExisting => exact has
  | _ => cases has

theorem claims_of_decrements {pc : Pc} {v : VopVector} (taken : decrements pc = some (v, e)) :
    claims e pc = 1 := by
  cases pc with
  | unhookDecrement => cases taken; simp [claims, claimed, one]
  | _ => cases taken

/-- A thread without a call leaves the record as it is. -/
theorem settle_resting (standing : Standing) (resting : pc.resting = true) :
    settle s pc standing = standing := by
  cases pc with
  | idle | done => rfl
  | _ => cases resting

end Step

section Runs
variable {offsets : List FltVnodeOpvOffsetDesc} {T : Type} [Fintype T] {s s' : Shared} {a : Act}
  {pc : T → Pc} {point : Pc} {t : T} {e : EntryPtr} {standing : Standing}

/-- The steps whose counts are matched: an unhook finds an entry with a standing
count to take back, and no entry is counted when 2^31 - 1 counts are owed on it. -/
def withinCount : Guard (Shared × Standing) Pc T Act := fun c t _ =>
  (∀ e ∈ finds c.shared.1.filter (c.pc t), 0 < c.shared.2 e) ∧
    ∀ target ∈ increments (c.pc t), owed c.shared.2 c.pc target.2 + 1 < 2 ^ 31

instance (c : Config (Shared × Standing) Pc T) (t : T) (a : Act) : Decidable (withinCount c t a) :=
  inferInstanceAs (Decidable (_ ∧ _))

/-- Every counter shows what is owed. -/
def Shown (s : Shared) (standing : Standing) (pc : T → Pc) : Prop :=
  ∀ e entry, s.filter.heap e = some entry → entry.vNodeCounter.toInt = owed standing pc e

theorem owed_of_claims (has : claims e (pc t) = 1) : 0 < owed standing pc e := by
  have mine := le_tally (claims e) pc t
  unfold owed
  omega

variable [DecidableEq T]

/-- **The step.** A step whose counts are matched keeps every counter showing what
is owed. -/
theorem Shown.stepped (safe : Protected s pc) (shown : Shown s standing pc)
    (stepped : LocalStep offsets s a (pc t) s' point) (admitted : withinCount ⟨(s, standing), pc⟩ t a) :
    Shown s' (settle s (pc t) standing) (Function.update pc t point) := by
  intro e entry' live'
  have total := tally_update (claims e) pc t point
  cases live : s.filter.heap e with
  | none =>
    -- nobody knows an entry that does not exist yet
    obtain ⟨zero, nothing, unclaimed⟩ := step_created standing stepped live live'
    have nobody : tally (claims e) pc = 0 := tally_eq_zero fun u => by
      cases has : claimed (pc u) with
      | none => simp [claims, has]
      | some q =>
        have other : q ≠ e := by
          rintro rfl
          obtain ⟨entry, held⟩ := safe.held_live (claimed_held has)
          rw [live] at held
          cases held
        simp [claims, has, one, other]
    rw [zero, Int32.toInt_zero, owed, nothing]
    omega
  | some entry =>
    have counter := step_counter stepped live live'
    have before := shown e entry live
    obtain ⟨stands, fits⟩ := admitted
    have changed := step_owed standing stepped live (stands e)
    have after : owed (settle s (pc t) standing) (Function.update pc t point) e +
        (if (decrements (pc t)).map (·.2) = some e then 1 else 0) =
          owed standing pc e + if (increments (pc t)).map (·.2) = some e then 1 else 0 := by
      unfold owed
      omega
    by_cases counts : (increments (pc t)).map (·.2) = some e
    · obtain ⟨target, isIncrement, rfl⟩ := Option.map_eq_some_iff.mp counts
      have room : owed standing pc target.2 + 1 < 2 ^ 31 := fits target isIncrement
      have noDecrement : decrements (pc t) = none := by
        cases at_ : pc t with
        | unhookDecrement => rw [at_] at isIncrement; cases isIncrement
        | _ => rfl
      rw [if_pos counts] at counter after
      rw [noDecrement, Option.map_none, if_neg (Option.some_ne_none _).symm] at after
      rw [counter, toInt_succ (by omega)]
      omega
    rw [if_neg counts] at counter after
    by_cases takes : (decrements (pc t)).map (·.2) = some e
    · obtain ⟨target, isDecrement, rfl⟩ := Option.map_eq_some_iff.mp takes
      have positive : 0 < owed standing pc target.2 :=
        owed_of_claims (claims_of_decrements (v := target.1) isDecrement)
      rw [if_pos takes] at counter after
      rw [counter, toInt_pred (by omega)]
      omega
    rw [if_neg takes] at counter after
    rw [counter]
    omega

/-- Every run of calls whose counts are matched keeps the counters showing what is
owed. -/
theorem shown_of_reaches {mem : VopMemory} {c : Config (Shared × Standing) Pc T}
    (reached : Reaches (recordedThreads offsets) withinCount (recordedStart mem) c) :
    Shown c.shared.1 c.shared.2 c.pc := by
  have kept : Protected c.shared.1 c.pc ∧ Shown c.shared.1 c.shared.2 c.pc := by
    refine reached.invariant (fun c => Protected c.shared.1 c.pc ∧ Shown c.shared.1 c.shared.2 c.pc)
      ⟨protected_start mem, nofun⟩ ?_
    intro c t a c' ⟨safe, shown⟩ admitted moved
    obtain ⟨recorded, inner⟩ := System.recorded_advance moved
    obtain ⟨point, stepped, points⟩ := localStep_of_advance inner
    have points' : c'.pc = Function.update c.pc t point := points
    rw [recorded, points']
    exact ⟨safe.stepped stepped, shown.stepped safe stepped admitted⟩
  exact kept.2

end Runs

end FsdFilter.CounterRange
