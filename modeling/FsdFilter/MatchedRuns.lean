import FsdFilter.MatchedCalls

/-! The invariant of matched runs: a registered entry counts exactly what is due
on its vector, an unregistered vector has nothing due, and an entry that counts
nothing is about to be removed by somebody. It holds as long as a thread removes
no other entry than the one it tested. -/
namespace FsdFilter.MatchedRuns
open VnodeOps HookRegistry HookCalls VectorCounts Interleaving ReaderWriterLock HookThreads
open ThreadSteps ThreadAccounting ThreadProtection VectorTransparency WrappingCounter MatchedCalls

variable {T : Type} [Fintype T]

/-- `RemoveEntry` finds nothing or the entry whose counter was tested. -/
def removesTested (s : FilterState) : Pc → Bool
  | .unhookRemove x e => s.registry.lookup x.vOp = none ∨ s.registry.lookup x.vOp = some e
  | _ => true

/-- The steps that keep the tested entry: no other one is removed, and no counter
is incremented to 2^32. -/
def keepsTested : Guard (Shared × Outstanding) Pc T Act := fun c t _ =>
  removesTested c.shared.1.filter (c.pc t) = true ∧
    ∀ target ∈ increments (c.pc t), due c.shared.2 c.pc target.1 + 1 < 2 ^ 32

instance (c : Config (Shared × Outstanding) Pc T) (t : T) (a : Act) : Decidable (keepsTested c t a) :=
  inferInstanceAs (Decidable (_ ∧ _))

/-- What the counters of matched runs show. -/
structure Counted (vectors : Vectors) (s : Shared) (outstanding : Outstanding)
    (pc : T → Pc) : Prop where
  transparent : Transparent vectors s pc
  counted : ∀ v e entry, s.filter.registry.lookup v = some e → s.filter.heap e = some entry →
    entry.vNodeCounter = count (due outstanding pc v)
  missing : ∀ v, s.filter.registry.lookup v = none → due outstanding pc v = 0
  incremented : ∀ t v e, increments (pc t) = some (v, e) → s.filter.registry.lookup v = some e
  decremented : ∀ t v e, decrements (pc t) = some (v, e) → s.filter.registry.lookup v = some e
  fits : ∀ v, due outstanding pc v < 2 ^ 32
  drained : ∀ t x e, pc t = .unhookRemove x e → s.filter.registry.lookup x.vOp = some e →
    due outstanding pc x.vOp = 0
  unused : ∀ t p, creating (pc t) = some p → ∃ entry, s.filter.heap p = some entry ∧
    entry.vNodeCounter = 0
  first : ∀ t v p, publishing (pc t) = some (v, p) → due outstanding pc v = inFlight v (pc t)
  pending : ∀ v e, s.filter.registry.lookup v = some e → due outstanding pc v = 0 →
    ∃ t, removes (pc t) = some (v, e)

theorem counted_start (vectors : Vectors) :
    Counted vectors (matchedStart (T := T) vectors.original).shared.1
      (matchedStart (T := T) vectors.original).shared.2 (matchedStart (T := T) vectors.original).pc := by
  have nothing : ∀ v, due (T := T) (matchedStart (T := T) vectors.original).shared.2
      (matchedStart (T := T) vectors.original).pc v = 0 := by
    intro v
    have nobody : tally (inFlight v) (matchedStart (T := T) vectors.original).pc = 0 :=
      tally_eq_zero fun _ => rfl
    rw [due, nobody]
    rfl
  exact ⟨transparent_start vectors, nofun, fun v _ => nothing v, nofun, nofun,
    fun v => by rw [nothing]; decide, nofun, nofun, nofun, nofun⟩

variable {vectors : Vectors} {s s' : Shared} {outstanding outstanding' : Outstanding} {pc : T → Pc}
  {point : Pc} {a : Act} {t u : T} {v : VopVector} {e : EntryPtr}

theorem inFlight_of_flying {pc : Pc} (flies : flying pc = some v) : inFlight v pc = 1 := by
  simp [inFlight, at_, flies]

/-- Whatever is under way on a vector is due. -/
theorem due_of_flying (flies : flying (pc t) = some v) : 0 < due outstanding pc v := by
  have counted := le_tally (inFlight v) pc t
  rw [inFlight_of_flying flies] at counted
  unfold due
  omega

theorem flying_of_decrements {pc : Pc} (taken : decrements pc = some (v, e)) : flying pc = some v := by
  cases pc with
  | unhookDecrement => cases taken; rfl
  | _ => cases taken

theorem increments_locked {pc : Pc} (counts : increments pc = some (v, e)) : pc.mode ≠ .free := by
  cases pc with
  | hookIncrement | hookIncrementExisting | hookIncrementNew => nofun
  | _ => cases counts

/-- Whatever is under way on a vector keeps it registered. -/
theorem Counted.flying_registered (inv : Counted vectors s outstanding pc)
    (flies : flying (pc t) = some v) :
    s.filter.registry.lookup v ≠ none := by
  intro absent
  have positive : 0 < due outstanding pc v := due_of_flying flies
  rw [inv.missing v absent] at positive
  exact Nat.lt_irrefl 0 positive

/-! ### What a thread's own step shows -/

section Own
variable {offsets : List FltVnodeOpvOffsetDesc} {pc pc' : Pc} {p : EntryPtr}

theorem step_increments (stepped : LocalStep offsets s a pc s' pc')
    (counts : increments pc' = some (v, e)) :
    s'.filter.registry.lookup v = some e := by
  cases stepped with
  | enter called resting entered => cases entered <;> cases counts
  | hookLookupFound _ found | hookRecheckFound found => cases counts; exact found
  | hookAddEntry => cases counts; exact AList.lookup_insert ..
  | _ => cases counts

theorem step_decrements (stepped : LocalStep offsets s a pc s' pc')
    (takes : decrements pc' = some (v, e)) :
    s'.filter.registry.lookup v = some e := by
  cases stepped with
  | enter called resting entered => cases entered <;> cases takes
  | unhookLookupFound _ found => cases takes; exact found
  | _ => cases takes

theorem step_tested {x : Vnode} (stepped : LocalStep offsets s a pc s' (.unhookRemove x e)) :
    pc = .unhookTest x e ∧ s' = s ∧ ∃ entry, s.filter.heap e = some entry ∧
      entry.vNodeCounter = 0 := by
  cases stepped with
  | enter called resting entered => cases entered
  | unhookTestZero live zero => exact ⟨rfl, rfl, _, live, zero⟩

theorem step_unused (stepped : LocalStep offsets s a pc s' pc')
    (unused : ∀ p, creating pc = some p → ∃ entry, s.filter.heap p = some entry ∧ entry.vNodeCounter = 0)
    (made : creating pc' = some p) :
    ∃ entry, s'.filter.heap p = some entry ∧ entry.vNodeCounter = 0 := by
  cases stepped with
  | enter called resting entered => cases entered <;> cases made
  | hookNewEntry => cases made; exact ⟨.init, FilterState.setEntry_heap_self .., rfl⟩
  | hookLockExclusive | hookRecheckFound | hookRecheckMissed => exact unused p made
  | _ => cases made

/-- How an entry comes to be filled in: registered, then counted, then slot by slot. -/
theorem step_publishes (stepped : LocalStep offsets s a pc s' pc')
    (made : publishing pc' = some (v, p)) :
    (decrements pc = none ∧ increments pc = none ∧ s.filter.registry.lookup v = none ∧ inFlight v pc' = 0) ∨
      (increments pc = some (v, p) ∧ publishing pc = some (v, p) ∧ inFlight v pc = 0 ∧ inFlight v pc' = 1) ∨
      (decrements pc = none ∧ increments pc = none ∧ publishing pc = some (v, p) ∧
        inFlight v pc' = inFlight v pc) := by
  cases stepped with
  | enter called resting entered => cases entered <;> cases made
  | hookAddEntry absent => cases made; exact .inl ⟨rfl, rfl, absent, rfl⟩
  | hookIncrementNew => cases made; exact .inr (.inl ⟨rfl, rfl, rfl, inFlight_of_flying rfl⟩)
  | hookSlotSkipped | hookSlotNotHooked | hookSlotInstalled => exact .inr (.inr ⟨rfl, rfl, made, rfl⟩)
  | _ => cases made

/-- A thread gives up removing an entry only when it counts something, or the
entry is gone, or it has just been counted. -/
theorem step_removes (stepped : LocalStep offsets s a pc s' pc') (has : removes pc = some (v, e)) :
    removes pc' = some (v, e) ∨ (∃ entry, s.filter.heap e = some entry ∧ entry.vNodeCounter ≠ 0) ∨
      s'.filter.registry.lookup v = none ∨ increments pc = some (v, e) := by
  cases stepped with
  | enter called resting entered =>
    cases pc with
    | idle | done => cases has
    | _ => cases resting
  | unhookLockExclusive | unhookTestZero => exact .inl has
  | unhookTestCounted live counted => cases has; exact .inr (.inl ⟨_, live, counted⟩)
  | unhookRemoveFound | unhookRemoveMissed =>
    cases has
    exact .inr (.inr (.inl (AList.lookup_erase ..)))
  | hookIncrementNew => exact .inr (.inr (.inr has))
  | _ => cases has

/-- The thread that takes the last count back goes on to remove the entry. -/
theorem step_last (stepped : LocalStep offsets s a pc s' pc') (takes : decrements pc = some (v, e))
    {entry : FltVnodeHookEntry} (live : s.filter.heap e = some entry) (last : entry.vNodeCounter = 1) :
    removes pc' = some (v, e) := by
  cases stepped with
  | enter called resting entered =>
    cases pc with
    | idle | done => cases takes
    | _ => cases resting
  | unhookDecrementMore live' more =>
    cases takes
    obtain rfl := Option.some.inj (live.symm.trans live')
    exact absurd last more
  | unhookDecrementLast => cases takes; rfl
  | _ => cases takes

/-- Only a registration makes an entry appear for a vector. -/
theorem step_registers (stepped : LocalStep offsets s a pc s' pc')
    (found' : s'.filter.registry.lookup v = some e) :
    s.filter.registry.lookup v = some e ∨ removes pc' = some (v, e) := by
  rcases stepped.registry_cases with same | ⟨x, p, _, atNew, _, inserted⟩ | ⟨x, q, removed, _,
    _, _, erased⟩
  · rw [same] at found'
    exact .inl found'
  · by_cases here : v = x.vOp
    · subst here
      rw [inserted, AList.lookup_insert] at found'
      cases found'
      exact .inr (by rw [atNew]; rfl)
    · rw [inserted, AList.lookup_insert_ne here] at found'
      exact .inl found'
  · by_cases here : v = x.vOp
    · rw [erased, here, AList.lookup_erase] at found'
      cases found'
    · rw [erased, AList.lookup_erase_ne here] at found'
      exact .inl found'

end Own

/-! ### What all threads' counts show -/

variable [DecidableEq T]

/-- What is due after a step. -/
theorem Counted.due_stepped (inv : Counted vectors s outstanding pc)
    (stepped : LocalStep vectors.table s a (pc t) s' point)
    (seen : observe outstanding (pc t) a = some outstanding') (v : VopVector) :
    due outstanding' (Function.update pc t point) v + at_ v ((decrements (pc t)).map (·.1)) =
      due outstanding pc v + at_ v ((increments (pc t)).map (·.1)) := by
  have changed := step_due stepped seen (fun w flies => inv.flying_registered flies) v
  have moved := tally_update (inFlight v) pc t point
  unfold due
  omega

theorem decrements_of_increments {pc : Pc} {target : VopVector × EntryPtr}
    (counts : increments pc = some target) : decrements pc = none := by
  cases pc with
  | unhookDecrement => cases counts
  | _ => rfl

/-- The entry of a vector keeps counting what is due. -/
theorem Counted.counted_kept (inv : Counted vectors s outstanding pc)
    (stepped : LocalStep vectors.table s a (pc t) s' point)
    (seen : observe outstanding (pc t) a = some outstanding') {entry' : FltVnodeHookEntry}
    (found : s.filter.registry.lookup v = some e) (live' : s'.filter.heap e = some entry') :
    entry'.vNodeCounter = count (due outstanding' (Function.update pc t point) v) := by
  have safe := inv.transparent.safe
  obtain ⟨entry, live⟩ := safe.registered_live found
  have counter := step_counter stepped live live'
  have changed := inv.due_stepped stepped seen v
  rw [inv.counted v e entry found live] at counter
  -- a counter operation on the entry is one for its vector, and the other way round
  have here : ∀ {w q}, s.filter.registry.lookup w = some q → (q = e ↔ w = v) := by
    intro w q registered
    constructor
    · rintro rfl
      exact owner_of_single (safe.single q) registered found
    · rintro rfl
      exact Option.some.inj (registered.symm.trans found)
  cases counts : increments (pc t) with
  | some target =>
    obtain ⟨w, q⟩ := target
    have same := here (inv.incremented t w q counts)
    simp only [counts, decrements_of_increments counts, at_, Option.map_some, Option.map_none,
      Option.some.injEq, same, reduceCtorEq, ↓reduceIte] at counter changed
    split_ifs at counter changed with taken
    · rw [counter, ← count_succ, ← changed, Nat.add_zero]
    · rw [counter, ← Nat.add_zero (due outstanding pc v), ← changed, Nat.add_zero]
  | none =>
    cases takes : decrements (pc t) with
    | some target =>
      obtain ⟨w, q⟩ := target
      have same := here (inv.decremented t w q takes)
      simp only [counts, takes, at_, Option.map_some, Option.map_none,
        Option.some.injEq, same, reduceCtorEq, ↓reduceIte, Nat.add_zero] at counter changed
      split_ifs at counter changed with taken
      · rw [counter, ← changed, ← count_pred (Nat.succ_pos _), Nat.succ_sub_one]
      · rw [counter, ← changed, Nat.add_zero]
    | none =>
      simp only [counts, takes, at_, Option.map_none, reduceCtorEq, ↓reduceIte, Nat.add_zero]
        at counter changed
      rw [counter, changed]

/-- A step that changes the registry counts nothing. -/
theorem Counted.due_unchanged (inv : Counted vectors s outstanding pc)
    (stepped : LocalStep vectors.table s a (pc t) s' point)
    (seen : observe outstanding (pc t) a = some outstanding') (noIncrement : increments (pc t) = none)
    (noDecrement : decrements (pc t) = none) (v : VopVector) :
    due outstanding' (Function.update pc t point) v = due outstanding pc v := by
  have changed := inv.due_stepped stepped seen v
  rw [noIncrement, noDecrement] at changed
  exact changed

/-- While another thread writes, nothing more becomes due. -/
theorem Counted.due_kept_below (inv : Counted vectors s outstanding pc)
    (stepped : LocalStep vectors.table s a (pc t) s' point)
    (seen : observe outstanding (pc t) a = some outstanding') (writes : (pc u).mode = .exclusive)
    (other : t ≠ u) (v : VopVector) :
    due outstanding' (Function.update pc t point) v + at_ v ((decrements (pc t)).map (·.1)) =
      due outstanding pc v := by
  have changed := inv.due_stepped stepped seen v
  have free := inv.transparent.safe.inStep.alone writes other
  cases counts : increments (pc t) with
  | none => rw [counts] at changed; exact changed
  | some target => exact absurd free (increments_locked (v := target.1) (e := target.2) counts)

omit [DecidableEq T] in
/-- Under the condition the removed entry is the tested one, and nothing is due on it. -/
theorem Counted.removal (inv : Counted vectors s outstanding pc) {x : Vnode} {removed : EntryPtr}
    (kept : ∀ x e, pc t = .unhookRemove x e → s.filter.registry.lookup x.vOp = none ∨
      s.filter.registry.lookup x.vOp = some e) (atRemove : pc t = .unhookRemove x e)
    (found : s.filter.registry.lookup x.vOp = some removed) :
    removed = e ∧ due outstanding pc x.vOp = 0 := by
  rcases kept x e atRemove with absent | tested
  · rw [absent] at found
    cases found
  · exact ⟨Option.some.inj (found.symm.trans tested), inv.drained t x e atRemove tested⟩

section Fields
variable (inv : Counted vectors s outstanding pc)
  (stepped : LocalStep vectors.table s a (pc t) s' point)
  (seen : observe outstanding (pc t) a = some outstanding')
  (kept : ∀ x e, pc t = .unhookRemove x e → s.filter.registry.lookup x.vOp = none ∨
    s.filter.registry.lookup x.vOp = some e)
include inv stepped seen kept

omit kept in
theorem step_counted {entry' : FltVnodeHookEntry} (found' : s'.filter.registry.lookup v = some e)
    (live' : s'.filter.heap e = some entry') :
    entry'.vNodeCounter = count (due outstanding' (Function.update pc t point) v) := by
  rcases stepped.registry_cases with same | ⟨x, p, atAdd, _, absent, inserted⟩ |
    ⟨x, q, removed, atRemove, _, found, erased⟩
  · exact inv.counted_kept stepped seen (same ▸ found') live'
  · by_cases here : v = x.vOp
    · -- the new entry has not been counted yet, and nothing is due on its vector
      subst here
      rw [inserted, AList.lookup_insert] at found'
      cases found'
      obtain ⟨entry, live, zero⟩ := inv.unused t e (by rw [atAdd]; rfl)
      have counter := step_counter stepped live live'
      rw [inv.due_unchanged stepped seen (by rw [atAdd]; rfl) (by rw [atAdd]; rfl),
        inv.missing x.vOp absent, counter, atAdd, zero]
      rfl
    · rw [inserted, AList.lookup_insert_ne here] at found'
      exact inv.counted_kept stepped seen found' live'
  · have apart : v ≠ x.vOp := by
      rintro rfl
      rw [erased, AList.lookup_erase] at found'
      cases found'
    rw [erased, AList.lookup_erase_ne apart] at found'
    exact inv.counted_kept stepped seen found' live'

theorem step_missing (absent' : s'.filter.registry.lookup v = none) :
    due outstanding' (Function.update pc t point) v = 0 := by
  have still : s.filter.registry.lookup v = none →
      due outstanding' (Function.update pc t point) v = 0 := by
    intro absent
    have changed := inv.due_stepped stepped seen v
    have none : at_ v ((increments (pc t)).map (·.1)) = 0 := by
      cases counts : increments (pc t) with
      | none => rfl
      | some target =>
        obtain ⟨w, q⟩ := target
        have registered := inv.incremented t w q counts
        have apart : w ≠ v := by
          rintro rfl
          rw [absent] at registered
          cases registered
        simp [at_, apart]
    rw [inv.missing v absent] at changed
    omega
  rcases stepped.registry_cases with same | ⟨x, p, _, _, absent, inserted⟩ |
    ⟨x, q, removed, atRemove, _, found, erased⟩
  · exact still (same ▸ absent')
  · by_cases here : v = x.vOp
    · rw [inserted, here, AList.lookup_insert] at absent'
      cases absent'
    · rw [inserted, AList.lookup_insert_ne here] at absent'
      exact still absent'
  · by_cases here : v = x.vOp
    · subst here
      rw [inv.due_unchanged stepped seen (by rw [atRemove]; rfl) (by rw [atRemove]; rfl)]
      exact (inv.removal kept atRemove found).2
    · rw [erased, AList.lookup_erase_ne here] at absent'
      exact still absent'

omit seen in
/-- A thread that is about to count an entry finds it registered. -/
theorem step_located (other : t ≠ u) (found : s.filter.registry.lookup v = some e)
    (positive : (pc u).mode ≠ .free ∨ 0 < due outstanding pc v) :
    s'.filter.registry.lookup v = some e := by
  rcases stepped.registry_cases with same | ⟨x, p, _, _, absent, inserted⟩ |
    ⟨x, q, removed, atRemove, _, removedFound, erased⟩
  · rw [same]; exact found
  · have apart : v ≠ x.vOp := by
      rintro rfl
      rw [absent] at found
      cases found
    rw [inserted, AList.lookup_insert_ne apart]
    exact found
  · have apart : v ≠ x.vOp := by
      rintro rfl
      rcases positive with locked | positive
      · exact inv.transparent.safe.inStep.unwritten locked other (by rw [atRemove]; rfl)
      · rw [(inv.removal kept atRemove removedFound).2] at positive
        exact Nat.lt_irrefl 0 positive
    rw [erased, AList.lookup_erase_ne apart]
    exact found

theorem step_drained {x : Vnode} (atRemove : Function.update pc t point u = .unhookRemove x e)
    (found' : s'.filter.registry.lookup x.vOp = some e) :
    due outstanding' (Function.update pc t point) x.vOp = 0 := by
  by_cases self : u = t
  · subst self
    rw [Function.update_self] at atRemove
    subst atRemove
    obtain ⟨atTest, rfl, entry, live, zero⟩ := step_tested stepped
    rw [inv.due_unchanged stepped seen (by rw [atTest]; rfl) (by rw [atTest]; rfl)]
    rw [inv.counted x.vOp e entry found' live] at zero
    exact (count_eq_zero (inv.fits x.vOp)).mp zero
  · rw [Function.update_of_ne self] at atRemove
    have writes : (pc u).mode = .exclusive := by rw [atRemove]; rfl
    have below := inv.due_kept_below stepped seen writes (Ne.symm self) x.vOp
    have quiet := inv.transparent.safe.quiet stepped (by rw [writes]; nofun) (Ne.symm self)
    rw [quiet.1] at found'
    have zero := inv.drained u x e atRemove found'
    omega

theorem step_first {p : EntryPtr} (made : publishing (Function.update pc t point u) = some (v, p)) :
    due outstanding' (Function.update pc t point) v = inFlight v (Function.update pc t point u) := by
  by_cases self : u = t
  · subst self
    rw [Function.update_self] at made ⊢
    rcases step_publishes stepped made with ⟨noDecrement, noIncrement, absent, none⟩ |
      ⟨counts, before, none, one⟩ | ⟨noDecrement, noIncrement, before, same⟩
    · rw [inv.due_unchanged stepped seen noIncrement noDecrement, inv.missing v absent, none]
    · have changed := inv.due_stepped stepped seen v
      rw [counts, decrements_of_increments counts, inv.first u v p before, none] at changed
      simpa [at_, one] using changed
    · rw [inv.due_unchanged stepped seen noIncrement noDecrement, inv.first u v p before, same]
  · rw [Function.update_of_ne self] at made ⊢
    have below := inv.due_kept_below stepped seen (publishing_exclusive made) (Ne.symm self) v
    rw [inv.first u v p made] at below
    cases takes : decrements (pc t) with
    | none => rw [takes] at below; exact below
    | some target =>
      -- somebody else's decrement would be due as well
      obtain ⟨w, q⟩ := target
      have both := add_le_tally (inFlight v) pc (Ne.symm self)
      have first := inv.first u v p made
      rw [takes] at below
      by_cases here : w = v
      · subst here
        rw [inFlight_of_flying (flying_of_decrements takes)] at both
        unfold due at first
        omega
      · simpa [at_, here] using below

theorem step_pending (found' : s'.filter.registry.lookup v = some e)
    (zero' : due outstanding' (Function.update pc t point) v = 0) :
    ∃ u, removes (Function.update pc t point u) = some (v, e) := by
  have changed := inv.due_stepped stepped seen v
  have mine : removes point = some (v, e) → ∃ u, removes (Function.update pc t point u) = some (v, e) :=
    fun has => ⟨t, by rw [Function.update_self]; exact has⟩
  rcases step_registers stepped found' with found | has
  swap
  · exact mine has
  by_cases zero : due outstanding pc v = 0
  · obtain ⟨u, has⟩ := inv.pending v e found zero
    by_cases self : u = t
    · subst self
      rcases step_removes stepped has with still | ⟨entry, live, counts⟩ | absent | counts
      · exact mine still
      · rw [inv.counted v e entry found live, zero] at counts
        exact absurd rfl counts
      · rw [absent] at found'
        cases found'
      · rw [counts, decrements_of_increments counts] at changed
        simp [at_] at changed
        omega
    · exact ⟨u, by rw [Function.update_of_ne self]; exact has⟩
  · cases takes : decrements (pc t) with
    | none =>
      rw [takes] at changed
      simp [at_] at changed
      omega
    | some target =>
      obtain ⟨w, q⟩ := target
      have noIncrement : increments (pc t) = none := by
        cases counts : increments (pc t) with
        | none => rfl
        | some other => rw [decrements_of_increments counts] at takes; cases takes
      rw [takes, noIncrement] at changed
      have here : w = v := by
        by_contra apart
        simp [at_, apart] at changed
        omega
      subst here
      obtain rfl := Option.some.inj ((inv.decremented t w q takes).symm.trans found)
      obtain ⟨entry, live⟩ := inv.transparent.safe.registered_live found
      have one : due outstanding pc w = 1 := by simpa [at_, zero'] using changed.symm
      have last : entry.vNodeCounter = 1 := by rw [inv.counted w q entry found live, one]; rfl
      exact mine (step_last stepped takes live last)

end Fields

/-- **The step.** A step that keeps the tested entry keeps the counts. -/
theorem Counted.stepped (inv : Counted vectors s outstanding pc)
    (stepped : LocalStep vectors.table s a (pc t) s' point)
    (seen : observe outstanding (pc t) a = some outstanding')
    (admitted : keepsTested ⟨(s, outstanding), pc⟩ t a) :
    Counted vectors s' outstanding' (Function.update pc t point) := by
  obtain ⟨tested, bounded⟩ := admitted
  have kept : ∀ x e, pc t = .unhookRemove x e → s.filter.registry.lookup x.vOp = none ∨
      s.filter.registry.lookup x.vOp = some e := by
    intro x e atRemove
    simpa [removesTested, atRemove] using tested
  refine ⟨inv.transparent.stepped stepped, fun v e entry => step_counted inv stepped seen,
    fun v => step_missing inv stepped seen kept, ?_, ?_, ?_, fun u x e =>
    step_drained inv stepped seen kept,
    ?_, fun u v p => step_first inv stepped seen kept, fun v e => step_pending inv stepped seen kept⟩
  · intro u v e counts
    by_cases self : u = t
    · subst self
      rw [Function.update_self] at counts
      exact step_increments stepped counts
    · rw [Function.update_of_ne self] at counts
      exact step_located inv stepped kept (Ne.symm self) (inv.incremented u v e counts)
        (.inl (increments_locked counts))
  · intro u v e takes
    by_cases self : u = t
    · subst self
      rw [Function.update_self] at takes
      exact step_decrements stepped takes
    · rw [Function.update_of_ne self] at takes
      exact step_located inv stepped kept (Ne.symm self) (inv.decremented u v e takes)
        (.inr (due_of_flying (flying_of_decrements takes)))
  · intro v
    have changed := inv.due_stepped stepped seen v
    have fits := inv.fits v
    cases counts : increments (pc t) with
    | none => rw [counts] at changed; simp [at_] at changed; omega
    | some target =>
      obtain ⟨w, q⟩ := target
      rw [counts] at changed
      by_cases here : w = v
      · subst here
        have room : due outstanding pc w + 1 < 2 ^ 32 := bounded (w, q) counts
        simp [at_] at changed
        omega
      · simp [at_, here] at changed
        omega
  · intro u p made
    by_cases self : u = t
    · subst self
      rw [Function.update_self] at made
      exact step_unused stepped (inv.unused u) made
    · rw [Function.update_of_ne self] at made
      rw [inv.transparent.safe.fresh_kept stepped made (Ne.symm self)]
      exact inv.unused u p made

/-- Every run whose steps keep the tested entry counts what is due. -/
theorem counted_of_reaches {c : Config (Shared × Outstanding) Pc T}
    (reached : Reaches (matched vectors.table) keepsTested (matchedStart vectors.original) c) :
    Counted vectors c.shared.1 c.shared.2 c.pc := by
  refine reached.invariant (fun c => Counted vectors c.shared.1 c.shared.2 c.pc)
    (counted_start vectors) ?_
  intro c t a c' inv admitted moved
  obtain ⟨seen, inner⟩ := System.observed_advance moved
  obtain ⟨point, stepped, points⟩ := localStep_of_advance inner
  have points' : c'.pc = Function.update c.pc t point := points
  rw [points']
  exact inv.stepped stepped seen admitted

/-! ### What the counts say of a vector -/

omit [DecidableEq T]

theorem outstanding_le_due : outstanding.count v ≤ due outstanding pc v := Nat.le_add_right ..

/-- Whoever fills an entry in makes the vector's first hook. -/
theorem Counted.publishing_first (inv : Counted vectors s outstanding pc) {p : EntryPtr}
    (made : publishing (pc t) = some (v, p)) : outstanding.count v = 0 := by
  have first := inv.first t v p made
  have mine := le_tally (inFlight v) pc t
  unfold due at first
  omega

/-- A vector that is being restored has no outstanding hook. -/
theorem Counted.restoring_last (inv : Counted vectors s outstanding pc) {x : Vnode} {removed : EntryPtr}
    {rest : List (VnodeopvEntryDesc HookRoutine)} (restores : pc t = .unhookSlots x removed rest) :
    outstanding.count x.vOp = 0 := by
  have asserted := inv.transparent.asserted t
  rw [restores] at asserted
  have nothing := inv.missing x.vOp asserted.2.1
  have below : outstanding.count x.vOp ≤ due outstanding pc x.vOp := outstanding_le_due
  omega

/-- A vector with an outstanding hook is registered, and nobody works on it. -/
theorem Counted.outstanding_settled (inv : Counted vectors s outstanding pc)
    (positive : 0 < outstanding.count v) :
    s.filter.registry.lookup v ≠ none ∧ ∀ t, changing (pc t) ≠ some v := by
  refine ⟨fun absent => ?_, fun t working => ?_⟩
  · have nothing := inv.missing v absent
    have below : outstanding.count v ≤ due outstanding pc v := outstanding_le_due
    omega
  · cases at_ : pc t with
    | hookIncrementNew x p | hookSlots x p rest =>
      rw [at_] at working
      cases working
      have none := inv.publishing_first (t := t) (p := p) (by rw [at_]; rfl)
      omega
    | unhookSlots x removed rest =>
      rw [at_] at working
      cases working
      have none := inv.restoring_last at_
      omega
    | _ => rw [at_] at working; cases working

end FsdFilter.MatchedRuns
