import FsdFilter.ThreadAccounting

/-! What the lock and the references protect in every run: a thread that holds
the lock finds the registry as it left it, and an entry that is being created is
nobody else's. -/
namespace FsdFilter.ThreadProtection
open VnodeOps HookRegistry Interleaving ReaderWriterLock HookThreads ThreadSteps ThreadAccounting

variable {offsets : List FltVnodeOpvOffsetDesc} {s s' : Shared} {a : Act} {pc pc' : Pc}

variable {T : Type} [Fintype T]

/-- What the lock and the references protect. -/
structure Protected (s : Shared) (pc : T → Pc) : Prop where
  inStep : InStep s.lock Pc.mode pc
  balanced : ∀ e, refCount s.filter e = tally (holds e) pc + registryRefs s.filter e
  alive : ∀ {e entry}, s.filter.heap e = some entry → 0 < entry.retainCount
  recheck : ∀ t v e, rechecked (pc t) = some (v, e) → s.filter.registry.lookup v = some e
  fresh : ∀ t p, creating (pc t) = some p → refCount s.filter p = 1
  published : ∀ t v p, publishing (pc t) = some (v, p) →
    refCount s.filter p = 2 ∧ s.filter.registry.lookup v = some p
  single : ∀ e, registryRefs s.filter e ≤ 1

variable {c c' : Config Shared Pc T} {t u : T}

theorem holds_of_held {e : EntryPtr} {pc : Pc} (has : held pc = some e) : holds e pc = 1 := by
  simp [holds, has, one]

theorem held_of_holds {e : EntryPtr} {pc : Pc} (zero : holds e pc = 0) : held pc ≠ some e := by
  intro has
  rw [holds_of_held has] at zero
  cases zero

theorem creating_held {p : EntryPtr} {pc : Pc} (made : creating pc = some p) : held pc = some p := by
  cases pc <;> first | exact made | cases made

theorem publishing_held {v : VopVector} {p : EntryPtr} {pc : Pc} (made : publishing pc = some (v, p)) :
    held pc = some p := by
  cases pc with
  | hookIncrementNew | hookSlots => cases made; rfl
  | _ => cases made

theorem publishing_exclusive {v : VopVector} {p : EntryPtr} {pc : Pc}
    (made : publishing pc = some (v, p)) : pc.mode = .exclusive := by
  cases pc with
  | hookIncrementNew | hookSlots => rfl
  | _ => cases made

theorem rechecked_exclusive {v : VopVector} {e : EntryPtr} {pc : Pc}
    (made : rechecked pc = some (v, e)) : pc.mode = .exclusive := by
  cases pc with
  | hookIncrementExisting => rfl
  | _ => cases made

theorem live_of_refCount {s : FilterState} {e : EntryPtr} (positive : 0 < refCount s e) :
    s.heap e ≠ none := by
  intro freed
  simp [refCount, freed] at positive

section Protection
variable {s : Shared} {pc : T → Pc} {e p : EntryPtr} {v : VopVector}

/-- Whatever a thread holds is live. -/
theorem Protected.held_live (safe : Protected s pc) (has : held (pc t) = some e) :
    ∃ entry, s.filter.heap e = some entry := by
  have counted := le_tally (holds e) pc t
  rw [holds_of_held has] at counted
  have balanced := safe.balanced e
  exact Option.ne_none_iff_exists'.mp (live_of_refCount (by omega))

/-- Whatever is registered is live. -/
theorem Protected.registered_live (safe : Protected s pc)
    (found : s.filter.registry.lookup v = some e) :
    ∃ entry, s.filter.heap e = some entry := by
  have counted := registryRefs_pos.mpr ⟨v, found⟩
  have balanced := safe.balanced e
  exact Option.ne_none_iff_exists'.mp (live_of_refCount (by omega))

/-- An entry being created is in no registry. -/
theorem Protected.fresh_unregistered (safe : Protected s pc) (made : creating (pc t) = some p)
    (v : VopVector) :
    s.filter.registry.lookup v ≠ some p := by
  intro found
  have counted := le_tally (holds p) pc t
  rw [holds_of_held (creating_held made)] at counted
  have registered := registryRefs_pos.mpr ⟨v, found⟩
  have balanced := safe.balanced p
  have single := safe.fresh t p made
  omega

variable [DecidableEq T]

/-- An entry being created is known to its creator only. -/
theorem Protected.fresh_alone (safe : Protected s pc) (made : creating (pc t) = some p)
    (other : u ≠ t) :
    held (pc u) ≠ some p := by
  have counted := add_le_tally (holds p) pc other
  rw [holds_of_held (creating_held made)] at counted
  have balanced := safe.balanced p
  have single := safe.fresh t p made
  exact held_of_holds (by omega)

/-- An entry being filled in is known to its creator and the registry only. -/
theorem Protected.published_alone (safe : Protected s pc) (made : publishing (pc t) = some (v, p))
    (other : u ≠ t) : held (pc u) ≠ some p := by
  have counted := add_le_tally (holds p) pc other
  rw [holds_of_held (publishing_held made)] at counted
  have balanced := safe.balanced p
  obtain ⟨double, found⟩ := safe.published t v p made
  have registered := registryRefs_pos.mpr ⟨v, found⟩
  exact held_of_holds (by omega)

end Protection

theorem protected_start (mem : VopMemory) :
    Protected (start (T := T) mem).shared (start (T := T) mem).pc := by
  refine ⟨.unlocked fun _ => rfl, ?_, nofun, nofun, nofun, nofun, fun _ => Nat.zero_le 1⟩
  intro e
  have nobody : tally (holds e) (start (T := T) mem).pc = 0 := tally_eq_zero fun _ => rfl
  rw [nobody]
  rfl

/-- What a recheck finds is what the registry has. -/
theorem step_rechecks (stepped : LocalStep offsets s a pc s' pc') {v : VopVector} {e : EntryPtr}
    (made : rechecked pc' = some (v, e)) : s'.filter.registry.lookup v = some e := by
  cases stepped with
  | enter called resting entered => cases entered <;> cases made
  | hookRecheckFound found => cases made; exact found
  | _ => cases made

/-- The creator keeps the only reference until it registers the entry. -/
theorem step_keepsFresh (stepped : LocalStep offsets s a pc s' pc')
    (fresh : ∀ p, creating pc = some p → refCount s.filter p = 1) {p : EntryPtr}
    (made : creating pc' = some p) : refCount s'.filter p = 1 := by
  cases stepped with
  | enter called resting entered => cases entered <;> cases made
  | hookNewEntry =>
    cases made
    rw [refCount_setEntry, if_pos rfl]
    rfl
  | hookLockExclusive | hookRecheckFound | hookRecheckMissed => exact fresh p made
  | _ => cases made

/-- From then on the creator and the registry have one reference each. -/
theorem step_keepsPublished (stepped : LocalStep offsets s a pc s' pc')
    (fresh : ∀ p, creating pc = some p → refCount s.filter p = 1)
    (published : ∀ v p, publishing pc = some (v, p) →
      refCount s.filter p = 2 ∧ s.filter.registry.lookup v = some p)
    {v : VopVector} {p : EntryPtr} (made : publishing pc' = some (v, p)) :
    refCount s'.filter p = 2 ∧ s'.filter.registry.lookup v = some p := by
  cases stepped with
  | enter called resting entered => cases entered <;> cases made
  | @hookAddEntry x p entry absent live =>
    cases made
    have before := fresh p rfl
    rw [refCount_of_live live] at before
    refine ⟨?_, AList.lookup_insert ..⟩
    rw [refCount_setEntry, if_pos rfl]
    exact congrArg (· + 1) before
  | hookIncrementNew live =>
    rw [refCount_incremented live]
    exact published v p made
  | @hookSlotNotHooked x q desc rest slot entry _ live =>
    rw [refCount_kept (entry.setOriginalVopAsNotHooked slot.indx) live rfl]
    exact published v p made
  | @hookSlotInstalled x q desc rest slot entry _ live =>
    rw [refCount_setSlot, refCount_kept (entry.setOriginalVop slot.indx _) live rfl]
    exact published v p made
  | hookSlotSkipped => exact published v p made
  | _ => cases made

/-- Only a new entry is registered, so none is registered twice. -/
theorem step_keepsSingle (stepped : LocalStep offsets s a pc s' pc')
    (unregistered : ∀ p, creating pc = some p → ∀ v, s.filter.registry.lookup v ≠ some p)
    (single : ∀ e, registryRefs s.filter e ≤ 1) (e : EntryPtr) : registryRefs s'.filter e ≤ 1 := by
  cases stepped with
  | @hookAddEntry x p entry absent =>
    rw [registryRefs_setEntry, registryRefs_register absent, one]
    split_ifs with here
    · subst here
      have none : registryRefs s.filter p = 0 := by
        by_contra some
        obtain ⟨v, found⟩ := registryRefs_pos.mp (Nat.pos_of_ne_zero some)
        exact unregistered p rfl v found
      omega
    · exact single e
  | @unhookRemoveFound x p removed entry live found =>
    have less := registryRefs_unregister (s := s.filter.setEntry p entry.released) found e
    have before := single e
    rw [registryRefs_setEntry] at less
    simp only
    omega
  | @unhookRemoveMissed x p entry live absent =>
    simp only [FilterState.unregister_absent (s := s.filter.setEntry p entry.released) absent]
    exact single e
  | _ => exact single e

variable [DecidableEq T]

/-- No other thread touches an entry that is being created. -/
theorem Protected.fresh_kept {pc : T → Pc} {point : Pc} {p : EntryPtr} (safe : Protected s pc)
    (stepped : LocalStep offsets s a (pc t) s' point) (made : creating (pc u) = some p)
    (other : t ≠ u) :
    s'.filter.heap p = s.filter.heap p :=
  (step_leavesAlone stepped (safe.fresh_alone made other)
    (live_of_refCount (by rw [safe.fresh u p made]; exact Nat.one_pos))
    (.inl (safe.fresh_unregistered made)) (safe.recheck t)).1

/-- No other thread touches an entry that is being filled in. -/
theorem Protected.published_kept {pc : T → Pc} {point : Pc} {v : VopVector} {p : EntryPtr}
    (safe : Protected s pc) (stepped : LocalStep offsets s a (pc t) s' point)
    (made : publishing (pc u) = some (v, p)) (other : t ≠ u) :
    s'.filter.heap p = s.filter.heap p := by
  have exclusive := publishing_exclusive made
  have written := safe.inStep.writer_of_exclusive exclusive
  exact (step_leavesAlone stepped (safe.published_alone made other)
    (live_of_refCount (by rw [(safe.published u v p made).1]; exact Nat.two_pos))
    (.inr ⟨written, safe.inStep.alone exclusive other⟩) (safe.recheck t)).1

/-- Whoever holds the lock finds the registry and the vectors unchanged. -/
theorem Protected.quiet {pc : T → Pc} {point : Pc} (safe : Protected s pc)
    (stepped : LocalStep offsets s a (pc t) s' point) (locked : (pc u).mode ≠ .free) (other : t ≠ u) :
    s'.filter.registry = s.filter.registry ∧ s'.filter.mem = s.filter.mem :=
  stepped.quiet (safe.inStep.unwritten locked other)

/-- What one thread's step leaves protected. -/
theorem Protected.stepped {pc : T → Pc} {point : Pc} (safe : Protected s pc)
    (stepped : LocalStep offsets s a (pc t) s' point) : Protected s' (Function.update pc t point) := by
  refine ⟨safe.inStep.stepped stepped.lockStep, ?_, step_keepsAlive stepped safe.alive, ?_, ?_, ?_,
    step_keepsSingle stepped (fun _ made => safe.fresh_unregistered made) safe.single⟩
  · intro e
    have conserved := step_conserves stepped safe.alive e
    have moved := tally_update (holds e) pc t point
    have balanced := safe.balanced e
    omega
  · intro u v e made
    by_cases self : u = t
    · subst self
      rw [Function.update_self] at made
      exact step_rechecks stepped made
    · rw [Function.update_of_ne self] at made
      have locked : (pc u).mode ≠ .free := by rw [rechecked_exclusive made]; nofun
      rw [(safe.quiet stepped locked (Ne.symm self)).1]
      exact safe.recheck u v e made
  · intro u p made
    by_cases self : u = t
    · subst self
      rw [Function.update_self] at made
      exact step_keepsFresh stepped (safe.fresh u) made
    · rw [Function.update_of_ne self] at made
      rw [refCount, safe.fresh_kept stepped made (Ne.symm self)]
      exact safe.fresh u p made
  · intro u v p made
    by_cases self : u = t
    · subst self
      rw [Function.update_self] at made
      exact step_keepsPublished stepped (safe.fresh u) (safe.published u) made
    · rw [Function.update_of_ne self] at made
      have locked : (pc u).mode ≠ .free := by rw [publishing_exclusive made]; nofun
      rw [refCount, safe.published_kept stepped made (Ne.symm self),
        (safe.quiet stepped locked (Ne.symm self)).1]
      exact safe.published u v p made

/-- Every reachable configuration is protected. -/
theorem protected_of_reaches {ok : Guard Shared Pc T Act} {mem : VopMemory}
    (reached : Reaches (threads offsets) ok (start mem) c) : Protected c.shared c.pc := by
  refine reached.invariant (fun c => Protected c.shared c.pc) (protected_start mem) ?_
  intro c t a c' safe _ moved
  obtain ⟨point, stepped, points⟩ := localStep_of_advance moved
  rw [points]
  exact safe.stepped stepped

end FsdFilter.ThreadProtection
