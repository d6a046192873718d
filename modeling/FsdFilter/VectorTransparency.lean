import FsdFilter.ThreadProtection
import FsdFilter.VectorCounts

/-! What the file systems' vectors hold while any number of threads hook,
unhook and look up. Every thread asserts at its program point what its call has
established; a vector that no thread is working on is settled: it is registered
and hooked, or untouched. -/
namespace FsdFilter.VectorTransparency
open VnodeOps SlotPatch HookRegistry HookCalls HookCallProofs VectorCounts Interleaving
open ReaderWriterLock HookThreads ThreadSteps ThreadAccounting ThreadProtection

/-- The vector a thread is in the middle of hooking or unhooking. -/
def changing : Pc → Option VopVector
  | .hookIncrementNew x _ | .hookSlots x _ _ | .unhookSlots x _ _ => some x.vOp
  | _ => none

/-- An entry that has saved nothing yet. -/
def Blank (s : FilterState) (p : EntryPtr) : Prop :=
  ∃ entry, s.heap p = some entry ∧ entry.origVop = fun _ => .null

/-- An entry with all functions that the vector's hooks replace. -/
def Saves (vectors : Vectors) (s : FilterState) (v : VopVector) (p : EntryPtr) : Prop :=
  ∃ entry, s.heap p = some entry ∧ entry.origVop = vectors.savedVop v

/-- A vector that no thread is working on. -/
structure Settled (vectors : Vectors) (s : FilterState) (v : VopVector) : Prop where
  registered : ∀ e, s.registry.lookup v = some e → s.mem v = vectors.hookedSlots v ∧ Saves vectors s v e
  unregistered : s.registry.lookup v = none → s.mem v = vectors.original v

/-- What a thread knows at its program point. -/
def Assertion (vectors : Vectors) (s : FilterState) : Pc → Prop
  | .hookLookup x | .hookNewEntry x => x.isDiskRelated = true
  | .hookLockExclusive x p | .hookRecheck x p | .hookAddEntry x p => x.isDiskRelated = true ∧ Blank s p
  | .hookIncrementNew x p => x.isDiskRelated = true ∧ Blank s p ∧ s.mem x.vOp = vectors.original x.vOp
  | .hookSlots x p rest => x.isDiskRelated = true ∧ ∃ done, gFltVnodeVopHookEntries = done ++ rest ∧
      s.mem x.vOp = patched (patchesOf vectors.table done) (vectors.original x.vOp) ∧
      ∃ entry, s.heap p = some entry ∧
        entry.origVop = saved .null (patchesOf vectors.table done) (vectors.original x.vOp)
  | .unhookSlots x r rest => (∃ done, gFltVnodeVopHookEntries = done ++ rest) ∧
      s.registry.lookup x.vOp = none ∧
      s.mem x.vOp = patched (patchesOf vectors.table rest) (vectors.original x.vOp) ∧
      Saves vectors s x.vOp r
  | .getRead x _ e => Saves vectors s x.vOp e
  | .getRelease x indx _ func => func = vectors.savedVop x.vOp indx
  | .done (.original x indx func) =>
      ∀ patch ∈ vectors.patches, patch.index = indx → func = vectors.original x.vOp patch.addr
  | _ => True

variable {vectors : Vectors} {offsets : List FltVnodeOpvOffsetDesc} {s s' : Shared} {a : Act}
  {pc pc' : Pc}

/-! ### What a step does not change -/

private theorem setEntry_saved {s : FilterState} {q e : EntryPtr} {found : Option FltVnodeHookEntry}
    {entry entry' : FltVnodeHookEntry} (live : s.heap e = some entry)
    (live' : (s.setEntry q found).heap e = some entry')
    (same : ∀ old new, s.heap q = some old → found = some new → new.origVop = old.origVop) :
    entry'.origVop = entry.origVop := by
  obtain ⟨rfl, left⟩ | ⟨_, rfl⟩ := FilterState.setEntry_cases live live'
  · exact same entry entry' live left
  · rfl

private theorem released_saved {old new : FltVnodeHookEntry} (left : old.released = some new) :
    new.origVop = old.origVop := by
  unfold FltVnodeHookEntry.released at left
  split_ifs at left
  cases left
  rfl

/-- Nobody but its creator changes what an entry has saved. -/
theorem step_keepsSaved {e : EntryPtr} {entry entry' : FltVnodeHookEntry}
    (stepped : LocalStep offsets s a pc s' pc') (live : s.filter.heap e = some entry)
    (live' : s'.filter.heap e = some entry') (foreign : ∀ v, publishing pc ≠ some (v, e)) :
    entry'.origVop = entry.origVop := by
  cases stepped with
  | hookLookupFound _ _ found | unhookLookupFound _ _ found | getLookupFound _ _ found
  | getLookupAgainFound _ _ found | hookAddEntry _ found | hookIncrement found
  | hookIncrementExisting found | hookIncrementNew found | unhookDecrementMore found
  | unhookDecrementLast found =>
    refine setEntry_saved live live' fun old new was left => ?_
    have same := Option.some.inj (found.symm.trans was)
    subst same
    cases left
    rfl
  | hookReleaseExisting found | hookReleaseNew found | unhookReleaseFast found
  | unhookRelease found | getRelease found | unhookRemoveFound found | unhookRemoveMissed found =>
    refine setEntry_saved live live' fun old new was left => ?_
    have same := Option.some.inj (found.symm.trans was)
    subst same
    exact released_saved left
  | hookNewEntry free =>
    refine setEntry_saved live live' fun old new was _ => ?_
    rw [free] at was
    cases was
  | @hookSlotNotHooked x p | @hookSlotInstalled x p =>
    have other : p ≠ e := fun same => foreign x.vOp (same ▸ rfl)
    have kept := (FilterState.setEntry_heap_ne other).symm.trans live'
    rw [live] at kept
    cases kept
    rfl
  | _ =>
    have same := live.symm.trans live'
    cases same
    rfl

theorem step_keepsSaves {v : VopVector} {e : EntryPtr} (stepped : LocalStep offsets s a pc s' pc')
    (saves : Saves vectors s.filter v e) (live' : ∃ entry, s'.filter.heap e = some entry)
    (foreign : ∀ v, publishing pc ≠ some (v, e)) : Saves vectors s'.filter v e := by
  obtain ⟨entry, live, same⟩ := saves
  obtain ⟨entry', live'⟩ := live'
  exact ⟨entry', live', (step_keepsSaved stepped live live' foreign).trans same⟩

/-- A step changes only the vector it works on. -/
theorem step_keepsVector {v : VopVector} (stepped : LocalStep offsets s a pc s' pc')
    (before : changing pc ≠ some v) (after : changing pc' ≠ some v) :
    s'.filter.mem v = s.filter.mem v ∧ s'.filter.registry.lookup v = s.filter.registry.lookup v := by
  cases stepped with
  | @hookAddEntry x =>
    have other : v ≠ x.vOp := fun same => after (same ▸ rfl)
    exact ⟨rfl, AList.lookup_insert_ne other⟩
  | @hookSlotInstalled x =>
    have other : v ≠ x.vOp := fun same => before (same ▸ rfl)
    exact ⟨Function.update_of_ne other .., rfl⟩
  | @unhookRemoveFound x =>
    have other : v ≠ x.vOp := fun same => after (same ▸ rfl)
    exact ⟨rfl, AList.lookup_erase_ne other⟩
  | @unhookRemoveMissed x p entry live absent =>
    rw [FilterState.unregister_absent (s := s.filter.setEntry p entry.released) absent]
    exact ⟨rfl, rfl⟩
  | @unhookSlotRestored x =>
    have other : v ≠ x.vOp := fun same => before (same ▸ rfl)
    exact ⟨Function.update_of_ne other .., rfl⟩
  | _ => exact ⟨rfl, rfl⟩

/-! ### What a thread's own step establishes -/

/-- A blank entry stays blank while it is counted or retained. -/
theorem blank_setEntry {s : FilterState} {p : EntryPtr} {entry entry' : FltVnodeHookEntry}
    (blank : Blank s p) (live : s.heap p = some entry) (same : entry'.origVop = entry.origVop) :
    Blank (s.setEntry p (some entry')) p := by
  obtain ⟨old, was, empty⟩ := blank
  rw [live] at was
  cases was
  exact ⟨entry', by simp, same.trans empty⟩

/-- The next round of the hooking loop. -/
theorem assertion_hookSlots {x : Vnode} {p : EntryPtr} {desc : VnodeopvEntryDesc HookRoutine}
    {rest : List (VnodeopvEntryDesc HookRoutine)}
    (stepped : LocalStep vectors.table s a (.hookSlots x p (desc :: rest)) s' pc')
    (asserted : Assertion vectors s.filter (.hookSlots x p (desc :: rest))) :
    Assertion vectors s'.filter pc' := by
  obtain ⟨eligible, done, table, slots, entry, live, saves⟩ := asserted
  have table' : gFltVnodeVopHookEntries = (done ++ [desc]) ++ rest := by simpa using table
  cases stepped with
  | enter called resting => cases resting
  | hookSlotSkipped skipped =>
    have same : patchesOf vectors.table (done ++ [desc]) = patchesOf vectors.table done := by
      rw [patchesOf_append, patchesOf_cons_none skipped, patchesOf_nil, List.append_nil]
    exact ⟨eligible, done ++ [desc], table', same ▸ slots, entry, live, same ▸ saves⟩
  | hookSlotNotHooked device =>
    rw [eligible] at device
    cases device
  | @hookSlotInstalled _ _ _ _ slot found installed live' =>
    rw [live] at live'
    cases live'
    have split : patchesOf vectors.table (done ++ [desc]) =
        patchesOf vectors.table done ++ [⟨slot.offset, slot.indx, .hook desc.opveImpl⟩] := by
      rw [patchesOf_append, patchesOf_cons_some installed, patchesOf_nil]
    have sep : Separate (patchesOf vectors.table done ++
        ⟨slot.offset, slot.indx, .hook desc.opveImpl⟩ :: patchesOf vectors.table rest) := by
      have whole := vectors.separate
      rw [Vectors.patches, hookPatches, table, patchesOf_append, patchesOf_cons_some installed] at whole
      exact whole
    refine ⟨eligible, done ++ [desc], table', ?_,
      entry.setOriginalVop slot.indx (s.filter.mem x.vOp slot.offset), ?_, ?_⟩
    · rw [split, ← patched_concat sep, ← slots]
      exact Function.update_self ..
    · exact FilterState.setEntry_heap_self ..
    · rw [split, ← saved_concat sep, ← saves, ← slots]
      rfl

/-- The next round of the restoring loop. -/
theorem assertion_unhookSlots {x : Vnode} {r : EntryPtr} {desc : VnodeopvEntryDesc HookRoutine}
    {rest : List (VnodeopvEntryDesc HookRoutine)}
    (stepped : LocalStep vectors.table s a (.unhookSlots x r (desc :: rest)) s' pc')
    (asserted : Assertion vectors s.filter (.unhookSlots x r (desc :: rest))) :
    Assertion vectors s'.filter pc' := by
  obtain ⟨⟨done, table⟩, absent, slots, entry, live, saves⟩ := asserted
  have table' : gFltVnodeVopHookEntries = (done ++ [desc]) ++ rest := by simpa using table
  have kept : ∀ {slot}, hookSlot vectors.table desc.opveOp = some slot →
      entry.origVop slot.indx = vectors.original x.vOp slot.offset ∧
        vectors.original x.vOp slot.offset ≠ .vopNotHooked := by
    intro slot found
    have member : (⟨slot.offset, slot.indx, .hook desc.opveImpl⟩ : Patch _ _ _) ∈ vectors.patches := by
      rw [Vectors.patches, hookPatches, table, patchesOf_append, patchesOf_cons_some found]
      simp
    rw [saves]
    exact ⟨vectors.savedVop_at member x.vOp, vectors.restorable x.vOp _ member⟩
  cases stepped with
  | enter called resting => cases resting
  | unhookSlotSkipped skipped =>
    rw [patchesOf_cons_none skipped] at slots
    exact ⟨⟨done ++ [desc], table'⟩, absent, slots, entry, live, saves⟩
  | unhookSlotNotHooked found live' notHooked =>
    rw [live] at live'
    cases live'
    obtain ⟨restored, restorable⟩ := kept found
    exact absurd (restored.symm.trans notHooked) restorable
  | @unhookSlotRestored _ _ _ _ slot _ found live' =>
    rw [live] at live'
    cases live'
    have sep : Separate (⟨slot.offset, slot.indx, .hook desc.opveImpl⟩ :: patchesOf vectors.table rest) := by
      have whole := vectors.separate
      rw [Vectors.patches, hookPatches, table, patchesOf_append, patchesOf_cons_some found] at whole
      exact whole.suffix
    refine ⟨⟨done ++ [desc], table'⟩, absent, ?_, entry, live, saves⟩
    rw [(kept found).1]
    apply (Function.update_self ..).trans
    rw [slots, patchesOf_cons_some found]
    exact patched_restore sep

/-- What a step of a thread establishes at its next program point. The vector of
a lookup or a lock holder that has not begun to change it is settled. -/
theorem step_asserts (stepped : LocalStep vectors.table s a pc s' pc')
    (asserted : Assertion vectors s.filter pc)
    (settled : ∀ v, changing pc = none → (pc.mode = .exclusive ∨ s.lock.writer = false) →
      Settled vectors s.filter v)
    (heldLive : ∀ e, held pc' = some e → ∃ entry, s'.filter.heap e = some entry) :
    Assertion vectors s'.filter pc' := by
  cases stepped with
  | enter called resting entered =>
    cases entered with
    | hook eligible => exact eligible
    | _ => trivial
  | hookLookupMissed => exact asserted
  | hookNewEntry => exact ⟨asserted, .init, FilterState.setEntry_heap_self .., rfl⟩
  | hookLockExclusive => exact asserted
  | hookRecheckMissed => exact asserted
  | @hookAddEntry x p entry absent live =>
    obtain ⟨eligible, blank⟩ := asserted
    have untouched := (settled x.vOp rfl (.inl rfl)).unregistered absent
    exact ⟨eligible, blank_setEntry (s := s.filter.register x.vOp p) blank live rfl, untouched⟩
  | @hookIncrementNew x p entry live =>
    obtain ⟨eligible, ⟨old, was, empty⟩, untouched⟩ := asserted
    rw [live] at was
    cases was
    exact ⟨eligible, [], rfl, untouched, entry.incremented, FilterState.setEntry_heap_self .., empty⟩
  | hookSlotSkipped skipped => exact assertion_hookSlots (.hookSlotSkipped (a := a) skipped) asserted
  | hookSlotNotHooked device live =>
    exact assertion_hookSlots (.hookSlotNotHooked (a := a) device live) asserted
  | hookSlotInstalled found live =>
    exact assertion_hookSlots (.hookSlotInstalled (a := a) found live) asserted
  | @unhookRemoveFound x e removed entry live found =>
    obtain ⟨hooked, saves⟩ := (settled x.vOp rfl (.inl rfl)).registered removed found
    have removal : LocalStep vectors.table s a (.unhookRemove x e) _ _ := .unhookRemoveFound live found
    exact ⟨⟨[], rfl⟩, AList.lookup_erase .., hooked,
      step_keepsSaves removal saves (heldLive removed rfl) nofun⟩
  | unhookSlotSkipped skipped =>
    exact assertion_unhookSlots (.unhookSlotSkipped (a := a) skipped) asserted
  | unhookSlotNotHooked found live notHooked =>
    exact assertion_unhookSlots (.unhookSlotNotHooked (a := a) found live notHooked) asserted
  | unhookSlotRestored found live =>
    exact assertion_unhookSlots (.unhookSlotRestored (a := a) found live) asserted
  | @getLookupFound x indx e entry lock' taken found live
  | @getLookupAgainFound x indx e entry lock' taken found live =>
    obtain ⟨_, saved, was, saves⟩ :=
      (settled x.vOp rfl (.inr (RwLock.writer_of_lockRead taken))).registered e found
    rw [live] at was
    cases was
    exact ⟨entry.retained, FilterState.setEntry_heap_self .., saves⟩
  | @getCurrent x indx func lock' taken absent read =>
    have untouched := (settled x.vOp rfl (.inr (RwLock.writer_of_lockRead taken))).unregistered absent
    rintro patch member rfl
    rw [Vectors.table, currentVnodeOp_run member] at read
    cases read
    rw [untouched]
  | @getRead x indx e entry live =>
    obtain ⟨saved, was, saves⟩ := asserted
    rw [live] at was
    cases was
    exact congrFun saves indx
  | @getRelease x indx e func entry live =>
    rintro patch member rfl
    exact Eq.trans asserted (vectors.savedVop_at member x.vOp)
  | _ => trivial

/-- A vector is settled when the loop over it is through. -/
theorem step_settles {v : VopVector} (stepped : LocalStep vectors.table s a pc s' pc')
    (asserted : Assertion vectors s.filter pc)
    (published : ∀ v p, publishing pc = some (v, p) → s.filter.registry.lookup v = some p)
    (before : changing pc = some v) (after : changing pc' ≠ some v) : Settled vectors s'.filter v := by
  cases stepped with
  | enter called resting entered =>
    cases pc with
    | idle | done => cases before
    | _ => cases resting
  | hookIncrementNew | hookSlotSkipped | hookSlotNotHooked | hookSlotInstalled | unhookSlotSkipped
  | unhookSlotNotHooked | unhookSlotRestored => exact absurd before after
  | @hookSlotsDone x p =>
    cases before
    obtain ⟨_, done, table, slots, entry, live, saves⟩ := asserted
    rw [List.append_nil] at table
    subst table
    have registered := published x.vOp p rfl
    constructor
    · intro e found
      obtain rfl : p = e := Option.some.inj (registered.symm.trans found)
      exact ⟨slots, entry, live, saves⟩
    · intro absent
      rw [registered] at absent
      cases absent
  | unhookSlotsDone =>
    cases before
    obtain ⟨_, absent, slots, _⟩ := asserted
    constructor
    · intro e found
      rw [absent] at found
      cases found
    · exact fun _ => slots
  | _ => cases before

/-! ### Every run -/

variable {T : Type} [Fintype T]

/-- Every vector that no thread works on is settled, and every thread's
assertion holds. -/
structure Transparent (vectors : Vectors) (s : Shared) (pc : T → Pc) : Prop where
  safe : Protected s pc
  settled : ∀ v, (∀ t, changing (pc t) ≠ some v) → Settled vectors s.filter v
  asserted : ∀ t, Assertion vectors s.filter (pc t)

theorem changing_exclusive {v : VopVector} (working : changing pc = some v) : pc.mode = .exclusive := by
  cases pc with
  | hookIncrementNew | hookSlots | unhookSlots => rfl
  | _ => cases working

theorem transparent_start (vectors : Vectors) :
    Transparent vectors (start (T := T) vectors.original).shared (start (T := T) vectors.original).pc :=
  ⟨protected_start vectors.original, fun _ _ => ⟨nofun, fun _ => rfl⟩, fun _ => trivial⟩

variable [DecidableEq T] {pc : T → Pc} {point : Pc} {t u : T}

/-- Before a thread changes a vector, and while nobody writes, all vectors are settled. -/
theorem Transparent.settled_for (transparent : Transparent vectors s pc) (v : VopVector)
    (idle : changing (pc t) = none) (locked : (pc t).mode = .exclusive ∨ s.lock.writer = false) :
    Settled vectors s.filter v := by
  apply transparent.settled v
  intro u working
  have exclusive := changing_exclusive working
  rcases locked with mine | unwritten
  · by_cases self : u = t
    · rw [self, idle] at working
      cases working
    · rw [transparent.safe.inStep.alone mine self] at exclusive
      cases exclusive
  · exact transparent.safe.inStep.free_of_unheld unwritten exclusive

/-- Another thread's step leaves a thread's assertion standing. -/
theorem Transparent.others_kept (transparent : Transparent vectors s pc)
    (stepped : LocalStep vectors.table s a (pc t) s' point)
    (safe' : Protected s' (Function.update pc t point)) (other : t ≠ u) :
    Assertion vectors s'.filter (pc u) := by
  have asserted := transparent.asserted u
  have safe := transparent.safe
  have stays : Function.update pc t point u = pc u := Function.update_of_ne (Ne.symm other) ..
  have foreign : ∀ {e}, held (pc u) = some e → ∀ w, publishing (pc t) ≠ some (w, e) :=
    fun has _ made => safe.published_alone made (Ne.symm other) has
  have live' : ∀ {e}, held (pc u) = some e → ∃ entry, s'.filter.heap e = some entry :=
    fun has => safe'.held_live (t := u) (by rw [stays]; exact has)
  have blank : ∀ {p}, creating (pc u) = some p → Blank s.filter p → Blank s'.filter p := by
    rintro p made ⟨entry, live, empty⟩
    exact ⟨entry, (safe.fresh_kept stepped made other).trans live, empty⟩
  cases at_ : pc u with
  | hookLockExclusive | hookRecheck | hookAddEntry =>
    rw [at_] at asserted
    exact ⟨asserted.1, blank (by rw [at_]; rfl) asserted.2⟩
  | hookIncrementNew x p =>
    rw [at_] at asserted
    obtain ⟨eligible, ⟨entry, live, empty⟩, untouched⟩ := asserted
    have kept := safe.published_kept (v := x.vOp) (p := p) stepped (by rw [at_]; rfl) other
    have quiet := safe.quiet stepped (u := u) (by rw [at_]; nofun) other
    exact ⟨eligible, ⟨entry, kept.trans live, empty⟩, by rw [quiet.2]; exact untouched⟩
  | hookSlots x p rest =>
    rw [at_] at asserted
    obtain ⟨eligible, done, table, slots, entry, live, saves⟩ := asserted
    have kept := safe.published_kept (v := x.vOp) (p := p) stepped (by rw [at_]; rfl) other
    have quiet := safe.quiet stepped (u := u) (by rw [at_]; nofun) other
    exact ⟨eligible, done, table, by rw [quiet.2]; exact slots, entry, kept.trans live, saves⟩
  | unhookSlots x r rest =>
    rw [at_] at asserted foreign live'
    obtain ⟨rounds, absent, slots, saves⟩ := asserted
    have quiet := safe.quiet stepped (u := u) (by rw [at_]; nofun) other
    exact ⟨rounds, by rw [quiet.1]; exact absent, by rw [quiet.2]; exact slots,
      step_keepsSaves stepped saves (live' rfl) (foreign rfl)⟩
  | getRead x indx e =>
    rw [at_] at asserted foreign live'
    exact step_keepsSaves stepped asserted (live' rfl) (foreign rfl)
  | done result =>
    rw [at_] at asserted
    cases result <;> exact asserted
  | _ => rw [at_] at asserted; exact asserted

/-- A vector that nobody works on afterwards is settled. -/
theorem Transparent.settled_after (transparent : Transparent vectors s pc)
    (stepped : LocalStep vectors.table s a (pc t) s' point)
    (safe' : Protected s' (Function.update pc t point)) {v : VopVector}
    (after : ∀ u, changing (Function.update pc t point u) ≠ some v) :
    Settled vectors s'.filter v := by
  have safe := transparent.safe
  have afterOwn : changing point ≠ some v := by simpa using after t
  by_cases before : changing (pc t) = some v
  · exact step_settles stepped (transparent.asserted t) (fun w p made => (safe.published t w p made).2)
      before afterOwn
  · have settled := transparent.settled v fun u => by
      by_cases self : u = t
      · rw [self]; exact before
      · simpa [self] using after u
    obtain ⟨slots, registry⟩ := step_keepsVector stepped before afterOwn
    constructor
    · intro e found'
      have found := registry ▸ found'
      obtain ⟨hooked, saves⟩ := settled.registered e found
      refine ⟨slots.trans hooked, step_keepsSaves stepped saves (safe'.registered_live found') ?_⟩
      intro w made
      have owner := owner_of_single (safe.single e) (safe.published t w e made).2 found
      subst owner
      cases at_ : pc t with
      | hookIncrementNew | hookSlots => rw [at_] at made before; cases made; exact before rfl
      | _ => rw [at_] at made; cases made
    · intro absent'
      exact slots.trans (settled.unregistered (registry ▸ absent'))

/-- What one thread's step leaves transparent. -/
theorem Transparent.stepped (transparent : Transparent vectors s pc)
    (stepped : LocalStep vectors.table s a (pc t) s' point) :
    Transparent vectors s' (Function.update pc t point) := by
  have safe' := transparent.safe.stepped stepped
  refine ⟨safe', fun v => transparent.settled_after stepped safe', fun u => ?_⟩
  by_cases self : u = t
  · subst self
    rw [Function.update_self]
    exact step_asserts stepped (transparent.asserted u) (fun v => transparent.settled_for v)
      fun e has => safe'.held_live (t := u) (by rw [Function.update_self]; exact has)
  · rw [Function.update_of_ne self]
    exact transparent.others_kept stepped safe' (Ne.symm self)

/-- Every reachable configuration is transparent. -/
theorem transparent_of_reaches {ok : Guard Shared Pc T Act} {c : Config Shared Pc T}
    (reached : Reaches (threads vectors.table) ok (start vectors.original) c) :
    Transparent vectors c.shared c.pc := by
  refine reached.invariant (fun c => Transparent vectors c.shared c.pc)
    (transparent_start vectors) ?_
  intro c t a c' transparent _ moved
  obtain ⟨point, stepped, points⟩ := localStep_of_advance moved
  rw [points]
  exact transparent.stepped stepped

/-! ### The result -/

/-- Hooking is transparent: outside the exclusive sections a registered vector
holds its hooks and its entry the functions they replaced, any other vector is as
the file system left it; every lookup has found the file system's function; and
no slot ever holds anything else than that function or its own hook. -/
structure HooksTransparent (vectors : Vectors) (c : Config Shared Pc T) : Prop where
  registered : (∀ t, (c.pc t).mode ≠ .exclusive) →
    ∀ v e, c.shared.filter.registry.lookup v = some e →
    (∀ patch ∈ vectors.patches, c.shared.filter.mem v patch.addr = patch.value) ∧
      ∃ entry, c.shared.filter.heap e = some entry ∧
        ∀ patch ∈ vectors.patches, entry.origVop patch.index = vectors.original v patch.addr
  unregistered : (∀ t, (c.pc t).mode ≠ .exclusive) → ∀ v, c.shared.filter.registry.lookup v = none →
    c.shared.filter.mem v = vectors.original v
  lookups : ∀ t x indx func, c.pc t = .done (.original x indx func) →
    ∀ patch ∈ vectors.patches, patch.index = indx → func = vectors.original x.vOp patch.addr
  slots : ∀ v offset, c.shared.filter.mem v offset = vectors.original v offset ∨
    ∃ patch ∈ vectors.patches, patch.addr = offset ∧ c.shared.filter.mem v offset = patch.value

private theorem patched_some {vOp : VopVector} {slots : VmOffset → VopFunc}
    {table : List (VnodeopvEntryDesc HookRoutine)} (done rest : List (VnodeopvEntryDesc HookRoutine))
    (whole : gFltVnodeVopHookEntries = done ++ table ++ rest)
    (same : slots = patched (patchesOf vectors.table table) (vectors.original vOp))
    (offset : VmOffset) :
    slots offset = vectors.original vOp offset ∨
      ∃ patch ∈ vectors.patches, patch.addr = offset ∧ slots offset = patch.value := by
  rw [same]
  apply (patched_cases _ _ offset).imp_right
  rintro ⟨patch, member, at_, holds⟩
  refine ⟨patch, ?_, at_, holds⟩
  rw [Vectors.patches, hookPatches, whole, patchesOf_append, patchesOf_append]
  simp [member]

omit [DecidableEq T] in
theorem Transparent.slots (transparent : Transparent vectors s pc) (v : VopVector) (offset : VmOffset) :
    s.filter.mem v offset = vectors.original v offset ∨
      ∃ patch ∈ vectors.patches, patch.addr = offset ∧ s.filter.mem v offset = patch.value := by
  by_cases working : ∃ t, changing (pc t) = some v
  · obtain ⟨t, working⟩ := working
    have asserted := transparent.asserted t
    cases at_ : pc t with
    | hookIncrementNew x p =>
      rw [at_] at asserted working
      cases working
      exact .inl (congrFun asserted.2.2 offset)
    | hookSlots x p rest =>
      rw [at_] at asserted working
      cases working
      obtain ⟨_, done, table, slots, _⟩ := asserted
      exact patched_some [] rest table slots offset
    | unhookSlots x r rest =>
      rw [at_] at asserted working
      cases working
      obtain ⟨⟨done, table⟩, _, slots, _⟩ := asserted
      exact patched_some done [] (by rw [List.append_nil]; exact table) slots offset
    | _ => rw [at_] at working; cases working
  · have settled := transparent.settled v fun t working' => working ⟨t, working'⟩
    cases found : s.filter.registry.lookup v with
    | none => exact .inl (congrFun (settled.unregistered found) offset)
    | some e => exact patched_some [] [] rfl (settled.registered e found).1 offset

/-- **Transparency of hooking**, in every run of any number of threads. -/
theorem hooks_transparent (vectors : Vectors) {c : Config Shared Pc T}
    (reached : Reaches (threads vectors.table) anyStep (start vectors.original) c) :
    HooksTransparent vectors c := by
  have transparent := transparent_of_reaches reached
  have settled : (∀ t, (c.pc t).mode ≠ .exclusive) → ∀ v, Settled vectors c.shared.filter v :=
    fun nobody v => transparent.settled v fun t working => nobody t (changing_exclusive working)
  refine ⟨?_, fun nobody v => (settled nobody v).unregistered, ?_, transparent.slots⟩
  · intro nobody v e found
    obtain ⟨hooked, entry, live, saves⟩ := (settled nobody v).registered e found
    refine ⟨fun patch member => ?_, entry, live, fun patch member => ?_⟩
    · rw [hooked]
      exact vectors.hookedSlots_at member v
    · rw [saves]
      exact vectors.savedVop_at member v
  · intro t x indx func finished
    have asserted := transparent.asserted t
    rw [finished] at asserted
    exact asserted

/-- One thread hooks a vector, the other one then looks a function up. -/
def hookThenLookup : List (Fin 2 × Act) :=
  takes thread0 ([.call (.hook ⟨64, .vreg, false⟩), .run, .allocate (.within 4), .run, .run, .insert true] ++
    List.replicate 16 .run) ++
  takes thread1 [.call (.getOriginal ⟨64, .vreg, false⟩ .read), .run, .run, .run]

theorem hooks_transparent_hook_lookup :
    ∃ c : Config Shared Pc (Fin 2),
      Reaches (threads (Vectors.ofFileSystems .consecutive fun _ _ => 1).table) anyStep
        (start (Vectors.ofFileSystems .consecutive fun _ _ => 1).original) c ∧
      c.pc 1 = .done (.original ⟨64, .vreg, false⟩ .read (.fsd 1)) ∧
      c.shared.filter.mem 64 (OpvOffsets.consecutive.offset .vnopRead) = .hook .fltVnopReadHook ∧
      HooksTransparent (.ofFileSystems .consecutive fun _ _ => 1) c := by
  obtain ⟨c, reached, ends⟩ := exists_reached_of_replay
    (threads (Vectors.ofFileSystems .consecutive fun _ _ => 1).table) anyStep
    (start (Vectors.ofFileSystems .consecutive fun _ _ => 1).original) hookThenLookup
    (fun c => c.pc 1 = .done (.original ⟨64, .vreg, false⟩ .read (.fsd 1)) ∧
      c.shared.filter.mem 64 (OpvOffsets.consecutive.offset .vnopRead) = .hook .fltVnopReadHook)
    (by decide +kernel)
  obtain ⟨finished, hooked⟩ := of_decide_eq_true ends
  exact ⟨c, reached, finished, hooked, hooks_transparent _ reached⟩

end FsdFilter.VectorTransparency
