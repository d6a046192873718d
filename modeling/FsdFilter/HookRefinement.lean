import FsdFilter.VectorCounts

/-! The hook routines run alone refine the abstract registry of counts. -/
namespace FsdFilter.HookRefinement
open StateRuns VnodeOps SlotPatch HookRegistry HookCalls HookCallProofs VectorCounts

variable {vectors : Vectors} {s : FilterState} {vnode : Vnode} {p : EntryPtr}
  {entry : FltVnodeHookEntry} {supply : Supply} {table : List FltVnodeOpvOffsetDesc}

/-- Whether the call can make a first entry. -/
def serves (supply : Supply) (s : FilterState) : Bool :=
  (supply.alloc.pick s.heap).isSome && supply.allocated

private theorem setEntry_idem (s : FilterState) (p : EntryPtr)
    (first second : Option FltVnodeHookEntry) :
    (s.setEntry p first).setEntry p second = s.setEntry p second := by
  simp [FilterState.setEntry, Function.update_idem]

private theorem setEntry_self (same : s.heap p = found) : s.setEntry p found = s := by
  rw [FilterState.setEntry, ← same, Function.update_eq_self]

private theorem released_retained (entry : FltVnodeHookEntry) (alive : entry.retainCount ≠ 0) :
    entry.retained.released = some entry := by
  simp [FltVnodeHookEntry.released, FltVnodeHookEntry.retained, alive]

/-- The vector is hooked already: one more vnode is counted. -/
theorem hook_counted_run (found : s.registry.lookup vnode.vOp = some p) (live : s.heap p = some entry)
    (alive : entry.retainCount ≠ 0) :
    hookDiskVnode vectors.table supply vnode s =
      .ok (⟨.kIOReturnSuccess, some true⟩, s.setEntry p (some entry.incremented)) := by
  have back : entry.retained.incremented.released = some entry.incremented :=
    released_retained entry.incremented alive
  simp only [hookDiskVnode, fltGetVnodeOpVector_eq]
  rw [bind_ok (retrieveEntry_found found live)]
  simp only
  rw [bind_ok (incrementVnodeCounter_run (FilterState.setEntry_heap_self ..)), setEntry_idem,
    bind_ok (release_run (FilterState.setEntry_heap_self ..)), setEntry_idem, pure_run, back]

/-- No room for the object: nothing happened. -/
theorem hook_noRoom_run (absent : s.registry.lookup vnode.vOp = none)
    (full : supply.alloc.pick s.heap = none) :
    hookDiskVnode table supply vnode s = .ok (⟨.kIOReturnNoMemory, none⟩, s) := by
  have noEntry : newEntry supply.alloc s = .ok (none, s) := by simp only [newEntry, full]
  simp only [hookDiskVnode, fltGetVnodeOpVector_eq]
  rw [bind_ok (retrieveEntry_absent absent true)]
  exact bind_ok noEntry

private theorem newEntry_run (room : supply.alloc.pick s.heap = some p) :
    newEntry supply.alloc s = .ok (some p, s.setEntry p (some .init)) := by
  simp only [newEntry, room]

/-- `AddEntry` fails: the new object is released and nothing else happened. -/
theorem hook_refused_run (absent : s.registry.lookup vnode.vOp = none)
    (room : supply.alloc.pick s.heap = some p) (refused : supply.allocated = false) :
    hookDiskVnode table supply vnode s = .ok (⟨.kIOReturnNoMemory, none⟩, s) := by
  have excluded : hookExclusive table vnode p supply.allocated (s.setEntry p (some .init)) =
      .ok (.kIOReturnNoMemory, s.setEntry p (some .init)) := by
    simp only [hookExclusive, refused, fltGetVnodeOpVector_eq]
    rw [bind_ok (retrieveEntry_absent (s := s.setEntry p (some .init)) absent false)]
    simp only
    rw [bind_ok (addEntry_refused vnode.vOp p), if_neg Bool.false_ne_true, pure_run]
  have freed : FltVnodeHookEntry.init.released = none := rfl
  simp only [hookDiskVnode, fltGetVnodeOpVector_eq]
  rw [bind_ok (retrieveEntry_absent absent true)]
  simp only
  rw [bind_ok (newEntry_run room)]
  simp only
  rw [bind_ok excluded, bind_ok (release_run (FilterState.setEntry_heap_self ..)), setEntry_idem,
    pure_run, if_neg (by decide), freed, setEntry_self (supply.alloc.fresh _ _ room)]

/-- The entry of a vector as the exclusive section leaves it, still held by its
creator. -/
private def counted : FltVnodeHookEntry := ⟨1, fun _ => .null, 2⟩

/-- A vector after its first hook: whatever its slots held, they are patched and
saved in the new entry. -/
def hookedFirst (offsets : OpvOffsets) (s : FilterState) (vOp : VopVector) (new : EntryPtr) :
    FilterState where
  mem := Function.update s.mem vOp (patched (hookPatches offsets.table) (s.mem vOp))
  registry := s.registry.insert vOp new
  heap := Function.update s.heap new (some ⟨1, saved .null (hookPatches offsets.table) (s.mem vOp), 1⟩)

variable {offsets : OpvOffsets}

@[simp] theorem hookedFirst_mem (offsets : OpvOffsets) (s : FilterState) (vOp : VopVector)
    (new : EntryPtr) :
    (hookedFirst offsets s vOp new).mem vOp = patched (hookPatches offsets.table) (s.mem vOp) :=
  Function.update_self ..

/-- The exclusive section when the vector is still without an entry. -/
private theorem hookExclusive_run (absent : s.registry.lookup vnode.vOp = none)
    (live : s.heap p = some .init) (eligible : vnode.isDiskRelated = true) :
    hookExclusive offsets.table vnode p true s =
      .ok (.kIOReturnSuccess,
        hooking offsets.table (s.register vnode.vOp p) vnode.vOp p counted (s.mem vnode.vOp)
          gFltVnodeVopHookEntries) := by
  have start : (s.register vnode.vOp p).setEntry p (some counted) =
      hooking offsets.table (s.register vnode.vOp p) vnode.vOp p counted (s.mem vnode.vOp) [] := by
    ext1
    · simp [hooking, patched, FilterState.register, FilterState.setEntry]
    · rfl
    · simp [hooking, saved, FilterState.register, FilterState.setEntry, counted]
  have looped : gFltVnodeVopHookEntries.forM (hookEntry offsets.table vnode p)
      (hooking offsets.table (s.register vnode.vOp p) vnode.vOp p counted (s.mem vnode.vOp) []) =
      .ok ((), hooking offsets.table (s.register vnode.vOp p) vnode.vOp p counted (s.mem vnode.vOp)
        ([] ++ gFltVnodeVopHookEntries)) :=
    hookEntries_run eligible (hookPatches_separate offsets)
  simp only [hookExclusive, fltGetVnodeOpVector_eq]
  rw [bind_ok (retrieveEntry_absent absent false)]
  simp only
  rw [bind_ok (addEntry_added absent live), if_pos rfl,
    bind_ok (incrementVnodeCounter_run (FilterState.setEntry_heap_self ..)), setEntry_idem]
  rw [List.nil_append, ← start] at looped
  exact bind_ok looped

/-- The first known vnode of a vector, from any state: the vector is registered
and hooked. -/
theorem hook_first_run (absent : s.registry.lookup vnode.vOp = none)
    (room : supply.alloc.pick s.heap = some p) (allocated : supply.allocated = true)
    (eligible : vnode.isDiskRelated = true) :
    hookDiskVnode offsets.table supply vnode s =
      .ok (⟨.kIOReturnSuccess, some true⟩, hookedFirst offsets s vnode.vOp p) := by
  have live : (hooking offsets.table ((s.setEntry p (some .init)).register vnode.vOp p) vnode.vOp p counted
      (s.mem vnode.vOp) gFltVnodeVopHookEntries).heap p =
        some ⟨1, saved .null (hookPatches offsets.table) (s.mem vnode.vOp), 2⟩ := by
    simp [hooking, counted]
    rfl
  simp only [hookDiskVnode, fltGetVnodeOpVector_eq, allocated]
  rw [bind_ok (retrieveEntry_absent absent true)]
  simp only
  rw [bind_ok (newEntry_run room)]
  simp only
  rw [bind_ok (hookExclusive_run (s := s.setEntry p (some .init)) absent
      (FilterState.setEntry_heap_self ..) eligible)]
  change (release p >>= _)
    (hooking offsets.table ((s.setEntry p (some .init)).register vnode.vOp p) vnode.vOp p counted
      (s.mem vnode.vOp) gFltVnodeVopHookEntries) = _
  rw [bind_ok (release_run live), pure_run, if_pos rfl]
  congr 2
  ext1
  · rfl
  · rfl
  · simp [hooking, FilterState.setEntry, FilterState.register, hookedFirst, FltVnodeHookEntry.released,
      Function.update_idem]

/-- The same between two calls, where the vector was untouched. -/
theorem hook_created_run (wf : WellFormed vectors s) (absent : s.registry.lookup vnode.vOp = none)
    (room : supply.alloc.pick s.heap = some p) (allocated : supply.allocated = true)
    (eligible : vnode.isDiskRelated = true) :
    hookDiskVnode vectors.table supply vnode s =
      .ok (⟨.kIOReturnSuccess, some true⟩, registerNew vectors s vnode.vOp p) := by
  have untouched := wf.unhooked absent
  have same : hookedFirst vectors.offsets s vnode.vOp p = registerNew vectors s vnode.vOp p := by
    rw [hookedFirst, untouched]
    rfl
  rw [← same]
  exact hook_first_run absent room allocated eligible

/-- `FltHookVnodeVop` refines the abstract registry: it answers as the counts
tell, changes only the count of its vector and keeps the state well formed. -/
theorem hook_refines (wf : WellFormed vectors s) (supply : Supply) (vnode : Vnode) :
    ∃ s', fltHookVnodeVop vectors.table supply vnode s =
        .ok ((countsOf s).hookReturn (serves supply s) vnode, s') ∧
      WellFormed vectors s' ∧ countsOf s' = (countsOf s).hook (serves supply s) vnode := by
  unfold fltHookVnodeVop Counts.hookReturn Counts.hook isHookable
  by_cases unknown : vnode.vOp = fltVopUnknownOffset
  · exact ⟨s, by simp [unknown, pure_run], wf, by simp [unknown]⟩
  by_cases recycled : vnode.isRecycled = true
  · exact ⟨s, by simp [unknown, recycled, pure_run], wf, by simp [recycled]⟩
  by_cases eligible : vnode.isDiskRelated = true
  swap
  · exact ⟨s, by simp [unknown, recycled, eligible, pure_run], wf, by simp [eligible]⟩
  simp only [unknown, recycled, eligible, fltGetVnodeOpVector_eq, ↓reduceIte, Bool.false_eq_true,
    Bool.not_true, Bool.not_false, Bool.and_true, bne_iff_ne, ne_eq, not_false_eq_true]
  cases found : s.registry.lookup vnode.vOp with
  | some p =>
    obtain ⟨entry, live, references, _⟩ := wf.registered found
    obtain ⟨kept, counts⟩ := wf.recount found live (entry.vNodeCounter + 1)
    refine ⟨_, ?_, kept, ?_⟩
    · rw [hook_counted_run found live (by omega), countsOf_found found live]
      rfl
    · rw [counts, countsOf_found found live]
  | none =>
    rw [countsOf_absent found]
    unfold serves
    cases room : supply.alloc.pick s.heap with
    | none => exact ⟨s, by rw [hook_noRoom_run found room]; rfl, wf, rfl⟩
    | some p =>
      cases allocated : supply.allocated with
      | false => exact ⟨s, by rw [hook_refused_run found room allocated]; rfl, wf, rfl⟩
      | true =>
        obtain ⟨kept, counts⟩ := wf.registerNew vnode.vOp (supply.alloc.fresh _ _ room)
        exact ⟨_, by rw [hook_created_run wf found room allocated eligible]; rfl, kept, counts⟩

/-- Nothing is known of the vector: nothing happens. -/
theorem unhook_absent_run (absent : s.registry.lookup vnode.vOp = none) :
    unhookDiskVnode vectors.table vnode s = .ok ((), s) := by
  simp only [unhookDiskVnode, fltGetVnodeOpVector_eq]
  exact bind_ok (retrieveEntry_absent absent true)

/-- More vnodes of the vector are known: one less is counted. -/
theorem unhook_counted_run (found : s.registry.lookup vnode.vOp = some p)
    (live : s.heap p = some entry) (alive : entry.retainCount ≠ 0) (more : entry.vNodeCounter ≠ 1) :
    unhookDiskVnode vectors.table vnode s = .ok ((), s.setEntry p (some entry.decremented)) := by
  have back : entry.retained.decremented.released = some entry.decremented :=
    released_retained entry.decremented alive
  have fast : entry.retained.vNodeCounter ≠ 1 := more
  simp only [unhookDiskVnode, fltGetVnodeOpVector_eq]
  rw [bind_ok (retrieveEntry_found found live)]
  simp only
  rw [bind_ok (decrementVnodeCounter_run (FilterState.setEntry_heap_self ..)), setEntry_idem,
    if_pos fast, release_run (FilterState.setEntry_heap_self ..), setEntry_idem, back]

/-- The exclusive section on an entry that is registered and counts nothing. -/
private theorem unhookExclusive_run (found : s.registry.lookup vnode.vOp = some p)
    (live : s.heap p = some entry) (zero : entry.vNodeCounter = 0) (held : entry.retainCount = 2)
    (saves : entry.origVop = vectors.savedVop vnode.vOp)
    (hooked : s.mem vnode.vOp = vectors.hookedSlots vnode.vOp) :
    unhookExclusive vectors.table vnode p s =
      .ok (some p, ⟨Function.update s.mem vnode.vOp (vectors.original vnode.vOp),
        s.registry.erase vnode.vOp,
          Function.update s.heap p (some { entry with retainCount := 1 })⟩) := by
  let cleared : FilterState :=
    ⟨s.mem, s.registry.erase vnode.vOp, Function.update s.heap p (some { entry with retainCount := 1 })⟩
  have dropped : entry.released = some { entry with retainCount := 1 } := by
    simp [FltVnodeHookEntry.released, held]
  have start : unhooking vectors.table cleared vnode.vOp (vectors.original vnode.vOp)
      gFltVnodeVopHookEntries = cleared := by
    have same : Function.update cleared.mem vnode.vOp (vectors.hookedSlots vnode.vOp) =
        cleared.mem := by
      rw [← hooked, Function.update_eq_self]
    ext1
    · exact same
    · rfl
    · rfl
  have cleared_live : cleared.heap p = some { entry with retainCount := 1 } := by simp [cleared]
  have looped : gFltVnodeVopHookEntries.forM (unhookEntry vectors.table vnode p)
      (unhooking vectors.table cleared vnode.vOp (vectors.original vnode.vOp) gFltVnodeVopHookEntries) =
      .ok ((), unhooking vectors.table cleared vnode.vOp (vectors.original vnode.vOp) []) :=
    unhookEntries_run cleared_live saves vectors.separate (vectors.restorable vnode.vOp)
      (List.nil_append _).symm
  rw [start] at looped
  have removed : removeEntry vnode.vOp (s.setEntry p (some { entry with retainCount := 1 })) =
      .ok (some p, cleared) := removeEntry_found (s := s.setEntry p _) found
  have stay : ¬ entry.vNodeCounter ≠ 0 := not_not.mpr zero
  simp only [unhookExclusive, fltGetVnodeOpVector_eq]
  rw [bind_ok (getVnodeCounter_run live), if_neg stay, bind_ok (release_run live),
    dropped, bind_ok removed]
  exact bind_ok looped

/-- The last known vnode of a vector: it is unhooked and its entry freed. -/
theorem unhook_last_run (wf : WellFormed vectors s) (found : s.registry.lookup vnode.vOp = some p)
    (live : s.heap p = some entry) (last : entry.vNodeCounter = 1) :
    unhookDiskVnode vectors.table vnode s = .ok ((), removeLast vectors s vnode.vOp p) := by
  obtain ⟨_, live', held, saves⟩ := wf.registered found
  rw [live] at live'
  cases live'
  have slow : ¬ entry.retained.vNodeCounter ≠ 1 := not_not.mpr last
  have zero : entry.retained.decremented.vNodeCounter = 0 := by
    change entry.vNodeCounter - 1 = 0
    rw [last]
    rfl
  have stillFound : (s.setEntry p (some entry.retained.decremented)).registry.lookup vnode.vOp =
      some p := found
  have excluded := unhookExclusive_run stillFound (FilterState.setEntry_heap_self ..) zero
    (congrArg (· + 1) held) saves (wf.hooked found)
  simp only [unhookDiskVnode, fltGetVnodeOpVector_eq]
  rw [bind_ok (retrieveEntry_found found live)]
  simp only
  rw [bind_ok (decrementVnodeCounter_run (FilterState.setEntry_heap_self ..)), setEntry_idem,
    if_neg slow, bind_ok excluded]
  simp only
  rw [release_run (by simp; rfl)]
  simp [FilterState.setEntry, removeLast, FltVnodeHookEntry.released, Function.update_idem]

/-- `FltUnHookVnodeVop` refines the abstract registry. -/
theorem unhook_refines (wf : WellFormed vectors s) (vnode : Vnode) :
    ∃ s', fltUnHookVnodeVop vectors.table vnode s = .ok ((), s') ∧
      WellFormed vectors s' ∧ countsOf s' = (countsOf s).unhook vnode := by
  unfold fltUnHookVnodeVop Counts.unhook isUnhookable
  by_cases eligible : vnode.isDiskRelated = true
  swap
  · exact ⟨s, by simp [eligible, pure_run], wf, by simp [eligible]⟩
  by_cases unknown : vnode.vOp = fltVopUnknownOffset
  · exact ⟨s, by simp [eligible, unknown, pure_run], wf, by simp [unknown]⟩
  simp only [unknown, eligible, fltGetVnodeOpVector_eq, ↓reduceIte, Bool.false_eq_true,
    Bool.not_true, Bool.true_and, bne_iff_ne, ne_eq, not_false_eq_true]
  cases found : s.registry.lookup vnode.vOp with
  | none => exact ⟨s, unhook_absent_run found, wf, by rw [countsOf_absent found]⟩
  | some p =>
    obtain ⟨entry, live, references, _⟩ := wf.registered found
    rw [countsOf_found found live]
    by_cases last : entry.vNodeCounter = 1
    · obtain ⟨kept, counts⟩ := wf.removeLast found
      exact ⟨_, unhook_last_run wf found live last, kept, by rw [counts]; simp [last]⟩
    · obtain ⟨kept, counts⟩ := wf.recount found live (entry.vNodeCounter - 1)
      refine ⟨_, unhook_counted_run found live (by omega) last, kept, counts.trans ?_⟩
      simp [last]

/-- A lookup for a hooked operation returns the file system's own function,
whether or not the vector is hooked, and changes nothing. -/
theorem getOriginal_run (wf : WellFormed vectors s) {patch : Patch VmOffset FltVopEnum VopFunc}
    (member : patch ∈ vectors.patches) (vnode : Vnode) :
    fltGetOriginalVnodeOp vectors.table vnode patch.index s =
      .ok (vectors.original vnode.vOp patch.addr, s) := by
  unfold fltGetOriginalVnodeOp
  rw [fltGetVnodeOpVector_eq]
  cases found : s.registry.lookup vnode.vOp with
  | none =>
    have missed := retrieveEntry_absent found true
    rw [bind_ok missed]
    simp only
    rw [bind_ok missed, ← wf.unhooked found]
    exact currentVnodeOp_run member vnode s
  | some p =>
    obtain ⟨entry, live, references, saves⟩ := wf.registered found
    have back : entry.retained.released = some entry := released_retained entry (by omega)
    have original : entry.retained.origVop patch.index = vectors.original vnode.vOp patch.addr := by
      rw [show entry.retained.origVop = vectors.savedVop vnode.vOp from saves]
      exact vectors.savedVop_at member vnode.vOp
    rw [bind_ok (retrieveEntry_found found live)]
    simp only [savedVnodeOp]
    rw [bind_ok (getOrignalVop_run (FilterState.setEntry_heap_self ..) patch.index),
      bind_ok (release_run (FilterState.setEntry_heap_self ..)), setEntry_idem, back,
      setEntry_self live, original, pure_run]

end FsdFilter.HookRefinement
