import FsdFilter.HookCalls

/-! What a call of the hook routines does when it runs alone: the two loops
carry a patched prefix in and a patched suffix out, and over them every call
changes only the entry count of its own vector. -/
namespace FsdFilter.HookCallProofs
open StateRuns VnodeOps SlotPatch HookRegistry HookCalls

/-! ### The loops -/

section Loops
variable {offsets : List FltVnodeOpvOffsetDesc} {vnode : Vnode} {p : EntryPtr}
  {entry : FltVnodeHookEntry} {original : VmOffset → VopFunc} {s : FilterState}
  {desc : VnodeopvEntryDesc HookRoutine} {done rest : List (VnodeopvEntryDesc HookRoutine)}

/-- The hook entries in `done` have been installed in the vector that held
`original`, and `entry` at `p` has saved what they replaced. -/
def hooking (offsets : List FltVnodeOpvOffsetDesc) (s : FilterState) (vOp : VopVector) (p : EntryPtr)
    (entry : FltVnodeHookEntry) (original : VmOffset → VopFunc)
    (done : List (VnodeopvEntryDesc HookRoutine)) : FilterState :=
  { s with
    mem := Function.update s.mem vOp (patched (patchesOf offsets done) original)
    heap := Function.update s.heap p
      (some { entry with origVop := saved .null (patchesOf offsets done) original }) }

/-- The hook entries in `rest` are still installed in the vector. -/
def unhooking (offsets : List FltVnodeOpvOffsetDesc) (s : FilterState) (vOp : VopVector)
    (original : VmOffset → VopFunc) (rest : List (VnodeopvEntryDesc HookRoutine)) : FilterState :=
  { s with mem := Function.update s.mem vOp (patched (patchesOf offsets rest) original) }

/-- One round of the hooking loop. -/
theorem hookEntry_run (eligible : vnode.isDiskRelated = true)
    (sep : Separate (patchesOf offsets (done ++ desc :: rest))) :
    hookEntry offsets vnode p desc (hooking offsets s vnode.vOp p entry original done) =
      .ok ((), hooking offsets s vnode.vOp p entry original (done ++ [desc])) := by
  unfold hookEntry
  cases found : hookSlot offsets desc.opveOp with
  | none =>
    have same : patchesOf offsets (done ++ [desc]) = patchesOf offsets done := by
      rw [patchesOf_append, patchesOf_cons_none found, patchesOf_nil, List.append_nil]
    simp only [hooking, same, pure_run]
  | some slot =>
    have split : patchesOf offsets (done ++ [desc]) =
        patchesOf offsets done ++ [⟨slot.offset, slot.indx, .hook desc.opveImpl⟩] := by
      rw [patchesOf_append, patchesOf_cons_some found, patchesOf_nil]
    rw [patchesOf_append, patchesOf_cons_some found] at sep
    have live : (hooking offsets s vnode.vOp p entry original done).heap p =
        some { entry with origVop := saved .null (patchesOf offsets done) original } := by
      simp [hooking]
    simp only
    rw [bind_ok (entryAt_run live)]
    simp only [readSlot, bind_assoc, FilterM.bind_get, FilterM.bind_pure, eligible, Bool.not_true,
      Bool.false_and, Bool.false_eq_true, ↓reduceIte, storeEntry, FilterM.bind_modify, writeSlot]
    simp only [modify, modifyGet, MonadStateOf.modifyGet, StateT.modifyGet, pure, Except.pure,
      FilterState.setEntry, FilterState.setSlot, hooking, fltGetVnodeOpVector, split,
      Function.update_self, Function.update_idem, FltVnodeHookEntry.setOriginalVop]
    rw [← patched_concat sep, ← saved_concat sep]

/-- The hooking loop installs all its entries and saves all it replaced. -/
theorem hookEntries_run (eligible : vnode.isDiskRelated = true)
    (sep : Separate (patchesOf offsets (done ++ rest))) :
    rest.forM (hookEntry offsets vnode p) (hooking offsets s vnode.vOp p entry original done) =
      .ok ((), hooking offsets s vnode.vOp p entry original (done ++ rest)) := by
  induction rest generalizing done with
  | nil => simp [pure_run]
  | cons desc rest ih =>
    rw [List.forM, bind_ok (hookEntry_run eligible sep), ih (by simpa using sep)]
    simp

/-- One round of the restoring loop. -/
theorem unhookEntry_run (live : s.heap p = some entry)
    (saves : entry.origVop = saved .null (hookPatches offsets) original)
    (sep : Separate (hookPatches offsets))
    (restorable : ∀ patch ∈ hookPatches offsets, original patch.addr ≠ .vopNotHooked)
    (table : gFltVnodeVopHookEntries = done ++ desc :: rest) :
    unhookEntry offsets vnode p desc (unhooking offsets s vnode.vOp original (desc :: rest)) =
      .ok ((), unhooking offsets s vnode.vOp original rest) := by
  unfold unhookEntry
  cases found : hookSlot offsets desc.opveOp with
  | none => simp only [unhooking, patchesOf_cons_none found, pure_run]
  | some slot =>
    have whole : hookPatches offsets = patchesOf offsets done ++
        ⟨slot.offset, slot.indx, .hook desc.opveImpl⟩ :: patchesOf offsets rest := by
      rw [hookPatches, table, patchesOf_append, patchesOf_cons_some found]
    have member : (⟨slot.offset, slot.indx, .hook desc.opveImpl⟩ : Patch _ _ _) ∈
        hookPatches offsets := by rw [whole]; simp
    have kept : entry.origVop slot.indx = original slot.offset := by
      rw [saves]; exact saved_at sep member
    have hooked : entry.isHooked slot.indx = true := by
      simpa [FltVnodeHookEntry.isHooked, kept] using restorable _ member
    simp only
    rw [bind_ok (entryAt_run (s := unhooking offsets s vnode.vOp original _) live)]
    simp only [hooked, ↓reduceIte, writeSlot, modify, modifyGet, MonadStateOf.modifyGet,
      StateT.modifyGet, pure, Except.pure, FilterState.setSlot, unhooking, fltGetVnodeOpVector,
      Function.update_self, Function.update_idem, FltVnodeHookEntry.getOrignalVop, kept,
      patchesOf_cons_some found]
    have tail : Separate (⟨slot.offset, slot.indx, .hook desc.opveImpl⟩ :: patchesOf offsets rest) :=
      (whole ▸ sep).suffix
    rw [patched_restore tail]

/-- The restoring loop takes all entries out again. -/
theorem unhookEntries_run (live : s.heap p = some entry)
    (saves : entry.origVop = saved .null (hookPatches offsets) original)
    (sep : Separate (hookPatches offsets))
    (restorable : ∀ patch ∈ hookPatches offsets, original patch.addr ≠ .vopNotHooked)
    (table : gFltVnodeVopHookEntries = done ++ rest) :
    rest.forM (unhookEntry offsets vnode p) (unhooking offsets s vnode.vOp original rest) =
      .ok ((), unhooking offsets s vnode.vOp original []) := by
  induction rest generalizing done with
  | nil => simp [pure_run]
  | cons desc rest ih =>
    rw [List.forM,
      bind_ok (unhookEntry_run live saves sep restorable table)]
    have next : gFltVnodeVopHookEntries = done ++ [desc] ++ rest := by simpa using table
    exact ih next

end Loops

/-! ### The slow lookup -/

/-- The slow path finds the slot that the hook was entered through. -/
theorem currentVnodeOp_run {offsets : OpvOffsets} {patch : Patch VmOffset FltVopEnum VopFunc}
    (member : patch ∈ hookPatches offsets.table) (vnode : Vnode) (s : FilterState) :
    currentVnodeOp offsets.table vnode patch.index s = .ok (s.mem vnode.vOp patch.addr, s) := by
  rw [hookPatches_table] at member
  simp only [List.mem_cons, List.not_mem_nil, or_false] at member
  rcases member with rfl | rfl | rfl | rfl | rfl | rfl | rfl | rfl | rfl | rfl | rfl <;> rfl

end FsdFilter.HookCallProofs
