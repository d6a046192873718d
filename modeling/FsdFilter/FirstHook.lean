import FsdFilter.HookRefinement
import FsdFilter.HookTables

/-! What a first hook does to a vector, whatever functions it holds. Every
registered operation but exchange is filtered: the hooking loop skips the exchange
hook, which has no offset descriptor, in every vector and every run. -/
namespace FsdFilter.FirstHook
open VnodeOps SlotPatch HookRegistry HookCalls HookRefinement FakeFsd HookTables

/-- Where the kernel has the operations in every vector. -/
structure KernelSlots where
  slot : VnodeopDesc → VmOffset
  distinct : Function.Injective slot

/-- The offsets that the layout inference finds. -/
def KernelSlots.offsets (kernel : KernelSlots) : OpvOffsets where
  offset := kernel.slot
  distinct := operations_nodup.map kernel.distinct

/-- An operation is filtered: its hook was not skipped, the slot of the operation
holds it, and the entry of the vector has the function that was there. -/
structure Filtered (kernel : KernelSlots) (vOp : VopVector) (before after : FilterState)
    (hook : VnodeopvEntryDesc HookRoutine) : Prop where
  notSkipped : hookSlot kernel.offsets.table hook.opveOp ≠ none
  installed : after.mem vOp (kernel.slot hook.opveOp) = .hook hook.opveImpl
  saved : ∃ p entry, after.registry.lookup vOp = some p ∧ after.heap p = some entry ∧
    ∃ desc ∈ gFltVnodeVopEnumEntries, desc.opveOp = hook.opveOp ∧
      entry.getOrignalVop desc.opveImpl = before.mem vOp (kernel.slot hook.opveOp)

/-- Every registered operation is filtered, nothing else in the vector has
changed, and the tables obey the rule for hook entries. -/
structure HooksInstalled (kernel : KernelSlots) (vOp : VopVector)
    (before after : FilterState) : Prop where
  filtered : ∀ hook ∈ gFltVnodeVopHookEntries, Filtered kernel vOp before after hook
  others : ∀ offset, (∀ hook ∈ gFltVnodeVopHookEntries, kernel.slot hook.opveOp ≠ offset) →
    after.mem vOp offset = before.mem vOp offset
  counterparts : ∀ hook ∈ gFltVnodeVopHookEntries, HasCounterparts hook

variable {kernel : KernelSlots} {supply : Supply} {vnode : Vnode} {before after : FilterState}
  {answer : HookReturn}

/-- The state after a first hook that succeeded. -/
theorem hookedFirst_of_ran
    (ran : fltHookVnodeVop kernel.offsets.table supply vnode before = .ok (answer, after))
    (success : answer.rc = .kIOReturnSuccess) (eligible : vnode.isDiskRelated = true)
    (first : before.registry.lookup vnode.vOp = none) :
    ∃ p, after = hookedFirst kernel.offsets before vnode.vOp p := by
  have failed : ∀ {rc hooked}, rc ≠ .kIOReturnSuccess →
      (Except.ok (⟨rc, hooked⟩, before) : Except Fault (HookReturn × FilterState)) ≠ .ok
      (answer, after) := by
    rintro rc hooked other same
    cases same
    exact other success
  rw [fltHookVnodeVop, eligible] at ran
  by_cases unknown : fltGetVnodeOpVector vnode = fltVopUnknownOffset
  · rw [if_pos unknown] at ran
    exact absurd ran (failed (by decide))
  by_cases recycled : vnode.isRecycled = true
  · rw [if_neg unknown, if_pos recycled] at ran
    exact absurd ran (failed (by decide))
  rw [if_neg unknown, if_neg recycled, if_neg (by decide)] at ran
  cases room : supply.alloc.pick before.heap with
  | none =>
    rw [hook_noRoom_run first room] at ran
    exact absurd ran (failed (by decide))
  | some p =>
    cases allocated : supply.allocated with
    | false =>
      rw [hook_refused_run first room allocated] at ran
      exact absurd ran (failed (by decide))
    | true =>
      rw [hook_first_run first room allocated eligible] at ran
      cases ran
      exact ⟨p, rfl⟩

section Result
variable {p : EntryPtr}

/-- A hook with an offset descriptor is installed. -/
theorem filtered_of_described {hook : VnodeopvEntryDesc HookRoutine}
    (registered : hook ∈ gFltVnodeVopHookEntries) (described : hook.opveOp ∈ operations)
    (vOp : VopVector) :
    Filtered kernel vOp before (hookedFirst kernel.offsets before vOp p) hook := by
  obtain ⟨desc, known, same⟩ := exists_enumEntry registered
  have member : (⟨kernel.slot hook.opveOp, desc.opveImpl, .hook hook.opveImpl⟩ : Patch _ _ _) ∈
      hookPatches kernel.offsets.table :=
    mem_hookPatches.mpr ⟨hook, registered, desc, known, same, described, rfl⟩
  have separate := hookPatches_separate kernel.offsets
  constructor
  · rw [← same, hookSlot_table kernel.offsets known, if_pos (same ▸ described)]
    exact Option.some_ne_none _
  · rw [hookedFirst_mem]
    exact patched_at separate member
  · refine ⟨p, _, AList.lookup_insert .., Function.update_self .., desc, known, same, ?_⟩
    exact saved_at separate member

/-- A slot of no operation with a descriptor keeps its function. -/
theorem unchanged_of_other {offset : VmOffset} (vOp : VopVector)
    (other : ∀ hook ∈ gFltVnodeVopHookEntries, hook.opveOp ∈ operations →
    kernel.slot hook.opveOp ≠ offset) :
    (hookedFirst kernel.offsets before vOp p).mem vOp offset = before.mem vOp offset := by
  rw [hookedFirst_mem]
  apply patched_other
  intro patch member
  obtain ⟨hook, registered, _, _, _, described, rfl⟩ := mem_hookPatches.mp member
  exact other hook registered described

/-- Without a descriptor a hook is skipped. -/
theorem not_filtered_of_undescribed (hook : VnodeopvEntryDesc HookRoutine)
    (registered : hook ∈ gFltVnodeVopHookEntries) (undescribed : hook.opveOp ∉ operations)
    (vOp : VopVector) :
    ¬Filtered kernel vOp before after hook := by
  intro filtered
  obtain ⟨desc, known, same⟩ := exists_enumEntry registered
  apply filtered.notSkipped
  rw [← same, hookSlot_table kernel.offsets known, if_neg (same ▸ undescribed)]

end Result

/-- A first hook of any vector filters exactly the registered operations other
than exchange, and leaves all other slots alone. -/
theorem filtered_iff
    (ran : fltHookVnodeVop kernel.offsets.table supply vnode before = .ok (answer, after))
    (success : answer.rc = .kIOReturnSuccess) (eligible : vnode.isDiskRelated = true)
    (first : before.registry.lookup vnode.vOp = none) :
    (∀ hook ∈ gFltVnodeVopHookEntries, Filtered kernel vnode.vOp before after hook ↔
      hook.opveOp ≠ .vnopExchange) ∧
      ∀ offset, (∀ hook ∈ gFltVnodeVopHookEntries, hook.opveOp ≠ .vnopExchange →
      kernel.slot hook.opveOp ≠ offset) →
        after.mem vnode.vOp offset = before.mem vnode.vOp offset := by
  obtain ⟨p, rfl⟩ := hookedFirst_of_ran ran success eligible first
  constructor
  · intro hook registered
    rw [← described_iff registered]
    by_cases described : hook.opveOp ∈ operations
    · exact iff_of_true (filtered_of_described registered described vnode.vOp) described
    · exact iff_of_false (not_filtered_of_undescribed hook registered described vnode.vOp) described
  · intro offset other
    apply unchanged_of_other
    intro hook registered described
    exact other hook registered ((described_iff registered).mp described)

/-- No first hook filters all registered operations: whatever the vector, the
offsets and the memory, exchange goes past the filter. -/
theorem exchange_never_filtered (kernel : KernelSlots) (supply : Supply) (vnode : Vnode)
    (before after : FilterState) (answer : HookReturn)
    (ran : fltHookVnodeVop kernel.offsets.table supply vnode before = .ok (answer, after))
    (success : answer.rc = .kIOReturnSuccess) (eligible : vnode.isDiskRelated = true)
    (first : before.registry.lookup vnode.vOp = none) :
    ¬HooksInstalled kernel vnode.vOp before after ∧
      (∀ hook ∈ gFltVnodeVopHookEntries,
        Filtered kernel vnode.vOp before after hook ↔ hook.opveOp ≠ .vnopExchange) ∧
      (∀ hook ∈ gFltVnodeVopHookEntries, HasCounterparts hook ↔ hook.opveOp ≠ .vnopExchange) ∧
      after.mem vnode.vOp (kernel.slot .vnopExchange) =
      before.mem vnode.vOp (kernel.slot .vnopExchange) ∧
      ∀ offset, (∀ hook ∈ gFltVnodeVopHookEntries, kernel.slot hook.opveOp ≠ offset) →
        after.mem vnode.vOp offset = before.mem vnode.vOp offset := by
  obtain ⟨filtered, others⟩ := filtered_iff ran success eligible first
  have exchange : (⟨.vnopExchange, .fltVnopExchangeHook⟩ : VnodeopvEntryDesc HookRoutine) ∈
      gFltVnodeVopHookEntries := by decide
  refine ⟨fun installed => ?_, filtered, fun hook => hasCounterparts_iff, ?_, ?_⟩
  · exact (filtered _ exchange).mp (installed.filtered _ exchange) rfl
  · apply others
    intro hook _ other same
    exact other (kernel.distinct same)
  · intro offset none
    exact others offset fun hook registered _ => none hook registered

/-- Slots in the order of the operations. -/
def KernelSlots.inOrder : KernelSlots where
  slot opveOp := BitVec.ofNat 64 (8 * opveOp.ctorIdx)
  distinct := by
    refine Function.HasLeftInverse.injective ⟨fun offset => (List.find? (fun opveOp : VnodeopDesc =>
      BitVec.ofNat 64 (8 * opveOp.ctorIdx) = offset)
        (.vnopExchange :: .vnopDefault :: operations)).getD .vnopDefault,
      fun opveOp => ?_⟩
    cases opveOp <;> decide

private def oneFunction : FilterState := .initial fun _ _ => .fsd 1

private theorem oneFunction_hooked :
    ∃ after, fltHookVnodeVop KernelSlots.inOrder.offsets.table ⟨.within 4, true⟩ ⟨64, .vreg, false⟩
      oneFunction = .ok (⟨.kIOReturnSuccess, some true⟩, after) :=
  ⟨_, hook_first_run rfl rfl rfl rfl⟩

/-- After the first hook of a regular file exchange goes to the file system. -/
theorem exchange_goes_past :
    ¬∀ (kernel : KernelSlots) (supply : Supply) (vnode : Vnode) (before after : FilterState)
      (answer : HookReturn),
      fltHookVnodeVop kernel.offsets.table supply vnode before = .ok (answer, after) →
        answer.rc = .kIOReturnSuccess → vnode.isDiskRelated = true →
          before.registry.lookup vnode.vOp = none →
          HooksInstalled kernel vnode.vOp before after := by
  intro installs
  obtain ⟨after, ran⟩ := oneFunction_hooked
  have installed := installs .inOrder _ _ oneFunction after _ ran rfl rfl rfl
  exact not_filtered_of_undescribed ⟨.vnopExchange, .fltVnopExchangeHook⟩ (by decide) (by decide) 64
    (installed.filtered _ (by decide))

theorem exchange_never_filtered_one_function :
    ∃ after : FilterState, after.mem 64 (KernelSlots.inOrder.slot .vnopRead) = .hook .fltVnopReadHook ∧
      after.mem 64 (KernelSlots.inOrder.slot .vnopExchange) = .fsd 1 := by
  obtain ⟨after, ran⟩ := oneFunction_hooked
  obtain ⟨-, filtered, -, exchange, -⟩ :=
    exchange_never_filtered .inOrder _ _ oneFunction after _ ran rfl rfl rfl
  exact ⟨after, ((filtered ⟨.vnopRead, .fltVnopReadHook⟩ (by decide)).mpr (by decide)).installed, exchange⟩

end FsdFilter.FirstHook
