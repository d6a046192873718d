import FsdFilter.FakeFsd

/-! The four tables of the filter against one another: which hooks the two
chained lookups reach, and which patch of a vector each of them stands for. The
exchange hook has an index but neither an offset descriptor nor a function of the
fake file system. -/
namespace FsdFilter.HookTables
open VnodeOps SlotPatch FakeFsd

variable {hook : VnodeopvEntryDesc HookRoutine} {desc : VnodeopvEntryDesc FltVopEnum}
  {opveOp : VnodeopDesc} {offsets : OpvOffsets} {patch : Patch VmOffset FltVopEnum VopFunc}

/-- What the rule at the top of `VNodeHook.cpp` demands of a hook entry. -/
structure HasCounterparts (hook : VnodeopvEntryDesc HookRoutine) : Prop where
  enum : ∃ desc ∈ gFltVnodeVopEnumEntries, desc.opveOp = hook.opveOp
  offset : ∃ desc ∈ gFltVnodeOpvOffsetDesc, desc.opveOp = hook.opveOp
  fake : ∃ desc ∈ gFltFakeVnodeopEntries, desc.opveOp = hook.opveOp

theorem exists_enumEntry (registered : hook ∈ gFltVnodeVopHookEntries) :
    ∃ desc ∈ gFltVnodeVopEnumEntries, desc.opveOp = hook.opveOp := by
  revert hook
  decide

/-- Of the hooked operations only exchange has no offset descriptor. -/
theorem described_iff (registered : hook ∈ gFltVnodeVopHookEntries) :
    hook.opveOp ∈ operations ↔ hook.opveOp ≠ .vnopExchange := by
  revert hook
  decide

/-- Every hook entry but that of the exchange operation obeys the rule. -/
theorem hasCounterparts_iff (registered : hook ∈ gFltVnodeVopHookEntries) :
    HasCounterparts hook ↔ hook.opveOp ≠ .vnopExchange := by
  have fake : hook.opveOp ∈ operations → ∃ desc ∈ gFltFakeVnodeopEntries, desc.opveOp =
      hook.opveOp := by
    revert hook
    decide
  rw [← described_iff registered]
  constructor
  · intro rule
    exact List.mem_map.mpr rule.offset
  · intro described
    exact ⟨exists_enumEntry registered, List.mem_map.mp described, fake described⟩

/-- The lookup of an operation finds the entry of its index. -/
theorem retrive_enumEntry (known : desc ∈ gFltVnodeVopEnumEntries) :
    fltRetriveVnodeOpvEntryDescByVnodeOpDesc gFltVnodeVopEnumEntries desc.opveOp = some desc := by
  revert desc
  decide

/-- So does the lookup of the index. -/
theorem retrive_enumEntry_index (known : desc ∈ gFltVnodeVopEnumEntries) :
    fltRetriveVnodeOpvEntryDescByVnodeOp gFltVnodeVopEnumEntries desc.opveImpl = some desc := by
  revert desc
  decide

/-- The descriptor of an operation in the filled table. -/
theorem retrive_table (offsets : OpvOffsets) (opveOp : VnodeopDesc) :
    fltRetriveVnodeOpvOffsetDescByVnodeOpDesc offsets.table opveOp =
      if opveOp ∈ operations then some ⟨opveOp, offsets.offset opveOp⟩ else none := by
  have filled : offsets.table = offsetsTable offsets.offset := by
    rw [OpvOffsets.table, offsetsTable, operations, List.map_map]
    rfl
  rw [filled]
  exact retrive_offsetsTable offsets.offset opveOp

/-- The two chained lookups of an operation with an index. -/
theorem hookSlot_table (offsets : OpvOffsets) (known : desc ∈ gFltVnodeVopEnumEntries) :
    hookSlot offsets.table desc.opveOp =
      if desc.opveOp ∈ operations then some ⟨offsets.offset desc.opveOp, desc.opveImpl⟩ else none := by
  rw [hookSlot, retrive_table]
  split
  · simp only [Option.bind_eq_bind, Option.bind_some, retrive_enumEntry known]
    rfl
  · rfl

/-- The patches of some hook entries are those of the ones with a descriptor. -/
theorem mem_patchesOf {done : List (VnodeopvEntryDesc HookRoutine)}
    (part : done ⊆ gFltVnodeVopHookEntries) :
    patch ∈ patchesOf offsets.table done ↔
      ∃ hook ∈ done, ∃ desc ∈ gFltVnodeVopEnumEntries, desc.opveOp = hook.opveOp ∧
        hook.opveOp ∈ operations ∧
        patch = ⟨offsets.offset hook.opveOp, desc.opveImpl, .hook hook.opveImpl⟩ := by
  rw [patchesOf, List.mem_filterMap]
  refine exists_congr fun hook => and_congr_right fun member => ?_
  obtain ⟨desc, known, same⟩ := exists_enumEntry (part member)
  have found := hookSlot_table offsets known
  rw [same] at found
  rw [hookPatch, found]
  constructor
  · intro stands
    by_cases described : hook.opveOp ∈ operations
    · rw [if_pos described] at stands
      exact ⟨desc, known, same, described, (Option.some.inj stands).symm⟩
    · rw [if_neg described] at stands
      cases stands
  · rintro ⟨other, otherKnown, otherSame, described, rfl⟩
    have unique : other = desc := by
      have first := retrive_enumEntry otherKnown
      rw [otherSame, ← same, retrive_enumEntry known] at first
      exact (Option.some.inj first).symm
    rw [if_pos described, unique]
    rfl

/-- The patches of a hooked vector. -/
theorem mem_hookPatches : patch ∈ hookPatches offsets.table ↔
    ∃ hook ∈ gFltVnodeVopHookEntries, ∃ desc ∈ gFltVnodeVopEnumEntries, desc.opveOp = hook.opveOp ∧
      hook.opveOp ∈ operations ∧
      patch = ⟨offsets.offset hook.opveOp, desc.opveImpl, .hook hook.opveImpl⟩ :=
  mem_patchesOf (List.Subset.refl _)

/-- Described operations are at different offsets. -/
theorem offset_inj {other : VnodeopDesc} (described : opveOp ∈ operations)
    (otherDescribed : other ∈ operations) (same : offsets.offset opveOp = offsets.offset other) :
    opveOp = other :=
  List.inj_on_of_nodup_map offsets.distinct described otherDescribed same

/-- No operation has two hooks. -/
theorem hook_unique {other : VnodeopvEntryDesc HookRoutine}
    (registered : hook ∈ gFltVnodeVopHookEntries)
    (otherRegistered : other ∈ gFltVnodeVopHookEntries) (same : hook.opveOp = other.opveOp) :
    hook = other := by
  revert same
  revert other
  revert hook
  decide

end FsdFilter.HookTables
