import FsdFilter.LayoutScans

/-! What the layout inference finds is the layout when the word it takes for
`v_op` is the same in both probe vnodes and the fake operations it counts in
the vector are all different. The inference itself checks neither: it reads the
second vnode's word from the first one, and counts an operation that it meets
twice as two. -/
namespace FsdFilter.LayoutSoundness
open VnodeOps HookRegistry FakeFsd PagedMemory KeyedWrites VnodeLayout LayoutScans

variable {memory : Memory} {functions : LoadedFunctions}

/-- The probes for which the kernel creates these two vnodes. -/
def Created (services : LayoutServices) (vNode1 vNode2 : VmOffset) : Prop :=
  services.vfsFsadd = true ∧ services.vnodeCreate1 = some vNode1 ∧ services.vnodeCreate2 = some vNode2

/-- The offsets found are those of `v_op` in a vnode and of every operation in
the vector: the word at the offset is the same pointer in both vnodes, every
descriptor has the offset of a slot of that vector that holds the function
registered for its operation, and the table is what this vector alone gives. -/
structure Describes (memory : Memory) (functions : LoadedFunctions) (vNode1 vNode2 : VmOffset)
    (result : LayoutResult) (v_op : VmOffset) : Prop where
  first : memory.read (vNode1 + result.gVNodeVopOffset) = some v_op
  second : memory.read (vNode2 + result.gVNodeVopOffset) = some v_op
  complete : result.offsets.map (·.opveOp) = gFltVnodeOpvOffsetDesc.map (·.opveOp)
  known : ∀ desc ∈ result.offsets, desc.offset ≠ fltVopUnknownOffset
  registered : ∀ desc ∈ result.offsets, (∃ i < 100, desc.offset = BitVec.ofNat 64 (8 * i)) ∧
    ∃ entry ∈ gFltFakeVnodeopEntries, entry.opveOp = desc.opveOp ∧
      memory.read (v_op + desc.offset) = some (functions.address entry.opveImpl)
  own : scanVopVector memory functions v_op gFltVnodeOpvOffsetDesc = .ok (true, result.offsets)

/-- Where the search ends at a vector, the second vnode holds the same word,
and the first operations counted in the vector are all different. -/
def Unambiguous (memory : Memory) (functions : LoadedFunctions) (vNode1 vNode2 : VmOffset) : Prop :=
  ∀ n j, headerWords memory vNode1 vNode2 = some n → vNode1.toNat + 8 * n < 2 ^ 64 →
    LastVector memory functions vNode1 n j →
      vNodeWord memory vNode2 j = vNodeWord memory vNode1 j ∧
        ((recorded memory functions (vNodeWord memory vNode1 j)).map Prod.fst).Nodup

section Vector
variable {vNode1 vNode2 v_op : VmOffset} {mountLayout : IOReturn} {j : ℕ}

/-- A vector's recorded operations are all different exactly when none is missing. -/
theorem recorded_nodup_iff (vector : IsVopVector memory functions v_op) :
    ((recorded memory functions v_op).map Prod.fst).Nodup ↔
      operations ⊆ (recorded memory functions v_op).map Prod.fst := by
  apply nodup_iff_covers operations_nodup
  · intro opveOp member
    obtain ⟨found, counted, rfl⟩ := List.mem_map.mp member
    exact (registered_of_mem_vectorOperations (List.mem_of_mem_take counted)).1
  · rw [List.length_map, recorded, List.length_take, Nat.min_eq_left vector.2.2]
    decide

/-- When none is missing the table is that of this vector alone, whatever the
candidates before it left. -/
theorem describes_of_covers {earlier : List (VnodeopDesc × VmOffset)}
    (first : memory.read (slot vNode1 j) = some v_op) (second : memory.read (slot vNode2 j) = some v_op)
    (vector : IsVopVector memory functions v_op)
    (covers : operations ⊆ (recorded memory functions v_op).map Prod.fst) :
    Describes memory functions vNode1 vNode2 ⟨mountLayout, true, BitVec.ofNat 64 (8 * j),
      offsetsTable (record (fun _ => fltVopUnknownOffset)
        (earlier ++ recorded memory functions v_op))⟩ v_op := by
  have held : ∀ desc ∈ offsetsTable (record (fun _ => fltVopUnknownOffset)
      (earlier ++ recorded memory functions v_op)),
      (desc.opveOp, desc.offset) ∈ vectorOperations memory functions v_op := by
    intro desc member
    obtain ⟨known, offset⟩ := mem_offsetsTable.mp member
    obtain ⟨value, written, last⟩ := record_written (covers known)
    rw [record_append, last] at offset
    exact offset ▸ List.mem_of_mem_take written
  refine ⟨first, second, ?_, ?_, ?_, ?_⟩
  · simp [offsetsTable, operations]
  · intro desc member
    obtain ⟨-, ⟨i, -, offset⟩, -⟩ := registered_of_mem_vectorOperations (held desc member)
    exact ne_of_eq_of_ne offset (byteOffset_ne_unknown i)
  · intro desc member
    exact (registered_of_mem_vectorOperations (held desc member)).2
  · have same : offsetsTable (record (fun _ => fltVopUnknownOffset) (recorded memory functions v_op)) =
        offsetsTable (record (fun _ => fltVopUnknownOffset) (earlier ++ recorded memory functions v_op)) := by
      refine offsetsTable_inj.mpr fun opveOp known => ?_
      obtain ⟨value, -, last⟩ := record_written (covers known)
      rw [record_append, last, last]
    rw [← offsetsTable_unknown, scanVopVector_eq vector.2.1, decide_eq_true vector.2.2, same]

/-- A table that is this vector's alone and complete has every operation
recorded in this vector. -/
theorem covers_of_describes {result : LayoutResult} (vector : IsVopVector memory functions v_op)
    (described : Describes memory functions vNode1 vNode2 result v_op) :
    operations ⊆ (recorded memory functions v_op).map Prod.fst := by
  have own := described.own
  rw [← offsetsTable_unknown, scanVopVector_eq vector.2.1] at own
  have table : offsetsTable (record (fun _ => fltVopUnknownOffset) (recorded memory functions v_op)) =
      result.offsets := congrArg Prod.snd (Except.ok.inj own)
  intro opveOp known
  by_contra missing
  have unknown : record (fun _ => fltVopUnknownOffset) (recorded memory functions v_op) opveOp =
      fltVopUnknownOffset := record_untouched missing
  have member : (⟨opveOp, fltVopUnknownOffset⟩ : FltVnodeOpvOffsetDesc) ∈ result.offsets := by
    rw [← table]
    exact mem_offsetsTable.mpr ⟨known, unknown.symm⟩
  exact described.known _ member rfl

end Vector

theorem fltGetVnodeLayout_created {services : LayoutServices} {vNode1 vNode2 : VmOffset}
    (created : Created services vNode1 vNode2) :
    fltGetVnodeLayout memory functions services =
      inferLayout memory functions services.fltGetMountLayout vNode1 vNode2 := by
  obtain ⟨registered, created1, created2⟩ := created
  simp only [fltGetVnodeLayout, registered, created1, created2, if_true]

/-- The layout that `FltGetVnodeLayout` finds is the layout of the probe vnodes
and of the vector they point to, exactly for the memories in which the last
vector before the probe data is unambiguous. -/
theorem layout_sound_iff (memory : Memory) (functions : LoadedFunctions) (services : LayoutServices) :
    (∀ vNode1 vNode2 result, Created services vNode1 vNode2 →
      fltGetVnodeLayout memory functions services = .ok result → result.vNodeVopFound = true →
        ∃ v_op, Describes memory functions vNode1 vNode2 result v_op) ↔
      ∀ vNode1 vNode2, Created services vNode1 vNode2 → Unambiguous memory functions vNode1 vNode2 := by
  constructor
  · intro sound vNode1 vNode2 created n j ended noWrap last
    obtain ⟨earlier, ran⟩ := found_of_lastVector services.fltGetMountLayout ended noWrap last
    rw [← fltGetVnodeLayout_created created] at ran
    obtain ⟨v_op, described⟩ := sound vNode1 vNode2 _ created ran rfl
    have word1 : v_op = vNodeWord memory vNode1 j := Memory.word_of_read described.first
    have word2 : v_op = vNodeWord memory vNode2 j := Memory.word_of_read described.second
    refine ⟨word2.symm.trans word1, ?_⟩
    rw [recorded_nodup_iff last.2.1, ← word1]
    exact covers_of_describes (word1 ▸ last.2.1) described
  · intro unambiguous vNode1 vNode2 result created ran found
    rw [fltGetVnodeLayout_created created] at ran
    obtain ⟨n, j, earlier, ended, noWrap, last, rfl⟩ := lastVector_of_found ran found
    obtain ⟨same, nodup⟩ := unambiguous vNode1 vNode2 created n j ended noWrap last
    obtain ⟨readable1, readable2⟩ := (headerWords_readable ended).2 j (Nat.le_of_lt last.1)
    exact ⟨vNodeWord memory vNode1 j, describes_of_covers readable1 (same ▸ readable2) last.2.1
      ((recorded_nodup_iff last.2.1).mp nodup)⟩

/-- Probe vnodes whose `v_op` is their first word. Two words further the first
vnode happens to hold a second pointer to its vector, the second one does not. -/
private def strayPointer : Memory :=
  .ofWords ([(0xffffff8010000000, 0xffffff8010002000), (0xffffff8010000008, 0xffffff8010004000),
      (0xffffff8010000010, 0xffffff8010002000), (0xffffff8010000018, vData1),
      (0xffffff8010001000, 0xffffff8010002000), (0xffffff8010001008, 0xffffff8010004000),
      (0xffffff8010001010, 0), (0xffffff8010001018, vData2)] ++
    gFltFakeVnodeopEntries.mapIdx fun i entry =>
      (slot 0xffffff8010002000 i, LoadedFunctions.consecutive.address entry.opveImpl))

private def probes : LayoutServices :=
  ⟨true, some 0xffffff8010000000, some 0xffffff8010001000, .kIOReturnSuccess⟩

/-- The search takes the stray pointer, the first one it comes to. -/
private theorem stray_pointer_found :
    ∃ result, fltGetVnodeLayout strayPointer .consecutive probes = .ok result ∧
      result.vNodeVopFound = true ∧ result.gVNodeVopOffset = 16 := by
  have found : ((fltGetVnodeLayout strayPointer .consecutive probes).toOption.any fun result =>
      result.vNodeVopFound && result.gVNodeVopOffset = 16) = true := by decide +kernel
  cases ran : fltGetVnodeLayout strayPointer .consecutive probes with
  | error stop => simp [ran, Except.toOption] at found
  | ok result => exact ⟨result, rfl, by simpa [ran, Except.toOption] using found⟩

/-- The offset of the stray pointer is stored for `v_op`, although the second
vnode holds another word there. -/
theorem stray_pointer_taken :
    ¬∀ (memory : Memory) (functions : LoadedFunctions) (services : LayoutServices)
      (vNode1 vNode2 : VmOffset) (result : LayoutResult), Created services vNode1 vNode2 →
        fltGetVnodeLayout memory functions services = .ok result → result.vNodeVopFound = true →
          ∃ v_op, Describes memory functions vNode1 vNode2 result v_op := by
  intro sound
  obtain ⟨result, ran, found, offset⟩ := stray_pointer_found
  obtain ⟨v_op, described⟩ :=
    sound strayPointer .consecutive probes _ _ result ⟨rfl, rfl, rfl⟩ ran found
  have first := described.first
  rw [offset, ← described.second, offset] at first
  exact absurd first (by decide +kernel)

end FsdFilter.LayoutSoundness
