import FsdFilter.LayoutSoundness

/-! The layout inference finds the layouts it was written for: `v_op` lies
before `v_data` in the vnode, the fake file system's functions are in the first
slots of its vector, each in one of them, and no word between the two fields
points to any of them. The rest of the vnode, the order of the functions and
what the other slots hold do not matter. -/
namespace FsdFilter.LayoutCompleteness
open VnodeOps HookRegistry FakeFsd PagedMemory KeyedWrites VnodeLayout LayoutScans LayoutSoundness

variable {memory : Memory} {functions : LoadedFunctions} {vNode1 vNode2 v_op : VmOffset} {o d : ℕ}

/-- The functions of the fake file system; `vn_default_error` is the kernel's. -/
def fakeFsdFunctions : List FakeFsdFunction :=
  (gFltFakeVnodeopEntries.map (·.opveImpl)).erase .vnDefaultError

/-- How many of the first 100 readable words at an address hold a function. -/
def fakeFsdSlots (memory : Memory) (functions : LoadedFunctions) (address : VmOffset)
    (function : FakeFsdFunction) : ℕ :=
  (memory.readWords address 100).count (functions.address function)

/-- The layout the comments of `FltGetVnodeLayout` describe: word `o` of a probe
vnode points to the vector, word `d` is its private data. -/
structure AssumedLayout (memory : Memory) (functions : LoadedFunctions) (vNode1 vNode2 v_op : VmOffset)
    (o d : ℕ) : Prop where
  before : o < d
  inPage : 8 * d < 4096
  /-- An object does not reach round the end of the address space. -/
  noWrap : vNode1.toNat + 8 * d < 2 ^ 64
  readable1 : ∀ i ≤ d, memory.read (slot vNode1 i) = some (vNodeWord memory vNode1 i)
  readable2 : ∀ i ≤ d, memory.read (slot vNode2 i) = some (vNodeWord memory vNode2 i)
  data1 : vNodeWord memory vNode1 d = vData1
  data2 : vNodeWord memory vNode2 d = vData2
  noData : ∀ i < d, vNodeWord memory vNode1 i ≠ vData1 ∧ vNodeWord memory vNode2 i ≠ vData2
  notNull : v_op ≠ 0
  vector : vNodeWord memory vNode1 o = v_op
  /-- Every function once, in any slot. -/
  placed : ∀ function ∈ fakeFsdFunctions, fakeFsdSlots memory functions v_op function = 1
  noOther : ∀ l, o < l → l < d → ∀ function ∈ fakeFsdFunctions,
    fakeFsdSlots memory functions (vNodeWord memory vNode1 l) function = 0

section Operations

/-- The operation of a fake function is found from its address alone. -/
theorem operationOf_address {entry : VnodeopvEntryDesc FakeFsdFunction}
    (registered : entry ∈ gFltFakeVnodeopEntries) (own : entry.opveImpl ∈ fakeFsdFunctions) :
    operationOf functions (functions.address entry.opveImpl) = some entry.opveOp := by
  simp only [operationOf, fltRetriveVnodeOpvOffsetDescByFakeFsdVnodeOp,
    fltRetriveVnodeOpvEntryDescByFakeFsdVnodeOp, functions.distinct.eq_iff]
  revert own
  revert entry
  decide

theorem entry_unique {entry other : VnodeopvEntryDesc FakeFsdFunction}
    (registered : entry ∈ gFltFakeVnodeopEntries) (otherRegistered : other ∈ gFltFakeVnodeopEntries)
    (same : entry.opveOp = other.opveOp) : entry = other := by
  revert same
  revert other
  revert entry
  decide

theorem exists_entry {opveOp : VnodeopDesc} (known : opveOp ∈ operations) :
    ∃ entry ∈ gFltFakeVnodeopEntries, entry.opveOp = opveOp ∧ entry.opveImpl ∈ fakeFsdFunctions := by
  revert opveOp
  decide

/-- A word stands for an operation exactly when it is the address of its function. -/
theorem operationOf_eq_some {entry : VnodeopvEntryDesc FakeFsdFunction} {word : VmOffset}
    (registered : entry ∈ gFltFakeVnodeopEntries) (own : entry.opveImpl ∈ fakeFsdFunctions) :
    operationOf functions word = some entry.opveOp ↔ word = functions.address entry.opveImpl := by
  constructor
  · intro found
    obtain ⟨-, other, otherRegistered, same, address⟩ := registered_of_operationOf found
    rw [← address, entry_unique otherRegistered registered same]
  · rintro rfl
    exact operationOf_address registered own

/-- The operations in the slots are those the words stand for, in their order. -/
theorem slotOperations_fst (words : List VmOffset) (i : ℕ) :
    (slotOperations functions i words).map Prod.fst = words.filterMap (operationOf functions) := by
  induction words generalizing i with
  | nil => rfl
  | cons word words ih =>
    cases found : operationOf functions word with
    | none => rw [slotOperations_cons_none found, List.filterMap_cons_none found, ih]
    | some opveOp =>
      rw [slotOperations_cons_some found, List.filterMap_cons_some found, List.map_cons, ih]

/-- An operation is met as often as the address of its function. -/
theorem count_operation {entry : VnodeopvEntryDesc FakeFsdFunction}
    (registered : entry ∈ gFltFakeVnodeopEntries) (own : entry.opveImpl ∈ fakeFsdFunctions)
    (words : List VmOffset) :
    (words.filterMap (operationOf functions)).count entry.opveOp =
      words.count (functions.address entry.opveImpl) := by
  induction words with
  | nil => rfl
  | cons word words ih =>
    by_cases here : word = functions.address entry.opveImpl
    · have found := (operationOf_eq_some registered own).mpr here
      rw [List.filterMap_cons_some found, List.count_cons_self, here, List.count_cons_self, ih]
    · have other : operationOf functions word ≠ some entry.opveOp :=
        fun found => here ((operationOf_eq_some registered own).mp found)
      rw [List.count_cons_of_ne here, ← ih]
      cases found : operationOf functions word with
      | none => rw [List.filterMap_cons_none found]
      | some opveOp =>
        rw [List.filterMap_cons_some found, List.count_cons_of_ne]
        rintro rfl
        exact other found

end Operations

section Vector

theorem vectorOperations_fst (memory : Memory) (functions : LoadedFunctions) (v_op : VmOffset) :
    (vectorOperations memory functions v_op).map Prod.fst =
      (memory.readWords v_op 100).filterMap (operationOf functions) :=
  slotOperations_fst _ 0

/-- Every operation looked for is met once in a vector that holds every function once. -/
theorem operations_perm
    (placed : ∀ function ∈ fakeFsdFunctions, fakeFsdSlots memory functions v_op function = 1) :
    List.Perm ((vectorOperations memory functions v_op).map Prod.fst) operations := by
  have once : ∀ opveOp ∈ operations,
      ((vectorOperations memory functions v_op).map Prod.fst).count opveOp = 1 := by
    intro opveOp known
    obtain ⟨entry, registered, rfl, own⟩ := exists_entry known
    rw [vectorOperations_fst, count_operation registered own]
    exact placed entry.opveImpl own
  have known : ∀ opveOp ∈ (vectorOperations memory functions v_op).map Prod.fst,
      opveOp ∈ operations := by
    intro opveOp member
    obtain ⟨found, counted, rfl⟩ := List.mem_map.mp member
    exact (registered_of_mem_vectorOperations counted).1
  apply List.perm_iff_count.mpr
  intro opveOp
  by_cases member : opveOp ∈ operations
  · rw [once opveOp member, List.count_eq_one_of_mem operations_nodup member]
  · rw [List.count_eq_zero_of_not_mem member, List.count_eq_zero_of_not_mem fun found =>
      member (known opveOp found)]

/-- Such a vector is taken, and everything in it recorded. -/
theorem isVopVector_of_placed (notNull : v_op ≠ 0)
    (placed : ∀ function ∈ fakeFsdFunctions, fakeFsdSlots memory functions v_op function = 1) :
    IsVopVector memory functions v_op := by
  refine ⟨notNull, ?_, ?_⟩
  · cases readable : memory.read v_op with
    | some word => exact (Memory.mapped_of_read readable).1
    | none =>
      have empty := placed .fltFakeFsdLookup (by decide)
      rw [fakeFsdSlots, Memory.readWords_absent readable] at empty
      cases empty
  · have length := (operations_perm placed).length_eq
    rw [List.length_map] at length
    exact Nat.le_of_eq length.symm

theorem recorded_of_placed
    (placed : ∀ function ∈ fakeFsdFunctions, fakeFsdSlots memory functions v_op function = 1) :
    recorded memory functions v_op = vectorOperations memory functions v_op := by
  have length := (operations_perm placed).length_eq
  rw [List.length_map] at length
  exact List.take_of_length_le (Nat.le_of_eq length)

/-- A word that points to none of the functions is passed over. -/
theorem not_isVopVector_of_empty
    (empty : ∀ function ∈ fakeFsdFunctions, fakeFsdSlots memory functions v_op function = 0) :
    ¬IsVopVector memory functions v_op := by
  have none : vectorOperations memory functions v_op = [] := by
    apply List.eq_nil_iff_forall_not_mem.mpr
    intro found member
    obtain ⟨known, -, -⟩ := registered_of_mem_vectorOperations member
    obtain ⟨entry, registered, same, own⟩ := exists_entry known
    have met : entry.opveOp ∈ (memory.readWords v_op 100).filterMap (operationOf functions) := by
      rw [← vectorOperations_fst, same]
      exact List.mem_map_of_mem member
    rw [← List.count_pos_iff, count_operation registered own] at met
    exact Nat.ne_of_gt met (empty entry.opveImpl own)
  rintro ⟨-, -, complete⟩
  rw [none] at complete
  exact absurd complete (by decide)

/-- A recorded operation stands at the slot that holds its function. -/
theorem slot_of_mem_vectorOperations {found : VnodeopDesc × VmOffset}
    (member : found ∈ vectorOperations memory functions v_op) :
    ∃ entry ∈ gFltFakeVnodeopEntries, entry.opveOp = found.1 ∧ ∃ i < 100,
      (memory.readWords v_op 100)[i]? = some (functions.address entry.opveImpl) ∧
        found.2 = BitVec.ofNat 64 (8 * i) := by
  obtain ⟨⟨word, i⟩, indexed, same⟩ := List.mem_filterMap.mp member
  obtain ⟨opveOp, stands, rfl⟩ := Option.map_eq_some_iff.mp same
  obtain ⟨-, entry, registered, operation, address⟩ := registered_of_operationOf stands
  have run := List.mem_zipIdx_iff_getElem?.mp indexed
  have within := (List.getElem?_eq_some_iff.mp run).1
  exact ⟨entry, registered, operation, i, Nat.lt_of_lt_of_le within (memory.readWords_length_le v_op 100),
    by rw [run, address], rfl⟩

end Vector

section Header

/-- The first loop stops at the private data. -/
theorem headerWords_of_assumed (assumed : AssumedLayout memory functions vNode1 vNode2 v_op o d) :
    headerWords memory vNode1 vNode2 = some d := by
  have inPage : d < 512 := by
    have bound := assumed.inPage
    omega
  refine headerWords_of_readable inPage
    (fun i within => ⟨assumed.readable1 i within, assumed.readable2 i within⟩) ?_
    fun i early => ?_
  · have stops : vNodeWord memory vNode1 d = vData1 := assumed.data1
    rw [vNodeWord] at stops
    rw [holdsData, stops]
    simp
  · obtain ⟨other1, other2⟩ := assumed.noData i early
    rw [vNodeWord] at other1 other2
    rw [holdsData]
    simp [other1, other2]

/-- The second loop stops at `v_op`. -/
theorem lastVector_of_assumed (assumed : AssumedLayout memory functions vNode1 vNode2 v_op o d) :
    LastVector memory functions vNode1 d o := by
  refine ⟨assumed.before, ?_, fun l after before => not_isVopVector_of_empty (assumed.noOther l after before)⟩
  rw [assumed.vector]
  exact isVopVector_of_placed assumed.notNull assumed.placed

end Header

/-- `FltGetVnodeLayout` ends, stores the offset of `v_op` and gives every
descriptor the offset of the slot that holds the function of its operation. -/
theorem layout_complete (memory : Memory) (functions : LoadedFunctions) (services : LayoutServices)
    (vNode1 vNode2 v_op : VmOffset) (o d : ℕ) (created : Created services vNode1 vNode2)
    (mounts : services.fltGetMountLayout = .kIOReturnSuccess)
    (assumed : AssumedLayout memory functions vNode1 vNode2 v_op o d) :
    ∃ result, fltGetVnodeLayout memory functions services = .ok result ∧ result.rc = .kIOReturnSuccess ∧
      result.gVNodeVopOffset = BitVec.ofNat 64 (8 * o) ∧
      result.offsets.map (·.opveOp) = gFltVnodeOpvOffsetDesc.map (·.opveOp) ∧
      ∀ desc ∈ result.offsets, ∃ entry ∈ gFltFakeVnodeopEntries, entry.opveOp =
      desc.opveOp ∧ ∃ i < 100,
        (memory.readWords v_op 100)[i]? = some (functions.address entry.opveImpl) ∧
          desc.offset = BitVec.ofNat 64 (8 * i) := by
  obtain ⟨earlier, ran⟩ :=
    found_of_lastVector services.fltGetMountLayout (headerWords_of_assumed assumed)
    assumed.noWrap (lastVector_of_assumed assumed)
  rw [← fltGetVnodeLayout_created created] at ran
  refine ⟨_, ran, mounts, rfl, by simp [layoutAt, offsetsTable, operations], ?_⟩
  intro desc member
  obtain ⟨known, offset⟩ := mem_offsetsTable.mp member
  have covered : desc.opveOp ∈ (vectorOperations memory functions v_op).map Prod.fst :=
    (operations_perm assumed.placed).symm.subset known
  obtain ⟨value, written, last⟩ := record_written covered
  rw [record_append, assumed.vector, recorded_of_placed assumed.placed, last] at offset
  obtain ⟨entry, registered, same, i, inRange, run, slotOffset⟩ := slot_of_mem_vectorOperations written
  exact ⟨entry, registered, same, i, inRange, run, offset.trans slotOffset⟩

/-- Probe vnodes with `v_op` in their second word and their data in the fourth;
the vector holds the functions in reverse, after a slot of another one. -/
private def reversedVector : Memory :=
  .ofWords ([(0xffffff8010000000, 7), (0xffffff8010000008, 0xffffff8010002000),
      (0xffffff8010000010, 0xffffff8010000000), (0xffffff8010000018, vData1),
      (0xffffff8010001000, 9), (0xffffff8010001008, 0xffffff8010002000),
      (0xffffff8010001010, 0), (0xffffff8010001018, vData2),
      (0xffffff8010002000, 0xffffff7f80b00000)] ++
    gFltFakeVnodeopEntries.reverse.mapIdx fun i entry =>
      (slot 0xffffff8010002008 i, LoadedFunctions.consecutive.address entry.opveImpl))

private theorem reversedVector_assumed :
    AssumedLayout reversedVector .consecutive 0xffffff8010000000 0xffffff8010001000
      0xffffff8010002000 1 3 where
  before := by decide
  inPage := by decide
  noWrap := by decide +kernel
  readable1 := by decide +kernel
  readable2 := by decide +kernel
  data1 := by decide +kernel
  data2 := by decide +kernel
  noData := by decide +kernel
  notNull := by decide
  vector := by decide +kernel
  placed := by decide +kernel
  noOther l after before := by
    obtain rfl : l = 2 := by omega
    decide +kernel

theorem layout_complete_reversed :
    ∃ result, fltGetVnodeLayout reversedVector .consecutive
        ⟨true, some 0xffffff8010000000, some 0xffffff8010001000, .kIOReturnSuccess⟩ = .ok result ∧
      result.rc = .kIOReturnSuccess ∧ result.gVNodeVopOffset = 8 := by
  obtain ⟨result, ran, success, offset, -⟩ := layout_complete reversedVector .consecutive
    ⟨true, some 0xffffff8010000000, some 0xffffff8010001000, .kIOReturnSuccess⟩ _ _ _ 1 3
    ⟨rfl, rfl, rfl⟩ rfl
    reversedVector_assumed
  exact ⟨result, ran, success, offset⟩

end FsdFilter.LayoutCompleteness
