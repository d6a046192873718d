import Mathlib.Data.List.Nodup
import Mathlib.Logic.Function.Basic
import FsdFilter.VnodeOps

/-! The fake file system that the layout inference registers: its vnode
operations, the lookups from a function found in memory to the descriptor of
its operation, and the table of offsets that is filled in on the way. -/
namespace FsdFilter.FakeFsd
open VnodeOps

/-- The functions `gFltFakeVnodeopEntries` registers. -/
inductive FakeFsdFunction where
  | vnDefaultError | fltFakeFsdLookup | fltFakeFsdCreate | fltFakeFsdWhiteout | fltFakeFsdMknod
  | fltFakeFsdOpen | fltFakeFsdClose | fltFakeFsdAccess | fltFakeFsdInactive | fltFakeFsdReclaim
  | fltFakeFsdRead | fltFakeFsdWrite | fltFakeFsdPagein | fltFakeFsdPageout | fltFakeFsdStrategy
  | fltFakeFsdMmap | fltFakeFsdRename | fltFakeFsdPathconf
  deriving DecidableEq, Repr

/-- Where the functions are in the loaded kernel: different functions at
different addresses, none of them at `NULL`. -/
structure LoadedFunctions where
  address : FakeFsdFunction → VmOffset
  distinct : Function.Injective address
  notNull : ∀ function, address function ≠ 0

/-- The operations the fake file system implements. -/
def gFltFakeVnodeopEntries : List (VnodeopvEntryDesc FakeFsdFunction) :=
  [⟨.vnopDefault, .vnDefaultError⟩,
   ⟨.vnopLookup, .fltFakeFsdLookup⟩,
   ⟨.vnopCreate, .fltFakeFsdCreate⟩,
   ⟨.vnopWhiteout, .fltFakeFsdWhiteout⟩,
   ⟨.vnopMknod, .fltFakeFsdMknod⟩,
   ⟨.vnopOpen, .fltFakeFsdOpen⟩,
   ⟨.vnopClose, .fltFakeFsdClose⟩,
   ⟨.vnopAccess, .fltFakeFsdAccess⟩,
   ⟨.vnopInactive, .fltFakeFsdInactive⟩,
   ⟨.vnopReclaim, .fltFakeFsdReclaim⟩,
   ⟨.vnopRead, .fltFakeFsdRead⟩,
   ⟨.vnopWrite, .fltFakeFsdWrite⟩,
   ⟨.vnopPagein, .fltFakeFsdPagein⟩,
   ⟨.vnopPageout, .fltFakeFsdPageout⟩,
   ⟨.vnopStrategy, .fltFakeFsdStrategy⟩,
   ⟨.vnopMmap, .fltFakeFsdMmap⟩,
   ⟨.vnopRename, .fltFakeFsdRename⟩,
   ⟨.vnopPathconf, .fltFakeFsdPathconf⟩]

/-- Functions one after another in the text of the loaded extension. -/
def LoadedFunctions.consecutive : LoadedFunctions where
  address function := BitVec.ofNat 64 (0xffffff7f80a01000 + 0x40 * function.ctorIdx)
  distinct := by
    refine Function.HasLeftInverse.injective ⟨fun address => (List.find? (fun function =>
      BitVec.ofNat 64 (0xffffff7f80a01000 + 0x40 * function.ctorIdx) = address)
        (gFltFakeVnodeopEntries.map (·.opveImpl))).getD .vnDefaultError, fun function => ?_⟩
    cases function <;> decide
  notNull function := by cases function <;> decide

/-- `FltRetriveVnodeOpvEntryDescByFakeFsdVnodeOp`. No implementation in the
table is `NULL`, so that the source's loop ends where the list does. -/
def fltRetriveVnodeOpvEntryDescByFakeFsdVnodeOp (functions : LoadedFunctions)
    (fakeFsdVnodeOp : VmOffset) : Option (VnodeopvEntryDesc FakeFsdFunction) :=
  gFltFakeVnodeopEntries.find? fun desc => functions.address desc.opveImpl = fakeFsdVnodeOp

/-- `FltRetriveVnodeOpvOffsetDescByFakeFsdVnodeOp`, over the offsets table as it stands. -/
def fltRetriveVnodeOpvOffsetDescByFakeFsdVnodeOp (functions : LoadedFunctions)
    (offsets : List FltVnodeOpvOffsetDesc) (fakeFsdVnodeOp : VmOffset) :
    Option FltVnodeOpvOffsetDesc := do
  let vnodeOpvEntryDesc ← fltRetriveVnodeOpvEntryDescByFakeFsdVnodeOp functions fakeFsdVnodeOp
  fltRetriveVnodeOpvOffsetDescByVnodeOpDesc offsets vnodeOpvEntryDesc.opveOp

/-- The write of an offset through the pointer that the lookup of an operation
returned: the first descriptor of that operation. -/
def setOffset : List FltVnodeOpvOffsetDesc → VnodeopDesc → VmOffset → List FltVnodeOpvOffsetDesc
  | [], _, _ => []
  | desc :: rest, opveOp, offset =>
    if opveOp = desc.opveOp then { desc with offset := offset } :: rest
    else desc :: setOffset rest opveOp offset

/-- `gNumberOfOpvOffsetDescs`. -/
def gNumberOfOpvOffsetDescs : ℕ := gFltVnodeOpvOffsetDesc.length

/-- The operations whose offsets are looked for. -/
def operations : List VnodeopDesc := gFltVnodeOpvOffsetDesc.map (·.opveOp)

theorem operations_nodup : operations.Nodup := by decide

/-- The operation a word found in memory stands for: that of the fake function
at this address, if its offset is looked for. -/
def operationOf (functions : LoadedFunctions) (fakeFsdVnodeOp : VmOffset) : Option VnodeopDesc :=
  (fltRetriveVnodeOpvOffsetDescByFakeFsdVnodeOp functions gFltVnodeOpvOffsetDesc fakeFsdVnodeOp).map
    (·.opveOp)

/-- The offsets table that holds a given offset for every operation. -/
def offsetsTable (offset : VnodeopDesc → VmOffset) : List FltVnodeOpvOffsetDesc :=
  operations.map fun opveOp => ⟨opveOp, offset opveOp⟩

/-- The compiled table. -/
theorem offsetsTable_unknown :
    offsetsTable (fun _ => fltVopUnknownOffset) = gFltVnodeOpvOffsetDesc := rfl

theorem offsetsTable_inj {offset other : VnodeopDesc → VmOffset} :
    offsetsTable offset = offsetsTable other ↔ ∀ opveOp ∈ operations, offset opveOp = other opveOp := by
  simp [offsetsTable]

theorem mem_offsetsTable {offset : VnodeopDesc → VmOffset} {desc : FltVnodeOpvOffsetDesc} :
    desc ∈ offsetsTable offset ↔ desc.opveOp ∈ operations ∧ desc.offset = offset desc.opveOp := by
  constructor
  · intro member
    obtain ⟨opveOp, known, rfl⟩ := List.mem_map.mp member
    exact ⟨known, rfl⟩
  · intro ⟨known, held⟩
    exact List.mem_map.mpr ⟨desc.opveOp, known, by rw [← held]⟩

private theorem setOffset_map {ops : List VnodeopDesc} (distinct : ops.Nodup)
    (offset : VnodeopDesc → VmOffset) (opveOp : VnodeopDesc) (value : VmOffset) :
    setOffset (ops.map fun op => ⟨op, offset op⟩) opveOp value =
      ops.map fun op => ⟨op, Function.update offset opveOp value op⟩ := by
  induction ops with
  | nil => rfl
  | cons op rest ih =>
    obtain ⟨absent, distinct⟩ := List.nodup_cons.mp distinct
    simp only [List.map_cons, setOffset]
    by_cases here : opveOp = op
    · subst here
      rw [if_pos rfl, Function.update_self]
      congr 1
      refine List.map_congr_left fun op member => ?_
      have other : op ≠ opveOp := fun same => absent (same ▸ member)
      rw [Function.update_of_ne other]
    · rw [if_neg here, ih distinct, Function.update_of_ne (Ne.symm here)]

/-- Writing an offset changes it for its operation and for no other. -/
theorem setOffset_offsetsTable (offset : VnodeopDesc → VmOffset) (opveOp : VnodeopDesc)
    (value : VmOffset) :
    setOffset (offsetsTable offset) opveOp value = offsetsTable (Function.update offset opveOp value) :=
  setOffset_map operations_nodup offset opveOp value

private theorem find_map (ops : List VnodeopDesc) (offset : VnodeopDesc → VmOffset)
    (opveOp : VnodeopDesc) :
    fltRetriveVnodeOpvOffsetDescByVnodeOpDesc (ops.map fun op => ⟨op, offset op⟩) opveOp =
      if opveOp ∈ ops then some ⟨opveOp, offset opveOp⟩ else none := by
  induction ops with
  | nil => rfl
  | cons op rest ih =>
    simp only [fltRetriveVnodeOpvOffsetDescByVnodeOpDesc, List.map_cons, List.find?_cons] at ih ⊢
    by_cases here : opveOp = op
    · simp [here]
    · simp [here, ih]

/-- A lookup finds the operation's descriptor in every state of the table, or in none. -/
theorem retrive_offsetsTable (offset : VnodeopDesc → VmOffset) (opveOp : VnodeopDesc) :
    fltRetriveVnodeOpvOffsetDescByVnodeOpDesc (offsetsTable offset) opveOp =
      if opveOp ∈ operations then some ⟨opveOp, offset opveOp⟩ else none :=
  find_map operations offset opveOp

variable {functions : LoadedFunctions}

/-- The lookup by function finds the descriptor of the operation the word stands for. -/
theorem retriveByFakeFsdVnodeOp_offsetsTable (offset : VnodeopDesc → VmOffset)
    (fakeFsdVnodeOp : VmOffset) :
    fltRetriveVnodeOpvOffsetDescByFakeFsdVnodeOp functions (offsetsTable offset) fakeFsdVnodeOp =
      (operationOf functions fakeFsdVnodeOp).map fun opveOp => ⟨opveOp, offset opveOp⟩ := by
  rw [operationOf, fltRetriveVnodeOpvOffsetDescByFakeFsdVnodeOp, fltRetriveVnodeOpvOffsetDescByFakeFsdVnodeOp,
    ← offsetsTable_unknown]
  cases fltRetriveVnodeOpvEntryDescByFakeFsdVnodeOp functions fakeFsdVnodeOp with
  | none => rfl
  | some entry =>
    simp only [Option.bind_eq_bind, Option.bind_some, retrive_offsetsTable]
    split <;> rfl

/-- A word that stands for an operation is the address of the function
registered for it. -/
theorem registered_of_operationOf {fakeFsdVnodeOp : VmOffset} {opveOp : VnodeopDesc}
    (found : operationOf functions fakeFsdVnodeOp = some opveOp) :
    opveOp ∈ operations ∧ ∃ entry ∈ gFltFakeVnodeopEntries, entry.opveOp = opveOp ∧
      functions.address entry.opveImpl = fakeFsdVnodeOp := by
  obtain ⟨desc, retrieved, rfl⟩ := Option.map_eq_some_iff.mp found
  obtain ⟨entry, registered, described⟩ := Option.bind_eq_some_iff.mp retrieved
  have member := List.mem_of_find?_eq_some described
  have same : entry.opveOp = desc.opveOp := by simpa using List.find?_some described
  exact ⟨List.mem_map_of_mem member, entry, List.mem_of_find?_eq_some registered, same,
    by simpa using List.find?_some registered⟩

end FsdFilter.FakeFsd
