import Mathlib.Data.List.Nodup
import FsdFilter.SlotPatch

/-! The vnode operations and the tables that describe them in the shipped
build (`USE_FAKE_FSD` defined, `_DLD_MACOSX_CAWL` not): which operations are
hooked and in what order, at which index an original function is saved, and
for which operations the layout inference finds an offset. -/
namespace FsdFilter.VnodeOps
open SlotPatch

/-- `vnodeop_desc` objects of the kernel that the tables name. -/
inductive VnodeopDesc where
  | vnopDefault | vnopLookup | vnopCreate | vnopWhiteout | vnopMknod | vnopOpen | vnopClose
  | vnopAccess | vnopInactive | vnopReclaim | vnopRead | vnopWrite | vnopPagein | vnopPageout
  | vnopStrategy | vnopMmap | vnopRename | vnopPathconf | vnopExchange
  deriving DecidableEq, Repr

/-- `FltVopEnum`, the index of an operation in a saved vector. -/
inductive FltVopEnum where
  | unknown
  | access | advlock | allocate | blktooff | blockmap | bwrite | close | copyfile | create
  | «default» | exchange | fsync | getattr | getxattr | inactive | ioctl | link | listxattr
  | lookup | kqfiltAdd | kqfiltRemove | mkdir | mknod | mmap | mnomap | offtoblock | «open»
  | pagein | pageout | pathconf | read | readdir | readdirattr | readlink | reclaim | remove
  | removexattr | rename | revoke | rmdir | searchfs | select | setattr | setxattr | strategy
  | symlink | whiteout | write | getnamedstreamHook | makenamedstreamHook | removenamedstreamHook
  | max
  deriving DecidableEq, Repr

/-- The hook routines of `VFSHooks.cpp`. -/
inductive HookRoutine where
  | fltFsdReclaimHook | fltVnopReadHook | fltVnopOpenHook | fltVnopWriteHook | fltVnopPageinHook
  | fltVnopPageoutHook | fltVnopLookupHook | fltVnopCreateHook | fltVnopCloseHook
  | fltVnopInactiveHook | fltVnopRenameHook | fltVnopExchangeHook
  deriving DecidableEq, Repr

/-- `VOPFUNC`, a function pointer as a slot of an operations vector holds it:
`NULL`, the reserved value `vopNotHooked`, a hook of this filter or the
function of a file system at some address. -/
inductive VopFunc where
  | null
  | vopNotHooked
  | hook (routine : HookRoutine)
  | fsd (address : ℕ)
  deriving DecidableEq, Repr

/-- `enum vtype`. -/
inductive Vtype where
  | vnon | vreg | vdir | vblk | vchr | vlnk | vsock | vfifo | vbad | vstr | vcplx
  deriving DecidableEq, Repr

/-- `vm_offset_t`: kernel addresses and byte offsets. -/
abbrev VmOffset : Type := BitVec 64

/-- `FLT_VOP_UNKNOWN_OFFSET`, the same value as `DLD_VOP_UNKNOWN_OFFSET`. -/
def fltVopUnknownOffset : VmOffset := -1

/-- `struct vnodeopv_entry_desc`; the tables store hooks or indices as the
implementation. The terminating entry of a source array is the end of the list. -/
structure VnodeopvEntryDesc (α : Type) where
  opveOp : VnodeopDesc
  opveImpl : α
  deriving DecidableEq, Repr

/-- `FltVnodeOpvOffsetDesc`: where an operation's slot is in every vector. -/
structure FltVnodeOpvOffsetDesc where
  opveOp : VnodeopDesc
  offset : VmOffset
  deriving DecidableEq, Repr

/-- The hooks, in the order the loops install and remove them. -/
def gFltVnodeVopHookEntries : List (VnodeopvEntryDesc HookRoutine) :=
  [⟨.vnopReclaim, .fltFsdReclaimHook⟩,
   ⟨.vnopRead, .fltVnopReadHook⟩,
   ⟨.vnopOpen, .fltVnopOpenHook⟩,
   ⟨.vnopWrite, .fltVnopWriteHook⟩,
   ⟨.vnopPagein, .fltVnopPageinHook⟩,
   ⟨.vnopPageout, .fltVnopPageoutHook⟩,
   ⟨.vnopLookup, .fltVnopLookupHook⟩,
   ⟨.vnopCreate, .fltVnopCreateHook⟩,
   ⟨.vnopClose, .fltVnopCloseHook⟩,
   ⟨.vnopInactive, .fltVnopInactiveHook⟩,
   ⟨.vnopRename, .fltVnopRenameHook⟩,
   ⟨.vnopExchange, .fltVnopExchangeHook⟩]

/-- The index of every operation that can be looked up. -/
def gFltVnodeVopEnumEntries : List (VnodeopvEntryDesc FltVopEnum) :=
  [⟨.vnopLookup, .lookup⟩,
   ⟨.vnopCreate, .create⟩,
   ⟨.vnopOpen, .open⟩,
   ⟨.vnopClose, .close⟩,
   ⟨.vnopAccess, .access⟩,
   ⟨.vnopInactive, .inactive⟩,
   ⟨.vnopReclaim, .reclaim⟩,
   ⟨.vnopRead, .read⟩,
   ⟨.vnopWrite, .write⟩,
   ⟨.vnopPagein, .pagein⟩,
   ⟨.vnopPageout, .pageout⟩,
   ⟨.vnopStrategy, .strategy⟩,
   ⟨.vnopMmap, .mmap⟩,
   ⟨.vnopRename, .rename⟩,
   ⟨.vnopPathconf, .pathconf⟩,
   ⟨.vnopExchange, .exchange⟩]

/-- The offsets table as it is compiled: nothing is known yet. -/
def gFltVnodeOpvOffsetDesc : List FltVnodeOpvOffsetDesc :=
  [⟨.vnopLookup, fltVopUnknownOffset⟩,
   ⟨.vnopCreate, fltVopUnknownOffset⟩,
   ⟨.vnopWhiteout, fltVopUnknownOffset⟩,
   ⟨.vnopMknod, fltVopUnknownOffset⟩,
   ⟨.vnopOpen, fltVopUnknownOffset⟩,
   ⟨.vnopClose, fltVopUnknownOffset⟩,
   ⟨.vnopAccess, fltVopUnknownOffset⟩,
   ⟨.vnopInactive, fltVopUnknownOffset⟩,
   ⟨.vnopReclaim, fltVopUnknownOffset⟩,
   ⟨.vnopRead, fltVopUnknownOffset⟩,
   ⟨.vnopWrite, fltVopUnknownOffset⟩,
   ⟨.vnopPagein, fltVopUnknownOffset⟩,
   ⟨.vnopPageout, fltVopUnknownOffset⟩,
   ⟨.vnopStrategy, fltVopUnknownOffset⟩,
   ⟨.vnopMmap, fltVopUnknownOffset⟩,
   ⟨.vnopRename, fltVopUnknownOffset⟩,
   ⟨.vnopPathconf, fltVopUnknownOffset⟩]

/-- `FltRetriveVnodeOpvEntryDescByVnodeOpDesc`. -/
def fltRetriveVnodeOpvEntryDescByVnodeOpDesc {α : Type} (table : List (VnodeopvEntryDesc α))
    (opveOp : VnodeopDesc) : Option (VnodeopvEntryDesc α) :=
  table.find? fun desc => opveOp = desc.opveOp

/-- `FltRetriveVnodeOpvEntryDescByVnodeOp`. -/
def fltRetriveVnodeOpvEntryDescByVnodeOp {α : Type} [DecidableEq α]
    (table : List (VnodeopvEntryDesc α)) (vnodeOp : α) : Option (VnodeopvEntryDesc α) :=
  table.find? fun desc => vnodeOp = desc.opveImpl

/-- `FltRetriveVnodeOpvOffsetDescByVnodeOpDesc`, over the offsets found. -/
def fltRetriveVnodeOpvOffsetDescByVnodeOpDesc (offsets : List FltVnodeOpvOffsetDesc)
    (opveOp : VnodeopDesc) : Option FltVnodeOpvOffsetDesc :=
  offsets.find? fun desc => opveOp = desc.opveOp

/-- Where one hook entry is installed: the slot, and the index its original is
saved at. -/
structure HookSlot where
  offset : VmOffset
  indx : FltVopEnum
  deriving DecidableEq, Repr

/-- The two chained lookups that both loops begin with. An entry without an
offset descriptor, or whose operation has no index, is skipped. -/
def hookSlot (offsets : List FltVnodeOpvOffsetDesc) (opveOp : VnodeopDesc) : Option HookSlot := do
  let offsetDescEntry ← fltRetriveVnodeOpvOffsetDescByVnodeOpDesc offsets opveOp
  let enumDescEntry ←
    fltRetriveVnodeOpvEntryDescByVnodeOpDesc gFltVnodeVopEnumEntries offsetDescEntry.opveOp
  pure ⟨offsetDescEntry.offset, enumDescEntry.opveImpl⟩

/-- One hook entry as a patch of a vector. -/
def hookPatch (offsets : List FltVnodeOpvOffsetDesc) (entry : VnodeopvEntryDesc HookRoutine) :
    Option (Patch VmOffset FltVopEnum VopFunc) :=
  (hookSlot offsets entry.opveOp).map fun slot => ⟨slot.offset, slot.indx, .hook entry.opveImpl⟩

/-- The patches that some of the hook entries stand for, skipped entries left out. -/
def patchesOf (offsets : List FltVnodeOpvOffsetDesc) (entries : List (VnodeopvEntryDesc HookRoutine)) :
    List (Patch VmOffset FltVopEnum VopFunc) :=
  entries.filterMap (hookPatch offsets)

/-- Everything a hooked vector differs in. -/
def hookPatches (offsets : List FltVnodeOpvOffsetDesc) : List (Patch VmOffset FltVopEnum VopFunc) :=
  patchesOf offsets gFltVnodeVopHookEntries

@[simp] theorem patchesOf_nil (offsets : List FltVnodeOpvOffsetDesc) : patchesOf offsets [] = [] := rfl

theorem patchesOf_cons_none {offsets : List FltVnodeOpvOffsetDesc}
    (skipped : hookSlot offsets entry.opveOp = none) :
    patchesOf offsets (entry :: rest) = patchesOf offsets rest := by
  simp [patchesOf, hookPatch, skipped]

theorem patchesOf_cons_some {offsets : List FltVnodeOpvOffsetDesc}
    (found : hookSlot offsets entry.opveOp = some slot) :
    patchesOf offsets (entry :: rest) =
      ⟨slot.offset, slot.indx, .hook entry.opveImpl⟩ :: patchesOf offsets rest := by
  simp [patchesOf, hookPatch, found]

theorem patchesOf_append (offsets : List FltVnodeOpvOffsetDesc)
    (first second : List (VnodeopvEntryDesc HookRoutine)) :
    patchesOf offsets (first ++ second) = patchesOf offsets first ++ patchesOf offsets second :=
  List.filterMap_append

/-- The offsets of the operations, as the layout inference is expected to find
them: the descriptors of the compiled table, no two at the same offset. -/
structure OpvOffsets where
  offset : VnodeopDesc → VmOffset
  distinct : ((gFltVnodeOpvOffsetDesc.map (·.opveOp)).map offset).Nodup

/-- Vectors whose slots follow the order of the compiled table. -/
def OpvOffsets.consecutive : OpvOffsets where
  offset opveOp := BitVec.ofNat 64 (8 * (gFltVnodeOpvOffsetDesc.map (·.opveOp)).idxOf opveOp)
  distinct := by decide

/-- The offsets table filled in. -/
def OpvOffsets.table (offsets : OpvOffsets) : List FltVnodeOpvOffsetDesc :=
  gFltVnodeOpvOffsetDesc.map fun desc => ⟨desc.opveOp, offsets.offset desc.opveOp⟩

/-- The hook entries that are installed: all but the last one, whose operation
has no offset descriptor. -/
theorem hookPatches_table (offsets : OpvOffsets) :
    hookPatches offsets.table =
      [⟨offsets.offset .vnopReclaim, .reclaim, .hook .fltFsdReclaimHook⟩,
       ⟨offsets.offset .vnopRead, .read, .hook .fltVnopReadHook⟩,
       ⟨offsets.offset .vnopOpen, .open, .hook .fltVnopOpenHook⟩,
       ⟨offsets.offset .vnopWrite, .write, .hook .fltVnopWriteHook⟩,
       ⟨offsets.offset .vnopPagein, .pagein, .hook .fltVnopPageinHook⟩,
       ⟨offsets.offset .vnopPageout, .pageout, .hook .fltVnopPageoutHook⟩,
       ⟨offsets.offset .vnopLookup, .lookup, .hook .fltVnopLookupHook⟩,
       ⟨offsets.offset .vnopCreate, .create, .hook .fltVnopCreateHook⟩,
       ⟨offsets.offset .vnopClose, .close, .hook .fltVnopCloseHook⟩,
       ⟨offsets.offset .vnopInactive, .inactive, .hook .fltVnopInactiveHook⟩,
       ⟨offsets.offset .vnopRename, .rename, .hook .fltVnopRenameHook⟩] := rfl

/-- No two hooks share a slot or a saving place. -/
theorem hookPatches_separate (offsets : OpvOffsets) : Separate (hookPatches offsets.table) := by
  refine ⟨?_, by rw [hookPatches_table]; simp only [List.map]; decide⟩
  have distinct := offsets.distinct
  rw [hookPatches_table]
  simp only [gFltVnodeOpvOffsetDesc, List.map_cons, List.map_nil, List.nodup_cons, List.mem_cons,
    List.not_mem_nil, not_or, or_false, List.nodup_nil] at distinct ⊢
  grind

end FsdFilter.VnodeOps
