import FsdFilter.VnodeLayout

/-! `FltGetMountLayout`: the words of a mount are tried as pointers to its
vector of file system operations, which is told by code that the disassembler
recognises as the start of functions. -/
namespace FsdFilter.MountLayout
open VnodeOps HookRegistry PagedMemory VnodeLayout

/-- `FltVfsOperation`, less the terminating `kFltVfsOpUnknown`. -/
inductive FltVfsOperation where
  | kFltVfsOpUnmount
  deriving DecidableEq, Repr

/-- `FltVfsOperationDesc`; the sample function is not used. -/
structure FltVfsOperationDesc where
  operation : FltVfsOperation
  offset : VmOffset
  deriving DecidableEq, Repr

/-- The globals that the mount search sets. -/
structure VfsLayout where
  gVfsOperationVectorOffset : VmOffset
  gFltVfsOperationDesc : List FltVfsOperationDesc
  deriving DecidableEq, Repr

/-- The globals as they are compiled. -/
def VfsLayout.unknown : VfsLayout :=
  ⟨fltVopUnknownOffset, [⟨.kFltVfsOpUnmount, fltVopUnknownOffset⟩]⟩

/-- `__offsetof( struct vfsops, vfs_unmount )`, after `vfs_mount` and `vfs_start`. -/
def FltVfsOperation.vfsopsOffset : FltVfsOperation → VmOffset
  | .kFltVfsOpUnmount => 16#64

/-- What the search records when it takes a vector. -/
def VfsLayout.recorded (layout : VfsLayout) (offset : VmOffset) : VfsLayout where
  gVfsOperationVectorOffset :=
    if layout.gVfsOperationVectorOffset = fltVopUnknownOffset then offset
    else layout.gVfsOperationVectorOffset
  gFltVfsOperationDesc :=
    layout.gFltVfsOperationDesc.map fun desc => { desc with offset := desc.operation.vfsopsOffset }

/-- `_DecodeResult`. -/
inductive DecodeResult where
  | none | success | memoryErr | inputErr | filtered
  deriving DecidableEq, Repr

/-- What `distorm_decompose64` gives: its result and the opcodes of the
instructions it has filled in. -/
structure Decoded where
  res : DecodeResult
  decodedInstructions : List ℕ
  deriving DecidableEq, Repr

/-- `distorm_decompose64`, which reads the code it is given and nothing else. -/
abbrev Disassembler : Type := VmOffset → List (BitVec 8) → Decoded

/-- The bytes of a piece of code, read one after another. -/
def loadCode (memory : Memory) : VmOffset → ℕ → ScanM (List (BitVec 8))
  | _, 0 => pure []
  | address, count + 1 =>
    if memory.Mapped address then do
      let rest ← loadCode memory (address + 1#64) count
      pure (memory.byte address :: rest)
    else .error .pageFault

/-- `DdIsFunctionAtKernelAddress`: 100 bytes that decode to 15 instructions of
which the first are the `push` and the `mov` of a function's entry. -/
def ddIsFunctionAtKernelAddress (memory : Memory) (distormDecompose64 : Disassembler)
    (address : VmOffset) : ScanM Bool :=
  if fltVirtToPhys memory address = 0 then pure false
  else if truncPage address ≠ truncPage (address + 100#64) ∧
      fltVirtToPhys memory (address + 100#64 - 1#64) = 0 then pure false
  else do
    let code ← loadCode memory address 100
    let decoded := distormDecompose64 address code
    if (decoded.res ≠ .success ∧ decoded.res ≠ .memoryErr) ∨
      decoded.decodedInstructions.length < 15 then
      pure false
    else
      pure (decoded.decodedInstructions[0]? = some 0x2 ∧ decoded.decodedInstructions[1]? = some 0x2A)

/-- The inner loop of `FltGetMountLayoutForMountStructure`, `remaining` slots of
the candidate vector left: whether it counts four functions. -/
def scanVfsVector (memory : Memory) (distormDecompose64 : Disassembler) (startPage : VmOffset) :
    ℕ → VmOffset → ℕ → ScanM Bool
  | 0, _, _ => pure false
  | remaining + 1, vfsOpVector, functionsFound =>
    if nextPageAbsent memory startPage vfsOpVector then pure false
    else do
      let isFunction ← ddIsFunctionAtKernelAddress memory distormDecompose64 (← load memory vfsOpVector)
      let functionsFound := if isFunction then functionsFound + 1 else functionsFound
      if functionsFound < 4 then
        scanVfsVector memory distormDecompose64 startPage remaining (vfsOpVector + 8#64) functionsFound
      else pure true

/-- The outer loop. It reads the candidate word a second time. -/
def scanMount (memory : Memory) (distormDecompose64 : Disassembler) (mnt : VmOffset) :
    ℕ → VmOffset → VfsLayout → ScanM VfsLayout
  | 0, _, _ => .error .outOfFuel
  | fuel + 1, vfsOpPtr, layout =>
    if fltVirtToPhys memory (vfsOpPtr + 8#64 - 1#64) ≠ 0 ∧ vfsOpPtr < mnt + 256#64 then do
      if fltVirtToPhys memory (← load memory vfsOpPtr) = 0 then
        scanMount memory distormDecompose64 mnt fuel (vfsOpPtr + 8#64) layout
      else
        let vfsOpVector ← load memory vfsOpPtr
        let found ← scanVfsVector memory distormDecompose64 (truncPage vfsOpVector) 50 vfsOpVector 0
        let layout := if found then layout.recorded (vfsOpPtr - mnt) else layout
        if layout.gVfsOperationVectorOffset ≠ fltVopUnknownOffset then pure layout
        else scanMount memory distormDecompose64 mnt fuel (vfsOpPtr + 8#64) layout
    else pure layout

/-- The iterations of the outer loop: 256 bytes in words, and the last test. -/
def mountFuel : ℕ := 33

/-- The result that follows from the globals. -/
def VfsLayout.rc (layout : VfsLayout) : IOReturn :=
  if layout.gVfsOperationVectorOffset = fltVopUnknownOffset then .kIOReturnError else .kIOReturnSuccess

/-- `FltGetMountLayoutForMountStructure`. -/
def fltGetMountLayoutForMountStructure (memory : Memory) (distormDecompose64 : Disassembler)
    (mnt : VmOffset) (layout : VfsLayout) : ScanM (IOReturn × VfsLayout) := do
  let layout ← scanMount memory distormDecompose64 mnt mountFuel mnt layout
  pure (layout.rc, layout)

/-- `vfs_iterate` with `FltGetMountLayoutCallback`: it goes over the mounts until
the callback returns `VFS_RETURNED_DONE`. -/
def vfsIterate (memory : Memory) (distormDecompose64 : Disassembler) :
    List VmOffset → VfsLayout → ScanM VfsLayout
  | [], layout => pure layout
  | mnt :: mounts, layout => do
    let (rc, layout) ← fltGetMountLayoutForMountStructure memory distormDecompose64 mnt layout
    if rc = .kIOReturnSuccess then pure layout
    else vfsIterate memory distormDecompose64 mounts layout

/-- `FltGetMountLayout`. -/
def fltGetMountLayout (memory : Memory) (distormDecompose64 : Disassembler) (mounts : List VmOffset) :
    ScanM (IOReturn × VfsLayout) := do
  let layout ← vfsIterate memory distormDecompose64 mounts .unknown
  pure (layout.rc, layout)

end FsdFilter.MountLayout
