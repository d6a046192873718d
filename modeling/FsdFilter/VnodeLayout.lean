import FsdFilter.FakeFsd
import FsdFilter.HookRegistry
import FsdFilter.PagedMemory

/-! `FltGetVnodeLayout`: two vnodes of the fake file system are created with
known private data, the data is looked for in both, and from there the search
goes back to a word that points to the vector of the fake operations. Kernel
memory does not change while it is scanned. -/
namespace FsdFilter.VnodeLayout
open VnodeOps HookRegistry FakeFsd PagedMemory

/-- What ends a scan without a result: a word on an absent page is read, or the
bound on the iterations is reached. -/
inductive ScanStop where
  | pageFault | outOfFuel
  deriving DecidableEq, Repr

/-- Code that reads kernel memory. -/
abbrev ScanM (α : Type) : Type := Except ScanStop α

/-- The dereference of a pointer to a word. -/
def load (memory : Memory) (address : VmOffset) : ScanM VmOffset :=
  match memory.read address with
  | some word => .ok word
  | none => .error .pageFault

/-- `PAGE_SIZE`. -/
def pageSize : VmOffset := 4096#64

/-- `FltVirtToPhys`; `pmap_find_phys` gives the physical page of the page an
address is on. -/
def fltVirtToPhys (memory : Memory) (addr : VmOffset) : VmOffset :=
  let pa := (memory.frame (truncPage addr)).zeroExtend 64 <<< 12
  if pa ≠ 0 then pa ||| (addr &&& 0xfff) else pa

/-- The private data of the first probe vnode, `(long)(-1)-2`. -/
def vData1 : VmOffset := -3

/-- The private data of the second one, `(long)(-1)-4`. -/
def vData2 : VmOffset := -5

/-- The check of the three loops: the word reaches beyond the page the loop
started on, and onto a page that is absent. -/
def nextPageAbsent (memory : Memory) (startPage ptr : VmOffset) : Bool :=
  truncPage (ptr + 8#64 - 1#64) ≠ startPage ∧ fltVirtToPhys memory (ptr + 8#64 - 1#64) = 0

/-- The condition of the first loop; the second vnode is only read when the
first one does not hold its data. -/
def dataAhead (memory : Memory) (ptrNode1 ptrNode2 : VmOffset) : ScanM Bool := do
  let data1 ← load memory ptrNode1
  if data1 ≠ vData1 then
    let data2 ← load memory ptrNode2
    pure (data2 ≠ vData2)
  else pure false

/-- The variables of the first loop when it is left. -/
structure HeaderScan where
  ptrNode1 : VmOffset
  ptrNode2 : VmOffset
  vNodeHeaderSize : VmOffset
  deriving DecidableEq, Repr

/-- The first loop, from its variables as they are at the top of an iteration. -/
def scanHeader (memory : Memory) (vNode1Page vNode2Page : VmOffset) : ℕ → HeaderScan → ScanM HeaderScan
  | 0, _ => .error .outOfFuel
  | fuel + 1, scan => do
    if ← dataAhead memory scan.ptrNode1 scan.ptrNode2 then
      let ptrNode1 := scan.ptrNode1 + 8#64
      let ptrNode2 := scan.ptrNode2 + 8#64
      let vNodeHeaderSize := scan.vNodeHeaderSize + 8#64
      if nextPageAbsent memory vNode1Page ptrNode1 then pure ⟨ptrNode1, ptrNode2, -1⟩
      else if nextPageAbsent memory vNode2Page ptrNode2 then pure ⟨ptrNode1, ptrNode2, -1⟩
      else if vNodeHeaderSize ≥ pageSize then pure ⟨ptrNode1, ptrNode2, -1⟩
      else scanHeader memory vNode1Page vNode2Page fuel ⟨ptrNode1, ptrNode2, vNodeHeaderSize⟩
    else pure scan

/-- The search of one candidate vector, `remaining` slots from slot `i` on:
whether all operations were counted, and the offsets table with what was found. -/
def scanVector (memory : Memory) (functions : LoadedFunctions) (startPage : VmOffset) :
    ℕ → ℕ → VmOffset → ℕ → List FltVnodeOpvOffsetDesc →
      ScanM (Bool × List FltVnodeOpvOffsetDesc)
  | 0, _, _, _, offsets => pure (false, offsets)
  | remaining + 1, i, func, numberOfHits, offsets =>
    if nextPageAbsent memory startPage func then pure (false, offsets)
    else do
      match fltRetriveVnodeOpvOffsetDescByFakeFsdVnodeOp functions offsets (← load memory func) with
      | none =>
        scanVector memory functions startPage remaining (i + 1) (func + 8#64) numberOfHits offsets
      | some vnodeOpvOffsetDesc =>
        let offsets := setOffset offsets vnodeOpvOffsetDesc.opveOp (BitVec.ofNat 64 (8 * i))
        if gNumberOfOpvOffsetDescs = numberOfHits + 1 then pure (true, offsets)
        else
          scanVector memory functions startPage remaining (i + 1) (func + 8#64)
            (numberOfHits + 1) offsets

/-- The whole inner loop, for the vector a captured pointer refers to. -/
def scanVopVector (memory : Memory) (functions : LoadedFunctions) (v_op1 : VmOffset)
    (offsets : List FltVnodeOpvOffsetDesc) : ScanM (Bool × List FltVnodeOpvOffsetDesc) :=
  scanVector memory functions (truncPage v_op1) 100 0 v_op1 0 offsets

/-- What the search for `v_op` leaves. -/
structure VopSearch where
  vNodeVopFound : Bool
  vNodeVopOffset : VmOffset
  offsets : List FltVnodeOpvOffsetDesc
  deriving DecidableEq, Repr

/-- The second loop. It captures both candidate values through `ptrNode1`. -/
def searchVop (memory : Memory) (functions : LoadedFunctions) (vNode1 : VmOffset) :
    ℕ → VmOffset → VmOffset → VmOffset → List FltVnodeOpvOffsetDesc → ScanM VopSearch
  | 0, _, _, _, _ => .error .outOfFuel
  | fuel + 1, ptrNode1, ptrNode2, vNodeVopOffset, offsets =>
    if ptrNode1 > vNode1 then do
      let ptrNode1 := ptrNode1 - 8#64
      let ptrNode2 := ptrNode2 - 8#64
      let vNodeVopOffset := vNodeVopOffset - 8#64
      let v_op1 ← load memory ptrNode1
      let v_op2 ← load memory ptrNode1
      if v_op1 ≠ 0 ∧ v_op1 = v_op2 ∧ fltVirtToPhys memory v_op1 ≠ 0 then
        let (found, offsets) ← scanVopVector memory functions v_op1 offsets
        if found then pure ⟨true, vNodeVopOffset, offsets⟩
        else searchVop memory functions vNode1 fuel ptrNode1 ptrNode2 vNodeVopOffset offsets
      else searchVop memory functions vNode1 fuel ptrNode1 ptrNode2 vNodeVopOffset offsets
    else pure ⟨false, vNodeVopOffset, offsets⟩

/-- The iterations either loop can make: it moves by a word within a page. -/
def scanFuel : ℕ := 513

/-- What the kernel and the mount search answer: whether the fake file system
is registered, the vnodes created for the two probes, if they are, and the
result of `FltGetMountLayout`, which has offsets of its own. -/
structure LayoutServices where
  vfsFsadd : Bool
  vnodeCreate1 : Option VmOffset
  vnodeCreate2 : Option VmOffset
  fltGetMountLayout : IOReturn
  deriving DecidableEq, Repr

/-- The result of `FltGetVnodeLayout` and the globals it has set. -/
structure LayoutResult where
  rc : IOReturn
  vNodeVopFound : Bool
  gVNodeVopOffset : VmOffset
  offsets : List FltVnodeOpvOffsetDesc
  deriving DecidableEq, Repr

/-- An exit before anything is found. -/
def LayoutResult.failed (offsets : List FltVnodeOpvOffsetDesc) : LayoutResult :=
  ⟨.kIOReturnError, false, fltVopUnknownOffset, offsets⟩

/-- `FltGetVnodeLayout` once both probe vnodes are created, up to its exit label. -/
def inferLayout (memory : Memory) (functions : LoadedFunctions) (fltGetMountLayout : IOReturn)
    (vNode1 vNode2 : VmOffset) : ScanM LayoutResult := do
  let header ← scanHeader memory (truncPage vNode1) (truncPage vNode2) scanFuel ⟨vNode1, vNode2, 0⟩
  if header.vNodeHeaderSize = 0 ∨ header.vNodeHeaderSize = -1 then
    pure (.failed gFltVnodeOpvOffsetDesc)
  else
    let search ← searchVop memory functions vNode1 scanFuel header.ptrNode1 header.ptrNode2
      header.vNodeHeaderSize gFltVnodeOpvOffsetDesc
    if search.vNodeVopFound then
      pure ⟨fltGetMountLayout, true, search.vNodeVopOffset, search.offsets⟩
    else pure (.failed search.offsets)

/-- `FltGetVnodeLayout`. The exit label gives the probe vnodes back and removes
the fake file system; it changes no offset. -/
def fltGetVnodeLayout (memory : Memory) (functions : LoadedFunctions) (services : LayoutServices) :
    ScanM LayoutResult :=
  if services.vfsFsadd then
    match services.vnodeCreate1, services.vnodeCreate2 with
    | some vNode1, some vNode2 => inferLayout memory functions services.fltGetMountLayout vNode1 vNode2
    | _, _ => pure (.failed gFltVnodeOpvOffsetDesc)
  else pure (.failed gFltVnodeOpvOffsetDesc)

end FsdFilter.VnodeLayout
