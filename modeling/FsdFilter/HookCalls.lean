import FsdFilter.HookRegistry

/-! `FltHookVnodeVop`, `FltUnHookVnodeVop` and `FltGetOriginalVnodeOp`, each
run to completion by one caller. The lock calls have no effect on a caller that
runs alone and are left to the interleaved machine, which steps through the
same loop bodies. -/
namespace FsdFilter.HookCalls
open VnodeOps HookRegistry

/-- What memory one call of `FltHookVnodeVop` gets: `alloc` serves `newEntry`,
`allocated` tells whether `ght_insert` finds room for its node. -/
structure Supply where
  alloc : Allocator
  allocated : Bool

/-- What `FltHookVnodeVop` returns. `*isVopHooked` is not defined on an error. -/
structure HookReturn where
  rc : IOReturn
  isVopHooked : Option Bool
  deriving DecidableEq, Repr

/-- The body of the hooking loop for one entry of `gFltVnodeVopHookEntries`. -/
def hookEntry (offsets : List FltVnodeOpvOffsetDesc) (vnode : Vnode) (newEntry : EntryPtr)
    (desc : VnodeopvEntryDesc HookRoutine) : FilterM Unit := do
  match hookSlot offsets desc.opveOp with
  | none => pure ()
  | some slot =>
    let entry ← entryAt newEntry
    let original ← readSlot (fltGetVnodeOpVector vnode) slot.offset
    if !vnode.isDiskRelated && desc.opveOp = .vnopStrategy then
      -- the strategic routine of a device's vnode is skipped deliberately
      storeEntry newEntry (some (entry.setOriginalVopAsNotHooked slot.indx))
    else
      storeEntry newEntry (some (entry.setOriginalVop slot.indx original))
      writeSlot (fltGetVnodeOpVector vnode) slot.offset (.hook desc.opveImpl)

/-- The section of `FltHookVnodeVop` under the exclusive lock. -/
def hookExclusive (offsets : List FltVnodeOpvOffsetDesc) (vnode : Vnode) (newEntry : EntryPtr)
    (allocated : Bool) : FilterM IOReturn := do
  match ← retrieveEntry (fltGetVnodeOpVector vnode) false with
  | some existingEntry =>
    let _ ← incrementVnodeCounter existingEntry
    pure .kIOReturnSuccess
  | none =>
    if ← addEntry (fltGetVnodeOpVector vnode) newEntry allocated then
      let _ ← incrementVnodeCounter newEntry
      gFltVnodeVopHookEntries.forM (hookEntry offsets vnode newEntry)
      pure .kIOReturnSuccess
    else
      pure .kIOReturnNoMemory

/-- `FltHookVnodeVop` after its tests of the vnode. -/
def hookDiskVnode (offsets : List FltVnodeOpvOffsetDesc) (supply : Supply) (vnode : Vnode) :
    FilterM HookReturn := do
  match ← retrieveEntry (fltGetVnodeOpVector vnode) true with
  | some existingEntry =>
    let _ ← incrementVnodeCounter existingEntry
    release existingEntry
    pure ⟨.kIOReturnSuccess, some true⟩
  | none =>
    match ← newEntry supply.alloc with
    | none => pure ⟨.kIOReturnNoMemory, none⟩
    | some new =>
      let rc ← hookExclusive offsets vnode new supply.allocated
      release new
      pure ⟨rc, if rc = .kIOReturnSuccess then some true else none⟩

/-- `FltHookVnodeVop`. -/
def fltHookVnodeVop (offsets : List FltVnodeOpvOffsetDesc) (supply : Supply) (vnode : Vnode) :
    FilterM HookReturn :=
  if fltGetVnodeOpVector vnode = fltVopUnknownOffset then
    pure ⟨.kIOReturnError, none⟩
  else if vnode.isRecycled then
    pure ⟨.kIOReturnNoDevice, none⟩
  else if !vnode.isDiskRelated then
    pure ⟨.kIOReturnSuccess, some false⟩
  else
    hookDiskVnode offsets supply vnode

/-- The body of the restoring loop for one entry of `gFltVnodeVopHookEntries`. -/
def unhookEntry (offsets : List FltVnodeOpvOffsetDesc) (vnode : Vnode) (existingEntry : EntryPtr)
    (desc : VnodeopvEntryDesc HookRoutine) : FilterM Unit := do
  match hookSlot offsets desc.opveOp with
  | none => pure ()
  | some slot =>
    let entry ← entryAt existingEntry
    if entry.isHooked slot.indx then
      writeSlot (fltGetVnodeOpVector vnode) slot.offset (entry.getOrignalVop slot.indx)

/-- The section of `FltUnHookVnodeVop` under the exclusive lock: the entry still
to be released after it. -/
def unhookExclusive (offsets : List FltVnodeOpvOffsetDesc) (vnode : Vnode) (existingEntry : EntryPtr) :
    FilterM (Option EntryPtr) := do
  if (← getVnodeCounter existingEntry) ≠ 0 then
    pure (some existingEntry)
  else
    release existingEntry
    match ← removeEntry (fltGetVnodeOpVector vnode) with
    | none => pure none
    | some removed =>
      gFltVnodeVopHookEntries.forM (unhookEntry offsets vnode removed)
      pure (some removed)

/-- `FltUnHookVnodeVop` after its tests of the vnode. -/
def unhookDiskVnode (offsets : List FltVnodeOpvOffsetDesc) (vnode : Vnode) : FilterM Unit := do
  match ← retrieveEntry (fltGetVnodeOpVector vnode) true with
  | none => pure ()
  | some existingEntry =>
    if (← decrementVnodeCounter existingEntry) ≠ 1 then
      release existingEntry
    else
      match ← unhookExclusive offsets vnode existingEntry with
      | none => pure ()
      | some last => release last

/-- `FltUnHookVnodeVop`. -/
def fltUnHookVnodeVop (offsets : List FltVnodeOpvOffsetDesc) (vnode : Vnode) : FilterM Unit :=
  if !vnode.isDiskRelated then
    pure ()
  else if fltGetVnodeOpVector vnode = fltVopUnknownOffset then
    pure ()
  else
    unhookDiskVnode offsets vnode

/-- The slow path of `FltGetOriginalVnodeOp`: what the slot of the operation
holds now. The descriptors are used without a check. -/
def currentVnodeOp (offsets : List FltVnodeOpvOffsetDesc) (vnode : Vnode) (indx : FltVopEnum) :
    FilterM VopFunc :=
  match fltRetriveVnodeOpvEntryDescByVnodeOp gFltVnodeVopEnumEntries indx with
  | none => throw (.nullDescriptor indx)
  | some enumDescEntry =>
    match fltRetriveVnodeOpvOffsetDescByVnodeOpDesc offsets enumDescEntry.opveOp with
    | none => throw (.nullDescriptor indx)
    | some offsetDescEntry => readSlot (fltGetVnodeOpVector vnode) offsetDescEntry.offset

/-- The end of `FltGetOriginalVnodeOp` once a referenced entry was found. -/
def savedVnodeOp (existingEntry : EntryPtr) (indx : FltVopEnum) : FilterM VopFunc := do
  let original ← getOrignalVop existingEntry indx
  release existingEntry
  pure original

/-- `FltGetOriginalVnodeOp`. -/
def fltGetOriginalVnodeOp (offsets : List FltVnodeOpvOffsetDesc) (vnode : Vnode) (indx : FltVopEnum) :
    FilterM VopFunc := do
  match ← retrieveEntry (fltGetVnodeOpVector vnode) true with
  | some existingEntry => savedVnodeOp existingEntry indx
  | none =>
    match ← retrieveEntry (fltGetVnodeOpVector vnode) true with
    | some existingEntry => savedVnodeOp existingEntry indx
    | none => currentVnodeOp offsets vnode indx

/-- `FltHookVnodeVopAndParent`: the results only feed assertions. -/
def fltHookVnodeVopAndParent (offsets : List FltVnodeOpvOffsetDesc) (supply parentSupply : Supply)
    (vnode : Vnode) (parent : Option Vnode) : FilterM (HookReturn × Option HookReturn) := do
  let own ← fltHookVnodeVop offsets supply vnode
  match parent with
  | none => pure (own, none)
  | some parent =>
    let second ← fltHookVnodeVop offsets parentSupply parent
    pure (own, some second)

/-- `FltUnHookVnodeVopAndParent`. -/
def fltUnHookVnodeVopAndParent (offsets : List FltVnodeOpvOffsetDesc) (vnode : Vnode)
    (parent : Option Vnode) : FilterM Unit := do
  fltUnHookVnodeVop offsets vnode
  match parent with
  | none => pure ()
  | some parent => fltUnHookVnodeVop offsets parent

end FsdFilter.HookCalls
