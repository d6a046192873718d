import FsdFilter.HookCallProofs

/-! What the registry is for: every operations vector is either untouched or
hooked with a count. The abstract registry keeps only the count; the hook
routines, each run alone, refine it from every well-formed state. -/
namespace FsdFilter.VectorCounts
open VnodeOps SlotPatch HookRegistry HookCalls HookCallProofs

/-- The abstract registry: the counter of every hooked vector. -/
abbrev Counts : Type := VopVector → Option Int32

/-- The vnodes that `FltHookVnodeVop` counts. -/
def isHookable (vnode : Vnode) : Bool :=
  vnode.vOp != fltVopUnknownOffset && !vnode.isRecycled && vnode.isDiskRelated

/-- The vnodes that `FltUnHookVnodeVop` takes back. -/
def isUnhookable (vnode : Vnode) : Bool :=
  vnode.isDiskRelated && vnode.vOp != fltVopUnknownOffset

/-- One more vnode of a vector is known; `created` tells whether a first entry
can be made. -/
def Counts.hook (counts : Counts) (created : Bool) (vnode : Vnode) : Counts :=
  if isHookable vnode then
    match counts vnode.vOp with
    | some count => Function.update counts vnode.vOp (some (count + 1))
    | none => if created then Function.update counts vnode.vOp (some 1) else counts
  else counts

/-- The answer that goes with `Counts.hook`. -/
def Counts.hookReturn (counts : Counts) (created : Bool) (vnode : Vnode) : HookReturn :=
  if vnode.vOp = fltVopUnknownOffset then ⟨.kIOReturnError, none⟩
  else if vnode.isRecycled then ⟨.kIOReturnNoDevice, none⟩
  else if !vnode.isDiskRelated then ⟨.kIOReturnSuccess, some false⟩
  else if (counts vnode.vOp).isSome || created then ⟨.kIOReturnSuccess, some true⟩
  else ⟨.kIOReturnNoMemory, none⟩

/-- One vnode of a vector is gone; the last one takes the entry with it. -/
def Counts.unhook (counts : Counts) (vnode : Vnode) : Counts :=
  if isUnhookable vnode then
    match counts vnode.vOp with
    | some count => Function.update counts vnode.vOp (if count = 1 then none else some (count - 1))
    | none => counts
  else counts

/-- The operations vectors as the file systems built them. A slot that is
hooked does not hold the reserved value `vopNotHooked`. -/
structure Vectors where
  offsets : OpvOffsets
  original : VopMemory
  restorable : ∀ vOp, ∀ patch ∈ hookPatches offsets.table, original vOp patch.addr ≠ .vopNotHooked

/-- Vectors that hold functions of the file systems and nothing else. -/
def Vectors.ofFileSystems (offsets : OpvOffsets) (functions : VopVector → VmOffset → ℕ) : Vectors where
  offsets := offsets
  original vOp offset := .fsd (functions vOp offset)
  restorable _ _ _ := by simp

namespace Vectors
variable (vectors : Vectors)

def table : List FltVnodeOpvOffsetDesc := vectors.offsets.table

/-- What is overwritten in a hooked vector. -/
def patches : List (Patch VmOffset FltVopEnum VopFunc) := hookPatches vectors.table

theorem separate : Separate vectors.patches := hookPatches_separate vectors.offsets

/-- A hooked vector. -/
def hookedSlots (vOp : VopVector) : VmOffset → VopFunc := patched vectors.patches (vectors.original vOp)

/-- The functions an entry of a hooked vector has saved. -/
def savedVop (vOp : VopVector) : FltVopEnum → VopFunc :=
  saved .null vectors.patches (vectors.original vOp)

/-- Every hook entry with an offset has its hook in the vector. -/
theorem hookedSlots_at {patch : Patch VmOffset FltVopEnum VopFunc} (member : patch ∈ vectors.patches)
    (vOp : VopVector) : vectors.hookedSlots vOp patch.addr = patch.value :=
  patched_at vectors.separate member

theorem savedVop_at {patch : Patch VmOffset FltVopEnum VopFunc} (member : patch ∈ vectors.patches)
    (vOp : VopVector) : vectors.savedVop vOp patch.index = vectors.original vOp patch.addr :=
  saved_at vectors.separate member

end Vectors

/-- A state between two calls: a vector with an entry is hooked and its entry
has saved everything that was replaced, a vector without one is untouched. -/
structure WellFormed (vectors : Vectors) (s : FilterState) : Prop where
  owner : ∀ {v w p}, s.registry.lookup v = some p → s.registry.lookup w = some p → v = w
  registered : ∀ {v p}, s.registry.lookup v = some p → ∃ entry, s.heap p = some entry ∧
    entry.retainCount = 1 ∧ entry.origVop = vectors.savedVop v
  hooked : ∀ {v p}, s.registry.lookup v = some p → s.mem v = vectors.hookedSlots v
  unhooked : ∀ {v}, s.registry.lookup v = none → s.mem v = vectors.original v

theorem wellFormed_initial (vectors : Vectors) :
    WellFormed vectors (FilterState.initial vectors.original) :=
  ⟨by simp [FilterState.initial], by simp [FilterState.initial], by simp [FilterState.initial],
    fun _ => rfl⟩

/-- The counts that a state stands for. -/
def countsOf (s : FilterState) : Counts := fun vOp =>
  (s.registry.lookup vOp).bind fun p => (s.heap p).map (·.vNodeCounter)

variable {vectors : Vectors} {s : FilterState} {p : EntryPtr} {vOp : VopVector}
  {entry : FltVnodeHookEntry}

theorem countsOf_absent (absent : s.registry.lookup vOp = none) : countsOf s vOp = none := by
  simp [countsOf, absent]

theorem countsOf_found (found : s.registry.lookup vOp = some p) (live : s.heap p = some entry) :
    countsOf s vOp = some entry.vNodeCounter := by
  simp [countsOf, found, live]

/-- The count of a vector whose entry is as it was. -/
theorem countsOf_congr {s' : FilterState} (registry : s'.registry.lookup vOp = s.registry.lookup vOp)
    (heap : ∀ q, s.registry.lookup vOp = some q → s'.heap q = s.heap q) :
    countsOf s' vOp = countsOf s vOp := by
  cases registered : s.registry.lookup vOp with
  | none => rw [countsOf_absent registered, countsOf_absent (registry.trans registered)]
  | some q => simp [countsOf, registry.trans registered, registered, heap q registered]

theorem WellFormed.countsOf_isSome (wf : WellFormed vectors s) :
    (countsOf s vOp).isSome ↔ (s.registry.lookup vOp).isSome := by
  cases found : s.registry.lookup vOp with
  | none => simp [countsOf_absent found]
  | some p =>
    obtain ⟨entry, live, _⟩ := wf.registered found
    simp [countsOf_found found live]

/-- A new address is not registered. -/
theorem WellFormed.unregistered (wf : WellFormed vectors s) (free : s.heap p = none) :
    s.registry.lookup vOp ≠ some p := by
  intro found
  obtain ⟨entry, live, _⟩ := wf.registered found
  rw [free] at live
  cases live

/-- Changing only the counter of a registered entry. -/
theorem WellFormed.recount (wf : WellFormed vectors s) (found : s.registry.lookup vOp = some p)
    (live : s.heap p = some entry) (count : Int32) :
    WellFormed vectors (s.setEntry p (some { entry with vNodeCounter := count })) ∧
      countsOf (s.setEntry p (some { entry with vNodeCounter := count })) =
        Function.update (countsOf s) vOp (some count) := by
  obtain ⟨_, live', references, saves⟩ := wf.registered found
  rw [live] at live'
  cases live'
  refine ⟨⟨wf.owner, ?_, wf.hooked, wf.unhooked⟩, ?_⟩
  · intro w q registered
    by_cases same : q = p
    · subst q
      cases wf.owner registered found
      exact ⟨{ entry with vNodeCounter := count }, by simp [FilterState.setEntry], references, saves⟩
    · obtain ⟨other, otherLive, facts⟩ := wf.registered registered
      exact ⟨other, by simpa [FilterState.setEntry, same] using otherLive, facts⟩
  · funext w
    by_cases same : w = vOp
    · subst w
      simp [countsOf, FilterState.setEntry, found]
    · rw [Function.update_of_ne same]
      refine countsOf_congr rfl fun q registered => ?_
      have apart : q ≠ p := fun eq => same (wf.owner (eq ▸ registered) found)
      exact Function.update_of_ne apart ..

/-- A vector being hooked for the first time. -/
def registerNew (vectors : Vectors) (s : FilterState) (vOp : VopVector) (new : EntryPtr) :
    FilterState where
  mem := Function.update s.mem vOp (vectors.hookedSlots vOp)
  registry := s.registry.insert vOp new
  heap := Function.update s.heap new (some ⟨1, vectors.savedVop vOp, 1⟩)

theorem WellFormed.registerNew (wf : WellFormed vectors s) (vOp : VopVector) (free : s.heap p = none) :
    WellFormed vectors (registerNew vectors s vOp p) ∧
      countsOf (registerNew vectors s vOp p) = Function.update (countsOf s) vOp (some 1) := by
  have elsewhere : ∀ {w : VopVector}, w ≠ vOp →
      (s.registry.insert vOp p).lookup w = s.registry.lookup w := AList.lookup_insert_ne
  refine ⟨⟨?_, ?_, ?_, ?_⟩, ?_⟩
  · intro v w q first second
    by_cases atV : v = vOp <;> by_cases atW : w = vOp
    · rw [atV, atW]
    · subst v
      rw [VectorCounts.registerNew, AList.lookup_insert] at first
      cases first
      exact absurd ((elsewhere atW).symm.trans second) (wf.unregistered free)
    · subst w
      rw [VectorCounts.registerNew, AList.lookup_insert] at second
      cases second
      exact absurd ((elsewhere atV).symm.trans first) (wf.unregistered free)
    · exact wf.owner ((elsewhere atV).symm.trans first) ((elsewhere atW).symm.trans second)
  · intro v q registered
    by_cases atV : v = vOp
    · subst v
      rw [VectorCounts.registerNew, AList.lookup_insert] at registered
      cases registered
      exact ⟨⟨1, vectors.savedVop vOp, 1⟩, by simp [VectorCounts.registerNew], rfl, rfl⟩
    · have before := (elsewhere atV).symm.trans registered
      obtain ⟨entry, live, facts⟩ := wf.registered before
      have apart : q ≠ p := fun eq => wf.unregistered free (eq ▸ before)
      exact ⟨entry, by simpa [VectorCounts.registerNew, apart] using live, facts⟩
  · intro v q registered
    by_cases atV : v = vOp
    · subst v; simp [VectorCounts.registerNew]
    · simpa [VectorCounts.registerNew, atV] using wf.hooked ((elsewhere atV).symm.trans registered)
  · intro v unregistered
    by_cases atV : v = vOp
    · subst v
      rw [VectorCounts.registerNew, AList.lookup_insert] at unregistered
      cases unregistered
    · simpa [VectorCounts.registerNew, atV] using
        wf.unhooked ((elsewhere atV).symm.trans unregistered)
  · funext w
    by_cases atW : w = vOp
    · subst w; simp [countsOf, VectorCounts.registerNew]
    · rw [Function.update_of_ne atW]
      refine countsOf_congr (elsewhere atW) fun q registered => ?_
      have apart : q ≠ p := fun eq => wf.unregistered free (eq ▸ registered)
      exact Function.update_of_ne apart ..

/-- A vector losing its last known vnode. -/
def removeLast (vectors : Vectors) (s : FilterState) (vOp : VopVector) (last : EntryPtr) :
    FilterState where
  mem := Function.update s.mem vOp (vectors.original vOp)
  registry := s.registry.erase vOp
  heap := Function.update s.heap last none

theorem WellFormed.removeLast (wf : WellFormed vectors s) (found : s.registry.lookup vOp = some p) :
    WellFormed vectors (removeLast vectors s vOp p) ∧
      countsOf (removeLast vectors s vOp p) = Function.update (countsOf s) vOp none := by
  have elsewhere : ∀ {w : VopVector}, w ≠ vOp →
      (s.registry.erase vOp).lookup w = s.registry.lookup w := AList.lookup_erase_ne
  have gone : (s.registry.erase vOp).lookup vOp = none := AList.lookup_erase ..
  have notHere : ∀ {w : VopVector} {q : EntryPtr}, (s.registry.erase vOp).lookup w = some q →
      w ≠ vOp ∧ s.registry.lookup w = some q ∧ q ≠ p := by
    intro w q registered
    have apart : w ≠ vOp := fun eq => by rw [eq, gone] at registered; cases registered
    have before := (elsewhere apart).symm.trans registered
    exact ⟨apart, before, fun eq => apart (wf.owner (eq ▸ before) found)⟩
  refine ⟨⟨?_, ?_, ?_, ?_⟩, ?_⟩
  · intro v w q first second
    exact wf.owner (notHere first).2.1 (notHere second).2.1
  · intro v q registered
    obtain ⟨_, before, apart⟩ := notHere registered
    obtain ⟨entry, live, facts⟩ := wf.registered before
    exact ⟨entry, by simpa [VectorCounts.removeLast, apart] using live, facts⟩
  · intro v q registered
    obtain ⟨apart, before, _⟩ := notHere registered
    simpa [VectorCounts.removeLast, apart] using wf.hooked before
  · intro v unregistered
    by_cases atV : v = vOp
    · subst v; simp [VectorCounts.removeLast]
    · simpa [VectorCounts.removeLast, atV] using
        wf.unhooked ((elsewhere atV).symm.trans unregistered)
  · funext w
    by_cases atW : w = vOp
    · subst w
      rw [Function.update_self]
      exact countsOf_absent gone
    · rw [Function.update_of_ne atW]
      refine countsOf_congr (elsewhere atW) fun q registered => ?_
      obtain ⟨-, -, apart⟩ := notHere ((elsewhere atW).trans registered)
      exact Function.update_of_ne apart ..

end FsdFilter.VectorCounts
