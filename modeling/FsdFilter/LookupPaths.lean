import FsdFilter.HookTables
import FsdFilter.VectorTransparency

/-! The two ways in which `FltGetOriginalVnodeOp` finds a function: the entry of
a hooked vector, or the slot of one that is not hooked. They agree on the hooked
operations. For the others the entry of a hooked vector has only `NULL`. -/
namespace FsdFilter.LookupPaths
open StateRuns VnodeOps SlotPatch HookRegistry HookCalls VectorCounts FakeFsd HookTables
open Interleaving ReaderWriterLock HookThreads VectorTransparency

section Call
variable {s : FilterState} {p : EntryPtr} {entry : FltVnodeHookEntry} {vnode : Vnode}
  {offsets : OpvOffsets} {desc : VnodeopvEntryDesc FltVopEnum}

/-- The slow path reads the slot of the vector. -/
theorem slowPath_run (absent : s.registry.lookup vnode.vOp = none)
    (known : desc ∈ gFltVnodeVopEnumEntries) (described : desc.opveOp ∈ operations) :
    fltGetOriginalVnodeOp offsets.table vnode desc.opveImpl s =
      .ok (s.mem vnode.vOp (offsets.offset desc.opveOp), s) := by
  have missed := retrieveEntry_absent absent true
  unfold fltGetOriginalVnodeOp
  rw [fltGetVnodeOpVector_eq, bind_ok missed]
  simp only
  rw [bind_ok missed]
  simp only [currentVnodeOp, retrive_enumEntry_index known, retrive_table, if_pos described]
  rfl

/-- The fast path reads the entry of the vector. -/
theorem fastPath_run (found : s.registry.lookup vnode.vOp = some p) (live : s.heap p = some entry)
    (table : List FltVnodeOpvOffsetDesc) (indx : FltVopEnum) :
    ∃ s', fltGetOriginalVnodeOp table vnode indx s = .ok (entry.getOrignalVop indx, s') := by
  unfold fltGetOriginalVnodeOp
  rw [fltGetVnodeOpVector_eq, bind_ok (retrieveEntry_found found live)]
  simp only [savedVnodeOp]
  rw [bind_ok (getOrignalVop_run (FilterState.setEntry_heap_self ..) indx),
    bind_ok (release_run (FilterState.setEntry_heap_self ..))]
  exact ⟨_, rfl⟩

end Call

/-- A hook is registered for the operation. -/
def IsHookable (opveOp : VnodeopDesc) : Prop := ∃ hook ∈ gFltVnodeVopHookEntries, hook.opveOp = opveOp

section Saved
variable {vectors : Vectors} {desc : VnodeopvEntryDesc FltVopEnum}

/-- The entry of a hooked vector has the functions of the hooked operations. -/
theorem savedVop_hookable (known : desc ∈ gFltVnodeVopEnumEntries)
    (described : desc.opveOp ∈ operations) (hookable : IsHookable desc.opveOp) (vOp : VopVector) :
    vectors.savedVop vOp desc.opveImpl = vectors.original vOp (vectors.offsets.offset desc.opveOp) := by
  obtain ⟨hook, registered, same⟩ := hookable
  have member : (⟨vectors.offsets.offset hook.opveOp, desc.opveImpl, .hook hook.opveImpl⟩ : Patch _ _ _) ∈
      vectors.patches :=
    mem_hookPatches.mpr ⟨hook, registered, desc, known, same.symm, same ▸ described, rfl⟩
  rw [← same]
  exact vectors.savedVop_at member vOp

/-- For all other operations it has `NULL`, as `init` left it. -/
theorem savedVop_other (known : desc ∈ gFltVnodeVopEnumEntries) (other : ¬IsHookable desc.opveOp)
    (vOp : VopVector) : vectors.savedVop vOp desc.opveImpl = .null := by
  apply saved_other
  intro patch member sameIndex
  obtain ⟨hook, registered, enum, enumKnown, same, _, rfl⟩ := mem_hookPatches.mp member
  have unique : enum = desc := by
    have first := retrive_enumEntry_index enumKnown
    rw [show enum.opveImpl = desc.opveImpl from sameIndex, retrive_enumEntry_index known] at first
    exact (Option.some.inj first).symm
  exact other ⟨hook, registered, unique ▸ same.symm⟩

end Saved

variable {T : Type} [Fintype T] [DecidableEq T]

/-- While nobody is in an exclusive section a lookup finds the function that the
file system has, unless the vector is hooked, no hook is registered for the
operation and the file system has a function at all. -/
theorem lookup_finds_original_iff (vectors : Vectors) {c : Config Shared Pc T}
    (reached : Reaches (threads vectors.table) anyStep (start vectors.original) c)
    (nobody : ∀ t, (c.pc t).mode ≠ .exclusive) (vnode : Vnode) (desc : VnodeopvEntryDesc FltVopEnum)
    (known : desc ∈ gFltVnodeVopEnumEntries) (described : desc.opveOp ∈ operations) :
    (∃ after, fltGetOriginalVnodeOp vectors.table vnode desc.opveImpl c.shared.filter =
        .ok (vectors.original vnode.vOp (vectors.offsets.offset desc.opveOp), after)) ↔
      c.shared.filter.registry.lookup vnode.vOp = none ∨ IsHookable desc.opveOp ∨
        vectors.original vnode.vOp (vectors.offsets.offset desc.opveOp) = .null := by
  have transparent := transparent_of_reaches reached
  have settled : Settled vectors c.shared.filter vnode.vOp :=
    transparent.settled _ fun t working => nobody t (changing_exclusive working)
  cases found : c.shared.filter.registry.lookup vnode.vOp with
  | none =>
    refine iff_of_true ⟨c.shared.filter, ?_⟩ (.inl rfl)
    rw [← settled.unregistered found]
    exact slowPath_run found known described
  | some p =>
    obtain ⟨_, entry, live, saves⟩ := settled.registered p found
    obtain ⟨after, ran⟩ := fastPath_run found live vectors.table desc.opveImpl
    have answer : entry.getOrignalVop desc.opveImpl = vectors.savedVop vnode.vOp desc.opveImpl :=
      congrFun saves _
    rw [answer] at ran
    rw [ran]
    by_cases hookable : IsHookable desc.opveOp
    · refine iff_of_true ⟨after, ?_⟩ (.inr (.inl hookable))
      rw [savedVop_hookable known described hookable]
    · rw [savedVop_other known hookable]
      constructor
      · rintro ⟨_, same⟩
        have null := (Prod.ext_iff.mp (Except.ok.inj same)).1
        exact .inr (.inr null.symm)
      · rintro (registered | registered | null)
        · cases registered
        · exact absurd registered hookable
        · exact ⟨after, by rw [null]⟩

/-- Vectors full of functions of one file system. -/
private def plainVectors : Vectors := .ofFileSystems .consecutive fun _ _ => 1

private def hookedFile : Vnode := ⟨64, .vreg, false⟩

/-- A thread hooks the vector of a file. -/
private theorem hookedFile_reached :
    ∃ c : Config Shared Pc (Fin 2),
      Reaches (threads plainVectors.table) anyStep (start plainVectors.original) c ∧
      (∀ t, (c.pc t).mode ≠ .exclusive) ∧ c.shared.filter.registry.lookup hookedFile.vOp ≠ none := by
  obtain ⟨c, reached, ends⟩ := exists_reached_of_replay (threads plainVectors.table) anyStep
    (start plainVectors.original)
    (takes thread0 ([.call (.hook hookedFile), .run, .allocate (.within 4), .run, .run, .insert true] ++
      List.replicate 16 .run))
    (fun c => (∀ t, (c.pc t).mode ≠ .exclusive) ∧ c.shared.filter.registry.lookup hookedFile.vOp ≠ none)
    (by decide +kernel)
  exact ⟨c, reached, of_decide_eq_true ends⟩

/-- The function for access is not found once a file is known. -/
theorem access_lost_when_hooked :
    ¬∀ (vectors : Vectors) (c : Config Shared Pc (Fin 2)),
      Reaches (threads vectors.table) anyStep (start vectors.original) c →
        (∀ t, (c.pc t).mode ≠ .exclusive) →
        ∀ (vnode : Vnode) (desc : VnodeopvEntryDesc FltVopEnum), desc ∈ gFltVnodeVopEnumEntries →
          desc.opveOp ∈ operations →
            ∃ after, fltGetOriginalVnodeOp vectors.table vnode desc.opveImpl c.shared.filter =
              .ok (vectors.original vnode.vOp (vectors.offsets.offset desc.opveOp), after) := by
  intro agrees
  obtain ⟨c, reached, nobody, registered⟩ := hookedFile_reached
  have transparent := transparent_of_reaches reached
  obtain ⟨p, found⟩ := Option.ne_none_iff_exists'.mp registered
  have settled : Settled plainVectors c.shared.filter hookedFile.vOp :=
    transparent.settled _ fun t working => nobody t (changing_exclusive working)
  obtain ⟨_, entry, live, saves⟩ := settled.registered p found
  obtain ⟨after, ran⟩ := fastPath_run found live plainVectors.table .access
  obtain ⟨_, finds⟩ :=
    agrees plainVectors c reached nobody hookedFile ⟨.vnopAccess, .access⟩ (by decide) (by decide)
  rw [ran] at finds
  have same := (Prod.ext_iff.mp (Except.ok.inj finds)).1
  have null : entry.getOrignalVop .access = .null := (congrFun saves .access).trans rfl
  rw [null] at same
  cases same

/-- The function for read still is. -/
theorem lookup_finds_original_iff_read :
    ∃ (c : Config Shared Pc (Fin 2)) (after : FilterState),
      fltGetOriginalVnodeOp plainVectors.table hookedFile .read c.shared.filter = .ok (.fsd 1, after) ∧
        c.shared.filter.registry.lookup hookedFile.vOp ≠ none := by
  obtain ⟨c, reached, nobody, registered⟩ := hookedFile_reached
  obtain ⟨after, found⟩ :=
    (lookup_finds_original_iff plainVectors reached nobody hookedFile ⟨.vnopRead, .read⟩
    (by decide) (by decide)).mpr (.inr (.inl ⟨⟨.vnopRead, .fltVnopReadHook⟩, by decide, rfl⟩))
  exact ⟨c, after, found, registered⟩

end FsdFilter.LookupPaths
