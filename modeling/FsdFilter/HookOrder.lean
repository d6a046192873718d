import FsdFilter.HookTables
import FsdFilter.VectorTransparency

/-! The order in which hooks appear and disappear in a vector. Vnodes are
discovered through create, open and lookup and end in reclaim and close; a vector is
ordered when no discovery is hooked before both ends are. Both loops walk the
table in one direction, and close stands behind create, open and lookup in it: a
vector is out of order in the middle of every hooking and of every unhooking. -/
namespace FsdFilter.HookOrder
open VnodeOps SlotPatch HookRegistry HookCalls VectorCounts FakeFsd HookTables Interleaving
open ReaderWriterLock HookThreads ThreadSteps ThreadAccounting ThreadProtection VectorTransparency

/-- The operations that make a vnode known. -/
def discovering : List VnodeopDesc := [.vnopCreate, .vnopOpen, .vnopLookup]

/-- The operations that tell that it is gone. -/
def ending : List VnodeopDesc := [.vnopReclaim, .vnopClose]

/-- The slot of a hook holds it. -/
def Holds (offsets : OpvOffsets) (slots : VmOffset → VopFunc)
    (hook : VnodeopvEntryDesc HookRoutine) : Prop :=
  slots (offsets.offset hook.opveOp) = .hook hook.opveImpl

/-- Whenever a discovering operation is hooked, all ending ones are. -/
def Ordered (offsets : OpvOffsets) (slots : VmOffset → VopFunc) : Prop :=
  ∀ hook ∈ gFltVnodeVopHookEntries, hook.opveOp ∈ discovering → Holds offsets slots hook →
    ∀ last ∈ gFltVnodeVopHookEntries, last.opveOp ∈ ending → Holds offsets slots last

/-- The same about the hook entries that are installed. -/
def InOrder (done : List (VnodeopvEntryDesc HookRoutine)) : Prop :=
  ∀ hook ∈ gFltVnodeVopHookEntries, hook.opveOp ∈ discovering → hook ∈ done →
    ∀ last ∈ gFltVnodeVopHookEntries, last.opveOp ∈ ending → last ∈ done

instance (done : List (VnodeopvEntryDesc HookRoutine)) : Decidable (InOrder done) :=
  inferInstanceAs (Decidable (∀ _ ∈ _, _))

/-- The hook entry of open. -/
def openHook : VnodeopvEntryDesc HookRoutine := ⟨.vnopOpen, .fltVnopOpenHook⟩

/-! ### A partly hooked vector -/

section Partly
variable {offsets : OpvOffsets} {original : VmOffset → VopFunc} {hook : VnodeopvEntryDesc HookRoutine}
  {done rest : List (VnodeopvEntryDesc HookRoutine)}

/-- Some of the hooks are installed: those slots hold their hook, and only those. -/
theorem holds_patched_iff (plain : ∀ offset routine, original offset ≠ .hook routine)
    (part : done.Sublist gFltVnodeVopHookEntries) (registered : hook ∈ gFltVnodeVopHookEntries)
    (described : hook.opveOp ∈ operations) :
    Holds offsets (patched (patchesOf offsets.table done) original) hook ↔ hook ∈ done := by
  constructor
  · intro holds
    obtain unpatched | ⟨patch, member, here, -⟩ :=
      patched_cases (patchesOf offsets.table done) original (offsets.offset hook.opveOp)
    · rw [Holds, unpatched] at holds
      exact absurd holds (plain _ _)
    · obtain ⟨other, installed, _, _, _, otherDescribed, rfl⟩ := (mem_patchesOf part.subset).mp member
      have same := offset_inj otherDescribed described here
      rw [← hook_unique (part.subset installed) registered same]
      exact installed
  · intro installed
    obtain ⟨desc, known, same⟩ := exists_enumEntry registered
    have member : (⟨offsets.offset hook.opveOp, desc.opveImpl, .hook hook.opveImpl⟩ : Patch _ _ _) ∈
        patchesOf offsets.table done :=
      (mem_patchesOf part.subset).mpr ⟨hook, installed, desc, known, same, described, rfl⟩
    have separate : Separate (patchesOf offsets.table done) :=
      (hookPatches_separate offsets).sublist (part.filterMap _)
    exact patched_at separate member

/-- A vector is ordered exactly when the hooks installed in it are in order. -/
theorem ordered_patched_iff (offsets : OpvOffsets)
    (plain : ∀ offset routine, original offset ≠ .hook routine)
    (part : done.Sublist gFltVnodeVopHookEntries) :
    Ordered offsets (patched (patchesOf offsets.table done) original) ↔ InOrder done := by
  have discovered : ∀ hook ∈ gFltVnodeVopHookEntries, hook.opveOp ∈ discovering →
      hook.opveOp ∈ operations := by
    decide
  have ended : ∀ hook ∈ gFltVnodeVopHookEntries, hook.opveOp ∈ ending →
      hook.opveOp ∈ operations := by
    decide
  refine forall₃_congr fun hook registered discovers => ?_
  rw [holds_patched_iff plain part registered (discovered hook registered discovers)]
  refine imp_congr_right fun _ => forall₃_congr fun last lastRegistered ends => ?_
  exact holds_patched_iff plain part lastRegistered (ended last lastRegistered ends)

end Partly

/-! ### What is installed in every configuration -/

/-- The vector a thread is working on and the hooks that are in it. -/
def installed : Pc → Option (VopVector × List (VnodeopvEntryDesc HookRoutine))
  | .hookIncrementNew x _ => some (x.vOp, [])
  | .hookSlots x _ rest =>
    some (x.vOp, gFltVnodeVopHookEntries.take (gFltVnodeVopHookEntries.length - rest.length))
  | .unhookSlots x _ rest => some (x.vOp, rest)
  | _ => none

section Windows
variable {T : Type} [Fintype T] {vectors : Vectors} {s : Shared} {pc : T → Pc} {v : VopVector} {t u : T}
  {done rest : List (VnodeopvEntryDesc HookRoutine)}

theorem installed_of_changing {pc : Pc} (working : changing pc = some v) :
    ∃ done, installed pc = some (v, done) := by
  cases pc with
  | hookIncrementNew | hookSlots | unhookSlots =>
    cases working
    exact ⟨_, rfl⟩
  | _ => cases working

theorem changing_of_installed {pc : Pc} (works : installed pc = some (v, done)) :
    changing pc = some v := by
  cases pc with
  | hookIncrementNew | hookSlots | unhookSlots =>
    cases works
    rfl
  | _ => cases works

theorem take_of_split (table : gFltVnodeVopHookEntries = done ++ rest) :
    gFltVnodeVopHookEntries.take (gFltVnodeVopHookEntries.length - rest.length) = done := by
  rw [table, List.length_append, Nat.add_sub_cancel, List.take_left]

/-- A vector that a thread works on is partly hooked. -/
theorem partly_hooked (transparent : Transparent vectors s pc)
    (works : installed (pc t) = some (v, done)) :
    done.Sublist gFltVnodeVopHookEntries ∧
      s.filter.mem v = patched (patchesOf vectors.table done) (vectors.original v) := by
  have asserted := transparent.asserted t
  cases at_ : pc t with
  | hookIncrementNew x p =>
    rw [at_] at asserted works
    cases works
    exact ⟨List.nil_sublist _, asserted.2.2⟩
  | hookSlots x p rest =>
    rw [at_] at asserted works
    obtain ⟨_, done, table, slots, _⟩ := asserted
    rw [installed, take_of_split table] at works
    cases works
    exact ⟨table ▸ List.sublist_append_left _ _, slots⟩
  | unhookSlots x r rest =>
    rw [at_] at asserted works
    obtain ⟨⟨done, table⟩, _, slots, _⟩ := asserted
    cases works
    exact ⟨table ▸ List.sublist_append_right _ _, slots⟩
  | _ => rw [at_] at works; cases works

/-- A vector is ordered unless a thread is working on it and the hooks that are
in it are out of order. -/
theorem ordered_iff (plain : ∀ v offset routine, vectors.original v offset ≠ .hook routine)
    (transparent : Transparent vectors s pc) (v : VopVector) :
    Ordered vectors.offsets (s.filter.mem v) ↔
      ∀ t done, installed (pc t) = some (v, done) → InOrder done := by
  by_cases working : ∃ t, changing (pc t) = some v
  · obtain ⟨t, working⟩ := working
    obtain ⟨done, works⟩ := installed_of_changing working
    obtain ⟨part, slots⟩ := partly_hooked transparent works
    rw [slots]
    constructor
    · intro ordered u other otherWorks
      obtain ⟨otherPart, otherSlots⟩ := partly_hooked transparent otherWorks
      rw [← slots, otherSlots] at ordered
      exact (ordered_patched_iff vectors.offsets (plain v) otherPart).mp ordered
    · intro inOrder
      exact (ordered_patched_iff vectors.offsets (plain v) part).mpr (inOrder t done works)
  · have settled := transparent.settled v fun t working' => working ⟨t, working'⟩
    refine iff_of_true ?_ fun t done works => absurd ⟨t, changing_of_installed works⟩ working
    cases found : s.filter.registry.lookup v with
    | none =>
      rw [settled.unregistered found]
      exact (ordered_patched_iff vectors.offsets (plain v) (List.nil_sublist _)).mpr (by decide)
    | some e =>
      rw [(settled.registered e found).1]
      exact (ordered_patched_iff vectors.offsets (plain v) (List.Sublist.refl _)).mpr (by decide)

end Windows

/-! ### Runs that stay in order -/

section Runs
variable {T : Type} {table : List FltVnodeOpvOffsetDesc} {s s' : Shared} {a : Act}

/-- The hooking loop is not about to install the open hook. -/
def keepsOrder : Guard Shared Pc T Act :=
  fun c t _ => ∀ x p rest, c.pc t ≠ .hookSlots x p (openHook :: rest)

/-- No hooking loop has come past open: every registered vector is still being
hooked, and none is being unhooked. -/
structure Unopened (s : Shared) (pc : T → Pc) : Prop where
  hooking : ∀ t x p rest, pc t = .hookSlots x p rest → openHook ∈ rest
  registered : ∀ v e, s.filter.registry.lookup v = some e → ∃ t, publishing (pc t) = some (v, e)
  restoring : ∀ t x r rest, pc t ≠ .unhookSlots x r rest

theorem unopened_start (mem : VopMemory) :
    Unopened (start (T := T) mem).shared (start (T := T) mem).pc := by
  refine ⟨fun t x p rest at_ => ?_, fun v e found => ?_, fun t x r rest at_ => ?_⟩
  · cases at_
  · cases found
  · cases at_

/-- A hooking loop that does not install open has it ahead. -/
theorem step_keepsAhead {pc pc' : Pc} (stepped : LocalStep table s a pc s' pc')
    (admitted : ∀ x p rest, pc ≠ .hookSlots x p (openHook :: rest))
    (ahead : ∀ x p rest, pc = .hookSlots x p rest → openHook ∈ rest) :
    ∀ x p rest, pc' = .hookSlots x p rest → openHook ∈ rest := by
  have next : ∀ {x p desc rest}, pc = .hookSlots x p (desc :: rest) → openHook ∈ rest := by
    intro x p desc rest at_
    cases List.mem_cons.mp (ahead x p _ at_) with
    | inl here => exact absurd (here ▸ at_) (admitted x p rest)
    | inr later => exact later
  intro x p rest at_
  cases stepped with
  | enter called resting entered => cases entered <;> cases at_
  | hookIncrementNew =>
    cases at_
    decide
  | hookSlotSkipped | hookSlotNotHooked | hookSlotInstalled =>
    cases at_
    exact next rfl
  | _ => cases at_

/-- Whoever publishes an entry goes on doing so until its loop is through. -/
theorem step_keepsPublishing {pc pc' : Pc} (stepped : LocalStep table s a pc s' pc') {v : VopVector}
    {e : EntryPtr} (made : publishing pc = some (v, e)) (more : ∀ x p, pc ≠ .hookSlots x p []) :
    publishing pc' = some (v, e) := by
  cases stepped with
  | hookIncrementNew | hookSlotSkipped | hookSlotNotHooked | hookSlotInstalled => exact made
  | hookSlotsDone => exact absurd rfl (more _ _)
  | enter called resting entered =>
    cases pc with
    | idle | done => cases made
    | _ => cases resting
  | _ => cases made

/-- An unhooking loop goes on or starts with an entry that was registered. -/
theorem step_restores {pc : Pc} {x : Vnode} {r : EntryPtr} {rest : List (VnodeopvEntryDesc HookRoutine)}
    (stepped : LocalStep table s a pc s' (.unhookSlots x r rest)) :
    (∃ e removed, pc = .unhookRemove x e ∧ s.filter.registry.lookup x.vOp = some removed) ∨
      ∃ before, pc = .unhookSlots x r before := by
  cases stepped with
  | enter called resting entered => cases entered
  | unhookRemoveFound live found => exact .inl ⟨_, _, rfl, found⟩
  | unhookSlotSkipped | unhookSlotNotHooked | unhookSlotRestored => exact .inr ⟨_, rfl⟩

variable [Fintype T] [DecidableEq T] {pc : T → Pc} {point : Pc} {t : T}

/-- While a vector is registered nobody is about to remove an entry. -/
theorem Unopened.not_removing (unopened : Unopened s pc) (safe : Protected s pc) {x : Vnode}
    {e removed : EntryPtr} (found : s.filter.registry.lookup x.vOp = some removed) :
    pc t ≠ .unhookRemove x e := by
  intro at_
  obtain ⟨u, made⟩ := unopened.registered x.vOp removed found
  have exclusive : (pc t).mode = .exclusive := by
    rw [at_]
    rfl
  by_cases self : u = t
  · rw [self, at_] at made
    cases made
  · have free := safe.inStep.alone exclusive self
    rw [publishing_exclusive made] at free
    cases free

/-- What an admitted step leaves. -/
theorem Unopened.stepped (unopened : Unopened s pc) (safe : Protected s pc)
    (admitted : ∀ x p rest, pc t ≠ .hookSlots x p (openHook :: rest))
    (stepped : LocalStep table s a (pc t) s' point) : Unopened s' (Function.update pc t point) := by
  refine ⟨fun u => ?_, fun v e found => ?_, fun u => ?_⟩
  · by_cases self : u = t
    · subst self
      rw [Function.update_self]
      exact step_keepsAhead stepped admitted (unopened.hooking u)
    · rw [Function.update_of_ne self]
      exact unopened.hooking u
  · rcases stepped.registry_cases with same | ⟨x, p, at_, after, -, inserted⟩ |
      ⟨x, r, removed, at_, -, had, -⟩
    · obtain ⟨u, made⟩ := unopened.registered v e (same ▸ found)
      by_cases self : u = t
      · subst self
        have more : ∀ x p, pc u ≠ .hookSlots x p [] := by
          intro x p at_
          cases unopened.hooking u x p [] at_
        exact ⟨u, by rw [Function.update_self]; exact step_keepsPublishing stepped made more⟩
      · exact ⟨u, by rw [Function.update_of_ne self]; exact made⟩
    · rw [inserted] at found
      by_cases here : v = x.vOp
      · subst here
        rw [AList.lookup_insert] at found
        cases found
        exact ⟨t, by rw [Function.update_self, after]; rfl⟩
      · rw [AList.lookup_insert_ne here] at found
        obtain ⟨u, made⟩ := unopened.registered v e found
        have other : u ≠ t := by
          rintro rfl
          rw [at_] at made
          cases made
        exact ⟨u, by rw [Function.update_of_ne other]; exact made⟩
    · exact absurd at_ (unopened.not_removing safe had)
  · by_cases self : u = t
    · subst self
      rw [Function.update_self]
      rintro x r rest rfl
      obtain ⟨e, removed, at_, had⟩ | ⟨before, at_⟩ := step_restores stepped
      · exact unopened.not_removing safe had at_
      · exact unopened.restoring u x r before at_
    · rw [Function.update_of_ne self]
      exact unopened.restoring u

/-- Nothing out of order is installed before open is. -/
theorem inOrder_before_open {done rest : List (VnodeopvEntryDesc HookRoutine)}
    (table : gFltVnodeVopHookEntries = done ++ rest) (ahead : openHook ∈ rest) : InOrder done := by
  have prefixes : ∀ n ≤ gFltVnodeVopHookEntries.length, openHook ∈ gFltVnodeVopHookEntries.drop n →
      InOrder (gFltVnodeVopHookEntries.take n) := by decide
  have within : done.length ≤ gFltVnodeVopHookEntries.length := by simp [table]
  have early := prefixes done.length within
  rw [table, List.drop_left, List.take_left] at early
  exact early ahead

/-- Right after open was installed the hooks are out of order. -/
theorem not_inOrder_after_open {done rest : List (VnodeopvEntryDesc HookRoutine)}
    (table : gFltVnodeVopHookEntries = done ++ openHook :: rest) : ¬InOrder (done ++ [openHook]) := by
  have prefixes : ∀ n < gFltVnodeVopHookEntries.length, gFltVnodeVopHookEntries[n]? = some openHook →
      ¬InOrder (gFltVnodeVopHookEntries.take (n + 1)) := by decide
  have within : done.length < gFltVnodeVopHookEntries.length := by simp [table]
  have late := prefixes done.length within
  rw [table, List.take_length_add_append, List.take_one] at late
  exact late (by simp)

omit [DecidableEq T] in
/-- While open is ahead of every hooking loop, every vector is ordered. -/
theorem Unopened.ordered {vectors : Vectors}
    (plain : ∀ v offset routine, vectors.original v offset ≠ .hook routine)
    (unopened : Unopened s pc) (transparent : Transparent vectors s pc) (v : VopVector) :
    Ordered vectors.offsets (s.filter.mem v) := by
  refine (ordered_iff plain transparent v).mpr fun t done works => ?_
  cases at_ : pc t with
  | hookIncrementNew x p =>
    rw [at_] at works
    cases works
    decide
  | hookSlots x p rest =>
    have asserted := transparent.asserted t
    rw [at_] at asserted works
    obtain ⟨_, before, table, _⟩ := asserted
    rw [installed, take_of_split table] at works
    cases works
    exact inOrder_before_open table (unopened.hooking t x p rest at_)
  | unhookSlots x r rest => exact absurd at_ (unopened.restoring t x r rest)
  | _ => rw [at_] at works; cases works

/-- The next point of a hooking loop. -/
theorem step_hooksNext {x : Vnode} {p : EntryPtr} {desc : VnodeopvEntryDesc HookRoutine}
    {rest : List (VnodeopvEntryDesc HookRoutine)}
    (stepped : LocalStep table s a (.hookSlots x p (desc :: rest)) s' point) :
    point = .hookSlots x p rest := by
  cases stepped with
  | enter called resting entered => cases resting
  | hookSlotSkipped | hookSlotNotHooked | hookSlotInstalled => rfl

/-- The vectors are ordered in every configuration of a run in which no hooking
loop installs the open hook, and as soon as one does, its vector is not. -/
theorem hook_order_kept_iff (vectors : Vectors)
    (plain : ∀ v offset routine, vectors.original v offset ≠ .hook routine) :
    (∀ c : Config Shared Pc T, Reaches (threads vectors.table) keepsOrder (start vectors.original) c →
        ∀ v, Ordered vectors.offsets (c.shared.filter.mem v)) ∧
      ∀ (c c' : Config Shared Pc T) (t : T) (a : Act),
        Reaches (threads vectors.table) anyStep (start vectors.original) c →
          (threads vectors.table).advance c t a = .next c' → ¬keepsOrder c t a →
            ∃ v, ¬Ordered vectors.offsets (c'.shared.filter.mem v) := by
  constructor
  · intro c reached
    have kept : Transparent vectors c.shared c.pc ∧ Unopened c.shared c.pc := by
      refine reached.invariant (fun c => Transparent vectors c.shared c.pc ∧ Unopened c.shared c.pc)
        ⟨transparent_start vectors, unopened_start vectors.original⟩ ?_
      intro c t a c' both admitted moved
      obtain ⟨point, stepped, points⟩ := localStep_of_advance moved
      rw [points]
      exact ⟨both.1.stepped stepped, both.2.stepped both.1.safe admitted stepped⟩
    exact kept.2.ordered plain kept.1
  · intro c c' t a reached moved opens
    simp only [keepsOrder, not_forall, not_not] at opens
    obtain ⟨x, p, rest, at_⟩ := opens
    obtain ⟨point, stepped, points⟩ := localStep_of_advance moved
    have asserted := (transparent_of_reaches reached).asserted t
    rw [at_] at stepped asserted
    obtain ⟨_, done, table, _⟩ := asserted
    obtain rfl := step_hooksNext stepped
    have next : gFltVnodeVopHookEntries = (done ++ [openHook]) ++ rest := by
      rw [table, List.append_assoc, List.singleton_append]
    have works : installed (c'.pc t) = some (x.vOp, done ++ [openHook]) := by
      rw [points, Function.update_self, installed, take_of_split next]
    refine ⟨x.vOp, fun ordered => not_inOrder_after_open table ?_⟩
    exact (ordered_iff plain (transparent_of_reaches (.step reached trivial moved)) x.vOp).mp
      ordered t _ works

end Runs

/-- Vectors full of functions of one file system. -/
def fileVectors : Vectors := .ofFileSystems .consecutive fun _ _ => 1

theorem fileVectors_plain (v : VopVector) (offset : VmOffset) (routine : HookRoutine) :
    fileVectors.original v offset ≠ .hook routine := by
  intro same
  cases same

/-- The steps of a call that hooks a vector, up to the open hook. -/
def hooksUpToOpen : List (Fin 2 × Act) :=
  takes thread0 [.call (.hook ⟨64, .vreg, false⟩), .run, .allocate (.within 4), .run, .run,
    .insert true, .run, .run, .run]

/-- The loop stands before the open hook and can go on. -/
private theorem open_reached :
    ∃ c c' : Config Shared Pc (Fin 2),
      Reaches (threads fileVectors.table) anyStep (start fileVectors.original) c ∧
      c.pc thread0 = .hookSlots ⟨64, .vreg, false⟩ 0 (openHook :: gFltVnodeVopHookEntries.drop 3) ∧
      (threads fileVectors.table).advance c thread0 .run = .next c' := by
  obtain ⟨c, reached, ends⟩ := exists_reached_of_replay (threads fileVectors.table) anyStep
    (start fileVectors.original) hooksUpToOpen
    (fun c => c.pc thread0 = .hookSlots ⟨64, .vreg, false⟩ 0 (openHook :: gFltVnodeVopHookEntries.drop 3) ∧
      ((threads fileVectors.table).replay anyStep (takes thread0 [.run]) c).isSome) (by decide +kernel)
  obtain ⟨at_, moves⟩ := of_decide_eq_true ends
  obtain ⟨c', moved⟩ := Option.isSome_iff_exists.mp moves
  exact ⟨c, c', reached, at_, System.advance_of_replay moved⟩

/-- The thread goes on to install the open hook. -/
theorem hook_order_kept_iff_open :
    ∃ c c' : Config Shared Pc (Fin 2),
      Reaches (threads fileVectors.table) anyStep (start fileVectors.original) c ∧
      (threads fileVectors.table).advance c thread0 .run = .next c' ∧
      ∃ v, ¬Ordered fileVectors.offsets (c'.shared.filter.mem v) := by
  obtain ⟨c, c', reached, at_, moved⟩ := open_reached
  refine ⟨c, c', reached, moved, ?_⟩
  exact (hook_order_kept_iff (T := Fin 2) fileVectors fileVectors_plain).2 c c' thread0 .run
    reached moved
    fun keeps => keeps _ _ _ at_

/-- Open is hooked while close is not: the first hook of a file passes through
such a vector. -/
theorem open_before_close :
    ¬∀ (vectors : Vectors) (c : Config Shared Pc (Fin 2)),
      (∀ v offset routine, vectors.original v offset ≠ .hook routine) →
        Reaches (threads vectors.table) anyStep (start vectors.original) c →
          ∀ v, Ordered vectors.offsets (c.shared.filter.mem v) := by
  intro always
  obtain ⟨c, reached, ends⟩ := exists_reached_of_replay (threads fileVectors.table) anyStep
    (start fileVectors.original) (hooksUpToOpen ++ takes thread0 [.run])
    (fun c => c.shared.filter.mem 64 (fileVectors.offsets.offset .vnopOpen) = .hook .fltVnopOpenHook ∧
      c.shared.filter.mem 64 (fileVectors.offsets.offset .vnopClose) = .fsd 1) (by decide +kernel)
  obtain ⟨opened, notClosed⟩ := of_decide_eq_true ends
  have closed :=
    always fileVectors c fileVectors_plain reached 64 openHook (by decide) (by decide) opened
    ⟨.vnopClose, .fltVnopCloseHook⟩ (by decide) (by decide)
  rw [Holds, notClosed] at closed
  cases closed

end FsdFilter.HookOrder
