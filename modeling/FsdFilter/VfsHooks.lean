import FsdFilter.CallHistories

/-! The hook routines that the slots of a hooked vector hold. Each one looks the
file system's function up through a vnode of its argument block and calls it.
The kernel enters a routine through the slot of one particular vnode; the two
vnodes are the same in all routines but that of the rename operation. -/
namespace FsdFilter.VfsHooks
open StateRuns VnodeOps SlotPatch HookRegistry HookCalls VectorCounts HookRefinement CallHistories

/-- The argument block of an operation on one vnode; `others` stands for the
fields that no hook reads. -/
structure VnopVpArgs (B : Type) where
  aVp : Vnode
  others : B
  deriving DecidableEq

/-- The argument block of an operation on a name in a directory. -/
structure VnopDvpArgs (B : Type) where
  aDvp : Vnode
  others : B
  deriving DecidableEq

/-- `struct vnop_rename_args`. -/
structure VnopRenameArgs (B : Type) where
  aFdvp : Vnode
  aFvp : Vnode
  aTdvp : Vnode
  aTvp : Option Vnode
  others : B
  deriving DecidableEq

/-- `struct vnop_exchange_args`. -/
structure VnopExchangeArgs (B : Type) where
  aFvp : Vnode
  aTvp : Vnode
  others : B
  deriving DecidableEq

/-- The argument blocks of the hooked operations. -/
inductive VnopArgs (B : Type) where
  | reclaim (ap : VnopVpArgs B)
  | read (ap : VnopVpArgs B)
  | «open» (ap : VnopVpArgs B)
  | write (ap : VnopVpArgs B)
  | pagein (ap : VnopVpArgs B)
  | pageout (ap : VnopVpArgs B)
  | lookup (ap : VnopDvpArgs B)
  | create (ap : VnopDvpArgs B)
  | close (ap : VnopVpArgs B)
  | inactive (ap : VnopVpArgs B)
  | rename (ap : VnopRenameArgs B)
  | exchange (ap : VnopExchangeArgs B)
  deriving DecidableEq

variable {B : Type}

/-- A call that a hook has made. -/
structure VnopCall (B : Type) where
  func : VopFunc
  args : VnopArgs B
  deriving DecidableEq

/-- The hook routines run on the state of the filter and keep what they call. -/
abbrev HookM (B : Type) : Type → Type := StateT (List (VnopCall B)) FilterM

/-- What the hooks find outside the filter: what the functions of the file
systems return and which directory `vnode_getparent` finds. -/
structure Kernel (B : Type) where
  returns : VopFunc → VnopArgs B → ℤ
  vnodeGetparent : Vnode → Option Vnode

/-- Calls a function of a file system. -/
def Kernel.call (kernel : Kernel B) (func : VopFunc) (args : VnopArgs B) : HookM B ℤ := do
  modify fun calls => calls ++ [⟨func, args⟩]
  pure (kernel.returns func args)

/-! ### The routines -/

section Routines
variable (kernel : Kernel B) (offsets : List FltVnodeOpvOffsetDesc)

/-- What the routines have in common. -/
def forward (vnode : Vnode) (indx : FltVopEnum) (args : VnopArgs B) : HookM B ℤ := do
  let origVnop ← fltGetOriginalVnodeOp offsets vnode indx
  kernel.call origVnop args

def fltVnopLookupHook (ap : VnopDvpArgs B) : HookM B ℤ :=
  forward kernel offsets ap.aDvp .lookup (.lookup ap)

def fltVnopCreateHook (ap : VnopDvpArgs B) : HookM B ℤ :=
  forward kernel offsets ap.aDvp .create (.create ap)

def fltVnopCloseHook (ap : VnopVpArgs B) : HookM B ℤ :=
  forward kernel offsets ap.aVp .close (.close ap)

def fltVnopInactiveHook (ap : VnopVpArgs B) : HookM B ℤ :=
  forward kernel offsets ap.aVp .inactive (.inactive ap)

def fltVnopReadHook (ap : VnopVpArgs B) : HookM B ℤ :=
  forward kernel offsets ap.aVp .read (.read ap)

def fltVnopOpenHook (ap : VnopVpArgs B) : HookM B ℤ :=
  forward kernel offsets ap.aVp .open (.open ap)

def fltVnopPageinHook (ap : VnopVpArgs B) : HookM B ℤ :=
  forward kernel offsets ap.aVp .pagein (.pagein ap)

def fltVnopWriteHook (ap : VnopVpArgs B) : HookM B ℤ :=
  forward kernel offsets ap.aVp .write (.write ap)

def fltVnopPageoutHook (ap : VnopVpArgs B) : HookM B ℤ :=
  forward kernel offsets ap.aVp .pageout (.pageout ap)

def fltVnopRenameHook (ap : VnopRenameArgs B) : HookM B ℤ :=
  forward kernel offsets ap.aFvp .rename (.rename ap)

def fltVnopExchangeHook (ap : VnopExchangeArgs B) : HookM B ℤ :=
  forward kernel offsets ap.aFvp .exchange (.exchange ap)

/-- The vnode is forgotten between the lookup and the call. -/
def fltFsdReclaimHook (ap : VnopVpArgs B) : HookM B ℤ := do
  let origVnop ← fltGetOriginalVnodeOp offsets ap.aVp .reclaim
  fltUnHookVnodeVopAndParent offsets ap.aVp (kernel.vnodeGetparent ap.aVp)
  kernel.call origVnop (.reclaim ap)

/-- The hook that takes an argument block. -/
def VnopArgs.hook : VnopArgs B → HookM B ℤ
  | .reclaim ap => fltFsdReclaimHook kernel offsets ap
  | .read ap => fltVnopReadHook kernel offsets ap
  | .open ap => fltVnopOpenHook kernel offsets ap
  | .write ap => fltVnopWriteHook kernel offsets ap
  | .pagein ap => fltVnopPageinHook kernel offsets ap
  | .pageout ap => fltVnopPageoutHook kernel offsets ap
  | .lookup ap => fltVnopLookupHook kernel offsets ap
  | .create ap => fltVnopCreateHook kernel offsets ap
  | .close ap => fltVnopCloseHook kernel offsets ap
  | .inactive ap => fltVnopInactiveHook kernel offsets ap
  | .rename ap => fltVnopRenameHook kernel offsets ap
  | .exchange ap => fltVnopExchangeHook kernel offsets ap

end Routines

namespace VnopArgs

/-- The routine that a slot of the operation holds. -/
def routine : VnopArgs B → HookRoutine
  | .reclaim _ => .fltFsdReclaimHook
  | .read _ => .fltVnopReadHook
  | .open _ => .fltVnopOpenHook
  | .write _ => .fltVnopWriteHook
  | .pagein _ => .fltVnopPageinHook
  | .pageout _ => .fltVnopPageoutHook
  | .lookup _ => .fltVnopLookupHook
  | .create _ => .fltVnopCreateHook
  | .close _ => .fltVnopCloseHook
  | .inactive _ => .fltVnopInactiveHook
  | .rename _ => .fltVnopRenameHook
  | .exchange _ => .fltVnopExchangeHook

/-- The index a routine looks the original up at. -/
def indx : VnopArgs B → FltVopEnum
  | .reclaim _ => .reclaim
  | .read _ => .read
  | .open _ => .open
  | .write _ => .write
  | .pagein _ => .pagein
  | .pageout _ => .pageout
  | .lookup _ => .lookup
  | .create _ => .create
  | .close _ => .close
  | .inactive _ => .inactive
  | .rename _ => .rename
  | .exchange _ => .exchange

/-- The vnode a routine looks the original up through. -/
def lookupVnode : VnopArgs B → Vnode
  | .lookup ap | .create ap => ap.aDvp
  | .rename ap => ap.aFvp
  | .exchange ap => ap.aFvp
  | .reclaim ap | .read ap | .open ap | .write ap | .pagein ap | .pageout ap | .close ap
  | .inactive ap => ap.aVp

/-- The vnode whose vector the kernel dispatches the operation through. -/
def dispatchVnode : VnopArgs B → Vnode
  | .lookup ap | .create ap => ap.aDvp
  | .rename ap => ap.aFdvp
  | .exchange ap => ap.aFvp
  | .reclaim ap | .read ap | .open ap | .write ap | .pagein ap | .pageout ap | .close ap
  | .inactive ap => ap.aVp

end VnopArgs

/-! ### What the routines do -/

section Runs
variable {vectors : Vectors} {s s' : FilterState} {patch : Patch VmOffset FltVopEnum VopFunc}
  {α β : Type} (kernel : Kernel B) (calls : List (VnopCall B))

theorem HookM.bind_lift {first : FilterM α} {next : α → HookM B β} {a : α}
    (ran : first s = .ok (a, s')) :
    ((liftM first : HookM B α) >>= next) calls s = next a calls s' := by
  simp only [bind, StateT.bind, liftM, monadLift, MonadLift.monadLift, StateT.lift, Except.bind, ran,
    pure]
  rfl

theorem forward_run (wf : WellFormed vectors s) (member : patch ∈ vectors.patches) (vnode : Vnode)
    (args : VnopArgs B) :
    forward kernel vectors.table vnode patch.index args calls s =
      .ok ((kernel.returns (vectors.original vnode.vOp patch.addr) args,
        calls ++ [⟨vectors.original vnode.vOp patch.addr, args⟩]), s) :=
  HookM.bind_lift calls (getOriginal_run wf member vnode)

/-- A vnode and its parent are taken back one after the other. -/
theorem unhookAndParent_run (wf : WellFormed vectors s) (vnode : Vnode) (parent : Option Vnode) :
    ∃ s', fltUnHookVnodeVopAndParent vectors.table vnode parent s = .ok ((), s') ∧
      WellFormed vectors s' ∧
        countsOf s' = (vnode :: parent.toList).foldl Counts.unhook (countsOf s) := by
  obtain ⟨middle, ran, kept, counts⟩ := unhook_refines wf vnode
  cases parent with
  | none => exact ⟨middle, bind_ok ran, kept, counts⟩
  | some parent =>
    obtain ⟨s', ran', kept', counts'⟩ := unhook_refines kept parent
    exact ⟨s', (bind_ok ran).trans ran', kept', by rw [counts', counts]; rfl⟩

/-- The reclaim hook calls what it found before the vnode was taken back. -/
theorem reclaim_run (wf : WellFormed vectors s) (member : patch ∈ vectors.patches)
    (index : patch.index = .reclaim) (ap : VnopVpArgs B) :
    ∃ s', fltFsdReclaimHook kernel vectors.table ap calls s =
        .ok ((kernel.returns (vectors.original ap.aVp.vOp patch.addr) (.reclaim ap),
          calls ++ [⟨vectors.original ap.aVp.vOp patch.addr, .reclaim ap⟩]), s') ∧
      WellFormed vectors s' ∧ countsOf s' =
        (ap.aVp :: (kernel.vnodeGetparent ap.aVp).toList).foldl Counts.unhook (countsOf s) := by
  obtain ⟨s', ran, kept⟩ := unhookAndParent_run wf ap.aVp (kernel.vnodeGetparent ap.aVp)
  have found := getOriginal_run wf member ap.aVp
  rw [index] at found
  exact ⟨s', (HookM.bind_lift calls found).trans (HookM.bind_lift calls ran), kept⟩

/-- Every routine calls one function once: the one the file system has in the
slot of the vnode that the routine looks up through. -/
theorem hook_run (wf : WellFormed vectors s) (member : patch ∈ vectors.patches) (args : VnopArgs B)
    (slot : patch.index = args.indx) :
    ∃ s', args.hook kernel vectors.table calls s =
      .ok ((kernel.returns (vectors.original args.lookupVnode.vOp patch.addr) args,
        calls ++ [⟨vectors.original args.lookupVnode.vOp patch.addr, args⟩]), s') := by
  cases args with
  | reclaim ap =>
    obtain ⟨s', ran, _⟩ := reclaim_run kernel calls wf member slot ap
    exact ⟨s', ran⟩
  | read ap | «open» ap | write ap | pagein ap | pageout ap | close ap | inactive ap =>
    have ran := forward_run kernel calls wf member ap.aVp
    rw [slot] at ran
    exact ⟨s, ran _⟩
  | lookup ap | create ap =>
    have ran := forward_run kernel calls wf member ap.aDvp
    rw [slot] at ran
    exact ⟨s, ran _⟩
  | rename ap | exchange ap =>
    have ran := forward_run kernel calls wf member ap.aFvp
    rw [slot] at ran
    exact ⟨s, ran _⟩

end Runs

/-! ### The result -/

section Forwarding
variable {vectors : Vectors} {s s' : FilterState} {patch : Patch VmOffset FltVopEnum VopFunc}

/-- Calls run to completion keep a state well-formed. -/
theorem runCalls_wellFormed {history : List Call} {answers : List (Option HookReturn)}
    (wf : WellFormed vectors s) (ran : runCalls vectors.table history s = .ok (answers, s')) :
    WellFormed vectors s' := by
  induction history generalizing s answers with
  | nil => cases ran; exact wf
  | cons call history ih =>
    have stepped : ∃ answer middle, call.run vectors.table s = .ok (answer, middle) ∧
        WellFormed vectors middle := by
      cases call with
      | hook supply vnode =>
        obtain ⟨middle, hooked, kept, _⟩ := hook_refines wf supply vnode
        exact ⟨_, middle, bind_ok hooked, kept⟩
      | unhook vnode =>
        obtain ⟨middle, unhooked, kept, _⟩ := unhook_refines wf vnode
        exact ⟨_, middle, bind_ok unhooked, kept⟩
    obtain ⟨answer, middle, first, kept⟩ := stepped
    rw [runCalls, bind_ok first] at ran
    cases rest : runCalls vectors.table history middle with
    | error fault => simp [bind, StateT.bind, Except.bind, rest] at ran
    | ok last =>
      rw [bind_ok rest] at ran
      cases ran
      exact ih kept rest

/-- A hook is found only in a slot it was installed in. -/
theorem hooked_slot (wf : WellFormed vectors s) {v : VopVector} {slot : VmOffset}
    {routine : HookRoutine} (foreign : vectors.original v slot ≠ .hook routine)
    (holds : s.mem v slot = .hook routine) :
    ∃ patch ∈ vectors.patches, patch.addr = slot ∧ patch.value = .hook routine := by
  cases found : s.registry.lookup v with
  | none =>
    rw [wf.unhooked found] at holds
    exact absurd holds foreign
  | some p =>
    rw [wf.hooked found] at holds
    rcases patched_cases vectors.patches (vectors.original v) slot with
      kept | ⟨patch, member, at_, gives⟩
    · exact absurd (kept.symm.trans holds) foreign
    · exact ⟨patch, member, at_, gives.symm.trans holds⟩

/-- A routine saves and looks up at the same index. -/
theorem patch_indx (member : patch ∈ vectors.patches) {args : VnopArgs B}
    (gives : patch.value = .hook args.routine) : patch.index = args.indx := by
  rw [Vectors.patches, Vectors.table, hookPatches_table] at member
  simp only [List.mem_cons, List.not_mem_nil, or_false] at member
  rcases member with rfl | rfl | rfl | rfl | rfl | rfl | rfl | rfl | rfl | rfl | rfl <;>
    cases args <;> first | rfl | cases gives

/-- The routine that was entered through `slot` calls exactly once, with its own
argument block, what the file system had there, and returns what that returns. -/
def Forwards (kernel : Kernel B) (vectors : Vectors) (s : FilterState) (args : VnopArgs B)
    (slot : VmOffset) : Prop :=
  ∀ calls, ∃ s', args.hook kernel vectors.table calls s =
    .ok ((kernel.returns (vectors.original args.dispatchVnode.vOp slot) args,
      calls ++ [⟨vectors.original args.dispatchVnode.vOp slot, args⟩]), s')

/-- A renamed vnode's file system has the function in the slot that the one of
its directory has there. -/
def SameOriginal (vectors : Vectors) (slot : VmOffset) : VnopArgs B → Prop
  | .rename ap => vectors.original ap.aFvp.vOp slot = vectors.original ap.aFdvp.vOp slot
  | _ => True

/-- **Hook routines are transparent** to the vector they were dispatched through,
a rename only as far as its two vectors agree. -/
theorem forwards_iff (kernel : Kernel B) (vectors : Vectors)
    (foreign : ∀ v slot routine, vectors.original v slot ≠ .hook routine)
    {history : List Call} {answers : List (Option HookReturn)} {s : FilterState}
    (reached : runCalls vectors.table history (FilterState.initial vectors.original) = .ok (answers, s))
    {args : VnopArgs B} {slot : VmOffset}
    (entered : s.mem args.dispatchVnode.vOp slot = .hook args.routine) :
    Forwards kernel vectors s args slot ↔ SameOriginal vectors slot args := by
  have wf : WellFormed vectors s := runCalls_wellFormed (wellFormed_initial vectors) reached
  obtain ⟨patch, member, rfl, gives⟩ := hooked_slot wf (foreign _ _ _) entered
  have index := patch_indx member gives
  have called : Forwards kernel vectors s args patch.addr ↔
      vectors.original args.lookupVnode.vOp patch.addr =
      vectors.original args.dispatchVnode.vOp patch.addr := by
    constructor
    · intro forwards
      obtain ⟨_, promised⟩ := forwards []
      obtain ⟨_, ran⟩ := hook_run kernel [] wf member args index
      rw [promised] at ran
      simp only [Except.ok.injEq, Prod.mk.injEq, List.nil_append, List.cons.injEq,
        VnopCall.mk.injEq] at ran
      exact ran.1.2.1.1.symm
    · intro same calls
      obtain ⟨s', ran⟩ := hook_run kernel calls wf member args index
      exact ⟨s', same ▸ ran⟩
  rw [called]
  cases args with
  | rename ap => rfl
  | _ => exact iff_of_true rfl trivial

/-- What is called for the functions at the addresses of their vectors; no vnode
has a parent. -/
def returnsAddress : Kernel Unit where
  returns
    | .fsd address, _ => address
    | _, _ => -1
  vnodeGetparent _ := none

/-- File systems with one function each, at the address of the vector. -/
def separateFileSystems : Vectors := .ofFileSystems .consecutive fun v _ => v.toNat

/-- A directory of the vector at 64 is hooked. -/
def hookedDirectory : List Call := [.hook ⟨.within 1, true⟩ ⟨64, .vdir, false⟩]

theorem exists_ran (result : Except Fault (List (Option HookReturn) × FilterState))
    (p : FilterState → Bool) (ends : result.toOption.map (fun last => p last.2) = some true) :
    ∃ answers s, result = .ok (answers, s) ∧ p s = true := by
  cases result with
  | error fault => cases ends
  | ok last => exact ⟨last.1, last.2, rfl, Option.some.inj ends⟩

theorem forwards_reclaim :
    ∃ answers s, runCalls separateFileSystems.table hookedDirectory
        (FilterState.initial separateFileSystems.original) = .ok (answers, s) ∧
      Forwards returnsAddress separateFileSystems s (.reclaim ⟨⟨64, .vdir, false⟩, ()⟩)
        (OpvOffsets.consecutive.offset .vnopReclaim) := by
  obtain ⟨answers, s, reached, entered⟩ := exists_ran
    (runCalls separateFileSystems.table hookedDirectory
      (FilterState.initial separateFileSystems.original))
    (fun s => s.mem 64 (OpvOffsets.consecutive.offset .vnopReclaim) = .hook .fltFsdReclaimHook)
    (by decide +kernel)
  let args : VnopArgs Unit := .reclaim ⟨⟨64, .vdir, false⟩, ()⟩
  have hooked : s.mem args.dispatchVnode.vOp (OpvOffsets.consecutive.offset .vnopReclaim) =
      .hook args.routine := of_decide_eq_true entered
  exact ⟨answers, s, reached,
    (forwards_iff returnsAddress separateFileSystems (by nofun) reached hooked).mpr trivial⟩

/-- A fifo of another file system is renamed in the hooked directory. -/
def renamedFifo : VnopArgs Unit :=
  .rename ⟨⟨64, .vdir, false⟩, ⟨128, .vfifo, false⟩, ⟨64, .vdir, false⟩, none, ()⟩

/-- Without the condition the function of another file system is called. -/
theorem rename_calls_other_file_system :
    ¬ ∀ history answers s (args : VnopArgs Unit) slot,
      runCalls separateFileSystems.table history (FilterState.initial separateFileSystems.original) =
          .ok (answers, s) →
        s.mem args.dispatchVnode.vOp slot = .hook args.routine →
          Forwards returnsAddress separateFileSystems s args slot := by
  intro always
  obtain ⟨answers, s, reached, found⟩ := exists_ran
    (runCalls separateFileSystems.table hookedDirectory
      (FilterState.initial separateFileSystems.original))
    (fun s => s.mem 64 (OpvOffsets.consecutive.offset .vnopRename) = .hook .fltVnopRenameHook ∧
      ((renamedFifo.hook returnsAddress OpvOffsets.consecutive.table [] s).toOption.map (·.1.1)) =
      some 128)
    (by decide +kernel)
  obtain ⟨entered, called⟩ := of_decide_eq_true found
  obtain ⟨s', promised⟩ := always hookedDirectory answers s renamedFifo _ reached entered []
  change renamedFifo.hook returnsAddress OpvOffsets.consecutive.table [] s = _ at promised
  rw [promised] at called
  cases called

end Forwarding

end FsdFilter.VfsHooks
