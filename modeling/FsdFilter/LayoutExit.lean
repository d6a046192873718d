import Mathlib.Logic.Function.Iterate
import FsdFilter.LayoutSoundness

/-! The whole of `FltGetVnodeLayout`, with the file system it registers, the
probe vnodes it creates and the count of them; what the kernel does when they are
given back is left open. A failed inference leaves no trace unless the second
vnode could not be created, a word of the first one led to some of the fake
functions (the offsets recorded on the way are kept), or the kernel does not
remove the file system. -/
namespace FsdFilter.LayoutExit
open VnodeOps HookRegistry FakeFsd PagedMemory KeyedWrites VnodeLayout LayoutScans LayoutSoundness

/-- The assertions on `gVnodeCount` from the exit label on. -/
inductive CountAssertion where
  | twoForFirst | oneForSecond | someForReclaim | noneAtExit | noneAtUnregister
  deriving DecidableEq, Repr

/-- What the inference has to give back. `violated` collects the assertions that
did not hold. -/
structure ProbeState where
  gFltFakeFsdHandle : Bool
  gVnodeCount : Int32
  recycled : List VmOffset
  put : List VmOffset
  violated : List CountAssertion
  deriving DecidableEq, Repr

namespace ProbeState

/-- Nothing is registered and no vnode was created. -/
def initial : ProbeState := ⟨false, 0, [], [], []⟩

def check (s : ProbeState) (assertion : CountAssertion) (holds : Bool) : ProbeState :=
  if holds then s else { s with violated := s.violated ++ [assertion] }

end ProbeState

/-- `FltRegisterFakeFsd`; `vfs_fsadd` fills in the handle when it succeeds. -/
def fltRegisterFakeFsd (vfsFsadd : Bool) (s : ProbeState) : IOReturn × ProbeState :=
  if vfsFsadd then (.kIOReturnSuccess, { s with gFltFakeFsdHandle := true }) else (.kIOReturnError, s)

/-- `FltFakeFsdCreateVnode`: a created vnode is counted. -/
def fltFakeFsdCreateVnode (vnodeCreate : Option VmOffset) (s : ProbeState) :
    Option VmOffset × ProbeState :=
  match vnodeCreate with
  | some vNode => (some vNode, { s with gVnodeCount := s.gVnodeCount + 1 })
  | none => (none, s)

/-- `FltFakeFsdReclaim`. -/
def fltFakeFsdReclaim (s : ProbeState) : ProbeState :=
  let s := s.check .someForReclaim (s.gVnodeCount ≠ 0)
  { s with gVnodeCount := s.gVnodeCount - 1 }

/-- What the kernel does in the calls of the exit path: how often `vnode_recycle` and
`vnode_put` of a vnode enter `FltFakeFsdReclaim`, and whether `vfs_fsremove` removes
the file system or returns an error. -/
structure ExitServices where
  vnodeRecycle : VmOffset → ℕ
  vnodePut : VmOffset → ℕ
  vfsFsremove : Bool

/-- A recycled vnode is reclaimed "when the reference count is 0x0 (which is true for
the next vnode_put() call)": between them the two calls reclaim it once. -/
def ExitServices.ReclaimOnce (kernel : ExitServices) (vNodes : List VmOffset) : Prop :=
  ∀ vNode ∈ vNodes, kernel.vnodeRecycle vNode + kernel.vnodePut vNode = 1

section Services
variable (kernel : ExitServices)

/-- `vnode_recycle`. -/
def vnodeRecycle (vNode : VmOffset) (s : ProbeState) : ProbeState :=
  fltFakeFsdReclaim^[kernel.vnodeRecycle vNode] { s with recycled := s.recycled ++ [vNode] }

/-- `vnode_put`. -/
def vnodePut (vNode : VmOffset) (s : ProbeState) : ProbeState :=
  fltFakeFsdReclaim^[kernel.vnodePut vNode] { s with put := s.put ++ [vNode] }

/-- `FltUnRegisterFakeFsd`. A file system that is not removed keeps its handle. -/
def fltUnRegisterFakeFsd (s : ProbeState) : IOReturn × ProbeState :=
  let s := s.check .noneAtUnregister (s.gVnodeCount = 0)
  if s.gFltFakeFsdHandle then
    if kernel.vfsFsremove then (.kIOReturnSuccess, { s with gFltFakeFsdHandle := false })
    else (.kIOReturnError, s)
  else (.kIOReturnSuccess, s)

/-- What the exit label does for one of the vnodes, if it was created. -/
def giveBack (vNode : Option VmOffset) (assertion : CountAssertion) (count : Int32) (s : ProbeState) :
    ProbeState :=
  match vNode with
  | some vNode =>
    vnodePut kernel vNode (vnodeRecycle kernel vNode (s.check assertion (s.gVnodeCount = count)))
  | none => s

/-- `FltGetVnodeLayout` from its exit label on. What `FltUnRegisterFakeFsd` returns is
dropped. -/
def leave (vNode1 vNode2 : Option VmOffset) (s : ProbeState) : ProbeState :=
  let s := giveBack kernel vNode2 .oneForSecond 1 (giveBack kernel vNode1 .twoForFirst 2 s)
  (fltUnRegisterFakeFsd kernel (s.check .noneAtExit (s.gVnodeCount = 0))).2

end Services

/-- `FltGetVnodeLayout` with everything it creates and gives back. -/
def fltGetVnodeLayoutProbed (memory : Memory) (functions : LoadedFunctions) (services : LayoutServices)
    (kernel : ExitServices) : ScanM (LayoutResult × ProbeState) :=
  match fltRegisterFakeFsd services.vfsFsadd .initial with
  | (.kIOReturnSuccess, s) =>
    match fltFakeFsdCreateVnode services.vnodeCreate1 s with
    | (none, s) => pure (.failed gFltVnodeOpvOffsetDesc, leave kernel none none s)
    | (some vNode1, s) =>
      match fltFakeFsdCreateVnode services.vnodeCreate2 s with
      | (none, s) => pure (.failed gFltVnodeOpvOffsetDesc, leave kernel (some vNode1) none s)
      | (some vNode2, s) => do
        let result ← inferLayout memory functions services.fltGetMountLayout vNode1 vNode2
        pure (result, leave kernel (some vNode1) (some vNode2) s)
  | (_, s) => pure (.failed gFltVnodeOpvOffsetDesc, leave kernel none none s)

/-- The probe vnodes that were created. -/
def createdVnodes (services : LayoutServices) : List VmOffset :=
  if services.vfsFsadd then
    match services.vnodeCreate1 with
    | some vNode1 => vNode1 :: services.vnodeCreate2.toList
    | none => []
  else []

/-- Nothing is left behind: the offsets are unknown, every vnode that was created
has been recycled and put once, none is counted, the assertions on the count
held, and the file system is not registered. -/
structure NothingLeft (services : LayoutServices) (result : LayoutResult) (s : ProbeState) : Prop where
  vop : result.gVNodeVopOffset = fltVopUnknownOffset
  operations : ∀ desc ∈ result.offsets, desc.offset = fltVopUnknownOffset
  recycled : s.recycled = createdVnodes services
  put : s.put = createdVnodes services
  count : s.gVnodeCount = 0
  asserted : s.violated = []
  unregistered : s.gFltFakeFsdHandle = false

/-- No word of the first vnode before the data points to memory with a fake
function in its first 100 readable words. -/
def NothingMet (memory : Memory) (functions : LoadedFunctions) (vNode1 vNode2 : VmOffset) : Prop :=
  ∀ n, headerWords memory vNode1 vNode2 = some n → vNode1.toNat + 8 * n < 2 ^ 64 →
    ∀ j < n, vNodeWord memory vNode1 j ≠ 0 →
    vectorOperations memory functions (vNodeWord memory vNode1 j) = []

/-- A registered file system can be removed, and when one probe vnode is created, so is
the other one, and nothing is met. -/
def LeavesNothing (memory : Memory) (functions : LoadedFunctions) (services : LayoutServices)
    (kernel : ExitServices) : Prop :=
  services.vfsFsadd = true → kernel.vfsFsremove = true ∧ ∀ vNode1, services.vnodeCreate1 =
    some vNode1 →
    ∃ vNode2, services.vnodeCreate2 = some vNode2 ∧ NothingMet memory functions vNode1 vNode2

variable {memory : Memory} {functions : LoadedFunctions} {services : LayoutServices}
  {kernel : ExitServices} {vNode1 vNode2 : VmOffset}

/-- The vnodes and the registration do not change what is inferred. -/
theorem fltGetVnodeLayoutProbed_result (memory : Memory) (functions : LoadedFunctions)
    (services : LayoutServices) (kernel : ExitServices) :
    (fltGetVnodeLayoutProbed memory functions services kernel).map Prod.fst =
      fltGetVnodeLayout memory functions services := by
  unfold fltGetVnodeLayoutProbed fltGetVnodeLayout
  cases services.vfsFsadd with
  | false => rfl
  | true =>
    cases services.vnodeCreate1 with
    | none => rfl
    | some vNode1 =>
      cases services.vnodeCreate2 with
      | none => rfl
      | some vNode2 =>
        simp only [fltRegisterFakeFsd, if_true, fltFakeFsdCreateVnode]
        cases inferLayout memory functions services.fltGetMountLayout vNode1 vNode2 <;> rfl

section Exit

/-- A vnode that is recycled and put is counted out, in whichever call the reclaim comes. -/
theorem put_recycled (once : kernel.vnodeRecycle vNode1 + kernel.vnodePut vNode1 = 1) (s : ProbeState) :
    vnodePut kernel vNode1 (vnodeRecycle kernel vNode1 s) =
      fltFakeFsdReclaim { s with recycled := s.recycled ++ [vNode1], put := s.put ++ [vNode1] } := by
  have calls : kernel.vnodeRecycle vNode1 = 0 ∧ kernel.vnodePut vNode1 = 1 ∨
      kernel.vnodeRecycle vNode1 = 1 ∧ kernel.vnodePut vNode1 = 0 := by omega
  rcases calls with ⟨recycle, put⟩ | ⟨recycle, put⟩
  · rw [vnodePut, vnodeRecycle, recycle, put]
    rfl
  · rw [vnodePut, vnodeRecycle, recycle, put]
    simp only [Function.iterate_one, Function.iterate_zero, id_eq, fltFakeFsdReclaim, ProbeState.check]
    split_ifs <;> rfl

/-- Without a vnode only the file system is left. -/
theorem leave_none (kernel : ExitServices) :
    leave kernel none none ⟨true, 0, [], [], []⟩ = ⟨!kernel.vfsFsremove, 0, [], [], []⟩ := by
  cases removed : kernel.vfsFsremove <;> simp [leave, giveBack, ProbeState.check,
    fltUnRegisterFakeFsd, removed]

/-- With both vnodes the exit gives them back. -/
theorem leave_both (once : kernel.ReclaimOnce [vNode1, vNode2]) :
    leave kernel (some vNode1) (some vNode2) ⟨true, 2, [], [], []⟩ =
      ⟨!kernel.vfsFsremove, 0, [vNode1, vNode2], [vNode1, vNode2], []⟩ := by
  simp only [leave, giveBack, put_recycled (once vNode1 (by simp)), put_recycled (once vNode2 (by simp))]
  cases removed : kernel.vfsFsremove <;>
    simp [ProbeState.check, fltFakeFsdReclaim, fltUnRegisterFakeFsd, removed]

/-- With one vnode its assertion counts one too many. -/
theorem leave_first (once : kernel.ReclaimOnce [vNode1]) :
    leave kernel (some vNode1) none ⟨true, 1, [], [], []⟩ =
      ⟨!kernel.vfsFsremove, 0, [vNode1], [vNode1], [.twoForFirst]⟩ := by
  simp only [leave, giveBack, put_recycled (once vNode1 (by simp))]
  cases removed : kernel.vfsFsremove <;>
    simp [ProbeState.check, fltFakeFsdReclaim, fltUnRegisterFakeFsd, removed]

end Exit

section Offsets

/-- Only offsets of slots are recorded, for operations that are looked for. -/
theorem known_of_mem_passedOperations {n : ℕ} {found : VnodeopDesc × VmOffset}
    (member : found ∈ passedOperations memory functions vNode1 n) :
    found.1 ∈ operations ∧ found.2 ≠ fltVopUnknownOffset := by
  induction n with
  | zero => cases member
  | succ n ih =>
    rw [passedOperations, candidateOperations] at member
    cases List.mem_append.mp member with
    | inl here =>
      split at here
      · obtain ⟨known, ⟨i, -, offset⟩, -⟩ :=
          registered_of_mem_vectorOperations (List.mem_of_mem_take here)
        exact ⟨known, ne_of_eq_of_ne offset (byteOffset_ne_unknown i)⟩
      · cases here
    | inr earlier => exact ih earlier

/-- A table is as compiled exactly when nothing was recorded in it. -/
theorem unknown_iff_nil {writes : List (VnodeopDesc × VmOffset)}
    (known : ∀ found ∈ writes, found.1 ∈ operations ∧ found.2 ≠ fltVopUnknownOffset) :
    (∀ desc ∈ offsetsTable (record (fun _ => fltVopUnknownOffset) writes),
      desc.offset = fltVopUnknownOffset) ↔
      writes = [] := by
  constructor
  · intro unknown
    apply List.eq_nil_iff_forall_not_mem.mpr
    intro found member
    obtain ⟨value, written, last⟩ := record_written (List.mem_map_of_mem member)
    have held :=
      unknown ⟨found.1, value⟩ (mem_offsetsTable.mpr ⟨(known found member).1, (last _).symm⟩)
    exact (known _ written).2 held
  · rintro rfl desc member
    exact (mem_offsetsTable.mp member).2

/-- A value records nothing exactly when it is null or leads to no fake function. -/
theorem candidateOperations_eq_nil {v_op : VmOffset} :
    candidateOperations memory functions v_op = [] ↔ v_op ≠ 0 →
      vectorOperations memory functions v_op = [] := by
  have unmapped : ¬memory.Mapped v_op → vectorOperations memory functions v_op = [] := by
    intro absent
    have unreadable : memory.read v_op = none := if_neg fun both => absent both.1
    rw [vectorOperations, Memory.readWords_absent unreadable, slotOperations_nil]
  have taken : recorded memory functions v_op = [] ↔ vectorOperations memory functions v_op = [] := by
    rw [recorded, List.take_eq_nil_iff]
    exact or_iff_right (by decide)
  unfold candidateOperations
  split
  · rename_i candidate
    rw [taken]
    exact ⟨fun none _ => none, fun none => none candidate.1⟩
  · rename_i refused
    refine ⟨fun _ notNull => unmapped fun mapped => refused ⟨notNull, mapped⟩, fun _ => rfl⟩

theorem passedOperations_eq_nil {n : ℕ} :
    passedOperations memory functions vNode1 n = [] ↔ ∀ j < n, vNodeWord memory vNode1 j ≠ 0 →
      vectorOperations memory functions (vNodeWord memory vNode1 j) = [] := by
  induction n with
  | zero => simp [passedOperations]
  | succ n ih =>
    rw [passedOperations, List.append_eq_nil_iff, candidateOperations_eq_nil, ih]
    constructor
    · rintro ⟨here, earlier⟩ j before
      cases Nat.lt_succ_iff_lt_or_eq.mp before with
      | inl less => exact earlier j less
      | inr same => exact same ▸ here
    · intro all
      exact ⟨all n (Nat.lt_succ_self n), fun j before => all j (Nat.lt_succ_of_lt before)⟩

/-- A failed inference over two vnodes keeps the offsets unknown exactly when
nothing was met. -/
theorem unknown_iff_nothingMet {mountLayout : IOReturn} {result : LayoutResult}
    (ran : inferLayout memory functions mountLayout vNode1 vNode2 = .ok result) :
    (result.gVNodeVopOffset = fltVopUnknownOffset ∧ ∀ desc ∈ result.offsets,
      desc.offset = fltVopUnknownOffset) ↔
      NothingMet memory functions vNode1 vNode2 := by
  by_cases searched : ∃ n, headerWords memory vNode1 vNode2 = some n ∧ vNode1.toNat + 8 * n < 2 ^ 64
  · obtain ⟨n, ended, noWrap⟩ := searched
    have only : NothingMet memory functions vNode1 vNode2 ↔
        passedOperations memory functions vNode1 n = [] := by
      rw [passedOperations_eq_nil]
      constructor
      · exact fun none => none n ended noWrap
      · intro none m endedAt _
        obtain rfl : n = m := Option.some.inj (ended.symm.trans endedAt)
        exact none
    obtain ⟨other, ranOther, outcome⟩ := inferLayout_spec functions mountLayout ended noWrap
    rw [ran] at ranOther
    cases ranOther
    cases outcome with
    | inl missed =>
      obtain ⟨rfl, -⟩ := missed
      rw [only, ← unknown_iff_nil fun found member => known_of_mem_passedOperations member]
      exact and_iff_right rfl
    | inr taken =>
      obtain ⟨j, earlier, ⟨before, vector, -⟩, rfl⟩ := taken
      refine iff_of_false (fun unknown => byteOffset_ne_unknown j unknown.1) fun none => ?_
      have complete := vector.2.2
      rw [none n ended noWrap j before vector.1] at complete
      exact absurd complete (by decide)
  · have unsearched : ∀ n, headerWords memory vNode1 vNode2 = some n → ¬vNode1.toNat + 8 * n < 2 ^ 64 :=
      fun n ended noWrap => searched ⟨n, ended, noWrap⟩
    obtain rfl := failed_of_unsearched ran unsearched
    refine iff_of_true ⟨rfl, by decide⟩ fun n ended noWrap => absurd noWrap (unsearched n ended)

end Offsets

/-- With both vnodes the inference runs, and the exit follows it. -/
theorem inferred_of_ran {mountLayout : IOReturn} {result : LayoutResult} {s : ProbeState}
    (ran : fltGetVnodeLayoutProbed memory functions ⟨true, some vNode1, some vNode2, mountLayout⟩ kernel =
      .ok (result, s)) :
    inferLayout memory functions mountLayout vNode1 vNode2 = .ok result ∧
      s = leave kernel (some vNode1) (some vNode2) ⟨true, 2, [], [], []⟩ := by
  change (do
    let result ← inferLayout memory functions mountLayout vNode1 vNode2
    pure (result, leave kernel (some vNode1) (some vNode2) ⟨true, 2, [], [], []⟩) : ScanM _) = _ at ran
  cases inner : inferLayout memory functions mountLayout vNode1 vNode2 with
  | error stop =>
    rw [inner] at ran
    cases ran
  | ok inferred =>
    rw [inner] at ran
    cases ran
    exact ⟨rfl, rfl⟩

theorem leavesNothing_both {mountLayout : IOReturn} :
    LeavesNothing memory functions ⟨true, some vNode1, some vNode2, mountLayout⟩ kernel ↔
      kernel.vfsFsremove = true ∧ NothingMet memory functions vNode1 vNode2 := by
  constructor
  · intro all
    obtain ⟨removed, both⟩ := all rfl
    obtain ⟨other, created, none⟩ := both vNode1 rfl
    cases created
    exact ⟨removed, none⟩
  · rintro ⟨removed, none⟩ -
    refine ⟨removed, fun other created => ?_⟩
    cases created
    exact ⟨vNode2, rfl, none⟩

/-- A failed inference leaves nothing behind exactly when the file system, if it was
registered, is removed, no probe vnode was created alone, and no word before the data
led to a fake function. -/
theorem nothing_left_iff (memory : Memory) (functions : LoadedFunctions) (services : LayoutServices)
    (kernel : ExitServices) (reclaimed : kernel.ReclaimOnce (createdVnodes services))
    (result : LayoutResult) (s : ProbeState)
    (ran : fltGetVnodeLayoutProbed memory functions services kernel = .ok (result, s))
    (failed : result.rc ≠ .kIOReturnSuccess) :
    NothingLeft services result s ↔ LeavesNothing memory functions services kernel := by
  obtain ⟨vfsFsadd, vnodeCreate1, vnodeCreate2, mountLayout⟩ := services
  have compiled : ∀ desc ∈ gFltVnodeOpvOffsetDesc, desc.offset = fltVopUnknownOffset := by decide
  cases vfsFsadd with
  | false =>
    cases ran
    exact iff_of_true ⟨rfl, compiled, rfl, rfl, rfl, rfl, rfl⟩ nofun
  | true =>
    cases vnodeCreate1 with
    | none =>
      have left : s = leave kernel none none ⟨true, 0, [], [], []⟩ ∧
          result = .failed gFltVnodeOpvOffsetDesc := by
        cases ran
        exact ⟨rfl, rfl⟩
      obtain ⟨rfl, rfl⟩ := left
      rw [leave_none]
      constructor
      · intro nothing _
        have removed : (!kernel.vfsFsremove) = false := nothing.unregistered
        exact ⟨by simpa using removed, nofun⟩
      · intro leaves
        have removed : (!kernel.vfsFsremove) = false := by simp [(leaves rfl).1]
        exact ⟨rfl, compiled, rfl, rfl, rfl, rfl, removed⟩
    | some vNode1 =>
      cases vnodeCreate2 with
      | none =>
        have left : s = leave kernel (some vNode1) none ⟨true, 1, [], [], []⟩ := by
          cases ran
          rfl
        rw [leave_first reclaimed] at left
        refine iff_of_false (fun left' => ?_) fun leaves => ?_
        · have violated := left'.asserted
          rw [left] at violated
          cases violated
        · obtain ⟨vNode2, created, -⟩ := (leaves rfl).2 vNode1 rfl
          cases created
      | some vNode2 =>
        obtain ⟨inferred, left⟩ := inferred_of_ran ran
        rw [leave_both reclaimed] at left
        rw [leavesNothing_both, ← unknown_iff_nothingMet inferred, left]
        constructor
        · intro nothing
          have removed : (!kernel.vfsFsremove) = false := nothing.unregistered
          exact ⟨by simpa using removed, nothing.vop, nothing.operations⟩
        · rintro ⟨removed, vop, operations⟩
          have gone : (!kernel.vfsFsremove) = false := by simp [removed]
          exact ⟨vop, operations, rfl, rfl, rfl, rfl, gone⟩

/-- A kernel that keeps a recycled vnode until its last reference is put, and removes
the file system. -/
def recycling : ExitServices := ⟨fun _ => 0, fun _ => 1, true⟩

/-- Probe vnodes whose first word points to a vector with one of the fake
functions only, as of a kernel that knows none of the other operations. -/
private def poorVector : Memory :=
  .ofWords [(0xffffff8010000000, 0xffffff8010002000), (0xffffff8010000008, vData1),
    (0xffffff8010001000, 0xffffff8010002000), (0xffffff8010001008, vData2),
    (0xffffff8010002000, LoadedFunctions.consecutive.address .fltFakeFsdLookup)]

private def poorProbes : LayoutServices :=
  ⟨true, some 0xffffff8010000000, some 0xffffff8010001000, .kIOReturnSuccess⟩

/-- The search fails and the offset of the lookup operation stays in the table. -/
private theorem poorVector_run :
    ∃ result s, fltGetVnodeLayoutProbed poorVector .consecutive poorProbes recycling = .ok (result, s) ∧
      result.rc = .kIOReturnError ∧ ⟨.vnopLookup, 0⟩ ∈ result.offsets := by
  have ends : ((fltGetVnodeLayoutProbed poorVector .consecutive poorProbes recycling).toOption.any
    fun ended =>
      ended.1.rc = .kIOReturnError ∧ ⟨.vnopLookup, 0⟩ ∈ ended.1.offsets) = true := by decide +kernel
  cases ran : fltGetVnodeLayoutProbed poorVector .consecutive poorProbes recycling with
  | error stop => simp [ran, Except.toOption] at ends
  | ok ended => exact ⟨ended.1, ended.2, rfl, by simpa [ran, Except.toOption] using ends⟩

/-- A failed inference keeps an offset that it found on the way. -/
theorem partial_offsets_left :
    ¬∀ (memory : Memory) (functions : LoadedFunctions) (services : LayoutServices)
      (kernel : ExitServices) (result : LayoutResult) (s : ProbeState),
        kernel.ReclaimOnce (createdVnodes services) →
        fltGetVnodeLayoutProbed memory functions services kernel = .ok (result, s) →
          result.rc ≠ .kIOReturnSuccess → NothingLeft services result s := by
  intro nothing
  obtain ⟨result, s, ran, rc, kept⟩ := poorVector_run
  have failed : result.rc ≠ .kIOReturnSuccess := by
    rw [rc]
    decide
  have once : recycling.ReclaimOnce (createdVnodes poorProbes) := fun _ _ => rfl
  have unknown :=
    (nothing poorVector .consecutive poorProbes recycling result s once ran failed).operations _ kept
  exact absurd unknown (by decide)

theorem nothing_left_iff_second_vnode_missing :
    ¬NothingLeft ⟨true, some 0xffffff8010000000, none, .kIOReturnSuccess⟩
      (.failed gFltVnodeOpvOffsetDesc)
        (leave recycling (some 0xffffff8010000000) none ⟨true, 1, [], [], []⟩) := by
  rw [nothing_left_iff poorVector .consecutive ⟨true, some 0xffffff8010000000, none,
    .kIOReturnSuccess⟩ recycling
    (fun _ _ => rfl) (.failed gFltVnodeOpvOffsetDesc)
    (leave recycling (some 0xffffff8010000000) none ⟨true, 1, [], [], []⟩) rfl (by decide)]
  intro leaves
  obtain ⟨vNode2, created, -⟩ := (leaves rfl).2 0xffffff8010000000 rfl
  cases created

end FsdFilter.LayoutExit
