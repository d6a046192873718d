import FsdFilter.VectorTransparency
import FsdFilter.WiredRefinement
import FsdFilter.ReferenceAccounting

/-! What the kernel's memory holds in every run of the hook routines. Each run is one on the
slots, so the words of the vectors are as the registry says; and the bytes that are neither
hooked slots nor stacks never change. -/
namespace FsdFilter.WiredThreads
open VnodeOps SlotPatch HookRegistry HookCalls VectorCounts Interleaving ReaderWriterLock Simulation
open ThreadProtection VectorTransparency PagedMemory VnodeLayout WiredCopy SlotBytes WiredSlots
open WiredRefinement
open HookThreads (Pc)

variable {wiring : Wiring} {T : Type} {c : Config WiredShared Pc T}

theorem func_vopNotHooked {hooks : HookAddresses} {word : BitVec 64}
    (reserved : hooks.func word = .vopNotHooked) :
    word = -1 := by
  have same := hooks.word_func word
  rw [reserved] at same
  exact same.symm

/-! ### The slots that the memory stands for -/

section Files
open Classical

/-- The operations vectors as they are in memory at first. -/
noncomputable def files (wiring : Wiring) : Vectors where
  offsets := wiring.offsets
  original v offset :=
    if v ∈ wiring.vectors ∧ ∃ desc ∈ wiring.offsets.table, desc.offset = offset then
      wiring.hooks.func (wiring.memory.virtual.word (v + offset))
    else .null
  restorable v patch _ := by
    split_ifs with wired
    · obtain ⟨inMemory, desc, known, offset⟩ := wired
      intro reserved
      rw [← offset] at reserved
      exact wiring.unreserved v inMemory desc known (func_vopNotHooked reserved)
    · nofun

end Files

variable [DecidableEq T]

/-- One page with a vector, and one with a stack. -/
def twoPages : WiredMemory where
  phys _ := 0x11
  frame page := if page = 0x1000 then 5 else if page = 0x3000 then 9 else 0

/-- Routines one after the other. -/
def consecutiveHooks : HookAddresses where
  addr routine := BitVec.ofNat 64 (256 + hookRoutines.idxOf routine)
  injective routine other same := by
    have few : ∀ routine, hookRoutines.idxOf routine < 12 :=
      fun routine => List.idxOf_lt_length_of_mem (mem_hookRoutines routine)
    have place := congrArg BitVec.toNat same
    have first := few routine
    have second := few other
    simp only [BitVec.toNat_ofNat] at place
    exact (List.idxOf_inj (mem_hookRoutines routine)).mp (by omega)
  proper routine := by cases routine <;> decide

theorem vectorPage (addr : VmOffset) (onPage : addr.toNat / 4096 = 1) :
    twoPages.virtual.Mapped addr ∧ (twoPages.physAddr addr).toNat = addr.toNat + 0x4000 := by
  have page : truncPage addr = 0x1000 := by
    apply BitVec.eq_of_toNat_eq
    rw [truncPage_toNat, onPage]
    rfl
  have frame : twoPages.frame (truncPage addr) = 5 := by rw [page]; rfl
  refine ⟨fun absent => absurd (frame.symm.trans absent) (by decide), ?_⟩
  rw [physAddr_toNat, frame]
  change 5 * 4096 + addr.toNat % 4096 = addr.toNat + 0x4000
  omega

theorem stackPage (addr : VmOffset) (onPage : addr.toNat / 4096 = 3) :
    twoPages.virtual.Mapped addr ∧ (twoPages.physAddr addr).toNat = addr.toNat + 0x6000 := by
  have page : truncPage addr = 0x3000 := by
    apply BitVec.eq_of_toNat_eq
    rw [truncPage_toNat, onPage]
    rfl
  have frame : twoPages.frame (truncPage addr) = 9 := by rw [page]; rfl
  refine ⟨fun absent => absurd (frame.symm.trans absent) (by decide), ?_⟩
  rw [physAddr_toNat, frame]
  change 9 * 4096 + addr.toNat % 4096 = addr.toNat + 0x6000
  omega

/-- The slots of the vector at `0x1000`. -/
theorem consecutive_slot {desc : FltVnodeOpvOffsetDesc}
    (known : desc ∈ OpvOffsets.consecutive.table) {i : ℕ} (inside : i < 8) :
    (byteAt (0x1000#64 + desc.offset) i).toNat = 0x1000 + desc.offset.toNat + i ∧
      desc.offset.toNat % 8 = 0 ∧ desc.offset.toNat < 136 := by
  have places : ∀ desc ∈ OpvOffsets.consecutive.table, desc.offset.toNat % 8 = 0 ∧
      desc.offset.toNat < 136 := by decide
  obtain ⟨aligned, short⟩ := places desc known
  refine ⟨?_, aligned, short⟩
  simp only [byteAt, BitVec.toNat_add, BitVec.toNat_ofNat]
  omega

/-- The vector at `0x1000`, behind page 5. -/
def oneVector : Wiring where
  memory := twoPages
  hooks := consecutiveHooks
  offsets := .consecutive
  vectors := {0x1000#64}
  stack := {phys | phys.toNat / 4096 = 9}
  whole := by
    rintro v rfl desc known
    refine ⟨fun i inside => ?_, fun i inside j within same => ?_⟩
    · obtain ⟨place, -, short⟩ := consecutive_slot known inside
      exact (vectorPage _ (by omega)).1
    · obtain ⟨place, -, short⟩ := consecutive_slot known inside
      obtain ⟨place', -, -⟩ := consecutive_slot known within
      have first := (vectorPage (byteAt (0x1000#64 + desc.offset) i) (by omega)).2
      have second := (vectorPage (byteAt (0x1000#64 + desc.offset) j) (by omega)).2
      rw [same] at first
      omega
  apart := by
    rintro v rfl w rfl desc known other known' different i inside j within same
    obtain ⟨place, aligned, short⟩ := consecutive_slot known inside
    obtain ⟨place', aligned', short'⟩ := consecutive_slot known' within
    have first := (vectorPage (byteAt (0x1000#64 + desc.offset) i) (by omega)).2
    have second := (vectorPage (byteAt (0x1000#64 + other.offset) j) (by omega)).2
    rw [same] at first
    have apart : desc.offset.toNat ≠ other.offset.toNat :=
      fun eq => (different.resolve_left (not_not.mpr rfl)) (BitVec.eq_of_toNat_eq eq)
    omega
  stackApart := by
    rintro v rfl desc known phys ⟨i, inside, rfl⟩ onStack
    obtain ⟨place, -, short⟩ := consecutive_slot known inside
    have at_ := (vectorPage (byteAt (0x1000#64 + desc.offset) i) (by omega)).2
    have page : (twoPages.physAddr (byteAt (0x1000#64 + desc.offset) i)).toNat / 4096 = 9 := onStack
    omega
  unreserved := by
    rintro v rfl desc known
    intro reserved
    have byte := wordByte_word twoPages.virtual (0x1000#64 + desc.offset) (by decide : 0 < 8)
    rw [reserved] at byte
    have same : (0xff : BitVec 8) = 0x11 := byte
    exact absurd same (by decide)

/-- The stack at `0x3000`, behind page 9. -/
def hookVariable : StackVariable oneVector where
  addr := 0x3010#64
  whole := by
    have place : ∀ i < 8, (byteAt 0x3010#64 i).toNat = 0x3010 + i := by decide
    refine ⟨fun i inside => ?_, fun i inside j within same => ?_⟩
    · have at_ := place i inside
      exact (stackPage _ (by omega)).1
    · have at_ := place i inside
      have at_' := place j within
      have first := (stackPage (byteAt 0x3010#64 i) (by omega)).2
      have second := (stackPage (byteAt 0x3010#64 j) (by omega)).2
      have same' : twoPages.physAddr (byteAt 0x3010#64 i) =
          twoPages.physAddr (byteAt 0x3010#64 j) := same
      rw [same'] at first
      omega
  onStack := by
    rintro phys ⟨i, inside, rfl⟩
    have place : ∀ i < 8, (byteAt 0x3010#64 i).toNat = 0x3010 + i := by decide
    have at_ := place i inside
    have onPage := (stackPage (byteAt 0x3010#64 i) (by omega)).2
    change (twoPages.physAddr (byteAt 0x3010#64 i)).toNat / 4096 = 9
    omega

instance (choice : WiredAct oneVector) : Decidable (OnVectors oneVector choice) :=
  match choice with
  | ⟨.call call, _⟩ => decidable_of_iff ((calledVnode call).vOp = 0x1000#64)
      ⟨fun onVector _ same => by cases same; exact onVector, fun onVectors => onVectors call rfl⟩
  | ⟨.run, _⟩ | ⟨.allocate _, _⟩ | ⟨.insert _, _⟩ => isTrue nofun

/-- One thread hooks the vector, the other one then looks a function up. -/
def hookThenLookup : List (Fin 2 × WiredAct oneVector) :=
  (HookThreads.takes HookThreads.thread0
    ([.call (.hook ⟨0x1000, .vreg, false⟩), .run, .allocate (.within 4), .run, .run, .insert true, .run] ++
      List.replicate 15 .run) ++
    HookThreads.takes HookThreads.thread1 [.call (.getOriginal ⟨0x1000, .vreg, false⟩ .read), .run,
      .run, .run]).map
    fun choice => (choice.1, ⟨choice.2, hookVariable⟩)

theorem hooked_reached : ∃ c : Config WiredShared Pc (Fin 2),
    Reaches (threads oneVector) (fun _ _ choice => OnVectors oneVector choice) (start oneVector) c ∧
      c.pc 1 = .done (.original ⟨0x1000, .vreg, false⟩ .read (.fsd 0x1111111111111111)) ∧
      c.shared.state.filter.registry.lookup 0x1000 = some 0 := by
  obtain ⟨c, reached, ends⟩ :=
    exists_reached_of_replay (threads oneVector) (fun _ _ choice => OnVectors oneVector choice)
    (start oneVector) hookThenLookup
    (fun c => c.pc 1 = .done (.original ⟨0x1000, .vreg, false⟩ .read (.fsd 0x1111111111111111)) ∧
      c.shared.state.filter.registry.lookup 0x1000 = some 0) (by decide +kernel)
  exact ⟨c, reached, of_decide_eq_true ends⟩

end FsdFilter.WiredThreads
