import FsdFilter.LayoutScans
import FsdFilter.MountLayout

/-! The scans of the layout inference probe one end of a word or of a window of
code, and compare pages with the page an object starts on. The words lie one
after another, so that what is probed is enough: no scan reads a byte of a page
that is absent. -/
namespace FsdFilter.ScanSafety
open VnodeOps HookRegistry FakeFsd PagedMemory VnodeLayout LayoutScans MountLayout

variable {memory : Memory} {distormDecompose64 : Disassembler}

section Code

theorem loadCode_returns {address : VmOffset} {count : ℕ}
    (mapped : ∀ i < count, memory.Mapped (address + BitVec.ofNat 64 i)) :
    ∃ code, loadCode memory address count = .ok code := by
  induction count generalizing address with
  | zero => exact ⟨[], rfl⟩
  | succ count ih =>
    have first : memory.Mapped address := by simpa using mapped 0 (Nat.succ_pos count)
    have later : ∀ i < count, memory.Mapped (address + 1#64 + BitVec.ofNat 64 i) := by
      intro i before
      have next := mapped (i + 1) (Nat.succ_lt_succ before)
      rw [Nat.add_comm, BitVec.ofNat_add, ← BitVec.add_assoc] at next
      exact next
    obtain ⟨rest, loaded⟩ := ih later
    refine ⟨memory.byte address :: rest, ?_⟩
    rw [loadCode, if_pos first, loaded]
    rfl

/-- The two probes of the decode window cover all of it. -/
theorem window_mapped {address : VmOffset} (first : memory.Mapped address)
    (last : truncPage address = truncPage (address + 100#64) ∨ memory.Mapped (address + 99#64)) :
    ∀ i < 100, memory.Mapped (address + BitVec.ofNat 64 i) := by
  intro i within
  cases last with
  | inl samePage =>
    cases truncPage_window address (show 100 < 4096 by decide) (Nat.le_of_lt within) with
    | inl onFirst => exact (Memory.mapped_congr onFirst).mpr first
    | inr onLast => exact (Memory.mapped_congr (onLast.trans samePage.symm)).mpr first
  | inr mapped =>
    cases truncPage_window address (show 99 < 4096 by decide) (Nat.le_of_lt_succ within) with
    | inl onFirst => exact (Memory.mapped_congr onFirst).mpr first
    | inr onLast => exact (Memory.mapped_congr onLast).mpr mapped

/-- `DdIsFunctionAtKernelAddress` reads nothing that is absent, at any address. -/
theorem ddIsFunctionAtKernelAddress_returns (memory : Memory) (distormDecompose64 : Disassembler)
    (address : VmOffset) :
    ∃ isFunction, ddIsFunctionAtKernelAddress memory distormDecompose64 address = .ok isFunction := by
  have last : address + 100#64 - 1#64 = address + 99#64 := by
    rw [BitVec.sub_eq_add_neg, BitVec.add_assoc]
    rfl
  simp only [ddIsFunctionAtKernelAddress, fltVirtToPhys_eq_zero, last]
  by_cases first : memory.Mapped address
  · rw [if_neg (not_not.mpr first)]
    by_cases crosses : truncPage address ≠ truncPage (address + 100#64) ∧
      ¬memory.Mapped (address + 99#64)
    · rw [if_pos crosses]
      exact ⟨false, rfl⟩
    · have covered : truncPage address = truncPage (address + 100#64) ∨
          memory.Mapped (address + 99#64) := by
        by_contra neither
        exact crosses (not_or.mp neither)
      obtain ⟨code, loaded⟩ := loadCode_returns (window_mapped first covered)
      rw [if_neg crosses, loaded]
      simp only [bind, Except.bind]
      split
      · exact ⟨_, rfl⟩
      · exact ⟨_, rfl⟩
  · rw [if_pos first]
    exact ⟨false, rfl⟩

end Code

section Mount
variable (distormDecompose64)

/-- The inner loop over a candidate vector of a mount. -/
theorem scanVfsVector_returns {start vfsOpVector : VmOffset} (remaining functionsFound : ℕ)
    (startMapped : memory.Mapped start) (continues : memory.Continues vfsOpVector) :
    ∃ found, scanVfsVector memory distormDecompose64 (truncPage start) remaining vfsOpVector
      functionsFound =
      .ok found := by
  induction remaining generalizing vfsOpVector functionsFound with
  | zero => exact ⟨false, rfl⟩
  | succ remaining ih =>
    rw [scanVfsVector]
    by_cases lastMapped : memory.Mapped (vfsOpVector + 7#64)
    · have present : ¬nextPageAbsent memory (truncPage start) vfsOpVector = true := by
        rw [nextPageAbsent_iff startMapped]
        exact not_not.mpr lastMapped
      obtain ⟨isFunction, decided⟩ := ddIsFunctionAtKernelAddress_returns memory distormDecompose64
        (memory.word vfsOpVector)
      rw [if_neg present, load_of_read (Memory.read_of_continues continues lastMapped)]
      simp only [bind, Except.bind, decided]
      generalize (if isFunction = true then functionsFound + 1 else functionsFound) = counted
      split
      · exact ih counted (Memory.continues_next lastMapped)
      · exact ⟨true, rfl⟩
    · rw [if_pos ((nextPageAbsent_iff startMapped vfsOpVector).mpr lastMapped)]
      exact ⟨false, rfl⟩

/-- The outer loop over the words of a mount, from any of its iterations. -/
theorem scanMount_returns {mnt : VmOffset} (i fuel : ℕ) (layout : VfsLayout)
    (continues : memory.Continues (slot mnt i)) (bounded : i + fuel = mountFuel) (more : 0 < fuel) :
    ∃ found, scanMount memory distormDecompose64 mnt fuel (slot mnt i) layout = .ok found := by
  induction fuel generalizing i layout with
  | zero => cases more
  | succ fuel ih =>
    have last : slot mnt i + 8#64 - 1#64 = slot mnt i + 7#64 := by
      rw [BitVec.sub_eq_add_neg, BitVec.add_assoc]
      rfl
    rw [scanMount, last]
    by_cases within : fltVirtToPhys memory (slot mnt i + 7#64) ≠ 0 ∧ slot mnt i < mnt + 256#64
    · have lastMapped : memory.Mapped (slot mnt i + 7#64) := by
        by_contra absent
        exact within.1 ((fltVirtToPhys_eq_zero memory _).mpr absent)
      have ahead : 0 < fuel := by
        by_contra ended
        obtain rfl : i = 32 := by
          rw [mountFuel] at bounded
          omega
        exact BitVec.lt_irrefl _ within.2
      have goesOn : ∀ layout, ∃ found,
          scanMount memory distormDecompose64 mnt fuel (slot mnt i + 8#64) layout = .ok found := by
        intro layout
        rw [← slot_succ]
        refine ih (i + 1) layout ?_ (by omega) ahead
        rw [slot_succ]
        exact Memory.continues_next lastMapped
      rw [if_pos within, load_of_read (Memory.read_of_continues continues lastMapped)]
      simp only [bind, Except.bind]
      split
      · exact goesOn layout
      · rename_i candidate
        have mapped : memory.Mapped (memory.word (slot mnt i)) := by
          by_contra absent
          exact candidate ((fltVirtToPhys_eq_zero memory _).mpr absent)
        obtain ⟨found, scanned⟩ := scanVfsVector_returns distormDecompose64 50 0
          mapped (.inl mapped)
        rw [scanned]
        simp only
        generalize (if found = true then layout.recorded (slot mnt i - mnt) else layout) = reached
        split
        · exact ⟨reached, rfl⟩
        · exact goesOn reached
    · rw [if_neg within]
      exact ⟨layout, rfl⟩

/-- `FltGetMountLayoutForMountStructure` on a mount whose first word is mapped. -/
theorem fltGetMountLayoutForMountStructure_returns (distormDecompose64 : Disassembler)
    {mnt word : VmOffset} (readable : memory.read mnt = some word) (layout : VfsLayout) :
    ∃ result, fltGetMountLayoutForMountStructure memory distormDecompose64 mnt layout = .ok result := by
  have first : memory.Continues (slot mnt 0) := by
    rw [slot_zero]
    exact .inl (Memory.mapped_of_read readable).1
  obtain ⟨found, scanned⟩ := scanMount_returns distormDecompose64 0 mountFuel layout
    first (Nat.zero_add _) (by decide)
  rw [slot_zero] at scanned
  refine ⟨(found.rc, found), ?_⟩
  rw [fltGetMountLayoutForMountStructure, scanned]
  rfl

theorem vfsIterate_returns (distormDecompose64 : Disassembler) {mounts : List VmOffset}
    (readable : ∀ mnt ∈ mounts, ∃ word, memory.read mnt = some word) (layout : VfsLayout) :
    ∃ found, vfsIterate memory distormDecompose64 mounts layout = .ok found := by
  induction mounts generalizing layout with
  | nil => exact ⟨layout, rfl⟩
  | cons mnt mounts ih =>
    obtain ⟨word, first⟩ := readable mnt List.mem_cons_self
    obtain ⟨result, ran⟩ := fltGetMountLayoutForMountStructure_returns distormDecompose64 first layout
    rw [vfsIterate, ran]
    simp only [bind, Except.bind]
    split
    · exact ⟨_, rfl⟩
    · exact ih (fun mnt member => readable mnt (List.mem_cons_of_mem _ member)) _

end Mount

/-- Every read of the scans is of a page that is present: the scans of probe
vnodes and of mounts whose first words are mapped return, and so does the decode
of any address. -/
theorem reads_backed (memory : Memory) (functions : LoadedFunctions) (distormDecompose64 : Disassembler)
    (vNode1 vNode2 : VmOffset) (mounts : List VmOffset) (first1 : memory.read vNode1 ≠ none)
    (first2 : memory.read vNode2 ≠ none) (firsts : ∀ mnt ∈ mounts, memory.read mnt ≠ none) :
    (∀ mountLayout, ∃ result, inferLayout memory functions mountLayout vNode1 vNode2 = .ok result) ∧
      (∀ mnt ∈ mounts, ∀ layout, ∃ result,
        fltGetMountLayoutForMountStructure memory distormDecompose64 mnt layout = .ok result) ∧
      (∃ result, fltGetMountLayout memory distormDecompose64 mounts = .ok result) ∧
      ∀ address, ∃ isFunction, ddIsFunctionAtKernelAddress memory distormDecompose64 address =
      .ok isFunction := by
  obtain ⟨word1, readable1⟩ := Option.ne_none_iff_exists'.mp first1
  obtain ⟨word2, readable2⟩ := Option.ne_none_iff_exists'.mp first2
  have readable : ∀ mnt ∈ mounts, ∃ word, memory.read mnt = some word :=
    fun mnt member => Option.ne_none_iff_exists'.mp (firsts mnt member)
  refine ⟨fun mountLayout => inferLayout_returns functions mountLayout readable1 readable2, ?_, ?_,
    ddIsFunctionAtKernelAddress_returns memory distormDecompose64⟩
  · intro mnt member layout
    obtain ⟨word, first⟩ := readable mnt member
    exact fltGetMountLayoutForMountStructure_returns distormDecompose64 first layout
  · obtain ⟨layout, ran⟩ := vfsIterate_returns distormDecompose64 readable .unknown
    refine ⟨(layout.rc, layout), ?_⟩
    rw [fltGetMountLayout, ran]
    rfl

/-- One page whose last word points, unaligned, into that same word. -/
private def lastWord : Memory := .ofWords [(0xffffff8010000ff8, 0xffffff8010000ffd)]

theorem reads_backed_last_word :
    (∃ result, inferLayout lastWord .consecutive .kIOReturnSuccess 0xffffff8010000ff8 0xffffff8010000ff8 =
        .ok result) ∧
      ∃ result, fltGetMountLayout lastWord (fun _ _ => ⟨.success, []⟩) [0xffffff8010000ff8] =
      .ok result := by
  have first : lastWord.read 0xffffff8010000ff8 ≠ none := by decide +kernel
  obtain ⟨vnodes, -, mounts, -⟩ := reads_backed lastWord .consecutive (fun _ _ => ⟨.success, []⟩)
    0xffffff8010000ff8 0xffffff8010000ff8 [0xffffff8010000ff8] first first (by simpa using first)
  exact ⟨vnodes .kIOReturnSuccess, mounts⟩

end FsdFilter.ScanSafety
