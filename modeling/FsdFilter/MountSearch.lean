import FsdFilter.ScanSafety

/-! What the search for the operations vector of a mount finds: the first word of the
first mount that points to a vector with four functions in its readable slots. -/
namespace FsdFilter.MountSearch
open VnodeOps HookRegistry PagedMemory VnodeLayout LayoutScans MountLayout ScanSafety

variable {memory : Memory} {distormDecompose64 : Disassembler}

/-- The bytes of a piece of code. -/
def codeBytes (memory : Memory) (address : VmOffset) (count : ℕ) : List (BitVec 8) :=
  (List.range count).map fun i => memory.byte (address + BitVec.ofNat 64 i)

/-- Code that decodes to at least 15 instructions, the first of them a `push` and a
`mov`; the last instruction may be cut off. -/
def EntersFunction (decoded : Decoded) : Prop :=
  (decoded.res = .success ∨ decoded.res = .memoryErr) ∧ 15 ≤ decoded.decodedInstructions.length ∧
    decoded.decodedInstructions[0]? = some 0x2 ∧ decoded.decodedInstructions[1]? = some 0x2A

instance (decoded : Decoded) : Decidable (EntersFunction decoded) :=
  inferInstanceAs (Decidable (_ ∧ _))

/-- A function begins at an address: the 100 bytes from there on are present and are the
code of a function's entry. -/
def IsFunction (memory : Memory) (distormDecompose64 : Disassembler) (address : VmOffset) : Prop :=
  (memory.Mapped address ∧ memory.Mapped (address + 99#64)) ∧
    EntersFunction (distormDecompose64 address (codeBytes memory address 100))

instance (memory : Memory) (distormDecompose64 : Disassembler) (address : VmOffset) :
    Decidable (IsFunction memory distormDecompose64 address) :=
  inferInstanceAs (Decidable (_ ∧ _))

/-- The functions in the first 50 slots of a candidate, as far as they can be read. -/
def vfsFunctions (memory : Memory) (distormDecompose64 : Disassembler) (vfsOpVector : VmOffset) :
    List VmOffset :=
  (memory.readWords vfsOpVector 50).filter fun word => IsFunction memory distormDecompose64 word

/-- What is taken for a vector of file system operations: at least `mount`, `unmount`,
`init` and `sync` must be implemented. -/
def IsVfsVector (memory : Memory) (distormDecompose64 : Disassembler) (vfsOpVector : VmOffset) : Prop :=
  memory.Mapped vfsOpVector ∧ 4 ≤ (vfsFunctions memory distormDecompose64 vfsOpVector).length

instance (memory : Memory) (distormDecompose64 : Disassembler) (vfsOpVector : VmOffset) :
    Decidable (IsVfsVector memory distormDecompose64 vfsOpVector) :=
  inferInstanceAs (Decidable (_ ∧ _))

/-- The words of a mount that are tried; none when its 256 bytes reach the end of the
address space. -/
def mountWords (memory : Memory) (mnt : VmOffset) : List VmOffset :=
  if mnt < mnt + 256#64 then memory.readWords mnt 32 else []

/-- Which word of a mount points to its vector. -/
def vectorWord (memory : Memory) (distormDecompose64 : Disassembler) (mnt : VmOffset) : Option ℕ :=
  (mountWords memory mnt).findIdx? fun word => IsVfsVector memory distormDecompose64 word

/-- The globals after a vector was found. -/
def foundAt (j : ℕ) : VfsLayout :=
  ⟨BitVec.ofNat 64 (8 * j), [⟨.kFltVfsOpUnmount, 16#64⟩]⟩

section Code

theorem loadCode_eq {address : VmOffset} {count : ℕ}
    (mapped : ∀ i < count, memory.Mapped (address + BitVec.ofNat 64 i)) :
    loadCode memory address count = .ok (codeBytes memory address count) := by
  induction count generalizing address with
  | zero => rfl
  | succ count ih =>
    have shifted (i : ℕ) : address + 1#64 + BitVec.ofNat 64 i = address + BitVec.ofNat 64 (i + 1) := by
      rw [Nat.add_comm, BitVec.ofNat_add, ← BitVec.add_assoc]
    have first : memory.Mapped address := by simpa using mapped 0 (Nat.succ_pos count)
    have later : ∀ i < count, memory.Mapped (address + 1#64 + BitVec.ofNat 64 i) := by
      intro i before
      rw [shifted]
      exact mapped (i + 1) (Nat.succ_lt_succ before)
    rw [loadCode, if_pos first, ih later]
    simp [codeBytes, List.range_succ_eq_map, shifted, bind, Except.bind, pure, Except.pure]

/-- The checks of what the disassembler gave. -/
theorem checks_eq (decoded : Decoded) :
    (if (decoded.res ≠ .success ∧ decoded.res ≠ .memoryErr) ∨ decoded.decodedInstructions.length < 15 then
      (pure false : ScanM Bool)
    else
      pure (decoded.decodedInstructions[0]? = some 0x2 ∧ decoded.decodedInstructions[1]? = some 0x2A)) =
      .ok (decide (EntersFunction decoded)) := by
  split
  case isTrue refused =>
    have not_entered : ¬EntersFunction decoded := by
      rintro ⟨ended, enough, -⟩
      cases refused with
      | inl neither => exact ended.elim neither.1 neither.2
      | inr few => exact Nat.not_lt.mpr enough few
    rw [decide_eq_false not_entered]
    rfl
  case isFalse taken =>
    have ended : decoded.res = .success ∨ decoded.res = .memoryErr := by
      by_contra neither
      exact taken (.inl (not_or.mp neither))
    have enough : 15 ≤ decoded.decodedInstructions.length := by
      by_contra few
      exact taken (.inr (Nat.not_le.mp few))
    simp [EntersFunction, ended, enough, pure, Except.pure]

/-- `DdIsFunctionAtKernelAddress` tells where functions begin. -/
theorem ddIsFunctionAtKernelAddress_eq (memory : Memory) (distormDecompose64 : Disassembler)
    (address : VmOffset) : ddIsFunctionAtKernelAddress memory distormDecompose64 address =
      .ok (decide (IsFunction memory distormDecompose64 address)) := by
  have last : address + 100#64 - 1#64 = address + 99#64 := by
    rw [BitVec.sub_eq_add_neg, BitVec.add_assoc]
    rfl
  simp only [ddIsFunctionAtKernelAddress, fltVirtToPhys_eq_zero, last]
  by_cases first : memory.Mapped address
  · rw [if_neg (not_not.mpr first)]
    by_cases crosses : truncPage address ≠ truncPage (address + 100#64) ∧
      ¬memory.Mapped (address + 99#64)
    · rw [if_pos crosses]
      simp [IsFunction, crosses.2, pure, Except.pure]
    · have covered : truncPage address = truncPage (address + 100#64) ∨
          memory.Mapped (address + 99#64) := by
        by_contra neither
        exact crosses (not_or.mp neither)
      have window := window_mapped first covered
      have present : memory.Mapped (address + 99#64) := window 99 (by decide)
      rw [if_neg crosses, loadCode_eq window]
      simp only [IsFunction, first, present, and_self, true_and]
      exact checks_eq (distormDecompose64 address (codeBytes memory address 100))
  · rw [if_pos first]
    simp [IsFunction, first, pure, Except.pure]

end Code

section Mount

/-- The inner loop goes on counting where it stands. -/
theorem scanVfsVector_eq {start vfsOpVector : VmOffset} (remaining functionsFound : ℕ)
    (startMapped : memory.Mapped start) (continues : memory.Continues vfsOpVector)
    (fewer : functionsFound < 4) :
    scanVfsVector memory distormDecompose64 (truncPage start) remaining vfsOpVector functionsFound =
      .ok (decide (4 ≤ functionsFound + ((memory.readWords vfsOpVector remaining).filter fun word =>
        IsFunction memory distormDecompose64 word).length)) := by
  induction remaining generalizing vfsOpVector functionsFound with
  | zero => simp [scanVfsVector, Nat.not_le.mpr fewer, pure, Except.pure]
  | succ remaining ih =>
    by_cases lastMapped : memory.Mapped (vfsOpVector + 7#64)
    · have present : nextPageAbsent memory (truncPage start) vfsOpVector = false := by
        simpa [lastMapped] using nextPageAbsent_iff startMapped vfsOpVector
      have readable := Memory.read_of_continues continues lastMapped
      have next := Memory.continues_next lastMapped
      simp only [scanVfsVector, present, Bool.false_eq_true, if_false, load_of_read readable, bind,
        Except.bind, ddIsFunctionAtKernelAddress_eq, Memory.readWords_cons readable, List.filter_cons]
      by_cases isFunction : IsFunction memory distormDecompose64 (memory.word vfsOpVector)
      · simp only [isFunction, decide_true, if_true, List.length_cons]
        by_cases more : functionsFound + 1 < 4
        · rw [if_pos more, ih (functionsFound + 1) next more, Nat.add_right_comm, Nat.add_assoc]
        · have enough : 4 ≤ functionsFound + (((memory.readWords (vfsOpVector + 8#64) remaining).filter
              fun word => IsFunction memory distormDecompose64 word).length + 1) := by omega
          rw [if_neg more, decide_eq_true enough]
          rfl
      · simp only [isFunction, decide_false, Bool.false_eq_true, if_false, fewer, if_true]
        exact ih functionsFound next fewer
    · have absent := (nextPageAbsent_iff startMapped vfsOpVector).mpr lastMapped
      simp [scanVfsVector, absent, Memory.readWords_absent (Memory.read_eq_none lastMapped),
        fewer, pure, Except.pure]

theorem scanVfsVector_mapped {vfsOpVector : VmOffset} (mapped : memory.Mapped vfsOpVector) :
    scanVfsVector memory distormDecompose64 (truncPage vfsOpVector) 50 vfsOpVector 0 =
      .ok (decide (IsVfsVector memory distormDecompose64 vfsOpVector)) := by
  rw [scanVfsVector_eq 50 0 mapped (.inl mapped) (by decide)]
  simp [IsVfsVector, vfsFunctions, mapped]

theorem unknown_offset : VfsLayout.unknown.gVfsOperationVectorOffset = fltVopUnknownOffset := rfl

theorem foundAt_known (j : ℕ) : (foundAt j).gVfsOperationVectorOffset ≠ fltVopUnknownOffset :=
  byteOffset_ne_unknown j

/-- The compiled globals with a vector's offset recorded. -/
theorem recorded_unknown (j : ℕ) :
    VfsLayout.unknown.recorded (BitVec.ofNat 64 (8 * j)) = foundAt j := rfl

/-- The bound of the outer loop, for a mount that does not reach the end of the address
space. -/
theorem slot_lt_iff {mnt : VmOffset} {i : ℕ} (inside : mnt < mnt + 256#64) (atMost : i ≤ 32) :
    slot mnt i < mnt + 256#64 ↔ i < 32 := by
  rw [BitVec.lt_def, BitVec.toNat_add] at inside
  rw [BitVec.lt_def, slot, BitVec.toNat_add, BitVec.toNat_add, BitVec.toNat_ofNat]
  simp only [BitVec.toNat_ofNat] at inside ⊢
  have bound := mnt.isLt
  omega

theorem slot_sub (mnt : VmOffset) (i : ℕ) : slot mnt i - mnt = BitVec.ofNat 64 (8 * i) := by
  rw [slot, BitVec.add_comm, BitVec.add_sub_cancel]

/-- The globals after a search that found the vector at a word, or at none. -/
def searched : Option ℕ → VfsLayout
  | some j => foundAt j
  | none => .unknown

/-- The outer loop from the word `i` of a mount on. -/
theorem scanMount_eq {mnt : VmOffset} (i fuel : ℕ) (inside : mnt < mnt + 256#64)
    (continues : memory.Continues (slot mnt i)) (bounded : i + fuel = mountFuel) (more : 0 < fuel) :
    scanMount memory distormDecompose64 mnt fuel (slot mnt i) .unknown =
      .ok (searched (((memory.readWords (slot mnt i) (32 - i)).findIdx? fun word =>
        IsVfsVector memory distormDecompose64 word).map (i + ·))) := by
  induction fuel generalizing i with
  | zero => cases more
  | succ fuel ih =>
    have last : slot mnt i + 8#64 - 1#64 = slot mnt i + 7#64 := by
      rw [BitVec.sub_eq_add_neg, BitVec.add_assoc]
      rfl
    have atMost : i ≤ 32 := by
      rw [mountFuel] at bounded
      omega
    simp only [scanMount, last, ne_eq, fltVirtToPhys_eq_zero, not_not, slot_lt_iff inside atMost]
    by_cases within : memory.Mapped (slot mnt i + 7#64) ∧ i < 32
    · obtain ⟨lastMapped, before⟩ := within
      have readable := Memory.read_of_continues continues lastMapped
      have left : 32 - i = 32 - (i + 1) + 1 := by omega
      have goesOn := ih (i + 1) (by rw [slot_succ]; exact Memory.continues_next lastMapped) (by omega)
        (by rw [mountFuel] at bounded; omega)
      rw [slot_succ] at goesOn
      have indices (found : Option ℕ) : (found.map (· + 1)).map (i + ·) = found.map (i + 1 + ·) := by
        cases found with
        | none => rfl
        | some j => exact congrArg some (Nat.add_right_comm i j 1)
      rw [if_pos ⟨lastMapped, before⟩, load_of_read readable, left, Memory.readWords_cons readable,
        List.findIdx?_cons]
      simp only [bind, Except.bind]
      by_cases mapped : memory.Mapped (memory.word (slot mnt i))
      · rw [if_neg (not_not.mpr mapped), scanVfsVector_mapped mapped]
        by_cases found : IsVfsVector memory distormDecompose64 (memory.word (slot mnt i))
        · simp only [found, decide_true, if_true, slot_sub, recorded_unknown]
          rw [if_pos (foundAt_known i)]
          rfl
        · simp only [found, decide_false, Bool.false_eq_true, if_false]
          rw [if_neg (not_not.mpr unknown_offset), goesOn, indices]
      · have refused : ¬IsVfsVector memory distormDecompose64 (memory.word (slot mnt i)) :=
          fun vector => mapped vector.1
        rw [if_pos mapped, goesOn, decide_eq_false refused, if_neg Bool.false_ne_true, indices]
    · rw [if_neg within]
      have nothing : memory.readWords (slot mnt i) (32 - i) = [] := by
        by_cases before : i < 32
        · exact Memory.readWords_absent (Memory.read_eq_none fun present => within ⟨present, before⟩) _
        · rw [show 32 - i = 0 by omega, Memory.readWords_zero]
      rw [nothing]
      rfl

/-- `FltGetMountLayoutForMountStructure` on a mount whose first word can be read. -/
theorem fltGetMountLayoutForMountStructure_eq {mnt word : VmOffset}
    (readable : memory.read mnt = some word) :
    fltGetMountLayoutForMountStructure memory distormDecompose64 mnt .unknown =
      .ok ((searched (vectorWord memory distormDecompose64 mnt)).rc,
        searched (vectorWord memory distormDecompose64 mnt)) := by
  have scanned : scanMount memory distormDecompose64 mnt mountFuel mnt .unknown =
      .ok (searched (vectorWord memory distormDecompose64 mnt)) := by
    by_cases inside : mnt < mnt + 256#64
    · have first : memory.Continues (slot mnt 0) := by
        rw [slot_zero]
        exact .inl (Memory.mapped_of_read readable).1
      have reached :=
        @scanMount_eq memory distormDecompose64 mnt 0 mountFuel inside first
        (Nat.zero_add _) (by decide)
      rw [slot_zero] at reached
      rw [reached, vectorWord, mountWords, if_pos inside]
      simp
    · rw [mountFuel, scanMount, if_neg fun both => inside both.2, vectorWord, mountWords, if_neg inside]
      rfl
  rw [fltGetMountLayoutForMountStructure, scanned]
  rfl

theorem searched_rc (found : Option ℕ) :
    (searched found).rc = if found.isSome then .kIOReturnSuccess else .kIOReturnError := by
  cases found with
  | none => rfl
  | some j => exact if_neg (foundAt_known j)

theorem vfsIterate_eq {mounts : List VmOffset} (readable : ∀ mnt ∈ mounts, memory.read mnt ≠ none) :
    vfsIterate memory distormDecompose64 mounts .unknown =
      .ok (searched (mounts.findSome? (vectorWord memory distormDecompose64))) := by
  induction mounts with
  | nil => rfl
  | cons mnt mounts ih =>
    obtain ⟨word, first⟩ := Option.ne_none_iff_exists'.mp (readable mnt List.mem_cons_self)
    rw [vfsIterate, fltGetMountLayoutForMountStructure_eq first, List.findSome?_cons]
    simp only [bind, Except.bind, searched_rc]
    cases vectorWord memory distormDecompose64 mnt with
    | some j => rfl
    | none => exact ih fun mnt member => readable mnt (List.mem_cons_of_mem _ member)

end Mount

section Meaning

theorem vectorWord_eq_none {mnt : VmOffset} :
    vectorWord memory distormDecompose64 mnt = none ↔
      ∀ word ∈ mountWords memory mnt, ¬IsVfsVector memory distormDecompose64 word := by
  simp [vectorWord, List.findIdx?_eq_none_iff]

theorem vectorWord_eq_some {mnt : VmOffset} {j : ℕ} :
    vectorWord memory distormDecompose64 mnt = some j ↔
      (∃ word, (mountWords memory mnt)[j]? = some word ∧ IsVfsVector memory distormDecompose64 word) ∧
        ∀ i < j, ∀ word, (mountWords memory mnt)[i]? = some word →
          ¬IsVfsVector memory distormDecompose64 word := by
  rw [vectorWord, List.findIdx?_eq_some_iff_getElem]
  constructor
  · rintro ⟨within, vector, earlier⟩
    refine ⟨⟨_, List.getElem?_eq_getElem within, of_decide_eq_true vector⟩,
      fun i before word here => ?_⟩
    obtain ⟨inside, rfl⟩ := List.getElem?_eq_some_iff.mp here
    exact fun other => earlier i before (decide_eq_true other)
  · rintro ⟨⟨word, here, vector⟩, earlier⟩
    obtain ⟨within, rfl⟩ := List.getElem?_eq_some_iff.mp here
    refine ⟨within, decide_eq_true vector, fun i before other => ?_⟩
    exact earlier i before _ (List.getElem?_eq_getElem (Nat.lt_trans before within))
      (of_decide_eq_true other)

theorem no_vector_iff {mounts : List VmOffset} :
    mounts.findSome? (vectorWord memory distormDecompose64) = none ↔
      ∀ mnt ∈ mounts, ∀ word ∈ mountWords memory mnt,
        ¬IsVfsVector memory distormDecompose64 word := by
  simp [List.findSome?_eq_none_iff, vectorWord_eq_none]

theorem first_vector_iff {mounts : List VmOffset} {j : ℕ} :
    mounts.findSome? (vectorWord memory distormDecompose64) = some j ↔
      ∃ before mnt after, mounts = before ++ mnt :: after ∧
        (∀ other ∈ before, ∀ word ∈ mountWords memory other,
          ¬IsVfsVector memory distormDecompose64 word) ∧
        (∃ word, (mountWords memory mnt)[j]? = some word ∧ IsVfsVector memory distormDecompose64 word) ∧
        ∀ i < j, ∀ word, (mountWords memory mnt)[i]? = some word →
          ¬IsVfsVector memory distormDecompose64 word := by
  rw [List.findSome?_eq_some_iff]
  simp only [vectorWord_eq_none, vectorWord_eq_some]
  constructor
  · rintro ⟨before, mnt, after, split, here, earlier⟩
    exact ⟨before, mnt, after, split, earlier, here⟩
  · rintro ⟨before, mnt, after, split, earlier, here⟩
    exact ⟨before, mnt, after, split, here, earlier⟩

/-- `FltGetMountLayout` on mounts whose first words can be read. -/
theorem fltGetMountLayout_eq {mounts : List VmOffset}
    (readable : ∀ mnt ∈ mounts, memory.read mnt ≠ none) :
    fltGetMountLayout memory distormDecompose64 mounts =
      match mounts.findSome? (vectorWord memory distormDecompose64) with
      | some j => .ok (.kIOReturnSuccess, foundAt j)
      | none => .ok (.kIOReturnError, .unknown) := by
  rw [fltGetMountLayout, vfsIterate_eq readable]
  simp only [bind, Except.bind, pure, Except.pure, searched_rc]
  cases mounts.findSome? (vectorWord memory distormDecompose64) <;> rfl

end Meaning

/-- The search for the mount layout fails just when no word of any mount points to a
vector of file system operations. It succeeds with the first such word of the first mount
that has one: the mounts before have none, and no word of the mount before it is one. -/
theorem mount_layout_found (memory : Memory) (distormDecompose64 : Disassembler)
    {mounts : List VmOffset} (readable : ∀ mnt ∈ mounts, memory.read mnt ≠ none) :
    (fltGetMountLayout memory distormDecompose64 mounts = .ok (.kIOReturnError, .unknown) ↔
      ∀ mnt ∈ mounts, ∀ word ∈ mountWords memory mnt,
        ¬IsVfsVector memory distormDecompose64 word) ∧
    ∀ layout, fltGetMountLayout memory distormDecompose64 mounts = .ok (.kIOReturnSuccess, layout) ↔
      ∃ before mnt after j, mounts = before ++ mnt :: after ∧ layout = foundAt j ∧
        (∀ other ∈ before, ∀ word ∈ mountWords memory other,
          ¬IsVfsVector memory distormDecompose64 word) ∧
        (∃ word, (mountWords memory mnt)[j]? = some word ∧ IsVfsVector memory distormDecompose64 word) ∧
        ∀ i < j, ∀ word, (mountWords memory mnt)[i]? = some word →
          ¬IsVfsVector memory distormDecompose64 word := by
  rw [fltGetMountLayout_eq readable, ← no_vector_iff]
  refine ⟨?_, fun layout => ?_⟩
  · cases mounts.findSome? (vectorWord memory distormDecompose64) with
    | none => simp
    | some j => simp
  · have here (j : ℕ) := @first_vector_iff memory distormDecompose64 mounts j
    cases found : mounts.findSome? (vectorWord memory distormDecompose64) with
    | none =>
      simp only [Except.ok.injEq, Prod.mk.injEq, reduceCtorEq, false_and, false_iff]
      rintro ⟨before, mnt, after, j, split, -, vector⟩
      rw [(here j).mpr ⟨before, mnt, after, split, vector⟩] at found
      cases found
    | some j =>
      simp only [Except.ok.injEq, Prod.mk.injEq, true_and]
      constructor
      · rintro rfl
        obtain ⟨before, mnt, after, split, vector⟩ := (here j).mp found
        exact ⟨before, mnt, after, j, split, rfl, vector⟩
      · rintro ⟨before, mnt, after, k, split, rfl, vector⟩
        rw [(here k).mpr ⟨before, mnt, after, split, vector⟩] at found
        rw [Option.some.inj found]

/-- A disassembler for code of `push` and `mov` instructions, with room for so many. -/
def entryInstructions : ℕ → List (BitVec 8) → Decoded
  | _, [] => ⟨.success, []⟩
  | 0, _ => ⟨.memoryErr, []⟩
  | room + 1, byte :: code =>
    let rest := if byte = 0x48 then entryInstructions room (code.drop 2)
      else entryInstructions room code
    ⟨rest.res, (if byte = 0x55 then 0x2 else if byte = 0x48 then 0x2A else 0) :: rest.decodedInstructions⟩

/-- A mount whose second word points to a vector with four times the same function. -/
def oneMount : Memory := .ofWords
  ([(0xffffff8010000000, 0), (0xffffff8010000008, 0xffffff8010001000)] ++
    (List.range 4).map (fun i => (0xffffff8010001000 + BitVec.ofNat 64 (8 * i), 0xffffff8010002000)) ++
    (0xffffff8010002000, 0x55555555e5894855) ::
      (List.range 12).map (fun i => (0xffffff8010002008 + BitVec.ofNat 64 (8 * i), 0x5555555555555555)))

theorem mount_layout_found_second_word :
    fltGetMountLayout oneMount (fun _ => entryInstructions 15) [0xffffff8010000000] =
      .ok (.kIOReturnSuccess, foundAt 1) := by
  have first : oneMount.read 0xffffff8010000000 ≠ none := by decide +kernel
  refine ((mount_layout_found oneMount (fun _ => entryInstructions 15) (by simpa using first)).2 _).mpr
    ⟨[], 0xffffff8010000000, [], 1, rfl, rfl, by simp, ?_, ?_⟩
  · exact ⟨0xffffff8010001000, by decide +kernel, by decide +kernel⟩
  · intro i before word here
    obtain rfl : i = 0 := by omega
    have null : (mountWords oneMount 0xffffff8010000000)[0]? = some 0 := by decide +kernel
    obtain rfl := Option.some.inj (null.symm.trans here)
    decide +kernel

end FsdFilter.MountSearch
