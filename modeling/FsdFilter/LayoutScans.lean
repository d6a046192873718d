import FsdFilter.KeyedWrites
import FsdFilter.VnodeLayout

/-! What the loops of the layout inference compute, in terms of the words that
can be read: where the probe data is first met, which operations a vector's
slots stand for, and which word of a vnode is taken for its `v_op`. -/
namespace FsdFilter.LayoutScans
open VnodeOps HookRegistry FakeFsd PagedMemory KeyedWrites VnodeLayout

variable {memory : Memory} {functions : LoadedFunctions}

theorem load_of_read {ptr value : VmOffset} (readable : memory.read ptr = some value) :
    load memory ptr = .ok value := by
  simp [load, readable]

/-- `FltVirtToPhys` reports a page as absent exactly when it is. -/
theorem fltVirtToPhys_eq_zero (memory : Memory) (addr : VmOffset) :
    fltVirtToPhys memory addr = 0 ↔ ¬memory.Mapped addr := by
  have frame : ((memory.frame (truncPage addr)).zeroExtend 64 <<< 12 : VmOffset) = 0 ↔
      memory.frame (truncPage addr) = 0 := by
    have bound := (memory.frame (truncPage addr)).isLt
    simp only [← BitVec.toNat_inj, BitVec.toNat_shiftLeft, BitVec.toNat_setWidth, Nat.shiftLeft_eq,
      BitVec.ofNat_eq_ofNat, BitVec.toNat_ofNat]
    omega
  simp only [fltVirtToPhys, Memory.Mapped, ne_eq, not_not, ← frame]
  split
  · rename_i present
    exact iff_of_false (fun zero => present (BitVec.or_eq_zero_iff.mp zero).1) present
  · rfl

/-- The page check fires exactly when the last byte of the word is absent. -/
theorem nextPageAbsent_iff {start : VmOffset} (startMapped : memory.Mapped start) (ptr : VmOffset) :
    nextPageAbsent memory (truncPage start) ptr = true ↔ ¬memory.Mapped (ptr + 7#64) := by
  have last : ptr + 8#64 - 1#64 = ptr + 7#64 := by
    rw [BitVec.sub_eq_add_neg, BitVec.add_assoc]
    rfl
  simp only [nextPageAbsent, last, decide_eq_true_eq, fltVirtToPhys_eq_zero]
  constructor
  · exact fun both => both.2
  · intro absent
    exact ⟨fun samePage => absent ((Memory.mapped_congr samePage).mpr startMapped), absent⟩

section Vector

/-- The operations that the words of consecutive slots stand for, each with the
offset of its slot. -/
def slotOperations (functions : LoadedFunctions) (i : ℕ) (words : List VmOffset) :
    List (VnodeopDesc × VmOffset) :=
  (words.zipIdx i).filterMap fun (word, i) =>
    (operationOf functions word).map fun opveOp => (opveOp, BitVec.ofNat 64 (8 * i))

/-- The operations found in the first 100 readable slots of a vector. -/
def vectorOperations (memory : Memory) (functions : LoadedFunctions) (v_op : VmOffset) :
    List (VnodeopDesc × VmOffset) :=
  slotOperations functions 0 (memory.readWords v_op 100)

/-- The operations recorded for a vector: the search of it ends when as many are
found as there are descriptors. -/
def recorded (memory : Memory) (functions : LoadedFunctions) (v_op : VmOffset) :
    List (VnodeopDesc × VmOffset) :=
  (vectorOperations memory functions v_op).take gNumberOfOpvOffsetDescs

@[simp] theorem slotOperations_nil (i : ℕ) : slotOperations functions i [] = [] := rfl

theorem slotOperations_cons_none {word : VmOffset} (unknown : operationOf functions word = none)
    (i : ℕ) (words : List VmOffset) :
    slotOperations functions i (word :: words) = slotOperations functions (i + 1) words := by
  simp [slotOperations, unknown]

theorem slotOperations_cons_some {word : VmOffset} {opveOp : VnodeopDesc}
    (found : operationOf functions word = some opveOp) (i : ℕ) (words : List VmOffset) :
    slotOperations functions i (word :: words) =
      (opveOp, BitVec.ofNat 64 (8 * i)) :: slotOperations functions (i + 1) words := by
  simp [slotOperations, found]

/-- Every operation found is one whose offset is looked for, and its function
is read at the offset recorded. -/
theorem registered_of_mem_vectorOperations {v_op : VmOffset} {found : VnodeopDesc × VmOffset}
    (member : found ∈ vectorOperations memory functions v_op) :
    found.1 ∈ operations ∧ (∃ i < 100, found.2 = BitVec.ofNat 64 (8 * i)) ∧
      ∃ entry ∈ gFltFakeVnodeopEntries, entry.opveOp = found.1 ∧
        memory.read (v_op + found.2) = some (functions.address entry.opveImpl) := by
  obtain ⟨⟨word, i⟩, indexed, same⟩ := List.mem_filterMap.mp member
  obtain ⟨opveOp, stands, rfl⟩ := Option.map_eq_some_iff.mp same
  obtain ⟨known, entry, registered, operation, address⟩ := registered_of_operationOf stands
  have run := List.mem_zipIdx_iff_getElem?.mp indexed
  have inRange : i < 100 := by
    have within := (List.getElem?_eq_some_iff.mp run).1
    exact Nat.lt_of_lt_of_le within (memory.readWords_length_le v_op 100)
  exact ⟨known, ⟨i, inRange, rfl⟩, entry, registered, operation, address ▸ Memory.read_of_readWords run⟩

/-- One candidate vector: the operations in its readable slots are recorded in
the order of the slots, until as many are found as there are descriptors. -/
theorem scanVector_eq (functions : LoadedFunctions) {start func : VmOffset} (remaining i : ℕ)
    {numberOfHits : ℕ} (offset : VnodeopDesc → VmOffset) (startMapped : memory.Mapped start)
    (continues : memory.Continues func) (fewer : numberOfHits < gNumberOfOpvOffsetDescs) :
    scanVector memory functions (truncPage start) remaining i func numberOfHits (offsetsTable offset) =
      .ok (gNumberOfOpvOffsetDescs ≤
          numberOfHits + (slotOperations functions i (memory.readWords func remaining)).length,
        offsetsTable (record offset ((slotOperations functions i (memory.readWords func remaining)).take
          (gNumberOfOpvOffsetDescs - numberOfHits)))) := by
  induction remaining generalizing i func numberOfHits offset with
  | zero => simp [scanVector, Nat.not_le.mpr fewer, pure, Except.pure]
  | succ remaining ih =>
    by_cases lastMapped : memory.Mapped (func + 7#64)
    · have present : nextPageAbsent memory (truncPage start) func = false := by
        simpa [lastMapped] using nextPageAbsent_iff startMapped func
      have readable := Memory.read_of_continues continues lastMapped
      have next := Memory.continues_next lastMapped
      simp only [scanVector, present, Bool.false_eq_true, if_false, load_of_read readable, bind,
        Except.bind, retriveByFakeFsdVnodeOp_offsetsTable, Memory.readWords_cons readable]
      cases stands : operationOf functions (memory.word func) with
      | none =>
        simp only [Option.map_none, slotOperations_cons_none stands]
        exact ih (i + 1) offset next fewer
      | some opveOp =>
        simp only [Option.map_some, slotOperations_cons_some stands, setOffset_offsetsTable,
          List.length_cons]
        by_cases last : gNumberOfOpvOffsetDescs = numberOfHits + 1
        · simp [last, pure, Except.pure]
        · have more : gNumberOfOpvOffsetDescs - numberOfHits =
              gNumberOfOpvOffsetDescs - (numberOfHits + 1) + 1 := by omega
          rw [if_neg last, ih (i + 1) _ next (by omega), more, List.take_succ_cons, record_cons]
          simp only [Nat.add_assoc, Nat.add_comm 1]
    · have absent := (nextPageAbsent_iff startMapped func).mpr lastMapped
      simp [scanVector, absent, Memory.readWords_absent (Memory.read_eq_none lastMapped), fewer, pure,
        Except.pure]

/-- The inner loop over a mapped candidate. -/
theorem scanVopVector_eq {v_op : VmOffset} {offset : VnodeopDesc → VmOffset}
    (mapped : memory.Mapped v_op) :
    scanVopVector memory functions v_op (offsetsTable offset) =
      .ok (gNumberOfOpvOffsetDescs ≤ (vectorOperations memory functions v_op).length,
        offsetsTable (record offset (recorded memory functions v_op))) := by
  have scanned :=
    scanVector_eq functions 100 0 offset mapped (.inl mapped)
    (show 0 < gNumberOfOpvOffsetDescs by decide)
  rw [Nat.zero_add, Nat.sub_zero] at scanned
  exact scanned

end Vector

section Header

/-- The words of a vnode that can be read, within `PAGE_SIZE` of its start. -/
def probeWords (memory : Memory) (vNode : VmOffset) : List VmOffset := memory.readWords vNode 512

/-- The first vnode holds its private data here, or the second one its own. -/
def holdsData (words : VmOffset × VmOffset) : Bool := words.1 = vData1 ∨ words.2 = vData2

/-- The number of words before private data is first met in either vnode. -/
def headerWords (memory : Memory) (vNode1 vNode2 : VmOffset) : Option ℕ :=
  ((probeWords memory vNode1).zip (probeWords memory vNode2)).findIdx? holdsData

theorem dataAhead_eq {ptrNode1 ptrNode2 word1 word2 : VmOffset}
    (readable1 : memory.read ptrNode1 = some word1) (readable2 : memory.read ptrNode2 = some word2) :
    dataAhead memory ptrNode1 ptrNode2 = .ok !holdsData (word1, word2) := by
  by_cases data1 : word1 = vData1 <;>
    simp [dataAhead, load_of_read readable1, load_of_read readable2, holdsData, data1, bind,
    Except.bind, pure,
      Except.pure]

theorem byteOffset_succ (i : ℕ) : BitVec.ofNat 64 (8 * i) + 8#64 = BitVec.ofNat 64 (8 * (i + 1)) := by
  rw [Nat.mul_add, BitVec.ofNat_add]

/-- One iteration: it goes on to the next word when private data is ahead and
the next word of either vnode is present and within `PAGE_SIZE`. -/
theorem scanHeader_step {vNode1 vNode2 ptrNode1 ptrNode2 word1 word2 : VmOffset} {i fuel : ℕ}
    (mapped1 : memory.Mapped vNode1) (mapped2 : memory.Mapped vNode2)
    (readable1 : memory.read ptrNode1 = some word1) (readable2 : memory.read ptrNode2 = some word2)
    (inPage : i < 512) :
    scanHeader memory (truncPage vNode1) (truncPage vNode2) (fuel + 1)
        ⟨ptrNode1, ptrNode2, BitVec.ofNat 64 (8 * i)⟩ =
      if holdsData (word1, word2) then .ok ⟨ptrNode1, ptrNode2, BitVec.ofNat 64 (8 * i)⟩
      else if memory.Mapped (ptrNode1 + 8#64 + 7#64) ∧ memory.Mapped (ptrNode2 + 8#64 + 7#64) ∧
      i + 1 < 512 then
        scanHeader memory (truncPage vNode1) (truncPage vNode2) fuel
          ⟨ptrNode1 + 8#64, ptrNode2 + 8#64, BitVec.ofNat 64 (8 * (i + 1))⟩
      else .ok ⟨ptrNode1 + 8#64, ptrNode2 + 8#64, -1⟩ := by
  have atEnd : pageSize ≤ BitVec.ofNat 64 (8 * (i + 1)) ↔ ¬i + 1 < 512 := by
    simp only [pageSize, BitVec.le_def, BitVec.toNat_ofNat]
    omega
  simp only [scanHeader, dataAhead_eq readable1 readable2, bind, Except.bind, byteOffset_succ,
    ge_iff_le, atEnd]
  cases holdsData (word1, word2) with
  | true => rfl
  | false =>
    by_cases next1 : memory.Mapped (ptrNode1 + 8#64 + 7#64) <;>
      by_cases next2 : memory.Mapped (ptrNode2 + 8#64 + 7#64) <;>
      by_cases within : i + 1 < 512 <;>
      simp [nextPageAbsent_iff mapped1, nextPageAbsent_iff mapped2, next1, next2, within, pure,
      Except.pure]

/-- The first loop from any of its iterations: it stops at the first word that
holds private data, or fails when there is none ahead. -/
theorem scanHeader_spec {vNode1 vNode2 ptrNode1 ptrNode2 word1 word2 : VmOffset} (ahead i fuel : ℕ)
    (mapped1 : memory.Mapped vNode1) (mapped2 : memory.Mapped vNode2)
    (readable1 : memory.read ptrNode1 = some word1) (readable2 : memory.read ptrNode2 = some word2)
    (inPage : i + (ahead + 1) = 512) (enough : ahead < fuel) :
    ∃ scan, scanHeader memory (truncPage vNode1) (truncPage vNode2) fuel
        ⟨ptrNode1, ptrNode2, BitVec.ofNat 64 (8 * i)⟩ = .ok scan ∧
      match ((memory.readWords ptrNode1 (ahead + 1)).zip (memory.readWords ptrNode2 (ahead + 1))).findIdx?
        holdsData with
      | some n => scan = ⟨slot ptrNode1 n, slot ptrNode2 n, BitVec.ofNat 64 (8 * (i + n))⟩
      | none => scan.vNodeHeaderSize = -1 := by
  induction ahead generalizing i fuel ptrNode1 ptrNode2 word1 word2 with
  | zero =>
    obtain ⟨fuel, rfl⟩ := Nat.exists_eq_succ_of_ne_zero (Nat.ne_zero_of_lt enough)
    rw [scanHeader_step mapped1 mapped2 readable1 readable2 (by omega), Memory.readWords_cons readable1,
      Memory.readWords_cons readable2, List.zip_cons_cons, List.findIdx?_cons]
    cases holdsData (word1, word2) with
    | true => exact ⟨_, rfl, by simp⟩
    | false =>
      rw [if_neg (by simp), if_neg (by omega)]
      exact ⟨_, rfl, by simp⟩
  | succ ahead ih =>
    obtain ⟨fuel, rfl⟩ := Nat.exists_eq_succ_of_ne_zero (Nat.ne_zero_of_lt enough)
    rw [scanHeader_step mapped1 mapped2 readable1 readable2 (by omega), Memory.readWords_cons readable1,
      Memory.readWords_cons readable2, List.zip_cons_cons, List.findIdx?_cons]
    cases holdsData (word1, word2) with
    | true => exact ⟨_, rfl, by simp⟩
    | false =>
      rw [if_neg (by simp)]
      have continues1 := Memory.continues_next (Memory.mapped_of_read readable1).2
      have continues2 := Memory.continues_next (Memory.mapped_of_read readable2).2
      by_cases next1 : memory.Mapped (ptrNode1 + 8#64 + 7#64)
      · by_cases next2 : memory.Mapped (ptrNode2 + 8#64 + 7#64)
        · rw [if_pos ⟨next1, next2, by omega⟩]
          obtain ⟨scan, ran, stopped⟩ := ih (i + 1) fuel
            (Memory.read_of_continues continues1 next1) (Memory.read_of_continues continues2 next2)
            (by omega) (by omega)
          refine ⟨scan, ran, ?_⟩
          revert stopped
          cases List.findIdx? holdsData _ with
          | none => exact id
          | some n =>
            intro stopped
            simp only [Bool.false_eq_true, if_false, Option.map_some]
            rw [stopped, slot_next, slot_next, Nat.add_assoc, Nat.add_comm 1]
        · rw [if_neg fun all => next2 all.2.1, Memory.readWords_absent (Memory.read_eq_none next2)]
          exact ⟨_, rfl, by simp⟩
      · rw [if_neg fun all => next1 all.1, Memory.readWords_absent (Memory.read_eq_none next1)]
        exact ⟨_, rfl, by simp⟩

/-- The first loop fails or finds the first word that holds private data. -/
theorem scanHeader_eq {vNode1 vNode2 word1 word2 : VmOffset}
    (readable1 : memory.read vNode1 = some word1) (readable2 : memory.read vNode2 = some word2) :
    ∃ scan,
      scanHeader memory (truncPage vNode1) (truncPage vNode2) scanFuel ⟨vNode1, vNode2, 0⟩ = .ok scan ∧
      match headerWords memory vNode1 vNode2 with
      | some n => scan = ⟨slot vNode1 n, slot vNode2 n, BitVec.ofNat 64 (8 * n)⟩
      | none => scan.vNodeHeaderSize = -1 := by
  have scanned := scanHeader_spec 511 0 scanFuel
    (Memory.mapped_of_read readable1).1 (Memory.mapped_of_read readable2).1 readable1 readable2
    rfl (by decide)
  simp only [Nat.zero_add] at scanned
  exact scanned

/-- The private data are met where either vnode first holds its own, if the words up to
there can be read. -/
theorem headerWords_of_readable {vNode1 vNode2 : VmOffset} {n : ℕ} (inPage : n < 512)
    (readable : ∀ i ≤ n, memory.read (slot vNode1 i) = some (memory.word (slot vNode1 i)) ∧
      memory.read (slot vNode2 i) = some (memory.word (slot vNode2 i)))
    (here : holdsData (memory.word (slot vNode1 n), memory.word (slot vNode2 n)) = true)
    (before : ∀ i < n, holdsData (memory.word (slot vNode1 i), memory.word (slot vNode2 i)) = false) :
    headerWords memory vNode1 vNode2 = some n := by
  have zipped : ∀ i ≤ n, ((probeWords memory vNode1).zip (probeWords memory vNode2))[i]? =
      some (memory.word (slot vNode1 i), memory.word (slot vNode2 i)) := by
    intro i within
    rw [List.getElem?_zip_eq_some]
    exact ⟨Memory.readWords_getElem? (fun j early => (readable j (Nat.le_trans early within)).1)
        (Nat.lt_of_le_of_lt within inPage),
      Memory.readWords_getElem? (fun j early => (readable j (Nat.le_trans early within)).2)
        (Nat.lt_of_le_of_lt within inPage)⟩
  obtain ⟨present, stops⟩ := List.getElem?_eq_some_iff.mp (zipped n (Nat.le_refl n))
  rw [headerWords, List.findIdx?_eq_some_iff_getElem]
  refine ⟨present, ?_, fun i early => ?_⟩
  · rw [stops]
    exact here
  · obtain ⟨_, passed⟩ := List.getElem?_eq_some_iff.mp (zipped i (Nat.le_of_lt early))
    rw [passed, before i early]
    exact Bool.false_ne_true

/-- The words of the header can be read. -/
theorem headerWords_readable {vNode1 vNode2 : VmOffset} {n : ℕ}
    (ended : headerWords memory vNode1 vNode2 = some n) :
    n < 512 ∧ ∀ i ≤ n, memory.read (slot vNode1 i) = some (memory.word (slot vNode1 i)) ∧
      memory.read (slot vNode2 i) = some (memory.word (slot vNode2 i)) := by
  obtain ⟨within, -⟩ := List.findIdx?_eq_some_iff_getElem.mp ended
  rw [List.length_zip, Nat.lt_min] at within
  refine ⟨Nat.lt_of_lt_of_le within.1 (memory.readWords_length_le vNode1 512),
    fun i before => ⟨?_, ?_⟩⟩
  · exact Memory.read_of_lt_readWords (Nat.lt_of_le_of_lt before within.1)
  · exact Memory.read_of_lt_readWords (Nat.lt_of_le_of_lt before within.2)

/-- The words before that hold no private data, and those there do. -/
theorem headerWords_first {vNode1 vNode2 : VmOffset} {n : ℕ}
    (ended : headerWords memory vNode1 vNode2 = some n) :
    holdsData (memory.word (slot vNode1 n), memory.word (slot vNode2 n)) = true ∧
      ∀ i < n, holdsData (memory.word (slot vNode1 i), memory.word (slot vNode2 i)) = false := by
  obtain ⟨within, here, before⟩ := List.findIdx?_eq_some_iff_getElem.mp ended
  have word : ∀ (i : ℕ) (inside : i < ((probeWords memory vNode1).zip (probeWords memory vNode2)).length),
      ((probeWords memory vNode1).zip (probeWords memory vNode2))[i] =
        (memory.word (slot vNode1 i), memory.word (slot vNode2 i)) := by
    intro i inside
    have both := inside
    rw [List.length_zip, Nat.lt_min] at both
    rw [List.getElem_zip]
    exact Prod.ext (Memory.word_of_read (Memory.read_of_readWords (List.getElem?_eq_getElem both.1)))
      (Memory.word_of_read (Memory.read_of_readWords (List.getElem?_eq_getElem both.2)))
  refine ⟨word n within ▸ here, fun i early => ?_⟩
  rw [← word i (Nat.lt_trans early within)]
  exact eq_false_of_ne_true (before i early)

end Header

section Search

/-- A word of a vnode. -/
def vNodeWord (memory : Memory) (vNode : VmOffset) (i : ℕ) : VmOffset := memory.word (slot vNode i)

/-- A value that the search takes for the vector: it is mapped and as many of
its readable slots hold fake operations as there are descriptors. -/
def IsVopVector (memory : Memory) (functions : LoadedFunctions) (v_op : VmOffset) : Prop :=
  v_op ≠ 0 ∧ memory.Mapped v_op ∧
    gNumberOfOpvOffsetDescs ≤ (vectorOperations memory functions v_op).length

instance (memory : Memory) (functions : LoadedFunctions) (v_op : VmOffset) :
    Decidable (IsVopVector memory functions v_op) :=
  inferInstanceAs (Decidable (_ ∧ _ ∧ _))

/-- Of the first words of a vnode, the last that such a vector is at. -/
def LastVector (memory : Memory) (functions : LoadedFunctions) (vNode : VmOffset) (n j : ℕ) : Prop :=
  j < n ∧ IsVopVector memory functions (vNodeWord memory vNode j) ∧
    ∀ l, j < l → l < n → ¬IsVopVector memory functions (vNodeWord memory vNode l)

/-- What trying a value as the vector records: nothing unless it is a mapped address. -/
def candidateOperations (memory : Memory) (functions : LoadedFunctions) (v_op : VmOffset) :
    List (VnodeopDesc × VmOffset) :=
  if v_op ≠ 0 ∧ memory.Mapped v_op then recorded memory functions v_op else []

/-- What is recorded when the search passes over all of the first words of a vnode. -/
def passedOperations (memory : Memory) (functions : LoadedFunctions) (vNode : VmOffset) :
    ℕ → List (VnodeopDesc × VmOffset)
  | 0 => []
  | n + 1 => candidateOperations memory functions (vNodeWord memory vNode n) ++
      passedOperations memory functions vNode n

/-- One round of the second loop. A candidate that is not the vector leaves the
offsets of the operations it did have in the table. -/
theorem searchVop_step (functions : LoadedFunctions) {vNode1 : VmOffset} (ptrNode2 : VmOffset) {n : ℕ}
    (fuel : ℕ) (offset : VnodeopDesc → VmOffset)
    (ahead : vNode1 < slot vNode1 (n + 1))
    (readable : memory.read (slot vNode1 n) = some (vNodeWord memory vNode1 n)) :
    searchVop memory functions vNode1 (fuel + 1) (slot vNode1 (n + 1)) ptrNode2
        (BitVec.ofNat 64 (8 * (n + 1))) (offsetsTable offset) =
      if IsVopVector memory functions (vNodeWord memory vNode1 n) then
        .ok ⟨true, BitVec.ofNat 64 (8 * n),
          offsetsTable (record offset (recorded memory functions (vNodeWord memory vNode1 n)))⟩
      else searchVop memory functions vNode1 fuel (slot vNode1 n) (ptrNode2 - 8#64)
        (BitVec.ofNat 64 (8 * n))
        (offsetsTable
        (record offset (candidateOperations memory functions (vNodeWord memory vNode1 n)))) := by
  have back : slot vNode1 (n + 1) - 8#64 = slot vNode1 n := by
    rw [slot_succ, BitVec.add_sub_cancel]
  have backOffset : BitVec.ofNat 64 (8 * (n + 1)) - 8#64 = BitVec.ofNat 64 (8 * n) := by
    rw [← byteOffset_succ, BitVec.add_sub_cancel]
  simp only [searchVop, gt_iff_lt, ahead, if_true, back, backOffset, load_of_read readable, bind,
    Except.bind, ne_eq, fltVirtToPhys_eq_zero, not_not, true_and]
  by_cases candidate : vNodeWord memory vNode1 n ≠ 0 ∧ memory.Mapped (vNodeWord memory vNode1 n)
  · rw [if_pos candidate, scanVopVector_eq candidate.2, candidateOperations, if_pos candidate]
    by_cases complete :
        gNumberOfOpvOffsetDescs ≤ (vectorOperations memory functions (vNodeWord memory vNode1 n)).length
    · rw [if_pos ⟨candidate.1, candidate.2, complete⟩]
      simp [complete, recorded, pure, Except.pure]
    · rw [if_neg fun vector => complete vector.2.2]
      simp [complete, recorded]
  · rw [if_neg candidate, if_neg fun vector => candidate ⟨vector.1, vector.2.1⟩, candidateOperations,
      if_neg candidate, record_nil]

/-- The second loop: it takes the last word that is at a vector, with that
vector's offsets written over those of the candidates before it; without such a
word it has only recorded what the candidates had. -/
theorem searchVop_spec (functions : LoadedFunctions) {vNode1 : VmOffset} (ptrNode2 : VmOffset)
    {n : ℕ} (fuel : ℕ) (offset : VnodeopDesc → VmOffset)
    (noWrap : vNode1.toNat + 8 * n < 2 ^ 64)
    (readable : ∀ i < n, memory.read (slot vNode1 i) = some (vNodeWord memory vNode1 i))
    (enough : n < fuel) :
    ∃ search, searchVop memory functions vNode1 fuel (slot vNode1 n) ptrNode2
        (BitVec.ofNat 64 (8 * n)) (offsetsTable offset) = .ok search ∧
      (search = ⟨false, 0, offsetsTable (record offset (passedOperations memory functions vNode1 n))⟩ ∧
          (∀ j < n, ¬IsVopVector memory functions (vNodeWord memory vNode1 j)) ∨
        ∃ j earlier, LastVector memory functions vNode1 n j ∧
          search = ⟨true, BitVec.ofNat 64 (8 * j),
            offsetsTable
              (record offset (earlier ++ recorded memory functions (vNodeWord memory vNode1 j)))⟩) := by
  induction n generalizing fuel ptrNode2 offset with
  | zero =>
    obtain ⟨fuel, rfl⟩ := Nat.exists_eq_succ_of_ne_zero (Nat.ne_zero_of_lt enough)
    exact ⟨⟨false, 0, offsetsTable offset⟩, by rw [searchVop, if_neg (by simp)]; rfl, .inl ⟨rfl, by simp⟩⟩
  | succ n ih =>
    obtain ⟨fuel, rfl⟩ := Nat.exists_eq_succ_of_ne_zero (Nat.ne_zero_of_lt enough)
    have ahead : vNode1 < slot vNode1 (n + 1) := by
      simp only [slot, BitVec.lt_def, BitVec.toNat_add, BitVec.toNat_ofNat]
      omega
    rw [searchVop_step functions ptrNode2 fuel offset ahead (readable n (Nat.lt_succ_self n))]
    by_cases vector : IsVopVector memory functions (vNodeWord memory vNode1 n)
    · rw [if_pos vector]
      exact ⟨_, rfl, .inr ⟨n, [], ⟨Nat.lt_succ_self n, vector, fun l after before => by omega⟩, rfl⟩⟩
    · rw [if_neg vector]
      obtain ⟨search, ran, ended⟩ := ih (ptrNode2 - 8#64) fuel
        (record offset (candidateOperations memory functions (vNodeWord memory vNode1 n)))
        (by omega) (fun i before => readable i (by omega)) (by omega)
      refine ⟨search, ran, ?_⟩
      cases ended with
      | inl missed =>
        obtain ⟨rfl, noVector⟩ := missed
        refine .inl ⟨by rw [passedOperations, record_append], fun j before => ?_⟩
        cases Nat.lt_succ_iff_lt_or_eq.mp before with
        | inl earlierWord => exact noVector j earlierWord
        | inr thisWord => exact thisWord ▸ vector
      | inr taken =>
        obtain ⟨j, more, ⟨before, atVector, none⟩, rfl⟩ := taken
        refine .inr ⟨j, candidateOperations memory functions (vNodeWord memory vNode1 n) ++ more,
          ⟨Nat.lt_succ_of_lt before, atVector, fun l after within => ?_⟩, ?_⟩
        · cases Nat.lt_succ_iff_lt_or_eq.mp within with
          | inl earlierWord => exact none l after earlierWord
          | inr thisWord => exact thisWord ▸ vector
        · rw [List.append_assoc, record_append offset (candidateOperations memory functions _)]

/-- A header that wraps round the end of the address space is not searched. -/
theorem searchVop_wrapped {vNode1 ptrNode1 ptrNode2 vNodeVopOffset : VmOffset} {fuel : ℕ}
    {offsets : List FltVnodeOpvOffsetDesc} (wrapped : ¬ptrNode1 > vNode1) :
    searchVop memory functions vNode1 (fuel + 1) ptrNode1 ptrNode2 vNodeVopOffset offsets =
      .ok ⟨false, vNodeVopOffset, offsets⟩ := by
  rw [searchVop, if_neg wrapped]
  rfl

theorem lastVector_unique {vNode : VmOffset} {n j k : ℕ} (last : LastVector memory functions vNode n j)
    (other : LastVector memory functions vNode n k) : j = k := by
  obtain ⟨jBefore, jVector, jLast⟩ := last
  obtain ⟨kBefore, kVector, kLast⟩ := other
  rcases Nat.lt_trichotomy j k with less | same | greater
  · exact absurd kVector (jLast k less kBefore)
  · exact same
  · exact absurd jVector (kLast j greater jBefore)

end Search

section Inference
variable {vNode1 vNode2 : VmOffset} {mountLayout : IOReturn} {result : LayoutResult}

/-- The result when the search ends at word `j`, after candidates that left
`earlier` offsets. -/
def layoutAt (memory : Memory) (functions : LoadedFunctions) (mountLayout : IOReturn)
    (vNode1 : VmOffset) (j : ℕ) (earlier : List (VnodeopDesc × VmOffset)) : LayoutResult :=
  ⟨mountLayout, true, BitVec.ofNat 64 (8 * j), offsetsTable (record (fun _ => fltVopUnknownOffset)
    (earlier ++ recorded memory functions (vNodeWord memory vNode1 j)))⟩

theorem byteOffset_eq_zero {n : ℕ} (inPage : n < 512) : BitVec.ofNat 64 (8 * n) = 0 ↔ n = 0 := by
  have fits : 8 * n % 2 ^ 64 = 8 * n := Nat.mod_eq_of_lt (by omega)
  rw [← BitVec.toNat_inj, BitVec.toNat_ofNat, fits]
  exact Nat.mul_eq_zero.trans (by simp)

theorem byteOffset_ne_unknown (n : ℕ) : BitVec.ofNat 64 (8 * n) ≠ fltVopUnknownOffset := by
  intro same
  have bits := congrArg BitVec.toNat same
  rw [BitVec.toNat_ofNat, show fltVopUnknownOffset.toNat = 2 ^ 64 - 1 from rfl] at bits
  omega

/-- The result when the search passes over every word before the data. -/
def passedOver (memory : Memory) (functions : LoadedFunctions) (vNode1 : VmOffset) (n : ℕ) :
    LayoutResult :=
  .failed (offsetsTable (record (fun _ => fltVopUnknownOffset) (passedOperations memory functions vNode1 n)))

/-- The inference once the header is known. -/
theorem inferLayout_spec (functions : LoadedFunctions) (mountLayout : IOReturn) {n : ℕ}
    (ended : headerWords memory vNode1 vNode2 = some n)
    (noWrap : vNode1.toNat + 8 * n < 2 ^ 64) :
    ∃ result, inferLayout memory functions mountLayout vNode1 vNode2 = .ok result ∧
      (result = passedOver memory functions vNode1 n ∧
          (∀ j < n, ¬IsVopVector memory functions (vNodeWord memory vNode1 j)) ∨
        ∃ j earlier, LastVector memory functions vNode1 n j ∧
          result = layoutAt memory functions mountLayout vNode1 j earlier) := by
  obtain ⟨inPage, readable⟩ := headerWords_readable ended
  obtain ⟨first1, first2⟩ := readable 0 (Nat.zero_le n)
  rw [slot_zero] at first1 first2
  obtain ⟨scan, scanned, stopped⟩ := scanHeader_eq first1 first2
  rw [ended] at stopped
  subst stopped
  simp only [inferLayout, scanned, bind, Except.bind]
  cases n with
  | zero =>
    rw [if_pos (.inl rfl)]
    exact ⟨_, rfl, .inl ⟨rfl, by simp⟩⟩
  | succ n =>
    have proper : ¬(BitVec.ofNat 64 (8 * (n + 1)) = 0 ∨ BitVec.ofNat 64 (8 * (n + 1)) = -1) := by
      rw [byteOffset_eq_zero inPage]
      exact not_or.mpr ⟨Nat.succ_ne_zero n, byteOffset_ne_unknown _⟩
    obtain ⟨search, searched, outcome⟩ := searchVop_spec functions (slot vNode2 (n + 1)) scanFuel
      (fun _ => fltVopUnknownOffset) noWrap (fun i before => (readable i (Nat.le_of_lt before)).1)
      (Nat.lt_succ_of_lt inPage)
    rw [if_neg proper, ← offsetsTable_unknown, searched]
    cases outcome with
    | inl missed =>
      obtain ⟨rfl, noVector⟩ := missed
      exact ⟨passedOver memory functions vNode1 (n + 1), rfl, .inl ⟨rfl, noVector⟩⟩
    | inr taken =>
      obtain ⟨j, earlier, last, rfl⟩ := taken
      exact ⟨_, rfl, .inr ⟨j, earlier, last, rfl⟩⟩

/-- The inference from a header that ends in a last vector finds that vector. -/
theorem found_of_lastVector (mountLayout : IOReturn) {n j : ℕ}
    (ended : headerWords memory vNode1 vNode2 = some n) (noWrap : vNode1.toNat + 8 * n < 2 ^ 64)
    (last : LastVector memory functions vNode1 n j) :
    ∃ earlier, inferLayout memory functions mountLayout vNode1 vNode2 =
      .ok (layoutAt memory functions mountLayout vNode1 j earlier) := by
  obtain ⟨result, ran, outcome⟩ := inferLayout_spec functions mountLayout ended noWrap
  cases outcome with
  | inl missed => exact absurd last.2.1 (missed.2 j last.1)
  | inr taken =>
    obtain ⟨k, earlier, taken, rfl⟩ := taken
    exact ⟨earlier, lastVector_unique last taken ▸ ran⟩

/-- In a header that reaches round the end of the address space no word is ahead. -/
theorem not_ahead_of_wraps {n : ℕ} (ended : headerWords memory vNode1 vNode2 = some n)
    (wraps : ¬vNode1.toNat + 8 * n < 2 ^ 64) : ¬slot vNode1 n > vNode1 := by
  have inPage := (headerWords_readable ended).1
  have bound := vNode1.isLt
  simp only [slot, gt_iff_lt, BitVec.lt_def, BitVec.toNat_add, BitVec.toNat_ofNat]
  omega

/-- Without a header that can be searched the offsets stay as they are compiled. -/
theorem inferLayout_unsearched (functions : LoadedFunctions) (mountLayout : IOReturn)
    {word1 word2 : VmOffset} (readable1 : memory.read vNode1 = some word1)
    (readable2 : memory.read vNode2 = some word2)
    (unsearched : ∀ n, headerWords memory vNode1 vNode2 = some n → ¬vNode1.toNat + 8 * n < 2 ^ 64) :
    inferLayout memory functions mountLayout vNode1 vNode2 = .ok (.failed gFltVnodeOpvOffsetDesc) := by
  obtain ⟨scan, scanned, stopped⟩ := scanHeader_eq readable1 readable2
  simp only [inferLayout, scanned, bind, Except.bind]
  cases ended : headerWords memory vNode1 vNode2 with
  | none =>
    rw [ended] at stopped
    rw [if_pos (.inr stopped)]
    rfl
  | some n =>
    rw [ended] at stopped
    subst stopped
    simp only [scanFuel, searchVop_wrapped (not_ahead_of_wraps ended (unsearched n ended)),
      Bool.false_eq_true, if_false]
    split <;> rfl

/-- From two vnodes whose first words can be read the inference always ends. -/
theorem inferLayout_returns (functions : LoadedFunctions) (mountLayout : IOReturn)
    {word1 word2 : VmOffset} (readable1 : memory.read vNode1 = some word1)
    (readable2 : memory.read vNode2 = some word2) :
    ∃ result, inferLayout memory functions mountLayout vNode1 vNode2 = .ok result := by
  by_cases searched : ∃ n, headerWords memory vNode1 vNode2 = some n ∧ vNode1.toNat + 8 * n < 2 ^ 64
  · obtain ⟨n, ended, noWrap⟩ := searched
    obtain ⟨result, ran, -⟩ := inferLayout_spec functions mountLayout ended noWrap
    exact ⟨result, ran⟩
  · exact ⟨_, inferLayout_unsearched functions mountLayout readable1 readable2
      fun n ended noWrap => searched ⟨n, ended, noWrap⟩⟩

/-- An inference that ends without a header to search has left the offsets as
they are compiled. -/
theorem failed_of_unsearched (ran : inferLayout memory functions mountLayout vNode1 vNode2 = .ok result)
    (unsearched : ∀ n, headerWords memory vNode1 vNode2 = some n → ¬vNode1.toNat + 8 * n < 2 ^ 64) :
    result = .failed gFltVnodeOpvOffsetDesc := by
  cases readable1 : memory.read vNode1 with
  | none =>
    simp [inferLayout, scanHeader, scanFuel, dataAhead, load, readable1, bind, Except.bind] at ran
  | some word1 =>
    cases readable2 : memory.read vNode2 with
    | none =>
      -- the second vnode is only left unread when the first word is the data already
      by_cases data1 : word1 = vData1
      · simp [inferLayout, scanHeader, scanFuel, dataAhead, load, readable1, data1, bind,
          Except.bind, pure, Except.pure] at ran
        exact ran.symm
      · simp [inferLayout, scanHeader, scanFuel, dataAhead, load, readable1, readable2, data1, bind,
          Except.bind] at ran
    | some word2 =>
      rw [inferLayout_unsearched functions mountLayout readable1 readable2 unsearched] at ran
      exact (Except.ok.inj ran).symm

/-- Without a header that can be searched nothing is found. -/
theorem header_of_found (ran : inferLayout memory functions mountLayout vNode1 vNode2 = .ok result)
    (found : result.vNodeVopFound = true) :
    ∃ n, headerWords memory vNode1 vNode2 = some n ∧ vNode1.toNat + 8 * n < 2 ^ 64 := by
  by_contra unsearched
  rw [failed_of_unsearched ran fun n ended noWrap => unsearched ⟨n, ended, noWrap⟩] at found
  cases found

/-- A layout that is found is that of the last vector in the header. -/
theorem lastVector_of_found (ran : inferLayout memory functions mountLayout vNode1 vNode2 = .ok result)
    (found : result.vNodeVopFound = true) :
    ∃ n j earlier, headerWords memory vNode1 vNode2 = some n ∧ vNode1.toNat + 8 * n < 2 ^ 64 ∧
      LastVector memory functions vNode1 n j ∧
        result = layoutAt memory functions mountLayout vNode1 j earlier := by
  obtain ⟨n, ended, noWrap⟩ := header_of_found ran found
  obtain ⟨other, ranOther, outcome⟩ :=
    inferLayout_spec functions mountLayout ended noWrap
  rw [ran] at ranOther
  cases ranOther
  cases outcome with
  | inl missed =>
    rw [missed.1] at found
    cases found
  | inr taken =>
    obtain ⟨j, earlier, last, same⟩ := taken
    exact ⟨n, j, earlier, ended, noWrap, last, same⟩

end Inference
end FsdFilter.LayoutScans
