import FsdFilter.WiredCopy
import Mathlib.Tactic.IntervalCases

/-! One word written to read-only memory: the new value goes to a variable on the stack and
from there, through the physical pages, to the slot. The bytes of the slot and of the
variable change, and no others. -/
namespace FsdFilter.SlotBytes
open VnodeOps PagedMemory VnodeLayout LayoutScans WiredCopy

/-- Byte `i` of a word. -/
def wordByte (value : BitVec 64) (i : ℕ) : BitVec 8 := value.extractLsb' (8 * i) 8

/-- Two adjoining parts of a word. -/
theorem extract_append (value : BitVec 64) (n m start : ℕ) :
    value.extractLsb' (start + m) n ++ value.extractLsb' start m = value.extractLsb' start (n + m) := by
  apply BitVec.eq_of_getLsbD_eq
  intro j inside
  simp only [BitVec.getLsbD_append, BitVec.getLsbD_extractLsb']
  by_cases low : j < m
  · simp [low, inside]
  · have high : j - m < n := by omega
    have place : start + m + (j - m) = start + j := by omega
    simp [low, inside, high, place]

theorem word_of_bytes {memory : Memory} {address value : BitVec 64}
    (bytes : ∀ i < 8, memory.byte (byteAt address i) = wordByte value i) :
    memory.word address = value := by
  have b0 : memory.byte address = value.extractLsb' 0 8 := by
    simpa [byteAt, wordByte] using bytes 0 (by decide)
  have b1 : memory.byte (address + 1) = value.extractLsb' 8 8 := bytes 1 (by decide)
  have b2 : memory.byte (address + 2) = value.extractLsb' 16 8 := bytes 2 (by decide)
  have b3 : memory.byte (address + 3) = value.extractLsb' 24 8 := bytes 3 (by decide)
  have b4 : memory.byte (address + 4) = value.extractLsb' 32 8 := bytes 4 (by decide)
  have b5 : memory.byte (address + 5) = value.extractLsb' 40 8 := bytes 5 (by decide)
  have b6 : memory.byte (address + 6) = value.extractLsb' 48 8 := bytes 6 (by decide)
  have b7 : memory.byte (address + 7) = value.extractLsb' 56 8 := bytes 7 (by decide)
  rw [Memory.word, b0, b1, b2, b3, b4, b5, b6, b7, extract_append value 8 8 48,
    extract_append value (8 + 8) 8 40,
    extract_append value (8 + 8 + 8) 8 32, extract_append value (8 + 8 + 8 + 8) 8 24,
    extract_append value (8 + 8 + 8 + 8 + 8) 8 16, extract_append value (8 + 8 + 8 + 8 + 8 + 8) 8 8,
    extract_append value (8 + 8 + 8 + 8 + 8 + 8 + 8) 8 0]
  exact BitVec.extractLsb'_eq_self

/-- Without the lowest byte the others move down by one place. -/
theorem byte_append {n : ℕ} (hi : BitVec n) (lo : BitVec 8) (i : ℕ) :
    (hi ++ lo).extractLsb' (8 * (i + 1)) 8 = hi.extractLsb' (8 * i) 8 := by
  rw [BitVec.extractLsb'_append_eq_of_le (by omega)]
  rfl

theorem byte_append_zero {n : ℕ} (hi : BitVec n) (lo : BitVec 8) :
    (hi ++ lo).extractLsb' (8 * 0) 8 = lo :=
  BitVec.extractLsb'_append_eq_right

/-- The bytes of a word in memory. -/
theorem wordByte_word (memory : Memory) (address : BitVec 64) {i : ℕ} (inside : i < 8) :
    wordByte (memory.word address) i = memory.byte (byteAt address i) := by
  rw [wordByte, Memory.word]
  interval_cases i
  · rw [byteAt_zero]
    exact byte_append_zero _ _
  · exact (byte_append _ _ 0).trans (byte_append_zero _ _)
  · exact (byte_append _ _ 1).trans ((byte_append _ _ 0).trans (byte_append_zero _ _))
  · refine (byte_append _ _ 2).trans ((byte_append _ _ 1).trans ?_)
    exact (byte_append _ _ 0).trans (byte_append_zero _ _)
  · refine (byte_append _ _ 3).trans ((byte_append _ _ 2).trans ((byte_append _ _ 1).trans ?_))
    exact (byte_append _ _ 0).trans (byte_append_zero _ _)
  · refine (byte_append _ _ 4).trans
      ((byte_append _ _ 3).trans ((byte_append _ _ 2).trans ((byte_append _ _ 1).trans ?_)))
    exact (byte_append _ _ 0).trans (byte_append_zero _ _)
  · refine (byte_append _ _ 5).trans
      ((byte_append _ _ 4).trans ((byte_append _ _ 3).trans ((byte_append _ _ 2).trans ?_)))
    exact (byte_append _ _ 1).trans ((byte_append _ _ 0).trans (byte_append_zero _ _))
  · refine (byte_append _ _ 6).trans
      ((byte_append _ _ 5).trans ((byte_append _ _ 4).trans ((byte_append _ _ 3).trans ?_)))
    exact (byte_append _ _ 2).trans
      ((byte_append _ _ 1).trans ((byte_append _ _ 0).trans BitVec.extractLsb'_eq_self))

/-- A word is the same when its bytes are. -/
theorem word_congr {memory memory' : Memory} {address : BitVec 64}
    (bytes : ∀ i < 8, memory'.byte (byteAt address i) = memory.byte (byteAt address i)) :
    memory'.word address = memory.word address := by
  have b0 : memory'.byte address = memory.byte address := by simpa [byteAt] using bytes 0 (by decide)
  have b1 : memory'.byte (address + 1) = memory.byte (address + 1) := bytes 1 (by decide)
  have b2 : memory'.byte (address + 2) = memory.byte (address + 2) := bytes 2 (by decide)
  have b3 : memory'.byte (address + 3) = memory.byte (address + 3) := bytes 3 (by decide)
  have b4 : memory'.byte (address + 4) = memory.byte (address + 4) := bytes 4 (by decide)
  have b5 : memory'.byte (address + 5) = memory.byte (address + 5) := bytes 5 (by decide)
  have b6 : memory'.byte (address + 6) = memory.byte (address + 6) := bytes 6 (by decide)
  have b7 : memory'.byte (address + 7) = memory.byte (address + 7) := bytes 7 (by decide)
  rw [Memory.word, Memory.word, b0, b1, b2, b3, b4, b5, b6, b7]

section Write
variable {memory after : WiredMemory} {src dst addr : VmOffset} {value : BitVec 64}

/-- All eight bytes of a word are there, on bytes of their own. -/
structure Whole (memory : WiredMemory) (addr : VmOffset) : Prop where
  mapped : ∀ i < 8, memory.virtual.Mapped (byteAt addr i)
  distinct : ∀ i < 8, ∀ j < 8, memory.physAddr (byteAt addr i) = memory.physAddr (byteAt addr j) → i = j

/-- Two words have no byte in common. -/
def Apart (memory : WiredMemory) (addr other : VmOffset) : Prop :=
  ∀ i < 8, ∀ j < 8, memory.physAddr (byteAt addr i) ≠ memory.physAddr (byteAt other j)

/-- A physical address is one of a word. -/
def Within (memory : WiredMemory) (addr phys : VmOffset) : Prop :=
  ∃ i < 8, phys = memory.physAddr (byteAt addr i)

theorem Whole.congr (sameFrames : after.frame = memory.frame) (whole : Whole memory addr) :
    Whole after addr := by
  refine ⟨fun i inside => (mapped_congr sameFrames _).mpr (whole.mapped i inside), ?_⟩
  rw [physAddr_congr sameFrames]
  exact whole.distinct

/-- A word that can be read. -/
theorem Whole.read (whole : Whole memory addr) :
    memory.virtual.read addr = some (memory.virtual.word addr) := by
  have first := whole.mapped 0 (by decide)
  rw [byteAt_zero] at first
  exact if_pos ⟨first, whole.mapped 7 (by decide)⟩

/-- An assignment to a variable. -/
def storeWord (memory : WiredMemory) (addr : VmOffset) (value : BitVec 64) : WiredMemory :=
  { memory with phys := fun phys =>
      match (List.range 8).find? fun i => memory.physAddr (byteAt addr i) = phys with
      | some i => wordByte value i
      | none => memory.phys phys }

theorem storeWord_at (whole : Whole memory addr) {i : ℕ} (inside : i < 8) :
    (storeWord memory addr value).phys (memory.physAddr (byteAt addr i)) = wordByte value i := by
  simp only [storeWord]
  cases found : (List.range 8).find? fun j => memory.physAddr (byteAt addr j) =
    memory.physAddr (byteAt addr i) with
  | none =>
    have missed := List.find?_eq_none.mp found i (List.mem_range.mpr inside)
    simp at missed
  | some j =>
    have same : memory.physAddr (byteAt addr j) = memory.physAddr (byteAt addr i) := by
      simpa using List.find?_some found
    have within := List.mem_range.mp (List.mem_of_find?_eq_some found)
    rw [whole.distinct j within i inside same]

theorem storeWord_other {phys : VmOffset} (outside : ¬ Within memory addr phys) :
    (storeWord memory addr value).phys phys = memory.phys phys := by
  simp only [storeWord]
  cases found : (List.range 8).find? fun j => memory.physAddr (byteAt addr j) = phys with
  | none => rfl
  | some j =>
    have same : memory.physAddr (byteAt addr j) = phys := by simpa using List.find?_some found
    exact absurd ⟨j, List.mem_range.mp (List.mem_of_find?_eq_some found), same.symm⟩ outside

/-- Where all pages are there, all bytes are copied. -/
theorem copied_whole {len : VmOffset} (apart : NoOverlap memory src dst len.toNat)
    (mapped : ∀ i < len.toNat, BothMapped memory src dst i) :
    ∃ after chunks, fltWriteWiredSrcToWiredDst memory src dst len =
      .ok (len.setWidth 32, after, chunks) ∧ Copied memory src dst len.toNat after := by
  obtain ⟨after, left, chunks, n, ran, counted, copied, -⟩ :=
    copyChunks_spec (len.toNat + 1) memory src dst len (Nat.lt_succ_self _) apart
  have all : n = len.toNat := by
    by_contra fewer
    have more : n < len.toNat := Nat.lt_of_le_of_ne copied.within fewer
    exact copied.stopped more (mapped n more)
  have nothing : left = 0#64 := BitVec.eq_of_toNat_eq (by rw [BitVec.toNat_zero]; omega)
  subst all nothing
  refine ⟨after, chunks, ?_, copied.copied⟩
  simp only [fltWriteWiredSrcToWiredDst, ran, bind, Except.bind, pure, Except.pure, BitVec.sub_zero]

/-- A value goes to a slot through a variable on the stack. -/
def writeWord (memory : WiredMemory) (variable' slot : VmOffset) (value : BitVec 64) :
    ScanM (BitVec 32 × WiredMemory) := do
  let (bytes, memory, _) ←
    fltWriteWiredSrcToWiredDst (storeWord memory variable' value) variable' slot 8
  pure (bytes, memory)

/-- What a write does to the memory. -/
structure Written (memory : WiredMemory) (variable' slot : VmOffset) (value : BitVec 64)
    (after : WiredMemory) : Prop where
  frame : after.frame = memory.frame
  value : after.virtual.word slot = value
  others : ∀ phys, ¬ Within memory slot phys → ¬ Within memory variable' phys →
    after.phys phys = memory.phys phys

/-- **A slot is written whole.** -/
theorem writeWord_writes (variableWhole : Whole memory src) (slotWhole : Whole memory dst)
    (apart : Apart memory src dst) (value : BitVec 64) : ∃ after, writeWord memory src dst value =
    .ok (8, after) ∧ Written memory src dst value after := by
  have sameFrames : (storeWord memory src value).frame = memory.frame := rfl
  have noOverlap : NoOverlap (storeWord memory src value) src dst (8 : VmOffset).toNat := by
    refine ⟨fun i inside j within _ _ same => ?_, fun i inside j within _ _ different same => ?_⟩
    · exact apart j within i inside same.symm
    · exact different (slotWhole.distinct i inside j within same)
  have mapped : ∀ i < (8 : VmOffset).toNat, BothMapped (storeWord memory src value) src dst i :=
    fun i inside => ⟨variableWhole.mapped i inside, slotWhole.mapped i inside⟩
  obtain ⟨after, chunks, ran, copied⟩ := copied_whole noOverlap mapped
  refine ⟨after, ?_, copied.frame, word_of_bytes fun i inside => ?_, fun phys notSlot notVariable => ?_⟩
  · rw [writeWord, ran]
    rfl
  · change after.phys (after.physAddr (byteAt dst i)) = wordByte value i
    rw [physAddr_congr copied.frame, copied.copied i inside]
    exact storeWord_at variableWhole inside
  · rw [copied.untouched phys fun i inside same => notSlot ⟨i, inside, same⟩]
    exact storeWord_other notVariable

end Write
end FsdFilter.SlotBytes
