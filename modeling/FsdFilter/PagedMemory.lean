import Mathlib.Algebra.Group.Nat.Defs
import Mathlib.Data.List.Basic

/-! A byte-addressed memory behind a page map, read in words of eight bytes.
A reader that walks word by word and probes only the last byte of each word
never touches an absent page, and the words it gets are the longest readable
run from where it started. -/
namespace FsdFilter.PagedMemory

/-- `trunc_page`, for pages of 4096 bytes: where the page of an address begins. -/
def truncPage (address : BitVec 64) : BitVec 64 := address &&& ~~~0xfff#64

/-- The bytes, and the number of the physical page behind each page of the
address space, 0 for a page that is absent. -/
structure Memory where
  byte : BitVec 64 → BitVec 8
  frame : BitVec 64 → BitVec 32

namespace Memory

/-- The page of an address is present. -/
def Mapped (memory : Memory) (address : BitVec 64) : Prop := memory.frame (truncPage address) ≠ 0

instance (memory : Memory) (address : BitVec 64) : Decidable (memory.Mapped address) :=
  inferInstanceAs (Decidable (_ ≠ _))

/-- The word whose first byte is at an address, least significant byte first. -/
def word (memory : Memory) (address : BitVec 64) : BitVec 64 :=
  memory.byte (address + 7) ++ memory.byte (address + 6) ++ memory.byte (address + 5) ++
    memory.byte (address + 4) ++ memory.byte (address + 3) ++ memory.byte (address + 2) ++
    memory.byte (address + 1) ++ memory.byte address

/-- Reading a word: a page fault if a byte of it is on an absent page. A word
lies on the page of its first byte and that of its last. -/
def read (memory : Memory) (address : BitVec 64) : Option (BitVec 64) :=
  if memory.Mapped address ∧ memory.Mapped (address + 7#64) then some (memory.word address) else none

/-- The words that can be read one after another, at most so many. -/
def readWords (memory : Memory) : BitVec 64 → ℕ → List (BitVec 64)
  | _, 0 => []
  | address, count + 1 =>
    match memory.read address with
    | none => []
    | some word => word :: readWords memory (address + 8#64) count

/-- A memory given by its aligned words; the pages with none of them are absent. -/
def ofWords (words : List (BitVec 64 × BitVec 64)) : Memory where
  byte address :=
    (((words.lookup (address &&& ~~~7#64)).getD 0) >>> (8 * (address &&& 7#64).toNat)).setWidth 8
  frame page := if words.any fun word => truncPage word.1 = page then 1 else 0

end Memory

/-- The address of a slot of a table of words. -/
def slot (table : BitVec 64) (i : ℕ) : BitVec 64 := table + BitVec.ofNat 64 (8 * i)

@[simp] theorem slot_zero (table : BitVec 64) : slot table 0 = table := by simp [slot]

theorem slot_succ (table : BitVec 64) (i : ℕ) : slot table (i + 1) = slot table i + 8#64 := by
  simp [slot, Nat.mul_add, BitVec.ofNat_add, BitVec.add_assoc]

theorem slot_next (table : BitVec 64) (i : ℕ) : slot (table + 8#64) i = slot table (i + 1) := by
  simp only [slot, Nat.mul_add, BitVec.ofNat_add, BitVec.add_assoc]
  rw [BitVec.add_comm 8#64]

private theorem truncPage_eq_shift (address : BitVec 64) :
    truncPage address = (address >>> 12) <<< 12 := by
  apply BitVec.eq_of_getLsbD_eq
  intro i inWord
  have mask : (0xfff#64).getLsbD i = decide (i < 12) := by
    simp only [BitVec.getLsbD_ofNat, inWord, decide_true, Bool.true_and]
    exact Nat.testBit_two_pow_sub_one 12 i
  simp only [truncPage, BitVec.getLsbD_and, BitVec.getLsbD_not, mask, BitVec.getLsbD_shiftLeft,
    BitVec.getLsbD_ushiftRight]
  by_cases low : i < 12
  · simp [inWord, low]
  · simp [inWord, low, show 12 + (i - 12) = i by omega]

theorem truncPage_toNat (address : BitVec 64) :
    (truncPage address).toNat = address.toNat / 4096 * 4096 := by
  have bound := address.isLt
  rw [truncPage_eq_shift, BitVec.toNat_shiftLeft, BitVec.toNat_ushiftRight]
  simp only [Nat.shiftRight_eq_div_pow, Nat.shiftLeft_eq]
  omega

/-- A word begins on the page of the byte before it, or lies on one page. -/
theorem truncPage_next (address : BitVec 64) :
    truncPage (address + 8#64) = truncPage (address + 7#64) ∨
      truncPage (address + 8#64) = truncPage (address + 8#64 + 7#64) := by
  have bound := address.isLt
  simp only [← BitVec.toNat_inj, truncPage_toNat, BitVec.toNat_add, BitVec.toNat_ofNat]
  omega

/-- A byte of a window no longer than a page lies on the page of the first or on
that of the last one. -/
theorem truncPage_window (address : BitVec 64) {i len : ℕ} (short : len < 4096) (within : i ≤ len) :
    truncPage (address + BitVec.ofNat 64 i) = truncPage address ∨
      truncPage (address + BitVec.ofNat 64 i) = truncPage (address + BitVec.ofNat 64 len) := by
  have bound := address.isLt
  simp only [← BitVec.toNat_inj, truncPage_toNat, BitVec.toNat_add, BitVec.toNat_ofNat]
  omega

namespace Memory
variable {memory : Memory} {address value : BitVec 64}

theorem mapped_congr {other : BitVec 64} (samePage : truncPage address = truncPage other) :
    memory.Mapped address ↔ memory.Mapped other := by
  unfold Mapped
  rw [samePage]

/-- The first byte of a word is on a page that is present, or on the page of
the last byte: probing the last byte is then enough to read the word. -/
def Continues (memory : Memory) (address : BitVec 64) : Prop :=
  memory.Mapped address ∨ truncPage address = truncPage (address + 7#64)

theorem Continues.first_mapped (continues : memory.Continues address)
    (lastMapped : memory.Mapped (address + 7#64)) : memory.Mapped address := by
  cases continues with
  | inl mapped => exact mapped
  | inr samePage => exact (mapped_congr samePage).mpr lastMapped

/-- After a word whose last byte is present comes a word that continues. -/
theorem continues_next (lastMapped : memory.Mapped (address + 7#64)) :
    memory.Continues (address + 8#64) := by
  cases truncPage_next address with
  | inl samePage => exact .inl ((mapped_congr samePage).mpr lastMapped)
  | inr samePage => exact .inr samePage

theorem read_of_continues (continues : memory.Continues address)
    (lastMapped : memory.Mapped (address + 7#64)) : memory.read address = some (memory.word address) :=
  if_pos ⟨continues.first_mapped lastMapped, lastMapped⟩

theorem read_eq_none (lastAbsent : ¬memory.Mapped (address + 7#64)) : memory.read address = none :=
  if_neg fun mapped => lastAbsent mapped.2

theorem mapped_of_read (readable : memory.read address = some value) :
    memory.Mapped address ∧ memory.Mapped (address + 7#64) := by
  by_contra absent
  simp [read, absent] at readable

theorem word_of_read (readable : memory.read address = some value) : value = memory.word address := by
  rw [read, if_pos (mapped_of_read readable)] at readable
  exact (Option.some.inj readable).symm

@[simp] theorem readWords_zero : memory.readWords address 0 = [] := rfl

theorem readWords_cons (readable : memory.read address = some value) (count : ℕ) :
    memory.readWords address (count + 1) = value :: memory.readWords (address + 8#64) count := by
  simp [readWords, readable]

theorem readWords_absent (absent : memory.read address = none) (count : ℕ) :
    memory.readWords address count = [] := by
  cases count <;> simp [readWords, absent]

theorem readWords_length_le (memory : Memory) (address : BitVec 64) (count : ℕ) :
    (memory.readWords address count).length ≤ count := by
  induction count generalizing address with
  | zero => exact Nat.le_refl 0
  | succ count ih =>
    cases readable : memory.read address with
    | none => simp [readWords_absent readable]
    | some word =>
      rw [readWords_cons readable, List.length_cons]
      exact Nat.succ_le_succ (ih _)

/-- The words of a readable run are what is read at its slots. -/
theorem read_of_readWords {count i : ℕ} (run : (memory.readWords address count)[i]? = some value) :
    memory.read (slot address i) = some value := by
  induction count generalizing address i with
  | zero => simp at run
  | succ count ih =>
    cases readable : memory.read address with
    | none => simp [readWords_absent readable] at run
    | some first =>
      rw [readWords_cons readable] at run
      cases i with
      | zero =>
        simp only [List.getElem?_cons_zero, Option.some.injEq] at run
        rw [slot_zero, readable, run]
      | succ i =>
        rw [List.getElem?_cons_succ] at run
        rw [← slot_next]
        exact ih run

/-- Every slot of a readable run can be read. -/
theorem read_of_lt_readWords {count i : ℕ} (within : i < (memory.readWords address count).length) :
    memory.read (slot address i) = some (memory.word (slot address i)) := by
  have readable := read_of_readWords (List.getElem?_eq_getElem within)
  rw [readable, word_of_read readable]

/-- The words of a run that can be read are those of its slots. -/
theorem readWords_getElem? {count i : ℕ}
    (readable : ∀ j ≤ i, memory.read (slot address j) = some (memory.word (slot address j)))
    (within : i < count) :
    (memory.readWords address count)[i]? = some (memory.word (slot address i)) := by
  induction count generalizing address i with
  | zero => cases within
  | succ count ih =>
    have first := readable 0 (Nat.zero_le i)
    rw [slot_zero] at first
    rw [readWords_cons first]
    cases i with
    | zero => rw [List.getElem?_cons_zero, slot_zero]
    | succ i =>
      rw [List.getElem?_cons_succ, ← slot_next]
      refine ih (fun j before => ?_) (Nat.lt_of_succ_lt_succ within)
      rw [slot_next]
      exact readable (j + 1) (Nat.succ_le_succ before)

end Memory
end FsdFilter.PagedMemory
