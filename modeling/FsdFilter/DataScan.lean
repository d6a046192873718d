import Mathlib.Order.Bounds.Basic
import FsdFilter.LayoutScans

/-! The first loop of `FltGetVnodeLayout` and the assertion behind it. The loop ends
where one of the vnodes holds its data, so that it finds the data of both when they are
first met at the same word. -/
namespace FsdFilter.DataScan
open VnodeOps PagedMemory VnodeLayout LayoutScans

variable {memory : Memory} {vNode1 vNode2 : VmOffset} {n : ℕ}

/-- Both vnodes hold their data at a word below `PAGE_SIZE`, on pages that are present. -/
def BothHold (memory : Memory) (vNode1 vNode2 : VmOffset) (n : ℕ) : Prop :=
  n < 512 ∧ memory.read (slot vNode1 n) = some vData1 ∧ memory.read (slot vNode2 n) = some vData2

/-- `FltGetVnodeLayout` gives up behind the loop. -/
def GivesUp (scan : HeaderScan) : Prop := scan.vNodeHeaderSize = 0 ∨ scan.vNodeHeaderSize = -1

/-- The loop was left at the least offset at which both vnodes hold their data, with
every word up to there on pages that are present. -/
structure AtData (memory : Memory) (vNode1 vNode2 : VmOffset) (scan : HeaderScan) (n : ℕ) : Prop where
  size : scan.vNodeHeaderSize = BitVec.ofNat 64 (8 * n)
  inPage : scan.vNodeHeaderSize < pageSize
  least : IsLeast {i | BothHold memory vNode1 vNode2 i} n
  mapped : ∀ i ≤ n, memory.read (slot vNode1 i) ≠ none ∧ memory.read (slot vNode2 i) ≠ none
  asserted : load memory scan.ptrNode1 = .ok vData1 ∧ load memory scan.ptrNode2 = .ok vData2

/-- The loop ends; it gives up where no offset has the data of both, and what it
finds otherwise is the least such offset. -/
def FindsData (memory : Memory) (vNode1 vNode2 : VmOffset) : Prop :=
  ∃ scan,
    scanHeader memory (truncPage vNode1) (truncPage vNode2) scanFuel ⟨vNode1, vNode2, 0⟩ = .ok scan ∧
      (¬GivesUp scan → ∃ n, AtData memory vNode1 vNode2 scan n) ∧
      ((∀ n, ¬BothHold memory vNode1 vNode2 n) → GivesUp scan)

/-- Behind the first word, the data of the vnodes are first met at the same one. -/
def MetTogether (memory : Memory) (vNode1 vNode2 : VmOffset) : Prop :=
  ∀ n, 0 < n → n < 512 →
    (∀ i ≤ n, memory.read (slot vNode1 i) ≠ none ∧ memory.read (slot vNode2 i) ≠ none) →
    (∀ i < n, memory.read (slot vNode1 i) ≠ some vData1 ∧ memory.read (slot vNode2 i) ≠ some vData2) →
      (memory.read (slot vNode1 n) = some vData1 ↔ memory.read (slot vNode2 n) = some vData2)

theorem word_of_readable {address : VmOffset} (readable : memory.read address ≠ none) :
    memory.read address = some (memory.word address) := by
  obtain ⟨word, read⟩ := Option.ne_none_iff_exists'.mp readable
  rw [read, Memory.word_of_read read]

theorem holdsData_eq_false {word1 word2 : VmOffset} :
    holdsData (word1, word2) = false ↔ word1 ≠ vData1 ∧ word2 ≠ vData2 := by
  simp [holdsData]

/-- The scan stands at a word behind the first one. -/
theorem not_givesUp (inPage : n < 512) (behind : 0 < n) (ptrNode1 ptrNode2 : VmOffset) :
    ¬GivesUp ⟨ptrNode1, ptrNode2, BitVec.ofNat 64 (8 * n)⟩ := by
  have offset : (BitVec.ofNat 64 (8 * n)).toNat = 8 * n := by
    rw [BitVec.toNat_ofNat]
    omega
  have failure : (-1 : VmOffset).toNat = 2 ^ 64 - 1 := rfl
  rintro (zero | failed)
  · have same : 8 * n = 0 := offset.symm.trans (congrArg BitVec.toNat zero)
    omega
  · have same := offset.symm.trans (congrArg BitVec.toNat failed)
    omega

/-- When neither vnode holds its data on present pages, there is nothing to be met. -/
theorem metTogether_of_none (none' : headerWords memory vNode1 vNode2 = none) :
    MetTogether memory vNode1 vNode2 := by
  intro n _ inPage readable before
  have words : ∀ i ≤ n, memory.read (slot vNode1 i) = some (memory.word (slot vNode1 i)) ∧
      memory.read (slot vNode2 i) = some (memory.word (slot vNode2 i)) :=
    fun i within => ⟨word_of_readable (readable i within).1, word_of_readable (readable i within).2⟩
  have passed : ∀ i < n,
      holdsData (memory.word (slot vNode1 i), memory.word (slot vNode2 i)) = false := by
    intro i early
    obtain ⟨other1, other2⟩ := before i early
    rw [(words i (Nat.le_of_lt early)).1] at other1
    rw [(words i (Nat.le_of_lt early)).2] at other2
    exact holdsData_eq_false.mpr ⟨fun same => other1 (congrArg some same),
      fun same => other2 (congrArg some same)⟩
  have neither : holdsData (memory.word (slot vNode1 n), memory.word (slot vNode2 n)) = false := by
    by_contra here
    cases none'.symm.trans (headerWords_of_readable inPage words (eq_true_of_ne_false here) passed)
  obtain ⟨other1, other2⟩ := holdsData_eq_false.mp neither
  rw [(words n (Nat.le_refl n)).1, (words n (Nat.le_refl n)).2]
  exact iff_of_false (fun same => other1 (Option.some.inj same)) fun same =>
    other2 (Option.some.inj same)

/-- The words up to where the loop stops. -/
theorem readable_before (ended : headerWords memory vNode1 vNode2 = some n) :
    (∀ i ≤ n, memory.read (slot vNode1 i) ≠ none ∧ memory.read (slot vNode2 i) ≠ none) ∧
      ∀ i < n, memory.read (slot vNode1 i) ≠ some vData1 ∧
        memory.read (slot vNode2 i) ≠ some vData2 := by
  obtain ⟨-, readable⟩ := headerWords_readable ended
  obtain ⟨-, before⟩ := headerWords_first ended
  refine ⟨fun i within => ?_, fun i early => ?_⟩
  · rw [(readable i within).1, (readable i within).2]
    exact ⟨Option.some_ne_none _, Option.some_ne_none _⟩
  · obtain ⟨other1, other2⟩ := holdsData_eq_false.mp (before i early)
    rw [(readable i (Nat.le_of_lt early)).1, (readable i (Nat.le_of_lt early)).2]
    exact ⟨fun same => other1 (Option.some.inj same), fun same => other2 (Option.some.inj same)⟩

/-- One of the vnodes holds its data where the loop stops. -/
theorem either_holds (ended : headerWords memory vNode1 vNode2 = some n) :
    memory.read (slot vNode1 n) = some vData1 ∨ memory.read (slot vNode2 n) = some vData2 := by
  obtain ⟨-, readable⟩ := headerWords_readable ended
  obtain ⟨here, -⟩ := headerWords_first ended
  rw [(readable n (Nat.le_refl n)).1, (readable n (Nat.le_refl n)).2, Option.some.injEq,
    Option.some.injEq]
  exact of_decide_eq_true here

/-- Where the loop stops, it is at the data of both vnodes if they are met together. -/
theorem atData_of_both (ended : headerWords memory vNode1 vNode2 = some n)
    (both : BothHold memory vNode1 vNode2 n) :
    AtData memory vNode1 vNode2 ⟨slot vNode1 n, slot vNode2 n, BitVec.ofNat 64 (8 * n)⟩ n := by
  obtain ⟨mapped, before⟩ := readable_before ended
  refine ⟨rfl, ?_, ⟨both, fun i holds => ?_⟩, mapped, load_of_read both.2.1, load_of_read both.2.2⟩
  · have inPage := both.1
    simp only [pageSize, BitVec.lt_def, BitVec.toNat_ofNat]
    omega
  · by_contra early
    exact (before i (Nat.lt_of_not_le early)).1 holds.2.1

/-- A scan that finds the data of both vnodes meets them together. -/
theorem metTogether_of_finds (first1 : memory.read vNode1 ≠ none) (first2 : memory.read vNode2 ≠ none)
    (finds : FindsData memory vNode1 vNode2) : MetTogether memory vNode1 vNode2 := by
  obtain ⟨scan, ran, stopped⟩ := scanHeader_eq (word_of_readable first1) (word_of_readable first2)
  obtain ⟨scan', ran', found, -⟩ := finds
  cases ran.symm.trans ran'
  cases ended : headerWords memory vNode1 vNode2 with
  | none => exact metTogether_of_none ended
  | some n =>
    rw [ended] at stopped
    obtain ⟨-, before⟩ := readable_before ended
    have inPage := (headerWords_readable ended).1
    intro m behind _ _ passed
    -- the loop stops at the first word with data, which is behind the first word
    have first : m ≤ n := by
      by_contra later
      obtain ⟨other1, other2⟩ := passed n (Nat.lt_of_not_le later)
      exact (either_holds ended).elim other1 other2
    have goesOn : ¬GivesUp scan := by
      rw [stopped]
      exact not_givesUp inPage (Nat.lt_of_lt_of_le behind first) _ _
    obtain ⟨i, atData⟩ := found goesOn
    have here : i = n := by
      have size := atData.size
      rw [stopped] at size
      have same := congrArg BitVec.toNat size
      have within := atData.least.1.1
      simp only [BitVec.toNat_ofNat] at same
      omega
    rcases Nat.eq_or_lt_of_le first with rfl | early
    · rw [here] at atData
      exact iff_of_true atData.least.1.2.1 atData.least.1.2.2
    · exact iff_of_false (before m early).1 (before m early).2

/-- A scan that meets the data of both vnodes together finds them. -/
theorem finds_of_metTogether (first1 : memory.read vNode1 ≠ none) (first2 : memory.read vNode2 ≠ none)
    (together : MetTogether memory vNode1 vNode2) : FindsData memory vNode1 vNode2 := by
  obtain ⟨scan, ran, stopped⟩ := scanHeader_eq (word_of_readable first1) (word_of_readable first2)
  refine ⟨scan, ran, ?_⟩
  cases ended : headerWords memory vNode1 vNode2 with
  | none =>
    rw [ended] at stopped
    have givesUp : GivesUp scan := .inr stopped
    exact ⟨fun goesOn => absurd givesUp goesOn, fun _ => givesUp⟩
  | some n =>
    rw [ended] at stopped
    obtain ⟨mapped, before⟩ := readable_before ended
    have inPage := (headerWords_readable ended).1
    rcases Nat.eq_zero_or_pos n with rfl | behind
    · have givesUp : GivesUp scan := .inl (by rw [stopped]; rfl)
      exact ⟨fun goesOn => absurd givesUp goesOn, fun _ => givesUp⟩
    · have same := together n behind inPage mapped before
      have both : BothHold memory vNode1 vNode2 n := by
        rcases either_holds ended with here | here
        · exact ⟨inPage, here, same.mp here⟩
        · exact ⟨inPage, same.mpr here, here⟩
      refine ⟨fun _ => ⟨n, ?_⟩, fun nowhere => absurd both (nowhere n)⟩
      rw [stopped]
      exact atData_of_both ended both

/-- The scan finds the data of both vnodes exactly when they are met together. -/
theorem finds_data_iff (memory : Memory) (vNode1 vNode2 : VmOffset) (first1 : memory.read vNode1 ≠ none)
    (first2 : memory.read vNode2 ≠ none) :
    FindsData memory vNode1 vNode2 ↔ MetTogether memory vNode1 vNode2 :=
  ⟨metTogether_of_finds first1 first2, finds_of_metTogether first1 first2⟩

/-- Probe vnodes with their data in the second word. -/
def dataTogether : Memory :=
  .ofWords [(0xffffff8010000000, 7), (0xffffff8010000008, vData1), (0xffffff8010001000, 9),
    (0xffffff8010001008, vData2)]

theorem finds_data_iff_together :
    FindsData dataTogether 0xffffff8010000000 0xffffff8010001000 ↔
      MetTogether dataTogether 0xffffff8010000000 0xffffff8010001000 :=
  finds_data_iff _ _ _ (by decide +kernel) (by decide +kernel)

/-- Probe vnodes with their data in the third word, and the value `vData1` in the second
word of the first one. -/
def dataEarlier : Memory :=
  .ofWords [(0xffffff8010000000, 7), (0xffffff8010000008, vData1), (0xffffff8010000010, vData1),
    (0xffffff8010001000, 9), (0xffffff8010001008, 0), (0xffffff8010001010, vData2)]

/-- A value that matches in one vnode only ends the search. -/
theorem stops_at_one_vnode : ¬FindsData dataEarlier 0xffffff8010000000 0xffffff8010001000 := by
  intro finds
  have together := metTogether_of_finds (by decide +kernel) (by decide +kernel) finds
  have readable : ∀ i ≤ 1, dataEarlier.read (slot 0xffffff8010000000 i) ≠ none ∧
      dataEarlier.read (slot 0xffffff8010001000 i) ≠ none := by decide +kernel
  have before : ∀ i < 1, dataEarlier.read (slot 0xffffff8010000000 i) ≠ some vData1 ∧
      dataEarlier.read (slot 0xffffff8010001000 i) ≠ some vData2 := by decide +kernel
  have first : dataEarlier.read (slot 0xffffff8010000000 1) = some vData1 := by decide +kernel
  have second : dataEarlier.read (slot 0xffffff8010001000 1) ≠ some vData2 := by decide +kernel
  exact second ((together 1 Nat.one_pos (by decide) readable before).mp first)

end FsdFilter.DataScan
