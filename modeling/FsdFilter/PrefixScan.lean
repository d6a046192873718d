import FsdFilter.DistormPrefixes

/-! `prefixes_decode` reads the longest run of prefixes, at most 15 of them, and a VEX
prefix behind it. The last prefix of each type counts; those of its type before it are
marked as unused. -/
namespace FsdFilter.PrefixScan
open Distorm

variable {dt : DecodeType} {ps : PrefixState} {bytes : List (BitVec 8)}

/-! ### Which prefix of a type is the last -/

/-- The last prefix of its type is at `i`. -/
def LastOf (types : List PrefixIndexer) (pi : PrefixIndexer) (i : ℕ) : Prop :=
  types[i]? = some pi ∧ ∀ j, i < j → types[j]? ≠ some pi

/-- Another prefix of the same type comes later. -/
def Superseded (types : List PrefixIndexer) (i : ℕ) : Prop :=
  ∃ pi, types[i]? = some pi ∧ ∃ j, i < j ∧ types[j]? = some pi

theorem lastOf_lt {types : List PrefixIndexer} {pi : PrefixIndexer} {i : ℕ} (last : LastOf types pi i) :
    i < types.length := by
  obtain ⟨here, -⟩ := last
  by_contra beyond
  rw [List.getElem?_eq_none (Nat.le_of_not_lt beyond)] at here
  cases here

theorem lastOf_append_same (types : List PrefixIndexer) (pi : PrefixIndexer) (i : ℕ) :
    LastOf (types ++ [pi]) pi i ↔ i = types.length := by
  constructor
  · intro last
    by_contra other
    have before : i < types.length := by
      have := lastOf_lt last
      rw [List.length_append, List.length_singleton] at this
      omega
    exact last.2 types.length before (by simp)
  · rintro rfl
    refine ⟨by simp, fun j later => ?_⟩
    rw [List.getElem?_eq_none (by simp; omega)]
    exact (Option.some_ne_none pi).symm

theorem lastOf_append_other (types : List PrefixIndexer) {pi other : PrefixIndexer}
    (different : other ≠ pi) (i : ℕ) :
    LastOf (types ++ [pi]) other i ↔ LastOf types other i := by
  have same (j : ℕ) : (types ++ [pi])[j]? = some other ↔ types[j]? = some other := by
    rcases Nat.lt_trichotomy j types.length with before | rfl | beyond
    · rw [List.getElem?_append_left before]
    · simp [different.symm]
    · rw [List.getElem?_eq_none (by simp; omega), List.getElem?_eq_none (by omega)]
  simp only [LastOf, ne_eq, same]

theorem superseded_append (types : List PrefixIndexer) (pi : PrefixIndexer) (i : ℕ) :
    Superseded (types ++ [pi]) i ↔ Superseded types i ∨ LastOf types pi i := by
  constructor
  · rintro ⟨other, here, j, later, there⟩
    have within : j < types.length + 1 := by
      by_contra beyond
      rw [List.getElem?_eq_none (by simp; omega)] at there
      cases there
    rw [List.getElem?_append_left (by omega)] at here
    by_cases final : j = types.length
    · subst final
      have same : pi = other := by simpa using there
      subst same
      by_cases again : ∃ k, i < k ∧ types[k]? = some pi
      · exact .inl ⟨pi, here, again⟩
      · exact .inr ⟨here, fun k after holds => again ⟨k, after, holds⟩⟩
    · rw [List.getElem?_append_left (by omega)] at there
      exact .inl ⟨other, here, j, later, there⟩
  · rintro (⟨other, here, j, later, there⟩ | last)
    · have within : j < types.length := by
        by_contra beyond
        rw [List.getElem?_eq_none (Nat.le_of_not_lt beyond)] at there
        cases there
      exact ⟨other, by
        rwa [List.getElem?_append_left (by omega)], j, later, by rwa [List.getElem?_append_left within]⟩
    · have before := lastOf_lt last
      exact ⟨pi, by rw [List.getElem?_append_left before]; exact last.1, types.length, before, by simp⟩

/-! ### The run of prefixes -/

/-- The type of a byte that is a prefix, other than VEX. -/
def prefixType (dt : DecodeType) (ch : BitVec 8) : Option PrefixIndexer :=
  if isRex ch then if dt = .decode64Bits then some .rex else none
  else (prefixBytes.lookup ch).map (·.2)

/-- The flag of a prefix. -/
def prefixFlag (ch : BitVec 8) : IFlags :=
  if isRex ch then instPreRex else ((prefixBytes.lookup ch).map (·.1)).getD 0

/-- What the state tells after a run of prefixes. -/
structure Scanned (dt : DecodeType) (code : ℕ) (run : List (BitVec 8)) (ps : PrefixState) : Prop where
  start : ps.start = code
  usedPrefixes : ps.usedPrefixes = 0
  decodedPrefixes : ∀ b, ps.decodedPrefixes.getLsbD b = true ↔
    ∃ ch ∈ run, (prefixFlag ch).getLsbD b = true
  pfxIndexer : ∀ pi i, ps.pfxIndexer pi = some i ↔ LastOf (run.filterMap (prefixType dt)) pi i
  unusedPrefixesMask : ∀ i, ps.unusedPrefixesMask.getLsbD i = true ↔
    Superseded (run.filterMap (prefixType dt)) i
  rex : ∀ position, ps.rexPos = some position ↔ ∃ i, position = code + i ∧
    LastOf (run.filterMap (prefixType dt)) .rex i
  prefixExtType : ps.prefixExtType = if run.any isRex then .rex else .none
  vrex : ps.vrex = ((run.filter isRex).getLast?.map fun ch => (ch &&& 0xf#8).setWidth 32).getD 0
  vexPos : ps.vexPos = none
  vexV : ps.vexV = 0

theorem scanned_cleared (dt : DecodeType) (code : ℕ) : Scanned dt code [] (.cleared code) where
  start := rfl
  usedPrefixes := rfl
  decodedPrefixes b := by simp [PrefixState.cleared]
  pfxIndexer pi i := by simp [PrefixState.cleared, LastOf]
  unusedPrefixesMask i := by simp [PrefixState.cleared, Superseded]
  rex position := by simp [PrefixState.cleared, LastOf]
  prefixExtType := rfl
  vrex := rfl
  vexPos := rfl
  vexV := rfl

/-- The bit that `prefixes_ignore` sets. -/
theorem prefixesIgnore_mask (pi : PrefixIndexer) (ps : PrefixState) (i : ℕ) :
    (prefixesIgnore pi ps).unusedPrefixesMask.getLsbD i = true ↔
      ps.unusedPrefixesMask.getLsbD i = true ∨ i < 16 ∧ ps.pfxIndexer pi = some i := by
  rw [prefixesIgnore]
  cases known : ps.pfxIndexer pi with
  | none => simp
  | some index =>
    simp only [BitVec.getLsbD_or, Bool.or_eq_true, BitVec.getLsbD_shiftLeft, BitVec.getLsbD_one,
      Option.some.injEq]
    refine or_congr_right ?_
    constructor
    · intro set
      simp only [Bool.and_eq_true, decide_eq_true_eq, Bool.not_eq_true', decide_eq_false_iff_not] at set
      omega
    · rintro ⟨narrow, rfl⟩
      simp [narrow]

/-- The other fields that `prefixes_ignore` leaves. -/
theorem prefixesIgnore_fields (pi : PrefixIndexer) (ps : PrefixState) :
    prefixesIgnore pi ps =
      { ps with unusedPrefixesMask := (prefixesIgnore pi ps).unusedPrefixesMask } := by
  rw [prefixesIgnore]
  cases ps.pfxIndexer pi <;> rfl

/-- The state when a byte was taken for a prefix of a type. -/
def seen (ch : BitVec 8) (code : ℕ) (ps : PrefixState) : PrefixState :=
  { ps with
    decodedPrefixes := ps.decodedPrefixes ||| prefixFlag ch
    vrex := if isRex ch then (ch &&& 0xf#8).setWidth 32 else ps.vrex
    rexPos := if isRex ch then some code else ps.rexPos
    prefixExtType := if isRex ch then .rex else ps.prefixExtType }

theorem prefixStep_eq (dt : DecodeType) (ch : BitVec 8) (index code : ℕ) (ps : PrefixState) :
    prefixStep dt ch index code ps =
      (prefixType dt ch).map fun pi => prefixesTrackUnused index pi (seen ch code ps) := by
  by_cases rex : isRex ch
  · by_cases mode : dt = .decode64Bits <;> simp [prefixStep, prefixType, prefixFlag, seen, rex, mode]
  · cases listed : prefixBytes.lookup ch with
    | none => simp [prefixStep, prefixType, rex, listed]
    | some entry => simp [prefixStep, prefixType, prefixFlag, seen, rex, listed]

/-- Only REX prefixes are of their type. -/
theorem prefixType_rex {ch : BitVec 8} {pi : PrefixIndexer} (type : prefixType dt ch = some pi) :
    pi = .rex ↔ isRex ch = true := by
  rw [prefixType] at type
  by_cases rex : isRex ch
  · simp only [rex, if_true] at type
    split at type
    · simpa [rex] using (Option.some.inj type).symm
    · cases type
  · simp only [rex, Bool.false_eq_true, if_false, Option.map_eq_some_iff] at type
    obtain ⟨entry, listed, rfl⟩ := type
    have others : ∀ entry ∈ prefixBytes, entry.2.2 ≠ .rex := by decide
    obtain ⟨before, after, split, -⟩ := List.lookup_eq_some_iff.mp listed
    simp [rex, others (ch, entry) (by rw [split]; simp)]

/-- A prefix is read behind a run of them. -/
theorem Scanned.step {code : ℕ} {run : List (BitVec 8)} (scanned : Scanned dt code run ps)
    (whole : ∀ ch ∈ run, (prefixType dt ch).isSome) (short : run.length < instMaximumSize)
    (ch : BitVec 8) {pi : PrefixIndexer} (type : prefixType dt ch = some pi) :
    ∃ ps', prefixStep dt ch run.length (code + run.length) ps = some ps' ∧
      Scanned dt code (run ++ [ch]) ps' := by
  have types : (run ++ [ch]).filterMap (prefixType dt) = run.filterMap (prefixType dt) ++ [pi] := by
    simp [type]
  have count : (run.filterMap (prefixType dt)).length = run.length := by
    rw [List.length_filterMap_eq_countP, List.countP_eq_length.mpr whole]
  refine ⟨_, by rw [prefixStep_eq, type, Option.map_some], ?_⟩
  rw [prefixesTrackUnused, prefixesIgnore_fields]
  constructor
  case start => exact scanned.start
  case usedPrefixes => exact scanned.usedPrefixes
  case vexPos => exact scanned.vexPos
  case vexV => exact scanned.vexV
  case prefixExtType =>
    simp only [seen, scanned.prefixExtType, List.any_append, List.any_cons, List.any_nil, Bool.or_false]
    by_cases rex : isRex ch = true <;> simp [rex]
  case vrex =>
    simp only [seen, scanned.vrex, List.filter_append]
    by_cases rex : isRex ch = true <;> simp [rex]
  case decodedPrefixes =>
    intro b
    simp [seen, scanned.decodedPrefixes, or_and_right, exists_or]
  case pfxIndexer =>
    intro other i
    rw [types]
    by_cases same : other = pi
    · subst same
      simp only [Function.update_self, Option.some.injEq, lastOf_append_same, count, eq_comm]
    · simp only [Function.update_of_ne same, lastOf_append_other _ same]
      exact scanned.pfxIndexer other i
  case unusedPrefixesMask =>
    intro i
    rw [types, superseded_append, prefixesIgnore_mask]
    refine or_congr (scanned.unusedPrefixesMask i) ?_
    rw [show (seen ch (code + run.length) ps).pfxIndexer = ps.pfxIndexer from rfl, scanned.pfxIndexer]
    refine and_iff_right_of_imp fun last => ?_
    have := lastOf_lt last
    rw [count] at this
    exact Nat.lt_trans this (Nat.lt_trans short (by decide))
  case rex =>
    intro position
    rw [types]
    by_cases rex : isRex ch = true
    · have same : pi = .rex := (prefixType_rex type).mpr rex
      subst same
      simp only [seen, rex, if_true, Option.some.injEq, lastOf_append_same, count, exists_eq_right]
      exact eq_comm
    · have different : pi ≠ .rex := fun same => rex ((prefixType_rex type).mp same)
      simp only [seen, rex, Bool.false_eq_true, if_false, lastOf_append_other _ different.symm]
      exact scanned.rex position

/-- The prefixes at the start of some code, as many as there is room for. -/
def prefixRun (dt : DecodeType) (room : ℕ) (code : List (BitVec 8)) : List (BitVec 8) :=
  (code.take room).takeWhile fun ch => (prefixType dt ch).isSome

@[simp] theorem prefixRun_nil (dt : DecodeType) (room : ℕ) :
    prefixRun dt room [] = [] := by simp [prefixRun]

@[simp] theorem prefixRun_zero (dt : DecodeType) (code : List (BitVec 8)) :
    prefixRun dt 0 code = [] := rfl

theorem prefixRun_cons (dt : DecodeType) (room : ℕ) (ch : BitVec 8) (code : List (BitVec 8)) :
    prefixRun dt (room + 1) (ch :: code) =
      if (prefixType dt ch).isSome then ch :: prefixRun dt room code else [] := by
  simp [prefixRun, List.takeWhile_cons]

theorem byteAt_drop {code : ℕ} {ch : BitVec 8} {rest : List (BitVec 8)}
    (here : bytes.drop code = ch :: rest) :
    byteAt bytes code = .ok ch := by
  have found : bytes[code]? = some ch := by
    rw [← List.head?_drop, here]
    rfl
  rw [byteAt, found]

/-- The loop of `prefixes_decode` from a place within the run. -/
theorem scanPrefixes_eq {code fuel room : ℕ} {run rest tail : List (BitVec 8)}
    (scanned : Scanned dt code run ps) (whole : ∀ ch ∈ run, (prefixType dt ch).isSome)
    (left : run.length + room = instMaximumSize) (fueled : fuel = room + 1)
    (here : bytes.drop (code + run.length) = rest ++ tail) :
    ∃ ps', scanPrefixes bytes dt fuel run.length (code + run.length) rest.length ps =
        .ok (code + run.length + (prefixRun dt room rest).length,
          rest.length - (prefixRun dt room rest).length, ps') ∧
      Scanned dt code (run ++ prefixRun dt room rest) ps' := by
  induction room generalizing run rest ps fuel with
  | zero =>
    refine ⟨ps, ?_, by simpa using scanned⟩
    rw [fueled, scanPrefixes, scanned.start, Nat.add_sub_cancel_left, if_neg (by omega)]
    simp [pure, Except.pure]
  | succ room ih =>
    rw [fueled, scanPrefixes, scanned.start, Nat.add_sub_cancel_left]
    cases rest with
    | nil =>
      refine ⟨ps, ?_, by simpa using scanned⟩
      rw [if_neg (by simp)]
      simp [pure, Except.pure]
    | cons ch rest =>
      rw [if_pos ⟨by simp, by omega⟩, byteAt_drop here, prefixRun_cons]
      simp only [bind, Except.bind]
      cases type : prefixType dt ch with
      | none =>
        refine ⟨ps, ?_, by simpa using scanned⟩
        simp [prefixStep_eq, type, pure, Except.pure]
      | some pi =>
        obtain ⟨after, stepped, next⟩ := scanned.step whole (by omega) ch type
        have further : bytes.drop (code + (run ++ [ch]).length) = rest ++ tail := by
          simpa [List.drop_drop, Nat.add_assoc] using congrArg (List.drop 1) here
        have prefixes : ∀ other ∈ run ++ [ch], (prefixType dt other).isSome := by
          intro other member
          rcases List.mem_append.mp member with earlier | last
          · exact whole other earlier
          · rw [List.mem_singleton.mp last, type]
            rfl
        obtain ⟨ps', ran, all⟩ :=
          ih next prefixes (by rw [List.length_append, List.length_singleton]; omega) rfl further
        refine ⟨ps', ?_, by simpa using all⟩
        rw [List.length_append, List.length_singleton, ← Nat.add_assoc] at ran
        have one_less : (((ch :: rest).length : ℕ) : ℤ) - 1 = rest.length := by simp
        simp only [stepped, Option.isSome_some, if_true]
        rw [one_less, ran]
        simp only [List.length_cons, Except.ok.injEq, Prod.mk.injEq, and_true, Int.natCast_add,
          Int.natCast_one]
        omega

/-! ### VEX -/

/-- How many bytes of VEX there are at the start of some code, behind `index` prefixes. -/
def vexSize (dt : DecodeType) (index : ℕ) : List (BitVec 8) → ℕ
  | first :: second :: rest =>
    if first = prefixVex2b ∧ index ≤ instMaximumSize - 2 ∧ isVex dt second then 2
    else if first = prefixVex3b ∧ rest ≠ [] ∧ index ≤ instMaximumSize - 3 ∧ isVex dt second then 3
    else 0
  | _ => 0

theorem vexSize_cases (dt : DecodeType) (index : ℕ) (code : List (BitVec 8)) :
    vexSize dt index code = 0 ∨ vexSize dt index code = 2 ∧ index ≤ 13 ∧ 2 ≤ code.length ∨
      vexSize dt index code = 3 ∧ index ≤ 12 ∧ 3 ≤ code.length := by
  rcases code with _ | ⟨first, _ | ⟨second, rest⟩⟩
  · exact .inl rfl
  · exact .inl rfl
  · by_cases two : first = prefixVex2b ∧ index ≤ instMaximumSize - 2 ∧ isVex dt second
    · exact .inr (.inl ⟨by rw [vexSize, if_pos two], two.2.1, by simp⟩)
    · by_cases three : first = prefixVex3b ∧ rest ≠ [] ∧ index ≤ instMaximumSize - 3 ∧
        isVex dt second
      · have longer := List.length_pos_of_ne_nil three.2.1
        exact .inr (.inr ⟨by rw [vexSize, if_neg two, if_pos three], three.2.2.1, by simp; omega⟩)
      · exact .inl (by rw [vexSize, if_neg two, if_neg three])

/-- The state after a VEX prefix of a size, if there is one, at `position`. -/
structure VexRead (size position : ℕ) (before after : PrefixState) : Prop where
  start : after.start = before.start
  usedPrefixes : after.usedPrefixes = before.usedPrefixes
  decodedPrefixes : after.decodedPrefixes =
    if size = 0 then before.decodedPrefixes else before.decodedPrefixes ||| instPreVex
  pfxIndexer : after.pfxIndexer = before.pfxIndexer
  unusedPrefixesMask : after.unusedPrefixesMask = before.unusedPrefixesMask
  rexPos : after.rexPos = before.rexPos
  vexPos : after.vexPos = if size = 0 then before.vexPos else some (position + 1)
  prefixExtType : after.prefixExtType =
    if size = 0 then before.prefixExtType else if size = 2 then .vex2Bytes else .vex3Bytes
  vexV : after.vexV = before.vexV
  vrex : size = 0 → after.vrex = before.vrex

theorem VexRead.none (position : ℕ) (ps : PrefixState) : VexRead 0 position ps ps :=
  ⟨rfl, rfl, rfl, rfl, rfl, rfl, rfl, rfl, rfl, fun _ => rfl⟩

theorem instFlag_and (flags : IFlags) {bit : ℕ} (narrow : bit < 32) :
    flags &&& instFlag bit = 0#32 ↔ flags.getLsbD bit = false := by
  constructor
  · intro none
    have at_bit := congrArg (fun x => BitVec.getLsbD x bit) none
    simpa [instFlag, narrow] using at_bit
  · intro clear
    apply BitVec.eq_of_getLsbD_eq
    intro i wide
    simp only [instFlag, BitVec.getLsbD_and, BitVec.getLsbD_shiftLeft, BitVec.getLsbD_one,
      BitVec.getLsbD_zero]
    by_cases same : i = bit
    · simp [same, clear]
    · have : ¬(i - bit = 0 ∧ ¬i < bit) := by omega
      grind

theorem lacks_instFlag (flags : IFlags) {bit : ℕ} (narrow : bit < 32) :
    flags.lacks (instFlag bit) = !flags.getLsbD bit := by
  have other := instFlag_and (~~~flags) narrow
  rw [BitVec.getLsbD_not, decide_eq_true narrow, Bool.true_and] at other
  by_cases clear : flags.getLsbD bit = true
  · rw [clear, IFlags.lacks, Bool.not_true, decide_eq_false_iff_not, not_not, other, clear,
      Bool.not_true]
  · rw [Bool.not_eq_true] at clear
    rw [clear, IFlags.lacks, Bool.not_false, decide_eq_true_eq, ne_eq, other, clear]
    decide

theorem decodeVex3_skipped {position : ℕ} {codeLen : ℤ} {more tail : List (BitVec 8)}
    (vex : ps.decodedPrefixes.getLsbD 29 = true) (here : bytes.drop position = more ++ tail)
    (readable : 3 ≤ codeLen → more ≠ []) :
    decodeVex3 bytes dt position codeLen ps = .ok (position, ps) := by
  rw [decodeVex3]
  by_cases three : 3 ≤ codeLen
  · obtain ⟨first, rest, rfl⟩ := List.exists_cons_of_ne_nil (readable three)
    have lacks : ps.decodedPrefixes.lacks instPreVex = false := by
      rw [instPreVex, lacks_instFlag _ (by decide), vex]
      rfl
    rw [if_pos three, byteAt_drop here]
    simp [bind, Except.bind, lacks, pure, Except.pure]
  · rw [if_neg three]
    rfl

section Vex
variable {code index : ℕ} {first second : BitVec 8} {codeLen : ℤ}

theorem decodeVex2_taken (start : ps.start = code) (two : 2 ≤ codeLen)
    (at0 : byteAt bytes (code + index) = .ok prefixVex2b)
    (at1 : byteAt bytes (code + index + 1) = .ok second) (short : index ≤ instMaximumSize - 2)
    (vex : isVex dt second = true) :
    ∃ after, decodeVex2 bytes dt (code + index) codeLen ps = .ok (code + index + 2, after) ∧
      VexRead 2 (code + index) ps after ∧ after.decodedPrefixes.getLsbD 29 = true := by
  rw [decodeVex2, if_pos two, at0]
  simp only [bind, Except.bind, start, Nat.add_sub_cancel_left, short, and_self, if_true, at1, vex]
  exact ⟨_, rfl, ⟨start.symm, rfl, rfl, rfl, rfl, rfl, rfl, rfl, rfl, fun no => absurd no (by decide)⟩,
    by simp [instPreVex, instFlag]⟩

theorem decodeVex2_skipped (start : ps.start = code) (two : 2 ≤ codeLen)
    (at0 : byteAt bytes (code + index) = .ok first) (at1 : byteAt bytes (code + index + 1) = .ok second)
    (other : ¬(first = prefixVex2b ∧ index ≤ instMaximumSize - 2 ∧ isVex dt second)) :
    decodeVex2 bytes dt (code + index) codeLen ps = .ok (code + index, ps) := by
  rw [decodeVex2, if_pos two, at0]
  simp only [bind, Except.bind, start, Nat.add_sub_cancel_left]
  by_cases begins : first = prefixVex2b ∧ index ≤ instMaximumSize - 2
  · rw [if_pos begins, at1]
    simp only
    rw [if_neg fun isVex => other ⟨begins.1, begins.2, isVex⟩]
    rfl
  · rw [if_neg begins]
    rfl

theorem decodeVex3_taken {third : BitVec 8} (start : ps.start = code) (three : 3 ≤ codeLen)
    (at0 : byteAt bytes (code + index) = .ok prefixVex3b)
    (at1 : byteAt bytes (code + index + 1) = .ok second)
    (at2 : byteAt bytes (code + index + 2) = .ok third) (short : index ≤ instMaximumSize - 3)
    (lacks : ps.decodedPrefixes.lacks instPreVex = true) (vex : isVex dt second = true) :
    ∃ after, decodeVex3 bytes dt (code + index) codeLen ps = .ok (code + index + 3, after) ∧
      VexRead 3 (code + index) ps after := by
  have begins : code + index - ps.start ≤ instMaximumSize - 3 := by rwa [start, Nat.add_sub_cancel_left]
  rw [decodeVex3, if_pos three, at0]
  simp only [bind, Except.bind, begins, lacks, and_self, if_true, at1, vex, at2]
  exact ⟨_, rfl, ⟨rfl, rfl, rfl, rfl, rfl, rfl, rfl, rfl, rfl, fun no => absurd no (by decide)⟩⟩

theorem decodeVex3_none (start : ps.start = code) (at0 : byteAt bytes (code + index) = .ok first)
    (at1 : byteAt bytes (code + index + 1) = .ok second)
    (other : 3 ≤ codeLen → ¬(first = prefixVex3b ∧ index ≤ instMaximumSize - 3 ∧ isVex dt second)) :
    decodeVex3 bytes dt (code + index) codeLen ps = .ok (code + index, ps) := by
  rw [decodeVex3]
  by_cases three : 3 ≤ codeLen
  · rw [if_pos three, at0]
    simp only [bind, Except.bind, start, Nat.add_sub_cancel_left]
    by_cases begins : first = prefixVex3b ∧ index ≤ instMaximumSize - 3 ∧
      ps.decodedPrefixes.lacks instPreVex
    · rw [if_pos begins, at1]
      simp only
      rw [if_neg fun isVex => other three ⟨begins.1, begins.2.1, isVex⟩]
      rfl
    · rw [if_neg begins]
      rfl
  · rw [if_neg three]
    rfl

end Vex

/-- The two VEX prefixes of `prefixes_decode`, of which at most one is there. -/
theorem decodeVex_eq (dt : DecodeType) {code index : ℕ} {rest tail : List (BitVec 8)}
    (start : ps.start = code) (noVex : ps.decodedPrefixes.getLsbD 29 = false)
    (here : bytes.drop (code + index) = rest ++ tail) :
    ∃ between after position, decodeVex2 bytes dt (code + index) rest.length ps =
      .ok (position, between) ∧
      decodeVex3 bytes dt position rest.length between =
      .ok (code + index + vexSize dt index rest, after) ∧
      VexRead (vexSize dt index rest) (code + index) ps after := by
  rcases rest with _ | ⟨first, _ | ⟨second, rest⟩⟩
  · exact ⟨ps, ps, code + index, rfl, rfl, VexRead.none _ ps⟩
  · exact ⟨ps, ps, code + index, rfl, rfl, VexRead.none _ ps⟩
  · have at0 : byteAt bytes (code + index) = .ok first := byteAt_drop here
    have here1 : bytes.drop (code + index + 1) = second :: (rest ++ tail) := by
      simpa [List.drop_drop] using congrArg (List.drop 1) here
    have here2 : bytes.drop (code + index + 2) = rest ++ tail := by
      simpa [List.drop_drop] using congrArg (List.drop 2) here
    have at1 : byteAt bytes (code + index + 1) = .ok second := byteAt_drop here1
    have two : (2 : ℤ) ≤ (first :: second :: rest).length := by simp; omega
    have longer : (3 : ℤ) ≤ (first :: second :: rest).length → rest ≠ [] := by
      rintro three rfl
      simp at three
    by_cases vex2 : first = prefixVex2b ∧ index ≤ instMaximumSize - 2 ∧ isVex dt second
    · rw [vexSize, if_pos vex2]
      obtain ⟨rfl, short, vex⟩ := vex2
      obtain ⟨after, ran, read, isVex⟩ := decodeVex2_taken start two at0 at1 short vex
      exact ⟨after, after, _, ran, decodeVex3_skipped isVex here2 longer, read⟩
    · have skipped := decodeVex2_skipped start two at0 at1 vex2
      rw [vexSize, if_neg vex2]
      by_cases vex3 : first = prefixVex3b ∧ rest ≠ [] ∧ index ≤ instMaximumSize - 3 ∧
        isVex dt second
      · rw [if_pos vex3]
        obtain ⟨rfl, more, short, vex⟩ := vex3
        obtain ⟨third, rest, rfl⟩ := List.exists_cons_of_ne_nil more
        have three : (3 : ℤ) ≤ (prefixVex3b :: second :: third :: rest).length := by simp; omega
        have lacks : ps.decodedPrefixes.lacks instPreVex = true := by
          rw [instPreVex, lacks_instFlag _ (by decide), noVex]
          rfl
        obtain ⟨after, ran, read⟩ :=
          decodeVex3_taken start three at0 at1 (byteAt_drop here2) short lacks vex
        exact ⟨ps, after, code + index, skipped, ran, read⟩
      · rw [if_neg vex3]
        refine ⟨ps, ps, code + index, skipped, ?_, VexRead.none _ ps⟩
        exact decodeVex3_none start at0 at1 fun three isVex => vex3 ⟨isVex.1, longer three, isVex.2⟩

/-! ### `prefixes_decode` -/

/-- The types of the prefixes at the start of some code. -/
def prefixTypes (dt : DecodeType) (code : List (BitVec 8)) : List PrefixIndexer :=
  (prefixRun dt instMaximumSize code).filterMap (prefixType dt)

/-- The bytes of VEX behind the prefixes at the start of some code. -/
def vexBytes (dt : DecodeType) (code : List (BitVec 8)) : ℕ :=
  vexSize dt (prefixRun dt instMaximumSize code).length (code.drop (prefixRun dt instMaximumSize code).length)

/-- What `prefixes_decode` finds at `code`. -/
structure PrefixesRead (dt : DecodeType) (code : ℕ) (rest : List (BitVec 8))
    (ps : PrefixState) : Prop where
  start : ps.start = code
  last : ps.last = code + (prefixRun dt instMaximumSize rest).length + vexBytes dt rest
  usedPrefixes : ps.usedPrefixes = 0
  decodedPrefixes : ∀ b, ps.decodedPrefixes.getLsbD b = true ↔
    (∃ ch ∈ prefixRun dt instMaximumSize rest, (prefixFlag ch).getLsbD b = true) ∨
    b = 29 ∧ 0 < vexBytes dt rest
  pfxIndexer : ∀ pi i, ps.pfxIndexer pi = some i ↔ LastOf (prefixTypes dt rest) pi i
  unusedPrefixesMask : ∀ i, ps.unusedPrefixesMask.getLsbD i = true ↔ Superseded (prefixTypes dt rest) i
  rexPos : ∀ position, ps.rexPos = some position ↔ ∃ i, position = code + i ∧
    LastOf (prefixTypes dt rest) .rex i
  vexPos : ps.vexPos =
    if vexBytes dt rest = 0 then none else some (code + (prefixRun dt instMaximumSize rest).length + 1)
  vexV : ps.vexV = 0

/-- No prefix but VEX has its flag. -/
theorem prefixFlag_vex (ch : BitVec 8) : (prefixFlag ch).getLsbD 29 = false := by
  rw [prefixFlag]
  by_cases rex : isRex ch
  · rw [if_pos rex]
    decide
  · rw [if_neg rex]
    cases listed : prefixBytes.lookup ch with
    | none => rfl
    | some entry =>
      have others : ∀ entry ∈ prefixBytes, entry.2.1.getLsbD 29 = false := by decide
      obtain ⟨before, after, split, -⟩ := List.lookup_eq_some_iff.mp listed
      exact others (ch, entry) (by rw [split]; simp)

theorem prefixRun_begins (dt : DecodeType) (room : ℕ) (code : List (BitVec 8)) :
    prefixRun dt room code <+: code :=
  (List.takeWhile_prefix _).trans (List.take_prefix ..)

theorem prefixRun_length_le (dt : DecodeType) (room : ℕ) (code : List (BitVec 8)) :
    (prefixRun dt room code).length ≤ room :=
  (List.takeWhile_prefix _).length_le.trans (List.length_take_le ..)

/-- `prefixes_decode` on code that is there reads its prefixes. -/
theorem prefixesDecode_eq (dt : DecodeType) {code : ℕ} {rest tail : List (BitVec 8)}
    (here : bytes.drop code = rest ++ tail) :
    ∃ ps, prefixesDecode bytes dt code rest.length (.cleared code) = .ok ps ∧
      PrefixesRead dt code rest ps := by
  have none (ch : BitVec 8) (member : ch ∈ ([] : List (BitVec 8))) : (prefixType dt ch).isSome := by
    cases member
  have begins : bytes.drop (code + ([] : List (BitVec 8)).length) = rest ++ tail := here
  obtain ⟨ps, ran, scanned⟩ :=
    scanPrefixes_eq (scanned_cleared dt code) none (Nat.zero_add _) rfl begins
  rw [List.nil_append] at scanned
  rw [List.length_nil, Nat.add_zero] at ran
  have behind : bytes.drop (code + (prefixRun dt instMaximumSize rest).length) =
      rest.drop (prefixRun dt instMaximumSize rest).length ++ tail := by
    rw [← List.drop_drop, here, List.drop_append_of_le_length (prefixRun_begins ..).length_le]
  have noVex : ps.decodedPrefixes.getLsbD 29 = false := by
    rw [Bool.eq_false_iff, ne_eq, scanned.decodedPrefixes]
    rintro ⟨ch, -, vex⟩
    rw [prefixFlag_vex] at vex
    cases vex
  have left : ((rest.drop (prefixRun dt instMaximumSize rest).length).length : ℤ) =
      rest.length - (prefixRun dt instMaximumSize rest).length := by
    have := (prefixRun_begins dt instMaximumSize rest).length_le
    rw [List.length_drop]
    omega
  obtain ⟨between, after, position, two, three, read⟩ := decodeVex_eq dt scanned.start noVex behind
  rw [left] at two three
  refine ⟨{ after with last := code + (prefixRun dt instMaximumSize rest).length + vexBytes dt rest }, ?_, ?_⟩
  · have ran' : scanPrefixes bytes dt (instMaximumSize + 1) 0 code rest.length
        (.cleared code) = _ := ran
    rw [prefixesDecode, ran']
    simp only [Nat.add_zero, bind, Except.bind, two, three]
    rfl
  · have flags : ∀ b, after.decodedPrefixes.getLsbD b = true ↔
        ps.decodedPrefixes.getLsbD b = true ∨ b = 29 ∧ 0 < vexBytes dt rest := by
      intro b
      rw [read.decodedPrefixes, show vexSize dt _ _ = vexBytes dt rest from rfl]
      by_cases vex : vexBytes dt rest = 0
      · simp [vex]
      · simp only [vex, if_false, BitVec.getLsbD_or, Bool.or_eq_true, Nat.pos_of_ne_zero vex, and_true]
        refine or_congr_right ?_
        simp only [instPreVex, instFlag, BitVec.getLsbD_shiftLeft, BitVec.getLsbD_one]
        grind
    constructor
    case start => exact read.start.trans scanned.start
    case last => rfl
    case usedPrefixes => exact read.usedPrefixes.trans scanned.usedPrefixes
    case decodedPrefixes => exact fun b => (flags b).trans (or_congr_left (scanned.decodedPrefixes b))
    case pfxIndexer => exact fun pi i => read.pfxIndexer ▸ scanned.pfxIndexer pi i
    case unusedPrefixesMask => exact fun i => read.unusedPrefixesMask ▸ scanned.unusedPrefixesMask i
    case rexPos => exact fun position => read.rexPos ▸ scanned.rex position
    case vexPos => exact read.vexPos.trans (by rw [scanned.vexPos]; rfl)
    case vexV => exact read.vexV.trans scanned.vexV

/-! ### The mask of the unused prefixes -/

/-- The flags of the prefixes of a type. -/
def typeMask : PrefixIndexer → IFlags
  | .rex => instPreRex
  | .lorep => instPreLokrepMask
  | .seg => instPreSegovrdMask
  | .opSize => instPreOpSize
  | .adrs => instPreAddrSize

/-- The types in the order in which `prefixes_set_unused_mask` looks at them. -/
theorem typeMask_ignored (pi : PrefixIndexer) :
    (typeMask pi, pi) ∈ [(instPreRex, PrefixIndexer.rex), (instPreSegovrdMask, .seg),
      (instPreLokrepMask, .lorep), (instPreOpSize, .opSize), (instPreAddrSize, .adrs)] := by
  cases pi <;> simp [typeMask]

theorem ignored_typeMask : ∀ entry ∈ [(instPreRex, PrefixIndexer.rex), (instPreSegovrdMask, .seg),
    (instPreLokrepMask, .lorep), (instPreOpSize, .opSize), (instPreAddrSize, .adrs)],
    entry.1 = typeMask entry.2 := by
  simp [typeMask]

/-- Some types of prefixes are ignored, one after another. -/
theorem ignore_some {chosen : IFlags × PrefixIndexer → Bool}
    (entries : List (IFlags × PrefixIndexer)) (ps : PrefixState) (i : ℕ) :
    let after :=
  entries.foldl (fun ps entry => if chosen entry then prefixesIgnore entry.2 ps else ps) ps
    after.pfxIndexer = ps.pfxIndexer ∧ (after.unusedPrefixesMask.getLsbD i = true ↔
      ps.unusedPrefixesMask.getLsbD i = true ∨
        ∃ entry ∈ entries, chosen entry = true ∧ i < 16 ∧ ps.pfxIndexer entry.2 = some i) := by
  induction entries generalizing ps with
  | nil => simp
  | cons entry entries ih =>
    rw [List.foldl_cons]
    by_cases used : chosen entry = true
    · obtain ⟨indexer, mask⟩ := ih (prefixesIgnore entry.2 ps)
      have kept : (prefixesIgnore entry.2 ps).pfxIndexer = ps.pfxIndexer := by
        rw [prefixesIgnore_fields]
      simp only [used, if_true, indexer, mask, kept, prefixesIgnore_mask, List.exists_mem_cons_iff,
        true_and, or_assoc, and_self]
    · obtain ⟨indexer, mask⟩ := ih ps
      simp only [used, if_false, indexer, mask, List.exists_mem_cons_iff, false_and, false_or, and_self,
        Bool.false_eq_true]

/-- **The last prefix of a type counts.** Whatever the code is, `prefixes_decode` reads
the run of prefixes at its start, up to 15, and a VEX behind it; and whatever prefixes
the instruction then uses, what is marked as unused are the prefixes that a later one of
their type supersedes, and the last one of each type of which the flags that were read
are not those that were used. -/
theorem last_prefix_counts (dt : DecodeType) (code : ℕ) {rest tail : List (BitVec 8)}
    (here : bytes.drop code = rest ++ tail) :
    ∃ ps, prefixesDecode bytes dt code rest.length (.cleared code) = .ok ps ∧
      PrefixesRead dt code rest ps ∧ ∀ usedPrefixes i,
        (prefixesSetUnusedMask { ps with usedPrefixes := usedPrefixes }).unusedPrefixesMask.getLsbD i = true ↔
          Superseded (prefixTypes dt rest) i ∨
            ∃ pi, LastOf (prefixTypes dt rest) pi i ∧
            (ps.decodedPrefixes ^^^ usedPrefixes).has (typeMask pi) = true := by
  obtain ⟨ps, ran, read⟩ := prefixesDecode_eq dt here
  refine ⟨ps, ran, read, fun usedPrefixes i => ?_⟩
  rw [prefixesSetUnusedMask, (ignore_some _ _ i).2]
  refine or_congr (read.unusedPrefixesMask i) ?_
  constructor
  · rintro ⟨entry, member, unused, -, indexed⟩
    exact ⟨entry.2, (read.pfxIndexer _ _).mp indexed, ignored_typeMask entry member ▸ unused⟩
  · rintro ⟨pi, last, unused⟩
    have narrow : i < 16 := by
      have short : (prefixTypes dt rest).length ≤ instMaximumSize :=
        (List.length_filterMap_le ..).trans (prefixRun_length_le ..)
      exact (lastOf_lt last).trans_le (short.trans (by decide))
    exact ⟨(typeMask pi, pi), typeMask_ignored pi, unused, narrow, (read.pfxIndexer _ _).mpr last⟩

/-- Of two operand size prefixes the first is unused, whatever the instruction uses. -/
theorem last_prefix_counts_twice :
    ∃ ps, prefixesDecode [0x66#8, 0xf3#8, 0x66#8, 0x48#8, 0x90#8] .decode64Bits 0 5
      (.cleared 0) = .ok ps ∧ ∀ usedPrefixes,
        (prefixesSetUnusedMask { ps with usedPrefixes := usedPrefixes }).unusedPrefixesMask.getLsbD
          0 = true := by
  obtain ⟨ps, ran, -, unused⟩ :=
    @last_prefix_counts [0x66#8, 0xf3#8, 0x66#8, 0x48#8, 0x90#8] .decode64Bits 0 [0x66, 0xf3, 0x66,
      0x48, 0x90] [] rfl
  have superseded : Superseded (prefixTypes .decode64Bits [0x66, 0xf3, 0x66, 0x48, 0x90]) 0 :=
    ⟨.opSize, by decide, 2, by decide, by decide⟩
  exact ⟨ps, ran, fun usedPrefixes => (unused usedPrefixes 0).mpr (.inl superseded)⟩

end FsdFilter.PrefixScan
