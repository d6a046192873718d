import FsdFilter.DecodeSafety
import FsdFilter.PrefixScan

/-! `decode_internal` goes through its code from the start to the end, or to where the
results are full: every byte is in one entry, and no entry is empty. -/
namespace FsdFilter.DecodeTiling
open Distorm CheckedRuns DecodeSafety PrefixScan
open MountLayout (DecodeResult)

variable {bytes : List (BitVec 8)} {dt : DecodeType} {ci : CodeInfo} {maxResultCount : ℕ}

/-! ### Entries that follow one another -/

/-- How many bytes some entries take. -/
def covered (entries : List DInst) : ℕ := (entries.map (·.size)).sum

/-- Each entry begins where the one before it ends, and is no longer than an instruction. -/
def Tiles (mask : BitVec 64) : BitVec 64 → List DInst → Prop
  | _, [] => True
  | offset, entry :: entries =>
    (entry.addr = offset &&& mask ∧ 0 < entry.size ∧ entry.size ≤ instMaximumSize) ∧
      Tiles mask (offset + BitVec.ofNat 64 entry.size) entries

@[simp] theorem covered_nil : covered [] = 0 := rfl

@[simp] theorem covered_cons (entry : DInst) (entries : List DInst) :
    covered (entry :: entries) = entry.size + covered entries := rfl

@[simp] theorem covered_append (entries more : List DInst) :
    covered (entries ++ more) = covered entries + covered more := by
  simp [covered]

theorem Tiles.append {mask offset : BitVec 64} {entries more : List DInst}
    (first : Tiles mask offset entries)
    (second : Tiles mask (offset + BitVec.ofNat 64 (covered entries)) more) :
    Tiles mask offset (entries ++ more) := by
  induction entries generalizing offset with
  | nil => simpa using second
  | cons entry entries ih =>
    refine ⟨first.1, ih first.2 ?_⟩
    rwa [covered_cons, BitVec.ofNat_add, ← BitVec.add_assoc] at second

/-- As many bytes are dropped as there is room for, one entry for each. -/
theorem dropBytes_tiles {mask : BitVec 64} {count p : ℕ} {offset : BitVec 64} {result : List DInst}
    (there : p + count ≤ bytes.length) (room : result.length + count ≤ maxResultCount) :
    ∃ dropped, dropBytes bytes maxResultCount mask count p offset result = .ok (result ++ dropped) ∧
      dropped.length = count ∧ covered dropped = count ∧ Tiles mask offset dropped := by
  induction count generalizing p offset result with
  | zero => exact ⟨[], by simp [dropBytes], rfl, rfl, trivial⟩
  | succ count ih =>
    have within : p < bytes.length := by omega
    obtain ⟨dropped, ran, length, size, tiles⟩ :=
      @ih (p + 1) (offset + 1) (result ++ [droppedByte bytes[p] (offset &&& mask)]) (by omega)
        (by rw [List.length_append, List.length_singleton]; omega)
    refine ⟨droppedByte bytes[p] (offset &&& mask) :: dropped, ?_, by rw [List.length_cons, length], ?_, ?_⟩
    · have written : writeEntry maxResultCount result (droppedByte bytes[p] (offset &&& mask)) =
          .ok _ :=
        if_pos (by omega)
      rw [dropBytes, List.getElem?_eq_getElem within]
      simpa [bind, Except.bind, written] using ran
    · rw [covered_cons, size]
      exact Nat.add_comm 1 count
    · exact ⟨⟨rfl, Nat.one_pos, Nat.le_add_left 1 14⟩, tiles⟩

/-! ### The prefixes and the instruction -/

theorem has_instFlag (flags : IFlags) {bit : ℕ} (narrow : bit < 32) :
    flags.has (instFlag bit) = true ↔ flags.getLsbD bit = true := by
  rw [IFlags.has, decide_eq_true_eq, ne_eq, instFlag_and flags narrow, Bool.not_eq_false]

/-- The prefixes before an instruction, with a VEX among them. -/
structure PrefixesEnd (code finish : ℕ) (ps : PrefixState) : Prop where
  start : ps.start = code
  low : code ≤ ps.last
  short : ps.last ≤ code + instMaximumSize
  inside : ps.last ≤ finish
  vex : ps.decodedPrefixes.has instPreVex = true → ∃ vexPos, ps.vexPos = some vexPos ∧ vexPos < ps.last

theorem readPrefixes_ends {code finish : ℕ} {codeLen : ℤ} (position : code + codeLen = finish)
    (within : finish ≤ bytes.length) (left : 0 < codeLen) :
    ∃ ps, readPrefixes bytes dt code codeLen = .ok ps ∧ PrefixesEnd code finish ps := by
  have there : code < bytes.length := by omega
  rw [readPrefixes, List.getElem?_eq_getElem there]
  by_cases valid : prefixesIsValid bytes[code] dt = true
  · simp only [valid, if_true]
    have here : bytes.drop code =
        (bytes.drop code).take codeLen.toNat ++ (bytes.drop code).drop codeLen.toNat :=
      (List.take_append_drop ..).symm
    have length : (((bytes.drop code).take codeLen.toNat).length : ℤ) = codeLen := by
      rw [List.length_take, List.length_drop]
      omega
    obtain ⟨ps, ran, read⟩ := prefixesDecode_eq dt here
    rw [length] at ran
    rw [ran]
    generalize (bytes.drop code).take codeLen.toNat = rest at length read
    have run := (prefixRun_begins dt instMaximumSize rest).length_le
    have few := prefixRun_length_le dt instMaximumSize rest
    have behind : vexBytes dt rest = 0 ∨
      vexBytes dt rest = 2 ∧ (prefixRun dt instMaximumSize rest).length ≤ 13 ∧
        2 ≤ (rest.drop (prefixRun dt instMaximumSize rest).length).length ∨ vexBytes dt rest = 3 ∧
          (prefixRun dt instMaximumSize rest).length ≤ 12 ∧
            3 ≤ (rest.drop (prefixRun dt instMaximumSize rest).length).length := vexSize_cases ..
    rw [List.length_drop] at behind
    refine ⟨ps, rfl, read.start, ?_, ?_, ?_, fun vex => ?_⟩
    · rw [read.last]
      omega
    · rw [read.last]
      simp only [instMaximumSize] at *
      omega
    · rw [read.last]
      omega
    · rw [instPreVex, has_instFlag _ (by decide), read.decodedPrefixes] at vex
      have vexRead : 0 < vexBytes dt rest := by
        rcases vex with ⟨ch, -, flagged⟩ | ⟨-, more⟩
        · rw [prefixFlag_vex] at flagged
          cases flagged
        · exact more
      exact ⟨_, by rw [read.vexPos, if_neg vexRead.ne'], by rw [read.last]; omega⟩
  · simp only [valid, if_false, Bool.false_eq_true]
    have inside : code ≤ finish := by omega
    exact ⟨_, rfl, rfl, le_rfl, Nat.le_add_right .., inside,
      fun vex => by simp [PrefixState.cleared, IFlags.has] at vex⟩

/-- In 64 bits prefixes are taken off, and nothing else changes that the decoder relies on. -/
theorem adjustPrefixes_vex (dt : DecodeType) (code : ℕ) (ps : PrefixState) :
    (adjustPrefixes dt code ps).start = ps.start ∧ (adjustPrefixes dt code ps).vexPos = ps.vexPos ∧
      ((adjustPrefixes dt code ps).decodedPrefixes.has instPreVex = true →
        ps.decodedPrefixes.has instPreVex = true) := by
  have ignored (pi : PrefixIndexer) (ps : PrefixState) : (prefixesIgnore pi ps).vexPos = ps.vexPos ∧
      (prefixesIgnore pi ps).decodedPrefixes = ps.decodedPrefixes := by
    rw [prefixesIgnore_fields]
    exact ⟨rfl, rfl⟩
  have fewer (flags mask : IFlags) (vex : (flags &&& mask).has instPreVex = true) :
      flags.has instPreVex = true := by
    rw [instPreVex, has_instFlag _ (by decide)] at *
    rw [BitVec.getLsbD_and] at vex
    exact (Bool.and_eq_true_iff.mp vex).1
  dsimp only [adjustPrefixes]
  split_ifs <;> simp only [prefixesIgnore_start, ignored, true_and]
  all_goals first | exact id | exact fewer _ _ | exact fun vex => fewer _ _ (fewer _ _ vex)

/-- An instruction is decoded in its code, or dropped as one byte. -/
theorem decodeInst_ends (db : InstTables) (dt : DecodeType) (place : Place bytes)
    (whole : place.claimed = 0) (ordered : place.start ≤ place.low)
    (room : place.low < place.start + instMaximumSize) (left : place.low < place.finish)
    {ps : PrefixState} (start : ps.start = place.start)
    (vex : ps.decodedPrefixes.has instPreVex = true → ∃ vexPos, ps.vexPos = some vexPos ∧
    vexPos + 1 < place.finish) :
    (∃ fault, decodeInst db bytes dt place.low (place.finish - place.low) ps = .error fault ∧
      TableFault fault) ∨
      ∃ res di, decodeInst db bytes dt place.low (place.finish - place.low) ps = .ok (res, di) ∧
      Ends place di.size ∧
        (res = .success ∨ res = .inputErr ∧ di.size = 1 ∧ di.meta' = 0) := by
  have count : (place.low : ℤ) + place.claimed + (place.finish - place.low) = place.finish := by
    rw [whole]
    omega
  have here : Holds (At place) ⟨place.low, place.finish - place.low, ps, .zero, false⟩ :=
    ⟨count, Int.sub_nonneg_of_le (Int.ofNat_le.mpr left.le), le_rfl, start⟩
  have one : Ends place 1 := ⟨Nat.one_pos, left, room⟩
  rcases decodeKnown_meets db dt whole ordered ⟨place.low, place.finish - place.low, ps, .zero, false⟩
    ⟨⟨here, vex⟩, rfl⟩ with ⟨⟨⟩, s, ran, ends⟩ | ⟨stop, ran, allowed⟩
  · exact .inr ⟨.success, s.di, by rw [decodeInst, ran], ends, .inl rfl⟩
  · rw [decodeInst, ran]
    cases stop with
    | fault fault => exact .inl ⟨fault, rfl, allowed⟩
    | undecodable =>
      have within : place.low < bytes.length := left.trans_le place.within
      rw [List.getElem?_eq_getElem within]
      by_cases wait : bytes[place.low].toNat = instWaitIndex
      · exact .inr ⟨_, _, if_pos wait, one, .inl rfl⟩
      · exact .inr ⟨_, _, if_neg wait, one, .inr ⟨rfl, rfl, rfl⟩⟩

/-! ### The loop -/

/-- Where the loop of `decode_internal` stands. -/
structure Progress (ci : CodeInfo) (maxResultCount code : ℕ) (codeLen : ℤ) (codeOffset : BitVec 64)
    (results : Results) : Prop where
  position : (code : ℤ) + codeLen = ci.codeLen
  left : 0 ≤ codeLen
  offset : codeOffset = ci.codeOffset + BitVec.ofNat 64 code
  count : results.usedInstructionsCount = results.result.length
  room : results.result.length ≤ maxResultCount
  tiles : IFlags.has ci.features dfReturnFcOnly = false →
    Tiles (addrMask ci.features) ci.codeOffset results.result ∧ covered results.result = code

/-- What `decode_internal` returns. -/
structure Decodes (ci : CodeInfo) (maxResultCount : ℕ) (res : DecodeResult)
    (results : Results) : Prop where
  count : results.usedInstructionsCount = results.result.length
  room : results.result.length ≤ maxResultCount
  result : res = .success ∨ res = .memoryErr ∧ maxResultCount < results.result.length + instMaximumSize
  tiles : IFlags.has ci.features dfReturnFcOnly = false →
    Tiles (addrMask ci.features) ci.codeOffset results.result ∧
    (covered results.result : ℤ) ≤ ci.codeLen ∧
      (res = .success → covered results.result = ci.codeLen ∨
        ∃ last, results.result.getLast? = some last ∧ stopsAt ci.features last.meta' = true)

/-- What a step of the loop leads to from a state with `codeLen` bytes left. -/
def Leads (ci : CodeInfo) (maxResultCount : ℕ) (codeLen : ℤ) : Except Fault Flow → Prop
  | .error fault => TableFault fault
  | .ok (.next code codeLen' codeOffset results) =>
    codeLen' < codeLen ∧ Progress ci maxResultCount code codeLen' codeOffset results
  | .ok (.returns res results) => Decodes ci maxResultCount res results

theorem lacks_of_has (features : Features) :
    IFlags.lacks features dfReturnFcOnly = true ↔ IFlags.has features dfReturnFcOnly = false := by
  rw [dfReturnFcOnly, lacks_instFlag _ (by decide), Bool.eq_false_iff, ne_eq,
    has_instFlag _ (by decide)]
  simp

section Step
variable {code : ℕ} {codeLen : ℤ} {codeOffset : BitVec 64} {results : Results}

theorem Progress.memoryErr (progress : Progress ci maxResultCount code codeLen codeOffset results)
    (full : maxResultCount < results.result.length + instMaximumSize) :
    Decodes ci maxResultCount .memoryErr results where
  count := progress.count
  room := progress.room
  result := .inr ⟨rfl, full⟩
  tiles plain := by
    have := progress.position
    have := progress.left
    refine ⟨(progress.tiles plain).1, ?_, fun success => by cases success⟩
    rw [(progress.tiles plain).2]
    omega

theorem Progress.finished (progress : Progress ci maxResultCount code 0 codeOffset results) :
    Decodes ci maxResultCount .success results where
  count := progress.count
  room := progress.room
  result := .inl rfl
  tiles plain := by
    have whole : (covered results.result : ℤ) = ci.codeLen := by
      have := progress.position
      rw [(progress.tiles plain).2]
      omega
    exact ⟨(progress.tiles plain).1, whole.le, fun _ => .inl whole⟩

/-- How a step ends that drops prefixes. -/
theorem Progress.goesOn {size : ℕ}
    (progress : Progress ci maxResultCount code (codeLen - size) codeOffset results)
    (notEmpty : 0 < size) :
    Leads ci maxResultCount codeLen (if codeLen - size = 0 then pure (.returns .success results)
      else pure (.next code (codeLen - size) codeOffset results)) := by
  by_cases done : codeLen - size = 0
  · rw [done] at progress
    rw [if_pos done]
    exact progress.finished
  · rw [if_neg done]
    exact ⟨by omega, progress⟩

/-- The place behind `size` bytes of code. -/
theorem Progress.onward {size : ℕ} (more : List DInst) (nextOffset : BitVec 64)
    (progress : Progress ci maxResultCount code codeLen codeOffset results)
    (inside : (size : ℤ) ≤ codeLen) (room : results.result.length + more.length ≤ maxResultCount)
    (tiles : IFlags.has ci.features dfReturnFcOnly = false →
      Tiles (addrMask ci.features) codeOffset more ∧ covered more = size) :
    Progress ci maxResultCount (code + size) (codeLen - size) (codeOffset + BitVec.ofNat 64 size)
      ⟨results.result ++ more, (results.result ++ more).length, nextOffset⟩ where
  position := by
    have := progress.position
    push_cast
    omega
  left := Int.sub_nonneg_of_le inside
  offset := by rw [progress.offset, BitVec.ofNat_add, BitVec.add_assoc]
  count := rfl
  room := by rwa [List.length_append]
  tiles plain := by
    obtain ⟨before, size⟩ := progress.tiles plain
    obtain ⟨behind, more⟩ := tiles plain
    refine ⟨before.append ?_, by rw [covered_append, size, more]⟩
    rwa [size, ← progress.offset]

theorem dropPrefixes_leads {size : ℕ}
    (progress : Progress ci maxResultCount code codeLen codeOffset results)
    (within : ci.codeLen ≤ ci.code.length) (notEmpty : 0 < size) (short : size ≤ instMaximumSize)
    (inside : (size : ℤ) ≤ codeLen) :
    Leads ci maxResultCount codeLen
      (dropPrefixes ci maxResultCount code size (codeLen - size) codeOffset results) := by
  have position := progress.position
  dsimp only [dropPrefixes]
  by_cases plain : IFlags.lacks ci.features dfReturnFcOnly = true
  · rw [if_pos plain]
    by_cases full : maxResultCount < results.result.length + size
    · rw [if_pos full]
      exact progress.memoryErr (full.trans_le (Nat.add_le_add_left short _))
    · rw [if_neg full]
      have there : code + size ≤ ci.code.length := by omega
      obtain ⟨dropped, ran, length, size, tiles⟩ :=
        @dropBytes_tiles ci.code _ (addrMask ci.features) _ _ codeOffset _ there (Nat.not_lt.mp full)
      rw [ran]
      have enough : results.result.length + dropped.length ≤ maxResultCount := by
        rw [length]
        exact Nat.not_lt.mp full
      have next := progress.onward dropped results.nextOffset inside enough fun _ => ⟨tiles, size⟩
      exact next.goesOn notEmpty
  · rw [if_neg plain]
    have filtered : IFlags.has ci.features dfReturnFcOnly ≠ false :=
      fun no => plain ((lacks_of_has _).mpr no)
    have next := progress.onward [] results.nextOffset inside progress.room fun no => absurd no filtered
    have same : (⟨results.result ++ [], (results.result ++ []).length, results.nextOffset⟩ :
        Results) = results := by
      rw [List.append_nil, ← progress.count]
    rw [same] at next
    exact next.goesOn notEmpty

/-- How a step ends that decodes an instruction. -/
theorem Progress.decoded {before : ℤ}
    (progress : Progress ci maxResultCount code codeLen codeOffset results)
    (less : codeLen < before) {stop : Prop} [Decidable stop]
    (last : stop → IFlags.has ci.features dfReturnFcOnly = false →
      ∃ last, results.result.getLast? = some last ∧ stopsAt ci.features last.meta' = true) :
    Leads ci maxResultCount before (if stop then pure (.returns .success results)
      else pure (.next code codeLen codeOffset results)) := by
  by_cases stops : stop
  · rw [if_pos stops]
    refine ⟨progress.count, progress.room, .inl rfl, fun plain => ?_⟩
    have := progress.position
    have := progress.left
    refine ⟨(progress.tiles plain).1, ?_, fun _ => .inr (last stops plain)⟩
    rw [(progress.tiles plain).2]
    omega
  · rw [if_neg stops]
    exact ⟨less, progress⟩

theorem decodeNext_leads (db : InstTables) {size : ℕ} {ps : PrefixState}
    (progress : Progress ci maxResultCount code codeLen codeOffset results)
    (within : ci.codeLen ≤ ci.code.length) (ends : PrefixesEnd code ci.codeLen.toNat ps)
    (size_eq : size = ps.last - code) (short : size < instMaximumSize) (inside : (size : ℤ) < codeLen) :
    Leads ci maxResultCount codeLen
      (decodeNext db ci maxResultCount code size ps (codeLen - size) codeOffset results) := by
  have position := progress.position
  have last : code + size = ps.last := by
    have := ends.low
    omega
  let place : Place ci.code := ⟨ci.codeLen.toNat, by omega, code, code + size, 0⟩
  obtain ⟨start, vexPos, fewer⟩ := adjustPrefixes_vex ci.dt (code + size) ps
  have vex (found : (adjustPrefixes ci.dt (code + size) ps).decodedPrefixes.has instPreVex = true) :
      ∃ vexPos, (adjustPrefixes ci.dt (code + size) ps).vexPos = some vexPos ∧
      vexPos + 1 < place.finish := by
    obtain ⟨position, known, before⟩ := ends.vex (fewer found)
    exact ⟨position, vexPos.trans known, by simp only [place]; omega⟩
  have decoded := decodeInst_ends db ci.dt place rfl (Nat.le_add_right ..) (Nat.add_lt_add_left short _)
    (by simp only [place]; omega) (start.trans ends.start) vex
  have left : (place.finish : ℤ) - place.low = codeLen - size := by
    simp only [place]
    omega
  rw [left] at decoded
  dsimp only [decodeNext]
  by_cases full : maxResultCount < results.result.length + 1
  · rw [if_pos full]
    exact progress.memoryErr (full.trans_le (Nat.add_le_add_left (by decide) _))
  · rw [if_neg full]
    rcases decoded with ⟨fault, ran, blame⟩ | ⟨res, di, ran, takes, outcome⟩
    · rw [show decodeInst db ci.code ci.dt (code + size) _ _ = _ from ran]
      exact blame
    · rw [show decodeInst db ci.code ci.dt (code + size) _ _ = _ from ran]
      have takes_whole : ((size + di.size : ℕ) : ℤ) ≤ codeLen := by
        have := takes.inside
        simp only [place] at this
        omega
      have less : codeLen - (size + di.size : ℕ) < codeLen := by
        have := takes.positive
        omega
      have fits : size + di.size ≤ instMaximumSize := by
        have := takes.short
        simp only [place] at this
        omega
      have code_eq : code + size + di.size = code + (size + di.size) := Nat.add_assoc ..
      have codeLen_eq : codeLen - size - di.size = codeLen - (size + di.size : ℕ) := by
        rw [Int.sub_sub, Int.natCast_add]
      simp only [bind, Except.bind, writeEntry, code_eq, codeLen_eq]
      rw [if_pos (Nat.lt_of_succ_le (Nat.not_lt.mp full))]
      dsimp only
      have room : results.result.length + 1 ≤ maxResultCount := Nat.not_lt.mp full
      by_cases plain : IFlags.has ci.features dfReturnFcOnly = true
      · simp only [plain, true_and, not_true_eq_false, and_false, if_false]
        have skips (no : IFlags.has ci.features dfReturnFcOnly = false) : False := by simp [plain] at no
        by_cases filtered : (if metaGetFc di.meta' = 0 then DecodeResult.filtered else res) = .filtered
        · simp only [filtered, if_true]
          have next := progress.onward [] (codeOffset + BitVec.ofNat 64 (size + di.size)) takes_whole
            progress.room fun no => (skips no).elim
          rw [List.append_nil] at next
          exact next.decoded less fun _ no => (skips no).elim
        · simp only [filtered, if_false]
          have next :=
            fun entry =>
            progress.onward [entry] (codeOffset + BitVec.ofNat 64 (size + di.size)) takes_whole
            room fun no => (skips no).elim
          exact (next _).decoded less fun _ no => (skips no).elim
      · rw [Bool.not_eq_true] at plain
        have sized : (di.size + size) % 256 = size + di.size := by
          rw [Nat.add_comm, Nat.mod_eq_of_lt (Nat.lt_of_le_of_lt fits (by decide))]
        rcases outcome with rfl | ⟨rfl, one, -⟩
        · simp only [plain, sized, Bool.false_eq_true, false_and, if_false, not_false_eq_true,
            and_true, true_and, reduceCtorEq]
          have next :=
            fun entry =>
            progress.onward [entry] (codeOffset + BitVec.ofNat 64 (size + di.size)) takes_whole
            room
          refine (next _ fun _ => ⟨⟨⟨rfl, ?_, fits⟩, trivial⟩, rfl⟩).decoded less
            fun stops _ => ?_
          · exact Nat.add_pos_right _ takes.positive
          · exact ⟨_, List.getLast?_concat, stops⟩
        · simp only [plain, Bool.false_eq_true, false_and, if_false, not_false_eq_true,
            and_true, if_true]
          by_cases noRoom : maxResultCount < results.result.length + size + 1
          · rw [if_pos noRoom]
            exact progress.memoryErr (by omega)
          · rw [if_neg noRoom]
            have there : code + (size + 1) ≤ ci.code.length := by omega
            obtain ⟨dropped, ran, length, total, tiles⟩ :=
              @dropBytes_tiles ci.code _ (addrMask ci.features) _ _ codeOffset _ there
                (Nat.not_lt.mp noRoom)
            rw [ran]
            have enough : results.result.length + dropped.length ≤ maxResultCount := by
              rw [length]
              exact Nat.not_lt.mp noRoom
            have next :=
              progress.onward dropped (codeOffset + BitVec.ofNat 64 (size + di.size)) takes_whole enough
              fun _ => ⟨tiles, by rw [total, one]⟩
            exact next.decoded less fun stops => by simp at stops

end Step

/-- What the decoder leads to: results, or a fault that is left to the tables of instructions. -/
def Returns (ci : CodeInfo) (maxResultCount : ℕ) : Except Fault (DecodeResult × Results) → Prop
  | .error fault => TableFault fault
  | .ok (res, results) => Decodes ci maxResultCount res results

theorem decodeLoop_returns (db : InstTables) (within : ci.codeLen ≤ ci.code.length) {fuel code : ℕ}
    {codeLen : ℤ} {codeOffset : BitVec 64} {results : Results} (fueled : codeLen ≤ fuel)
    (progress : Progress ci maxResultCount code codeLen codeOffset results) :
    Returns ci maxResultCount (decodeLoop db ci maxResultCount fuel code codeLen codeOffset results) := by
  have left := progress.left
  induction fuel generalizing code codeLen codeOffset results with
  | zero =>
    have done : codeLen = 0 := by omega
    subst done
    rw [decodeLoop, if_neg (by omega)]
    exact progress.finished
  | succ fuel ih =>
    by_cases more : 0 < codeLen
    · have position := progress.position
      obtain ⟨ps, ran, ends⟩ :=
        @readPrefixes_ends ci.code ci.dt code ci.codeLen.toNat codeLen (by omega) (by omega) more
      have low := ends.low
      have inside := ends.inside
      have short := ends.short
      rw [decodeLoop, if_pos more, ran]
      simp only [bind, Except.bind]
      by_cases onlyPrefixes : codeLen - (ps.last - code : ℕ) = 0 ∨ ps.last - code = instMaximumSize
      · have notEmpty : 0 < ps.last - code := by
          rcases onlyPrefixes with all | long
          · omega
          · rw [long]
            decide
        have step := dropPrefixes_leads progress within notEmpty (by omega) (by omega)
        rw [if_pos onlyPrefixes]
        generalize dropPrefixes ci maxResultCount code (ps.last - code)
          (codeLen - (ps.last - code : ℕ)) codeOffset
          results = flow at step ⊢
        rcases flow with fault | ⟨code, codeLen, codeOffset, results⟩ | ⟨res, results⟩
        · exact step
        · exact ih (by have := step.1; omega) step.2 step.2.left
        · exact step
      · have step := decodeNext_leads db progress within ends rfl (by omega) (by omega)
        rw [if_neg onlyPrefixes]
        generalize decodeNext db ci maxResultCount code (ps.last - code) ps
          (codeLen - (ps.last - code : ℕ)) codeOffset
          results = flow at step ⊢
        rcases flow with fault | ⟨code, codeLen, codeOffset, results⟩ | ⟨res, results⟩
        · exact step
        · exact ih (by have := step.1; omega) step.2 step.2.left
        · exact step
    · have done : codeLen = 0 := by omega
      subst done
      rw [decodeLoop, if_neg more]
      exact progress.finished

/-- What `distorm_decompose64` accepts: the code that it may read is there, and at most one
of the two limits on addresses is set. -/
structure Accepts (ci : CodeInfo) : Prop where
  length : 0 ≤ ci.codeLen
  within : ci.codeLen ≤ ci.code.length
  limits : ¬(IFlags.has ci.features dfMaximumAddr16 = true ∧ IFlags.has ci.features dfMaximumAddr32 = true)

theorem distormDecompose64_returns (db : InstTables) (accepts : Accepts ci) :
    Returns ci maxResultCount (distormDecompose64 db ci maxResultCount) := by
  have begins : Progress ci maxResultCount 0 ci.codeLen ci.codeOffset ⟨[], 0, ci.codeOffset⟩ :=
    ⟨by omega, accepts.length, by simp, rfl, Nat.zero_le _, fun _ => ⟨trivial, rfl⟩⟩
  rw [distormDecompose64, if_neg (not_or.mpr ⟨Int.not_lt.mpr accepts.length, accepts.limits⟩)]
  by_cases none : ci.codeLen = 0
  · rw [if_pos none]
    rw [none] at begins
    exact begins.finished
  · rw [if_neg none]
    exact decodeLoop_returns db accepts.within (Int.self_le_toNat _) begins

/-- What is not accepted is refused before anything is read. -/
theorem distormDecompose64_refuses (db : InstTables) (within : ci.codeLen ≤ ci.code.length)
    (refused : ¬Accepts ci) :
    distormDecompose64 db ci maxResultCount = .ok (.inputErr, ⟨[], 0, ci.codeOffset⟩) := by
  refine if_pos ?_
  by_contra fine
  rw [not_or] at fine
  exact refused ⟨Int.not_lt.mp fine.1, within, fine.2⟩

/-- **The decoder reads its code and nothing else, and every byte of it once.** Whatever
the tables of instructions hold and whatever the code is: nothing outside of the code is
read, the decoder comes to an end, and no entry is written behind the last one. Arguments
that are not accepted give an error and no entry. Else, unless it was asked for certain
instructions only, the entries follow one another from the first byte on, each of 1 to 15
bytes; they are all of the code if the decoder succeeds, up to an instruction that it was
asked to stop at, and else there is no room for one more that is as long as an instruction
may be. -/
theorem code_is_tiled (db : InstTables) (maxResultCount : ℕ)
    (within : ci.codeLen ≤ ci.code.length) :
    (¬Accepts ci →
      distormDecompose64 db ci maxResultCount = .ok (.inputErr, ⟨[], 0, ci.codeOffset⟩)) ∧
    (Accepts ci →
      (∀ fault, distormDecompose64 db ci maxResultCount = .error fault → TableFault fault) ∧
      ∀ res results, distormDecompose64 db ci maxResultCount = .ok (res, results) →
        Decodes ci maxResultCount res results) := by
  refine ⟨distormDecompose64_refuses db within, fun accepts => ?_⟩
  have returned : Returns ci maxResultCount (distormDecompose64 db ci maxResultCount) :=
    distormDecompose64_returns db accepts
  constructor
  · intro fault ran
    rwa [ran] at returned
  · intro res results ran
    rwa [ran] at returned

/-- Tables that know one instruction. -/
def nopTables : InstTables where
  instructions := .list .full (List.replicate 0x90 none ++ [some (.info iiNop)])
  table0F := .list .full []
  table0F38 := .list .full []
  table0F3A := .list .full []
  table0F0F := .list .full []

theorem code_is_tiled_prefixed_nop :
    ∃ res results, distormDecompose64 nopTables ⟨0x1000#64, [0x66#8, 0x90#8], 2, .decode64Bits, 0⟩ 15 =
        .ok (res, results) ∧
          Decodes ⟨0x1000#64, [0x66#8, 0x90#8], 2, .decode64Bits, 0⟩ 15 res results := by
  refine ⟨_, _, rfl, ?_⟩
  have outcome :=
    @code_is_tiled ⟨0x1000#64, [0x66#8, 0x90#8], 2, .decode64Bits, 0⟩ nopTables 15 (by decide)
  exact (outcome.2 ⟨by decide, by decide, by decide⟩).2 _ _ rfl

/-! ### How much room there must be -/

/-- Code of nothing but prefixes, as many as an instruction may have bytes. -/
def fifteenPrefixes : CodeInfo := ⟨0#64, List.replicate 15 0x66#8, 15, .decode64Bits, 0⟩

theorem fifteenPrefixes_full (db : InstTables) {maxInstructions : ℕ} (few : maxInstructions < 15) :
    distormDecompose64 db fifteenPrefixes maxInstructions = .ok (.memoryErr, ⟨[], 0, 0#64⟩) := by
  have here : fifteenPrefixes.code.drop 0 = List.replicate 15 0x66#8 ++ [] := rfl
  obtain ⟨ps, ran, read⟩ := prefixesDecode_eq .decode64Bits here
  have last : ps.last = 15 := read.last.trans (by decide)
  have begins : readPrefixes fifteenPrefixes.code fifteenPrefixes.dt 0 15 = .ok ps := by
    have scanned : prefixesDecode fifteenPrefixes.code .decode64Bits 0 15 (.cleared 0) = .ok ps := ran
    rw [readPrefixes, show fifteenPrefixes.code[0]? = some 0x66#8 from rfl]
    simp only [show prefixesIsValid 0x66#8 fifteenPrefixes.dt = true from by decide, if_true]
    rw [show fifteenPrefixes.dt = .decode64Bits from rfl, scanned]
  have loop : distormDecompose64 db fifteenPrefixes maxInstructions =
      decodeLoop db fifteenPrefixes maxInstructions (14 + 1) 0 15 0#64 ⟨[], 0, 0#64⟩ := by
    rw [distormDecompose64, if_neg (by decide), if_neg (by decide)]
    rfl
  rw [loop, decodeLoop, if_pos (by decide), begins]
  simp only [bind, Except.bind]
  rw [last, if_pos (by decide), dropPrefixes, if_pos (by decide), if_pos (by simpa using few)]
  rfl

/-- **Fifteen entries are the least that is enough.** A run that is not stopped by the
tables of instructions and is not asked for certain instructions only (with
`DF_RETURN_FC_ONLY` code without any leaves no entry) makes progress on every piece of
code that is not empty, if there is room for 15 entries. With less there is code, fifteen
prefixes, of which it decodes nothing and asks for more memory, whatever the tables are. -/
theorem fifteen_entries_suffice (db : InstTables) (maxInstructions : ℕ) :
    (15 ≤ maxInstructions ↔
      ∀ ci, Accepts ci → 0 < ci.codeLen → IFlags.has ci.features dfReturnFcOnly = false →
        ∀ res results, distormDecompose64 db ci maxInstructions = .ok (res, results) →
          results.result ≠ []) ∧
    (maxInstructions < 15 → distormDecompose64 db fifteenPrefixes maxInstructions =
      .ok (.memoryErr, ⟨[], 0, fifteenPrefixes.codeOffset⟩)) := by
  refine ⟨⟨?_, ?_⟩, fifteenPrefixes_full db⟩
  · intro enough ci accepts some_code plain res results ran nothing
    have returned : Returns ci maxInstructions (distormDecompose64 db ci maxInstructions) :=
      distormDecompose64_returns db accepts
    rw [ran] at returned
    obtain ⟨-, -, result, tiles⟩ := returned
    rcases result with rfl | ⟨rfl, full⟩
    · rcases (tiles plain).2.2 rfl with whole | ⟨last, ends, -⟩
      · rw [nothing] at whole
        rw [← whole] at some_code
        cases some_code
      · rw [nothing] at ends
        cases ends
    · rw [nothing] at full
      exact absurd full (Nat.not_lt.mpr enough)
  · intro progresses
    by_contra few
    have nothing := progresses fifteenPrefixes ⟨by decide, by decide, by decide⟩ (by decide) (by decide)
    exact nothing _ _ (fifteenPrefixes_full db (Nat.not_le.mp few)) rfl

end FsdFilter.DecodeTiling
