import Mathlib
import FsdFilter.CheckedRuns
import FsdFilter.DistormDecoder

/-! The decoder reads only the code that it was given, whatever the tables of
instructions hold: what is read was claimed before, and what is claimed is there. -/
namespace FsdFilter.DecodeSafety
open Distorm CheckedRuns

set_option synthInstance.maxSize 2000
set_option synthInstance.maxHeartbeats 200000

/-- Where the decoding of an instruction stands: its code ends at `finish`, its prefixes
begin at `start`, `code` is at `low` or behind it, and `claimed` bytes from there on are
already taken off `codeLen`. -/
structure Place (bytes : List (BitVec 8)) where
  finish : ℕ
  within : finish ≤ bytes.length
  start : ℕ
  low : ℕ
  claimed : ℕ

/-- What an instruction that is decoded reads and moves. -/
abbrev Track : Type := ℕ → ℤ → ℕ → Prop

variable {bytes : List (BitVec 8)} {place : Place bytes} {track : Track} {α β : Type}

/-- A fault that is left to the tables of instructions: no read outside of the code, no
entry behind the results, and no endless loop. -/
def TableFault (fault : Fault) : Prop := fault ≠ .overread ∧ fault ≠ .overrun ∧ fault ≠ .outOfFuel

/-- A stop at code that is no instruction, or by a fault that is left to the tables. -/
def InBounds : Stop → Prop
  | .undecodable => True
  | .fault fault => TableFault fault

theorem undecodable_inBounds : InBounds .undecodable := trivial

/-- `code`, `codeLen` and the start of the prefixes are at a place. -/
structure At (place : Place bytes) (code : ℕ) (codeLen : ℤ) (start : ℕ) : Prop where
  count : (code : ℤ) + place.claimed + codeLen = place.finish
  left : 0 ≤ codeLen
  low : place.low ≤ code
  start : start = place.start

/-- A fact about `code`, `codeLen` and the start of the prefixes. -/
abbrev Holds (track : Track) (s : InstState) : Prop := track s.code s.codeLen s.ps.start

/-- The code keeps such a fact. -/
abbrev Follows (track : Track) (code : DecodeM α) : Prop := Keeps InBounds (Holds track) code

/-- The code keeps its place. -/
abbrev Stays (place : Place bytes) (code : DecodeM α) : Prop := Follows (At place) code

/-! ### The steps of the decoder that leave the code where it is -/

theorem follows_modify {change : InstState → InstState} (code : ∀ s, (change s).code = s.code)
    (codeLen : ∀ s, (change s).codeLen = s.codeLen) (start : ∀ s, (change s).ps.start = s.ps.start) :
    Follows track (modify change : DecodeM Unit) := by
  refine ⟨.modified fun s here => ?_⟩
  rw [Holds, code, codeLen, start]
  exact here

theorem follows_modifyPs {change : PrefixState → PrefixState}
    (start : ∀ ps, (change ps).start = ps.start) :
    Follows track (modifyPs change) :=
  follows_modify (fun _ => rfl) (fun _ => rfl) fun s => start s.ps

instance (change : DInst → DInst) : Follows track (modifyDi change) :=
  follows_modify (fun _ => rfl) (fun _ => rfl) fun _ => rfl

instance (opNum : Fin 4) (change : Operand → Operand) : Follows track (modifyOp opNum change) := by
  unfold modifyOp
  infer_instance

instance (flags : IFlags) : Follows track (usePrefixes flags) := follows_modifyPs fun _ => rfl

instance : Follows track (undecodable : DecodeM α) := ⟨.stop undecodable_inBounds⟩

instance : Follows track (fault .badTable : DecodeM α) := ⟨.stop ⟨by decide, by decide, by decide⟩⟩

instance : Follows track (fault .notExtended : DecodeM α) :=
  ⟨.stop ⟨by decide, by decide, by decide⟩⟩

instance : Follows track (fault .badRegister : DecodeM α) :=
  ⟨.stop ⟨by decide, by decide, by decide⟩⟩

instance : Follows track (fault .badOperand : DecodeM α) := ⟨.stop ⟨by decide, by decide, by decide⟩⟩

instance (flag : BitVec 16) : Follows track (setDiFlag flag) := by
  unfold setDiFlag
  infer_instance

instance (opNum : Fin 4) (type : OperandType) (size : ℕ) :
    Follows track (operandsSetTs opNum type size) := by
  unfold operandsSetTs
  infer_instance

instance (opNum : Fin 4) (type : OperandType) (size index : ℕ) :
    Follows track (operandsSetTsi opNum type size index) := by
  unfold operandsSetTsi
  infer_instance

instance (flag : IFlags) (reg : ℕ) : Follows track (extendRex flag reg) := by
  unfold extendRex
  infer_instance

instance (first : Bool) : Follows track (noteLock first) := by
  have locks : Follows track (modify fun s => { s with lockable := true } : DecodeM Unit) :=
    follows_modify (fun _ => rfl) (fun _ => rfl) fun _ => rfl
  unfold noteLock
  infer_instance

/-! ### What is read -/

/-- The place behind `size` bytes more that are claimed. -/
def Place.claiming (place : Place bytes) (size : ℕ) : Place bytes :=
  { place with claimed := place.claimed + size }

theorem claim_meets (size : ℕ) :
    Meets InBounds (Holds (At place)) (claim size) fun _ => Holds (At (place.claiming size)) := by
  intro s here
  have ran : claim size s = (if s.codeLen - size < 0 then undecodable else pure () : DecodeM Unit)
      { s with codeLen := s.codeLen - size } := rfl
  rw [ran]
  by_cases short : s.codeLen - size < 0
  · rw [if_pos short]
    exact .inr ⟨.undecodable, rfl, undecodable_inBounds⟩
  · rw [if_neg short]
    refine .inl ⟨(), _, rfl, ?_, Int.not_lt.mp short, here.low, here.start⟩
    have := here.count
    simp only [Place.claiming, Int.natCast_add]
    omega

/-- The place with `code` gone on by `size` bytes at least. -/
def Place.behind (place : Place bytes) (size : ℕ) : Place bytes :=
  { place with low := place.low + size }

theorem advance_behind (size : ℕ) :
    Meets InBounds (Holds (At (place.claiming size))) (advance size) fun _ =>
      Holds (At (place.behind size)) := by
  refine .modified fun s here => ?_
  have := here.count
  constructor
  · simp only [Place.claiming, Place.behind, Int.natCast_add] at *
    omega
  · exact here.left
  · exact Nat.add_le_add_right here.low size
  · exact here.start

theorem advance_meets (size : ℕ) :
    Meets InBounds (Holds (At (place.claiming size))) (advance size) fun _ => Holds (At place) :=
  (advance_behind size).after fun _ _ here =>
    ⟨here.count, here.left, Nat.le_of_add_right_le here.low, here.start⟩

/-- The bytes that are claimed can be read. -/
theorem byteAt_claimed {s : InstState} (here : Holds (At place) s) {i : ℕ}
    (claimed : i < place.claimed) :
    ∃ byte, byteAt bytes (s.code + i) = .ok byte := by
  have within : s.code + i < bytes.length := by
    have := here.count
    have := here.left
    have := place.within
    omega
  exact ⟨bytes[s.code + i], by rw [byteAt, List.getElem?_eq_getElem within]⟩

theorem littleEndian_ok {code size : ℕ}
    (readable : ∀ i < size, ∃ byte, byteAt bytes (code + i) = .ok byte) :
    ∃ value, littleEndian bytes code size = .ok value := by
  induction size generalizing code with
  | zero => exact ⟨0, rfl⟩
  | succ size ih =>
    obtain ⟨low, atLow⟩ := readable 0 (Nat.succ_pos size)
    have further (i : ℕ) (inside : i < size) : ∃ byte, byteAt bytes (code + 1 + i) = .ok byte := by
      rw [Nat.add_assoc, Nat.add_comm 1 i]
      exact readable (i + 1) (Nat.succ_lt_succ inside)
    obtain ⟨high, rest⟩ := ih further
    rw [Nat.add_zero] at atLow
    exact ⟨low.toNat + 256 * high, by simp [littleEndian, atLow, rest, bind, Except.bind, pure, Except.pure]⟩

instance readCode_stays [claimed : NeZero place.claimed] : Stays place (readCode bytes) := by
  refine ⟨fun s here => ?_⟩
  obtain ⟨byte, read⟩ := byteAt_claimed here (Nat.pos_of_ne_zero claimed.out)
  refine .inl ⟨byte, s, ?_, here⟩
  rw [readCode, StateRuns.get_bind]
  rw [Nat.add_zero] at read
  rw [read]
  rfl

instance readStreamSafeUint_stays (size : ℕ) : Stays place (readStreamSafeUint bytes size) := by
  refine ⟨(claim_meets size).bind fun _ => .reads fun s here => .bind (.lift fun _ after => ?_) fun _ =>
    (advance_meets size).bind fun _ => .returns fun _ => id⟩
  obtain ⟨value, read⟩ := littleEndian_ok fun i inside =>
    byteAt_claimed here (Nat.lt_add_left place.claimed inside)
  exact .inl ⟨value, read, after⟩

instance (size : ℕ) : Stays place (readStreamSafeSint bytes size) := by
  unfold readStreamSafeSint
  infer_instance

instance (offset size : ℕ) : Stays place (readImm bytes offset size) := by
  unfold readImm
  infer_instance

instance (size : ℕ) : Stays place (readSignedImm bytes size) := by
  unfold readSignedImm
  infer_instance

instance (size : ℕ) : Stays place (readDisp bytes size) := by
  unfold readDisp
  infer_instance

instance (size : ℕ) : Stays place (readOffset bytes size) := by
  unfold readOffset
  infer_instance

/-! ### Operands -/

instance (opNum : Fin 4) (effAdrSz : DecodeType) (sib mod : ℕ) :
    Follows track (operandsExtractSib opNum effAdrSz sib mod) := by
  dsimp only [operandsExtractSib]
  infer_instance

instance {τ : Type} (table : List τ) (index : ℕ) : Follows track (tableAt table index) := by
  unfold tableAt
  split <;> infer_instance

instance (defaultSeg : IFlags) (dt : DecodeType) :
    Follows track (prefixesUseSegment defaultSeg dt) := by
  dsimp only [prefixesUseSegment]
  refine .seq fun s => .branch (.seq fun _ => ?_) (.seq fun _ => ?_)
  all_goals
    generalize segmentRegisters.lookup _ = register
    cases register <;> infer_instance

instance (dt : DecodeType) (type : OpType) (effOpSz : DecodeType) (instFlags : IFlags) (size rm : ℕ) :
    Follows track (modrmRegister dt type effOpSz instFlags size rm) := by
  cases effOpSz <;> cases type <;> dsimp only [modrmRegister] <;> infer_instance

instance (dt : DecodeType) (opNum : Fin 4) (mod rm : ℕ) :
    Stays place (modrmMemory16 bytes dt opNum mod rm) := by
  dsimp only [modrmMemory16]
  infer_instance

instance (dt : DecodeType) (opNum : Fin 4) (effAdrSz : DecodeType) (mod rm : ℕ) :
    Stays place (modrmMemory bytes dt opNum effAdrSz mod rm) := by
  dsimp only [modrmMemory]
  infer_instance

instance (dt : DecodeType) (type : OpType) (opNum : Fin 4) (effOpSz effAdrSz : DecodeType)
    (lockable : Bool) (mod rm : ℕ) (instFlags : IFlags) :
    Stays place (operandsExtractModrm bytes dt type opNum effOpSz effAdrSz lockable mod rm instFlags) := by
  dsimp only [operandsExtractModrm]
  infer_instance

instance (dt effOpSz : DecodeType) (instFlags : IFlags) (lockable : Bool) (type : OpType) :
    Follows track (memorySize dt effOpSz instFlags lockable type) := by
  cases type <;> dsimp only [memorySize] <;> first | infer_instance |
    (cases effOpSz <;> dsimp only <;> infer_instance)

instance (effOpSz : DecodeType) (instFlags : IFlags) (type : OpType) :
    Follows track (indirectionSize effOpSz instFlags type) := by
  cases effOpSz <;> cases type <;> dsimp only [indirectionSize] <;> infer_instance

instance (dt : DecodeType) (opNum : Fin 4) : Stays place (extractImm32 bytes dt opNum) := by
  unfold extractImm32
  infer_instance

instance (opNum : Fin 4) (type : OperandType) (offset size : ℕ) :
    Stays place (extractImm bytes opNum type offset size) := by
  unfold extractImm
  infer_instance

instance (dt : DecodeType) (opNum : Fin 4) (effOpSz : DecodeType) (instFlags : IFlags) :
    Stays place (extractImmFull bytes dt opNum effOpSz instFlags) := by
  dsimp only [extractImmFull]
  infer_instance

instance (dt : DecodeType) (opNum : Fin 4) (instFlags : IFlags) :
    Stays place (extractSeimm8 bytes dt opNum instFlags) := by
  dsimp only [extractSeimm8]
  infer_instance

instance (opNum : Fin 4) (effOpSz : DecodeType) (reg : ℕ) :
    Follows track (extractRegFull opNum effOpSz reg) := by
  cases effOpSz <;> dsimp only [extractRegFull] <;> infer_instance

instance (dt : DecodeType) (opNum : Fin 4) (instFlags : IFlags) (reg : ℕ) :
    Follows track (extractReg32_64 dt opNum instFlags reg) := by
  dsimp only [extractReg32_64]
  infer_instance

instance (dt : DecodeType) (opNum : Fin 4) (reg : ℕ) : Follows track (extractCreg dt opNum reg) := by
  dsimp only [extractCreg]
  infer_instance

instance (dt : DecodeType) (opNum : Fin 4) (reg : ℕ) : Follows track (extractDreg dt opNum reg) := by
  dsimp only [extractDreg]
  infer_instance

instance (opNum : Fin 4) (instFlags : IFlags) : Follows track (extractSeg opNum instFlags) := by
  unfold extractSeg
  refine .seq fun _ => .seq fun _ => ?_
  split <;> infer_instance

instance (opNum : Fin 4) (effOpSz : DecodeType) (instFlags : IFlags) :
    Follows track (extractAccFull opNum effOpSz instFlags) := by
  cases effOpSz <;> dsimp only [extractAccFull] <;> infer_instance

instance (opNum : Fin 4) (effOpSz : DecodeType) :
    Stays place (extractPtr16Full bytes opNum effOpSz) := by
  dsimp only [extractPtr16Full]
  refine .seq fun _ => ⟨(claim_meets _).bind fun _ => Keeps.meets.bind fun _ => .reads fun s here => ?_⟩
  have readable := fun i inside => byteAt_claimed (i := i) here (Nat.lt_add_left place.claimed inside)
  obtain ⟨off, readOff⟩ := littleEndian_ok fun i inside => readable i (Nat.lt_add_right 2 inside)
  obtain ⟨seg, readSeg⟩ := littleEndian_ok fun i inside => by
    rw [Nat.add_assoc]
    exact readable _ (Nat.add_lt_add_left inside _)
  refine .bind (.lift fun _ after => .inl ⟨off, readOff, after⟩) fun _ =>
    .bind (.lift fun _ after => .inl ⟨seg, readSeg, after⟩) fun _ => Keeps.meets.bind fun _ =>
      advance_meets _

instance (opNum : Fin 4) (size : ℕ) (opcodeId : BitVec 16) :
    Stays place (extractRelc bytes opNum size opcodeId) := by
  dsimp only [extractRelc]
  infer_instance

instance (dt : DecodeType) (opNum : Fin 4) (effOpSz effAdrSz : DecodeType) :
    Stays place (extractMoffsFull bytes dt opNum effOpSz effAdrSz) := by
  dsimp only [extractMoffsFull]
  infer_instance

/-- The byte before `code`, once `code` has gone on. -/
instance lastByte_stays [passed : NeZero place.low] : Stays place (lastByte bytes) := by
  refine ⟨.reads fun s here => ?_⟩
  have positive := Nat.pos_of_ne_zero passed.out
  have low := here.low
  cases at' : s.code with
  | zero => omega
  | succ code =>
    have within : code < bytes.length := by
      have := here.count
      have := here.left
      have := place.within
      omega
    have read : byteAt bytes code = .ok bytes[code] := by rw [byteAt, List.getElem?_eq_getElem within]
    exact .bind (.lift fun _ after => .inl ⟨_, read, after⟩) fun _ => .returns fun _ => id

instance (opNum : Fin 4) : Follows track (nextOperand opNum) := by
  unfold nextOperand
  split <;> infer_instance

instance [NeZero place.low] (opNum : Fin 4) : Stays place (extractIbRb bytes opNum) := by
  dsimp only [extractIbRb]
  infer_instance

instance [NeZero place.low] (opNum : Fin 4) (effOpSz : DecodeType) (instFlags : IFlags) :
    Stays place (extractIbRFull bytes opNum effOpSz instFlags) := by
  cases effOpSz <;> dsimp only [extractIbRFull] <;> infer_instance

instance (effOpSz : DecodeType) (instFlags : IFlags) :
    Follows track (stringSize effOpSz instFlags) := by
  cases effOpSz <;> dsimp only [stringSize] <;> infer_instance

instance (dt : DecodeType) (opNum : Fin 4) (effOpSz effAdrSz : DecodeType) (instFlags : IFlags) :
    Follows track (extractRegiEsi dt opNum effOpSz effAdrSz instFlags) := by
  unfold extractRegiEsi
  infer_instance

instance (dt : DecodeType) (opNum : Fin 4) (effOpSz effAdrSz : DecodeType) (instFlags : IFlags) :
    Follows track (extractRegiEdi dt opNum effOpSz effAdrSz instFlags) := by
  dsimp only [extractRegiEdi]
  infer_instance

instance (dt : DecodeType) (opNum : Fin 4) (effAdrSz : DecodeType) :
    Follows track (extractRegiEbxal dt opNum effAdrSz) := by
  dsimp only [extractRegiEbxal]
  infer_instance

instance (opNum : Fin 4) (effAdrSz : DecodeType) : Follows track (extractRegiEax opNum effAdrSz) := by
  dsimp only [extractRegiEax]
  infer_instance

instance (opNum : Fin 4) (reg : ℕ) : Follows track (setYxmm opNum reg) := by
  dsimp only [setYxmm]
  infer_instance

/-- An immediate byte with a register: `code` goes on behind it once the operand is set. -/
instance claimRegister_stays (dt : DecodeType) (act : ℕ → DecodeM Unit)
    [∀ (place : Place bytes) (reg : ℕ), Stays place (act reg)] :
    Stays place (claimRegister bytes dt >>= fun reg => act reg >>= fun _ => advance 1) := by
  have claimed : NeZero (place.claiming 1).claimed := ⟨Nat.succ_ne_zero _⟩
  have claims : Meets InBounds (Holds (At place)) (claimRegister bytes dt) fun _ =>
      Holds (At (place.claiming 1)) :=
    (claim_meets 1).bind fun _ => Keeps.meets.bind fun _ => .returns fun _ => id
  exact ⟨claims.bind fun _ => Keeps.meets.bind fun _ => advance_meets 1⟩

instance [NeZero place.low] (dt : DecodeType) (ii : InstInfo) (type : OpType) (opNum : Fin 4)
    (effOpSz effAdrSz : DecodeType) (lockable : Bool) (reg rm : ℕ) :
    Stays place (simpleOperand bytes dt ii type opNum effOpSz effAdrSz lockable reg rm) := by
  cases type <;> dsimp only [simpleOperand] <;> infer_instance

instance (opNum : Fin 4) : Follows track (markRegister opNum) := by
  dsimp only [markRegister]
  infer_instance

instance [NeZero place.low] (dt : DecodeType) (ii : InstInfo) (type : OpType)
    (opNum : Fin 4) (modrm : ℕ) (effOpSz effAdrSz : DecodeType) (lockable : Bool) :
    Stays place (operandsExtract bytes dt ii type opNum modrm effOpSz effAdrSz lockable) := by
  dsimp only [operandsExtract]
  split
  · infer_instance
  · refine .seq fun size => ?_
    split
    · infer_instance
    · refine .seq fun size => ?_
      split <;> infer_instance

/-! ### The search for the instruction -/

instance (index : ℕ) (node : InstNode) : Follows track (node.child index) := by
  unfold InstNode.child
  split
  · infer_instance
  · split <;> infer_instance

instance (node : Option InstNode) : Follows track (asInfo node) := by
  unfold asInfo
  split <;> infer_instance

instance (index : ℕ) (node : InstNode) : Follows track (node.infoChild index) := by
  unfold InstNode.infoChild
  infer_instance

instance (result : Option α) : Follows track (found result) := by
  unfold found
  split <;> infer_instance

instance (ii : InstInfo) : Follows track ii.extended := by
  unfold InstInfo.extended
  split <;> infer_instance

instance drop_follows (flags : IFlags) :
    Follows track (modifyPs fun ps => { ps with decodedPrefixes := ps.decodedPrefixes &&& flags }) :=
  follows_modifyPs fun _ => rfl

theorem prefixesIgnore_start (pi : PrefixIndexer) (ps : PrefixState) :
    (prefixesIgnore pi ps).start = ps.start := by
  unfold prefixesIgnore
  split <;> rfl

instance (pi : PrefixIndexer) : Follows track (modifyPs (prefixesIgnore pi)) :=
  follows_modifyPs (prefixesIgnore_start pi)

instance : Follows track (modifyPs prefixesIgnoreAll) :=
  follows_modifyPs fun ps => by simp [prefixesIgnoreAll, prefixesIgnore_start]

instance (node : InstNode) : Follows track (instLookupPrefixed node) := by
  have mandatory : Follows track (modifyPs fun ps => { ps with isOpSizeMandatory := true }) :=
    follows_modifyPs fun _ => rfl
  dsimp only [instLookupPrefixed]
  refine .seq fun s =>
    .branch (.seq fun ii => ?_) (.branch (.seq fun ii => .seq fun _ => .seq fun _ => ?_)
    (.branch (.seq fun ii => .seq fun _ => ?_) (.branch (.seq fun ii => .seq fun _ => ?_) ?_)))
  case refine_5 => infer_instance
  all_goals cases ii <;> infer_instance

instance (node : InstNode) (index : ℕ) : Follows track (vexChild node index) := by
  unfold vexChild
  infer_instance

instance (dt : DecodeType) (index : ℕ) (ii : InstInfo) :
    Follows track (instLookupSingle dt index ii) := by
  dsimp only [instLookupSingle]
  infer_instance

/-- The next byte is claimed in the place of the one before. -/
theorem nextByte [claimed : NeZero place.claimed] {rest : Unit → DecodeM α}
    (stays : ∀ u, Stays place (rest u)) :
    Stays place (advance 1 >>= fun _ => claim 1 >>= rest) := by
  obtain ⟨count, next⟩ := Nat.exists_eq_add_one_of_ne_zero claimed.out
  let earlier : Place bytes := { place with claimed := count }
  have before : earlier.claiming 1 = place := by
    rw [Place.claiming, ← next]
  have onward : Meets InBounds (Holds (At (earlier.claiming 1))) (advance 1) fun _ =>
      Holds (At earlier) :=
    advance_meets 1
  have again : Meets InBounds (Holds (At earlier)) (claim 1) fun _ =>
      Holds (At (earlier.claiming 1)) := claim_meets 1
  rw [before] at onward again
  exact ⟨onward.bind fun _ => again.bind fun _ => (stays ()).meets⟩

section Claimed
variable [NeZero place.claimed]

instance nextByte_stays {rest : Unit → DecodeM α} [stays : ∀ u, Stays place (rest u)] :
    Stays place (advance 1 >>= fun _ => claim 1 >>= rest) :=
  nextByte stays

instance instLookupFull_stays (node : InstNode) (escapes : Bool) (second : ℕ) :
    Stays place (instLookupFull bytes node escapes second) := by
  dsimp only [instLookupFull]
  refine .seq fun child => .seq fun child => .branch inferInstance ?_
  split
  · infer_instance
  · infer_instance
  · refine nextByte fun _ => .seq fun third => .seq fun child => ?_
    split
    · refine .seq fun child => ?_
      split <;> infer_instance
    · infer_instance
    · refine .seq fun child => .seq fun child => ?_
      split <;> infer_instance

instance instLookupDivided_stays (node : InstNode) (isWaitIncluded : Bool) (second : ℕ) :
    Stays place (instLookupDivided node isWaitIncluded second) := by
  unfold instLookupDivided
  refine .seq fun child => .seq fun child => ?_
  split <;> infer_instance

end Claimed

/-- The first byte of the opcode is claimed, and another one only in its place. -/
theorem instLookupTrie_meets (db : InstTables) (dt : DecodeType) :
    Meets InBounds (Holds (At place)) (instLookupTrie db bytes dt) fun _ =>
      Holds (At (place.claiming 1)) := by
  have claimed : NeZero (place.claiming 1).claimed := ⟨Nat.succ_ne_zero _⟩
  dsimp only [instLookupTrie]
  refine (claim_meets 1).bind fun _ => (?_ : Stays (place.claiming 1) _).meets
  refine .seq fun first => .branch (.seq fun _ => nextByte fun _ => .seq fun first => ?_) ?_
  all_goals
    refine .seq fun index => .seq fun child => .seq fun node => ?_
    split
    · infer_instance
    · refine nextByte fun _ => .seq fun second => ?_
      split <;> infer_instance

/-- The two bytes behind the first one of a VEX prefix are there. -/
def VexThere (place : Place bytes) (s : InstState) : Prop :=
  ∃ vexPos, s.ps.vexPos = some vexPos ∧ vexPos + 1 < place.finish

theorem readVex_meets {offset : ℕ} (near : offset ≤ 1) :
    Meets InBounds (fun s => Holds (At place) s ∧ VexThere place s) (readVex bytes offset)
      fun _ s => Holds (At place) s ∧ VexThere place s := by
  refine .reads fun s here => ?_
  obtain ⟨vexPos, known, inside⟩ := here.2
  rw [known]
  refine .lift fun _ after => .inl ?_
  have within : vexPos + offset < bytes.length := Nat.lt_of_lt_of_le (by omega) place.within
  exact ⟨bytes[vexPos + offset], by rw [byteAt, List.getElem?_eq_getElem within], after⟩

theorem vexFields_meets :
    Meets InBounds (fun s => Holds (At place) s ∧ VexThere place s) (vexFields bytes)
    fun _ => Holds (At place) := by
  dsimp only [vexFields]
  refine (readVex_meets (Nat.zero_le 1)).bind fun vex => .reads fun s _ =>
    .ite (fun _ => ?_) fun _ => ?_
  · exact .returns fun s here => here.1
  · exact (readVex_meets le_rfl).bind fun vex2 => .returns fun s here => here.1

theorem instVexLookup_meets (db : InstTables) :
    Meets InBounds (fun s => Holds (At place) s ∧ VexThere place s) (instVexLookup db bytes)
      fun _ => Holds (At (place.claiming 1)) := by
  have claimed : NeZero (place.claiming 1).claimed := ⟨Nat.succ_ne_zero _⟩
  dsimp only [instVexLookup]
  have numbered (v : ℕ) : Stays place (modifyPs fun ps => { ps with vexV := v }) :=
    follows_modifyPs fun _ => rfl
  refine .reads fun s _ => .guard (fun _ => .stop undecodable_inBounds) fun _ =>
    vexFields_meets.bind fun fields => ?_
  refine (numbered _).meets.bind fun _ => ?_
  split
  all_goals
    refine Keeps.meets.bind fun table => (claim_meets 1).bind fun _ =>
    (?_ : Stays (place.claiming 1) _).meets
    refine .seq fun byte => .seq fun child => .seq fun node => ?_
    split <;> infer_instance

/-- The bytes of VEX are there where the prefixes have one. -/
def VexKnown (place : Place bytes) (s : InstState) : Prop :=
  s.ps.decodedPrefixes.has instPreVex = true → VexThere place s

/-- **The search claims one byte**: that at which it ends, whatever the tables are. -/
theorem instLookup_meets (db : InstTables) (dt : DecodeType) :
    Meets InBounds (fun s => Holds (At place) s ∧ VexKnown place s) (instLookup db bytes dt)
      fun _ => Holds (At (place.claiming 1)) := by
  dsimp only [instLookup]
  intro s here
  rw [StateRuns.get_bind]
  by_cases vex : s.ps.decodedPrefixes.has instPreVex = true
  · rw [if_pos vex]
    exact (instVexLookup_meets db).bind (fun ii => Keeps.meets) s ⟨here.1, here.2 vex⟩
  · rw [if_neg vex]
    exact (instLookupTrie_meets db dt).bind (fun ii => Keeps.meets) s here.1

/-! ### One instruction -/

instance (vrex : IFlags) : Follows track (dropOpSize vrex) := by
  dsimp only [dropOpSize]
  infer_instance

instance readModrm_stays [NeZero place.claimed] (instFlags : IFlags) :
    Stays place (readModrm bytes instFlags) := by
  dsimp only [readModrm]
  infer_instance

instance [NeZero place.low] (dt : DecodeType) (ii : InstInfo) (modrm : ℕ)
    (effOpSz effAdrSz : DecodeType) :
    Stays place (extractOperands bytes dt ii modrm effOpSz effAdrSz) := by
  dsimp only [extractOperands]
  infer_instance

/-- A byte behind the operands is claimed, read and passed. -/
theorem nextClaimed {next : BitVec 8 → DecodeM α} (stays : ∀ byte, Stays place (next byte)) :
    Stays place (claim 1 >>= fun _ => readCode bytes >>= fun byte => advance 1 >>= fun _ => next byte) := by
  have claimed : NeZero (place.claiming 1).claimed := ⟨Nat.succ_ne_zero _⟩
  exact ⟨(claim_meets 1).bind fun _ => Keeps.meets.bind fun byte => (advance_meets 1).bind fun _ =>
    (stays byte).meets⟩

instance (instFlags : IFlags) : Stays place (readCmpType bytes instFlags) := by
  dsimp only [readCmpType]
  exact .branch (nextClaimed fun _ => inferInstance) inferInstance

instance (db : InstTables) : Stays place (instLookup3dnow db bytes) := by
  dsimp only [instLookup3dnow]
  refine ⟨fun s here => ?_⟩
  rw [StateRuns.get_bind]
  by_cases short : s.codeLen < 1
  · rw [if_pos short]
    exact .inr ⟨.undecodable, rfl, undecodable_inBounds⟩
  · rw [if_neg short]
    have within : s.code < bytes.length := by
      have := here.count
      have := place.within
      omega
    have read : readCode bytes s = .ok (bytes[s.code], s) := by
      rw [readCode, StateRuns.get_bind, byteAt, List.getElem?_eq_getElem within]
      rfl
    rw [StateRuns.bind_ok read]
    refine (Keeps.seq fun child => Keeps.seq fun node => ?_ : Stays place _).meets s here
    cases node with
    | info ii =>
      exact ⟨(claim_meets 1).bind fun _ => (advance_meets 1).bind fun _ => .returns fun _ => id⟩
    | list type children => infer_instance

instance (instFlags : IFlags) : Follows track (usePrefixFlags instFlags) := by
  dsimp only [usePrefixFlags]
  infer_instance

instance (offset : ℕ) (size : DecodeType) : Follows track (setSizeFlag offset size) := by
  unfold setSizeFlag
  infer_instance

instance (ii : InstInfo) (modrm cmpType : ℕ) : Follows track (opcode32 ii modrm cmpType) := by
  dsimp only [opcode32]
  infer_instance

instance (ii : InstInfo) (vrex : IFlags) : Follows track (opcode64 ii vrex) := by
  dsimp only [opcode64]
  infer_instance

instance (ii : InstInfo) (vrex : IFlags) (modrm cmpType : ℕ) (effOpSz effAdrSz : DecodeType) :
    Follows track (chooseOpcode ii vrex modrm cmpType effOpSz effAdrSz) := by
  cases effOpSz <;> cases effAdrSz <;> dsimp only [chooseOpcode] <;> infer_instance

instance (ii : InstInfo) (vrex : IFlags) (opcode : BitVec 16) :
    Follows track (vexOpcode ii vrex opcode) := by
  dsimp only [vexOpcode]
  infer_instance

instance : Follows track markBase := by
  dsimp only [markBase]
  infer_instance

theorem prefixesSetUnusedMask_start (ps : PrefixState) :
    (prefixesSetUnusedMask ps).start = ps.start := by
  have ignored (entries : List (IFlags × PrefixIndexer)) (diff : IFlags) (ps : PrefixState) :
      (entries.foldl (fun ps entry => if diff.has entry.1 then prefixesIgnore entry.2 ps else ps) ps).start =
        ps.start := by
    induction entries generalizing ps with
    | nil => rfl
    | cons entry entries ih =>
      rw [List.foldl_cons, ih]
      split
      · exact prefixesIgnore_start ..
      · rfl
  exact ignored _ _ _

instance (ii : InstInfo) (vrex : IFlags) (modrm cmpType : ℕ) (effOpSz effAdrSz : DecodeType) :
    Follows track (finishInst ii vrex modrm cmpType effOpSz effAdrSz) := by
  have marks : Follows track (modifyPs prefixesSetUnusedMask) :=
    follows_modifyPs prefixesSetUnusedMask_start
  dsimp only [finishInst]
  refine .seq fun _ => .seq fun opcode => .seq fun s => .branch ?_ ?_ <;> infer_instance

/-- What an instruction that was decoded takes: at least a byte, all of it there, and
with its prefixes no more than an instruction may have. -/
structure Ends (place : Place bytes) (size : ℕ) : Prop where
  positive : 0 < size
  inside : place.low + size ≤ place.finish
  short : place.low + size ≤ place.start + instMaximumSize

theorem closing_meets (whole : place.claimed = 0) (ordered : place.start ≤ place.low) (ii : InstInfo)
    (vrex : IFlags) (modrm : ℕ) (effOpSz effAdrSz : DecodeType) :
    Meets InBounds (Holds (At (place.behind 1))) (do
      let cmpType ← readCmpType bytes ii.flags
      if instMaximumSize < (← get).code - (← get).ps.start then undecodable
      finishInst ii vrex modrm cmpType effOpSz effAdrSz
      modify fun s => { s with di := { s.di with size := (s.code - place.low) % 256 } })
      fun _ s => Ends place s.di.size := by
  refine Keeps.meets.bind fun cmpType t here => ?_
  have count := here.count
  have left := here.left
  have low := here.low
  have start := here.start
  simp only [Place.behind, whole] at count low start
  rw [StateRuns.get_bind, StateRuns.get_bind]
  by_cases long : instMaximumSize < t.code - t.ps.start
  · rw [if_pos long]
    exact .inr ⟨.undecodable, rfl, undecodable_inBounds⟩
  · rw [if_neg long]
    have still : Follows (fun code _ _ => code = t.code)
        (finishInst ii vrex modrm cmpType effOpSz effAdrSz) :=
      inferInstance
    refine (still.meets.bind fun _ => .modified fun s same => ?_) t rfl
    simp only [instMaximumSize] at long
    have small : (s.code - place.low) % 256 = t.code - place.low := by
      rw [show s.code = t.code from same]
      exact Nat.mod_eq_of_lt (by omega)
    rw [small]
    constructor <;> simp only [instMaximumSize] <;> omega

/-- **An instruction is decoded within its code**, whatever the tables of instructions
hold. -/
theorem decodeKnown_meets (db : InstTables) (dt : DecodeType) (whole : place.claimed = 0)
    (ordered : place.start ≤ place.low) :
    Meets InBounds (fun s => (Holds (At place) s ∧ VexKnown place s) ∧ s.code = place.low)
      (decodeKnown db bytes dt)
      fun _ s => Ends place s.di.size := by
  have claimed : NeZero (place.claiming 1).claimed := ⟨Nat.succ_ne_zero _⟩
  have passed : NeZero (place.behind 1).low := ⟨Nat.succ_ne_zero _⟩
  dsimp only [decodeKnown]
  rintro s ⟨here, start⟩
  rw [StateRuns.get_bind, StateRuns.get_bind, start]
  refine ((instLookup_meets db dt).bind fun ii => Keeps.meets.bind fun _ => ?_) s here
  refine .guard (fun _ => .stop undecodable_inBounds) fun _ =>
    .guard (fun _ => .stop undecodable_inBounds) fun _ => ?_
  refine Keeps.meets.bind fun modrm => (advance_behind 1).bind fun _ => .reads fun t _ => ?_
  refine Keeps.meets.bind fun _ => Keeps.meets.bind fun _ => ?_
  refine .ite (fun _ => Keeps.meets.bind fun ii => ?_) fun _ => Keeps.meets.bind fun ii => ?_
  · exact closing_meets whole ordered ii _ modrm _ _
  · exact closing_meets whole ordered ii _ modrm _ _

end FsdFilter.DecodeSafety
