import FsdFilter.DistormOperands

/-! `decoder.c` and `distorm_decompose64`: one instruction after another, and what could
not be decoded byte by byte. -/
namespace FsdFilter.Distorm
open MountLayout (DecodeResult)

/-- `decode_get_effective_addr_size`. -/
def decodeGetEffectiveAddrSize (dt : DecodeType) (decodedPrefixes : IFlags) : DecodeType :=
  if decodedPrefixes.has instPreAddrSize then
    match dt with
    | .decode16Bits => .decode32Bits
    | .decode32Bits => .decode16Bits
    | .decode64Bits => .decode32Bits
  else dt

/-- `decode_get_effective_op_size`. -/
def decodeGetEffectiveOpSize (dt : DecodeType) (decodedPrefixes rex instFlags : IFlags) : DecodeType :=
  if decodedPrefixes.has instPreOpSize then
    match dt with
    | .decode16Bits => .decode32Bits
    | .decode32Bits => .decode16Bits
    | .decode64Bits => .decode16Bits
  else if dt = .decode64Bits then
    if isPromoted instFlags ∨ decodedPrefixes.has instPreRex ∧ rex.has prefixExW then .decode64Bits
    else .decode32Bits
  else dt

/-! ### One instruction -/

/-- A REX.W has precedence over an operand size that is not mandatory. -/
def dropOpSize (vrex : IFlags) : DecodeM Unit := do
  let ps := (← get).ps
  if ps.prefixExtType = .rex ∧ ps.decodedPrefixes.has instPreOpSize ∧ ¬ps.isOpSizeMandatory ∧
    vrex.has prefixExW then
    modifyPs fun ps => { ps with decodedPrefixes := ps.decodedPrefixes &&& ~~~instPreOpSize }
    modifyPs (prefixesIgnore .opSize)

/-- The `ModR/M` byte of an instruction that has one; `code` ends at the last byte read. -/
def readModrm (bytes : List (BitVec 8)) (instFlags : IFlags) : DecodeM ℕ := do
  if instFlags.has instModrmRequired then
    if instFlags.lacks instModrmIncluded then
      advance 1
      claim 1
    let modrm := (← readCode bytes).toNat
    if instFlags.has instForceReg0 ∧ modrm / 8 % 8 ≠ 0 then undecodable
    if instFlags.has instModrr ∧ modrm < instDividedModrm then undecodable
    pure modrm
  else pure 0

/-- The operands of an instruction, up to the first that it does not have. -/
def extractOperands (bytes : List (BitVec 8)) (dt : DecodeType) (ii : InstInfo) (modrm : ℕ)
    (effOpSz effAdrSz : DecodeType) : DecodeM Unit := do
  let extract (type : OpType) (opNum : Fin 4) : DecodeM Unit :=
    operandsExtract bytes dt ii type opNum modrm effOpSz effAdrSz (opNum = 0)
  if ii.d ≠ .none then
    extract ii.d 0
    if ii.s ≠ .none then
      extract ii.s 1
      if ii.flags.has instUseOp3 then
        extract (← ii.extended).op3 2
        if ii.flags.has instUseOp4 then extract (← ii.extended).op4 3

/-- The type of a comparison, in a byte behind the operands. -/
def readCmpType (bytes : List (BitVec 8)) (instFlags : IFlags) : DecodeM ℕ := do
  if instFlags.has instPseudoOpcode then
    claim 1
    let cmpType := (← readCode bytes).toNat
    advance 1
    if 8 ≤ cmpType then undecodable
    pure cmpType
  else pure 0

/-- The LOCK, REPNZ or REP that the instruction takes. -/
def usePrefixFlags (instFlags : IFlags) : DecodeM Unit := do
  let s ← get
  if s.lockable ∧ instFlags.has instPreLock then
    usePrefixes instPreLock
    setDiFlag flagLock
  else if instFlags.has instPreRepnz ∧ s.ps.decodedPrefixes.has instPreRepnz then
    usePrefixes instPreRepnz
    setDiFlag flagRepnz
  else if instFlags.has instPreRep ∧ s.ps.decodedPrefixes.has instPreRep then
    usePrefixes instPreRep
    setDiFlag flagRep

/-- A size in two bits of the flags of the instruction. -/
def setSizeFlag (offset : ℕ) (size : DecodeType) : DecodeM Unit :=
  setDiFlag (match size with
    | .decode16Bits => 0
    | .decode32Bits => 1#16 <<< offset
    | .decode64Bits => 2#16 <<< offset)

/-- The opcode of an instruction in the mode of 32 bits. -/
def opcode32 (ii : InstInfo) (modrm cmpType : ℕ) : DecodeM (BitVec 16) := do
  if ii.flags.has instUseExmnemonic then
    usePrefixes instPreOpSize
    if ii.flags.has instMnemonicModrmBased then
      if instDividedModrm ≤ modrm then pure ii.opcodeId
      else pure (← ii.extended).opcodeId2
    else if ii.flags.has instPseudoOpcode then pure (ii.opcodeId + BitVec.ofNat 16 cmpType)
    else pure (← ii.extended).opcodeId2
  else pure ii.opcodeId

/-- The opcode of an instruction in the mode of 64 bits. -/
def opcode64 (ii : InstInfo) (vrex : IFlags) : DecodeM (BitVec 16) := do
  if ii.flags.has (instUseExmnemonic ||| instUseExmnemonic2) then
    if ii.flags.has instUseExmnemonic2 ∧ vrex.has prefixExW then
      usePrefixes instPreRex
      pure (← ii.extended).opcodeId3
    else pure (← ii.extended).opcodeId2
  else pure ii.opcodeId

/-- Which of its opcodes the instruction is, by the effective sizes. -/
def chooseOpcode (ii : InstInfo) (vrex : IFlags) (modrm cmpType : ℕ) (effOpSz effAdrSz : DecodeType) :
    DecodeM (BitVec 16) := do
  let jecxz := instPreAddrSize ||| instUseExmnemonic
  let loopxx := instPreAddrSize ||| instNative
  if ii.flags &&& jecxz = jecxz then
    usePrefixes instPreAddrSize
    match effAdrSz with
    | .decode16Bits => pure ii.opcodeId
    | .decode32Bits => pure (← ii.extended).opcodeId2
    | .decode64Bits => pure (← ii.extended).opcodeId3
  else if ii.flags &&& loopxx = loopxx then
    usePrefixes instPreAddrSize
    pure ii.opcodeId
  else
    setSizeFlag 8 effOpSz
    match effOpSz with
    | .decode16Bits =>
      if ii.flags.has instUseExmnemonic ∧ ¬ii.flags.has (inst32Bits ||| inst64Bits) then
        usePrefixes instPreOpSize
      pure ii.opcodeId
    | .decode32Bits => opcode32 ii modrm cmpType
    | .decode64Bits => opcode64 ii vrex

/-- The opcode of a VEX instruction that has another one for VEX.W or VEX.L. -/
def vexOpcode (ii : InstInfo) (vrex : IFlags) (opcode : BitVec 16) : DecodeM (BitVec 16) := do
  if ii.flags.has instPreVex then
    let ex ← ii.extended
    pure (if ex.flagsEx.has instMnemonicVexwBased ∧ vrex.has prefixExW ∨
        ex.flagsEx.has instMnemonicVexlBased ∧ vrex.has prefixExL then ex.opcodeId2
      else opcode)
  else pure opcode

/-- The mask of the base register, for `O_MEM`. -/
def markBase : DecodeM Unit := do
  let base := (← get).di.base
  if base ≠ rNone then
    let mask ← tableAt registerToRClass base
    modifyDi fun di => { di with usedRegistersMask := di.usedRegistersMask ||| mask }

/-- What `decode_inst` fills in once the operands are there. -/
def finishInst (ii : InstInfo) (vrex : IFlags) (modrm cmpType : ℕ) (effOpSz effAdrSz : DecodeType) :
    DecodeM Unit := do
  usePrefixFlags ii.flags
  let opcode ← chooseOpcode ii vrex modrm cmpType effOpSz effAdrSz
  if ii.flags.has instNative && (← get).ps.decodedPrefixes.has instPreOpSize then
    usePrefixes instPreOpSize
  let opcode ← vexOpcode ii vrex opcode
  modifyDi fun di => { di with opcode := opcode }
  setSizeFlag 10 effAdrSz
  if ii.flags.has instDstWr then setDiFlag flagDstWr
  modifyPs prefixesSetUnusedMask
  let ps := (← get).ps
  modifyDi fun di => { di with
    unusedPrefixesMask := ps.unusedPrefixesMask, meta' := ii.meta'
    segment := if di.segment = 0 then BitVec.ofNat 8 rNone else di.segment }
  markBase

/-- `decode_inst`, up to where an instruction is dropped. -/
def decodeKnown (db : InstTables) (bytes : List (BitVec 8)) (dt : DecodeType) : DecodeM Unit := do
  let startCode := (← get).code
  let vrex := (← get).ps.vrex
  let ii ← instLookup db bytes dt
  dropOpSize vrex
  if dt = .decode64Bits ∧ ii.flags.has instInvalid64Bits then undecodable
  if dt ≠ .decode64Bits ∧ ii.flags.has inst64BitsFetch then undecodable
  let modrm ← readModrm bytes ii.flags
  advance 1
  let decodedPrefixes := (← get).ps.decodedPrefixes
  let effOpSz := decodeGetEffectiveOpSize dt decodedPrefixes vrex ii.flags
  let effAdrSz := decodeGetEffectiveAddrSize dt decodedPrefixes
  modifyDi fun _ => { DInst.zero with base := rNone }
  extractOperands bytes dt ii modrm effOpSz effAdrSz
  let ii ← if ii.flags.has inst3dnowFetch then instLookup3dnow db bytes else pure ii
  let cmpType ← readCmpType bytes ii.flags
  if instMaximumSize < (← get).code - (← get).ps.start then undecodable
  finishInst ii vrex modrm cmpType effOpSz effAdrSz
  modify fun s => { s with di := { s.di with size := (s.code - startCode) % 256 } }

/-- `I_WAIT`, in the integer set. -/
def waitInst : DInst := { DInst.zero with base := rNone, size := 1, opcode := 987, meta' := 1#8 <<< 3 }

/-- `decode_inst`; an instruction that is dropped has the size of one byte. -/
def decodeInst (db : InstTables) (bytes : List (BitVec 8)) (dt : DecodeType) (code : ℕ) (codeLen : ℤ)
    (ps : PrefixState) : Except Fault (DecodeResult × DInst) :=
  match decodeKnown db bytes dt ⟨code, codeLen, ps, .zero, false⟩ with
  | .ok ((), s) => .ok (.success, s.di)
  | .error (.fault fault) => .error fault
  | .error .undecodable =>
    match bytes[code]? with
    | none => .error .overread
    | some first =>
      if first.toNat = instWaitIndex then .ok (.success, waitInst)
      else .ok (.inputErr, { DInst.zero with base := rNone, size := 1 })

/-! ### A piece of code -/

/-- `features` of `_CodeInfo`. -/
abbrev Features : Type := BitVec 32

def dfMaximumAddr16 : Features := instFlag 0
def dfMaximumAddr32 : Features := instFlag 1
def dfReturnFcOnly : Features := instFlag 2

/-- What `DF_STOP_ON_...` asks to stop at, by the flow control of the instruction. -/
def stopFeatures : List (Features × BitVec 8) :=
  [(instFlag 3, 1), (instFlag 4, 2), (instFlag 5, 3), (instFlag 6, 4), (instFlag 7, 5),
    (instFlag 8, 6), (instFlag 9, 7)]

/-- Whether the decoder was asked to stop at an instruction. -/
def stopsAt (features : Features) (meta' : BitVec 8) : Bool :=
  stopFeatures.any fun entry => IFlags.has features entry.1 && metaGetFc meta' = entry.2

/-- `addrMask`. -/
def addrMask (features : Features) : BitVec 64 :=
  if IFlags.has features dfMaximumAddr32 then 0xffffffff#64
  else if IFlags.has features dfMaximumAddr16 then 0xffff#64
  else BitVec.allOnes 64

/-- `_CodeInfo` as it is passed in; the code is `codeLen` bytes of a buffer. -/
structure CodeInfo where
  codeOffset : BitVec 64
  code : List (BitVec 8)
  codeLen : ℤ
  dt : DecodeType
  features : Features

/-- What `decode_internal` has found so far. -/
structure Results where
  result : List DInst
  usedInstructionsCount : ℕ
  nextOffset : BitVec 64

/-- An entry for a byte that was dropped. -/
def droppedByte (byte : BitVec 8) (addr : BitVec 64) : DInst :=
  { DInst.zero with flags := BitVec.allOnes 16, imm := byte.setWidth 64, size := 1, addr := addr }

/-- Writes the next entry. -/
def writeEntry (maxResultCount : ℕ) (result : List DInst) (entry : DInst) : Except Fault (List DInst) :=
  if result.length < maxResultCount then .ok (result ++ [entry]) else .error .overrun

/-- The loops over `count` bytes from `p` on that are dropped. -/
def dropBytes (bytes : List (BitVec 8)) (maxResultCount : ℕ) (mask : BitVec 64) :
    ℕ → ℕ → BitVec 64 → List DInst → Except Fault (List DInst)
  | 0, _, _, result => .ok result
  | count + 1, p, startInstOffset, result =>
    match bytes[p]? with
    | none => .error .overread
    | some byte => do
      let result ← writeEntry maxResultCount result (droppedByte byte (startInstOffset &&& mask))
      dropBytes bytes maxResultCount mask count (p + 1) (startInstOffset + 1) result

/-- What the prefixes are in 64 bits: a REX must be the last one, and the segments are ignored. -/
def adjustPrefixes (dt : DecodeType) (code : ℕ) (ps : PrefixState) : PrefixState :=
  if dt = .decode64Bits then
    let ps :=
      if ps.decodedPrefixes.has instPreRex ∧ ps.rexPos.map (· + 1) ≠ some code then
        prefixesIgnore .rex { ps with
          decodedPrefixes := ps.decodedPrefixes &&& ~~~instPreRex, prefixExtType := .none }
      else ps
    if ps.decodedPrefixes.has instPreSegovrdMask32 then
      prefixesIgnore .seg { ps with decodedPrefixes := ps.decodedPrefixes &&& ~~~instPreSegovrdMask32 }
    else ps
  else ps

/-- The prefixes before an instruction. -/
def readPrefixes (bytes : List (BitVec 8)) (dt : DecodeType) (code : ℕ) (codeLen : ℤ) :
    Except Fault PrefixState :=
  match bytes[code]? with
  | none => .error .overread
  | some first =>
    if prefixesIsValid first dt then
      match prefixesDecode bytes dt code codeLen (.cleared code) with
      | .ok ps => .ok ps
      | .error (.fault fault) => .error fault
      | .error .undecodable => .error .outOfFuel
    else .ok (.cleared code)

/-- How the loop of `decode_internal` goes on: with the code and the results, or with what
it returns. -/
inductive Flow where
  | next (code : ℕ) (codeLen : ℤ) (codeOffset : BitVec 64) (results : Results)
  | returns (res : DecodeResult) (results : Results)

/-- Code that ends in prefixes, or is too long for them: they are dropped. -/
def dropPrefixes (ci : CodeInfo) (maxResultCount : ℕ) (code prefixSize : ℕ) (codeLen : ℤ)
    (codeOffset : BitVec 64) (results : Results) : Except Fault Flow := do
  if IFlags.lacks ci.features dfReturnFcOnly then
    if maxResultCount < results.result.length + prefixSize then return .returns .memoryErr results
    let result ← dropBytes ci.code maxResultCount (addrMask ci.features) prefixSize code codeOffset
      results.result
    let results := { results with result := result, usedInstructionsCount := result.length }
    if codeLen = 0 then return .returns .success results
    return .next (code + prefixSize) codeLen (codeOffset + BitVec.ofNat 64 prefixSize) results
  if codeLen = 0 then return .returns .success results
  return .next (code + prefixSize) codeLen (codeOffset + BitVec.ofNat 64 prefixSize) results

/-- The instruction behind its prefixes, in `decode_internal`. -/
def decodeNext (db : InstTables) (ci : CodeInfo) (maxResultCount : ℕ) (start prefixSize : ℕ)
    (ps : PrefixState) (codeLen : ℤ) (startInstOffset : BitVec 64) (results : Results) :
    Except Fault Flow := do
  let code := start + prefixSize
  let fcOnly := IFlags.has ci.features dfReturnFcOnly
  if maxResultCount < results.result.length + 1 then return .returns .memoryErr results
  let (res, di) ← decodeInst db ci.code ci.dt code codeLen (adjustPrefixes ci.dt code ps)
  let res := if fcOnly ∧ metaGetFc di.meta' = 0 then .filtered else res
  let size := di.size
  let di := { di with
    addr := startInstOffset &&& addrMask ci.features, disp := di.disp &&& addrMask ci.features
    size := (size + prefixSize) % 256 }
  let written ← writeEntry maxResultCount results.result di
  let codeOffset := startInstOffset + BitVec.ofNat 64 (prefixSize + size)
  let result ←
    if res = .inputErr ∧ ¬fcOnly then
      if maxResultCount < results.result.length + prefixSize + 1 then return .returns .memoryErr results
      dropBytes ci.code maxResultCount (addrMask ci.features) (prefixSize + 1) start startInstOffset
        results.result
    else pure (if res = .filtered then results.result else written)
  let results : Results := ⟨result, result.length, codeOffset⟩
  if res = .success ∧ stopsAt ci.features di.meta' then return .returns .success results
  return .next (code + size) (codeLen - size) codeOffset results

/-- The loop of `decode_internal`. -/
def decodeLoop (db : InstTables) (ci : CodeInfo) (maxResultCount : ℕ) :
    ℕ → ℕ → ℤ → BitVec 64 → Results → Except Fault (DecodeResult × Results)
  | 0, _, codeLen, _, results => if 0 < codeLen then .error .outOfFuel else .ok (.success, results)
  | fuel + 1, code, codeLen, codeOffset, results =>
    if 0 < codeLen then do
      let ps ← readPrefixes ci.code ci.dt code codeLen
      let prefixSize := ps.last - code
      let flow ←
        if codeLen - prefixSize = 0 ∨ prefixSize = instMaximumSize then
          dropPrefixes ci maxResultCount code prefixSize (codeLen - prefixSize) codeOffset results
        else
          decodeNext db ci maxResultCount code prefixSize ps (codeLen - prefixSize) codeOffset results
      match flow with
      | .next code codeLen codeOffset results =>
        decodeLoop db ci maxResultCount fuel code codeLen codeOffset results
      | .returns res results => .ok (res, results)
    else .ok (.success, results)

/-- `decode_internal`. -/
def decodeInternal (db : InstTables) (ci : CodeInfo) (maxResultCount : ℕ) :
    Except Fault (DecodeResult × Results) :=
  decodeLoop db ci maxResultCount ci.codeLen.toNat 0 ci.codeLen ci.codeOffset ⟨[], 0, ci.codeOffset⟩

/-- `distorm_decompose64`, with none of its pointers null. -/
def distormDecompose64 (db : InstTables) (ci : CodeInfo) (maxInstructions : ℕ) :
    Except Fault (DecodeResult × Results) :=
  if ci.codeLen < 0 ∨ IFlags.has ci.features dfMaximumAddr16 ∧
    IFlags.has ci.features dfMaximumAddr32 then
    .ok (.inputErr, ⟨[], 0, ci.codeOffset⟩)
  else if ci.codeLen = 0 then .ok (.success, ⟨[], 0, ci.codeOffset⟩)
  else decodeInternal db ci maxInstructions

end FsdFilter.Distorm
