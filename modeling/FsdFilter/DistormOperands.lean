import FsdFilter.DistormInstructions

/-! `operands.c`: the operands of an instruction, as far as they are in its code. -/
namespace FsdFilter.Distorm

def regs64Base : ℕ := 0
def regs32Base : ℕ := 16
def regs16Base : ℕ := 32
def regs8Base : ℕ := 48
def regs8RexBase : ℕ := 64
def sregsBase : ℕ := 68
def rRip : ℕ := 74
def fpuregsBase : ℕ := 75
def mmxregsBase : ℕ := 83
def sseregsBase : ℕ := 91
def avxregsBase : ℕ := 107
def cregsBase : ℕ := 123
def dregsBase : ℕ := 132

/-- The classes of the eight general purpose registers that have one. -/
def gprClasses : List (BitVec 16) := [0x1, 0x2, 0x4, 0x8, 0x10, 0x20, 0x40, 0x80]

/-- `_REGISTERTORCLASS`, by `_RegisterType`. -/
def registerToRClass : List (BitVec 16) :=
  gprClasses ++ List.replicate 8 0 ++ gprClasses ++ List.replicate 8 0 ++ gprClasses ++
    List.replicate 8 0 ++
    [0x1, 0x2, 0x4, 0x8, 0x1, 0x2, 0x4, 0x8] ++ List.replicate 8 0 ++ [0x10, 0x20, 0x40, 0x80] ++
    List.replicate 7 0 ++ List.replicate 8 0x100 ++ List.replicate 8 0x200 ++ List.replicate 16 0x400 ++
    List.replicate 16 0x800 ++ [0x1000, 0, 0x1000, 0x1000, 0x1000, 0, 0, 0, 0x1000] ++
    [0x2000, 0x2000, 0x2000, 0x2000, 0, 0, 0x2000, 0x2000]

/-- An element of a table. -/
def tableAt {α : Type} (table : List α) (index : ℕ) : DecodeM α :=
  match table[index]? with
  | some entry => pure entry
  | none => fault .badRegister

/-- `operands_fix_8bit_rex_base`. -/
def operandsFix8bitRexBase (reg : ℕ) : ℕ :=
  if 4 ≤ reg ∧ reg < 8 then reg + regs8RexBase - 4 else reg + regs8Base

/-- `operands_set_ts`. -/
def operandsSetTs (opNum : Fin 4) (type : OperandType) (size : ℕ) : DecodeM Unit :=
  modifyOp opNum fun op => { op with type := type, size := size }

/-- `operands_set_tsi`. -/
def operandsSetTsi (opNum : Fin 4) (type : OperandType) (size index : ℕ) : DecodeM Unit :=
  modifyOp opNum fun _ => ⟨type, index % 256, size⟩

/-- A number in the code, the lowest byte first. -/
def littleEndian (bytes : List (BitVec 8)) : ℕ → ℕ → Except Stop ℕ
  | _, 0 => pure 0
  | code, size + 1 => do
    let low ← byteAt bytes code
    let high ← littleEndian bytes (code + 1) size
    pure (low.toNat + 256 * high)

/-- `read_stream_safe_uint`. -/
def readStreamSafeUint (bytes : List (BitVec 8)) (size : ℕ) : DecodeM ℕ := do
  claim size
  let result ← littleEndian bytes (← get).code size
  advance size
  pure result

/-- `read_stream_safe_sint`. -/
def readStreamSafeSint (bytes : List (BitVec 8)) (size : ℕ) : DecodeM (BitVec 64) := do
  let result ← readStreamSafeUint bytes size
  pure ((BitVec.ofNat (8 * size) result).signExtend 64)

/-- Stores the low bytes of a number over those of another one, at an offset in bits. -/
def storeLow (old : BitVec 64) (offset bits value : ℕ) : BitVec 64 :=
  let mask : BitVec 64 := BitVec.ofNat 64 (2 ^ bits - 1) <<< offset
  (old &&& ~~~mask) ||| (BitVec.ofNat 64 value <<< offset &&& mask)

/-- Reads a number into the union `imm`. -/
def readImm (bytes : List (BitVec 8)) (offset size : ℕ) : DecodeM Unit := do
  let value ← readStreamSafeUint bytes size
  modifyDi fun di => { di with imm := storeLow di.imm offset (8 * size) value }

/-- Reads a signed number into `imm.sqword`. -/
def readSignedImm (bytes : List (BitVec 8)) (size : ℕ) : DecodeM Unit := do
  let value ← readStreamSafeSint bytes size
  modifyDi fun di => { di with imm := value }

/-- Reads a signed displacement. -/
def readDisp (bytes : List (BitVec 8)) (size : ℕ) : DecodeM Unit := do
  modifyDi fun di => { di with dispSize := 8 * size }
  let value ← readStreamSafeSint bytes size
  modifyDi fun di => { di with disp := value }

/-- Reads an absolute address. -/
def readOffset (bytes : List (BitVec 8)) (size : ℕ) : DecodeM Unit := do
  modifyDi fun di => { di with dispSize := 8 * size }
  let value ← readStreamSafeUint bytes size
  modifyDi fun di => { di with disp := storeLow di.disp 0 (8 * size) value }

/-- `di->flags |= flag`. -/
def setDiFlag (flag : BitVec 16) : DecodeM Unit :=
  modifyDi fun di => { di with flags := di.flags ||| flag }

def flagLock : BitVec 16 := 0x1
def flagRepnz : BitVec 16 := 0x2
def flagRep : BitVec 16 := 0x4
def flagHintTaken : BitVec 16 := 0x8
def flagHintNotTaken : BitVec 16 := 0x10
def flagImmSigned : BitVec 16 := 0x20
def flagDstWr : BitVec 16 := 0x40
def flagRipRelative : BitVec 16 := 0x80

/-- A register number with a bit of `vrex` as its highest one. -/
def extendVrex (flag vrex : IFlags) (reg : ℕ) : ℕ := if vrex.has flag then reg + exGprBase else reg

/-- The same where that is a use of the REX prefix. -/
def extendRex (flag : IFlags) (reg : ℕ) : DecodeM ℕ := do
  let vrex := (← get).ps.vrex
  if vrex.has flag then usePrefixes instPreRex
  pure (extendVrex flag vrex reg)

/-- Only `INST_64BITS` is set: the instruction is 64 bits without a REX. -/
def isPromoted (instFlags : IFlags) : Bool := instFlags &&& (inst64Bits ||| instPreRex) = inst64Bits

/-- The instruction is 64 bits if it has a REX. -/
def needsRex (instFlags : IFlags) : Bool :=
  instFlags &&& (inst64Bits ||| instPreRex) = inst64Bits ||| instPreRex

/-- The operand may be locked; only the first one tells. -/
def noteLock (first : Bool) : DecodeM Unit := do
  if first && (← get).ps.decodedPrefixes.has instPreLock then
    modify fun s => { s with lockable := true }

/-- `operands_extract_sib`. -/
def operandsExtractSib (opNum : Fin 4) (effAdrSz : DecodeType) (sib mod : ℕ) : DecodeM Unit := do
  let vrex := (← get).ps.vrex
  let scale := sib / 64 % 4
  let base := sib % 8
  let regsBase := if effAdrSz = .decode64Bits then regs64Base else regs32Base
  let index ← extendRex prefixExX (sib / 8 % 8)
  let setBase (register : ℕ) : DecodeM Unit :=
    if index = 4 then modifyOp opNum fun op => { op with index := register % 256 }
    else modifyDi fun di => { di with base := register % 256 }
  modifyOp opNum fun op => { op with type := if index = 4 then .smem else .mem }
  if base ≠ 5 ∨ mod ≠ 0 then
    if vrex.has prefixExB then usePrefixes instPreRex
    setBase (regsBase + extendVrex prefixExB vrex base)
  else if index = 4 then modifyOp opNum fun op => { op with type := .disp }
  if index ≠ 4 then
    modifyOp opNum fun op => { op with index := (regsBase + index) % 256 }
    modifyDi fun di => { di with scale := if scale = 0 then 0 else 2 ^ scale }

/-- A `ModR/M` with `mod=3` in `operands_extract_modrm`: the size and the register. -/
def modrmRegister (dt : DecodeType) (type : OpType) (effOpSz : DecodeType) (instFlags : IFlags)
    (size rm : ℕ) :
    DecodeM (ℕ × ℕ) := do
  let ps := (← get).ps
  match type with
  | .rfullM16 | .rmFull =>
    match effOpSz with
    | .decode16Bits =>
      usePrefixes instPreOpSize
      pure (16, (← extendRex prefixExB rm) + regs16Base)
    | .decode32Bits =>
      usePrefixes instPreOpSize
      pure (32, (← extendRex prefixExB rm) + regs32Base)
    | .decode64Bits =>
      if type = .rfullM16 then usePrefixes instPreRex
      if instFlags.has instPreRex then usePrefixes instPreRex
      pure (64, (← extendRex prefixExB rm) + regs64Base)
  | .r32_64M8 | .r32_64M16 | .rm32_64 =>
    let rm ← extendRex prefixExB rm
    if dt = .decode64Bits ∧ isPromoted instFlags then pure (64, rm + regs64Base)
    else if ps.vrex.has prefixExW then
      usePrefixes instPreRex
      pure (64, rm + regs64Base)
    else pure (32, rm + regs32Base)
  | .rm16_32 =>
    let rm ← extendRex prefixExB rm
    if ps.decodedPrefixes.has instPreOpSize then
      usePrefixes instPreOpSize
      pure (16, rm + regs16Base)
    else pure (32, rm + regs32Base)
  | .rm16 => pure (size, (← extendRex prefixExB rm) + regs16Base)
  | .rm8 =>
    if ps.prefixExtType = .rex then
      usePrefixes instPreRex
      pure (size, operandsFix8bitRexBase (extendVrex prefixExB ps.vrex rm))
    else pure (size, rm + regs8Base)
  | .mm32 | .mm64 => pure (64, rm + mmxregsBase)
  | .xmm16 | .xmm32 | .xmm64 | .xmm128 => pure (128, (← extendRex prefixExB rm) + sseregsBase)
  | .rm32 | .r32M8 | .r32M16 => pure (32, (← extendRex prefixExB rm) + regs32Base)
  | .ymm256 => pure (size, extendVrex prefixExB ps.vrex rm + avxregsBase)
  | .yxmm64_256 | .yxmm128_256 =>
    let rm := extendVrex prefixExB ps.vrex rm
    pure (if ps.vrex.has prefixExL then (256, rm + avxregsBase) else (128, rm + sseregsBase))
  | .wxmm32_64 | .lxmm64_128 => pure (128, extendVrex prefixExB ps.vrex rm + sseregsBase)
  | .wrm32_64 | .reg32_64M8 | .reg32_64M16 =>
    let rm := extendVrex prefixExB ps.vrex rm
    pure (if ps.vrex.has prefixExW then (64, rm + regs64Base) else (32, rm + regs32Base))
  | _ => undecodable

/-- `MODS` and `MODS2`: the registers of a 16 bits indirection. -/
def mods : List ℕ := [35, 35, 37, 37, 38, 39, 37, 35]
def mods2 : List ℕ := [38, 39, 38, 39]

/-- A memory indirection of 16 bits in `operands_extract_modrm`. -/
def modrmMemory16 (bytes : List (BitVec 8)) (dt : DecodeType) (opNum : Fin 4) (mod rm : ℕ) :
    DecodeM Unit := do
  if mod = 0 ∧ rm = 6 then
    modifyOp opNum fun op => { op with type := .disp }
    readDisp bytes 2
  else
    let register ← tableAt mods rm
    if rm < 4 then
      let index ← tableAt mods2 rm
      modifyOp opNum fun op => { op with type := .mem, index := index }
      modifyDi fun di => { di with base := register }
    else modifyOp opNum fun op => { op with type := .smem, index := register }
    if mod = 1 then readDisp bytes 1
    else if mod = 2 then readDisp bytes 2
  prefixesUseSegment (if rm = 2 ∨ rm = 3 ∨ rm = 6 ∧ mod ≠ 0 then instPreSs else instPreDs) dt

/-- A memory indirection of 32 or 64 bits in `operands_extract_modrm`. -/
def modrmMemory (bytes : List (BitVec 8)) (dt : DecodeType) (opNum : Fin 4) (effAdrSz : DecodeType)
    (mod rm : ℕ) :
    DecodeM Unit := do
  if mod = 0 ∧ rm = 5 then
    readDisp bytes 4
    if dt = .decode64Bits then
      modifyOp opNum fun op => { op with type := .smem, index := rRip }
      setDiFlag flagRipRelative
    else modifyOp opNum fun op => { op with type := .disp }
  else
    let sib ← if rm = 4 then do
        let sib ← readStreamSafeUint bytes 1
        operandsExtractSib opNum effAdrSz sib mod
        pure sib
      else do
        let rm ← extendRex prefixExB rm
        let regsBase := if effAdrSz = .decode64Bits then regs64Base else regs32Base
        modifyOp opNum fun op => { op with type := .smem, index := (regsBase + rm) % 256 }
        pure 0
    if mod = 1 then readDisp bytes 1
    else if mod = 2 ∨ sib % 8 = 5 then readDisp bytes 4
  let di := (← get).di
  let base := if di.base ≠ rNone then di.base else if 2 ≤ di.scale then 0 else (di.ops opNum).index
  prefixesUseSegment (if base = 21 ∨ base = 20 then instPreSs else instPreDs) dt

/-- `operands_extract_modrm`. -/
def operandsExtractModrm (bytes : List (BitVec 8)) (dt : DecodeType) (type : OpType) (opNum : Fin 4)
    (effOpSz effAdrSz : DecodeType) (lockableInstruction : Bool) (mod rm : ℕ) (instFlags : IFlags) :
    DecodeM Unit := do
  if mod = 3 then
    modifyOp opNum fun op => { op with type := .reg }
    let (size, rm) ← modrmRegister dt type effOpSz instFlags ((← get).di.ops opNum).size rm
    modifyOp opNum fun op => { op with size := size, index := rm % 256 }
  else
    usePrefixes instPreAddrSize
    noteLock lockableInstruction
    if effAdrSz = .decode16Bits then modrmMemory16 bytes dt opNum mod rm
    else modrmMemory bytes dt opNum effAdrSz mod rm

/-- The size of an operand in memory that cannot be a register, in `operands_extract`. -/
def memorySize (dt : DecodeType) (effOpSz : DecodeType) (instFlags : IFlags)
    (lockableInstruction : Bool) :
    OpType → DecodeM (Option ℕ)
  | .mem64_128 => do
    noteLock lockableInstruction
    if effOpSz = .decode64Bits then
      usePrefixes instPreRex
      pure (some 128)
    else pure (some 64)
  | .mem32_64 => do
    if effOpSz = .decode64Bits then
      usePrefixes instPreRex
      pure (some 64)
    else pure (some 32)
  | .mem16Full =>
    match effOpSz with
    | .decode16Bits => do
      usePrefixes instPreOpSize
      pure (some 16)
    | .decode32Bits => do
      usePrefixes instPreOpSize
      pure (some 32)
    | .decode64Bits => do
      if needsRex instFlags then usePrefixes instPreRex
      pure (some 64)
  | .mem16_3264 => pure (some (if dt = .decode64Bits then 64 else 32))
  | .lmem128_256 => do pure (some (if (← get).ps.vrex.has prefixExL then 256 else 128))
  | .mem | .memOpt => pure (some 0)
  | .fpum16 => pure (some 16)
  | .mem32 | .fpum32 => pure (some 32)
  | .mem64 | .fpum64 => pure (some 64)
  | .fpum80 => pure (some 80)
  | .mem128 => pure (some 128)
  | _ => pure none

/-- The size of an operand in memory that can be a register as well. -/
def indirectionSize (effOpSz : DecodeType) (instFlags : IFlags) : OpType → DecodeM (Option ℕ)
  | .rmFull => do
    usePrefixes instPreOpSize
    match effOpSz with
    | .decode16Bits => pure (some 16)
    | .decode32Bits => pure (some 32)
    | .decode64Bits =>
      if ¬instFlags.has inst64Bits then usePrefixes instPreRex
      pure (some 64)
  | .rm32_64 => do
    if effOpSz = .decode64Bits then
      if needsRex instFlags then usePrefixes instPreRex
      pure (some 64)
    else pure (some 32)
  | .rm16_32 => do
    if (← get).ps.decodedPrefixes.has instPreOpSize then
      usePrefixes instPreOpSize
      pure (some 16)
    else pure (some 32)
  | .wxmm32_64 | .wrm32_64 => do pure (some (if (← get).ps.vrex.has prefixExW then 64 else 32))
  | .yxmm64_256 => do pure (some (if (← get).ps.vrex.has prefixExL then 256 else 64))
  | .yxmm128_256 => do pure (some (if (← get).ps.vrex.has prefixExL then 256 else 128))
  | .lxmm64_128 => do pure (some (if (← get).ps.vrex.has prefixExL then 128 else 64))
  | .rfullM16 => do
    usePrefixes instPreOpSize
    pure (some 16)
  | .rm8 | .r32M8 | .r32_64M8 | .reg32_64M8 => pure (some 8)
  | .rm16 | .xmm16 | .r32M16 | .r32_64M16 | .reg32_64M16 => pure (some 16)
  | .rm32 | .mm32 | .xmm32 => pure (some 32)
  | .mm64 | .xmm64 => pure (some 64)
  | .xmm128 => pure (some 128)
  | .ymm256 => pure (some 256)
  | _ => pure none

/-! ### Operands without a `ModR/M` -/

/-- `OT_IMM32`. -/
def extractImm32 (bytes : List (BitVec 8)) (dt : DecodeType) (opNum : Fin 4) : DecodeM Unit := do
  operandsSetTs opNum .imm 32
  if dt = .decode64Bits then
    setDiFlag flagImmSigned
    readSignedImm bytes 4
  else readImm bytes 0 4

/-- An immediate that is read as it stands. -/
def extractImm (bytes : List (BitVec 8)) (opNum : Fin 4) (type : OperandType) (offset size : ℕ) :
    DecodeM Unit := do
  operandsSetTs opNum type (8 * size)
  readImm bytes offset size

/-- `OT_IMM_FULL`. -/
def extractImmFull (bytes : List (BitVec 8)) (dt : DecodeType) (opNum : Fin 4) (effOpSz : DecodeType)
    (instFlags : IFlags) : DecodeM Unit := do
  if effOpSz = .decode16Bits then
    usePrefixes instPreOpSize
    extractImm bytes opNum .imm 0 2
  else if effOpSz = .decode64Bits ∧ needsRex instFlags then
    usePrefixes instPreRex
    extractImm bytes opNum .imm 0 8
  else
    usePrefixes instPreOpSize
    extractImm32 bytes dt opNum

/-- `OT_SEIMM8`. -/
def extractSeimm8 (bytes : List (BitVec 8)) (dt : DecodeType) (opNum : Fin 4) (instFlags : IFlags) :
    DecodeM Unit := do
  if instFlags.has instPreOpSize && (← get).ps.decodedPrefixes.has instPreOpSize then
    usePrefixes instPreOpSize
    operandsSetTs opNum .imm (if dt = .decode16Bits then 32 else 16)
  else operandsSetTs opNum .imm 8
  setDiFlag flagImmSigned
  readSignedImm bytes 1

/-- A register by the effective operand size; in 64 bits a REX must be there. -/
def extractRegFull (opNum : Fin 4) (effOpSz : DecodeType) (reg : ℕ) : DecodeM Unit := do
  let vrex := (← get).ps.vrex
  match effOpSz with
  | .decode16Bits =>
    usePrefixes instPreOpSize
    operandsSetTsi opNum .reg 16 (regs16Base + (← extendRex prefixExR reg))
  | .decode32Bits =>
    usePrefixes (if vrex.has prefixExR then instPreRex else instPreOpSize)
    operandsSetTsi opNum .reg 32 (regs32Base + extendVrex prefixExR vrex reg)
  | .decode64Bits =>
    usePrefixes instPreRex
    operandsSetTsi opNum .reg 64 (regs64Base + extendVrex prefixExR vrex reg)

/-- A register of 32 bits, or of 64 in a promoted instruction or with REX. -/
def extractReg32_64 (dt : DecodeType) (opNum : Fin 4) (instFlags : IFlags) (reg : ℕ) :
    DecodeM Unit := do
  let reg ← extendRex prefixExR reg
  if dt = .decode64Bits ∧ isPromoted instFlags then operandsSetTsi opNum .reg 64 (regs64Base + reg)
  else if (← get).ps.vrex.has prefixExW then
    usePrefixes instPreRex
    operandsSetTsi opNum .reg 64 (regs64Base + reg)
  else operandsSetTsi opNum .reg 32 (regs32Base + reg)

/-- `OT_CREG`. -/
def extractCreg (dt : DecodeType) (opNum : Fin 4) (reg : ℕ) : DecodeM Unit := do
  let ps := (← get).ps
  let reg ← if ps.vrex.has prefixExR then do
      usePrefixes instPreRex
      pure (reg + exGprBase)
    else if dt = .decode32Bits ∧ ps.decodedPrefixes.has instPreLock then do
      usePrefixes instPreLock
      pure (reg + exGprBase)
    else pure reg
  if 9 ≤ reg ∨ reg = 1 ∨ 5 ≤ reg ∧ reg ≤ 7 then undecodable
  operandsSetTsi opNum .reg (if dt = .decode64Bits then 64 else 32) (cregsBase + reg)

/-- `OT_DREG`. -/
def extractDreg (dt : DecodeType) (opNum : Fin 4) (reg : ℕ) : DecodeM Unit := do
  if reg = 4 ∨ reg = 5 ∨ (← get).ps.vrex.has prefixExR then undecodable
  operandsSetTsi opNum .reg (if dt = .decode64Bits then 64 else 32) (dregsBase + reg)

/-- `OT_SEG`: the register is in the flags of the instruction. -/
def extractSeg (opNum : Fin 4) (instFlags : IFlags) : DecodeM Unit := do
  operandsSetTs opNum .reg 16
  usePrefixes instPreOpSize
  match segmentRegisters.lookup (instFlags &&& instPreSegovrdMask) with
  | some register => modifyOp opNum fun op => { op with index := register }
  | none => pure ()

/-- `OT_ACC_FULL`, and `OT_ACC_FULL_NOT64` as well. -/
def extractAccFull (opNum : Fin 4) (effOpSz : DecodeType) (instFlags : IFlags) : DecodeM Unit := do
  match effOpSz with
  | .decode16Bits =>
    usePrefixes instPreOpSize
    operandsSetTsi opNum .reg 16 32
  | .decode32Bits =>
    usePrefixes instPreOpSize
    operandsSetTsi opNum .reg 32 16
  | .decode64Bits =>
    if instFlags.lacks inst64Bits then usePrefixes instPreRex
    operandsSetTsi opNum .reg 64 0

/-- `OT_PTR16_FULL`: the offset, and the segment behind it. -/
def extractPtr16Full (bytes : List (BitVec 8)) (opNum : Fin 4) (effOpSz : DecodeType) :
    DecodeM Unit := do
  let size := if effOpSz = .decode16Bits then 2 else 4
  usePrefixes instPreOpSize
  claim (size + 2)
  operandsSetTs opNum .ptr (8 * size)
  let code := (← get).code
  let off ← littleEndian bytes code size
  let seg ← littleEndian bytes (code + size) 2
  modifyDi fun di => { di with imm := storeLow (storeLow di.imm 32 32 off) 0 16 seg }
  advance (size + 2)

/-- `OT_RELCB` and `OT_RELC_FULL`; a segment override is a hint for a conditional jump. -/
def extractRelc (bytes : List (BitVec 8)) (opNum : Fin 4) (size : ℕ) (opcodeId : BitVec 16) :
    DecodeM Unit := do
  operandsSetTs opNum .pc (8 * size)
  readSignedImm bytes size
  if 24#16 ≤ opcodeId ∧ opcodeId ≤ 39#16 then
    let decodedPrefixes := (← get).ps.decodedPrefixes
    if decodedPrefixes.has instPreCs then
      usePrefixes instPreCs
      setDiFlag flagHintNotTaken
    else if decodedPrefixes.has instPreDs then
      usePrefixes instPreDs
      setDiFlag flagHintTaken

/-- `OT_MOFFS_FULL`, and `OT_MOFFS8` once the size is set. -/
def extractMoffsFull (bytes : List (BitVec 8)) (dt : DecodeType) (opNum : Fin 4)
    (effOpSz effAdrSz : DecodeType) :
    DecodeM Unit := do
  let sizeOf : DecodeType → ℕ
    | .decode16Bits => 16
    | .decode32Bits => 32
    | .decode64Bits => 64
  modifyOp opNum fun op =>
    { op with type := .disp, size := if op.size = 0 then sizeOf effOpSz else op.size }
  prefixesUseSegment instPreDs dt
  if effAdrSz ≠ .decode64Bits then usePrefixes instPreAddrSize
  readOffset bytes (sizeOf effAdrSz / 8)

/-- `*(ci->code-1)`. -/
def lastByte (bytes : List (BitVec 8)) : DecodeM ℕ := do
  match (← get).code with
  | 0 => fault .overread
  | code + 1 => do pure (← byteAt bytes code).toNat

/-- `op + 1`. -/
def nextOperand (opNum : Fin 4) : DecodeM (Fin 4) :=
  if within : opNum.val + 1 < 4 then pure ⟨opNum.val + 1, within⟩ else fault .badOperand

/-- `OT_IB_RB`: the register is in the last byte of the opcode. -/
def extractIbRb (bytes : List (BitVec 8)) (opNum : Fin 4) : DecodeM Unit := do
  let reg := (← lastByte bytes) % 8
  let ps := (← get).ps
  if ps.vrex.has prefixExB then
    usePrefixes instPreRex
    operandsSetTsi opNum .reg 8 (operandsFix8bitRexBase (reg + exGprBase))
  else if ps.prefixExtType = .rex then
    usePrefixes instPreRex
    operandsSetTsi opNum .reg 8 (operandsFix8bitRexBase reg)
  else operandsSetTsi opNum .reg 8 (regs8Base + reg)

/-- `OT_IB_R_FULL`. -/
def extractIbRFull (bytes : List (BitVec 8)) (opNum : Fin 4) (effOpSz : DecodeType)
    (instFlags : IFlags) :
    DecodeM Unit := do
  let reg := (← lastByte bytes) % 8
  let vrex := (← get).ps.vrex
  match effOpSz with
  | .decode16Bits =>
    usePrefixes instPreOpSize
    operandsSetTsi opNum .reg 16 (regs16Base + (← extendRex prefixExB reg))
  | .decode32Bits =>
    usePrefixes (if vrex.has prefixExB then instPreRex else instPreOpSize)
    operandsSetTsi opNum .reg 32 (regs32Base + extendVrex prefixExB vrex reg)
  | .decode64Bits =>
    if ¬(instFlags.has inst64Bits ∧ ¬instFlags.has instPreRex) then usePrefixes instPreRex
    operandsSetTsi opNum .reg 64 (regs64Base + (← extendRex prefixExB reg))

/-- The size of what a string instruction works on. -/
def stringSize (effOpSz : DecodeType) (instFlags : IFlags) : DecodeM ℕ := do
  if instFlags.has inst16Bits then
    usePrefixes instPreOpSize
    match effOpSz with
    | .decode16Bits => pure 16
    | .decode32Bits => pure 32
    | .decode64Bits =>
      if instFlags.has inst64Bits then
        usePrefixes instPreRex
        pure 64
      else pure 32
  else pure 8

/-- One of three registers, by the effective address size. -/
def byAddressSize (effAdrSz : DecodeType) (in16 in32 in64 : ℕ) : ℕ :=
  match effAdrSz with
  | .decode16Bits => in16
  | .decode32Bits => in32
  | .decode64Bits => in64

/-- `OT_REGI_ESI`: `DS` can be overridden. -/
def extractRegiEsi (dt : DecodeType) (opNum : Fin 4) (effOpSz effAdrSz : DecodeType)
    (instFlags : IFlags) :
    DecodeM Unit := do
  usePrefixes instPreAddrSize
  operandsSetTs opNum .smem (← stringSize effOpSz instFlags)
  modifyDi fun di => { di with segment := 0 }
  prefixesUseSegment instPreDs dt
  modifyOp opNum fun op => { op with index := byAddressSize effAdrSz 38 22 6 }

/-- `OT_REGI_EDI`: `ES` cannot. -/
def extractRegiEdi (dt : DecodeType) (opNum : Fin 4) (effOpSz effAdrSz : DecodeType)
    (instFlags : IFlags) :
    DecodeM Unit := do
  usePrefixes instPreAddrSize
  operandsSetTs opNum .smem (← stringSize effOpSz instFlags)
  if opNum.val = 0 ∧ dt ≠ .decode64Bits then
    modifyDi fun di => { di with segment := BitVec.ofNat 8 sregsBase ||| segmentDefault }
  modifyOp opNum fun op => { op with index := byAddressSize effAdrSz 39 23 7 }

/-- `OT_REGI_EBXAL`. -/
def extractRegiEbxal (dt : DecodeType) (opNum : Fin 4) (effAdrSz : DecodeType) : DecodeM Unit := do
  usePrefixes instPreAddrSize
  prefixesUseSegment instPreDs dt
  operandsSetTsi opNum .mem 8 48
  if effAdrSz = .decode64Bits then usePrefixes instPreRex
  modifyDi fun di => { di with base := byAddressSize effAdrSz 35 19 3 }

/-- `OT_REGI_EAX`. -/
def extractRegiEax (opNum : Fin 4) (effAdrSz : DecodeType) : DecodeM Unit := do
  if effAdrSz ≠ .decode64Bits then usePrefixes instPreAddrSize
  operandsSetTsi opNum .smem (byAddressSize effAdrSz 16 32 64) (byAddressSize effAdrSz 32 16 0)

/-- A register of 128 bits, or of 256 with VEX.L. -/
def setYxmm (opNum : Fin 4) (reg : ℕ) : DecodeM Unit := do
  if (← get).ps.vrex.has prefixExL then operandsSetTsi opNum .reg 256 (avxregsBase + reg)
  else operandsSetTsi opNum .reg 128 (sseregsBase + reg)

/-- The register in the high bits of an immediate byte; `code` is still at the byte. -/
def claimRegister (bytes : List (BitVec 8)) (dt : DecodeType) : DecodeM ℕ := do
  claim 1
  let byte := (← readCode bytes).toNat
  pure (if dt = .decode32Bits then byte / 16 % 8 else byte / 16 % 16)

/-- `operands_extract` for a type without a `ModR/M`. -/
def simpleOperand (bytes : List (BitVec 8)) (dt : DecodeType) (ii : InstInfo) (type : OpType)
    (opNum : Fin 4) (effOpSz effAdrSz : DecodeType) (lockableInstruction : Bool) (reg rm : ℕ) :
    DecodeM Unit := do
  let ps := (← get).ps
  match type with
  | .imm8 => extractImm bytes opNum .imm 0 1
  | .imm16 => extractImm bytes opNum .imm 0 2
  | .immFull => extractImmFull bytes dt opNum effOpSz ii.flags
  | .imm32 => extractImm32 bytes dt opNum
  | .seimm8 => extractSeimm8 bytes dt opNum ii.flags
  | .imm16_1 => extractImm bytes opNum .imm1 0 2
  | .imm8_1 => extractImm bytes opNum .imm1 0 1
  | .imm8_2 => extractImm bytes opNum .imm2 32 1
  | .reg8 =>
    if ps.prefixExtType = .none then operandsSetTsi opNum .reg 8 (regs8Base + reg)
    else
      usePrefixes instPreRex
      operandsSetTsi opNum .reg 8 (operandsFix8bitRexBase (extendVrex prefixExR ps.vrex reg))
  | .reg16 => operandsSetTsi opNum .reg 16 (regs16Base + reg)
  | .regFull => extractRegFull opNum effOpSz reg
  | .reg32 => operandsSetTsi opNum .reg 32 (regs32Base + (← extendRex prefixExR reg))
  | .reg32_64 => extractReg32_64 dt opNum ii.flags reg
  | .freg32_64Rm =>
    let rm ← extendRex prefixExB rm
    if dt = .decode64Bits then operandsSetTsi opNum .reg 64 (regs64Base + rm)
    else operandsSetTsi opNum .reg 32 (regs32Base + rm)
  | .mm => operandsSetTsi opNum .reg 64 (mmxregsBase + reg)
  | .mmRm => operandsSetTsi opNum .reg 64 (mmxregsBase + rm)
  | .regxmm0 => operandsSetTsi opNum .reg 128 sseregsBase
  | .xmm => operandsSetTsi opNum .reg 128 (sseregsBase + (← extendRex prefixExR reg))
  | .xmmRm => operandsSetTsi opNum .reg 128 (sseregsBase + (← extendRex prefixExB rm))
  | .creg => extractCreg dt opNum reg
  | .dreg => extractDreg dt opNum reg
  | .sreg =>
    if lockableInstruction ∧ reg = 1 ∨ 5 < reg then undecodable
    else operandsSetTsi opNum .reg 16 (sregsBase + reg)
  | .seg => extractSeg opNum ii.flags
  | .acc8 => operandsSetTsi opNum .reg 8 48
  | .acc16 => operandsSetTsi opNum .reg 16 32
  | .accFull | .accFullNot64 => extractAccFull opNum effOpSz ii.flags
  | .ptr16Full => extractPtr16Full bytes opNum effOpSz
  | .relcb => extractRelc bytes opNum 1 ii.opcodeId
  | .relcFull =>
    usePrefixes instPreOpSize
    extractRelc bytes opNum (if effOpSz = .decode16Bits then 2 else 4) ii.opcodeId
  | .moffs8 =>
    modifyOp opNum fun op => { op with size := 8 }
    extractMoffsFull bytes dt opNum effOpSz effAdrSz
  | .moffsFull => extractMoffsFull bytes dt opNum effOpSz effAdrSz
  | .const1 =>
    operandsSetTs opNum .imm 8
    modifyDi fun di => { di with imm := storeLow di.imm 0 8 1 }
  | .regcl => operandsSetTsi opNum .reg 8 49
  | .fpuSi => operandsSetTsi opNum .reg 32 (fpuregsBase + (← lastByte bytes) % 8)
  | .fpuSsi =>
    operandsSetTsi opNum .reg 32 fpuregsBase
    operandsSetTsi (← nextOperand opNum) .reg 32 (fpuregsBase + (← lastByte bytes) % 8)
  | .fpuSis =>
    operandsSetTsi opNum .reg 32 (fpuregsBase + (← lastByte bytes) % 8)
    operandsSetTsi (← nextOperand opNum) .reg 32 fpuregsBase
  | .ibRb => extractIbRb bytes opNum
  | .ibRFull => extractIbRFull bytes opNum effOpSz ii.flags
  | .regiEsi => extractRegiEsi dt opNum effOpSz effAdrSz ii.flags
  | .regiEdi => extractRegiEdi dt opNum effOpSz effAdrSz ii.flags
  | .regdx => operandsSetTsi opNum .reg 16 34
  | .regecx => operandsSetTsi opNum .reg 32 17
  | .regiEbxal => extractRegiEbxal dt opNum effAdrSz
  | .regiEax => extractRegiEax opNum effAdrSz
  | .vxmm => operandsSetTsi opNum .reg 128 (sseregsBase + ps.vexV)
  | .xmmImm =>
    operandsSetTsi opNum .reg 128 (sseregsBase + (← claimRegister bytes dt))
    advance 1
  | .yxmm => setYxmm opNum (extendVrex prefixExR ps.vrex reg)
  | .yxmmImm =>
    setYxmm opNum (← claimRegister bytes dt)
    advance 1
  | .ymm => operandsSetTsi opNum .reg 256 (avxregsBase + extendVrex prefixExR ps.vrex reg)
  | .vymm => operandsSetTsi opNum .reg 256 (avxregsBase + ps.vexV)
  | .vyxmm => setYxmm opNum ps.vexV
  | .wreg32_64 =>
    let reg := extendVrex prefixExR ps.vrex reg
    if ps.vrex.has prefixExW then operandsSetTsi opNum .reg 64 (regs64Base + reg)
    else operandsSetTsi opNum .reg 32 (regs32Base + reg)
  | _ => undecodable

/-- The registers of an operand are marked in `usedRegistersMask`. -/
def markRegister (opNum : Fin 4) : DecodeM Unit := do
  let op := (← get).di.ops opNum
  if op.type = .reg ∨ op.type = .smem ∨ op.type = .mem then
    let mask ← tableAt registerToRClass op.index
    modifyDi fun di => { di with usedRegistersMask := di.usedRegistersMask ||| mask }

/-- `operands_extract`. -/
def operandsExtract (bytes : List (BitVec 8)) (dt : DecodeType) (ii : InstInfo) (type : OpType)
    (opNum : Fin 4) (modrm : ℕ) (effOpSz effAdrSz : DecodeType) (lockableInstruction : Bool) :
    DecodeM Unit := do
  let mod := modrm / 64 % 4
  let rm := modrm % 8
  -- an optional operand that is not there
  if type = .memOpt ∧ mod = 3 then pure ()
  else
    match ← memorySize dt effOpSz ii.flags lockableInstruction type with
    | some size =>
      if mod = 3 then undecodable
      modifyOp opNum fun op => { op with size := size }
      operandsExtractModrm bytes dt type opNum effOpSz effAdrSz lockableInstruction mod rm ii.flags
    | none =>
      match ← indirectionSize effOpSz ii.flags type with
      | some size =>
        modifyOp opNum fun op => { op with size := size }
        operandsExtractModrm bytes dt type opNum effOpSz effAdrSz lockableInstruction mod rm ii.flags
      | none =>
        simpleOperand bytes dt ii type opNum effOpSz effAdrSz lockableInstruction (modrm / 8 % 8) rm
    markRegister opNum

end FsdFilter.Distorm
