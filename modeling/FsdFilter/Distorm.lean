import FsdFilter.MountLayout
import Mathlib.Data.Fintype.Pi
import Mathlib.Logic.Function.Basic

/-! What the disassembler works on: the tables of instructions, the state of the
prefixes, the decoded instruction, and the code, which is read through checked
accesses. -/
namespace FsdFilter.Distorm

/-- `_DecodeType`. -/
inductive DecodeType where
  | decode16Bits
  | decode32Bits
  | decode64Bits
  deriving DecidableEq, Repr

/-! ### Flags of instructions and prefixes -/

/-- `_iflags`. -/
abbrev IFlags : Type := BitVec 32

/-- `flags & mask` as a condition. -/
def IFlags.has (flags mask : IFlags) : Bool := flags &&& mask ≠ 0#32

/-- `~flags & mask` as a condition. -/
def IFlags.lacks (flags mask : IFlags) : Bool := ~~~flags &&& mask ≠ 0#32

def instFlag (bit : ℕ) : IFlags := 1#32 <<< bit

def instModrmRequired : IFlags := instFlag 0
def instNotDivided : IFlags := instFlag 1
def inst16Bits : IFlags := instFlag 2
def inst32Bits : IFlags := instFlag 3
def instPreLock : IFlags := instFlag 4
def instPreRepnz : IFlags := instFlag 5
def instPreRep : IFlags := instFlag 6
def instPreCs : IFlags := instFlag 7
def instPreSs : IFlags := instFlag 8
def instPreDs : IFlags := instFlag 9
def instPreEs : IFlags := instFlag 10
def instPreFs : IFlags := instFlag 11
def instPreGs : IFlags := instFlag 12
def instPreOpSize : IFlags := instFlag 13
def instPreAddrSize : IFlags := instFlag 14
def instNative : IFlags := instFlag 15
def instUseExmnemonic : IFlags := instFlag 16
def instUseOp3 : IFlags := instFlag 17
def instUseOp4 : IFlags := instFlag 18
def instMnemonicModrmBased : IFlags := instFlag 19
def instModrr : IFlags := instFlag 20
def inst3dnowFetch : IFlags := instFlag 21
def instPseudoOpcode : IFlags := instFlag 22
def instInvalid64Bits : IFlags := instFlag 23
def inst64Bits : IFlags := instFlag 24
def instPreRex : IFlags := instFlag 25
def instUseExmnemonic2 : IFlags := instFlag 26
def inst64BitsFetch : IFlags := instFlag 27
def instForceReg0 : IFlags := instFlag 28
def instPreVex : IFlags := instFlag 29
def instModrmIncluded : IFlags := instFlag 30
def instDstWr : IFlags := instFlag 31

def instPreReps : IFlags := instPreRepnz ||| instPreRep
def instPreLokrepMask : IFlags := instPreLock ||| instPreRepnz ||| instPreRep
def instPreSegovrdMask32 : IFlags := instPreCs ||| instPreSs ||| instPreDs ||| instPreEs
def instPreSegovrdMask64 : IFlags := instPreFs ||| instPreGs
def instPreSegovrdMask : IFlags := instPreSegovrdMask32 ||| instPreSegovrdMask64

/-! `flagsEx`, which has only the flags for VEX. -/

def instMnemonicVexwBased : IFlags := instFlag 2
def instMnemonicVexlBased : IFlags := instFlag 3
def instForceVexl : IFlags := instFlag 4

/-! The bits of REX and VEX in `vrex`. -/

def prefixExB : IFlags := instFlag 0
def prefixExX : IFlags := instFlag 1
def prefixExR : IFlags := instFlag 2
def prefixExW : IFlags := instFlag 3
def prefixExL : IFlags := instFlag 4

/-- `EX_GPR_BASE`. -/
def exGprBase : ℕ := 8

/-- `INST_MAXIMUM_SIZE`, with the prefixes. -/
def instMaximumSize : ℕ := 15

/-- `INST_DIVIDED_MODRM`. -/
def instDividedModrm : ℕ := 0xc0

/-! ### The tables of instructions -/

/-- `_OpType`. -/
inductive OpType where
  | none
  | imm8 | imm16 | immFull | imm32 | seimm8 | imm16_1 | imm8_1 | imm8_2
  | reg8 | reg16 | regFull | reg32 | reg32_64 | freg32_64Rm
  | rm8 | rm16 | rmFull | rm32_64 | rm16_32
  | fpum16 | fpum32 | fpum64 | fpum80
  | r32M8 | r32M16 | r32_64M8 | r32_64M16 | rfullM16
  | creg | dreg | sreg | seg
  | acc8 | acc16 | accFull | accFullNot64
  | mem16Full | ptr16Full | mem16_3264
  | relcb | relcFull
  | mem | memOpt | mem32 | mem32_64 | mem64 | mem128 | mem64_128
  | moffs8 | moffsFull | const1 | regcl
  | ibRb | ibRFull
  | regiEsi | regiEdi | regiEbxal | regiEax | regdx | regecx
  | fpuSi | fpuSsi | fpuSis
  | mm | mmRm | mm32 | mm64
  | xmm | xmmRm | xmm16 | xmm32 | xmm64 | xmm128 | regxmm0
  | rm32 | reg32_64M8 | reg32_64M16 | wreg32_64 | wrm32_64 | wxmm32_64
  | vxmm | xmmImm | yxmm | yxmmImm | ymm | ymm256 | vymm | vyxmm
  | yxmm64_256 | yxmm128_256 | lxmm64_128 | lmem128_256
  deriving DecidableEq, Repr

/-- What `_InstInfoEx` has behind the fields of `_InstInfo`. -/
structure InstInfoEx where
  flagsEx : IFlags
  op3 : OpType
  op4 : OpType
  opcodeId2 : BitVec 16
  opcodeId3 : BitVec 16
  deriving DecidableEq, Repr

/-- `_InstInfo`, or `_InstInfoEx`: the code casts a pointer to the one to a pointer to the other. -/
structure InstInfo where
  meta' : BitVec 8
  s : OpType
  d : OpType
  opcodeId : BitVec 16
  flags : IFlags
  ex : Option InstInfoEx
  deriving DecidableEq, Repr

/-- The kinds of lists in `_InstNodeType`. -/
inductive InstListType where
  | group
  | full
  | divided
  | prefixed
  deriving DecidableEq, Repr

/-- `_InstNode`, with an `_InstInfo` where the type says so; the `k`th child is `list[ids[k]]`. -/
inductive InstNode where
  | info (ii : InstInfo)
  | list (type : InstListType) (children : List (Option InstNode))

/-- The tables of `insts.h`. -/
structure InstTables where
  instructions : InstNode
  table0F : InstNode
  table0F38 : InstNode
  table0F3A : InstNode
  table0F0F : InstNode

/-! ### Prefixes -/

/-- `_PrefixExtType`. -/
inductive PrefixExtType where
  | none
  | rex
  | vex2Bytes
  | vex3Bytes
  deriving DecidableEq, Repr

/-- `_PrefixIndexer`. -/
inductive PrefixIndexer where
  | rex
  | lorep
  | seg
  | opSize
  | adrs
  deriving DecidableEq, Repr

/-- `_PrefixState`; pointers into the code are positions in it. -/
structure PrefixState where
  decodedPrefixes : IFlags
  usedPrefixes : IFlags
  start : ℕ
  last : ℕ
  vexPos : Option ℕ
  rexPos : Option ℕ
  prefixExtType : PrefixExtType
  unusedPrefixesMask : BitVec 16
  isOpSizeMandatory : Bool
  vexV : ℕ
  vrex : IFlags
  pfxIndexer : PrefixIndexer → Option ℕ

/-- The state that `decode_internal` sets up before each instruction. -/
def PrefixState.cleared (code : ℕ) : PrefixState where
  decodedPrefixes := 0
  usedPrefixes := 0
  start := code
  last := code
  vexPos := none
  rexPos := none
  prefixExtType := .none
  unusedPrefixesMask := 0
  isOpSizeMandatory := false
  vexV := 0
  vrex := 0
  pfxIndexer _ := none

/-! ### Decoded instructions -/

/-- `_OperandType`. -/
inductive OperandType where
  | none | reg | imm | imm1 | imm2 | disp | smem | mem | pc | ptr
  deriving DecidableEq, Repr

/-- `_Operand`. -/
structure Operand where
  type : OperandType
  index : ℕ
  size : ℕ
  deriving DecidableEq, Repr

/-- `R_NONE`. -/
def rNone : ℕ := 255

/-- `_DInst`; the union `imm` is the eight bytes that its members share. -/
structure DInst where
  addr : BitVec 64
  size : ℕ
  flags : BitVec 16
  segment : BitVec 8
  base : ℕ
  scale : ℕ
  dispSize : ℕ
  opcode : BitVec 16
  ops : Fin 4 → Operand
  disp : BitVec 64
  imm : BitVec 64
  unusedPrefixesMask : BitVec 16
  meta' : BitVec 8
  usedRegistersMask : BitVec 16
  deriving DecidableEq

/-- `memset(di, 0, sizeof(_DInst))`. -/
def DInst.zero : DInst where
  addr := 0
  size := 0
  flags := 0
  segment := 0
  base := 0
  scale := 0
  dispSize := 0
  opcode := 0
  ops _ := ⟨.none, 0, 0⟩
  disp := 0
  imm := 0
  unusedPrefixesMask := 0
  meta' := 0
  usedRegistersMask := 0

/-- `META_GET_FC`. -/
def metaGetFc (meta' : BitVec 8) : BitVec 8 := meta' &&& 7#8

/-! ### Decoding -/

/-- Accesses that the C code would make outside of its data. -/
inductive Fault where
  -- a byte that is not of the code
  | overread
  -- an entry behind the end of the results
  | overrun
  -- an index that a list does not have, or a node taken for what it is not
  | badTable
  -- an operand behind the last one
  | badOperand
  -- a field that only an `_InstInfoEx` has
  | notExtended
  -- a register without a class
  | badRegister
  | outOfFuel
  deriving DecidableEq, Repr

/-- Why an instruction is not decoded. -/
inductive Stop where
  | undecodable
  | fault (fault : Fault)
  deriving DecidableEq, Repr

/-- What the decoding of one instruction works on: `code` and `codeLen` of `_CodeInfo`,
the prefixes, the instruction, and whether it may be locked. -/
structure InstState where
  code : ℕ
  codeLen : ℤ
  ps : PrefixState
  di : DInst
  lockable : Bool

abbrev DecodeM : Type → Type := StateT InstState (Except Stop)

/-- The code that was passed in does not hold the instruction. -/
def undecodable {α : Type} : DecodeM α := throw .undecodable

def fault {α : Type} (fault : Fault) : DecodeM α := throw (.fault fault)

/-- A byte of the code. -/
def byteAt (bytes : List (BitVec 8)) (code : ℕ) : Except Stop (BitVec 8) :=
  match bytes[code]? with
  | some byte => .ok byte
  | none => .error (.fault .overread)

/-- `*ci->code`. -/
def readCode (bytes : List (BitVec 8)) : DecodeM (BitVec 8) := do byteAt bytes (← get).code

/-- `ci->codeLen -= size; if (ci->codeLen < 0) return FALSE;` -/
def claim (size : ℕ) : DecodeM Unit := do
  modify fun s => { s with codeLen := s.codeLen - size }
  if (← get).codeLen < 0 then undecodable

/-- `ci->code += size`. -/
def advance (size : ℕ) : DecodeM Unit := modify fun s => { s with code := s.code + size }

/-- Changes the prefixes. -/
def modifyPs (change : PrefixState → PrefixState) : DecodeM Unit :=
  modify fun s => { s with ps := change s.ps }

/-- Changes the instruction. -/
def modifyDi (change : DInst → DInst) : DecodeM Unit := modify fun s => { s with di := change s.di }

/-- Changes an operand of the instruction. -/
def modifyOp (opNum : Fin 4) (change : Operand → Operand) : DecodeM Unit :=
  modifyDi fun di => { di with ops := Function.update di.ops opNum (change (di.ops opNum)) }

/-- `ps->usedPrefixes |= flags`. -/
def usePrefixes (flags : IFlags) : DecodeM Unit :=
  modifyPs fun ps => { ps with usedPrefixes := ps.usedPrefixes ||| flags }

end FsdFilter.Distorm
