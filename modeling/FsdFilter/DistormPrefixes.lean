import FsdFilter.Distorm

/-! `prefix.c`: which prefixes an instruction has, and which of them are superfluous. -/
namespace FsdFilter.Distorm

/-- The bytes of a REX prefix. -/
def isRex (ch : BitVec 8) : Bool := 0x40 ≤ ch.toNat && ch.toNat ≤ 0x4f

def prefixVex2b : BitVec 8 := 0xc5
def prefixVex3b : BitVec 8 := 0xc4

/-- The other prefixes but for VEX: the flag of each, and its type. -/
def prefixBytes : List (BitVec 8 × IFlags × PrefixIndexer) :=
  [(0xf0, instPreLock, .lorep), (0xf2, instPreRepnz, .lorep), (0xf3, instPreRep, .lorep),
    (0x2e, instPreCs, .seg), (0x36, instPreSs, .seg), (0x3e, instPreDs, .seg), (0x26, instPreEs, .seg),
    (0x64, instPreFs, .seg), (0x65, instPreGs, .seg), (0x66, instPreOpSize, .opSize),
    (0x67, instPreAddrSize, .adrs)]

/-- `prefixes_is_valid`. -/
def prefixesIsValid (ch : BitVec 8) (dt : DecodeType) : Bool :=
  if isRex ch then dt = .decode64Bits
  else (prefixBytes.lookup ch).isSome || ch = prefixVex2b || ch = prefixVex3b

/-- `prefixes_ignore`. -/
def prefixesIgnore (pi : PrefixIndexer) (ps : PrefixState) : PrefixState :=
  match ps.pfxIndexer pi with
  | none => ps
  | some index => { ps with unusedPrefixesMask := ps.unusedPrefixesMask ||| 1#16 <<< index }

/-- `prefixes_ignore_all`. -/
def prefixesIgnoreAll (ps : PrefixState) : PrefixState :=
  [PrefixIndexer.rex, .lorep, .seg, .opSize, .adrs].foldl (fun ps pi => prefixesIgnore pi ps) ps

/-- `prefixes_set_unused_mask`, which also returns the mask. -/
def prefixesSetUnusedMask (ps : PrefixState) : PrefixState :=
  let unusedPrefixesDiff := ps.decodedPrefixes ^^^ ps.usedPrefixes
  [(instPreRex, PrefixIndexer.rex), (instPreSegovrdMask, .seg), (instPreLokrepMask, .lorep),
    (instPreOpSize, .opSize),
      (instPreAddrSize, .adrs)].foldl
    (fun ps entry => if unusedPrefixesDiff.has entry.1 then prefixesIgnore entry.2 ps else ps) ps

/-- `prefixes_track_unused`. -/
def prefixesTrackUnused (index : ℕ) (pi : PrefixIndexer) (ps : PrefixState) : PrefixState :=
  let ps := prefixesIgnore pi ps
  { ps with pfxIndexer := Function.update ps.pfxIndexer pi (some index) }

/-- The `switch` over the byte at `code`, which halts the scan at a byte that is no prefix. -/
def prefixStep (dt : DecodeType) (ch : BitVec 8) (index code : ℕ) (ps : PrefixState) :
    Option PrefixState :=
  if isRex ch then
    if dt = .decode64Bits then
      some (prefixesTrackUnused index .rex { ps with
        decodedPrefixes := ps.decodedPrefixes ||| instPreRex, vrex := (ch &&& 0xf#8).setWidth 32
        rexPos := some code, prefixExtType := .rex })
    else none
  else match prefixBytes.lookup ch with
    | some (flag, pi) =>
      some (prefixesTrackUnused index pi { ps with decodedPrefixes := ps.decodedPrefixes ||| flag })
    | none => none

/-- The loop of `prefixes_decode` from the prefix `index` on. -/
def scanPrefixes (bytes : List (BitVec 8)) (dt : DecodeType) :
    ℕ → ℕ → ℕ → ℤ → PrefixState → Except Stop (ℕ × ℤ × PrefixState)
  | 0, _, _, _, _ => .error (.fault .outOfFuel)
  | fuel + 1, index, code, codeLen, ps =>
    if 0 < codeLen ∧ code - ps.start < instMaximumSize then do
      match prefixStep dt (← byteAt bytes code) index code ps with
      | some ps => scanPrefixes bytes dt fuel (index + 1) (code + 1) (codeLen - 1) ps
      | none => pure (code, codeLen, ps)
    else pure (code, codeLen, ps)

/-- A VEX prefix needs a second byte in the range of `mod=11`, but in 64 bits. -/
def isVex (dt : DecodeType) (second : BitVec 8) : Bool :=
  dt = .decode64Bits || instDividedModrm ≤ second.toNat

/-- The bits that a VEX prefix adds to `vrex`. -/
def vexBits (conditions : List (Bool × IFlags)) : IFlags :=
  conditions.foldl (fun bits entry => if entry.1 then bits ||| entry.2 else bits) 0

/-- The 2 bytes VEX of `prefixes_decode`. -/
def decodeVex2 (bytes : List (BitVec 8)) (dt : DecodeType) (code : ℕ) (codeLen : ℤ) (ps : PrefixState) :
    Except Stop (ℕ × PrefixState) := do
  if 2 ≤ codeLen then
    if (← byteAt bytes code) = prefixVex2b ∧ code - ps.start ≤ instMaximumSize - 2 then
      let vex ← byteAt bytes (code + 1)
      if isVex dt vex then
        pure (code + 2, { ps with
          vexPos := some (code + 1), decodedPrefixes := ps.decodedPrefixes ||| instPreVex
          prefixExtType := .vex2Bytes
          vrex := ps.vrex |||
            vexBits [(!vex.getLsbD 7 && dt = .decode64Bits, prefixExR), (vex.getLsbD 2, prefixExL)] })
      else pure (code, ps)
    else pure (code, ps)
  else pure (code, ps)

/-- The 3 bytes VEX of `prefixes_decode`; the byte is looked at before the flag. -/
def decodeVex3 (bytes : List (BitVec 8)) (dt : DecodeType) (code : ℕ) (codeLen : ℤ) (ps : PrefixState) :
    Except Stop (ℕ × PrefixState) := do
  if 3 ≤ codeLen then
    if (← byteAt bytes code) = prefixVex3b ∧ code - ps.start ≤ instMaximumSize - 3 ∧
        ps.decodedPrefixes.lacks instPreVex then
      let vex ← byteAt bytes (code + 1)
      if isVex dt vex then
        let vex2 ← byteAt bytes (code + 2)
        let vrex := ps.vrex ||| (~~~vex >>> 5 &&& 0x7#8).setWidth 32 |||
          vexBits [(vex2.getLsbD 2, prefixExL), (vex2.getLsbD 7, prefixExW)]
        pure (code + 3, { ps with
          vexPos := some (code + 1), decodedPrefixes := ps.decodedPrefixes ||| instPreVex
          prefixExtType := .vex3Bytes
          vrex := if dt = .decode64Bits then vrex
            else vrex &&& ~~~(prefixExB ||| prefixExX ||| prefixExR ||| prefixExW) })
      else pure (code, ps)
    else pure (code, ps)
  else pure (code, ps)

/-- `prefixes_decode`. -/
def prefixesDecode (bytes : List (BitVec 8)) (dt : DecodeType) (code : ℕ) (codeLen : ℤ)
    (ps : PrefixState) :
    Except Stop PrefixState := do
  let (code, codeLen, ps) ← scanPrefixes bytes dt (instMaximumSize + 1) 0 code codeLen ps
  let (code, ps) ← decodeVex2 bytes dt code codeLen ps
  let (code, ps) ← decodeVex3 bytes dt code codeLen ps
  pure { ps with last := code }

/-- `SEGMENT_DEFAULT`. -/
def segmentDefault : BitVec 8 := 0x80

/-- The segment registers from `R_ES` on, in the order of `_RegisterType`. -/
def segmentRegisters : List (IFlags × ℕ) :=
  [(instPreEs, 68), (instPreCs, 69), (instPreSs, 70), (instPreDs, 71), (instPreFs, 72), (instPreGs, 73)]

/-- `prefixes_use_segment`. -/
def prefixesUseSegment (defaultSeg : IFlags) (dt : DecodeType) : DecodeM Unit := do
  let ps := (← get).ps
  let flags := ps.decodedPrefixes &&&
    (if dt = .decode64Bits then instPreSegovrdMask64 else instPreSegovrdMask)
  let isDefault := flags = 0#32 ∨ flags = defaultSeg
  let flags := if isDefault then defaultSeg else flags
  if isDefault then modifyDi fun di => { di with segment := di.segment ||| segmentDefault }
  else usePrefixes flags
  match segmentRegisters.lookup flags with
  | some register => modifyDi fun di => { di with segment := di.segment ||| BitVec.ofNat 8 register }
  | none => pure ()
  if dt = .decode64Bits ∧ flags.has instPreSegovrdMask32 then
    modifyDi fun di => { di with segment := BitVec.ofNat 8 rNone }

end FsdFilter.Distorm
