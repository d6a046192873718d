import FsdFilter.DistormPrefixes

/-! `instructions.c`: the search for an instruction in the tables, which are a trie over
the bytes of the opcode and, where a byte is a `ModR/M`, three bits of it. -/
namespace FsdFilter.Distorm

/-- `in->list[in->ids[index]]`. -/
def InstNode.child (index : ℕ) : InstNode → DecodeM (Option InstNode)
  | .info _ => fault .badTable
  | .list _ children =>
    match children[index]? with
    | some child => pure child
    | none => fault .badTable

/-- The type of a node that is a list. -/
def InstNode.listType : InstNode → Option InstListType
  | .info _ => none
  | .list type _ => some type

/-- A node that is taken for an `_InstInfo` without a look at its type. -/
def asInfo : Option InstNode → DecodeM (Option InstInfo)
  | some (.info ii) => pure (some ii)
  | some (.list ..) => fault .badTable
  | none => pure none

/-- `(_InstInfo*)in->list[in->ids[index]]`. -/
def InstNode.infoChild (index : ℕ) (node : InstNode) : DecodeM (Option InstInfo) :=
  do asInfo (← node.child index)

/-- A null pointer ends the search. -/
def found {α : Type} : Option α → DecodeM α
  | some result => pure result
  | none => undecodable

/-- The fields behind those of `_InstInfo`. -/
def InstInfo.extended (ii : InstInfo) : DecodeM InstInfoEx :=
  match ii.ex with
  | some ex => pure ex
  | none => fault .notExtended

/-- `ii != NULL && (ii->flags & mask)`. -/
def hasFlag (mask : IFlags) : Option InstInfo → Bool
  | some ii => ii.flags.has mask
  | none => false

/-- `inst_lookup_prefixed`. -/
def instLookupPrefixed (node : InstNode) : DecodeM (Option InstInfo) := do
  let decodedPrefixes := (← get).ps.decodedPrefixes
  let drop (flags : IFlags) : DecodeM Unit :=
    modifyPs fun ps => { ps with decodedPrefixes := ps.decodedPrefixes &&& ~~~flags }
  let folded (ii : Option InstInfo) : DecodeM (Option InstInfo) :=
    match ii with
    | some ii => pure (some ii)
    | none => node.infoChild 0
  let pre := decodedPrefixes &&& (instPreOpSize ||| instPreReps)
  if pre = 0#32 then folded (← node.infoChild 0)
  else if pre = instPreOpSize then do
    let ii ← node.infoChild 1
    modifyPs fun ps => { ps with isOpSizeMandatory := true }
    drop instPreOpSize
    folded ii
  else if pre = instPreRep then do
    let ii ← node.infoChild 2
    drop instPreRep
    folded ii
  else if pre = instPreRepnz then do
    let ii ← node.infoChild 3
    drop instPreRepnz
    folded ii
  -- several mandatory prefixes at once: the operand size must be a real prefix
  else if decodedPrefixes &&& instPreReps = instPreReps then pure none
  else do
    let repnz := decodedPrefixes.has instPreRepnz
    let ii ← node.infoChild (if repnz then 3 else 2)
    drop (if repnz then instPreRepnz else instPreRep)
    if hasFlag instPreOpSize ii then pure ii else pure none

/-- A child of a node in a VEX table, if that is a list of prefixed instructions. -/
def vexChild (node : InstNode) (index : ℕ) : DecodeM (Option InstInfo) :=
  if node.listType = some .prefixed then node.infoChild index else pure none

/-- `*(ps->vexPos + offset)`. -/
def readVex (bytes : List (BitVec 8)) (offset : ℕ) : DecodeM (BitVec 8) := do
  match (← get).ps.vexPos with
  | some vexPos => byteAt bytes (vexPos + offset)
  | none => fault .overread

/-- The fields of a VEX prefix: the opcode bytes that it implies, `vvvv` and `pp`. -/
def vexFields (bytes : List (BitVec 8)) : DecodeM (ℕ × ℕ × ℕ) := do
  let vex ← readVex bytes 0
  let vvvv (vex : BitVec 8) : ℕ := (~~~vex >>> 3 &&& 0xf#8).toNat
  if (← get).ps.prefixExtType = .vex2Bytes then pure (1, vvvv vex, (vex &&& 3#8).toNat)
  else
    let vex2 ← readVex bytes 1
    pure ((vex &&& 0x1f#8).toNat, vvvv vex2, (vex2 &&& 3#8).toNat)

/-- `inst_vex_lookup`. -/
def instVexLookup (db : InstTables) (bytes : List (BitVec 8)) : DecodeM (Option InstInfo) := do
  let illegal := instPreOpSize ||| instPreLock ||| instPreRep ||| instPreRepnz ||| instPreRex
  if (← get).ps.decodedPrefixes &&& illegal ≠ 0#32 then undecodable
  let (start, v, pp) ← vexFields bytes
  modifyPs fun ps => { ps with vexV := v }
  let table ← match start with
    | 1 => pure db.table0F
    | 2 => pure db.table0F38
    | 3 => pure db.table0F3A
    | _ => undecodable
  -- VEX instructions start at index 4, those without `vvvv` four places on
  let index := 4 + (if v = 0 then 4 else 0) + pp
  claim 1
  let node ← found (← table.child (← readCode bytes).toNat)
  match node.listType with
  | some .prefixed => node.infoChild index
  | none | some .divided => pure none
  | some type =>
    advance 1
    claim 1
    let byte := (← readCode bytes).toNat
    let node ← found (← node.child (if type = .group then byte / 8 % 8 else byte))
    vexChild node index

/-! The instructions that the tables do not have. -/

def iiArpl : InstInfo := ⟨1#8 <<< 3, .reg16, .rm16, 20#16, instModrmRequired, none⟩

def iiMovsxd : InstInfo :=
  ⟨1#8 <<< 3, .rm32, .reg32_64, 988#16, instModrmRequired ||| instPreRex ||| inst64Bits,
    some ⟨0, .none, .none, 0, 0⟩⟩

def iiNop : InstInfo := ⟨1#8 <<< 3, .none, .none, 103#16, 0, none⟩

def iiPause : InstInfo := ⟨1#8 <<< 3, .none, .none, 989#16, 0, none⟩

def ii3dnow : InstInfo :=
  ⟨12#8, .mm64, .mm, 0#16, inst32Bits ||| instModrmRequired ||| inst3dnowFetch, none⟩

/-- A single byte instruction in `inst_lookup`, some of which need extra treatment. -/
def instLookupSingle (dt : DecodeType) (index : ℕ) (ii : InstInfo) : DecodeM InstInfo := do
  let ps := (← get).ps
  if index = 0x63 then
    pure (if dt = .decode64Bits then iiMovsxd else iiArpl)
  else if index = 0x90 then
    if ps.decodedPrefixes.has instPreRep then
      usePrefixes instPreRep
      pure iiPause
    else
      if ps.vrex.has prefixExW then usePrefixes instPreRex
      pure (if dt ≠ .decode64Bits ∨ ps.vrex.lacks prefixExB then iiNop else ii)
  else if index = 0x8d then
    modifyPs fun ps => { ps with decodedPrefixes := ps.decodedPrefixes &&& ~~~instPreSegovrdMask }
    modifyPs (prefixesIgnore .seg)
    pure ii
  else pure ii

/-- The place of a second byte in a divided list: that of its register bits, or behind those. -/
def dividedIndex (byte : ℕ) : ℕ :=
  if byte < instDividedModrm then byte / 8 % 8 else byte - (instDividedModrm - 8)

/-- `INST_WAIT_INDEX`. -/
def instWaitIndex : ℕ := 0x9b

/-- `inst_lookup` in a list for the second byte that has all its bits. -/
def instLookupFull (bytes : List (BitVec 8)) (node : InstNode) (escapes : Bool) (second : ℕ) :
    DecodeM (Option InstInfo) := do
  let node ← found (← node.child second)
  if escapes then pure (some ii3dnow)
  else match node with
    | .info ii => pure (some ii)
    | .list .prefixed _ => instLookupPrefixed node
    | .list type _ =>
      advance 1
      claim 1
      let third := (← readCode bytes).toNat
      -- it is taken for a `ModR/M` first
      let child ← node.child (third / 8 % 8)
      match type with
      | .group =>
        match ← found child with
        | .info ii => pure (some ii)
        | child => instLookupPrefixed child
      | .divided =>
        let ii ← asInfo child
        if hasFlag instNotDivided ii then pure ii
        else if instDividedModrm ≤ third then node.infoChild (third - instDividedModrm + 8)
        else pure ii
      | _ =>
        let child ← found (← node.child third)
        match child with
        | .info ii => pure (some ii)
        | .list .prefixed _ => instLookupPrefixed child
        | .list .. => pure none

/-- `inst_lookup` in a divided list; a WAIT before it must be part of the instruction. -/
def instLookupDivided (node : InstNode) (isWaitIncluded : Bool) (second : ℕ) :
    DecodeM (Option InstInfo) := do
  match ← found (← node.child (dividedIndex second)) with
  | .info ii => pure (if ii.flags.lacks instPreOpSize ∧ isWaitIncluded then none else some ii)
  | child => child.infoChild (if isWaitIncluded then 1 else 0)

/-- `inst_lookup` without a VEX prefix. -/
def instLookupTrie (db : InstTables) (bytes : List (BitVec 8)) (dt : DecodeType) :
    DecodeM (Option InstInfo) := do
  claim 1
  let first := (← readCode bytes).toNat
  let isWaitIncluded : Bool := first = instWaitIndex
  let first ← if isWaitIncluded then do
      modifyPs prefixesIgnoreAll
      advance 1
      claim 1
      pure (← readCode bytes).toNat
    else pure first
  let node ← found (← db.instructions.child first)
  match node, isWaitIncluded with
  | .info ii, false => some <$> instLookupSingle dt first ii
  | _, _ =>
    advance 1
    claim 1
    let second := (← readCode bytes).toNat
    match node.listType, isWaitIncluded with
    | some .group, false => node.infoChild (second / 8 % 8)
    | some .divided, _ => instLookupDivided node isWaitIncluded second
    | some .full, false => instLookupFull bytes node (first = 0x0f ∧ second = 0x0f) second
    | _, _ => pure none

/-- `inst_lookup`. -/
def instLookup (db : InstTables) (bytes : List (BitVec 8)) (dt : DecodeType) : DecodeM InstInfo := do
  if (← get).ps.decodedPrefixes.has instPreVex then
    let ii ← found (← instVexLookup db bytes)
    if (← ii.extended).flagsEx.has instForceVexl ∧ (← get).ps.vrex.lacks prefixExL then undecodable
    pure ii
  else found (← instLookupTrie db bytes dt)

/-- `inst_lookup_3dnow`. -/
def instLookup3dnow (db : InstTables) (bytes : List (BitVec 8)) : DecodeM InstInfo := do
  if (← get).codeLen < 1 then undecodable
  match ← found (← db.table0F0F.child (← readCode bytes).toNat) with
  | .info ii =>
    claim 1
    advance 1
    pure ii
  | .list .. => undecodable

end FsdFilter.Distorm
