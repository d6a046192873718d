import FsdFilter.DecodeTiling
import FsdFilter.MountSearch

/-! `DdIsFunctionAtKernelAddress` with the disassembler that the driver is built with. -/
namespace FsdFilter.FunctionEntries
open VnodeOps (VmOffset)
open PagedMemory Distorm DecodeTiling MountLayout MountSearch

/-- The call of `distorm_decompose64` in `DdIsFunctionAtKernelAddress`. -/
def functionCode (address : VmOffset) (code : List (BitVec 8)) : CodeInfo :=
  ⟨address, code, 100, .decode64Bits, 0⟩

/-- `distorm_decompose64` as the driver calls it; a fault of its tables gives no instruction. -/
def distorm (db : InstTables) : Disassembler := fun address code =>
  match distormDecompose64 db (functionCode address code) 15 with
  | .ok (res, results) => ⟨res, results.result.map fun di => di.opcode.toNat⟩
  | .error _ => ⟨.none, []⟩

/-- What stands at the entry of a function: 15 entries that follow one another from its
address on within 100 bytes, a `push` and a `mov` first. -/
structure Entry (address : VmOffset) (entries : List DInst) : Prop where
  tiles : Tiles (BitVec.allOnes 64) address entries
  inside : covered entries ≤ 100
  count : entries.length = 15
  push : entries[0]?.map (·.opcode.toNat) = some 0x2
  mov : entries[1]?.map (·.opcode.toNat) = some 0x2A

theorem accepts_functionCode (address : VmOffset) {code : List (BitVec 8)}
    (length : code.length = 100) :
    Accepts (functionCode address code) :=
  ⟨by simp [functionCode], by simp [functionCode, length], by simp [functionCode, IFlags.has]⟩

theorem addrMask_functionCode (address : VmOffset) (code : List (BitVec 8)) :
    addrMask (functionCode address code).features = BitVec.allOnes 64 := by
  simp [addrMask, functionCode, IFlags.has]

theorem codeBytes_length (memory : Memory) (address : VmOffset) (count : ℕ) :
    (codeBytes memory address count).length = count := by
  rw [codeBytes, List.length_map, List.length_range]

/-- **What is taken for a function.** `DdIsFunctionAtKernelAddress` accepts an address if
and only if the 100 bytes there are present and the disassembler cuts them into exactly
15 entries, one after another from the address on, of which the first are a `push` and a
`mov`: the check of its result never decides. -/
theorem function_accepted (db : InstTables) (memory : Memory) (address : VmOffset) :
    ddIsFunctionAtKernelAddress memory (distorm db) address = .ok true ↔
      (memory.Mapped address ∧ memory.Mapped (address + 99#64)) ∧
        ∃ res results, distormDecompose64 db (functionCode address (codeBytes memory address 100)) 15 =
          .ok (res, results) ∧ Entry address results.result := by
  have returned : Returns _ 15
      (distormDecompose64 db (functionCode address (codeBytes memory address 100)) 15) :=
    distormDecompose64_returns db (accepts_functionCode address (codeBytes_length memory address 100))
  rw [ddIsFunctionAtKernelAddress_eq, Except.ok.injEq, decide_eq_true_eq, IsFunction]
  refine and_congr_right fun _ => ?_
  rcases ran : distormDecompose64 db (functionCode address (codeBytes memory address 100)) 15 with
    fault | ⟨res, results⟩
  · simp [EntersFunction, distorm, ran]
  · rw [ran] at returned
    obtain ⟨-, room, result, tiles⟩ := returned
    obtain ⟨placed, inside, -⟩ := tiles (by simp [functionCode, IFlags.has])
    rw [addrMask_functionCode] at placed
    have decoded : distorm db address (codeBytes memory address 100) =
        ⟨res, results.result.map fun di => di.opcode.toNat⟩ := by rw [distorm, ran]
    rw [decoded, EntersFunction]
    simp only [List.length_map, List.getElem?_map]
    constructor
    · rintro ⟨-, enough, push, mov⟩
      exact ⟨res, results, rfl, placed, Int.ofNat_le.mp inside, Nat.le_antisymm room enough, push, mov⟩
    · rintro ⟨res', results', same, entry⟩
      cases same
      exact ⟨result.imp_right And.left, entry.count.ge, entry.push, entry.mov⟩

end FsdFilter.FunctionEntries
