import Mathlib.Order.Bounds.Basic
import FsdFilter.LayoutScans

/-! `FltWriteWiredSrcToWiredDst`, which writes to read-only kernel memory: every
chunk is copied between the physical pages behind the two ranges and ends where
either page does. It copies the longest prefix whose pages are all there. -/
namespace FsdFilter.WiredCopy
open VnodeOps PagedMemory VnodeLayout LayoutScans

/-- The bytes of physical memory and the kernel's page map. -/
structure WiredMemory where
  phys : VmOffset → BitVec 8
  frame : VmOffset → BitVec 32

namespace WiredMemory

/-- The physical address behind a mapped virtual one. -/
def physAddr (memory : WiredMemory) (addr : VmOffset) : VmOffset :=
  (memory.frame (truncPage addr)).zeroExtend 64 <<< 12 ||| (addr &&& 0xfff)

/-- The memory as it is seen through the page map. -/
def virtual (memory : WiredMemory) : Memory :=
  ⟨fun addr => memory.phys (memory.physAddr addr), memory.frame⟩

/-- `bcopy_phys`. -/
def bcopyPhys (memory : WiredMemory) (src dst cnt : VmOffset) : WiredMemory :=
  { memory with
    phys := fun addr => if addr - dst < cnt then memory.phys (src + (addr - dst))
    else memory.phys addr }

end WiredMemory

/-- The arguments of one call of `bcopy_phys`. -/
structure Chunk where
  src : VmOffset
  dst : VmOffset
  cnt : VmOffset
  deriving DecidableEq, Repr

/-- How many bytes are copied without crossing a page of either range. -/
def chunkCnt (curPhysSrc curPhysDst resid : VmOffset) : VmOffset :=
  let cntSrc := pageSize - (curPhysSrc &&& 0xfff)
  let cntDst := pageSize - (curPhysDst &&& 0xfff)
  let cnt := if cntSrc > cntDst then cntDst else cntSrc
  if cnt > resid then resid else cnt

/-- The loop of `FltWriteWiredSrcToWiredDst`: the memory and `resid` when it is
left, and the chunks it copied. -/
def copyChunks :
    ℕ → WiredMemory → VmOffset → VmOffset → VmOffset →
      ScanM (WiredMemory × VmOffset × List Chunk)
  | 0, _, _, _, _ => .error .outOfFuel
  | fuel + 1, memory, curVirtSrc, curVirtDst, resid =>
    let curPhysDst := fltVirtToPhys memory.virtual curVirtDst
    let curPhysSrc := fltVirtToPhys memory.virtual curVirtSrc
    if resid = 0 then pure (memory, resid, [])
    else if curPhysDst = 0 then pure (memory, resid, [])
    else if curPhysSrc = 0 then pure (memory, resid, [])
    else do
      let cnt := chunkCnt curPhysSrc curPhysDst resid
      let (memory, left, chunks) ← copyChunks fuel (memory.bcopyPhys curPhysSrc curPhysDst cnt)
        (curVirtSrc + cnt) (curVirtDst + cnt) (resid - cnt)
      pure (memory, left, ⟨curPhysSrc, curPhysDst, cnt⟩ :: chunks)

/-- `FltWriteWiredSrcToWiredDst`: what it returns, the memory afterwards and the
chunks it copied. Every iteration copies a byte or more. -/
def fltWriteWiredSrcToWiredDst (memory : WiredMemory) (src dst len : VmOffset) :
    ScanM (BitVec 32 × WiredMemory × List Chunk) := do
  let (memory, resid, chunks) ← copyChunks (len.toNat + 1) memory src dst len
  pure ((len - resid).setWidth 32, memory, chunks)

/-- Byte `i` of a range. -/
def byteAt (start : VmOffset) (i : ℕ) : VmOffset := start + BitVec.ofNat 64 i

section Translation
variable {memory : WiredMemory} {addr : VmOffset}

theorem pageOffset_toNat (addr : VmOffset) : (addr &&& 0xfff).toNat = addr.toNat % 4096 := by
  rw [BitVec.toNat_and]
  exact Nat.and_two_pow_sub_one_eq_mod addr.toNat 12

theorem physAddr_toNat (memory : WiredMemory) (addr : VmOffset) :
    (memory.physAddr addr).toNat =
      (memory.frame (truncPage addr)).toNat * 4096 + addr.toNat % 4096 := by
  have bound := (memory.frame (truncPage addr)).isLt
  have offset : addr.toNat % 4096 < 2 ^ 12 := Nat.mod_lt _ (by decide)
  have fits : (memory.frame (truncPage addr)).toNat <<< 12 < 2 ^ 64 := by
    rw [Nat.shiftLeft_eq]
    omega
  rw [WiredMemory.physAddr, BitVec.toNat_or, pageOffset_toNat, BitVec.toNat_shiftLeft,
    BitVec.toNat_setWidth,
    Nat.mod_eq_of_lt (a := (memory.frame (truncPage addr)).toNat) (by omega), Nat.mod_eq_of_lt fits,
    ← Nat.shiftLeft_add_eq_or_of_lt offset, Nat.shiftLeft_eq]

/-- `FltVirtToPhys` of a mapped address. -/
theorem fltVirtToPhys_mapped (mapped : memory.virtual.Mapped addr) :
    fltVirtToPhys memory.virtual addr = memory.physAddr addr := by
  have present : fltVirtToPhys memory.virtual addr ≠ 0 :=
    fun absent => (fltVirtToPhys_eq_zero memory.virtual addr).mp absent mapped
  simp only [fltVirtToPhys] at present ⊢
  split
  · rfl
  · rename_i absent
    rw [if_neg absent] at present
    exact absurd (not_not.mp absent) present

/-- Up to the end of the page the physical addresses follow the virtual ones. -/
theorem physAddr_byteAt (memory : WiredMemory) (addr : VmOffset) {i : ℕ}
    (inPage : addr.toNat % 4096 + i < 4096) :
    truncPage (byteAt addr i) = truncPage addr ∧
      memory.physAddr (byteAt addr i) = byteAt (memory.physAddr addr) i := by
  have bound := addr.isLt
  have samePage : truncPage (byteAt addr i) = truncPage addr := by
    simp only [byteAt, ← BitVec.toNat_inj, truncPage_toNat, BitVec.toNat_add, BitVec.toNat_ofNat]
    omega
  refine ⟨samePage, ?_⟩
  have frame := (memory.frame (truncPage addr)).isLt
  rw [← BitVec.toNat_inj, physAddr_toNat, samePage]
  simp only [byteAt, BitVec.toNat_add, BitVec.toNat_ofNat, physAddr_toNat]
  omega

theorem byteAt_zero (start : VmOffset) : byteAt start 0 = start := BitVec.add_zero start

theorem byteAt_toNat (start cnt : VmOffset) : byteAt start cnt.toNat = start + cnt := by
  rw [byteAt, BitVec.ofNat_toNat, BitVec.setWidth_eq]

theorem byteAt_byteAt (start : VmOffset) (i j : ℕ) :
    byteAt (byteAt start i) j = byteAt start (i + j) := by
  rw [byteAt, byteAt, byteAt, BitVec.ofNat_add, BitVec.add_assoc]

theorem smaller_toNat (a b : VmOffset) : (if a > b then b else a).toNat = min a.toNat b.toNat := by
  split
  · rename_i greater
    exact (Nat.min_eq_right (Nat.le_of_lt (BitVec.lt_def.mp greater))).symm
  · rename_i notGreater
    exact (Nat.min_eq_left (Nat.le_of_not_lt fun less => notGreater (BitVec.lt_def.mpr less))).symm

theorem chunkCnt_toNat (curPhysSrc curPhysDst resid : VmOffset) :
    (chunkCnt curPhysSrc curPhysDst resid).toNat =
      min (min (4096 - curPhysSrc.toNat % 4096) (4096 - curPhysDst.toNat % 4096)) resid.toNat := by
  have rest : ∀ addr : VmOffset, (pageSize - (addr &&& 0xfff)).toNat = 4096 - addr.toNat % 4096 := by
    intro addr
    rw [BitVec.toNat_sub, pageOffset_toNat, pageSize, BitVec.toNat_ofNat]
    omega
  rw [chunkCnt, smaller_toNat, smaller_toNat, rest, rest]

end Translation

section Prefix
variable {memory after : WiredMemory} {src dst : VmOffset}

/-- The first `n` bytes of the destination are those that the source had, and
no other byte has changed. -/
structure Copied (memory : WiredMemory) (src dst : VmOffset) (n : ℕ) (after : WiredMemory) : Prop where
  frame : after.frame = memory.frame
  copied : ∀ i < n, after.phys (memory.physAddr (byteAt dst i)) =
    memory.phys (memory.physAddr (byteAt src i))
  untouched : ∀ addr, (∀ i < n, addr ≠ memory.physAddr (byteAt dst i)) →
    after.phys addr = memory.phys addr

/-- The physical bytes of the destination overlap neither one another nor those
of the source. -/
structure NoOverlap (memory : WiredMemory) (src dst : VmOffset) (len : ℕ) : Prop where
  source : ∀ i < len, ∀ j < len, memory.virtual.Mapped (byteAt dst i) →
    memory.virtual.Mapped (byteAt src j) →
    memory.physAddr (byteAt dst i) ≠ memory.physAddr (byteAt src j)
  destination : ∀ i < len, ∀ j < len, memory.virtual.Mapped (byteAt dst i) →
    memory.virtual.Mapped (byteAt dst j) →
    i ≠ j → memory.physAddr (byteAt dst i) ≠ memory.physAddr (byteAt dst j)

/-- Both bytes number `i` are on pages that are there. -/
def BothMapped (memory : WiredMemory) (src dst : VmOffset) (i : ℕ) : Prop :=
  memory.virtual.Mapped (byteAt src i) ∧ memory.virtual.Mapped (byteAt dst i)

theorem physAddr_congr (sameFrames : after.frame = memory.frame) :
    after.physAddr = memory.physAddr := by
  funext addr
  rw [WiredMemory.physAddr, WiredMemory.physAddr, sameFrames]

theorem mapped_congr (sameFrames : after.frame = memory.frame) (addr : VmOffset) :
    after.virtual.Mapped addr ↔ memory.virtual.Mapped addr := by
  rw [Memory.Mapped, Memory.Mapped, WiredMemory.virtual, WiredMemory.virtual, sameFrames]

theorem Copied.none (memory : WiredMemory) (src dst : VmOffset) : Copied memory src dst 0 memory where
  frame := rfl
  copied _ before := absurd before (Nat.not_lt_zero _)
  untouched _ _ := rfl

/-- Where neither range leaves its page, one `bcopy_phys` copies the bytes. -/
theorem Copied.chunk {cnt : VmOffset} (source : src.toNat % 4096 + cnt.toNat ≤ 4096)
    (destination : dst.toNat % 4096 + cnt.toNat ≤ 4096) :
    Copied memory src dst cnt.toNat
      (memory.bcopyPhys (memory.physAddr src) (memory.physAddr dst) cnt) where
  frame := rfl
  copied i before := by
    have target := (physAddr_byteAt memory dst (show dst.toNat % 4096 + i < 4096 by omega)).2
    have origin := (physAddr_byteAt memory src (show src.toNat % 4096 + i < 4096 by omega)).2
    have bound := cnt.isLt
    have distance : byteAt (memory.physAddr dst) i - memory.physAddr dst = BitVec.ofNat 64 i := by
      rw [byteAt, BitVec.add_comm, BitVec.add_sub_cancel]
    have within : BitVec.ofNat 64 i < cnt := by
      rw [BitVec.lt_def, BitVec.toNat_ofNat, Nat.mod_eq_of_lt (by omega)]
      exact before
    rw [target, origin, WiredMemory.bcopyPhys]
    simp only [distance, within, if_true]
    rfl
  untouched addr elsewhere := by
    refine if_neg fun within => ?_
    have before := BitVec.lt_def.mp within
    apply elsewhere _ before
    rw [(physAddr_byteAt memory dst (by omega)).2, byteAt, BitVec.ofNat_toNat, BitVec.setWidth_eq,
      BitVec.add_comm, BitVec.sub_add_cancel]

/-- A copied prefix is extended by a copy that starts where it ends. -/
theorem Copied.append {between : WiredMemory} {k n : ℕ} (first : Copied memory src dst k between)
    (second : Copied between (byteAt src k) (byteAt dst k) n after)
    (mapped : ∀ i < k + n, BothMapped memory src dst i) (apart : NoOverlap memory src dst (k + n)) :
    Copied memory src dst (k + n) after := by
  have unmoved := physAddr_congr first.frame
  obtain ⟨frame, copied, untouched⟩ := second
  simp only [unmoved, byteAt_byteAt] at copied untouched
  refine ⟨frame.trans first.frame, fun i before => ?_, fun addr elsewhere => ?_⟩
  · by_cases early : i < k
    · have kept : after.phys (memory.physAddr (byteAt dst i)) =
          between.phys (memory.physAddr (byteAt dst i)) := by
        refine untouched _ fun j later => ?_
        exact apart.destination i before (k + j) (by omega) (mapped i before).2
          (mapped _ (by omega)).2 (by omega)
      rw [kept]
      exact first.copied i early
    · obtain ⟨j, rfl⟩ := Nat.exists_eq_add_of_le (Nat.le_of_not_lt early)
      rw [copied j (by omega)]
      refine first.untouched _ fun i early => ?_
      exact (apart.source i (by omega) (k + j) before (mapped i (by omega)).2 (mapped _ before).1).symm
  · have later := untouched addr fun j within => elsewhere (k + j) (by omega)
    rw [later]
    exact first.untouched addr fun i early => elsewhere i (by omega)

theorem NoOverlap.shorter {len n : ℕ} (apart : NoOverlap memory src dst len) (within : n ≤ len) :
    NoOverlap memory src dst n where
  source i early j before := apart.source i (by omega) j (by omega)
  destination i early j before := apart.destination i (by omega) j (by omega)

/-- What is left of a range without overlaps has none. -/
theorem NoOverlap.rest {len : ℕ} (k : ℕ) (apart : NoOverlap memory src dst (k + len))
    (sameFrames : after.frame = memory.frame) : NoOverlap after (byteAt src k) (byteAt dst k) len := by
  constructor
  · intro i early j within
    simp only [byteAt_byteAt, physAddr_congr sameFrames, mapped_congr sameFrames]
    exact apart.source (k + i) (by omega) (k + j) (by omega)
  · intro i early j within
    simp only [byteAt_byteAt, physAddr_congr sameFrames, mapped_congr sameFrames]
    intro target other different
    exact apart.destination (k + i) (by omega) (k + j) (by omega) target other (by omega)

end Prefix

section Loop
variable {memory after : WiredMemory} {src dst : VmOffset}

/-- A chunk starts at corresponding bytes of the two ranges, and lies within the
physical page behind the one and that behind the other. -/
def Chunk.WithinFrames (memory : WiredMemory) (src dst : VmOffset) (chunk : Chunk) : Prop :=
  (∃ k, chunk.src = memory.physAddr (byteAt src k) ∧ chunk.dst = memory.physAddr (byteAt dst k)) ∧
    ∀ i < chunk.cnt.toNat, truncPage (byteAt chunk.src i) = truncPage chunk.src ∧
      truncPage (byteAt chunk.dst i) = truncPage chunk.dst

/-- The longest prefix of both ranges that is there was copied. -/
structure PrefixCopied (memory : WiredMemory) (src dst : VmOffset) (len n : ℕ)
    (after : WiredMemory) : Prop where
  within : n ≤ len
  mapped : ∀ i < n, BothMapped memory src dst i
  stopped : n < len → ¬BothMapped memory src dst n
  copied : Copied memory src dst n after

theorem PrefixCopied.stop {len : ℕ} (stopped : 0 < len → ¬BothMapped memory src dst 0) :
    PrefixCopied memory src dst len 0 memory where
  within := Nat.zero_le len
  mapped _ before := absurd before (Nat.not_lt_zero _)
  stopped := stopped
  copied := .none memory src dst

/-- Both addresses follow their frames up to the end of the chunk. -/
theorem withinFrames_of_page {cnt : VmOffset} (source : src.toNat % 4096 + cnt.toNat ≤ 4096)
    (destination : dst.toNat % 4096 + cnt.toNat ≤ 4096) :
    Chunk.WithinFrames memory src dst ⟨memory.physAddr src, memory.physAddr dst, cnt⟩ := by
  refine ⟨⟨0, by rw [byteAt_zero], by rw [byteAt_zero]⟩, fun i before => ?_⟩
  have inPage : ∀ addr : VmOffset, addr.toNat % 4096 + cnt.toNat ≤ 4096 →
      truncPage (byteAt (memory.physAddr addr) i) = truncPage (memory.physAddr addr) := by
    intro addr fits
    refine (physAddr_byteAt memory _ ?_).1
    have offset := physAddr_toNat memory addr
    change i < cnt.toNat at before
    omega
  exact ⟨inPage src source, inPage dst destination⟩

/-- The chunks of what follows a copied part are chunks of the whole. -/
theorem Chunk.WithinFrames.rest {chunk : Chunk} {k : ℕ} (sameFrames : after.frame = memory.frame)
    (within : chunk.WithinFrames after (byteAt src k) (byteAt dst k)) :
    chunk.WithinFrames memory src dst := by
  obtain ⟨⟨j, source, destination⟩, frames⟩ := within
  rw [byteAt_byteAt, physAddr_congr sameFrames] at source destination
  exact ⟨⟨k + j, source, destination⟩, frames⟩

/-- A mapped chunk: both of its addresses are mapped all along. -/
theorem bothMapped_of_page {cnt : ℕ} (source : src.toNat % 4096 + cnt ≤ 4096)
    (destination : dst.toNat % 4096 + cnt ≤ 4096) (sourceMapped : memory.virtual.Mapped src)
    (destinationMapped : memory.virtual.Mapped dst) : ∀ i < cnt, BothMapped memory src dst i := by
  intro i before
  have samePages := And.intro (physAddr_byteAt memory src (show src.toNat % 4096 + i < 4096 by omega)).1
    (physAddr_byteAt memory dst (show dst.toNat % 4096 + i < 4096 by omega)).1
  exact ⟨(Memory.mapped_congr samePages.1).mpr sourceMapped,
    (Memory.mapped_congr samePages.2).mpr destinationMapped⟩

/-- A chunk and the longest prefix of what follows it make the longest prefix. -/
theorem PrefixCopied.append {between : WiredMemory} {k len n : ℕ}
    (first : Copied memory src dst k between) (firstMapped : ∀ i < k, BothMapped memory src dst i)
    (rest : PrefixCopied between (byteAt src k) (byteAt dst k) len n after)
    (apart : NoOverlap memory src dst (k + len)) :
    PrefixCopied memory src dst (k + len) (k + n) after := by
  have same : ∀ i, BothMapped between (byteAt src k) (byteAt dst k) i ↔
      BothMapped memory src dst (k + i) := by
    intro i
    simp only [BothMapped, byteAt_byteAt, mapped_congr first.frame]
  have mapped : ∀ i < k + n, BothMapped memory src dst i := by
    intro i before
    by_cases early : i < k
    · exact firstMapped i early
    · obtain ⟨j, rfl⟩ := Nat.exists_eq_add_of_le (Nat.le_of_not_lt early)
      exact (same j).mp (rest.mapped j (by omega))
  refine ⟨Nat.add_le_add_left rest.within k, mapped, fun more => ?_, ?_⟩
  · rw [← same]
    exact rest.stopped (Nat.lt_of_add_lt_add_left more)
  · exact first.append rest.copied mapped (apart.shorter (Nat.add_le_add_left rest.within k))

/-- A run of the loop is left with the longest prefix copied, in chunks within
frames, and `resid` the number of the bytes that are not. -/
def CopiesPrefix (memory : WiredMemory) (src dst resid : VmOffset)
    (run : ScanM (WiredMemory × VmOffset × List Chunk)) : Prop :=
  ∃ after left chunks n, run = .ok (after, left, chunks) ∧ n + left.toNat = resid.toNat ∧
    PrefixCopied memory src dst resid.toNat n after ∧
    ∀ chunk ∈ chunks, chunk.WithinFrames memory src dst

theorem copiesPrefix_stop {resid : VmOffset}
    (stopped : 0 < resid.toNat → ¬BothMapped memory src dst 0) :
    CopiesPrefix memory src dst resid (pure (memory, resid, [])) :=
  ⟨memory, resid, [], 0, rfl, Nat.zero_add _, .stop stopped, fun _ member => by cases member⟩

theorem copyChunks_spec (fuel : ℕ) (memory : WiredMemory) (src dst resid : VmOffset)
    (enough : resid.toNat < fuel) (apart : NoOverlap memory src dst resid.toNat) :
    CopiesPrefix memory src dst resid (copyChunks fuel memory src dst resid) := by
  induction fuel generalizing memory src dst resid with
  | zero => cases enough
  | succ fuel ih =>
    simp only [copyChunks, fltVirtToPhys_eq_zero]
    by_cases finished : resid = 0
    · rw [if_pos finished]
      exact copiesPrefix_stop fun more => absurd more (by simp [finished])
    by_cases destinationMapped : memory.virtual.Mapped dst
    swap
    · rw [if_neg finished, if_pos destinationMapped]
      exact copiesPrefix_stop fun _ both => destinationMapped (byteAt_zero dst ▸ both.2)
    by_cases sourceMapped : memory.virtual.Mapped src
    swap
    · rw [if_neg finished, if_neg (not_not.mpr destinationMapped), if_pos sourceMapped]
      exact copiesPrefix_stop fun _ both => sourceMapped (byteAt_zero src ▸ both.1)
    rw [if_neg finished, if_neg (not_not.mpr destinationMapped), if_neg (not_not.mpr sourceMapped),
      fltVirtToPhys_mapped sourceMapped, fltVirtToPhys_mapped destinationMapped]
    have size := chunkCnt_toNat (memory.physAddr src) (memory.physAddr dst) resid
    simp only [physAddr_toNat, Nat.mul_add_mod', Nat.mod_mod] at size
    generalize chunkCnt (memory.physAddr src) (memory.physAddr dst) resid = cnt at size ⊢
    have more : 0 < resid.toNat := Nat.pos_of_ne_zero fun none => finished (BitVec.eq_of_toNat_eq none)
    have source : src.toNat % 4096 + cnt.toNat ≤ 4096 := by omega
    have destination : dst.toNat % 4096 + cnt.toNat ≤ 4096 := by omega
    have left : (resid - cnt).toNat = resid.toNat - cnt.toNat := by
      rw [BitVec.toNat_sub_of_le]
      rw [BitVec.le_def]
      omega
    have first : Copied memory src dst cnt.toNat _ := .chunk source destination
    have total : resid.toNat = cnt.toNat + (resid - cnt).toNat := by omega
    have ready : NoOverlap memory src dst (cnt.toNat + (resid - cnt).toNat) := total ▸ apart
    have following :=
      ih (memory.bcopyPhys (memory.physAddr src) (memory.physAddr dst) cnt) (src + cnt) (dst + cnt)
      (resid - cnt) (by omega) (by
        rw [← byteAt_toNat, ← byteAt_toNat]
        exact ready.rest cnt.toNat first.frame)
    obtain ⟨after, rest, chunks, n, ran, counted, copied, within⟩ := following
    rw [← byteAt_toNat, ← byteAt_toNat] at copied
    refine ⟨after, rest, ⟨memory.physAddr src, memory.physAddr dst, cnt⟩ :: chunks, cnt.toNat + n,
      ?_, by omega, ?_, ?_⟩
    · rw [ran]
      rfl
    · rw [total]
      exact .append first (bothMapped_of_page source destination sourceMapped destinationMapped)
        copied ready
    · intro chunk member
      cases member with
      | head => exact withinFrames_of_page source destination
      | tail _ later =>
        have following := within chunk later
        rw [← byteAt_toNat, ← byteAt_toNat] at following
        exact following.rest first.frame

end Loop

/-- The lengths up to which all the pages of both ranges are there. -/
def readyLengths (memory : WiredMemory) (src dst len : VmOffset) : Set ℕ :=
  {n | n ≤ len.toNat ∧ ∀ i < n, BothMapped memory src dst i}

/-- `FltWriteWiredSrcToWiredDst` copies the longest prefix whose pages are all
there, and returns how long it is. Nothing else in physical memory changes, and no
chunk leaves the page it starts on. -/
theorem wired_copy_prefix (memory : WiredMemory) (src dst len : VmOffset) (short : len.toNat < 2 ^ 32)
    (apart : NoOverlap memory src dst len.toNat) :
    ∃ n after chunks, fltWriteWiredSrcToWiredDst memory src dst len = .ok (n, after, chunks) ∧
      IsGreatest (readyLengths memory src dst len) n.toNat ∧
      (∀ i < n.toNat, after.virtual.byte (byteAt dst i) = memory.virtual.byte (byteAt src i)) ∧
      (∀ addr, (∀ i < n.toNat, addr ≠ memory.physAddr (byteAt dst i)) →
      after.phys addr = memory.phys addr) ∧
      after.frame = memory.frame ∧ (∀ chunk ∈ chunks, chunk.WithinFrames memory src dst) ∧
      ((∀ i < len.toNat, BothMapped memory src dst i) → n.toNat = len.toNat) := by
  obtain ⟨after, left, chunks, n, ran, counted, copied, within⟩ :=
    copyChunks_spec (len.toNat + 1) memory src dst len (Nat.lt_succ_self _) apart
  have returned : ((len - left).setWidth 32).toNat = n := by
    rw [BitVec.toNat_setWidth, BitVec.toNat_sub_of_le (BitVec.le_def.mpr (by omega)),
      Nat.mod_eq_of_lt (by omega)]
    omega
  have greatest : IsGreatest (readyLengths memory src dst len) n := by
    refine ⟨⟨copied.within, copied.mapped⟩, fun other ready => ?_⟩
    by_contra longer
    have more : n < other := Nat.lt_of_not_le longer
    exact copied.stopped (Nat.lt_of_lt_of_le more ready.1) (ready.2 n more)
  refine ⟨(len - left).setWidth 32, after, chunks, ?_, ?_⟩
  · rw [fltWriteWiredSrcToWiredDst, ran]
    rfl
  rw [returned]
  refine ⟨greatest, fun i before => ?_, copied.copied.untouched, copied.copied.frame, within,
    fun allMapped => ?_⟩
  · change after.phys (after.physAddr (byteAt dst i)) = memory.phys (memory.physAddr (byteAt src i))
    rw [physAddr_congr copied.copied.frame]
    exact copied.copied.copied i before
  · exact Nat.le_antisymm copied.within (greatest.2 ⟨Nat.le_refl _, allMapped⟩)

/-- Two pages, each followed by one that is absent. -/
def twoPages : WiredMemory where
  phys addr := addr.setWidth 8
  frame page := if page = 0x1000 then 5 else if page = 0x3000 then 9 else 0

theorem twoPages_noOverlap : NoOverlap twoPages 0x1ffe 0x3010 4 where
  source := by decide
  destination i before j other _ _ different same := by
    have bytes : ∀ i < 4, twoPages.physAddr (byteAt 0x3010 i) = byteAt 0x9010 i := by decide
    rw [bytes i before, bytes j other, ← BitVec.toNat_inj] at same
    simp only [byteAt, BitVec.toNat_add, BitVec.toNat_ofNat] at same
    omega

/-- The source of four bytes ends after two on a page that is not followed by another. -/
theorem wired_copy_prefix_page_end :
    ∃ n after chunks, fltWriteWiredSrcToWiredDst twoPages 0x1ffe 0x3010 4 =
      .ok (n, after, chunks) ∧ n = 2 ∧
      after.virtual.byte 0x3011 = twoPages.virtual.byte 0x1fff ∧
      after.phys 0x9012 = twoPages.phys 0x9012 := by
  obtain ⟨n, after, chunks, ran, greatest, copied, untouched, -⟩ :=
    wired_copy_prefix twoPages 0x1ffe 0x3010 4 (by decide) twoPages_noOverlap
  have firstTwo : ∀ i < 2, BothMapped twoPages 0x1ffe 0x3010 i := by
    unfold BothMapped
    decide
  have noMore : ¬BothMapped twoPages 0x1ffe 0x3010 2 := by
    unfold BothMapped
    decide
  have two : n.toNat = 2 := by
    refine greatest.unique ⟨⟨by decide, firstTwo⟩, fun other ready => ?_⟩
    by_contra more
    exact noMore (ready.2 2 (Nat.lt_of_not_le more))
  refine ⟨n, after, chunks, ran, BitVec.eq_of_toNat_eq two, copied 1 (by omega), untouched _ ?_⟩
  rw [two]
  decide
end FsdFilter.WiredCopy
