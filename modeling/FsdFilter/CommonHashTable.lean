import Mathlib.Algebra.Group.Nat.Defs
import FsdFilter.SizedBlocks

/-! The hash table of `CommonHashTable.cpp`: nodes in bucket chains and in a list
by age, allocated and freed one by one. The memory has one map for each field of a
node. Release semantics: the assertions of the source are compiled out. -/
namespace FsdFilter.CommonHashTable
open SizedBlocks

/-- `unsigned int`. -/
abbrev UInt : Type := BitVec 32

/-- `ght_hash_key_t`: the bytes of a key, as many as an `unsigned int` counts. -/
structure HashKey where
  bytes : List (BitVec 8)
  short : bytes.length < 2 ^ 32
  deriving DecidableEq

/-- A key of one byte. -/
def byteKey (byte : BitVec 8) : HashKey := ⟨[byte], (by decide : 1 < 2 ^ 32)⟩

/-- `i_size` of a key. -/
def HashKey.iSize (key : HashKey) : ℕ := key.bytes.length

/-- How the file was built, and which attempts to allocate succeed. -/
structure Kernel where
  dbg : Bool
  grants : ℕ → Bool

/-- `sizeof(ght_hash_entry_t)`: a DBG build has the key's shadow in it. -/
def Kernel.sizeofHashEntry (kernel : Kernel) : ℕ := if kernel.dbg then 80 else 64

/-- `sizeof(ght_hash_table_t)`. -/
def sizeofHashTable : ℕ := 96

/-- The memory: the allocated blocks and the fields of `ght_hash_entry_t`. The key
and its shadow are as long as each other. -/
structure Heap (D : Type) where
  blocks : Blocks
  pNext : Addr → Option Addr
  pPrev : Addr → Option Addr
  key : Addr → HashKey
  pData : Addr → Option D
  pOlder : Addr → Option Addr
  pNewer : Addr → Option Addr
  size : Addr → ℕ
  keyShadow : Addr → Option Addr

/-- Memory in which nothing was allocated yet. -/
def Heap.empty {D : Type} : Heap D where
  blocks := .empty
  pNext _ := none
  pPrev _ := none
  key _ := ⟨[], Nat.zero_lt_succ _⟩
  pData _ := none
  pOlder _ := none
  pNewer _ := none
  size _ := 0
  keyShadow _ := none

/-- Accesses and calls that stop the kernel, and loops that do not end. -/
inductive Fault where
  | nullDereference
  | useAfterFree (a : Addr)
  | badFree (a : Addr) (size : ℕ)
  | endless
  | nestedRehash
  | panic
  deriving DecidableEq, Repr

/-- Code of the hash table: it changes the memory or faults. -/
abbrev HashM (D : Type) : Type → Type := StateT (Heap D) (Except Fault)

/-- `ght_hash_table_t` but for `fn_bucket_free`, with the blocks of the structure and of
its two arrays. -/
structure TableFields where
  iItems : UInt
  iSize : UInt
  fnHash : HashKey → UInt
  iHeuristics : UInt
  iAutomaticRehash : Bool
  ppEntries : UInt → Option Addr
  pNr : UInt → UInt
  iSizeMask : UInt
  bucketLimit : UInt
  nonBlock : Bool
  pOldest : Option Addr
  pNewest : Option Addr
  header : Addr
  entriesBlock : Addr
  nrBlock : Addr

/-- `ght_fn_bucket_free_callback_t`: code of the table's owner, called with the data and
the key of an entry. It may do anything to the memory and, but for the pointer to itself,
to the table. -/
abbrev BucketFree (D : Type) : Type := Option D → HashKey → TableFields → HashM D TableFields

/-- `ght_hash_table_t`. -/
structure HashTable (D : Type) extends TableFields where
  fnBucketFree : Option (BucketFree D)

/-- `ght_iterator_t`. -/
structure Iterator where
  pEntry : Option Addr
  pNext : Option Addr

/-- `GHT_STATUS_CODE`. -/
inductive StatusCode where
  | ghtOk | ghtAlreadyInHash | ghtError
  deriving DecidableEq, Repr

section Memory
variable {D : Type}

/-- `fn_alloc` and `mac_kalloc`. -/
def alloc (kernel : Kernel) (size : ℕ) : HashM D (Option Addr) := fun h =>
  let (block, blocks) := h.blocks.allocate kernel.grants size
  .ok (block, { h with blocks := blocks })

/-- `fn_free` and `mac_kfree`. -/
def fnFree (a : Addr) (size : ℕ) : HashM D Unit := fun h =>
  match h.blocks.free a size with
  | some blocks => .ok ((), { h with blocks := blocks })
  | none => .error (.badFree a size)

/-- Reads a field of a node; a freed one faults. -/
def field {α : Type} (read : Heap D → Addr → α) (a : Addr) : HashM D α := fun h =>
  if h.blocks.live a then .ok (read h a, h) else .error (.useAfterFree a)

/-- Writes a field of a node. -/
def assign (write : Heap D → Heap D) (a : Addr) : HashM D Unit := fun h =>
  if h.blocks.live a then .ok ((), write h) else .error (.useAfterFree a)

def setNext (a : Addr) (p : Option Addr) : HashM D Unit :=
  assign (fun h => { h with pNext := Function.update h.pNext a p }) a

def setPrev (a : Addr) (p : Option Addr) : HashM D Unit :=
  assign (fun h => { h with pPrev := Function.update h.pPrev a p }) a

def setOlder (a : Addr) (p : Option Addr) : HashM D Unit :=
  assign (fun h => { h with pOlder := Function.update h.pOlder a p }) a

def setNewer (a : Addr) (p : Option Addr) : HashM D Unit :=
  assign (fun h => { h with pNewer := Function.update h.pNewer a p }) a

def setData (a : Addr) (pData : Option D) : HashM D Unit :=
  assign (fun h => { h with pData := Function.update h.pData a pData }) a

/-- Follows a pointer. -/
def deref (p : Option Addr) : HashM D Addr :=
  match p with
  | some a => pure a
  | none => throw .nullDereference

end Memory

section Chains
variable {D : Type}

/-- `p_ht->pp_entries[l_bucket] = p`. -/
def HashTable.setBucket (pHt : HashTable D) (lBucket : UInt) (p : Option Addr) : HashTable D :=
  { pHt with ppEntries := Function.update pHt.ppEntries lBucket p }

/-- The link that leads to an entry of a bucket: that of the entry before it, or
the head of the bucket. -/
def setLink (pHt : HashTable D) (lBucket : UInt) (before p : Option Addr) : HashM D (HashTable D) :=
  match before with
  | some before => do
    setNext before p
    pure pHt
  | none => pure (pHt.setBucket lBucket p)

/-- `if (p) p->p_prev = value`. -/
def setPrevOf (p value : Option Addr) : HashM D Unit :=
  match p with
  | some a => setPrev a value
  | none => pure ()

/-- `transpose`. -/
def transpose (pHt : HashTable D) (lBucket : UInt) (pEntry : Addr) : HashM D (HashTable D) := do
  match ← field (·.pPrev) pEntry with
  | none => pure pHt
  | some pX =>
    let pA ← field (·.pPrev) pX
    let pB ← field (·.pNext) pEntry
    let pHt ← setLink pHt lBucket pA (some pEntry)
    setPrevOf pB (some pX)
    setNext pX (← field (·.pNext) pEntry)
    setPrev pX (some pEntry)
    setNext pEntry (some pX)
    setPrev pEntry pA
    pure pHt

/-- `move_to_front`. -/
def moveToFront (pHt : HashTable D) (lBucket : UInt) (pEntry : Addr) : HashM D (HashTable D) := do
  if pHt.ppEntries lBucket = some pEntry then
    pure pHt
  else
    setNext (← deref (← field (·.pPrev) pEntry)) (← field (·.pNext) pEntry)
    setPrevOf (← field (·.pNext) pEntry) (← field (·.pPrev) pEntry)
    setNext pEntry (pHt.ppEntries lBucket)
    setPrev pEntry none
    setPrev (← deref (pHt.ppEntries lBucket)) (some pEntry)
    pure (pHt.setBucket lBucket (some pEntry))

/-- The link that leads to the next newer entry: that of an entry, or `p_oldest`. -/
def setNewerLink (pHt : HashTable D) (older p : Option Addr) : HashM D (HashTable D) :=
  match older with
  | some older => do
    setNewer older p
    pure pHt
  | none => pure { pHt with pOldest := p }

/-- The link that leads to the next older entry: that of an entry, or `p_newest`. -/
def setOlderLink (pHt : HashTable D) (newer p : Option Addr) : HashM D (HashTable D) :=
  match newer with
  | some newer => do
    setOlder newer p
    pure pHt
  | none => pure { pHt with pNewest := p }

/-- `remove_from_chain`. -/
def removeFromChain (pHt : HashTable D) (lBucket : UInt) (p : Addr) : HashM D (HashTable D) := do
  let pHt ← setLink pHt lBucket (← field (·.pPrev) p) (← field (·.pNext) p)
  setPrevOf (← field (·.pNext) p) (← field (·.pPrev) p)
  let pHt ← setNewerLink pHt (← field (·.pOlder) p) (← field (·.pNewer) p)
  setOlderLink pHt (← field (·.pNewer) p) (← field (·.pOlder) p)

/-- `memcmp(..) == 0`. -/
def memcmpEqual (first second : List (BitVec 8)) (count : ℕ) : Bool :=
  first.take count = second.take count

/-- The comparison of `search_in_bucket`. -/
def sameKey (stored key : HashKey) : Bool :=
  stored.iSize = key.iSize && memcmpEqual stored.bytes key.bytes stored.iSize

/-- The loop of `search_in_bucket`. -/
def searchFrom (pHt : HashTable D) (lBucket : UInt) (pKey : HashKey) (iHeuristics : BitVec 8) :
    ℕ → Option Addr → HashM D (Option Addr × HashTable D)
  | _, none => pure (none, pHt)
  | 0, some _ => throw .endless
  | fuel + 1, some pE => do
    if sameKey (← field (·.key) pE) pKey then
      -- `GHT_HEURISTICS_MOVE_TO_FRONT` and `GHT_HEURISTICS_TRANSPOSE`
      let pHt ← if iHeuristics = 2 then moveToFront pHt lBucket pE
        else if iHeuristics = 1 then transpose pHt lBucket pE
        else pure pHt
      pure (some pE, pHt)
    else
      searchFrom pHt lBucket pKey iHeuristics fuel (← field (·.pNext) pE)

/-- `search_in_bucket`. A chain has no more entries than blocks were allocated. -/
def searchInBucket (pHt : HashTable D) (lBucket : UInt) (pKey : HashKey) (iHeuristics : BitVec 8) :
    HashM D (Option Addr × HashTable D) := do
  let h ← get
  searchFrom pHt lBucket pKey iHeuristics h.blocks.fresh (pHt.ppEntries lBucket)

end Chains

section Entries
variable {D : Type} (kernel : Kernel)

/-- The fields of a node that `he_create` fills in. -/
def Heap.filled (h : Heap D) (pHe : Addr) (pData : Option D) (key : HashKey) (size : ℕ) : Heap D :=
  { h with
    size := Function.update h.size pHe size
    pData := Function.update h.pData pHe pData
    pNext := Function.update h.pNext pHe none
    pPrev := Function.update h.pPrev pHe none
    pOlder := Function.update h.pOlder pHe none
    pNewer := Function.update h.pNewer pHe none
    key := Function.update h.key pHe key }

/-- The allocation in `he_create`: a non-blocking one that failed is tried again as a
blocking one. -/
def allocEntry (nonBlock : Bool) (size : ℕ) : HashM D (Option Addr) := do
  match ← alloc kernel size with
  | some pHe => pure (some pHe)
  | none => if nonBlock then alloc kernel size else pure none

/-- `he_create`. -/
def heCreate (pHt : HashTable D) (pData : Option D) (key : HashKey) : HashM D (Option Addr) := do
  let size := kernel.sizeofHashEntry + key.iSize
  match ← allocEntry kernel pHt.nonBlock size with
  | none => pure none
  | some pHe =>
    if kernel.dbg then
      let shadow ← alloc kernel key.iSize
      assign (fun h => { h with keyShadow := Function.update h.keyShadow pHe shadow }) pHe
      if shadow = none then
        fnFree pHe size
        pure none
      else
        assign (·.filled pHe pData key size) pHe
        pure (some pHe)
    else
      assign (·.filled pHe pData key size) pHe
      pure (some pHe)

/-- `he_finalize`. The links that a DBG build clears first are not read again. -/
def heFinalize (pHe : Addr) : HashM D Unit := do
  if kernel.dbg then
    match ← field (·.keyShadow) pHe with
    | some shadow => fnFree shadow (← field (·.key) pHe).iSize
    | none => pure ()
  fnFree pHe (← field (·.size) pHe)

/-- The loop of `free_entry_chain`. -/
def freeChainFrom : ℕ → Option Addr → HashM D Unit
  | _, none => pure ()
  | 0, some _ => throw .endless
  | fuel + 1, some pE => do
    let pENext ← field (·.pNext) pE
    heFinalize kernel pE
    freeChainFrom fuel pENext

/-- `free_entry_chain`. -/
def freeEntryChain (pEntry : Option Addr) : HashM D Unit := do
  let h ← get
  freeChainFrom kernel h.blocks.fresh pEntry

end Entries

section Tables
variable {D : Type}

/-- `ght_one_at_a_time_hash`. -/
def ghtOneAtATimeHash (key : HashKey) : UInt :=
  let mixed : UInt := key.bytes.foldl (fun (hash : UInt) (byte : BitVec 8) =>
    let hash : UInt := hash + byte.setWidth 32
    let hash : UInt := hash + hash <<< 10
    hash ^^^ hash >>> 6) 0
  let mixed := mixed + mixed <<< 3
  let mixed := mixed ^^^ mixed >>> 11
  mixed + mixed <<< 15

/-- The sizing loop of `ght_create`: `i_size` and `i` when it is left. The
processor takes a shift count modulo 32. -/
def sizeFrom (requested : UInt) : ℕ → UInt → ℕ → Option (UInt × ℕ)
  | 0, _, _ => none
  | fuel + 1, iSize, i => 
    if iSize < requested then sizeFrom requested fuel ((1 : UInt) <<< (i % 32)) (i + 1)
    else some (iSize, i)

/-- The sizing loop. When it has not ended after 33 rounds, all the shift counts
have been tried and it never ends. -/
def tableSize (requested : UInt) : Option (UInt × UInt) :=
  (sizeFrom requested 34 1 1).map fun (iSize, i) => (iSize, (1 : UInt) <<< ((i - 1) % 32) - 1)

/-- The fields as `ght_create` sets them. -/
def HashTable.created (iSize iSizeMask : UInt) (nonBlock : Bool)
    (header entriesBlock nrBlock : Addr) : HashTable D where
  iItems := 0
  iSize := iSize
  fnHash := ghtOneAtATimeHash
  fnBucketFree := none
  iHeuristics := 0
  iAutomaticRehash := false
  ppEntries _ := none
  pNr _ := 0
  iSizeMask := iSizeMask
  bucketLimit := 0
  nonBlock := nonBlock
  pOldest := none
  pNewest := none
  header := header
  entriesBlock := entriesBlock
  nrBlock := nrBlock

/-- `ght_create`. -/
def ghtCreate (kernel : Kernel) (iSize : UInt) (nonBlock : Bool) : HashM D (Option (HashTable D)) := do
  match ← alloc kernel sizeofHashTable with
  | none => pure none
  | some header =>
    match tableSize iSize with
    | none => throw .endless
    | some (iSize, iSizeMask) =>
      match ← alloc kernel (iSize.toNat * 8) with
      | none =>
        fnFree header sizeofHashTable
        pure none
      | some entriesBlock =>
        match ← alloc kernel (iSize.toNat * 4) with
        | none =>
          fnFree entriesBlock (iSize.toNat * 8)
          fnFree header sizeofHashTable
          pure none
        | some nrBlock =>
          pure (some (.created iSize iSizeMask nonBlock header entriesBlock nrBlock))

/-- `ght_set_hash`. -/
def ghtSetHash (pHt : HashTable D) (fnHash : HashKey → UInt) : HashTable D :=
  { pHt with fnHash := fnHash }

/-- `ght_set_heuristics`. -/
def ghtSetHeuristics (pHt : HashTable D) (iHeuristics : UInt) : HashTable D :=
  { pHt with iHeuristics := iHeuristics }

/-- `ght_set_rehash`. -/
def ghtSetRehash (pHt : HashTable D) (bRehash : Bool) : HashTable D :=
  { pHt with iAutomaticRehash := bRehash }

/-- `ght_set_bounded_buckets`. A limit without a callback is a panic. -/
def ghtSetBoundedBuckets (pHt : HashTable D) (limit : UInt) (fn : Option (BucketFree D)) :
    HashM D (HashTable D) := do
  let pHt := { pHt with bucketLimit := limit, fnBucketFree := fn }
  if limit ≠ 0 ∧ fn.isNone then throw .panic else pure pHt

/-- `ght_size`. -/
def ghtSize (pHt : HashTable D) : UInt := pHt.iItems

/-- The bucket of a key. -/
def HashTable.bucketOf (pHt : HashTable D) (key : HashKey) : UInt := pHt.fnHash key &&& pHt.iSizeMask

/-- The loop to the last entry of a bucket. -/
def lastFrom : ℕ → Addr → HashM D Addr
  | 0, _ => throw .endless
  | fuel + 1, p => do
    match ← field (·.pNext) p with
    | some next => lastFrom fuel next
    | none => pure p

/-- Places the new entry of `ght_insert` first in its bucket. -/
def pushEntry (pHt : HashTable D) (lKey : UInt) (pEntry : Addr) : HashM D (HashTable D) := do
  setNext pEntry (pHt.ppEntries lKey)
  setPrev pEntry none
  setPrevOf (pHt.ppEntries lKey) (some pEntry)
  pure (pHt.setBucket lKey (some pEntry))

/-- The call of `fn_bucket_free`. -/
def callBucketFree (pHt : HashTable D) (pData : Option D) (key : HashKey) : HashM D (HashTable D) := do
  match pHt.fnBucketFree with
  | some code => do
    let fields ← code pData key pHt.toTableFields
    pure { pHt with toTableFields := fields }
  | none => throw .nullDereference

/-- `ght_insert` counts the new entry, unless the bucket is full: then the last entry
of the bucket goes, after the callback has seen it. -/
def countEntry (kernel : Kernel) (pHt : HashTable D) (lKey : UInt) (pEntry : Addr) :
    HashM D (HashTable D) := do
  if pHt.bucketLimit ≠ 0 ∧ pHt.bucketLimit ≤ pHt.pNr lKey then
    let h ← get
    let p ← lastFrom h.blocks.fresh pEntry
    let pHt ← removeFromChain pHt lKey p
    let pHt ← callBucketFree pHt (← field (·.pData) p) (← field (·.key) p)
    heFinalize kernel p
    pure pHt
  else
    pure { pHt with pNr := Function.update pHt.pNr lKey (pHt.pNr lKey + 1), iItems := pHt.iItems + 1 }

/-- Makes the new entry of `ght_insert` the newest one. -/
def appendEntry (pHt : HashTable D) (pEntry : Addr) : HashM D (HashTable D) := do
  let pHt := if pHt.pOldest = none then { pHt with pOldest := some pEntry } else pHt
  setOlder pEntry pHt.pNewest
  match pHt.pNewest with
  | some newest =>
    setNewer newest (some pEntry)
    pure { pHt with pNewest := some pEntry }
  | none => pure { pHt with pNewest := some pEntry }

/-- `ght_insert` from where the new entry is placed first in its bucket. -/
def placeEntry (kernel : Kernel) (pHt : HashTable D) (lKey : UInt) (pEntry : Addr) :
    HashM D (HashTable D) := do
  let pHt ← pushEntry pHt lKey pEntry
  let pHt ← countEntry kernel pHt lKey pEntry
  appendEntry pHt pEntry

/-- `ght_insert`, given what it calls to rehash. -/
def insertWith (kernel : Kernel) (rehash : HashTable D → UInt → HashM D (HashTable D))
    (pHt : HashTable D) (pEntryData : Option D) (key : HashKey) :
    HashM D (StatusCode × HashTable D) := do
  let (found, pHt) ← searchInBucket pHt (pHt.bucketOf key) key 0
  if found ≠ none then
    pure (.ghtAlreadyInHash, pHt)
  else
    match ← heCreate kernel pHt pEntryData key with
    | none => pure (.ghtError, pHt)
    | some pEntry =>
      let pHt ←
        if pHt.iAutomaticRehash && 2 * pHt.iSize < pHt.iItems then rehash pHt (2 * pHt.iSize)
        else pure pHt
      let pHt ← placeEntry kernel pHt (pHt.bucketOf key) pEntry
      pure (.ghtOk, pHt)

/-- `ght_first`: the data and the key of the oldest entry, as a pointer to it. -/
def ghtFirst (pHt : HashTable D) : HashM D (Iterator × Option D) := do
  match pHt.pOldest with
  | some pEntry => do
    let pNext ← field (·.pNewer) pEntry
    let pData ← field (·.pData) pEntry
    pure (⟨some pEntry, pNext⟩, pData)
  | none => pure (⟨none, none⟩, none)

/-- `ght_next`. -/
def ghtNext (iterator : Iterator) : HashM D (Iterator × Option D) := do
  match iterator.pNext with
  | some pEntry => do
    let pNext ← field (·.pNewer) pEntry
    let pData ← field (·.pData) pEntry
    pure (⟨some pEntry, pNext⟩, pData)
  | none => pure (⟨none, none⟩, none)

/-- The loop of `ght_rehash` over the entries of the old table. A failed insertion
is only printed. -/
def reinsertFrom (kernel : Kernel) : ℕ → HashTable D → Iterator → Option D → HashM D (HashTable D)
  | _, pTmp, _, none => pure pTmp
  | 0, _, _, some _ => throw .endless
  | fuel + 1, pTmp, iterator, some _ => do
    let pEntry ← deref iterator.pEntry
    let pData ← field (·.pData) pEntry
    let key ← field (·.key) pEntry
    -- the temporary table does not rehash by itself
    let (_, pTmp) ← insertWith kernel (fun _ _ => throw .nestedRehash) pTmp pData key
    let (iterator, p) ← ghtNext iterator
    reinsertFrom kernel fuel pTmp iterator p

/-- Frees the entries of the first buckets. -/
def freeBuckets (kernel : Kernel) (pHt : HashTable D) : ℕ → HashM D Unit
  | 0 => pure ()
  | count + 1 => do
    freeBuckets kernel pHt count
    freeEntryChain kernel (pHt.ppEntries (BitVec.ofNat 32 count))

/-- `ght_rehash`. -/
def ghtRehash (kernel : Kernel) (pHt : HashTable D) (iSize : UInt) : HashM D (HashTable D) := do
  match ← ghtCreate kernel iSize pHt.nonBlock with
  | none => throw .nullDereference
  | some pTmp =>
    let pTmp := ghtSetRehash (ghtSetHeuristics (ghtSetHash pTmp pHt.fnHash) 0) false
    let (iterator, p) ← ghtFirst pHt
    let h ← get
    let pTmp ← reinsertFrom kernel h.blocks.fresh pTmp iterator p
    freeBuckets kernel pHt pHt.iSize.toNat
    fnFree pHt.entriesBlock (pHt.iSize.toNat * 8)
    fnFree pHt.nrBlock (pHt.iSize.toNat * 4)
    fnFree pTmp.header sizeofHashTable
    pure { pHt with
      iSize := pTmp.iSize, iSizeMask := pTmp.iSizeMask, iItems := pTmp.iItems,
      ppEntries := pTmp.ppEntries,
      pNr := pTmp.pNr, pOldest := pTmp.pOldest, pNewest := pTmp.pNewest,
      entriesBlock := pTmp.entriesBlock, nrBlock := pTmp.nrBlock }

/-- `ght_insert`. -/
def ghtInsert (kernel : Kernel) (pHt : HashTable D) (pEntryData : Option D) (key : HashKey) :
    HashM D (StatusCode × HashTable D) :=
  insertWith kernel (ghtRehash kernel) pHt pEntryData key

/-- `ght_get`; `search_in_bucket` takes the heuristics as an `unsigned char`. -/
def ghtGet (pHt : HashTable D) (key : HashKey) : HashM D (Option D × HashTable D) := do
  let (pE, pHt) ← searchInBucket pHt (pHt.bucketOf key) key (pHt.iHeuristics.setWidth 8)
  match pE with
  | some pE => do
    let pData ← field (·.pData) pE
    pure (pData, pHt)
  | none => pure (none, pHt)

/-- `ght_replace`. -/
def ghtReplace (pHt : HashTable D) (pEntryData : Option D) (key : HashKey) :
    HashM D (Option D × HashTable D) := do
  let (pE, pHt) ← searchInBucket pHt (pHt.bucketOf key) key (pHt.iHeuristics.setWidth 8)
  match pE with
  | some pE => do
    let pOld ← field (·.pData) pE
    setData pE pEntryData
    pure (pOld, pHt)
  | none => pure (none, pHt)

/-- `ght_remove`. -/
def ghtRemove (kernel : Kernel) (pHt : HashTable D) (key : HashKey) :
    HashM D (Option D × HashTable D) := do
  let lKey := pHt.bucketOf key
  let (pOut, pHt) ← searchInBucket pHt lKey key 0
  match pOut with
  | some pOut => do
    let pHt ← removeFromChain pHt lKey pOut
    let pHt := { pHt with
      iItems := pHt.iItems - 1, pNr := Function.update pHt.pNr lKey (pHt.pNr lKey - 1) }
    let pRet ← field (·.pData) pOut
    heFinalize kernel pOut
    pure (pRet, pHt)
  | none => pure (none, pHt)

/-- `ght_finalize`. -/
def ghtFinalize (kernel : Kernel) (pHt : HashTable D) : HashM D Unit := do
  freeBuckets kernel pHt pHt.iSize.toNat
  fnFree pHt.entriesBlock (pHt.iSize.toNat * 8)
  fnFree pHt.nrBlock (pHt.iSize.toNat * 4)
  fnFree pHt.header sizeofHashTable

end Tables
end FsdFilter.CommonHashTable
