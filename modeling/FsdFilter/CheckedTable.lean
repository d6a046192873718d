import FsdFilter.TableInvariant

/-! The operations with the assertions of the source on their lists: the first entry of
a bucket has none before it, the last one that is evicted has none behind it, and a DBG
build counts the entries that a search without success passes. On a reachable table no
assertion stops them. What the source asserts of data and of allocations is left out. -/
namespace FsdFilter.CheckedTable
open SizedBlocks LinkedLists StateRuns CommonHashTable TableMemory ChainEdits TableRepresentation
open TableSearch TableOperations EntryCreation TableInsertion TableCreation TableRelease TableRehash
open InsertOutcomes AllocationFailures TableInvariant

variable {D α β : Type} {kernel : Kernel} {h h' : Heap D} {t t' : HashTable D} {nodes : List Addr}
  {chain : UInt → List Addr} {a : Addr} {b : UInt} {key : HashKey} {pData : Option D}

/-- What stops a build with assertions. -/
inductive Stop where
  | fault (fault : Fault)
  | assertion
  deriving DecidableEq, Repr

/-- Code of a build with assertions. -/
abbrev CheckedM (D : Type) : Type → Type := StateT (Heap D) (Except Stop)

/-- Code that asserts nothing. -/
def release (code : HashM D α) : CheckedM D α := fun h =>
  match code h with
  | .ok result => .ok result
  | .error fault => .error (.fault fault)

/-- `assert`. -/
def kassert (condition : Prop) [Decidable condition] : CheckedM D Unit :=
  if condition then pure () else throw .assertion

/-! ### The operations with their assertions -/

section Operations
variable (kernel : Kernel) (pHt : HashTable D)

/-- "Check that the first element in the list really is the first." -/
def assertHead (lBucket : UInt) : CheckedM D Unit :=
  match pHt.ppEntries lBucket with
  | some pE => do kassert ((← release (field (·.pPrev) pE)) = none)
  | none => pure ()

/-- The loop of `search_in_bucket`, with the entries that it passed so far. -/
def checkedSearchFrom (lBucket : UInt) (pKey : HashKey) (iHeuristics : BitVec 8) :
    ℕ → ℕ → Option Addr → CheckedM D (Option Addr × HashTable D)
  | _, entries, none => do
    if kernel.dbg then
      kassert (BitVec.ofNat 32 entries = pHt.pNr lBucket)
    pure (none, pHt)
  | 0, _, some _ => throw (.fault .endless)
  | fuel + 1, entries, some pE => do
    if sameKey (← release (field (·.key) pE)) pKey then
      release (found pHt lBucket iHeuristics pE)
    else
      checkedSearchFrom lBucket pKey iHeuristics fuel (entries + 1) (← release (field (·.pNext) pE))

/-- `search_in_bucket`. -/
def checkedSearch (lBucket : UInt) (pKey : HashKey) (iHeuristics : BitVec 8) :
    CheckedM D (Option Addr × HashTable D) := do
  let h ← get
  checkedSearchFrom kernel pHt lBucket pKey iHeuristics h.blocks.fresh 0 (pHt.ppEntries lBucket)

/-- `ght_get`. -/
def checkedGet (key : HashKey) : CheckedM D (Option D × HashTable D) := do
  assertHead pHt (pHt.bucketOf key)
  let (pE, pHt) ← checkedSearch kernel pHt (pHt.bucketOf key) key (pHt.iHeuristics.setWidth 8)
  match pE with
  | some pE => do
    let pData ← release (field (·.pData) pE)
    pure (pData, pHt)
  | none => pure (none, pHt)

/-- `ght_replace`. -/
def checkedReplace (pEntryData : Option D) (key : HashKey) : CheckedM D (Option D × HashTable D) := do
  assertHead pHt (pHt.bucketOf key)
  let (pE, pHt) ← checkedSearch kernel pHt (pHt.bucketOf key) key (pHt.iHeuristics.setWidth 8)
  match pE with
  | some pE => do
    let pOld ← release (field (·.pData) pE)
    release (setData pE pEntryData)
    pure (pOld, pHt)
  | none => pure (none, pHt)

/-- `ght_remove`. -/
def checkedRemove (key : HashKey) : CheckedM D (Option D × HashTable D) := do
  let lKey := pHt.bucketOf key
  assertHead pHt lKey
  let (pOut, pHt) ← checkedSearch kernel pHt lKey key 0
  match pOut with
  | some pOut => do
    let pHt ← release (removeFromChain pHt lKey pOut)
    let pHt := { pHt with iItems := pHt.iItems - 1, pNr := Function.update pHt.pNr lKey (pHt.pNr lKey - 1) }
    let pRet ← release (field (·.pData) pOut)
    release (heFinalize kernel pOut)
    pure (pRet, pHt)
  | none => pure (none, pHt)

/-- `ght_insert` counts the new entry, or evicts the last one of its bucket. -/
def checkedCount (lKey : UInt) (pEntry : Addr) : CheckedM D (HashTable D) := do
  if pHt.bucketLimit ≠ 0 ∧ pHt.bucketLimit ≤ pHt.pNr lKey then
    let h ← get
    let p ← release (lastFrom h.blocks.fresh pEntry)
    kassert ((← release (field (·.pNext) p)) = none)
    let pHt ← release (removeFromChain pHt lKey p)
    let pHt ← release (callBucketFree pHt (← release (field (·.pData) p)) (← release (field (·.key) p)))
    release (heFinalize kernel p)
    pure pHt
  else
    let pHt := { pHt with pNr := Function.update pHt.pNr lKey (pHt.pNr lKey + 1) }
    assertHead pHt lKey
    pure { pHt with iItems := pHt.iItems + 1 }

/-- `ght_insert` from where the new entry is placed first in its bucket. -/
def checkedPlace (lKey : UInt) (pEntry : Addr) : CheckedM D (HashTable D) := do
  let pHt ← release (pushEntry pHt lKey pEntry)
  let pHt ← checkedCount kernel pHt lKey pEntry
  release (appendEntry pHt pEntry)

/-- `ght_insert`, given what it calls to rehash. -/
def checkedInsertWith (rehash : HashTable D → UInt → CheckedM D (HashTable D))
    (pEntryData : Option D) (key : HashKey) :
    CheckedM D (StatusCode × HashTable D) := do
  let (found, pHt) ← checkedSearch kernel pHt (pHt.bucketOf key) key 0
  if found ≠ none then
    pure (.ghtAlreadyInHash, pHt)
  else
    match ← release (heCreate kernel pHt pEntryData key) with
    | none => pure (.ghtError, pHt)
    | some pEntry =>
      let pHt ←
        if pHt.iAutomaticRehash && 2 * pHt.iSize < pHt.iItems then rehash pHt (2 * pHt.iSize)
        else pure pHt
      let pHt ← checkedPlace kernel pHt (pHt.bucketOf key) pEntry
      pure (.ghtOk, pHt)

end Operations

section Rehash
variable (kernel : Kernel)

/-- The loop of `ght_rehash` over the entries of the old table. -/
def checkedReinsertFrom : ℕ → HashTable D → Iterator → Option D → CheckedM D (HashTable D)
  | _, pTmp, _, none => pure pTmp
  | 0, _, _, some _ => throw (.fault .endless)
  | fuel + 1, pTmp, iterator, some _ => do
    kassert (iterator.pEntry ≠ none)
    let pEntry ← release (deref iterator.pEntry)
    let pData ← release (field (·.pData) pEntry)
    let key ← release (field (·.key) pEntry)
    let (_, pTmp) ← checkedInsertWith kernel pTmp (fun _ _ => throw (.fault .nestedRehash)) pData key
    let (iterator, p) ← release (ghtNext iterator)
    checkedReinsertFrom fuel pTmp iterator p

/-- `ght_rehash`. -/
def checkedRehash (pHt : HashTable D) (iSize : UInt) : CheckedM D (HashTable D) := do
  match ← release (ghtCreate kernel iSize pHt.nonBlock) with
  | none => throw (.fault .nullDereference)
  | some pTmp =>
    let pTmp := ghtSetRehash (ghtSetHeuristics (ghtSetHash pTmp pHt.fnHash) 0) false
    let (iterator, p) ← release (ghtFirst pHt)
    let h ← get
    let pTmp ← checkedReinsertFrom kernel h.blocks.fresh pTmp iterator p
    release (freeBuckets kernel pHt pHt.iSize.toNat)
    release (fnFree pHt.entriesBlock (pHt.iSize.toNat * 8))
    release (fnFree pHt.nrBlock (pHt.iSize.toNat * 4))
    release (fnFree pTmp.header sizeofHashTable)
    pure { pHt with
      iSize := pTmp.iSize, iSizeMask := pTmp.iSizeMask, iItems := pTmp.iItems,
        ppEntries := pTmp.ppEntries,
      pNr := pTmp.pNr, pOldest := pTmp.pOldest, pNewest := pTmp.pNewest,
      entriesBlock := pTmp.entriesBlock, nrBlock := pTmp.nrBlock }

/-- `ght_insert`. -/
def checkedInsert (pHt : HashTable D) (pEntryData : Option D) (key : HashKey) :
    CheckedM D (StatusCode × HashTable D) :=
  checkedInsertWith kernel pHt (checkedRehash kernel) pEntryData key

end Rehash

/-! ### Rules -/

/-- A step with assertions does what the plain one does. -/
def Agrees (checked : CheckedM D α) (plain : HashM D α) (h : Heap D) : Prop :=
  checked h = release plain h

/-- Two steps agree when the first ones do, and the second ones wherever the first returned. -/
theorem Agrees.bind {first : CheckedM D α} {plain : HashM D α} {next : α → CheckedM D β}
    {next' : α → HashM D β} (same : Agrees first plain h)
    (rest : ∀ x h', plain h = .ok (x, h') → Agrees (next x) (next' x) h') :
    Agrees (first >>= next) (plain >>= next') h := by
  cases ran : plain h with
  | ok result =>
    have returned : first h = .ok (result.1, result.2) := same.trans (by rw [release, ran])
    have plainRan : plain h = .ok (result.1, result.2) := ran
    rw [Agrees, bind_ok returned, release, bind_ok plainRan]
    exact rest _ _ plainRan
  | error fault =>
    have stopped : first h = .error (.fault fault) := same.trans (by rw [release, ran])
    rw [Agrees, bind_error stopped, release, bind_error ran]

/-- A step that is the same in both. -/
theorem Agrees.after {plain : HashM D α} {next : α → CheckedM D β} {next' : α → HashM D β}
    (rest : ∀ x h', plain h = .ok (x, h') → Agrees (next x) (next' x) h') :
    Agrees (release plain >>= next) (plain >>= next') h := Agrees.bind rfl rest

/-- An assertion that holds is no step. -/
theorem kassert_bind {condition : Prop} [Decidable condition] {next : Unit → CheckedM D β}
    (holds : condition) :
    (kassert condition >>= next) h = next () h := by
  rw [kassert, if_pos holds]
  rfl

theorem release_run {plain : HashM D α} {x : α} (ran : plain h = .ok (x, h')) :
    release plain h = .ok (x, h') := by
  rw [release, ran]

/-- An assertion that holds. -/
theorem Agrees.assumed {condition : Prop} [Decidable condition] {next : CheckedM D β}
    {plain : HashM D β} (holds : condition) (rest : Agrees next plain h) :
    Agrees (kassert condition >>= fun _ => next) plain h :=
  (kassert_bind holds).trans rest

/-- An assertion on a field. -/
theorem Agrees.asserted {read : Heap D → Addr → α} {condition : α → Prop} [DecidablePred condition]
    {next : CheckedM D β} {plain : HashM D β} (live : h.blocks.live a = true)
    (holds : condition (read h a)) (rest : Agrees next plain h) :
    Agrees (release (field read a) >>= fun x => kassert (condition x) >>= fun _ => next) plain h := by
  rw [Agrees, bind_ok (release_run (field_run read live)), kassert_bind holds]
  exact rest

/-- The first entry of a chain has none before it. -/
theorem assertHead_run (linkage : Linkage h t nodes chain) (b : UInt) :
    assertHead t b h = .ok ((), h) := by
  have linked := linkage.chained b
  have first : t.ppEntries b = (chain b).head? := linked.next_none
  rw [assertHead, first]
  cases entries : chain b with
  | nil => rfl
  | cons a rest =>
    rw [entries] at linked
    have live : h.blocks.live a = true := linkage.live a (.inr ⟨b, entries ▸ List.mem_cons_self⟩)
    have before : h.pPrev a = none := linked.2.1
    rw [List.head?_cons]
    dsimp only
    rw [bind_ok (release_run (field_run _ live)), before]
    rfl

/-! ### Searches -/

/-- A search passes as many entries as `p_nr` counts. -/
theorem checkedSearchFrom_agrees {next : Option Addr → Option Addr} {prev : Addr → Option Addr}
    {x : Option Addr} {l : List Addr} (heuristics : BitVec 8) (fuel entries : ℕ)
    (links : Links next prev x l none) (fields : ∀ c, next (some c) = h.pNext c)
    (live : ∀ c ∈ l, h.blocks.live c = true)
    (counted : t.pNr b = BitVec.ofNat 32 (entries + l.length)) :
    Agrees (checkedSearchFrom kernel t b key heuristics fuel entries l.head?)
      (searchFrom t b key heuristics fuel l.head?) h := by
  induction l generalizing x fuel entries with
  | nil =>
    have ended : Agrees (checkedSearchFrom kernel t b key heuristics fuel entries none)
        (pure (none, t)) h := by
      have passed : BitVec.ofNat 32 entries = t.pNr b := counted.symm
      rw [checkedSearchFrom]
      split
      · exact .assumed passed rfl
      · rfl
    cases fuel <;> exact ended
  | cons c rest ih =>
    cases fuel with
    | zero => rfl
    | succ fuel =>
      obtain ⟨-, -, links⟩ := links
      have following : h.pNext c = rest.head? := by
        rw [← fields c, links.next_eq, Option.or_none]
      rw [List.length_cons, ← Nat.add_assoc, Nat.add_right_comm] at counted
      rw [List.head?_cons, checkedSearchFrom, searchFrom]
      refine .after fun k h₁ read => ?_
      cases (field_run _ (live c List.mem_cons_self)).symm.trans read
      by_cases here : sameKey (h.key c) key = true
      · rw [if_pos here, if_pos here]
        rfl
      · rw [if_neg here, if_neg here]
        refine .after fun p h₁ read => ?_
        cases (field_run _ (live c List.mem_cons_self)).symm.trans read
        rw [following]
        exact ih fuel (entries + 1) links (fun d member => live d (List.mem_cons_of_mem _ member)) counted

theorem checkedSearch_agrees (represents : Represents kernel h t nodes chain) (b : UInt) (key : HashKey)
    (heuristics : BitVec 8) :
    Agrees (checkedSearch kernel t b key heuristics) (searchInBucket t b key heuristics) h := by
  have linked := represents.linkage.chained b
  have first : t.ppEntries b = (chain b).head? := linked.next_none
  have counted : t.pNr b = BitVec.ofNat 32 (0 + (chain b).length) := by
    rw [Nat.zero_add]
    exact represents.indexed.nr b
  rw [checkedSearch, searchInBucket, Agrees, release, get_bind, get_bind, first]
  exact checkedSearchFrom_agrees heuristics _ 0 linked (fun _ => rfl)
    (fun c member => represents.linkage.live c (.inr ⟨b, member⟩)) counted

/-- The first assertion of an operation. -/
theorem Agrees.headed {next : CheckedM D β} {plain : HashM D β}
    (represents : Represents kernel h t nodes chain) (b : UInt) (rest : Agrees next plain h) :
    Agrees (assertHead t b >>= fun _ => next) plain h :=
  (bind_ok (assertHead_run represents.linkage b)).trans rest

theorem checkedGet_agrees (represents : Represents kernel h t nodes chain) (key : HashKey) :
    Agrees (checkedGet kernel t key) (ghtGet t key) h := by
  refine .headed represents _ (.bind (checkedSearch_agrees represents ..) ?_)
  rintro ⟨pE, t₁⟩ h₁ -
  cases pE with
  | none => rfl
  | some pE => exact .after fun _ _ _ => rfl

theorem checkedReplace_agrees (represents : Represents kernel h t nodes chain) (pData : Option D)
    (key : HashKey) :
    Agrees (checkedReplace kernel t pData key) (ghtReplace t pData key) h := by
  refine .headed represents _ (.bind (checkedSearch_agrees represents ..) ?_)
  rintro ⟨pE, t₁⟩ h₁ -
  cases pE with
  | none => rfl
  | some pE => exact .after fun _ _ _ => .after fun _ _ _ => rfl

theorem checkedRemove_agrees (represents : Represents kernel h t nodes chain) (key : HashKey) :
    Agrees (checkedRemove kernel t key) (ghtRemove kernel t key) h := by
  refine .headed represents _ (.bind (checkedSearch_agrees represents ..) ?_)
  rintro ⟨pOut, t₁⟩ h₁ -
  cases pOut with
  | none => rfl
  | some pOut => exact .after fun _ _ _ => .after fun _ _ _ => .after fun _ _ _ => rfl

/-! ### Insertions -/

/-- The last entry of a bucket has none behind it. -/
theorem last_next (linkage : Linkage h t nodes chain) {p : Addr} (last : (chain b).getLast? = some p) :
    h.pNext p = none := by
  obtain ⟨before, split⟩ := List.getLast?_eq_some_iff.mp last
  have linked := linkage.chained b
  rw [split] at linked
  exact linked.neighbours.2

/-- The new entry is the first of its bucket when it is counted. -/
theorem checkedCount_agrees {rest : List Addr} (linkage : Linkage h t nodes chain)
    (split : chain b = a :: rest) :
    Agrees (checkedCount kernel t b a) (countEntry kernel t b a) h := by
  rw [checkedCount, countEntry]
  by_cases full : t.bucketLimit ≠ 0 ∧ t.bucketLimit ≤ t.pNr b
  · rw [if_pos full, if_pos full]
    obtain ⟨p, last⟩ : ∃ p, (a :: rest).getLast? = some p := ⟨_, List.getLast?_cons⟩
    refine .bind rfl fun _ _ same => ?_
    cases same
    refine .after fun p' h₁ found => ?_
    cases (lastFrom_chain linkage split last).symm.trans found
    have inChain : p ∈ chain b := split ▸ List.mem_of_getLast? last
    have live : h.blocks.live p = true := linkage.live p (.inr ⟨b, inChain⟩)
    have ended : h.pNext p = none := last_next linkage (split ▸ last)
    refine .asserted live ended (.after fun _ _ _ => .after fun _ _ _ => .after fun _ _ _ => ?_)
    exact .after fun _ _ _ => .after fun _ _ _ => rfl
  · rw [if_neg full, if_neg full]
    have counted : Linkage h { t with pNr := Function.update t.pNr b (t.pNr b + 1) } nodes chain :=
      linkage.recount rfl rfl rfl
    exact bind_ok (assertHead_run counted b)

theorem checkedPlace_agrees (represents : Represents kernel h t nodes chain)
    (new : NewEntry kernel h t nodes a) :
    Agrees (checkedPlace kernel t (t.bucketOf (h.key a)) a)
      (placeEntry kernel t (t.bucketOf (h.key a)) a) h := by
  obtain ⟨h₁, pushed, -, linkage₁, -⟩ :=
    pushEntry_run represents.linkage (new.stray represents) (t.bucketOf (h.key a))
  refine .after fun t₁ h₁' ran => ?_
  cases pushed.symm.trans ran
  exact .bind (checkedCount_agrees linkage₁ (Function.update_self ..)) fun _ _ _ => rfl

/-- `ght_insert` from the test for a rehash on. -/
theorem checkedFinish_agrees (represents : Represents kernel h t nodes chain)
    (new : NewEntry kernel h t nodes a) (keyed : h.key a = key) : Agrees
      (checkedPlace kernel t (t.bucketOf key) a >>= fun t => pure (StatusCode.ghtOk, t))
      (finishInsert kernel key a t) h := by
  subst keyed
  exact .bind (checkedPlace_agrees represents new) fun _ _ _ => rfl

/-- An insertion agrees when the rehash that it may call does, and leaves a table that
the new entry can join. -/
theorem checkedInsertWith_agrees {rehash : HashTable D → UInt → CheckedM D (HashTable D)}
    {plain : HashTable D → UInt → HashM D (HashTable D)}
    (represents : Represents kernel h t nodes chain) (pData : Option D) (key : HashKey)
    (rehashes : ∀ h₁ a, overfull t = true → Represents kernel h₁ t nodes chain →
    NewEntry kernel h₁ t nodes a →
      Agrees (rehash t (2 * t.iSize)) (plain t (2 * t.iSize)) h₁ ∧
        ∀ t₂ h₂, plain t (2 * t.iSize) h₁ = .ok (t₂, h₂) →
          h₂.key a = h₁.key a ∧ ∃ nodes₂ chain₂, Represents kernel h₂ t₂ nodes₂ chain₂ ∧
          NewEntry kernel h₂ t₂ nodes₂ a) :
    Agrees (checkedInsertWith kernel t rehash pData key) (insertWith kernel plain t pData key) h := by
  refine .bind (checkedSearch_agrees represents ..) ?_
  rcases present_or_absent h nodes key with ⟨c, member, rfl⟩ | absent
  · intro result h₁ ran
    cases ((searchInBucket_found represents member 0).trans found_plain).symm.trans ran
    rfl
  · intro result h₁ ran
    cases (searchInBucket_absent represents absent ..).symm.trans ran
    dsimp only
    rw [if_neg (fun some' => some' rfl), if_neg (fun some' => some' rfl)]
    refine .after fun pEntry h₁ returned => ?_
    cases pEntry with
    | none => rfl
    | some a =>
      have created := created_of_returned returned
      have represents₁ := created.extends'.represents represents
      have new₁ := created_new created represents absent
      dsimp only
      cases crowded : t.iAutomaticRehash && decide (2 * t.iSize < t.iItems) with
      | false => exact checkedFinish_agrees represents₁ new₁ created.key
      | true =>
        obtain ⟨agrees, after⟩ := rehashes h₁ a crowded represents₁ new₁
        refine .bind agrees fun t₂ h₂ rehashed => ?_
        obtain ⟨kept, nodes₂, chain₂, represents₂, new₂⟩ := after t₂ h₂ rehashed
        exact checkedFinish_agrees represents₂ new₂ (kept.trans created.key)

/-! ### Rehashes -/

/-- The loop of `ght_rehash` has an entry in its iterator as long as it runs. -/
theorem checkedReinsertFrom_agrees {tmp : HashTable D} {done rest : List Addr}
    {chained : UInt → List Addr} {fuel : ℕ}
    (copying : Copying kernel h t nodes chain rest tmp done chained) :
    Agrees (checkedReinsertFrom kernel fuel tmp (iteratorAt rest) (rest.head?.bind h.pData))
      (reinsertFrom kernel fuel tmp (iteratorAt rest) (rest.head?.bind h.pData)) h := by
  induction rest generalizing h tmp done chained fuel with
  | nil => cases fuel <;> rfl
  | cons a rest ih =>
    rw [List.head?_cons, Option.bind_some]
    cases data : h.pData a with
    | none => cases fuel <;> rfl
    | some d =>
      cases fuel with
      | zero => rfl
      | succ fuel =>
        have live := copying.old.linkage.live a (.inl (copying.member List.mem_cons_self))
        obtain ⟨status, h₁, tmp₁, done₁, chained₁, inserted, copying₁, -⟩ := copying.step data
        have inserts : Agrees
            (checkedInsertWith kernel tmp (fun _ _ => throw (.fault .nestedRehash)) (h.pData a) (h.key a))
            (insertWith kernel (fun _ _ => throw .nestedRehash) tmp (h.pData a) (h.key a)) h := by
          refine checkedInsertWith_agrees copying.new _ _ fun _ _ crowded => ?_
          rw [overfull, copying.still, Bool.false_and] at crowded
          cases crowded
        refine .assumed (Option.some_ne_none a) (.after fun c h' same => ?_)
        cases same
        refine .after fun pData h' read => ?_
        cases (field_run _ live).symm.trans read
        refine .after fun key h' read => ?_
        cases (field_run _ live).symm.trans read
        refine .bind inserts fun result h' ran => ?_
        cases inserted.symm.trans ran
        refine .after fun following h' ran => ?_
        cases (copying₁.next a).symm.trans ran
        exact ih copying₁

theorem checkedRehash_agrees (represents : Represents kernel h t nodes chain) (iSize : UInt) :
    Agrees (checkedRehash kernel t iSize) (ghtRehash kernel t iSize) h := by
  refine .after fun pTmp h₁ returned => ?_
  cases pTmp with
  | none => rfl
  | some tmp =>
    have created := createdTable_of_returned returned
    have copying := copying_start represents created
    refine .after fun first h₂ ran => ?_
    cases (ghtFirst_run copying.old).symm.trans ran
    refine .bind rfl fun _ _ same => ?_
    cases same
    refine .bind (checkedReinsertFrom_agrees copying) fun tmp' h₃ _ => ?_
    exact .after fun _ _ _ => .after fun _ _ _ => .after fun _ _ _ => .after fun _ _ _ => rfl

/-- The new entry can join the table that a rehash leaves. -/
theorem newEntry_rehashed {requested : UInt} (represents : Represents kernel h t nodes chain)
    (new : NewEntry kernel h t nodes a) (ran : ghtRehash kernel t requested h = .ok (t', h')) :
    h'.key a = h.key a ∧ ∃ nodes' chain', Represents kernel h' t' nodes' chain' ∧
      NewEntry kernel h' t' nodes' a := by
  by_cases served : requested.toNat ≤ 2 ^ 31 ∧ tableServed kernel h.blocks.attempts = true
  · obtain ⟨h₁, t₁, nodes₁, chain₁, ran₁, grows, represents₁, -, copied, -⟩ :=
      ghtRehash_run represents served.1 served.2
    cases ran.symm.trans ran₁
    obtain ⟨new₁, same⟩ :=
      newEntry_after grows new fun entry inside => (survivors_sublist ..).subset (copied ▸ inside)
    exact ⟨same.key, nodes₁, chain₁, represents₁, new₁⟩
  · obtain ⟨fault, -, stopped⟩ := ghtRehash_faults (t := t) served
    cases ran.symm.trans stopped

theorem checkedInsert_agrees (represents : Represents kernel h t nodes chain) (pData : Option D)
    (key : HashKey) :
    Agrees (checkedInsert kernel t pData key) (ghtInsert kernel t pData key) h :=
  checkedInsertWith_agrees represents pData key fun _ _ _ represents₁ new₁ =>
    ⟨checkedRehash_agrees represents₁ _, fun _ _ ran => newEntry_rehashed represents₁ new₁ ran⟩

/-! ### Reachable tables -/

/-- With the assertions every operation runs as it does without them. -/
structure AssertionsHold (kernel : Kernel) (h : Heap D) (t : HashTable D) : Prop where
  insert : ∀ pData key, Agrees (checkedInsert kernel t pData key) (ghtInsert kernel t pData key) h
  get : ∀ key, Agrees (checkedGet kernel t key) (ghtGet t key) h
  replace : ∀ pData key, Agrees (checkedReplace kernel t pData key) (ghtReplace t pData key) h
  remove : ∀ key, Agrees (checkedRemove kernel t key) (ghtRemove kernel t key) h
  rehash : ∀ iSize, Agrees (checkedRehash kernel t iSize) (ghtRehash kernel t iSize) h

/-- The lists of a reachable table are in order, and so are the counts, as far as they
can count; no assertion fails. -/
theorem invariant_reachable (reached : Reachable kernel h t) :
    ListsHold h t ∧ CountsWrap h t ∧ (total h t < 2 ^ 31 → CountsHold h t) ∧
      AssertionsHold kernel h t := by
  obtain ⟨nodes, chain, represents⟩ := reached.usable
  refine ⟨listsHold represents, countsWrap represents, countsHold represents, ?_⟩
  exact ⟨checkedInsert_agrees represents, checkedGet_agrees represents, checkedReplace_agrees represents,
    checkedRemove_agrees represents, checkedRehash_agrees represents⟩

/-- The invariant of a table with a thousand entries. -/
theorem invariant_reachable_filled :
    ∃ (h : Heap ℕ) (t : HashTable ℕ), Reachable OrderedMap.alwaysGranted h t ∧
    total h t = 1000 ∧ ListsHold h t ∧ CountsWrap h t ∧ (total h t < 2 ^ 31 → CountsHold h t) ∧
      AssertionsHold OrderedMap.alwaysGranted h t := by
  obtain ⟨h, t, nodes, chain, reached, represents, filled, -⟩ :=
    filled_reachable (by decide : 1000 ≤ 2 ^ 32)
  have count : total h t = 1000 := (total_eq represents).trans (filled_length filled)
  exact ⟨h, t, reached, count, invariant_reachable reached⟩

/-- `i_items` is 0 when there are `2^32` entries. -/
theorem counts_overflow : ∃ (h : Heap ℕ) (t : HashTable ℕ), Reachable OrderedMap.alwaysGranted h t ∧
    ¬ (ListsHold h t ∧ CountsHold h t) := by
  obtain ⟨h, t, nodes, chain, reached, represents, filled, -⟩ := filled_reachable (Nat.le_refl (2 ^ 32))
  refine ⟨h, t, reached, ?_⟩
  rintro ⟨-, counts⟩
  have many : nodes.length = 2 ^ 32 := filled_length filled
  have items := counts.items
  rw [total_eq represents, represents.indexed.items, many, BitVec.toNat_ofNat, Nat.mod_self] at items
  cases items

end FsdFilter.CheckedTable
