import FsdFilter.TableInvariant
import FsdFilter.TableLifecycle

/-! A table with heuristics and bounded buckets, over whole sequences of calls. Each bucket
is a list of keys and data: an insertion enters its entry at the front, and the last entry
of a full bucket goes; a lookup moves what it finds as the heuristics say. With
`GHT_HEURISTICS_MOVE_TO_FRONT` a bucket keeps what was used last. -/
namespace FsdFilter.BucketCache
open SizedBlocks LinkedLists SelfOrganizingLists StateRuns CommonHashTable TableMemory ChainEdits
open TableRepresentation TableSearch TableOperations EntryCreation TableInsertion TableCreation
open TableLifecycle TableInvariant AllocationFailures OrderedMap

variable {D : Type} {kernel : Kernel} {h h' h₁ : Heap D} {t t' t₁ : HashTable D}
  {nodes nodes' : List Addr} {chain chain' : UInt → List Addr} {a : Addr} {b : UInt} {key : HashKey}

/-! ### The buckets as lists -/

/-- What the buckets hold, from the front, and what decides how they change. -/
structure Cache (D : Type) where
  bucketOf : HashKey → UInt
  iHeuristics : UInt
  limit : UInt
  bucket : UInt → List (HashKey × Option D)

/-- A new entry comes first; the last one of a full bucket goes. -/
def enter (limit : UInt) (entry : HashKey × Option D) (l : List (HashKey × Option D)) :
    List (HashKey × Option D) :=
  if limit ≠ 0 ∧ limit ≤ BitVec.ofNat 32 l.length then entry :: l.dropLast else entry :: l

/-- The bucket of a key changes. -/
def Cache.setBucket (c : Cache D) (key : HashKey) (l : List (HashKey × Option D)) : Cache D :=
  { c with bucket := Function.update c.bucket (c.bucketOf key) l }

/-- What a call does; `granted` tells whether an insertion got the memory it needs. -/
def Cache.call (c : Cache D) (granted : Bool) : Call D → Cache D
  | .insert key pData =>
    if key ∈ (c.bucket (c.bucketOf key)).map Prod.fst then c
    else if granted then c.setBucket key (enter c.limit (key, pData) (c.bucket (c.bucketOf key)))
    else c
  | .get key =>
    c.setBucket key (promote (c.iHeuristics.setWidth 8) (·.1 = key) (c.bucket (c.bucketOf key)))
  | .replace key pData => c.setBucket key
      ((promote (c.iHeuristics.setWidth 8) (·.1 = key) (c.bucket (c.bucketOf key))).map fun entry =>
        if entry.1 = key then (key, pData) else entry)
  | .remove key => c.setBucket key ((c.bucket (c.bucketOf key)).filter fun entry => entry.1 ≠ key)
  | .setHeuristics iHeuristics => { c with iHeuristics := iHeuristics }
  | .setBoundedBuckets limit _ => { c with limit := limit }
  | .rehash _ | .setRehash _ => c

/-- The calls one after the other. -/
def Cache.calls (c : Cache D) : List (Call D × Bool) → Cache D
  | [] => c
  | (call, granted) :: rest => (c.call granted call).calls rest

/-- The calls that leave the number of buckets as it is. -/
def keepsSize : Call D → Bool
  | .rehash _ => false
  | .setRehash bRehash => !bRehash
  | _ => true

/-- A limit of the buckets comes with a callback, which leaves the table alone. -/
def LimitsWell : Call D → Prop
  | .setBoundedBuckets limit fn => Bounded limit fn
  | _ => True

/-! ### The buckets of a table -/

/-- The key and the data of an entry. -/
def entryOf (h : Heap D) (a : Addr) : HashKey × Option D := (h.key a, h.pData a)

/-- What the buckets of a table hold, along the links of the chains. -/
def cacheOf (h : Heap D) (t : HashTable D) : Cache D where
  bucketOf := t.bucketOf
  iHeuristics := t.iHeuristics
  limit := t.bucketLimit
  bucket b := (chainOf h t b).map (entryOf h)

theorem bucket_eq (represents : Represents kernel h t nodes chain) (b : UInt) :
    (cacheOf h t).bucket b = (chain b).map (entryOf h) := by
  simp only [cacheOf, chainOf_eq represents]

/-- The entries that a table still has look as before. -/
theorem entryOf_of_contents (same : contents h' nodes = contents h nodes) (member : a ∈ nodes) :
    entryOf h' a = entryOf h a := List.map_inj_left.mp same a member

/-- One chain was rewritten, and the entries look the same. -/
theorem bucket_rewritten {l : List Addr} (represents : Represents kernel h t nodes chain)
    (represents' : Represents kernel h' t' nodes' (Function.update chain b l))
    (same : ∀ c ∈ nodes', entryOf h' c = entryOf h c) :
    (cacheOf h' t').bucket = Function.update (cacheOf h t).bucket b (l.map (entryOf h)) := by
  funext b'
  rw [bucket_eq represents']
  have seen : ((Function.update chain b l) b').map (entryOf h') =
      ((Function.update chain b l) b').map (entryOf h) :=
    List.map_congr_left fun c inside => same c ((represents'.indexed.inChain c b').mp inside).1
  rw [seen]
  by_cases here : b' = b
  · subst here
    simp
  · simp [Function.update_of_ne here, bucket_eq represents]

/-- The key of an entry tells it from the others in its chain. -/
theorem same_entry (represents : Represents kernel h t nodes chain) (member : a ∈ nodes) {c : Addr}
    (inChain : c ∈ chain b) : decide (c = a) = decide (h.key c = h.key a) := by
  have inNodes := ((represents.indexed.inChain c b).mp inChain).1
  have same : c = a ↔ h.key c = h.key a := ⟨congrArg h.key, represents.indexed.key_inj member inNodes⟩
  simp only [same]

theorem map_promote (represents : Represents kernel h t nodes chain) (member : a ∈ nodes)
    (heuristics : BitVec 8) (b : UInt) :
    (promote heuristics (· = a) (chain b)).map (entryOf h) =
      promote heuristics (·.1 = h.key a) ((cacheOf h t).bucket b) := by
  have keyed : ∀ c ∈ chain b, decide (c = a) = decide ((entryOf h c).1 = h.key a) :=
    fun c inside => same_entry represents member inside
  rw [bucket_eq represents, promote, promote]
  split
  · rw [toFront_congr keyed]
    exact map_toFront (entryOf h) (fun entry => entry.1 = h.key a) (chain b)
  · split
    · rw [oneUp_congr keyed]
      exact map_oneUp (entryOf h) (fun entry => entry.1 = h.key a) (chain b)
    · rfl

theorem promote_of_none {α : Type} {heuristics : BitVec 8} {p : α → Bool} {l : List α}
    (none' : ∀ x ∈ l, p x = false) :
    promote heuristics p l = l := by
  rw [promote, toFront_of_none none', oneUp_of_none none']
  simp

/-- A key that is not in the table is in no bucket. -/
theorem absent_bucket (represents : Represents kernel h t nodes chain)
    (absent : ∀ c ∈ nodes, h.key c ≠ key) (b : UInt) :
    ∀ entry ∈ (cacheOf h t).bucket b, entry.1 ≠ key := by
  intro entry inside
  rw [bucket_eq represents] at inside
  obtain ⟨c, member, rfl⟩ := List.mem_map.mp inside
  exact absent c ((represents.indexed.inChain c b).mp member).1

theorem present_bucket (represents : Represents kernel h t nodes chain) (member : a ∈ nodes) :
    h.key a ∈ ((cacheOf h t).bucket (t.bucketOf (h.key a))).map Prod.fst := by
  rw [bucket_eq represents, List.map_map]
  exact List.mem_map.mpr ⟨a, represents.indexed.mem_chain member, rfl⟩

/-! ### One call -/

theorem bucketOf_same (config : SameConfig t t') (mask : t'.iSizeMask = t.iSizeMask) :
    t'.bucketOf = t.bucketOf := by
  funext key
  rw [HashTable.bucketOf, HashTable.bucketOf, config.fnHash, mask]

/-- A bucket changed and nothing else. -/
theorem cache_rewritten {l : List Addr} (represents : Represents kernel h t nodes chain)
    (represents' : Represents kernel h' t' nodes' (Function.update chain (t.bucketOf key) l))
    (config : SameConfig t t') (mask : t'.iSizeMask = t.iSizeMask)
    (same : ∀ c ∈ nodes', entryOf h' c = entryOf h c) :
    cacheOf h' t' = (cacheOf h t).setBucket key (l.map (entryOf h)) := by
  have buckets := bucketOf_same config mask
  have bucket := bucket_rewritten represents represents' same
  simp only [cacheOf, Cache.setBucket] at bucket ⊢
  simp only [bucket, buckets, config.iHeuristics, config.bucketLimit]

/-- Links were rewritten: the entries look the same. -/
theorem entryOf_of_relinked {inside : Addr → Prop} (relinked : Relinked h h' inside) (c : Addr) :
    entryOf h' c = entryOf h c := by
  rw [entryOf, entryOf, relinked.key, relinked.pData]

/-- An entry that was created changes no bucket. -/
theorem cache_extended (represents : Represents kernel h t nodes chain) (extends' : Extends h h') :
    cacheOf h' t = cacheOf h t := by
  have buckets : (cacheOf h' t).bucket = (cacheOf h t).bucket := by
    funext b
    rw [bucket_eq (extends'.represents represents), bucket_eq represents]
    refine List.map_congr_left fun c inside => ?_
    have kept := extends'.sameNode represents c ((represents.indexed.inChain c b).mp inside).1
    rw [entryOf, entryOf, kept.key, kept.pData]
  simp only [cacheOf] at buckets ⊢
  simp only [buckets]

/-- What a call leaves: a table that still does not rehash, with the buckets as the lists
say. -/
structure Refines (kernel : Kernel) (h : Heap D) (t : HashTable D) (call : Call D) (granted : Bool)
    (h' : Heap D) (t' : HashTable D) : Prop where
  ran : call.run kernel t h = .ok (t', h')
  usable : Usable kernel h' t'
  still : t'.iAutomaticRehash = false
  cache : cacheOf h' t' = (cacheOf h t).call granted call
  served : (∀ n, kernel.grants n = true) → granted = true

theorem setBucket_self (c : Cache D) (key : HashKey) :
    c.setBucket key (c.bucket (c.bucketOf key)) = c := by
  simp [Cache.setBucket]

theorem promote_absent (represents : Represents kernel h t nodes chain)
    (absent : ∀ c ∈ nodes, h.key c ≠ key) :
    promote (t.iHeuristics.setWidth 8) (·.1 = key) ((cacheOf h t).bucket (t.bucketOf key)) =
      (cacheOf h t).bucket (t.bucketOf key) :=
  promote_of_none fun entry inside => decide_eq_false (absent_bucket represents absent _ entry inside)

/-- Other data in one entry. -/
theorem cache_withData (represents : Represents kernel h t nodes chain) (member : a ∈ nodes)
    (pData : Option D) :
    cacheOf { h with pData := Function.update h.pData a pData } t = (cacheOf h t).setBucket (h.key a)
      (((cacheOf h t).bucket (t.bucketOf (h.key a))).map fun entry =>
        if entry.1 = h.key a then (h.key a, pData) else entry) := by
  have after := Represents.withData represents a pData
  have entry : ∀ c ∈ nodes, entryOf { h with pData := Function.update h.pData a pData } c =
      if (entryOf h c).1 = h.key a then (h.key a, pData) else entryOf h c := by
    intro c inside
    by_cases here : c = a
    · subst here
      simp [entryOf]
    · have other : h.key c ≠ h.key a := fun same => here (represents.indexed.key_inj member inside same)
      simp [entryOf, other, Function.update_of_ne here]
  have buckets : (cacheOf { h with pData := Function.update h.pData a pData } t).bucket =
      ((cacheOf h t).setBucket (h.key a) (((cacheOf h t).bucket (t.bucketOf (h.key a))).map fun entry =>
        if entry.1 = h.key a then (h.key a, pData) else entry)).bucket := by
    funext b
    have seen :=
      List.map_congr_left fun c inside => entry c ((represents.indexed.inChain c b).mp inside).1
    rw [bucket_eq after, seen]
    by_cases here : b = t.bucketOf (h.key a)
    · subst here
      simp [Cache.setBucket, cacheOf, chainOf_eq represents]
    · have elsewhere : ∀ c ∈ chain b, ¬ (entryOf h c).1 = h.key a := by
        intro c inside same
        obtain ⟨-, place⟩ := (represents.indexed.inChain c b).mp inside
        have key : h.key c = h.key a := same
        rw [key] at place
        exact here place.symm
      have kept : (chain b).map (fun c => if (entryOf h c).1 = h.key a then (h.key a, pData)
        else entryOf h c) =
          (chain b).map (entryOf h) := List.map_congr_left fun c inside => if_neg (elsewhere c inside)
      rw [kept, ← bucket_eq represents]
      exact (Function.update_of_ne here ..).symm
  simp only [Cache.setBucket, cacheOf] at buckets ⊢
  simp only [buckets]

theorem get_refines (represents : Represents kernel h t nodes chain)
    (still : t.iAutomaticRehash = false) (key : HashKey) :
    ∃ h' t', Refines kernel h t (.get key) true h' t' := by
  rcases present_or_absent h nodes key with ⟨a, member, rfl⟩ | absent
  · obtain ⟨h', t', ran, reheaded, relinked, represents'⟩ := ghtGet_rechains represents member
    have config := sameConfig_of_reheaded reheaded
    have mask : t'.iSizeMask = t.iSizeMask := by
      obtain ⟨entries, oldest, newest, rfl⟩ := reheaded
      rfl
    refine ⟨h', t', bind_ok ran, ⟨_, _, represents'⟩, config.iAutomaticRehash.trans still, ?_,
      fun _ => rfl⟩
    have rewritten :=
      cache_rewritten represents represents' config mask fun c _ => entryOf_of_relinked relinked c
    rw [map_promote represents member] at rewritten
    exact rewritten
  · refine ⟨h, t, bind_ok (ghtGet_absent represents absent), ⟨_, _, represents⟩, still, ?_,
      fun _ => rfl⟩
    exact ((congrArg ((cacheOf h t).setBucket key) (promote_absent represents absent)).trans
      (setBucket_self ..)).symm

theorem replace_refines (represents : Represents kernel h t nodes chain)
    (still : t.iAutomaticRehash = false) (key : HashKey) (pData : Option D) :
    ∃ h' t', Refines kernel h t (.replace key pData) true h' t' := by
  rcases present_or_absent h nodes key with ⟨a, member, rfl⟩ | absent
  · obtain ⟨h', t', ran, reheaded, relinked, represents'⟩ := ghtReplace_rechains represents member pData
    have config := sameConfig_of_reheaded reheaded
    have mask : t'.iSizeMask = t.iSizeMask := by
      obtain ⟨entries, oldest, newest, rfl⟩ := reheaded
      rfl
    refine ⟨_, t', bind_ok ran, ⟨_, _, Represents.withData represents' a pData⟩,
      config.iAutomaticRehash.trans still, ?_, fun _ => rfl⟩
    have rewritten :=
      cache_rewritten represents represents' config mask fun c _ => entryOf_of_relinked relinked c
    rw [map_promote represents member] at rewritten
    rw [cache_withData represents' member pData, rewritten, relinked.key]
    simp [Cache.setBucket, Cache.call, cacheOf, bucketOf_same config mask]
  · refine ⟨h, t, bind_ok (ghtReplace_absent represents absent pData), ⟨_, _, represents⟩, still,
      ?_, fun _ => rfl⟩
    have nowhere := absent_bucket represents absent (t.bucketOf key)
    have unchanged : ((cacheOf h t).bucket (t.bucketOf key)).map
        (fun entry => if entry.1 = key then (key, pData) else entry) =
        (cacheOf h t).bucket (t.bucketOf key) :=
      (List.map_congr_left fun entry inside => if_neg (nowhere entry inside)).trans (List.map_id' _)
    have same : (cacheOf h t).call true (.replace key pData) = (cacheOf h t).setBucket key
        ((promote (t.iHeuristics.setWidth 8) (·.1 = key) ((cacheOf h t).bucket (t.bucketOf key))).map
          fun entry => if entry.1 = key then (key, pData) else entry) := rfl
    rw [same, promote_absent represents absent, unchanged]
    exact (setBucket_self ..).symm

theorem remove_refines (represents : Represents kernel h t nodes chain)
    (still : t.iAutomaticRehash = false) (key : HashKey) :
    ∃ h' t', Refines kernel h t (.remove key) true h' t' := by
  rcases present_or_absent h nodes key with ⟨a, member, rfl⟩ | absent
  · obtain ⟨h', t', ran, config, represents', contents', mask, -⟩ := ghtRemove_erases represents member
    refine ⟨h', t', bind_ok ran, ⟨_, _, represents'⟩, config.iAutomaticRehash.trans still, ?_,
      fun _ => rfl⟩
    rw [cache_rewritten represents represents' config mask fun c => entryOf_of_contents contents']
    have erased : ((chain (t.bucketOf (h.key a))).erase a).map (entryOf h) =
        ((cacheOf h t).bucket (t.bucketOf (h.key a))).filter fun entry => entry.1 ≠ h.key a := by
      rw [bucket_eq represents, (represents.linkage.chainDistinct _).erase_eq_filter, List.filter_map]
      refine congrArg (List.map _) (List.filter_congr fun c inside => Bool.eq_iff_iff.mpr ?_)
      rw [bne_iff_ne, Ne, decide_eq_decide.mp (same_entry represents member inside)]
      exact decide_eq_true_iff.symm
    rw [erased]
    rfl
  · refine ⟨h, t, bind_ok (ghtRemove_absent represents absent), ⟨_, _, represents⟩, still, ?_,
      fun _ => rfl⟩
    have nowhere := absent_bucket represents absent (t.bucketOf key)
    have unchanged : ((cacheOf h t).bucket (t.bucketOf key)).filter (fun entry => entry.1 ≠ key) =
        (cacheOf h t).bucket (t.bucketOf key) :=
      List.filter_eq_self.mpr fun entry inside => decide_eq_true (nowhere entry inside)
    exact ((congrArg ((cacheOf h t).setBucket key) unchanged).trans (setBucket_self ..)).symm

/-- In a list without repetitions the last element is erased at its end. -/
theorem erase_last {α : Type} [DecidableEq α] {l : List α} {p : α} (distinct : l.Nodup)
    (last : l.getLast? = some p) :
    l.erase p = l.dropLast := by
  have split := List.dropLast_append_getLast? p last
  have fresh : p ∉ l.dropLast := by
    intro inside
    rw [← split] at distinct
    exact (List.nodup_append.mp distinct).2.2 p inside p (List.mem_singleton_self p) rfl
  conv_lhs => rw [← split]
  rw [List.erase_append_right _ fresh]
  simp

/-- The new entry is placed: at the front of its bucket, instead of the last one when the
bucket is full. -/
theorem place_refines (represents : Represents kernel h₁ t nodes chain)
    (new : NewEntry kernel h₁ t nodes a) :
    ∃ h' t', finishInsert kernel (h₁.key a) a t h₁ = .ok ((.ghtOk, t'), h') ∧ Usable kernel h' t' ∧
      SameConfig t t' ∧ cacheOf h' t' = (cacheOf h₁ t).setBucket (h₁.key a)
        (enter t.bucketLimit (entryOf h₁ a) ((cacheOf h₁ t).bucket (t.bucketOf (h₁.key a)))) := by
  have count : t.pNr (t.bucketOf (h₁.key a)) =
      BitVec.ofNat 32 ((cacheOf h₁ t).bucket (t.bucketOf (h₁.key a))).length := by
    rw [bucket_eq represents, List.length_map]
    exact represents.indexed.nr _
  by_cases full : t.bucketLimit ≠ 0 ∧ t.bucketLimit ≤ t.pNr (t.bucketOf (h₁.key a))
  · obtain ⟨p, member, last, h', t', placed, config, represents', contents', -, mask, -⟩ :=
      placeEntry_replaces represents new full
    have seen : contents h' (nodes.erase p ++ [a]) = contents h₁ (nodes.erase p ++ [a]) := by
      rw [contents', contents, contents, List.map_append]
      rfl
    refine ⟨h', t', ?_, ⟨_, _, represents'⟩, config, ?_⟩
    · rw [finishInsert, bind_ok placed, pure_run]
    · rw [cache_rewritten represents represents' config mask fun c => entryOf_of_contents seen, enter,
        if_pos (count ▸ full), bucket_eq represents,
        erase_last (represents.linkage.chainDistinct _) last, ← List.map_dropLast]
      rfl
  · obtain ⟨h', t', placed, config, represents', -, relinked, -, mask⟩ :=
      placeEntry_joins represents new full
    refine ⟨h', t', ?_, ⟨_, _, represents'⟩, config, ?_⟩
    · rw [finishInsert, bind_ok placed, pure_run]
    · rw [cache_rewritten represents represents' config mask fun c _ => entryOf_of_relinked relinked c, enter,
        if_neg (count ▸ full), bucket_eq represents]
      rfl

theorem insert_refines (represents : Represents kernel h t nodes chain)
    (still : t.iAutomaticRehash = false) (key : HashKey) (pData : Option D) :
    ∃ granted h' t', Refines kernel h t (.insert key pData) granted h' t' := by
  rcases present_or_absent h nodes key with ⟨a, member, rfl⟩ | absent
  · refine ⟨true, h, t, bind_ok (insertWith_present _ _ represents member), ⟨_, _, represents⟩,
      still, ?_, fun _ => rfl⟩
    exact (if_pos (present_bucket represents member)).symm
  · have unknown : key ∉ ((cacheOf h t).bucket ((cacheOf h t).bucketOf key)).map Prod.fst := by
      intro inside
      obtain ⟨entry, inBucket, same⟩ := List.mem_map.mp inside
      exact absent_bucket represents absent _ entry inBucket same
    cases served : nodeServed kernel t.nonBlock h.blocks.attempts with
    | false =>
      obtain ⟨h', ran, extends', -⟩ :=
        insertWith_refused (ghtRehash kernel) pData represents absent served
      have represents' := extends'.represents represents
      refine ⟨false, h', t, bind_ok ran, ⟨_, _, represents'⟩, still, ?_, fun all => ?_⟩
      · rw [cache_extended represents extends', Cache.call, if_neg unknown]
        rfl
      · rw [nodeServed_all all] at served
        cases served
    | true =>
      obtain ⟨h₁, a, created, -, -, ran⟩ :=
        insertWith_served (ghtRehash kernel) pData represents absent served
      have represents₁ := created.extends'.represents represents
      obtain ⟨h', t', finished, usable, config, cache⟩ :=
        place_refines represents₁ (created_new created represents absent)
      have small : overfull t = false := by
        rw [overfull, still]
        rfl
      rw [created.key, entryOf, created.key, created.pData,
        cache_extended represents created.extends'] at cache
      rw [created.key] at finished
      rw [small, if_neg Bool.false_ne_true] at ran
      refine ⟨true, h', t', bind_ok (ran.trans finished), usable,
        config.iAutomaticRehash.trans still, ?_, fun _ => rfl⟩
      rw [cache, Cache.call, if_neg unknown]
      rfl

/-- **One call** does to the buckets what it does to the lists. -/
theorem call_refines (represents : Represents kernel h t nodes chain)
    (still : t.iAutomaticRehash = false) (call : Call D) (keeps : keepsSize call = true)
    (limits : LimitsWell call) :
    ∃ granted h' t', Refines kernel h t call granted h' t' := by
  have bounded := represents.indexed.bounded
  cases call with
  | insert key pData => exact insert_refines represents still key pData
  | get key => exact ⟨true, get_refines represents still key⟩
  | replace key pData => exact ⟨true, replace_refines represents still key pData⟩
  | remove key => exact ⟨true, remove_refines represents still key⟩
  | rehash iSize => cases keeps
  | setHeuristics n =>
    exact ⟨true, h, _, rfl, ⟨_, _, represents.configured n _ bounded⟩, still, rfl, fun _ => rfl⟩
  | setRehash bRehash =>
    cases bRehash with
    | true => cases keeps
    | false =>
      exact ⟨true, h, _, rfl, ⟨_, _, represents.configured _ false bounded⟩, rfl, rfl, fun _ => rfl⟩
  | setBoundedBuckets limit fn =>
    have configured := represents.configured t.iHeuristics t.iAutomaticRehash limits
    exact ⟨true, h, _, ghtSetBoundedBuckets_run limits, ⟨_, _, configured⟩, still, rfl, fun _ => rfl⟩

/-! ### Whole sequences -/

/-- **The buckets are self-organizing lists.** A table that does not rehash goes, whatever
the calls are and whichever allocations fail, through the buckets that the lists go through,
if the callback for full buckets leaves the table alone. -/
theorem calls_refine_cache (usable : Usable kernel h t) (still : t.iAutomaticRehash = false)
    (calls : List (Call D)) (keeps : ∀ call ∈ calls, keepsSize call = true)
    (limits : ∀ call ∈ calls, LimitsWell call) :
    ∃ granted h' t', runCalls kernel t calls h = .ok (t', h') ∧ Usable kernel h' t' ∧
      granted.length = calls.length ∧ cacheOf h' t' = (cacheOf h t).calls (calls.zip granted) ∧
      ((∀ n, kernel.grants n = true) → ∀ g ∈ granted, g = true) := by
  induction calls generalizing h t with
  | nil => exact ⟨[], h, t, rfl, usable, rfl, rfl, fun _ g none' => by cases none'⟩
  | cons call rest ih =>
    obtain ⟨nodes, chain, represents⟩ := usable
    obtain ⟨g, h₁, t₁, refines⟩ :=
      call_refines represents still call (keeps call List.mem_cons_self)
        (limits call List.mem_cons_self)
    obtain ⟨granted, h', t', ran, usable', count, cache, served⟩ :=
      ih refines.usable refines.still (fun other later => keeps other (List.mem_cons_of_mem _ later))
        fun other later => limits other (List.mem_cons_of_mem _ later)
    refine ⟨g :: granted, h', t', (bind_ok refines.ran).trans ran, usable', congrArg (· + 1) count,
      ?_, fun all => ?_⟩
    · rw [cache, refines.cache]
      rfl
    · intro other inside
      rcases List.mem_cons.mp inside with rfl | later
      · exact refines.served all
      · exact served all other later

/-- Two entries in one bucket, and a third one that makes the bucket too long. -/
def crowdingCalls : List (Call ℕ) := [.setHeuristics 2, .setBoundedBuckets 2 (some ignoring),
  .insert (numbered 0) (some 1), .insert (numbered 1) (some 2), .get (numbered 0),
  .insert (numbered 2) (some 3)]

theorem calls_refine_cache_crowded :
    ∃ (h : Heap ℕ) (t : HashTable ℕ) (granted : List Bool) (h' : Heap ℕ)
    (t' : HashTable ℕ), Usable alwaysGranted h t ∧ runCalls alwaysGranted t crowdingCalls h =
    .ok (t', h') ∧
      granted = [true, true, true, true, true, true] ∧
      cacheOf h' t' = (cacheOf h t).calls (crowdingCalls.zip granted) := by
  obtain ⟨h, t, ran, created, -⟩ : ∃ h' t, ghtCreate alwaysGranted 8 true (Heap.empty : Heap ℕ) =
    .ok (some t, h') ∧
      CreatedTable alwaysGranted Heap.empty h' t ∧ _ := ghtCreate_served (by decide) true rfl
  have usable := usable_created (fun _ => 0) ran
  have limits : ∀ call ∈ crowdingCalls, LimitsWell call := by
    simp only [crowdingCalls, List.forall_mem_cons, LimitsWell, true_and]
    exact ⟨Bounded.of_leavesAlone ignoring_leavesAlone, List.forall_mem_nil _⟩
  obtain ⟨granted, h', t', ran', -, count, cache, all⟩ :=
    calls_refine_cache usable created.iAutomaticRehash crowdingCalls (by decide) limits
  exact ⟨h, _, granted, h', t', usable, ran',
    List.eq_replicate_of_mem (all fun _ => rfl) |>.trans (congrArg (List.replicate · true) count),
    cache⟩

/-! ### What was used last -/

/-- The user of a cache looks a key up, and inserts it when it is not found. -/
def useOf (entry : HashKey × Option D) : List (Call D) := [.get entry.1, .insert entry.1 entry.2]

/-- The keys of a bucket, from the front. -/
def Cache.keys (c : Cache D) (b : UInt) : List HashKey := (c.bucket b).map Prod.fst

/-- The effect of one use. -/
def Cache.useKey (c : Cache D) (entry : HashKey × Option D) : Cache D :=
  (c.call true (.get entry.1)).call true (.insert entry.1 entry.2)

@[simp] theorem useKey_bucketOf (c : Cache D) (entry : HashKey × Option D) :
    (c.useKey entry).bucketOf = c.bucketOf := by
  simp only [Cache.useKey, Cache.call]
  split_ifs <;> rfl

@[simp] theorem useKey_limit (c : Cache D) (entry : HashKey × Option D) :
    (c.useKey entry).limit = c.limit := by
  simp only [Cache.useKey, Cache.call]
  split_ifs <;> rfl

@[simp] theorem useKey_iHeuristics (c : Cache D) (entry : HashKey × Option D) :
    (c.useKey entry).iHeuristics = c.iHeuristics := by
  simp only [Cache.useKey, Cache.call]
  split_ifs <;> rfl

theorem setBucket_keys (c : Cache D) (key : HashKey) (l : List (HashKey × Option D)) (b : UInt) :
    (c.setBucket key l).keys b = if b = c.bucketOf key then l.map Prod.fst else c.keys b := by
  by_cases here : b = c.bucketOf key
  · simp [Cache.setBucket, Cache.keys, here]
  · simp [Cache.setBucket, Cache.keys, here]

/-- The number of entries of a bucket that is not too long is what the table counts. -/
theorem enter_keys {limit : UInt} {l : List (HashKey × Option D)} (entry : HashKey × Option D)
    (bounded : limit ≠ 0) (short : l.length ≤ limit.toNat) : (enter limit entry l).map Prod.fst =
      if limit.toNat ≤ (l.map Prod.fst).length then entry.1 :: (l.map Prod.fst).dropLast
      else entry.1 :: l.map Prod.fst := by
  have counted : (BitVec.ofNat 32 l.length).toNat = l.length := by
    rw [BitVec.toNat_ofNat, Nat.mod_eq_of_lt (Nat.lt_of_le_of_lt short limit.isLt)]
  have full : limit ≠ 0 ∧ limit ≤ BitVec.ofNat 32 l.length ↔
      limit.toNat ≤ (l.map Prod.fst).length := by
    rw [BitVec.le_def, counted, List.length_map]
    exact and_iff_right bounded
  simp only [enter, full]
  split_ifs
  · simp
  · rfl

/-- A use is an access to the bucket of its key, if the bucket is not longer than it may
be. -/
theorem useKey_keys {c : Cache D} {entry : HashKey × Option D}
    (front : c.iHeuristics.setWidth 8 = 2) (bounded : c.limit ≠ 0)
    (short : (c.keys (c.bucketOf entry.1)).length ≤ c.limit.toNat) (b : UInt) :
    (c.useKey entry).keys b =
      if b = c.bucketOf entry.1 then access c.limit.toNat (c.keys b) entry.1 else c.keys b := by
  obtain ⟨key, pData⟩ := entry
  let found :=
    promote (c.iHeuristics.setWidth 8) (fun entry => decide (entry.1 = key)) (c.bucket (c.bucketOf key))
  have moved : found.map Prod.fst =
      if key ∈ c.keys (c.bucketOf key) then key :: (c.keys (c.bucketOf key)).erase key
      else c.keys (c.bucketOf key) := by
    rw [← toFront_eq]
    exact (congrArg (List.map Prod.fst) (if_pos front)).trans (map_toFront Prod.fst (· = key) _)
  have here : (c.setBucket key found).bucket (c.bucketOf key) = found := by simp [Cache.setBucket]
  by_cases member : key ∈ c.keys (c.bucketOf key)
  · -- the insertion finds the key at the front
    rw [if_pos member] at moved
    have again : c.useKey (key, pData) = c.setBucket key found :=
      if_pos (show key ∈ ((c.setBucket key found).bucket (c.bucketOf key)).map Prod.fst by simp [here, moved])
    rw [again, setBucket_keys, moved]
    split_ifs with same
    · rw [same, access, if_pos member]
    · rfl
  · rw [if_neg member] at moved
    have fresh : c.useKey (key, pData) =
        (c.setBucket key found).setBucket key (enter c.limit (key, pData) found) := by
      have unknown : key ∉ ((c.setBucket key found).bucket (c.bucketOf key)).map Prod.fst := by
        simpa [here, moved] using member
      refine (if_neg unknown).trans ((if_pos rfl).trans ?_)
      exact congrArg (fun l => (c.setBucket key found).setBucket key (enter c.limit (key, pData) l)) here
    have size : found.length ≤ c.limit.toNat := by
      rw [← moved, List.length_map] at short
      exact short
    rw [fresh, setBucket_keys, setBucket_keys, enter_keys _ bounded size, moved]
    have kept : (c.setBucket key found).bucketOf key = c.bucketOf key := rfl
    by_cases same : b = c.bucketOf key
    · simp [same, kept, access, member]
    · simp [same, kept]

/-- Each bucket has the keys that were used last. -/
structure Recent (fnBucket : HashKey → UInt) (limit : UInt) (uses : List HashKey)
    (c : Cache D) : Prop where
  buckets : c.bucketOf = fnBucket
  bound : c.limit = limit
  front : c.iHeuristics.setWidth 8 = 2
  keys : ∀ b, c.keys b = (recent (uses.filter (fnBucket · = b))).take limit.toNat

/-- A use preserves it. -/
theorem Recent.useKey {fnBucket : HashKey → UInt} {limit : UInt} {uses : List HashKey} {c : Cache D}
    (holds : Recent fnBucket limit uses c) (bounded : limit ≠ 0) (entry : HashKey × Option D) :
    Recent fnBucket limit (uses ++ [entry.1]) (c.useKey entry) := by
  obtain ⟨rfl, rfl, front, keys⟩ := holds
  have short : (c.keys (c.bucketOf entry.1)).length ≤ c.limit.toNat := by
    rw [keys]
    exact List.length_take_le ..
  have room : 0 < c.limit.toNat := Nat.pos_of_ne_zero fun none' => bounded (BitVec.eq_of_toNat_eq none')
  refine ⟨useKey_bucketOf .., useKey_limit .., by rw [useKey_iHeuristics, front], fun b => ?_⟩
  rw [useKey_keys front bounded short, keys, List.filter_append]
  by_cases same : c.bucketOf entry.1 = b
  · have last : [entry.1].filter (c.bucketOf · = b) = [entry.1] := by simp [same]
    rw [if_pos same.symm, access_recent room _ entry.1, last]
  · rw [if_neg (Ne.symm same)]
    simp [same]

/-- All uses preserve it. -/
theorem Recent.uses {fnBucket : HashKey → UInt} {limit : UInt} {before : List HashKey} {c : Cache D}
    (holds : Recent fnBucket limit before c) (bounded : limit ≠ 0) (uses : List (HashKey × Option D)) :
    Recent fnBucket limit (before ++ uses.map Prod.fst) (c.calls ((uses.flatMap useOf).map (·, true))) := by
  induction uses generalizing before c with
  | nil => exact (List.append_nil before).symm ▸ holds
  | cons entry rest ih =>
    have later := ih (holds.useKey bounded entry)
    rw [List.append_assoc] at later
    exact later

theorem zip_granted {α : Type} {calls : List α} {granted : List Bool}
    (count : granted.length = calls.length) (all : ∀ g ∈ granted, g = true) :
    calls.zip granted = calls.map (·, true) := by
  induction calls generalizing granted with
  | nil => rfl
  | cons call rest ih =>
    cases granted with
    | nil => cases count
    | cons g others =>
      have first : g = true := all g List.mem_cons_self
      have tail := ih (Nat.succ.inj count) fun other inside => all other (List.mem_cons_of_mem _ inside)
      simp [first, tail]

/-- The calls of such a user: the heuristics and the limit are set first. -/
def cacheCalls (iHeuristics limit : UInt) (fn : BucketFree D) (uses : List (HashKey × Option D)) :
    List (Call D) :=
  .setHeuristics iHeuristics :: .setBoundedBuckets limit (some fn) :: uses.flatMap useOf

/-- What holds of the settings, and of each lookup and insertion, holds of all these calls. -/
theorem forall_mem_cacheCalls {p : Call D → Prop} {iHeuristics limit : UInt} {fn : BucketFree D}
    (heuristics : p (.setHeuristics iHeuristics)) (bounded : p (.setBoundedBuckets limit (some fn)))
    (get : ∀ key, p (.get key)) (insert : ∀ key pData, p (.insert key pData))
    (uses : List (HashKey × Option D)) : ∀ call ∈ cacheCalls iHeuristics limit fn uses, p call := by
  refine List.forall_mem_cons.mpr ⟨heuristics, List.forall_mem_cons.mpr ⟨bounded, ?_⟩⟩
  intro call inside
  obtain ⟨entry, -, inUse⟩ := List.mem_flatMap.mp inside
  rcases List.mem_pair.mp inUse with rfl | rfl
  · exact get entry.1
  · exact insert entry.1 entry.2

/-- A key is in the table when it is in its bucket. -/
theorem mem_entries_iff (usable : Usable kernel h t) :
    key ∈ (entries h t).map Prod.fst ↔ key ∈ (cacheOf h t).keys (t.bucketOf key) := by
  obtain ⟨nodes, chain, represents⟩ := usable
  rw [entries_eq represents, Cache.keys]
  constructor
  · intro inside
    obtain ⟨entry, member, rfl⟩ := List.mem_map.mp inside
    obtain ⟨a, inNodes, rfl⟩ := List.mem_map.mp member
    exact present_bucket represents inNodes
  · intro inside
    obtain ⟨entry, member, rfl⟩ := List.mem_map.mp inside
    rw [bucket_eq represents] at member
    obtain ⟨a, inChain, rfl⟩ := List.mem_map.mp member
    exact List.mem_map.mpr
      ⟨_, List.mem_map.mpr ⟨a, ((represents.indexed.inChain a _).mp inChain).1, rfl⟩, rfl⟩

/-- **A bounded table with the move-to-front heuristics keeps what was used last.** From an
empty table, after any uses, each bucket has the keys that were used last, as many as the
limit, in the order of their last uses; a key is found again while fewer than `limit` other
keys of its bucket have been used. The callback for full buckets leaves the table alone. -/
theorem bounded_buckets_keep_recent {iSize iHeuristics limit : UInt} {nonBlock : Bool}
    (fnHash : HashKey → UInt) {fn : BucketFree D} (leavesAlone : LeavesAlone fn)
    (served : ∀ n, kernel.grants n = true)
    (ran : ghtCreate kernel iSize nonBlock h = .ok (some t, h₁))
    (front : iHeuristics.setWidth 8 = 2) (bounded : limit ≠ 0) (uses : List (HashKey × Option D)) :
    ∃ h' t', runCalls kernel (ghtSetHash t fnHash) (cacheCalls iHeuristics limit fn uses) h₁ =
      .ok (t', h') ∧ t'.bucketOf = (ghtSetHash t fnHash).bucketOf ∧
      (∀ b, (chainOf h' t' b).map h'.key =
        (recent ((uses.map Prod.fst).filter (t'.bucketOf · = b))).take limit.toNat) ∧
      ∀ before key since, uses.map Prod.fst = before ++ key :: since → key ∉ since →
        (key ∈ (entries h' t').map Prod.fst ↔
          (since.filter (t'.bucketOf · = t'.bucketOf key)).dedup.length < limit.toNat) := by
  have created := createdTable_of_returned ran
  have represents : Represents kernel h₁ (ghtSetHash t fnHash) [] fun _ => [] :=
    created.represents.hashed fnHash
  -- the buckets once the heuristics and the limit are set
  have start : Recent (ghtSetHash t fnHash).bucketOf limit []
      { cacheOf h₁ (ghtSetHash t fnHash) with iHeuristics := iHeuristics, limit := limit } :=
    ⟨rfl, rfl, front, fun b => by simp [Cache.keys, bucket_eq represents, recent]⟩
  have keeps : ∀ call ∈ cacheCalls iHeuristics limit fn uses, keepsSize call = true :=
    forall_mem_cacheCalls (p := (keepsSize · = true)) rfl rfl (fun _ => rfl) (fun _ _ => rfl) uses
  have limits : ∀ call ∈ cacheCalls iHeuristics limit fn uses, LimitsWell call :=
    forall_mem_cacheCalls trivial (.of_leavesAlone leavesAlone) (fun _ => trivial)
      (fun _ _ => trivial) uses
  obtain ⟨granted, h', t', ran', usable', count, cache, all⟩ :=
    calls_refine_cache ⟨_, _, represents⟩ created.iAutomaticRehash
      (cacheCalls iHeuristics limit fn uses) keeps limits
  rw [zip_granted count (all served)] at cache
  have holds : Recent (ghtSetHash t fnHash).bucketOf limit (uses.map Prod.fst) (cacheOf h' t') := by
    rw [cache]
    exact start.uses bounded uses
  have same : t'.bucketOf = (ghtSetHash t fnHash).bucketOf := holds.buckets
  have keys := holds.keys
  rw [← same] at keys
  refine ⟨h', t', ran', same, fun b => ?_, fun before key since split last => ?_⟩
  · have seen := keys b
    rw [Cache.keys, cacheOf, List.map_map] at seen
    exact seen
  · have own : (key :: since).filter (t'.bucketOf · = t'.bucketOf key) =
        key :: since.filter (t'.bucketOf · = t'.bucketOf key) := by simp
    rw [mem_entries_iff usable', keys, split, List.filter_append, own]
    exact mem_take_recent_iff fun inside => last (List.mem_of_mem_filter inside)

/-- Two places in one bucket, and three keys. -/
theorem bounded_buckets_keep_recent_crowded : ∃ (h' : Heap ℕ) (t' : HashTable ℕ),
    (chainOf h' t' 0).map h'.key = [numbered 2, numbered 0] ∧
    numbered 1 ∉ (entries h' t').map Prod.fst := by
  obtain ⟨h, t, ran, -⟩ : ∃ h' t, ghtCreate alwaysGranted 8 true (Heap.empty : Heap ℕ) =
    .ok (some t, h') ∧ _ :=
    ghtCreate_served (by decide) true rfl
  obtain ⟨h', t', -, buckets, keys, found⟩ :=
    bounded_buckets_keep_recent (fun _ => 0) ignoring_leavesAlone
    (fun _ => rfl) ran (show (2 : UInt).setWidth 8 = 2 by decide) (show (2 : UInt) ≠ 0 by decide)
    [(numbered 0, some 1), (numbered 1, some 2), (numbered 0, some 1), (numbered 2, some 3)]
  have all : ∀ key, t'.bucketOf key = 0 := fun key => by rw [buckets]; exact BitVec.zero_and
  refine ⟨h', t', ?_, ?_⟩
  · rw [keys]
    simp only [all]
    decide
  · rw [found [numbered 0] (numbered 1) [numbered 0, numbered 2] rfl (by decide)]
    simp only [all]
    decide

end FsdFilter.BucketCache
