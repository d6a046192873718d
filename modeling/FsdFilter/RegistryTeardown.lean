import FsdFilter.TableRehash

/-! `FltVnodeHooksHashTable::DeleteStaticTable`. The loop of `free` takes the data that
`ght_first` and `ght_next` return, a `FltVnodeHookEntry`, for a node of the hash table,
and frees it as one. -/
namespace FsdFilter.RegistryTeardown
open SizedBlocks LinkedLists StateRuns CommonHashTable TableMemory ChainEdits TableRepresentation
open TableSearch TableOperations TableRelease EntryCreation TableCreation TableRehash

/-- The memory, the reference counts of the objects in it, the members of the
`FltVnodeHooksHashTable` and the static pointer to it. -/
structure TeardownState where
  heap : Heap Addr
  retainCount : Addr → ℕ
  hashTable : Option (HashTable Addr)
  rwLock : Option Addr
  sVnodeHooksHashTable : Option Addr

/-- Code of the filter: it changes the state or faults. -/
abbrev TeardownM : Type → Type := StateT TeardownState (Except Fault)

/-- With other memory. -/
def TeardownState.withHeap (s : TeardownState) (heap : Heap Addr) : TeardownState :=
  { s with heap := heap }

/-- Code of the hash table. -/
def onHeap {α : Type} (code : HashM Addr α) : TeardownM α := fun s =>
  match code s.heap with
  | .ok (a, heap) => .ok (a, s.withHeap heap)
  | .error fault => .error fault

/-- Gives a block back as a whole: `delete` and `IORWLockFree` know its size. -/
def giveBack (a : Addr) : HashM Addr Unit := fun h => fnFree a ((h.blocks.size a).getD 0) h

/-- `OSObject::release`: the last reference takes the object with it. -/
def release (entry : Addr) : TeardownM Unit := do
  let s ← get
  -- a release of a freed object faults
  let retainCount ← onHeap (field (fun _ => s.retainCount) entry)
  set { s with retainCount := Function.update s.retainCount entry (retainCount - 1) }
  if retainCount = 1 then onHeap (giveBack entry) else pure ()

/-- `sizeof(VOPFUNC*)` bytes at the start of a key. -/
def pointerAt (pKey : HashKey) : HashKey where
  bytes := pKey.bytes.take 8
  short := Nat.lt_of_le_of_lt (List.length_take_le ..) (by decide)

/-- The body of the loop of `free`: `pE` is what `ght_first` or `ght_next` returned. -/
def freeEntry (kernel : Kernel) (pTable : HashTable Addr) (pKey : HashKey) (pE : Addr) :
    TeardownM (HashTable Addr) := do
  let (entry, pTable) ← onHeap (ghtRemove kernel pTable (pointerAt pKey))
  match entry with
  | none => pure pTable
  | some entry =>
    release entry
    let size ← onHeap (field (·.size) pE)
    onHeap (fnFree pE size)
    pure pTable

/-- The loop of `free`. -/
def freeEntries (kernel : Kernel) :
    ℕ → HashTable Addr → Iterator → Option Addr → TeardownM (HashTable Addr)
  | _, pTable, _, none => pure pTable
  | 0, _, _, some _ => throw .endless
  | fuel + 1, pTable, iterator, some pE => do
    let pEntry ← onHeap (deref iterator.pEntry)
    let pKey ← onHeap (field (·.key) pEntry)
    let pTable ← freeEntry kernel pTable pKey pE
    let (iterator, pE) ← onHeap (ghtNext iterator)
    freeEntries kernel fuel pTable iterator pE

/-- `FltVnodeHooksHashTable::free`. -/
def free (kernel : Kernel) : TeardownM Unit := do
  let s ← get
  match s.hashTable with
  | none => pure ()
  | some pTable =>
    set { s with hashTable := none }
    let (iterator, pE) ← onHeap (ghtFirst pTable)
    let pTable ← freeEntries kernel s.heap.blocks.fresh pTable iterator pE
    onHeap (ghtFinalize kernel pTable)
    onHeap (deref s.rwLock >>= giveBack)
    modify fun s => { s with rwLock := none }

/-- `FltVnodeHooksHashTable::DeleteStaticTable`. -/
def deleteStaticTable (kernel : Kernel) : TeardownM Unit := do
  let s ← get
  match s.sVnodeHooksHashTable with
  | none => pure ()
  | some table =>
    free kernel
    onHeap (giveBack table)
    modify fun s => { s with sVnodeHooksHashTable := none }

variable {kernel : Kernel} {s s' : TeardownState} {h h' : Heap Addr} {t t' : HashTable Addr}
  {nodes rest : List Addr} {chain : UInt → List Addr} {a object this lock : Addr} {α : Type}

/-! ### Single calls -/

theorem onHeap_ok {code : HashM Addr α} {result : α} (ran : code s.heap = .ok (result, h)) :
    onHeap code s = .ok (result, s.withHeap h) := by
  simp only [onHeap, ran]

theorem onHeap_error {code : HashM Addr α} {fault : Fault} (stopped : code s.heap = .error fault) :
    onHeap code s = .error fault := by
  simp only [onHeap, stopped]

theorem pointerAt_eq {pKey : HashKey} (pointer : pKey.iSize = 8) : pointerAt pKey = pKey := by
  have whole : pKey.bytes.take 8 = pKey.bytes := List.take_of_length_le (Nat.le_of_eq pointer)
  cases pKey
  simp only [pointerAt, HashKey.mk.injEq]
  exact whole

theorem live_size (live : h.blocks.live a = true) : ∃ size, h.blocks.size a = some size :=
  Option.isSome_iff_exists.mp live

theorem live_freed {gone : List Addr} (kept : a ∉ gone) :
    (freed h gone).blocks.live a = h.blocks.live a := by
  rw [Blocks.live, freed, Blocks.without_size kept]
  rfl

theorem giveBack_run (live : h.blocks.live a = true) : giveBack a h = .ok ((), freed h [a]) := by
  obtain ⟨size, allocated⟩ := live_size live
  rw [giveBack, allocated]
  exact fnFree_freed allocated

/-- Only a block that is allocated, with the right size, is freed. -/
theorem fnFree_ok {size : ℕ} {result : Unit} (ran : fnFree a size h = .ok (result, h')) :
    h' = freed h [a] := by
  by_cases allocated : h.blocks.size a = some size
  · cases ran.symm.trans (fnFree_freed allocated)
    rfl
  · rw [fnFree, Blocks.free, if_neg allocated] at ran
    cases ran

/-- The last reference takes the object with it. -/
theorem release_last (live : s.heap.blocks.live object = true) (last : s.retainCount object = 1) :
    release object s = .ok ((), { s with
      heap := freed s.heap [object], retainCount := Function.update s.retainCount object 0 }) := by
  rw [release, get_bind, bind_ok (onHeap_ok (field_run _ live)), last, if_pos rfl]
  exact onHeap_ok (giveBack_run live)

theorem field_dead {β : Type} (read : Heap Addr → Addr → β) (dead : h.blocks.live a = false) :
    field read a h = .error (.useAfterFree a) := by
  rw [field, dead, if_neg Bool.false_ne_true]

theorem release_dead (dead : s.heap.blocks.live object = false) :
    release object s = .error (.useAfterFree object) := by
  rw [release, get_bind]
  exact bind_error (onHeap_error (field_dead _ dead))

/-- Other references keep the object. -/
theorem release_shared (live : s.heap.blocks.live object = true) (shared : s.retainCount object ≠ 1) :
    release object s = .ok ((), { s with
      retainCount := Function.update s.retainCount object (s.retainCount object - 1) }) := by
  rw [release, get_bind, bind_ok (onHeap_ok (field_run _ live)), if_neg shared]
  rfl

/-! ### The registry -/

/-- The registered objects. -/
def objects (h : Heap Addr) (nodes : List Addr) : List Addr := nodes.filterMap h.pData

/-- A registry: each key is a pointer, and each of the objects is referenced by the table
once. The objects, the lock and the registry itself are blocks outside the hash table. -/
structure Registered (kernel : Kernel) (s : TeardownState) (t : HashTable Addr) (nodes : List Addr)
    (this lock : Addr) : Prop where
  static : s.sVnodeHooksHashTable = some this
  hashTable : s.hashTable = some t
  rwLock : s.rwLock = some lock
  represents : ∃ chain, Represents kernel s.heap t nodes chain
  pointer : ∀ a ∈ nodes, (s.heap.key a).iSize = 8
  registered : ∀ a ∈ nodes, ∃ object, s.heap.pData a = some object ∧ 0 < s.retainCount object
  live : ∀ x ∈ this :: lock :: objects s.heap nodes, s.heap.blocks.live x = true
  distinct : (this :: lock :: objects s.heap nodes).Nodup
  apart : ∀ x ∈ this :: lock :: objects s.heap nodes, x ∉ footprint kernel s.heap t nodes

/-- What a teardown has to leave: no pointer to the registry, one reference less to each
object, and of all blocks only those of the registry gone, with the objects that nobody
else references. -/
def TornDown (kernel : Kernel) (s : TeardownState) (t : HashTable Addr) (nodes : List Addr)
    (this lock : Addr) : Prop :=
  ∃ s', deleteStaticTable kernel s = .ok ((), s') ∧ s'.sVnodeHooksHashTable = none ∧
    s'.hashTable = none ∧ s'.rwLock = none ∧
    (∀ object, s'.retainCount object =
      s.retainCount object - if object ∈ objects s.heap nodes then 1 else 0) ∧
    s'.heap.blocks = s.heap.blocks.without (footprint kernel s.heap t nodes ++ [lock, this] ++
      (objects s.heap nodes).filter fun object => s.retainCount object = 1)

/-! ### The loop -/

/-- No block is allocated. -/
def Shrinks (h h' : Heap Addr) : Prop := ∀ x, h.blocks.size x = none → h'.blocks.size x = none

theorem shrinks_freed (gone : List Addr) : Shrinks h (freed h gone) := by
  intro x free
  by_cases taken : x ∈ gone
  · exact Blocks.without_gone taken
  · exact (Blocks.without_size taken).trans free

/-- What is left after the first entry, if there was no fault: its object is freed, though
others reference it. -/
structure FirstGone (kernel : Kernel) (s : TeardownState) (t : HashTable Addr) (rest : List Addr)
    (object : Addr) (t' : HashTable Addr) (s' : TeardownState) : Prop where
  represents : ∃ chain, Represents kernel s'.heap t' rest chain
  footprint : footprint kernel s'.heap t' rest = footprint kernel s.heap t rest
  contents : contents s'.heap rest = contents s.heap rest
  shrinks : Shrinks s.heap s'.heap
  gone : s'.heap.blocks.size object = none
  shared : s.retainCount object ≠ 1

theorem footprint_subset {x : Addr} (inside : x ∈ footprint kernel h t rest) :
    x ∈ footprint kernel h t (a :: rest) := by
  rw [footprint, List.flatMap_cons]
  simp only [footprint, List.mem_cons, List.mem_append] at inside ⊢
  tauto

section FirstEntry
variable (represents : Represents kernel s.heap t (a :: rest) chain)
  (pointer : (s.heap.key a).iSize = 8) (data : s.heap.pData a = some object)
  (apart : object ∉ footprint kernel s.heap t (a :: rest))
include represents pointer data apart

/-- `ght_remove` returns the object, and does not touch it. -/
theorem firstRemoved : ∃ h t' chain', onHeap (ghtRemove kernel t (pointerAt (s.heap.key a))) s =
      .ok ((some object, t'), s.withHeap h) ∧ Represents kernel h t' rest chain' ∧
      footprint kernel h t' rest = footprint kernel s.heap t rest ∧
      contents h rest = contents s.heap rest ∧
      Shrinks s.heap h ∧ h.blocks.size object = s.heap.blocks.size object := by
  obtain ⟨h, t', chain', ran, -, represents', contents', blocks, footprint'⟩ :=
    ghtRemove_present represents List.mem_cons_self
  rw [List.erase_cons_head] at represents' contents' footprint'
  rw [data] at ran
  refine ⟨h, t', chain', ?_, represents', footprint', contents', fun x free => ?_, ?_⟩
  · rw [pointerAt_eq pointer]
    exact onHeap_ok ran
  · rw [blocks]
    exact shrinks_freed (h := s.heap) _ x free
  · rw [blocks, Blocks.without_size fun block => apart (blocksOf_subset List.mem_cons_self block)]

/-- After the last reference the loop reads the object that is gone. -/
theorem freeEntry_last (live : s.heap.blocks.live object = true) (last : s.retainCount object = 1) :
    freeEntry kernel t (s.heap.key a) object s = .error (.useAfterFree object) := by
  obtain ⟨h, t', chain', removed, -, -, -, -, size⟩ := firstRemoved represents pointer data apart
  have live' : h.blocks.live object = true := by
    rw [Blocks.live, size]
    exact live
  have dead : (freed h [object]).blocks.live object = false := by
    rw [Blocks.live, freed, Blocks.without_gone List.mem_cons_self]
    rfl
  have stopped : field (·.size) object (freed h [object]) = .error (.useAfterFree object) :=
    field_dead _ dead
  have released : release object (s.withHeap h) = _ := release_last live' last
  rw [freeEntry, bind_ok removed]
  dsimp only
  rw [bind_ok released]
  exact bind_error (onHeap_error stopped)

/-- The first entry is removed, its object is freed as if it were a node, and the loop goes on. -/
theorem freeEntry_ensures :
    Ensures (freeEntry kernel t (s.heap.key a) object) s (FirstGone kernel s t rest object) := by
  obtain ⟨h, t', chain', removed, represents', footprint', contents', shrinks, size⟩ :=
    firstRemoved represents pointer data apart
  cases alive : h.blocks.live object with
  | false =>
    have stopped : freeEntry kernel t (s.heap.key a) object s = .error (.useAfterFree object) := by
      rw [freeEntry, bind_ok removed]
      exact bind_error (release_dead alive)
    exact .of_error stopped
  | true =>
    by_cases last : s.retainCount object = 1
    · refine .of_error (freeEntry_last represents pointer data apart ?_ last)
      rw [Blocks.live, ← size]
      exact alive
    · intro t₁ s₁ ran
      rw [freeEntry, bind_ok removed] at ran
      dsimp only at ran
      have released : release object (s.withHeap h) = _ := release_shared alive last
      rw [bind_ok released, bind_ok (onHeap_ok (field_run _ alive))] at ran
      cases freeing : fnFree object (h.size object) h with
      | error fault => cases (bind_error (onHeap_error freeing)).symm.trans ran
      | ok result =>
        obtain ⟨u, h₂⟩ := result
        rw [bind_ok (onHeap_ok freeing)] at ran
        cases ran
        cases fnFree_ok freeing
        have outside : object ∉ footprint kernel h t' rest := by
          rw [footprint']
          exact fun inside => apart (footprint_subset inside)
        refine ⟨⟨chain', ?_⟩, footprint', contents', fun x free => shrinks_freed [object] x (shrinks x free),
          Blocks.without_gone List.mem_cons_self, last⟩
        exact represents'.freed fun x inside block => outside (List.mem_singleton.mp block ▸ inside)

end FirstEntry

/-- What the loop leaves, if there was no fault. -/
structure AllGone (kernel : Kernel) (s : TeardownState) (nodes : List Addr) (t' : HashTable Addr)
    (s' : TeardownState) :
    Prop where
  represents : ∃ chain, Represents kernel s'.heap t' [] chain
  shrinks : Shrinks s.heap s'.heap
  first : ∀ object, nodes.head?.bind s.heap.pData = some object →
    s'.heap.blocks.size object = none ∧ s.retainCount object ≠ 1

/-- The loop frees the object of the first entry, or faults. -/
theorem freeEntries_ensures {fuel : ℕ} (represents : ∃ chain, Represents kernel s.heap t rest chain)
    (pointer : ∀ c ∈ rest, (s.heap.key c).iSize = 8)
    (data : ∀ c ∈ rest, ∃ object, s.heap.pData c = some object ∧ object ∉ footprint kernel s.heap t rest) :
    Ensures (freeEntries kernel fuel t (iteratorAt rest) (rest.head?.bind s.heap.pData)) s
      (AllGone kernel s rest) := by
  obtain ⟨chain, represents⟩ := represents
  induction rest generalizing s t chain fuel with
  | nil =>
    have ran : freeEntries kernel fuel t (iteratorAt []) none s = .ok (t, s) := by
      cases fuel <;> rfl
    exact .of_ok ran ⟨⟨chain, represents⟩, fun _ free => free, fun _ none' => by cases none'⟩
  | cons a rest ih =>
    obtain ⟨object, here, apart⟩ := data a List.mem_cons_self
    rw [List.head?_cons, Option.bind_some, here]
    cases fuel with
    | zero => exact .of_error rfl
    | succ fuel =>
      have live := represents.linkage.live a (.inl List.mem_cons_self)
      rw [freeEntries, iteratorAt, List.head?_cons, deref_some]
      refine .after (onHeap_ok rfl) (.after (onHeap_ok (field_run _ live)) ?_)
      refine .bind (freeEntry_ensures represents (pointer a List.mem_cons_self) here apart)
        fun t₁ s₁ gone => ?_
      obtain ⟨chain₁, represents₁⟩ := gone.represents
      have same : ∀ c ∈ rest, s₁.heap.key c = s.heap.key c ∧ s₁.heap.pData c = s.heap.pData c :=
        fun c later => Prod.mk.inj (List.map_inj_left.mp gone.contents c later)
      refine .after (onHeap_ok (ghtNext_saved represents₁ (List.nil_append rest).symm rfl))
        fun t' s' ran => ?_
      have all := ih (fun c later => ?_) (fun c later => ?_) chain₁ represents₁ t' s' ran
      · refine ⟨all.represents, fun x free => all.shrinks x (gone.shrinks x free),
          fun first object' => ?_⟩
        obtain rfl : object = first := Option.some.inj (here.symm.trans object')
        exact ⟨all.shrinks _ gone.gone, gone.shared⟩
      · rw [(same c later).1]
        exact pointer c (List.mem_cons_of_mem _ later)
      · obtain ⟨other, its, outside⟩ := data c (List.mem_cons_of_mem _ later)
        have blocks : footprint kernel s₁.heap t₁ rest = footprint kernel s.heap t rest :=
          gone.footprint
        exact ⟨other, (same c later).2.trans its, fun inside => outside (footprint_subset (blocks ▸ inside))⟩

/-! ### The whole teardown -/

theorem giveBack_ensures : Ensures (onHeap (giveBack a)) s fun _ s' => Shrinks s.heap s'.heap := by
  intro u s' ran
  cases given : giveBack a s.heap with
  | error fault => cases (onHeap_error given).symm.trans ran
  | ok result =>
    obtain ⟨v, h⟩ := result
    cases ran.symm.trans (onHeap_ok given)
    cases fnFree_ok given
    exact shrinks_freed [a]

/-- A teardown of a registry with entries frees the object of the first one, or faults. -/
theorem deleteStaticTable_ensures (registered : Registered kernel s t nodes this lock) :
    Ensures (deleteStaticTable kernel) s fun _ s' => ∀ object, nodes.head?.bind s.heap.pData =
      some object →
      s'.heap.blocks.size object = none ∧ s.retainCount object ≠ 1 := by
  obtain ⟨chain, represents⟩ := registered.represents
  have data : ∀ c ∈ nodes, ∃ object, s.heap.pData c = some object ∧
      object ∉ footprint kernel s.heap t nodes := by
    intro c member
    obtain ⟨object, here, -⟩ := registered.registered c member
    have inside : object ∈ objects s.heap nodes := List.mem_filterMap.mpr ⟨c, member, here⟩
    exact ⟨object, here, registered.apart object (List.mem_cons_of_mem _ (List.mem_cons_of_mem _ inside))⟩
  have freed' : Ensures (free kernel) s fun _ s' => ∀ object, nodes.head?.bind s.heap.pData =
    some object →
      s'.heap.blocks.size object = none ∧ s.retainCount object ≠ 1 := by
    rw [free]
    refine .after rfl ?_
    rw [registered.hashTable]
    refine .after rfl (.after (onHeap_ok (ghtFirst_run represents)) ?_)
    refine .bind (freeEntries_ensures (s := { s with hashTable := none }) ⟨chain, represents⟩
      registered.pointer data)
      fun t₁ s₁ all => ?_
    obtain ⟨chain₁, represents₁⟩ := all.represents
    rw [registered.rwLock]
    refine .after (onHeap_ok (ghtFinalize_run represents₁))
      (.bind giveBack_ensures fun _ s₂ shrinks => .of_ok rfl ?_)
    intro object first
    obtain ⟨gone, shared⟩ := all.first object first
    exact ⟨shrinks object (shrinks_freed _ object gone), shared⟩
  rw [deleteStaticTable]
  refine .after rfl ?_
  rw [registered.static]
  refine .bind freed' fun _ s₁ gone => .bind giveBack_ensures fun _ s₂ shrinks => .of_ok rfl ?_
  intro object first
  exact ⟨shrinks object (gone object first).1, (gone object first).2⟩

/-- An empty registry is torn down. -/
theorem deleteStaticTable_empty (registered : Registered kernel s t [] this lock) :
    TornDown kernel s t [] this lock := by
  obtain ⟨chain, represents⟩ := registered.represents
  obtain ⟨thisOther, -⟩ := List.nodup_cons.mp registered.distinct
  have other : lock ≠ this := fun same => thisOther (same ▸ List.mem_cons_self)
  let h₁ := freed s.heap (footprint kernel s.heap t [])
  have lockLive : h₁.blocks.live lock = true :=
    (live_freed (registered.apart lock (by simp))).trans (registered.live lock (by simp))
  let h₂ := freed h₁ [lock]
  have thisLive : h₂.blocks.live this = true :=
    (live_freed (by simpa using other.symm)).trans
      ((live_freed (registered.apart this (by simp))).trans (registered.live this (by simp)))
  let s₁ : TeardownState := { s with hashTable := none }
  let s₂ : TeardownState := { s₁ with heap := h₂, rwLock := none }
  have ranFree : free kernel s = .ok ((), s₂) := by
    have none' : freeEntries kernel s.heap.blocks.fresh t (iteratorAt []) none s₁ = .ok (t, s₁) := by
      cases s.heap.blocks.fresh <;> rfl
    rw [free, get_bind, registered.hashTable]
    refine (bind_ok rfl).trans
      ((bind_ok (onHeap_ok (s := s₁) (ghtFirst_run represents))).trans ((bind_ok none').trans ?_))
    rw [registered.rwLock]
    exact (bind_ok (onHeap_ok (s := s₁) (ghtFinalize_run represents))).trans
      (bind_ok (onHeap_ok (s := s₁.withHeap h₁) (giveBack_run lockLive)))
  refine ⟨{ s₂ with heap := freed h₂ [this], sVnodeHooksHashTable := none }, ?_, rfl, rfl, rfl,
    fun _ => rfl, ?_⟩
  · rw [deleteStaticTable, get_bind, registered.static]
    exact (bind_ok ranFree).trans (bind_ok (onHeap_ok (s := s₂) (giveBack_run thisLive)))
  · show (h₂.blocks.without [this]) = _
    have both : [lock, this] = [lock] ++ [this] := rfl
    rw [objects, List.filterMap_nil, List.filter_nil, List.append_nil, Blocks.without_append, both,
      Blocks.without_append]
    rfl

/-- A registry with entries is never torn down. -/
theorem not_tornDown (registered : Registered kernel s t nodes this lock) (some' : nodes ≠ []) :
    ¬ TornDown kernel s t nodes this lock := by
  rintro ⟨s', ran, -, -, -, -, blocks⟩
  obtain ⟨a, rest, rfl⟩ := List.exists_cons_of_ne_nil some'
  obtain ⟨object, here, -⟩ := registered.registered a List.mem_cons_self
  have inside : object ∈ objects s.heap (a :: rest) :=
    List.mem_filterMap.mpr ⟨a, List.mem_cons_self, here⟩
  obtain ⟨gone, shared⟩ := deleteStaticTable_ensures registered () s' ran object here
  have listed : object ∈ this :: lock :: objects s.heap (a :: rest) :=
    List.mem_cons_of_mem _ (List.mem_cons_of_mem _ inside)
  -- others reference the object, so that its block has to stay
  have kept : object ∉ footprint kernel s.heap t (a :: rest) ++ [lock, this] ++
      (objects s.heap (a :: rest)).filter fun object => s.retainCount object = 1 := by
    intro taken
    rcases List.mem_append.mp taken with taken | last
    · rcases List.mem_append.mp taken with block | own
      · exact registered.apart object listed block
      · have distinct := registered.distinct
        simp only [List.nodup_cons, List.mem_cons, not_or] at distinct
        simp only [List.mem_cons, List.not_mem_nil, or_false] at own
        rcases own with rfl | rfl
        · exact distinct.2.1 inside
        · exact distinct.1.2 inside
    · exact shared (of_decide_eq_true (List.mem_filter.mp last).2)
  obtain ⟨size, allocated⟩ := live_size (registered.live object listed)
  rw [blocks, Blocks.without_size kept, allocated] at gone
  cases gone

/-- When only the table references the first object, the teardown reads it after it was
freed. -/
theorem deleteStaticTable_last (registered : Registered kernel s t (a :: rest) this lock)
    (data : s.heap.pData a = some object) (last : s.retainCount object = 1) :
    deleteStaticTable kernel s = .error (.useAfterFree object) := by
  obtain ⟨chain, represents⟩ := registered.represents
  have inside : object ∈ objects s.heap (a :: rest) :=
    List.mem_filterMap.mpr ⟨a, List.mem_cons_self, data⟩
  have listed : object ∈ this :: lock :: objects s.heap (a :: rest) :=
    List.mem_cons_of_mem _ (List.mem_cons_of_mem _ inside)
  let s₁ : TeardownState := { s with hashTable := none }
  have live := represents.linkage.live a (.inl List.mem_cons_self)
  have stopped : freeEntry kernel t (s.heap.key a) object s₁ = .error (.useAfterFree object) :=
    freeEntry_last (s := s₁) represents (registered.pointer a List.mem_cons_self) data
      (registered.apart object listed)
      (registered.live object listed) last
  have loop : freeEntries kernel s.heap.blocks.fresh t (iteratorAt (a :: rest)) (some object) s₁ =
      .error (.useAfterFree object) := by
    obtain ⟨fuel, enough⟩ :=
      Nat.exists_eq_succ_of_ne_zero (Nat.ne_of_gt (Nat.lt_of_le_of_lt (Nat.zero_le a)
      (Blocks.lt_fresh live)))
    rw [enough]
    exact (bind_ok (onHeap_ok (s := s₁) rfl)).trans
      ((bind_ok (onHeap_ok (s := s₁) (field_run _ live))).trans (bind_error stopped))
  have first : onHeap (ghtFirst t) s₁ = .ok ((iteratorAt (a :: rest), some object), s₁) := by
    rw [← data]
    exact onHeap_ok (s := s₁) (ghtFirst_run represents)
  rw [deleteStaticTable, get_bind, registered.static]
  refine bind_error ?_
  rw [free, get_bind, registered.hashTable]
  exact (bind_ok rfl).trans ((bind_ok first).trans (bind_error loop))

/-- Only an empty registry is torn down. -/
theorem tornDown_iff_empty (registered : Registered kernel s t nodes this lock) :
    TornDown kernel s t nodes this lock ↔ nodes = [] := by
  constructor
  · intro tornDown
    by_contra some'
    exact not_tornDown registered some' tornDown
  · rintro rfl
    exact deleteStaticTable_empty registered

/-! ### One registered object -/

def plenty : Kernel := ⟨false, fun _ => true⟩

/-- The address of an operations vector. -/
def vopKey : HashKey := ⟨[0, 16, 32, 48, 128, 255, 255, 255], (by decide : 8 < 2 ^ 32)⟩

/-- Memory with an object, the registry and its lock. -/
def threeBlocks : Heap Addr :=
  { Heap.empty with blocks := ((Blocks.empty.granted 512).granted 16).granted 16 }

/-- A registry with one object that has so many references. -/
theorem oneEntry_registered (references : ℕ) (some' : 0 < references) :
    ∃ (s : TeardownState) (t : HashTable Addr) (a : Addr), Registered plenty s t [a] 1 2 ∧
      s.heap.pData a = some 0 ∧ s.retainCount 0 = references := by
  obtain ⟨h₁, t₁, ran, created, nonBlock, -⟩ : ∃ h' t, ghtCreate plenty 8 true threeBlocks =
    .ok (some t, h') ∧
      CreatedTable plenty threeBlocks h' t ∧ t.nonBlock = true ∧ t.iSizeMask = newMask 8 ∧
      Blocks.Accounts threeBlocks.blocks [] h'.blocks (footprint plenty h' t []) :=
      ghtCreate_served (by decide) true rfl
  have absent : ∀ c ∈ ([] : List Addr), h₁.key c ≠ vopKey := fun _ inside => by cases inside
  obtain ⟨status, h₂, t₂, nodes, chain, -, grows, represents, -, -, contents₂, -⟩ :=
    insertWith_grows (ghtRehash plenty) created.represents absent created.bucketLimit
      created.iAutomaticRehash
      (some 0)
  have served : nodeServed plenty t₁.nonBlock h₁.blocks.attempts = true := rfl
  rw [served, if_pos rfl] at contents₂
  obtain ⟨a, rfl, entry⟩ := List.map_eq_singleton_iff.mp contents₂
  obtain ⟨key, data⟩ := Prod.mk.inj entry
  have three : 3 ≤ h₁.blocks.fresh := created.extends'.fresh
  have outside : ∀ x < 3, x ∉ footprint plenty h₂ t₂ [a] := by
    intro x low inside
    rcases grows.inside x inside with first | later
    · exact Nat.not_lt_of_le (created.new x first) low
    · exact Nat.not_lt_of_le (Nat.le_trans three later) low
  have kept : ∀ x < 3, cell h₂ x = cell threeBlocks x := by
    intro x low
    refine (grows.outside x (Nat.lt_of_lt_of_le low three) fun first => ?_).trans
      (created.extends'.old x low)
    exact Nat.not_lt_of_le (created.new x first) low
  have initial : ∀ x ∈ [1, 2, 0], x < 3 ∧ threeBlocks.blocks.live x = true := by decide
  have objects' : objects h₂ [a] = [0] := by
    rw [objects, List.filterMap_cons_some data]
    rfl
  refine ⟨⟨h₂, fun _ => references, some t₂, some 2, some 1⟩, t₂, a,
    ⟨rfl, rfl, rfl, ⟨chain, represents⟩, ?_, ?_, ?_, ?_, ?_⟩, data, rfl⟩
  · intro c member
    rw [List.mem_singleton.mp member, key]
    rfl
  · intro c member
    rw [List.mem_singleton.mp member]
    exact ⟨0, data, some'⟩
  · intro x listed
    rw [objects'] at listed
    exact (cell_live (kept x (initial x listed).1)).trans (initial x listed).2
  · rw [objects']
    decide
  · intro x listed
    rw [objects'] at listed
    exact outside x (initial x listed).1

/-- The equivalence at a registry with one object that a thread still uses. -/
theorem tornDown_iff_empty_used : ∃ (s : TeardownState) (t : HashTable Addr) (a : Addr),
    Registered plenty s t [a] 1 2 ∧ s.retainCount 0 = 2 ∧ (TornDown plenty s t [a] 1 2 ↔ [a] = []) := by
  obtain ⟨s, t, a, registered, -, references⟩ := oneEntry_registered 2 (by decide)
  exact ⟨s, t, a, registered, references, tornDown_iff_empty registered⟩

/-- The teardown of a registry with one object reads the object after its last release. -/
theorem deleteStaticTable_useAfterFree : ∃ (s : TeardownState) (t : HashTable Addr) (a : Addr),
    Registered plenty s t [a] 1 2 ∧ s.heap.pData a = some 0 ∧ s.retainCount 0 = 1 ∧
      deleteStaticTable plenty s = .error (.useAfterFree 0) ∧ ¬ TornDown plenty s t [a] 1 2 := by
  obtain ⟨s, t, a, registered, data, references⟩ := oneEntry_registered 1 Nat.one_pos
  have stopped := deleteStaticTable_last registered data references
  exact ⟨s, t, a, registered, data, references, stopped, not_tornDown registered (List.cons_ne_nil a [])⟩

end FsdFilter.RegistryTeardown
