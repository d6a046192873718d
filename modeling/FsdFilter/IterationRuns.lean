import FsdFilter.TableInvariant
import FsdFilter.TableLifecycle

/-! Iterations over a table that is used meanwhile. The iterator saves a pointer to the
next entry, so that an insertion may free what it leads to: the rehash that it starts
frees all the old entries, and a full bucket gives up its last one. -/
namespace FsdFilter.IterationRuns
open SizedBlocks LinkedLists StateRuns CommonHashTable TableMemory ChainEdits TableRepresentation
open TableSearch TableOperations EntryCreation TableInsertion TableCreation InsertOutcomes
open InsertionEffects TableLifecycle AllocationFailures TableInvariant

variable {D : Type} {kernel : Kernel} {h h' : Heap D} {t t' : HashTable D} {nodes : List Addr}
  {chain : UInt → List Addr} {a x : Addr}

/-! ### Runs -/

/-- A table and an iterator, the entries that were there at the start, oldest first, and
those that were returned since. The iteration is finished when NULL was returned. -/
structure Iteration (D : Type) where
  h : Heap D
  t : HashTable D
  iterator : Iterator
  start : List Addr
  returned : List Addr
  insertions : ℕ
  finished : Bool

/-- Before `ght_first`, which goes on with the oldest entry. -/
def atStart (h : Heap D) (t : HashTable D) : Iteration D :=
  ⟨h, t, ⟨none, t.pOldest⟩, byAge h t, [], 0, false⟩

/-- The iterator moved on: its entry was returned, or NULL. -/
def Iteration.moved (s : Iteration D) (iterator : Iterator) (pData : Option D) : Iteration D :=
  match pData with
  | some _ => { s with iterator := iterator, returned := s.returned ++ iterator.pEntry.toList }
  | none => { s with iterator := iterator, finished := true }

/-- What happens during an iteration. -/
inductive Event (D : Type) where
  | call (call : Call D)
  | next

/-- The entries that a call may add. -/
def insertionsOf : Call D → ℕ
  | .insert _ _ => 1
  | _ => 0

/-- "Removal during an iteration is only safe for the current entry or an entry which
has already been iterated over." A callback makes no calls of its own. -/
def Allowed (s : Iteration D) : Call D → Prop
  | .remove key => ∀ a ∈ byAge s.h s.t, s.h.key a = key → a ∈ s.returned
  | .rehash _ => False
  | .setBoundedBuckets _ fn => ∀ code ∈ fn, LeavesAlone code
  | _ => True

inductive Step (kernel : Kernel) (s : Iteration D) : Event D → Iteration D → Prop
  | called {call : Call D} {h' : Heap D} {t' : HashTable D} (allowed : Allowed s call)
      (ran : call.run kernel s.t s.h = .ok (t', h')) :
      Step kernel s (.call call) { s with h := h', t := t', insertions := s.insertions + insertionsOf call }
  | next {iterator : Iterator} {pData : Option D} {h' : Heap D}
      (ran : ghtNext s.iterator s.h = .ok ((iterator, pData), h')) :
      Step kernel s .next ({ s with h := h' }.moved iterator pData)

/-- The states of an iteration over a reachable table, when only some steps are made. -/
inductive Reached (kernel : Kernel) (admits : Iteration D → Event D → Prop) : Iteration D → Prop
  | first {h h' : Heap D} {t : HashTable D} {iterator : Iterator} {pData : Option D}
    (reached : Reachable kernel h t)
      (admitted : admits (atStart h t) .next) (ran : ghtFirst t h = .ok ((iterator, pData), h')) :
      Reached kernel admits ((atStart h' t).moved iterator pData)
  | step {s s' : Iteration D} {event : Event D} (reached : Reached kernel admits s)
    (underWay : s.finished = false)
      (admitted : admits s event) (step : Step kernel s event s') : Reached kernel admits s'

/-! ### What an iteration is to do -/

/-- The entries whose turn is still to come. -/
def upcoming (s : Iteration D) : List Addr := walk s.h.pNewer s.h.blocks.fresh s.iterator.pNext

/-- `ght_next` reads allocated entries of the table only, and returns what they hold. No
entry is returned twice, those of the start in their order, and when the iteration is
finished none of them that is still there was left out. -/
structure Sound (s : Iteration D) : Prop where
  next : s.finished = false → ∃ iterator pData, ghtNext s.iterator s.h = .ok ((iterator, pData), s.h) ∧
    (∀ a, iterator.pEntry = some a → a ∈ byAge s.h s.t) ∧ pData = iterator.pEntry.bind s.h.pData
  once : s.returned.Nodup
  ordered : (s.returned.filter (· ∈ s.start)).Sublist s.start
  pending : s.finished = false → ∀ a ∈ s.start, a ∈ byAge s.h s.t → a ∈ s.returned ∨
    a ∈ upcoming s
  complete : s.finished = true → ∀ a ∈ s.start, a ∈ byAge s.h s.t → a ∈ s.returned
  ends : s.returned.length ≤ s.start.length + s.insertions

/-- An insertion does not free the entry whose turn is next: there is none, nothing is
inserted, or the table is not rehashed and that entry is not the one that a full bucket
gives up. -/
def InsertSafe (kernel : Kernel) (s : Iteration D) (key : HashKey) : Prop :=
  s.iterator.pNext = none ∨ (∃ a ∈ byAge s.h s.t, s.h.key a = key) ∨
    nodeServed kernel s.t.nonBlock s.h.blocks.attempts = false ∨
    overfull s.t = false ∧
      (Full s.t (s.t.bucketOf key) → (chainOf s.h s.t (s.t.bucketOf key)).getLast? ≠ s.iterator.pNext)

/-- The steps that do not spoil an iteration: an entry of the start has data when its
turn comes, and an insertion is safe. -/
def Safe (kernel : Kernel) (s : Iteration D) : Event D → Prop
  | .call (.insert key _) => InsertSafe kernel s key
  | .call _ => True
  | .next => ∀ a ∈ s.start, s.iterator.pNext = some a → s.h.pData a ≠ none

/-! ### The entries of the table, by their turns -/

/-- The entries before the turn, those of the start whose turn is to come, and those
that were inserted since. -/
structure Turns (kernel : Kernel) (s : Iteration D) (before old new : List Addr)
    (chain : UInt → List Addr) : Prop where
  represents : Represents kernel s.h s.t (before ++ (old ++ new)) chain
  saved : s.finished = false → s.iterator.pNext = (old ++ new).head?
  ended : s.finished = true → old = []
  later : ∀ a ∈ new, a ∉ s.start
  order : (s.returned.filter (· ∈ s.start) ++ old).Sublist s.start
  once : (s.returned ++ (old ++ new)).Nodup
  waited : ∀ a ∈ s.start, a ∈ before → a ∈ s.returned
  used : ∀ a, a ∈ s.start ∨ a ∈ s.returned → a < s.h.blocks.fresh
  count : s.returned.length + (old ++ new).length ≤ s.start.length + s.insertions

/-- At the start all entries are to come. -/
theorem turns_start (represents : Represents kernel h t nodes chain) :
    Turns kernel (atStart h t) [] nodes [] chain := by
  have start : (atStart h t).start = nodes := byAge_eq represents
  have whole : nodes ++ [] = nodes := List.append_nil nodes
  refine ⟨?_, fun _ => ?_, fun ended => Bool.noConfusion ended,
    fun _ none' => absurd none' List.not_mem_nil, ?_, ?_,
    fun _ _ none' => absurd none' List.not_mem_nil, fun a used => ?_, ?_⟩
  · rw [whole]
    exact represents
  · rw [whole]
    exact represents.linkage.age.next_none
  · rw [start]
    exact List.Sublist.refl _
  · rw [whole]
    exact represents.linkage.distinct
  · rcases used with inside | none'
    · exact represents.stored.inUse (nodes_subset (start ▸ inside))
    · cases none'
  · rw [start, whole]
    exact Nat.le_of_eq (Nat.zero_add _)

section Turns
variable {s : Iteration D} {before old new : List Addr}

theorem Turns.age (turns : Turns kernel s before old new chain) :
    byAge s.h s.t = before ++ (old ++ new) :=
  byAge_eq turns.represents

/-- The saved pointer leads to the entries whose turn is to come. -/
theorem Turns.upcoming_eq (turns : Turns kernel s before old new chain)
    (underWay : s.finished = false) :
    upcoming s = old ++ new := by
  obtain ⟨-, links⟩ := links_append.mp turns.represents.linkage.age
  have enough := turns.represents.nodes_length
  rw [List.length_append] at enough
  rw [upcoming, turns.saved underWay]
  exact links.walk_eq (fun _ => rfl) (Nat.le_of_add_left_le enough)

theorem Turns.next_run (turns : Turns kernel s before old new chain) (underWay : s.finished = false) :
    ghtNext s.iterator s.h = .ok ((iteratorAt (old ++ new), (old ++ new).head?.bind s.h.pData), s.h) :=
  ghtNext_saved turns.represents rfl (turns.saved underWay)

theorem Turns.sound (turns : Turns kernel s before old new chain) : Sound s := by
  have inside : ∀ a, a ∈ byAge s.h s.t → a ∈ before ∨ a ∈ old ∨ a ∈ new := by
    intro a member
    rwa [turns.age, List.mem_append, List.mem_append] at member
  refine ⟨fun underWay => ⟨_, _, turns.next_run underWay, fun a entry => ?_, rfl⟩,
    (List.nodup_append.mp turns.once).1, (List.sublist_append_left ..).trans turns.order,
    fun underWay a start member => ?_,
    fun finished a start member => ?_, Nat.le_trans (Nat.le_add_right ..) turns.count⟩
  · rw [turns.age]
    exact List.mem_append_right _ (List.mem_of_head? entry)
  · rw [turns.upcoming_eq underWay]
    rcases inside a member with early | late
    · exact .inl (turns.waited a start early)
    · exact .inr (List.mem_append.mpr late)
  · rw [turns.ended finished] at inside
    rcases inside a member with early | none' | late
    · exact turns.waited a start early
    · cases none'
    · exact absurd start (turns.later a late)

/-! ### The turn of the next entry -/

/-- The entry whose turn it is was returned. -/
theorem Turns.returned (turns : Turns kernel s before old new chain) (underWay : s.finished = false)
    {old' new' : List Addr} (split : old ++ new = x :: (old' ++ new')) (later : ∀ a ∈ new', a ∉ s.start)
    (order : ((s.returned ++ [x]).filter (· ∈ s.start) ++ old').Sublist s.start) :
    Turns kernel { s with iterator := iteratorAt (old ++ new), returned := s.returned ++ [x] }
      (before ++ [x]) old' new'
      chain := by
  have whole : (before ++ [x]) ++ (old' ++ new') = before ++ (old ++ new) := by
    rw [split, List.append_assoc, List.singleton_append]
  have represents := turns.represents
  rw [← whole] at represents
  refine ⟨represents, fun _ => ?_, fun ended => ?_, later, order, ?_, fun a start early => ?_,
    fun a used => ?_, ?_⟩
  · rw [split]
    rfl
  · cases underWay.symm.trans ended
  · have once := turns.once
    rwa [split, List.append_cons] at once
  · rcases List.mem_append.mp early with early | here
    · exact List.mem_append_left _ (turns.waited a start early)
    · exact List.mem_append_right _ here
  · rcases used with start | returned
    · exact turns.used a (.inl start)
    · rcases List.mem_append.mp returned with old | here
      · exact turns.used a (.inr old)
      · refine turns.represents.stored.inUse (nodes_subset ?_)
        rw [List.mem_singleton.mp here, split]
        exact List.mem_append_right _ List.mem_cons_self
  · have count := turns.count
    rw [split, List.length_cons, ← Nat.add_assoc, Nat.add_right_comm] at count
    rw [List.length_append, List.length_singleton]
    exact count

/-- An entry without data, that was inserted since, ended the iteration. -/
theorem Turns.cut {rest : List Addr} (turns : Turns kernel s before [] (x :: rest) chain)
    (iterator : Iterator) :
    Turns kernel { s with iterator := iterator, finished := true } (before ++ [x]) [] rest chain := by
  have whole : (before ++ [x]) ++ ([] ++ rest) = before ++ ([] ++ x :: rest) :=
    List.append_cons .. |>.symm
  have represents := turns.represents
  rw [← whole] at represents
  refine ⟨represents, fun underWay => Bool.noConfusion underWay, fun _ => rfl,
    fun a late => turns.later a (List.mem_cons_of_mem _ late), turns.order, ?_, fun a start early =>
    ?_, turns.used, ?_⟩
  · exact turns.once.sublist ((List.sublist_cons_self x rest).append_left s.returned)
  · rcases List.mem_append.mp early with early | here
    · exact turns.waited a start early
    · exact absurd (List.mem_singleton.mp here ▸ start) (turns.later x List.mem_cons_self)
  · exact Nat.le_trans (Nat.add_le_add_left (Nat.le_succ _) _) turns.count

/-- `ght_next` goes on with the next entry, or ends the iteration after those of the start. -/
theorem Turns.advance (turns : Turns kernel s before old new chain) (underWay : s.finished = false)
    (safe : Safe kernel s .next) : ∃ before' old' new',
      Turns kernel (s.moved (iteratorAt (old ++ new)) ((old ++ new).head?.bind s.h.pData))
        before' old' new' chain := by
  have saved := turns.saved underWay
  cases old with
  | cons x rest =>
    have start : x ∈ s.start := turns.order.subset (List.mem_append_right _ List.mem_cons_self)
    obtain ⟨d, data⟩ := Option.ne_none_iff_exists'.mp (safe x start saved)
    have order : ((s.returned ++ [x]).filter (· ∈ s.start) ++ rest).Sublist s.start := by
      rw [List.filter_append, List.filter_singleton, decide_eq_true start]
      exact List.append_cons .. ▸ turns.order
    refine ⟨before ++ [x], rest, new, ?_⟩
    rw [List.cons_append, List.head?_cons, Option.bind_some, data]
    exact turns.returned underWay rfl turns.later order
  | nil =>
    cases new with
    | nil =>
      exact ⟨before, [], [], turns.represents, fun underWay => Bool.noConfusion underWay,
        fun _ => rfl, turns.later, turns.order, turns.once, turns.waited, turns.used, turns.count⟩
    | cons x rest =>
      rw [List.nil_append, List.head?_cons, Option.bind_some]
      cases data : s.h.pData x with
      | none => exact ⟨before ++ [x], [], rest, turns.cut _⟩
      | some d =>
        have added : x ∉ s.start := turns.later x List.mem_cons_self
        have order : ((s.returned ++ [x]).filter (· ∈ s.start) ++ []).Sublist s.start := by
          rw [List.filter_append, List.filter_singleton, decide_eq_false added]
          exact (List.append_nil _).symm ▸ turns.order
        refine ⟨before ++ [x], [], rest, ?_⟩
        exact turns.returned underWay rfl (fun a late => turns.later a (List.mem_cons_of_mem _ late)) order

/-! ### Calls between the turns -/

/-- A call keeps the entries in their order, but for some that go, and adds entries at
the end. The entry whose turn is next stays. -/
structure Thinned (kernel : Kernel) (s : Iteration D) (nodes : List Addr) (h' : Heap D)
    (t' : HashTable D) (left added : List Addr) (n : ℕ) : Prop where
  represents : ∃ chain', Represents kernel h' t' (left ++ added) chain'
  sublist : left.Sublist nodes
  stays : ∀ x, s.iterator.pNext = some x → x ∈ left
  new : ∀ a ∈ added, s.h.blocks.fresh ≤ a
  fresh : s.h.blocks.fresh ≤ h'.blocks.fresh
  count : s.iterator.pNext ≠ none → added.length ≤ n

/-- A list that lost some elements, but not its first one. -/
theorem head_of_sublist {l rest : List Addr} (sublist : l.Sublist (x :: rest)) (member : x ∈ l)
    (once : x ∉ rest) :
    l.head? = some x := by
  cases sublist with
  | cons _ inRest => exact absurd (inRest.subset member) once
  | cons_cons _ _ => rfl

/-- When no turn is left, the entries do not matter any more. -/
theorem Turns.thinned_last (turns : Turns kernel s before [] [] chain)
    (underWay : s.finished = false) {n : ℕ} {left added : List Addr} {chain' : UInt → List Addr}
    (thinned : Thinned kernel s before h' t' left added n)
    (represents : Represents kernel h' t' (left ++ added) chain') :
    Turns kernel { s with h := h', t := t', insertions := s.insertions + n } (left ++ added) []
      [] chain' := by
  refine ⟨?_, fun _ => turns.saved underWay, fun _ => rfl, turns.later, turns.order, turns.once,
    fun a start member => ?_, fun a used => Nat.lt_of_lt_of_le (turns.used a used) thinned.fresh,
    Nat.le_trans turns.count (Nat.add_le_add_left (Nat.le_add_right ..) _)⟩
  · rw [List.append_nil, List.append_nil]
    exact represents
  · rcases List.mem_append.mp member with kept | added
    · exact turns.waited a start (thinned.sublist.subset kept)
    · exact absurd (turns.used a (.inl start)) (Nat.not_lt_of_le (thinned.new a added))

/-- The entries whose turn is to come keep it. -/
theorem Turns.thinned_cons {rest : List Addr} (turns : Turns kernel s before old new chain)
    (underWay : s.finished = false) (split : old ++ new = x :: rest) {n : ℕ}
    {before' old' new' added : List Addr} {chain' : UInt → List Addr}
    (thinned : Thinned kernel s (before ++ (old ++ new)) h' t' (before' ++ (old' ++ new')) added n)
    (earlier : before'.Sublist before) (subOld : old'.Sublist old) (subNew : new'.Sublist new)
    (represents : Represents kernel h' t' (before' ++ (old' ++ new') ++ added) chain') :
    Turns kernel { s with h := h', t := t', insertions := s.insertions + n } before' old'
      (new' ++ added) chain' := by
  have saved : s.iterator.pNext = some x := by
    rw [turns.saved underWay, split]
    rfl
  have whole : before' ++ (old' ++ new') ++ added = before' ++ (old' ++ (new' ++ added)) := by
    rw [List.append_assoc, List.append_assoc]
  have later : (old' ++ new').Sublist (x :: rest) := split ▸ subOld.append subNew
  have distinct := turns.represents.linkage.distinct
  rw [split] at distinct
  obtain ⟨-, following, apart⟩ := List.nodup_append.mp distinct
  have stays : x ∈ old' ++ new' := by
    refine (List.mem_append.mp (thinned.stays x saved)).resolve_left fun early => ?_
    exact apart x (earlier.subset early) x List.mem_cons_self rfl
  have first : (old' ++ new').head? = some x :=
    head_of_sublist later stays (List.nodup_cons.mp following).1
  rw [whole] at represents
  obtain ⟨once, -, returnedApart⟩ := List.nodup_append.mp turns.once
  refine ⟨represents, fun _ => ?_, fun ended => ?_, fun a late start => ?_,
    (subOld.append_left _).trans turns.order, ?_,
    fun a start early => turns.waited a start (earlier.subset early),
    fun a used => Nat.lt_of_lt_of_le (turns.used a used) thinned.fresh, ?_⟩
  · rw [← List.append_assoc, List.head?_append, first]
    exact saved
  · cases underWay.symm.trans ended
  · rcases List.mem_append.mp late with kept | added
    · exact turns.later a (subNew.subset kept) start
    · exact Nat.not_lt_of_le (thinned.new a added) (turns.used a (.inl start))
  · refine List.nodup_append.mpr ⟨once, (List.nodup_append.mp represents.linkage.distinct).2.1, ?_⟩
    rintro a returned b inside rfl
    rw [← List.append_assoc] at inside
    rcases List.mem_append.mp inside with kept | added
    · exact returnedApart a returned a (split ▸ later.subset kept) rfl
    · exact Nat.not_lt_of_le (thinned.new a added) (turns.used a (.inr returned))
  · have fewer := later.length_le
    have more := thinned.count (saved ▸ Option.some_ne_none x)
    have count := turns.count
    rw [← split] at fewer
    rw [← List.append_assoc, List.length_append]
    dsimp only
    omega

/-- A call that keeps the next entry keeps the turns. -/
theorem Turns.thinned (turns : Turns kernel s before old new chain)
    (underWay : s.finished = false) {n : ℕ} {left added : List Addr}
    (thinned : Thinned kernel s (before ++ (old ++ new)) h' t' left added n) :
    ∃ before' old' new' chain',
      Turns kernel { s with h := h', t := t', insertions := s.insertions + n }
        before' old' new' chain' := by
  obtain ⟨chain', represents⟩ := thinned.represents
  cases split : old ++ new with
  | nil =>
    obtain ⟨rfl, rfl⟩ := List.append_eq_nil_iff.mp split
    rw [split, List.append_nil] at thinned
    exact ⟨_, _, _, _, turns.thinned_last underWay thinned represents⟩
  | cons x rest =>
    obtain ⟨before', later, rfl, earlier, sublist⟩ := List.sublist_append_iff.mp thinned.sublist
    obtain ⟨old', new', rfl, subOld, subNew⟩ := List.sublist_append_iff.mp sublist
    exact ⟨_, _, _, _, turns.thinned_cons underWay split thinned earlier subOld subNew represents⟩

/-- The entry whose turn is next is in the table. -/
theorem Turns.next_mem (turns : Turns kernel s before old new chain) (underWay : s.finished = false)
    (saved : s.iterator.pNext = some x) : x ∈ before ++ (old ++ new) := by
  rw [turns.saved underWay] at saved
  exact List.mem_append_right _ (List.mem_of_head? saved)

end Turns
end FsdFilter.IterationRuns
