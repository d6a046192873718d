import FsdFilter.IterationRuns

/-! Which steps an iteration survives. A call between two turns may take entries away
and add new ones at the end; as long as the next entry stays, every other keeps its
turn. An insertion that frees it leaves a dangling pointer in the iterator. -/
namespace FsdFilter.IterationSafety
open SizedBlocks LinkedLists StateRuns CommonHashTable TableMemory ChainEdits TableRepresentation
open TableSearch TableOperations EntryCreation TableInsertion TableCreation InsertOutcomes
open InsertionEffects TableLifecycle AllocationFailures TableInvariant OrderedMap IterationRuns

variable {D : Type} {kernel : Kernel} {h h' : Heap D} {t t' : HashTable D} {nodes : List Addr}
  {chain : UInt → List Addr} {a x : Addr}

section Turns
variable {s : Iteration D} {before old new : List Addr}

/-! ### Calls between the turns -/

/-- Nothing goes, and nothing is added. -/
theorem thinned_same {chain' : UInt → List Addr} (represents : Represents kernel h' t' nodes chain')
    (fresh : s.h.blocks.fresh ≤ h'.blocks.fresh)
    (saved : ∀ x, s.iterator.pNext = some x → x ∈ nodes) (n : ℕ) :
    Thinned kernel s nodes h' t' nodes [] n :=
  ⟨⟨chain', (List.append_nil nodes).symm ▸ represents⟩, List.Sublist.refl _, saved,
    fun _ none' => absurd none' List.not_mem_nil, fresh, fun _ => Nat.zero_le n⟩

/-- What a safe insertion of a new entry says about the next one. -/
theorem insert_keeps {key : HashKey} {pData : Option D} (turns : Turns kernel s before old new chain)
    (safe : InsertSafe kernel s key) {nodes' : List Addr}
    (inserted : Inserted kernel s.h s.t (before ++ (old ++ new)) pData key h' t' nodes')
    (saved : s.iterator.pNext = some x) :
    overfull s.t = false ∧
      (Full s.t (s.t.bucketOf key) → (chain (s.t.bucketOf key)).getLast? ≠ some x) := by
  rcases safe with none' | ⟨a, member, present⟩ | refused | sparse
  · cases none'.symm.trans saved
  · exact absurd present (inserted.absent a (turns.age ▸ member))
  · cases refused.symm.trans inserted.served
  · rwa [chainOf_eq turns.represents, saved] at sparse

theorem insert_thinned (turns : Turns kernel s before old new chain) (underWay : s.finished = false)
    {key : HashKey} {pData : Option D} (safe : InsertSafe kernel s key)
    (ran : (Call.insert key pData).run kernel s.t s.h = .ok (t', h')) :
    ∃ left added, Thinned kernel s (before ++ (old ++ new)) h' t' left added 1 := by
  cases ghtInsert_effect turns.represents pData key with
  | unchanged ran₁ extends' _ _ =>
    cases ran.symm.trans (bind_ok ran₁)
    exact ⟨_, _, thinned_same (extends'.represents turns.represents) extends'.fresh
      (fun x saved => turns.next_mem underWay saved) 1⟩
  | stopped _ ran₁ => cases ran.symm.trans (bind_error ran₁)
  | @placed h₁ t₁ left gone a inserted sparse staying new' _ =>
    cases ran.symm.trans (bind_ok inserted.ran)
    refine ⟨left, [a], inserted.represents, staying.sublist, fun x saved => ?_, fun c here => ?_,
      inserted.accounts.fresh, fun _ => Nat.le_refl 1⟩
    · have member := turns.next_mem underWay saved
      obtain ⟨-, keeps⟩ := insert_keeps turns safe inserted saved
      cases staying with
      | all => exact member
      | @without full p _ last =>
        refine (List.mem_erase_of_ne ?_).mpr member
        rintro rfl
        exact keeps full last
    · exact List.mem_singleton.mp here ▸ new'
  | @rebuilt h₁ t₁ nodes' inserted crowded new' _ =>
    cases ran.symm.trans (bind_ok inserted.ran)
    have ended : ∀ x, s.iterator.pNext ≠ some x := by
      intro x saved
      cases crowded.symm.trans (insert_keeps turns safe inserted saved).1
    refine ⟨[], nodes', inserted.represents, List.nil_sublist _, fun x saved => absurd saved (ended x), new',
      inserted.accounts.fresh, fun some' => ?_⟩
    obtain ⟨x, saved⟩ := Option.ne_none_iff_exists'.mp some'
    exact absurd saved (ended x)

theorem remove_thinned (turns : Turns kernel s before old new chain) (underWay : s.finished = false)
    {key : HashKey} (allowed : Allowed s (.remove key))
    (ran : (Call.remove key).run kernel s.t s.h = .ok (t', h')) :
    ∃ left added, Thinned kernel s (before ++ (old ++ new)) h' t' left added 0 := by
  rcases present_or_absent s.h (before ++ (old ++ new)) key with ⟨a, member, rfl⟩ | absent
  · obtain ⟨h₁, t₁, chain₁, removed, -, represents₁, -, blocks, -⟩ :=
      ghtRemove_present turns.represents member
    cases ran.symm.trans (bind_ok removed)
    have returned : a ∈ s.returned := allowed a (turns.age.symm ▸ member) rfl
    refine ⟨(before ++ (old ++ new)).erase a, [], ⟨chain₁, ?_⟩, List.erase_sublist, fun x saved => ?_,
      fun _ none' => absurd none' List.not_mem_nil, ?_, fun _ => Nat.le_refl 0⟩
    · rw [List.append_nil]
      exact represents₁
    · refine (List.mem_erase_of_ne ?_).mpr (turns.next_mem underWay saved)
      rintro rfl
      rw [turns.saved underWay] at saved
      exact (List.nodup_append.mp turns.once).2.2 x returned x (List.mem_of_head? saved) rfl
    · rw [blocks]
      exact Nat.le_refl _
  · cases ran.symm.trans (bind_ok (ghtRemove_absent turns.represents absent))
    exact ⟨_, _, thinned_same turns.represents (Nat.le_refl _)
      (fun x saved => turns.next_mem underWay saved) 0⟩

theorem kept_thinned (turns : Turns kernel s before old new chain) (underWay : s.finished = false)
    {call : Call D} (ran : call.run kernel s.t s.h = .ok (t', h')) (keeps : call.Keeps) (n : ℕ) :
    ∃ left added, Thinned kernel s (before ++ (old ++ new)) h' t' left added n := by
  obtain ⟨t₁, h₁, ran₁, ⟨chain₁, represents₁⟩, blocks, -⟩ :=
    call_kept turns.represents keeps
  cases ran.symm.trans ran₁
  exact ⟨_, _, thinned_same represents₁ (blocks ▸ Nat.le_refl _)
    (fun x saved => turns.next_mem underWay saved) n⟩

/-- A call that is allowed and safe keeps the next entry. -/
theorem call_thinned (turns : Turns kernel s before old new chain) (underWay : s.finished = false)
    {call : Call D} (allowed : Allowed s call) (safe : Safe kernel s (.call call))
    (ran : call.run kernel s.t s.h = .ok (t', h')) :
    ∃ left added, Thinned kernel s (before ++ (old ++ new)) h' t' left added (insertionsOf call) := by
  cases call with
  | insert key pData => exact insert_thinned turns underWay safe ran
  | remove key => exact remove_thinned turns underWay allowed ran
  | rehash iSize => exact allowed.elim
  | setBoundedBuckets limit fn => exact kept_thinned turns underWay ran (bounded_of_set allowed ran) 0
  | _ => exact kept_thinned turns underWay ran trivial 0

/-! ### Steps that spoil an iteration -/

/-- An entry of the start without data ends the iteration before it is returned. -/
theorem next_unsafe (turns : Turns kernel s before old new chain) (underWay : s.finished = false)
    (dangerous : ¬ Safe kernel s .next) :
    ¬ Sound (s.moved (iteratorAt (old ++ new)) ((old ++ new).head?.bind s.h.pData)) := by
  simp only [Safe, not_forall, not_not] at dangerous
  obtain ⟨a, start, saved, data⟩ := dangerous
  have member := turns.next_mem underWay saved
  rw [turns.saved underWay] at saved
  rw [saved, Option.bind_some, data]
  intro sound
  have returned : a ∈ s.returned := sound.complete rfl a start (turns.age.symm ▸ member)
  exact (List.nodup_append.mp turns.once).2.2 a returned a (List.mem_of_head? saved) rfl

/-- An insertion that frees the next entry leaves a pointer to it. -/
theorem insert_unsafe (turns : Turns kernel s before old new chain) (underWay : s.finished = false)
    {key : HashKey} {pData : Option D} (dangerous : ¬ InsertSafe kernel s key)
    (ran : (Call.insert key pData).run kernel s.t s.h = .ok (t', h')) {n : ℕ} :
    ¬ Sound { s with h := h', t := t', insertions := n } := by
  simp only [InsertSafe, not_or] at dangerous
  obtain ⟨some', absent, served, dangerous⟩ := dangerous
  obtain ⟨x, saved⟩ := Option.ne_none_iff_exists'.mp some'
  have member := turns.next_mem underWay saved
  -- it is freed in either case
  have freed : h'.blocks.live x = false := by
    cases ghtInsert_effect turns.represents pData key with
    | unchanged ran₁ _ _ early =>
      rcases early with present | refused
      · exact absurd (turns.age.symm ▸ present) absent
      · exact absurd refused served
    | stopped _ ran₁ => cases ran.symm.trans (bind_error ran₁)
    | placed inserted sparse staying _ dead =>
      cases ran.symm.trans (bind_ok inserted.ran)
      rw [chainOf_eq turns.represents, saved] at dangerous
      obtain ⟨full, last⟩ := Classical.not_imp.mp fun keeps => dangerous ⟨sparse, keeps⟩
      cases staying with
      | all room => exact absurd full room
      | without _ _ last' =>
        cases last'.symm.trans (not_not.mp last)
        exact dead x List.mem_cons_self
    | rebuilt inserted _ _ dead =>
      cases ran.symm.trans (bind_ok inserted.ran)
      exact dead x member
  intro sound
  obtain ⟨iterator, pData', ran', -⟩ := sound.next underWay
  have stopped : ghtNext s.iterator h' = .error (.useAfterFree x) := by
    rw [ghtNext, saved]
    exact bind_error (by rw [field, freed]; rfl)
  cases stopped.symm.trans ran'

end Turns

/-! ### All runs -/

section Runs
variable {s s' : Iteration D} {event : Event D}

/-- A safe step keeps the turns. -/
theorem turns_step {before old new : List Addr} (turns : Turns kernel s before old new chain)
    (underWay : s.finished = false) (safe : Safe kernel s event) (step : Step kernel s event s') :
    ∃ before' old' new' chain', Turns kernel s' before' old' new' chain' := by
  cases step with
  | called allowed ran =>
    obtain ⟨left, added, thinned⟩ := call_thinned turns underWay allowed safe ran
    exact turns.thinned underWay thinned
  | next ran =>
    cases (turns.next_run underWay).symm.trans ran
    obtain ⟨before', old', new', turns'⟩ := turns.advance underWay safe
    exact ⟨before', old', new', chain, turns'⟩

/-- `ght_first` goes on with the oldest entry. -/
theorem first_run {iterator : Iterator} {pData : Option D}
    (represents : Represents kernel h t nodes chain)
    (ran : ghtFirst t h = .ok ((iterator, pData), h')) :
    (atStart h' t).moved iterator pData =
      (atStart h t).moved (iteratorAt (nodes ++ [])) ((nodes ++ []).head?.bind h.pData) := by
  rw [List.append_nil]
  cases (ghtFirst_run represents).symm.trans ran
  rfl

/-- The turns are in order in every run of safe steps. -/
theorem turns_of_reached (reached : Reached kernel (Safe kernel) s) :
    ∃ before old new chain, Turns kernel s before old new chain := by
  induction reached with
  | first reached safe ran =>
    obtain ⟨nodes, chain, represents⟩ := reached.usable
    obtain ⟨before, old, new, turns⟩ := (turns_start represents).advance rfl safe
    rw [first_run represents ran]
    exact ⟨before, old, new, chain, turns⟩
  | step _ underWay safe step ih =>
    obtain ⟨before, old, new, chain, turns⟩ := ih
    exact turns_step turns underWay safe step

end Runs

/-! ### A table that is over its size -/

/-- Seventeen entries in eight buckets: the next insertion rehashes. -/
theorem crowded_reachable :
    ∃ (h : Heap ℕ) (t : HashTable ℕ) (nodes : List Addr) (chain : UInt → List Addr),
    Reachable alwaysGranted h t ∧ Represents alwaysGranted h t nodes chain ∧
      contents h nodes = (List.range 17).map (fun i => (numbered i, some 1)) ∧ overfull t = true := by
  obtain ⟨h, t, nodes, chain, reached, represents, filled, -, -, mask⟩ :=
    filled_reachable (by decide : 17 ≤ 2 ^ 32)
  refine ⟨h, ghtSetRehash t true, nodes, chain, .rehashing reached true,
    represents.configured _ true represents.indexed.bounded, filled, ?_⟩
  have count : nodes.length = 17 := filled_length filled
  have size : t.iSize = 8 := by
    have masked := represents.indexed.sized.masked
    rw [mask] at masked
    exact BitVec.eq_of_toNat_eq (masked.symm.trans (by decide))
  rw [overfull, ghtSetRehash, size, represents.indexed.items, count]
  rfl

/-- An iteration over that table, before an insertion. -/
theorem crowded_started :
    ∃ (h h' : Heap ℕ) (t t' : HashTable ℕ) (iterator : Iterator) (pData : Option ℕ),
    Reachable alwaysGranted h t ∧ Safe alwaysGranted (atStart h t) .next ∧
    ghtFirst t h = .ok ((iterator, pData), h) ∧
      pData ≠ none ∧ ¬ InsertSafe alwaysGranted ((atStart h t).moved iterator pData) (numbered 17) ∧
      (Call.insert (numbered 17) (some 1)).run alwaysGranted t h = .ok (t', h') := by
  obtain ⟨h, t, nodes, chain, reached, represents, filled, crowded⟩ := crowded_reachable
  have count : nodes.length = 17 := filled_length filled
  obtain ⟨c, x, rest, rfl⟩ : ∃ c x rest, nodes = c :: x :: rest := by
    rcases nodes with - | ⟨c, - | ⟨x, rest⟩⟩
    · cases count
    · cases count
    · exact ⟨c, x, rest, rfl⟩
  have data : h.pData c = some 1 := (filled_entry filled List.mem_cons_self).1
  have absent : ∀ a ∈ c :: x :: rest, h.key a ≠ numbered 17 := filled_absent filled (by decide)
  have first := ghtFirst_run represents
  rw [List.head?_cons, Option.bind_some, data] at first
  have inserts : ∃ t' h', (Call.insert (numbered 17) (some 1)).run alwaysGranted t h =
      .ok (t', h') := by
    cases ghtInsert_effect represents (some 1) (numbered 17) with
    | unchanged ran _ _ _ => exact ⟨_, _, bind_ok ran⟩
    | stopped missing _ =>
      obtain ⟨n, missing⟩ := missing
      cases missing.symm.trans (tableServed_all (fun _ => rfl) n)
    | placed inserted _ _ _ _ => exact ⟨_, _, bind_ok inserted.ran⟩
    | rebuilt inserted _ _ _ => exact ⟨_, _, bind_ok inserted.ran⟩
  obtain ⟨t', h', ran⟩ := inserts
  refine ⟨h, h', t, t', _, _, reached, fun a _ saved => ?_, first, Option.some_ne_none 1, ?_, ran⟩
  · have oldest : t.pOldest = some c := represents.linkage.age.next_none
    cases oldest.symm.trans saved
    exact fun none' => Option.some_ne_none 1 (data.symm.trans none')
  · rintro (none' | ⟨a, member, present⟩ | refused | ⟨sparse, -⟩)
    · cases none'
    · exact absent a (byAge_eq represents ▸ member) present
    · cases refused.symm.trans (nodeServed_all (fun _ => rfl) _)
    · cases sparse.symm.trans crowded

/-! ### When an iteration is sound -/

/-- An iteration is sound as long as its steps are safe, and no longer. -/
theorem iteration_sound (kernel : Kernel) :
    (∀ s : Iteration D, Reached kernel (Safe kernel) s → Sound s) ∧
      (∀ (h h' : Heap D) (t : HashTable D) (iterator : Iterator) (pData : Option D),
        Reachable kernel h t →
        ghtFirst t h = .ok ((iterator, pData), h') → ¬ Safe kernel (atStart h t) .next →
          ¬ Sound ((atStart h' t).moved iterator pData)) ∧
      ∀ (s s' : Iteration D) (event : Event D), Reached kernel (Safe kernel) s → s.finished = false →
        Step kernel s event s' → ¬ Safe kernel s event → ¬ Sound s' := by
  refine ⟨fun s reached => ?_, fun h h' t iterator pData reached ran dangerous => ?_,
    fun s s' event reached underWay step dangerous => ?_⟩
  · obtain ⟨before, old, new, chain, turns⟩ := turns_of_reached reached
    exact turns.sound
  · obtain ⟨nodes, chain, represents⟩ := reached.usable
    rw [first_run represents ran]
    exact next_unsafe (turns_start represents) rfl dangerous
  · obtain ⟨before, old, new, chain, turns⟩ := turns_of_reached reached
    cases step with
    | @called call h' t' allowed ran =>
      cases call with
      | insert key pData => exact insert_unsafe turns underWay dangerous ran
      | _ => exact absurd trivial dangerous
    | next ran =>
      cases (turns.next_run underWay).symm.trans ran
      exact next_unsafe turns underWay dangerous

/-- A safe start and an insertion that is not. -/
theorem iteration_sound_crowded :
    ∃ s s' : Iteration ℕ, Reached alwaysGranted (Safe alwaysGranted) s ∧ Sound s ∧
    Step alwaysGranted s (.call (.insert (numbered 17) (some 1))) s' ∧ ¬ Sound s' := by
  obtain ⟨h, h', t, t', iterator, pData, reached, safe, first, data, dangerous, ran⟩ := crowded_started
  obtain ⟨d, rfl⟩ := Option.ne_none_iff_exists'.mp data
  have started : Reached alwaysGranted (Safe alwaysGranted) _ := .first reached safe first
  have step : Step alwaysGranted ((atStart h t).moved iterator (some d))
      (.call (.insert (numbered 17) (some 1))) _ :=
    .called trivial ran
  refine ⟨_, _, started, (iteration_sound alwaysGranted).1 _ started, step, ?_⟩
  exact (iteration_sound alwaysGranted).2.2 _ _ _ started rfl step dangerous

/-- A new key, inserted during an iteration, frees the entry that comes next. -/
theorem next_after_rehash :
    ¬ ∀ s : Iteration ℕ, Reached alwaysGranted (fun _ _ => True) s → Sound s := by
  intro always
  obtain ⟨h, h', t, t', iterator, pData, reached, safe, first, data, dangerous, ran⟩ := crowded_started
  obtain ⟨d, rfl⟩ := Option.ne_none_iff_exists'.mp data
  obtain ⟨before, old, new, chain, turns⟩ : ∃ before old new chain,
    Turns alwaysGranted _ before old new chain :=
    turns_of_reached (.first reached safe first)
  have step : Step alwaysGranted ((atStart h t).moved iterator (some d))
      (.call (.insert (numbered 17) (some 1))) _ :=
    .called trivial ran
  exact insert_unsafe turns rfl dangerous ran
    (always _ (.step (.first reached trivial first) rfl trivial step))

end FsdFilter.IterationSafety
