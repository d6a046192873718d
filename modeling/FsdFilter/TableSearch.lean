import FsdFilter.TableRepresentation

/-! Lookups. A search finds the entry of a key if there is one, whatever the chain
looks like, and at most reorders the chain. -/
namespace FsdFilter.TableSearch
open SizedBlocks LinkedLists SelfOrganizingLists StateRuns CommonHashTable TableMemory ChainEdits
open TableRepresentation

variable {D : Type} {kernel : Kernel} {h h' : Heap D} {t t' : HashTable D} {nodes : List Addr}
  {chain : UInt → List Addr} {a : Addr} {b : UInt} {key : HashKey} {heuristics : BitVec 8}

section Loop
variable {next : Option Addr → Option Addr} {prev : Addr → Option Addr} {x : Option Addr}
  {l : List Addr} {fuel : ℕ}

/-- The search passes an entry with another key. -/
theorem searchFrom_pass {c : Addr} (live : h.blocks.live c = true) (other : h.key c ≠ key) :
    searchFrom t b key heuristics (fuel + 1) (some c) h =
      searchFrom t b key heuristics fuel (h.pNext c) h := by
  have differs : ¬ sameKey (h.key c) key = true := fun same => other (sameKey_iff.mp same)
  rw [searchFrom, field_bind live, if_neg differs, field_bind live]

/-- A search for a key that no entry has. -/
theorem searchFrom_absent (links : Links next prev x l none) (fields : ∀ c, next (some c) = h.pNext c)
    (live : ∀ c ∈ l, h.blocks.live c = true) (absent : ∀ c ∈ l, h.key c ≠ key)
    (enough : l.length ≤ fuel) :
    searchFrom t b key heuristics fuel l.head? h = .ok ((none, t), h) := by
  induction l generalizing x fuel with
  | nil => cases fuel <;> rfl
  | cons c rest ih =>
    cases fuel with
    | zero => cases enough
    | succ fuel =>
      obtain ⟨-, -, links⟩ := links
      have following : h.pNext c = rest.head? := by
        rw [← fields c, links.next_eq, Option.or_none]
      rw [List.head?_cons,
        searchFrom_pass (live c List.mem_cons_self) (absent c List.mem_cons_self), following]
      exact ih links (fun d member => live d (List.mem_cons_of_mem _ member))
        (fun d member => absent d (List.mem_cons_of_mem _ member)) (Nat.le_of_succ_le_succ enough)

/-- What a search does with the entry that it found. -/
def found (t : HashTable D) (b : UInt) (heuristics : BitVec 8) (a : Addr) :
    HashM D (Option Addr × HashTable D) := do
  let t ← if heuristics = 2 then moveToFront t b a
    else if heuristics = 1 then transpose t b a
    else pure t
  pure (some a, t)

/-- A search stops at the first entry with the key. -/
theorem searchFrom_found {before after : List Addr}
    (links : Links next prev x (before ++ a :: after) none)
    (fields : ∀ c, next (some c) = h.pNext c)
    (live : ∀ c ∈ before ++ a :: after, h.blocks.live c = true)
    (others : ∀ c ∈ before, h.key c ≠ key) (here : h.key a = key) (enough : before.length < fuel) :
    searchFrom t b key heuristics fuel (before ++ a :: after).head? h = found t b heuristics a h := by
  induction before generalizing x fuel with
  | nil =>
    cases fuel with
    | zero => cases enough
    | succ fuel =>
      have same : sameKey (h.key a) key = true := sameKey_iff.mpr here
      rw [List.nil_append, List.head?_cons, searchFrom, field_bind (live a (by simp)), if_pos same]
      rfl
  | cons c rest ih =>
    cases fuel with
    | zero => cases enough
    | succ fuel =>
      obtain ⟨-, -, links⟩ := links
      have following : h.pNext c = (rest ++ a :: after).head? := by
        rw [← fields c, links.next_eq, Option.or_none]
        rfl
      rw [List.cons_append, List.head?_cons,
        searchFrom_pass (live c (by simp)) (others c List.mem_cons_self), following]
      exact ih links (fun d member => live d (List.mem_cons_of_mem _ member))
        (fun d member => others d (List.mem_cons_of_mem _ member)) (Nat.lt_of_succ_lt_succ enough)

end Loop

/-- Where the heuristics move the entry that was found. -/
def promote {α : Type} (heuristics : BitVec 8) (p : α → Bool) (l : List α) : List α :=
  if heuristics = 2 then toFront p l else if heuristics = 1 then oneUp p l else l

/-- The heuristics reorder the chain. -/
theorem found_rechains (linkage : Linkage h t nodes chain) (inChain : a ∈ chain b)
    (heuristics : BitVec 8) :
    ∃ h' t', found t b heuristics a h = .ok ((some a, t'), h') ∧
      Rechained h t nodes chain b (promote heuristics (· = a) (chain b)) h' t' := by
  rw [found, promote]
  by_cases front : heuristics = 2
  · obtain ⟨h', t', ran, rechained⟩ := moveToFront_rechains linkage inChain
    rw [if_pos front, if_pos front]
    exact ⟨h', t', bind_ok ran, rechained⟩
  · rw [if_neg front, if_neg front]
    by_cases up : heuristics = 1
    · obtain ⟨h', t', ran, rechained⟩ := transpose_rechains linkage inChain
      rw [if_pos up, if_pos up]
      exact ⟨h', t', bind_ok ran, rechained⟩
    · rw [if_neg up, if_neg up]
      exact ⟨h, t, rfl, linkage.rechained_refl rfl⟩

theorem found_plain : found t b 0 a h = .ok ((some a, t), h) := rfl

/-- A key that is not in the table is not found. -/
theorem searchInBucket_absent (represents : Represents kernel h t nodes chain)
    (absent : ∀ c ∈ nodes, h.key c ≠ key) (b : UInt) (heuristics : BitVec 8) :
    searchInBucket t b key heuristics h = .ok ((none, t), h) := by
  have linked := represents.linkage.chained b
  have first : t.ppEntries b = (chain b).head? := linked.next_none
  rw [searchInBucket, get_bind, first]
  exact searchFrom_absent linked (fun _ => rfl) (fun c member => represents.linkage.live c (.inr ⟨b, member⟩))
    (fun c member => absent c ((represents.indexed.inChain c b).mp member).1)
    (represents.chain_length b)

/-- A key that is in the table is found. -/
theorem searchInBucket_found (represents : Represents kernel h t nodes chain) (member : a ∈ nodes)
    (heuristics : BitVec 8) : searchInBucket t (t.bucketOf (h.key a)) (h.key a) heuristics h =
      found t (t.bucketOf (h.key a)) heuristics a h := by
  have inChain := represents.indexed.mem_chain member
  obtain ⟨before, after, split⟩ := List.append_of_mem inChain
  have linked := represents.linkage.chained (t.bucketOf (h.key a))
  have distinct := represents.linkage.chainDistinct (t.bucketOf (h.key a))
  have first : t.ppEntries (t.bucketOf (h.key a)) = (chain (t.bucketOf (h.key a))).head? :=
    linked.next_none
  have enough := represents.chain_length (t.bucketOf (h.key a))
  rw [split] at linked distinct first enough
  have ofChain : ∀ c ∈ before ++ a :: after, c ∈ chain (t.bucketOf (h.key a)) :=
    fun c member => split ▸ member
  rw [searchInBucket, get_bind, first]
  refine searchFrom_found linked (fun _ => rfl) (fun c member => ?_) (fun c member same => ?_) rfl ?_
  · exact represents.linkage.live c (.inr ⟨_, ofChain c member⟩)
  · have inNodes := ((represents.indexed.inChain c _).mp (ofChain c (List.mem_append_left _ member))).1
    have one := represents.indexed.key_inj (a := a) ‹a ∈ nodes› inNodes same
    exact (List.nodup_append.mp distinct).2.2 c member a List.mem_cons_self one
  · rw [List.length_append, List.length_cons] at enough
    omega

/-- A lookup with any heuristics leaves the table as it was. -/
theorem searchInBucket_rechains (represents : Represents kernel h t nodes chain) (member : a ∈ nodes)
    (heuristics : BitVec 8) : ∃ h' t', searchInBucket t (t.bucketOf (h.key a)) (h.key a) heuristics h =
      .ok ((some a, t'), h') ∧ Reheaded t t' ∧ Relinked h h' (· ∈ nodes) ∧
        Represents kernel h' t' nodes (Function.update chain (t.bucketOf (h.key a))
          (promote heuristics (· = a) (chain (t.bucketOf (h.key a))))) := by
  obtain ⟨h', t', ran, rechained⟩ :=
    found_rechains represents.linkage (represents.indexed.mem_chain member) heuristics
  exact ⟨h', t', (searchInBucket_found represents member heuristics).trans ran,
    represents.rechained rechained⟩

end FsdFilter.TableSearch
