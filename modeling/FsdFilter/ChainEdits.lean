import Mathlib.Data.List.Perm.Basic
import FsdFilter.SelfOrganizingLists
import FsdFilter.TableMemory

/-! The bucket chains and the list by age are doubly linked lists that share their
entries. Each routine that edits them takes an entry out of its place, puts one in, or
both, and leaves the rest of the memory alone. -/
namespace FsdFilter.ChainEdits
open SizedBlocks LinkedLists SelfOrganizingLists StateRuns CommonHashTable TableMemory

variable {D : Type} {h h' h'' : Heap D} {t t' t'' : HashTable D} {nodes : List Addr}
  {chain : UInt → List Addr} {a : Addr} {b : UInt}

/-- The entries that the lists lead to. -/
def Member (nodes : List Addr) (chain : UInt → List Addr) (a : Addr) : Prop :=
  a ∈ nodes ∨ ∃ b, a ∈ chain b

/-- The lists of a table, as the memory has them. -/
structure Linkage (h : Heap D) (t : HashTable D) (nodes : List Addr)
    (chain : UInt → List Addr) : Prop where
  age : Linked (follow t.pOldest h.pNewer) h.pOlder nodes
  newest : t.pNewest = nodes.getLast?
  distinct : nodes.Nodup
  chained : ∀ b, Linked (follow (t.ppEntries b) h.pNext) h.pPrev (chain b)
  chainDistinct : ∀ b, (chain b).Nodup
  once : ∀ a b b', a ∈ chain b → a ∈ chain b' → b = b'
  live : ∀ a, Member nodes chain a → h.blocks.live a = true

/-- Only links of some entries differ. -/
structure Relinked (h h' : Heap D) (inside : Addr → Prop) : Prop where
  blocks : h'.blocks = h.blocks
  key : h'.key = h.key
  pData : h'.pData = h.pData
  size : h'.size = h.size
  keyShadow : h'.keyShadow = h.keyShadow
  outside : ∀ a, ¬ inside a → h'.pNext a = h.pNext a ∧ h'.pPrev a = h.pPrev a ∧
    h'.pOlder a = h.pOlder a ∧ h'.pNewer a = h.pNewer a

/-- Only head pointers differ. -/
def Reheaded (t t' : HashTable D) : Prop :=
  ∃ entries oldest newest, t' = { t with ppEntries := entries, pOldest := oldest, pNewest := newest }

theorem Relinked.refl (inside : Addr → Prop) : Relinked h h inside :=
  ⟨rfl, rfl, rfl, rfl, rfl, fun _ _ => ⟨rfl, rfl, rfl, rfl⟩⟩

theorem Relinked.trans {inside : Addr → Prop} (first : Relinked h h' inside)
    (second : Relinked h' h'' inside) :
    Relinked h h'' inside := by
  refine ⟨second.blocks.trans first.blocks, second.key.trans first.key, second.pData.trans first.pData,
    second.size.trans first.size, second.keyShadow.trans first.keyShadow, fun a apart => ?_⟩
  obtain ⟨next, prev, older, newer⟩ := first.outside a apart
  obtain ⟨next', prev', older', newer'⟩ := second.outside a apart
  exact ⟨next'.trans next, prev'.trans prev, older'.trans older, newer'.trans newer⟩

theorem Relinked.mono {inside inside' : Addr → Prop} (relinked : Relinked h h' inside)
    (wider : ∀ a, inside a → inside' a) : Relinked h h' inside' :=
  { relinked with outside := fun a apart => relinked.outside a fun within => apart (wider a within) }

theorem Relinked.cell_eq {inside : Addr → Prop} (relinked : Relinked h h' inside) (apart : ¬ inside a) :
    cell h' a = cell h a := by
  obtain ⟨next, prev, older, newer⟩ := relinked.outside a apart
  simp only [cell, relinked.blocks, relinked.key, relinked.pData, relinked.size,
    relinked.keyShadow, next, prev, older, newer]

theorem Reheaded.refl : Reheaded t t := ⟨t.ppEntries, t.pOldest, t.pNewest, rfl⟩

theorem Reheaded.trans (first : Reheaded t t') (second : Reheaded t' t'') : Reheaded t t'' := by
  obtain ⟨entries, oldest, newest, rfl⟩ := first
  obtain ⟨entries', oldest', newest', rfl⟩ := second
  exact ⟨entries', oldest', newest', rfl⟩

theorem reheaded_linkedTo {p value : Option Addr} : Reheaded t (linkedTo t b p value) := by
  cases p
  · exact ⟨Function.update t.ppEntries b value, t.pOldest, t.pNewest, rfl⟩
  · exact .refl

theorem reheaded_oldestTo {p value : Option Addr} : Reheaded t (oldestTo t p value) := by
  cases p
  · exact ⟨t.ppEntries, value, t.pNewest, rfl⟩
  · exact .refl

theorem reheaded_newestTo {p value : Option Addr} : Reheaded t (newestTo t p value) := by
  cases p
  · exact ⟨t.ppEntries, t.pOldest, value, rfl⟩
  · exact .refl

/-! ### Which head pointers an edit leaves alone -/

section Heads
variable {p value : Option Addr}

@[simp] theorem linkedTo_pOldest : (linkedTo t b p value).pOldest = t.pOldest := by cases p <;> rfl

@[simp] theorem linkedTo_pNewest : (linkedTo t b p value).pNewest = t.pNewest := by cases p <;> rfl

@[simp] theorem oldestTo_ppEntries : (oldestTo t p value).ppEntries = t.ppEntries := by cases p <;> rfl

@[simp] theorem oldestTo_pNewest : (oldestTo t p value).pNewest = t.pNewest := by cases p <;> rfl

@[simp] theorem newestTo_ppEntries : (newestTo t p value).ppEntries = t.ppEntries := by cases p <;> rfl

@[simp] theorem newestTo_pOldest : (newestTo t p value).pOldest = t.pOldest := by cases p <;> rfl

theorem newestTo_pNewest : (newestTo t p value).pNewest = if p = none then value else t.pNewest := by
  cases p <;> rfl

end Heads

/-! ### Neighbours -/

/-- Of the neighbours of an entry, none is the entry itself. -/
theorem neighbours_apart {before after : List Addr} (distinct : (before ++ a :: after).Nodup) :
    before.getLast? ≠ some a ∧ after.head? ≠ some a := by
  obtain ⟨-, afterDistinct, apart⟩ := List.nodup_append.mp distinct
  constructor
  · intro last
    exact apart a (List.mem_of_getLast? last) a List.mem_cons_self rfl
  · intro first
    exact (List.nodup_cons.mp afterDistinct).1 (List.mem_of_head? first)

theorem Linkage.liveAt (linkage : Linkage h t nodes chain) {p : Option Addr}
    (member : ∀ c, p = some c → Member nodes chain c) : LiveAt h.blocks p :=
  fun c here => linkage.live c (member c here)

/-- The lists read only the memory of their entries. -/
theorem Linkage.congr (linkage : Linkage h t nodes chain)
    (same : ∀ a, Member nodes chain a → cell h' a = cell h a) :
    Linkage h' t nodes chain := by
  refine ⟨linkage.age.congr rfl ?_ ?_, linkage.newest, linkage.distinct,
    fun b => (linkage.chained b).congr rfl ?_ ?_, linkage.chainDistinct, linkage.once, ?_⟩
  · exact fun a member => cell_newer (same a (.inl member))
  · exact fun a member => cell_older (same a (.inl member))
  · exact fun a member => cell_next (same a (.inr ⟨b, member⟩))
  · exact fun a member => cell_prev (same a (.inr ⟨b, member⟩))
  · exact fun a member => (cell_live (same a member)).trans (linkage.live a member)

/-- The lists read only the head pointers of the table. -/
theorem Linkage.recount (linkage : Linkage h t nodes chain) (entries : t'.ppEntries = t.ppEntries)
    (oldest : t'.pOldest = t.pOldest) (newest : t'.pNewest = t.pNewest) : Linkage h t' nodes chain := by
  refine { linkage with age := ?_, newest := newest.trans linkage.newest, chained := fun b => ?_ }
  · rw [oldest]
    exact linkage.age
  · rw [entries]
    exact linkage.chained b

/-- One chain is replaced by a list of entries that no other chain has. -/
theorem Linkage.rechained {l : List Addr} {touched : Addr → Prop} (linkage : Linkage h t nodes chain)
    (relinked : Relinked h h' touched) (heads : ∀ b', b' ≠ b → t'.ppEntries b' = t.ppEntries b')
    (oldest : t'.pOldest = t.pOldest) (newest : t'.pNewest = t.pNewest) (older : h'.pOlder = h.pOlder)
    (newer : h'.pNewer = h.pNewer) (linked : Linked (follow (t'.ppEntries b) h'.pNext) h'.pPrev l)
    (distinct : l.Nodup) (inside : ∀ c ∈ l, touched c)
    (own : ∀ c, touched c → ∀ b', b' ≠ b → c ∉ chain b')
    (live : ∀ c, touched c → h.blocks.live c = true) :
    Linkage h' t' nodes (Function.update chain b l) := by
  have chainOf : ∀ {b'}, b' ≠ b → Function.update chain b l b' = chain b' :=
    fun other => Function.update_of_ne other ..
  refine ⟨?_, newest.trans linkage.newest, linkage.distinct, fun b' => ?_, fun b' => ?_,
    fun c b' b'' => ?_, ?_⟩
  · rw [oldest, newer, older]
    exact linkage.age
  · by_cases here : b' = b
    · subst here
      rw [Function.update_self]
      exact linked
    · rw [chainOf here, heads b' here]
      have apart : ∀ c ∈ chain b', ¬ touched c := fun c member within => own c within b' here member
      refine (linkage.chained b').congr rfl (fun c member => ?_) fun c member => ?_
      · exact (relinked.outside c (apart c member)).1
      · exact (relinked.outside c (apart c member)).2.1
  · by_cases here : b' = b
    · rw [here, Function.update_self]
      exact distinct
    · rw [chainOf here]
      exact linkage.chainDistinct b'
  · intro first second
    by_cases here : b' = b <;> by_cases there : b'' = b
    · exact here.trans there.symm
    · rw [here, Function.update_self] at first
      rw [chainOf there] at second
      exact absurd second (own c (inside c first) b'' there)
    · rw [there, Function.update_self] at second
      rw [chainOf here] at first
      exact absurd first (own c (inside c second) b' here)
    · rw [chainOf here] at first
      rw [chainOf there] at second
      exact linkage.once c b' b'' first second
  · rintro c (member | ⟨b', member⟩)
    · rw [relinked.blocks]
      exact linkage.live c (.inl member)
    · rw [relinked.blocks]
      by_cases here : b' = b
      · rw [here, Function.update_self] at member
        exact live c (inside c member)
      · rw [chainOf here] at member
        exact linkage.live c (.inr ⟨b', member⟩)

/-- The list by age is replaced. -/
theorem Linkage.reaged {nodes' : List Addr} (linkage : Linkage h t nodes chain)
    (blocks : h'.blocks = h.blocks) (entries : t'.ppEntries = t.ppEntries)
    (nexts : h'.pNext = h.pNext) (prevs : h'.pPrev = h.pPrev)
    (age : Linked (follow t'.pOldest h'.pNewer) h'.pOlder nodes')
    (newest : t'.pNewest = nodes'.getLast?) (distinct : nodes'.Nodup)
    (live : ∀ c ∈ nodes', h.blocks.live c = true) : Linkage h' t' nodes' chain := by
  refine ⟨age, newest, distinct, fun b' => ?_, linkage.chainDistinct, linkage.once, ?_⟩
  · rw [entries, nexts, prevs]
    exact linkage.chained b'
  · rw [blocks]
    rintro c (member | member)
    · exact live c member
    · exact linkage.live c (.inr member)

/-! ### Taking an entry out -/

/-- A write through a pointer leaves the other addresses alone. -/
theorem setAt_outside {f : Addr → Option Addr} {p value : Option Addr} {inside : Addr → Prop}
    (within : ∀ c, p = some c → inside c) {c : Addr} (apart : ¬ inside c) : setAt f p value c = f c :=
  setAt_of_ne fun same => apart (within c same)

/-- The chain part of `remove_from_chain`. -/
theorem unchain (linkage : Linkage h t nodes chain) {before after : List Addr}
    (split : chain b = before ++ a :: after) :
    let h' := { h with
      pNext := setAt h.pNext before.getLast? after.head?,
        pPrev := setAt h.pPrev after.head? before.getLast? }
    Relinked h h' (· ∈ chain b) ∧
      Linkage h' (linkedTo t b before.getLast? after.head?) nodes
      (Function.update chain b (before ++ after)) := by
  have distinct := linkage.chainDistinct b
  have linked := linkage.chained b
  rw [split] at distinct linked
  obtain ⟨prev, next⟩ := linked.neighbours
  have lastIn : ∀ c, before.getLast? = some c → c ∈ chain b := by
    intro c last
    rw [split]
    exact List.mem_append_left _ (List.mem_of_getLast? last)
  have headIn : ∀ c, after.head? = some c → c ∈ chain b := by
    intro c first
    rw [split]
    exact List.mem_append_right _ (List.mem_cons_of_mem _ (List.mem_of_head? first))
  have relinked : Relinked h { h with
      pNext := setAt h.pNext before.getLast? after.head?,
        pPrev := setAt h.pPrev after.head? before.getLast? }
      (· ∈ chain b) :=
    ⟨rfl, rfl, rfl, rfl, rfl,
      fun c apart => ⟨setAt_outside lastIn apart, setAt_outside headIn apart, rfl, rfl⟩⟩
  refine ⟨relinked, linkage.rechained relinked (fun b' other => linkedTo_other other) linkedTo_pOldest
    linkedTo_pNewest rfl rfl ?_ (distinct.sublist (by simp)) ?_ ?_ ?_⟩
  · rw [follow_linkedTo]
    have out := linked.unlink distinct
    rwa [prev, next] at out
  · intro c member
    rw [split]
    rcases List.mem_append.mp member with left | right
    · exact List.mem_append_left _ left
    · exact List.mem_append_right _ (List.mem_cons_of_mem _ right)
  · exact fun c member b' other elsewhere => other (linkage.once c b' b elsewhere member)
  · exact fun c member => linkage.live c (.inr ⟨b, member⟩)

/-- The age part of `remove_from_chain`. -/
theorem unage (linkage : Linkage h t nodes chain) {before after : List Addr}
    (split : nodes = before ++ a :: after) :
    let h' := { h with
      pNewer := setAt h.pNewer before.getLast? after.head?,
        pOlder := setAt h.pOlder after.head? before.getLast? }
    Relinked h h' (· ∈ nodes) ∧
      Linkage h' (newestTo (oldestTo t before.getLast? after.head?) after.head? before.getLast?)
      (before ++ after)
        chain := by
  have distinct := linkage.distinct
  have linked := linkage.age
  have newest := linkage.newest
  rw [split] at distinct linked newest
  obtain ⟨older, newer⟩ := linked.neighbours
  have lastIn : ∀ c, before.getLast? = some c → c ∈ nodes := by
    intro c last
    rw [split]
    exact List.mem_append_left _ (List.mem_of_getLast? last)
  have headIn : ∀ c, after.head? = some c → c ∈ nodes := by
    intro c first
    rw [split]
    exact List.mem_append_right _ (List.mem_cons_of_mem _ (List.mem_of_head? first))
  constructor
  · exact ⟨rfl, rfl, rfl, rfl, rfl,
      fun c apart => ⟨rfl, rfl, setAt_outside headIn apart, setAt_outside lastIn apart⟩⟩
  · refine linkage.reaged rfl (by simp) rfl rfl ?_ ?_ (distinct.sublist (by simp)) ?_
    · rw [newestTo_pOldest, follow_oldestTo]
      have out := linked.unlink distinct
      rwa [older, newer] at out
    · rw [newestTo_pNewest, oldestTo_pNewest, newest]
      cases after with
      | nil => simp
      | cons c rest => simp [List.getLast?_append, List.getLast?_cons]
    · intro c member
      apply linkage.live c (.inl _)
      rw [split]
      rcases List.mem_append.mp member with left | right
      · exact List.mem_append_left _ left
      · exact List.mem_append_right _ (List.mem_cons_of_mem _ right)

theorem Linkage.lastLive (linkage : Linkage h t nodes chain) {before after : List Addr}
    (split : chain b = before ++ after) : LiveAt h.blocks before.getLast? := by
  apply linkage.liveAt
  intro c last
  refine .inr ⟨b, ?_⟩
  rw [split]
  exact List.mem_append_left _ (List.mem_of_getLast? last)

theorem Linkage.headLive (linkage : Linkage h t nodes chain) {before after : List Addr}
    (split : chain b = before ++ after) : LiveAt h.blocks after.head? := by
  apply linkage.liveAt
  intro c first
  refine .inr ⟨b, ?_⟩
  rw [split]
  exact List.mem_append_right _ (List.mem_of_head? first)

/-- `remove_from_chain` takes the entry out of both lists. -/
theorem removeFromChain_run (linkage : Linkage h t nodes chain) (inNodes : a ∈ nodes)
    (inChain : a ∈ chain b) :
    ∃ h' t', removeFromChain t b a h = .ok (t', h') ∧ Reheaded t t' ∧
      Relinked h h' (Member nodes chain) ∧
      Linkage h' t' (nodes.erase a) (Function.update chain b ((chain b).erase a)) ∧
      ∀ c, c ∉ nodes → h'.pNewer c = h.pNewer c := by
  obtain ⟨before, after, chainSplit⟩ := List.append_of_mem inChain
  obtain ⟨older, newer, ageSplit⟩ := List.append_of_mem inNodes
  have chainDistinct := linkage.chainDistinct b
  have ageDistinct := linkage.distinct
  rw [chainSplit] at chainDistinct
  rw [ageSplit] at ageDistinct
  have chainLinks := linkage.chained b
  have ageLinks := linkage.age
  rw [chainSplit] at chainLinks
  rw [ageSplit] at ageLinks
  obtain ⟨prevOf, nextOf⟩ := chainLinks.neighbours
  obtain ⟨olderOf, newerOf⟩ := ageLinks.neighbours
  obtain ⟨lastApart, headApart⟩ := neighbours_apart chainDistinct
  obtain ⟨lastApart', headApart'⟩ := neighbours_apart ageDistinct
  obtain ⟨relinkedChain, unchained⟩ := unchain linkage chainSplit
  obtain ⟨relinkedAge, unaged⟩ := unage unchained ageSplit
  have live := linkage.live a (.inl inNodes)
  have behind : chain b = before ++ [a] ++ after := by
    rw [chainSplit, List.append_assoc, List.singleton_append]
  have prevLive := linkage.lastLive chainSplit
  have nextLive := linkage.headLive behind
  have aged : ∀ c, c ∈ nodes → h.blocks.live c = true := fun c member => linkage.live c (.inl member)
  have olderLive : LiveAt h.blocks older.getLast? := by
    intro c last
    apply aged c
    rw [ageSplit]
    exact List.mem_append_left _ (List.mem_of_getLast? last)
  have newerLive : LiveAt h.blocks newer.head? := by
    intro c first
    apply aged c
    rw [ageSplit]
    exact List.mem_append_right _ (List.mem_cons_of_mem _ (List.mem_of_head? first))
  have nextOf' : h.pNext a = after.head? := nextOf
  have newerOf' : h.pNewer a = newer.head? := newerOf
  have erased : (chain b).erase a = before ++ after := by
    rw [chainSplit, List.erase_append_right _ ?_, List.erase_cons_head]
    intro early
    exact (List.nodup_append.mp chainDistinct).2.2 a early a List.mem_cons_self rfl
  have erased' : nodes.erase a = older ++ newer := by
    rw [ageSplit, List.erase_append_right _ ?_, List.erase_cons_head]
    intro early
    exact (List.nodup_append.mp ageDistinct).2.2 a early a List.mem_cons_self rfl
  rw [erased, erased']
  refine ⟨_, _, ?_, ?_, ?_, unaged, fun c apart => (relinkedAge.outside c apart).2.2.2⟩
  · simp only [removeFromChain, field_bind, setLink_bind, setPrevOf_bind, setNewerLink_bind,
      setOlderLink_run, live,
      prevOf, nextOf', olderOf, newerOf', setAt_of_ne lastApart, setAt_of_ne lastApart',
      prevLive, nextLive, olderLive, newerLive]
  · exact (reheaded_linkedTo.trans reheaded_oldestTo).trans reheaded_newestTo
  · refine (relinkedChain.mono ?_).trans (relinkedAge.mono ?_)
    · exact fun c member => .inr ⟨b, member⟩
    · exact fun c member => .inl member

/-! ### Putting an entry in -/

/-- Nothing leads to the entry yet. -/
structure Stray (h : Heap D) (chain : UInt → List Addr) (a : Addr) : Prop where
  live : h.blocks.live a = true
  unchained : ∀ b, a ∉ chain b

/-- An entry is placed between two neighbours of a chain. -/
theorem Linkage.inserted (linkage : Linkage h t nodes chain) (stray : Stray h chain a)
    {before after : List Addr} (split : chain b = before ++ after) :
    let h' := { h with
      pNext := setAt (setAt h.pNext before.getLast? (some a)) (some a) after.head?
      pPrev := setAt (setAt h.pPrev after.head? (some a)) (some a) before.getLast? }
    Relinked h h' (fun c => c = a ∨ c ∈ chain b) ∧
      Linkage h' (linkedTo t b before.getLast? (some a)) nodes
      (Function.update chain b (before ++ a :: after)) := by
  have distinct := linkage.chainDistinct b
  have linked := linkage.chained b
  have new := stray.unchained b
  rw [split] at distinct linked new
  have lastIn : ∀ c, before.getLast? = some c → c = a ∨ c ∈ chain b := by
    intro c last
    rw [split]
    exact .inr (List.mem_append_left _ (List.mem_of_getLast? last))
  have headIn : ∀ c, after.head? = some c → c = a ∨ c ∈ chain b := by
    intro c first
    rw [split]
    exact .inr (List.mem_append_right _ (List.mem_of_head? first))
  have hereIn : ∀ c, some a = some c → c = a ∨ c ∈ chain b :=
    fun c here => .inl (Option.some.inj here).symm
  have relinked : Relinked h { h with
      pNext := setAt (setAt h.pNext before.getLast? (some a)) (some a) after.head?
      pPrev := setAt (setAt h.pPrev after.head? (some a)) (some a) before.getLast? }
      (fun c => c = a ∨ c ∈ chain b) := by
    refine ⟨rfl, rfl, rfl, rfl, rfl, fun c apart => ⟨?_, ?_, rfl, rfl⟩⟩
    · exact (setAt_outside hereIn apart).trans (setAt_outside lastIn apart)
    · exact (setAt_outside hereIn apart).trans (setAt_outside headIn apart)
  refine ⟨relinked, linkage.rechained relinked (fun b' other => linkedTo_other other) linkedTo_pOldest
    linkedTo_pNewest rfl rfl ?_ ?_ ?_ ?_ ?_⟩
  · rw [follow_some, follow_linkedTo]
    exact linked.insert distinct new
  · exact List.nodup_middle.mpr (List.nodup_cons.mpr ⟨new, distinct⟩)
  · intro c member
    rw [split]
    exact List.mem_cons.mp (List.perm_middle.mem_iff.mp member)
  · rintro c (rfl | member) b' other elsewhere
    · exact stray.unchained b' elsewhere
    · exact other (linkage.once c b' b elsewhere member)
  · rintro c (rfl | member)
    · exact stray.live
    · exact linkage.live c (.inr ⟨b, member⟩)

/-- An entry is placed first in its bucket, in the order in which the code writes. -/
theorem Linkage.pushed (linkage : Linkage h t nodes chain) (stray : Stray h chain a) (b : UInt) :
    let h' := { h with
      pNext := setAt h.pNext (some a) (t.ppEntries b)
      pPrev := setAt (setAt h.pPrev (some a) none) (t.ppEntries b) (some a) }
    Relinked h h' (fun c => c = a ∨ c ∈ chain b) ∧
      Linkage h' (t.setBucket b (some a)) nodes (Function.update chain b (a :: chain b)) := by
  have first : t.ppEntries b = (chain b).head? := (linkage.chained b).next_none
  have apart : some a ≠ (chain b).head? := fun here => stray.unchained b (List.mem_of_head? here.symm)
  rw [first, setAt_comm apart]
  exact linkage.inserted stray (List.nil_append (chain b)).symm

/-- An entry is placed last in the list by age. -/
theorem Linkage.appended (linkage : Linkage h t nodes chain) (live : h.blocks.live a = true)
    (new : a ∉ nodes) (last : h.pNewer a = none) :
    let h' := { h with
      pNewer := setAt h.pNewer nodes.getLast? (some a),
        pOlder := setAt h.pOlder (some a) nodes.getLast? }
    Relinked h h' (fun c => c = a ∨ c ∈ nodes) ∧
      Linkage h' { oldestTo t nodes.getLast? (some a) with pNewest := some a }
      (nodes ++ [a]) chain := by
  have lastIn : ∀ c, nodes.getLast? = some c → c = a ∨ c ∈ nodes :=
    fun c here => .inr (List.mem_of_getLast? here)
  have hereIn : ∀ c, some a = some c → c = a ∨ c ∈ nodes :=
    fun c here => .inl (Option.some.inj here).symm
  have linked : Linked (follow t.pOldest h.pNewer) h.pOlder (nodes ++ []) := by
    rw [List.append_nil]
    exact linkage.age
  have distinct : (nodes ++ []).Nodup := by
    rw [List.append_nil]
    exact linkage.distinct
  have new' : a ∉ nodes ++ [] := by
    rw [List.append_nil]
    exact new
  constructor
  · exact ⟨rfl, rfl, rfl, rfl, rfl,
      fun c apart => ⟨rfl, rfl, setAt_outside hereIn apart, setAt_outside lastIn apart⟩⟩
  · refine linkage.reaged rfl ?_ rfl rfl ?_ ?_ ?_ ?_
    · exact oldestTo_ppEntries
    · -- the link behind the new entry is already empty
      have inserted := linked.insert distinct new'
      have ended : Function.update
        (Function.update (follow t.pOldest h.pNewer) nodes.getLast? (some a)) (some a) none =
          Function.update (follow t.pOldest h.pNewer) nodes.getLast? (some a) := by
        apply Function.update_eq_self_iff.mpr
        rw [Function.update_of_ne]
        · exact last.symm
        · exact fun here => new (List.mem_of_getLast? here.symm)
      rw [List.head?_nil, ended, ← follow_oldestTo] at inserted
      exact inserted
    · exact (List.getLast?_concat ..).symm
    · exact List.nodup_append.mpr ⟨linkage.distinct, List.nodup_singleton a, fun c member d here =>
        fun same => new (List.mem_singleton.mp here ▸ same ▸ member)⟩
    · intro c member
      rcases List.mem_append.mp member with old | here
      · exact linkage.live c (.inl old)
      · exact List.mem_singleton.mp here ▸ live

/-! ### Moving an entry -/

/-- An entry that was taken out of its chain is stray. -/
theorem unchained_stray (linkage : Linkage h t nodes chain) {before after : List Addr}
    (split : chain b = before ++ a :: after) (blocks : h'.blocks = h.blocks) :
    Stray h' (Function.update chain b (before ++ after)) a := by
  have member : a ∈ chain b := by
    rw [split]
    exact List.mem_append_right _ List.mem_cons_self
  constructor
  · rw [blocks]
    exact linkage.live a (.inr ⟨b, member⟩)
  · intro b' elsewhere
    by_cases here : b' = b
    · rw [here, Function.update_self] at elsewhere
      have distinct := linkage.chainDistinct b
      rw [split, List.nodup_middle, List.nodup_cons] at distinct
      exact distinct.1 elsewhere
    · rw [Function.update_of_ne here] at elsewhere
      exact here (linkage.once a b' b elsewhere member)

/-- What a lookup makes of the chain it found the entry in. -/
structure Rechained (h : Heap D) (t : HashTable D) (nodes : List Addr)
    (chain : UInt → List Addr) (b : UInt) (l : List Addr) (h' : Heap D) (t' : HashTable D) : Prop where
  reheaded : Reheaded t t'
  relinked : Relinked h h' (· ∈ chain b)
  perm : l.Perm (chain b)
  linkage : Linkage h' t' nodes (Function.update chain b l)

theorem Linkage.rechained_refl {l : List Addr} (linkage : Linkage h t nodes chain)
    (same : l = chain b) :
    Rechained h t nodes chain b l h t := by
  subst same
  refine ⟨.refl, .refl _, .refl _, ?_⟩
  rwa [Function.update_eq_self]


/-- `move_to_front`. -/
theorem moveToFront_rechains (linkage : Linkage h t nodes chain) (inChain : a ∈ chain b) :
    ∃ h' t', moveToFront t b a h = .ok (t', h') ∧
      Rechained h t nodes chain b (toFront (· = a) (chain b)) h' t' := by
  obtain ⟨before, after, split⟩ := List.append_of_mem inChain
  have moved : toFront (· = a) (chain b) = a :: (before ++ after) := by
    have distinct := linkage.chainDistinct b
    rw [split] at distinct ⊢
    refine toFront_append (fun c member => decide_eq_false ?_) (decide_eq_true rfl)
    exact fun same => (List.nodup_append.mp distinct).2.2 c member a List.mem_cons_self same
  have first : t.ppEntries b = (chain b).head? := (linkage.chained b).next_none
  cases placed : before.getLast? with
  | none =>
    -- the entry is the first one already
    have isFirst : t.ppEntries b = some a := by
      rw [first, split, List.getLast?_eq_none_iff.mp placed]
      rfl
    refine ⟨h, t, ?_, linkage.rechained_refl ?_⟩
    · rw [moveToFront, if_pos isFirst]
      rfl
    · rw [moved, split, List.getLast?_eq_none_iff.mp placed]
      rfl
  | some x =>
    have linked := linkage.chained b
    have distinct := linkage.chainDistinct b
    rw [split] at linked distinct
    obtain ⟨prev, next⟩ := linked.neighbours
    obtain ⟨lastApart, headApart⟩ := neighbours_apart distinct
    have next' : h.pNext a = after.head? := next
    have live := linkage.live a (.inr ⟨b, inChain⟩)
    have prevLive := linkage.lastLive split x placed
    have behind : chain b = before ++ [a] ++ after := by
      rw [split, List.append_assoc, List.singleton_append]
    have nextLive := linkage.headLive behind
    obtain ⟨y, head⟩ : ∃ y, before.head? = some y := by
      cases before with
      | nil => cases placed
      | cons y rest => exact ⟨y, rfl⟩
    have firstIs : t.ppEntries b = some y := by
      rw [first, split, List.head?_append, head]
      rfl
    have headLive : h.blocks.live y = true :=
      linkage.headLive (List.nil_append (chain b)).symm y (first ▸ firstIs)
    have notFirst : ¬ t.ppEntries b = some a := by
      rw [firstIs]
      intro same
      exact (List.nodup_append.mp distinct).2.2 y (List.mem_of_head? head) a List.mem_cons_self
        (Option.some.inj same)
    rw [placed] at prev lastApart
    obtain ⟨relinked, unchained⟩ := unchain linkage split
    have stray : Stray { h with
        pNext := setAt h.pNext before.getLast? after.head?,
          pPrev := setAt h.pPrev after.head? before.getLast? } _ a :=
      unchained_stray linkage split rfl
    obtain ⟨relinked', pushed⟩ := unchained.pushed stray b
    rw [Function.update_self, Function.update_idem] at pushed
    rw [placed] at relinked relinked' pushed
    rw [moved]
    refine ⟨_, _, ?_, ?_, ?_, ?_, pushed⟩
    · rw [moveToFront, if_neg notFirst]
      simp only [field_bind, setNext_bind, setPrevOf_bind, setPrev_bind, deref_some, pure_bind_run,
        pure_run, live, prev,
        next', prevLive, nextLive, setAt_of_ne lastApart, firstIs, headLive, linkedTo]
    · exact ⟨_, _, _, rfl⟩
    · refine relinked.trans (relinked'.mono ?_)
      rintro c (rfl | member)
      · exact inChain
      · rw [Function.update_self] at member
        rw [split]
        exact List.perm_middle.mem_iff.mpr (List.mem_cons_of_mem _ member)
    · rw [split]
      exact List.perm_middle.symm

/-- `transpose`. -/
theorem transpose_rechains (linkage : Linkage h t nodes chain) (inChain : a ∈ chain b) :
    ∃ h' t', transpose t b a h = .ok (t', h') ∧
      Rechained h t nodes chain b (oneUp (· = a) (chain b)) h' t' := by
  obtain ⟨before, after, split⟩ := List.append_of_mem inChain
  have live := linkage.live a (.inr ⟨b, inChain⟩)
  have linked := linkage.chained b
  have distinct := linkage.chainDistinct b
  rw [split] at linked distinct
  obtain ⟨prev, next⟩ := linked.neighbours
  rcases List.eq_nil_or_concat' before with rfl | ⟨front, x, rfl⟩
  · refine ⟨h, t, ?_, linkage.rechained_refl ?_⟩
    · rw [transpose, field_bind live, prev]
      rfl
    · rw [split]
      exact oneUp_cons (decide_eq_true rfl)
  · have placed : (front ++ [x]).getLast? = some x := List.getLast?_concat ..
    have split' : chain b = front ++ x :: a :: after := by
      rw [split, List.append_assoc, List.singleton_append]
    have linked' := linkage.chained b
    have distinct' := linkage.chainDistinct b
    rw [split'] at linked' distinct'
    obtain ⟨beforeX, -⟩ := linked'.neighbours
    obtain ⟨frontApart, headIsA⟩ := neighbours_apart distinct'
    obtain ⟨lastApart, headApart⟩ := neighbours_apart distinct
    have next' : h.pNext a = after.head? := next
    have xLive := linkage.lastLive split x placed
    have frontLive := linkage.lastLive split'
    have behind : chain b = front ++ [x] ++ [a] ++ after := by
      rw [split, List.append_assoc _ [a], List.singleton_append]
    have nextLive := linkage.headLive behind
    obtain ⟨relinked, unchained⟩ := unchain linkage split
    have stray : Stray { h with
        pNext := setAt h.pNext (front ++ [x]).getLast? after.head?
        pPrev := setAt h.pPrev after.head? (front ++ [x]).getLast? } _ a :=
      unchained_stray linkage split rfl
    have seam : Function.update chain b (front ++ [x] ++ after) b = front ++ x :: after := by
      rw [Function.update_self, List.append_assoc, List.singleton_append]
    obtain ⟨relinked', inserted⟩ := unchained.inserted stray seam
    rw [Function.update_idem] at inserted
    rw [placed] at relinked relinked' inserted prev lastApart
    have frontNot : front.getLast? ≠ some a := by
      intro last
      refine (List.nodup_append.mp distinct').2.2 a (List.mem_of_getLast? last) a ?_ rfl
      exact List.mem_cons_of_mem _ List.mem_cons_self
    have moved : oneUp (· = a) (chain b) = front ++ a :: x :: after := by
      rw [split']
      refine oneUp_append (fun c member => decide_eq_false ?_) (decide_eq_true rfl)
      exact fun same => (List.nodup_append.mp distinct).2.2 c member a List.mem_cons_self same
    rw [moved]
    refine ⟨_, _, ?_, ?_, ?_, ?_, inserted⟩
    · -- the code writes the link before the two entries first
      rw [linkedTo, setAt_comm (Ne.symm frontApart)]
      simp only [transpose, field_bind, prev, live, xLive, beforeX, next', frontLive, nextLive,
        setLink_bind, setPrevOf_bind, setNext_bind, setPrev_bind, pure_run, setAt_of_ne frontNot]
      rfl
    · exact reheaded_linkedTo
    · refine relinked.trans (relinked'.mono ?_)
      rintro c (rfl | member)
      · exact inChain
      · rw [seam] at member
        rw [split']
        refine List.Sublist.mem member ?_
        exact List.Sublist.append_left (.cons_cons x (.cons a (.refl after))) front
    · rw [split']
      exact .append_left front (.swap x a after)

end FsdFilter.ChainEdits
