import FsdFilter.MatchedRuns

/-! An unhook tests the counter of the entry it looked up, and then removes
whatever entry the registry has for the vector by then. In runs where these are
the same entry no vector is unhooked that still has to be filtered; a run of two
threads where they are not is replayed. -/
namespace FsdFilter.PrematureUnhook
open VnodeOps HookRegistry HookCalls VectorCounts Interleaving ReaderWriterLock HookThreads
open ThreadSteps ThreadAccounting ThreadProtection VectorTransparency WrappingCounter MatchedCalls
open MatchedRuns

variable {T : Type} [Fintype T]

/-- No premature unhook: an admitted step removes only an entry that counts
nothing and whose vector has no outstanding hook, a vector is restored only then,
and a vector with an outstanding hook is registered and has all its hooks. -/
structure NoPrematureUnhook (vectors : Vectors) (ok : Guard (Shared × Outstanding) Pc T Act)
    (c : Config (Shared × Outstanding) Pc T) : Prop where
  removals : ∀ t x e removed, c.pc t = .unhookRemove x e → ok c t .run →
    c.shared.1.filter.registry.lookup x.vOp = some removed →
    (∃ entry, c.shared.1.filter.heap removed = some entry ∧ entry.vNodeCounter = 0) ∧
      c.shared.2.count x.vOp = 0
  restorations : ∀ t x removed rest, c.pc t = .unhookSlots x removed rest → c.shared.2.count x.vOp = 0
  hooked : ∀ v, 0 < c.shared.2.count v →
    (∃ e, c.shared.1.filter.registry.lookup v = some e) ∧
      ∀ patch ∈ vectors.patches, c.shared.1.filter.mem v patch.addr = patch.value

variable [DecidableEq T]

/-- **No premature unhook**, in every matched run that removes no other entry
than the tested one. -/
theorem no_premature_unhook (vectors : Vectors) {c : Config (Shared × Outstanding) Pc T}
    (reached : Reaches (matched vectors.table) keepsTested (matchedStart vectors.original) c) :
    NoPrematureUnhook vectors keepsTested c := by
  have inv := counted_of_reaches reached
  refine ⟨?_, fun t x removed rest restores => inv.restoring_last restores, ?_⟩
  · intro t x e removed atRemove admitted found
    have tested : ∀ x e, c.pc t = .unhookRemove x e →
        c.shared.1.filter.registry.lookup x.vOp = none ∨ c.shared.1.filter.registry.lookup x.vOp =
        some e := by
      intro x e here
      simpa [removesTested, here] using admitted.1
    obtain ⟨_, nothing⟩ := inv.removal tested atRemove found
    obtain ⟨entry, live⟩ := inv.transparent.safe.registered_live found
    have counter := inv.counted x.vOp removed entry found live
    rw [nothing] at counter
    have below : c.shared.2.count x.vOp ≤ due c.shared.2 c.pc x.vOp := outstanding_le_due
    exact ⟨⟨entry, live, counter⟩, by omega⟩
  · intro v positive
    obtain ⟨registered, untouched⟩ := inv.outstanding_settled positive
    obtain ⟨e, found⟩ := Option.ne_none_iff_exists'.mp registered
    refine ⟨⟨e, found⟩, fun patch member => ?_⟩
    rw [((inv.transparent.settled v untouched).registered e found).1]
    exact vectors.hookedSlots_at member v

/-! ### Replayed runs -/

/-- File systems whose functions all lie at one address. -/
def oneFileSystem : Vectors := .ofFileSystems .consecutive fun _ _ => 1

/-- The vnode that all calls are about. -/
def sharedVnode : Vnode := ⟨64, .vreg, false⟩

/-- A thread hooks a vector that is not registered. -/
def hooksFirst (t : Fin 2) : List (Fin 2 × Act) :=
  takes t ([.call (.hook sharedVnode), .run, .allocate (.within 4), .run, .run, .insert true] ++
    List.replicate 16 .run)

/-- A thread hooks a vector that is registered. -/
def hooksAgain (t : Fin 2) : List (Fin 2 × Act) :=
  takes t (.call (.hook sharedVnode) :: List.replicate 4 .run)

/-- A thread begins to unhook and counts the entry down to zero. -/
def countsDown (t : Fin 2) : List (Fin 2 × Act) :=
  takes t (.call (.unhook sharedVnode) :: List.replicate 2 .run)

/-- From there on it takes the lock, tests the entry and removes what it finds. -/
def removesEntry (t : Fin 2) : List (Fin 2 × Act) := takes t (List.replicate 18 .run)

/-- Both threads hook and unhook a vector, and the second one hooks it again. -/
def hookedTwice : List (Fin 2 × Act) :=
  hooksFirst thread0 ++ hooksAgain thread1 ++ countsDown thread1 ++ takes thread1 [.run] ++
    countsDown thread0 ++ removesEntry thread0 ++ hooksFirst thread1

theorem no_premature_unhook_hooked_twice :
    ∃ c : Config (Shared × Outstanding) Pc (Fin 2),
      Reaches (matched oneFileSystem.table) keepsTested (matchedStart oneFileSystem.original) c ∧
      c.shared.2 = [64] ∧ NoPrematureUnhook oneFileSystem keepsTested c := by
  obtain ⟨c, reached, ends⟩ := exists_reached_of_replay (matched oneFileSystem.table) keepsTested
    (matchedStart oneFileSystem.original) hookedTwice (fun c => c.shared.2 = [64]) (by decide +kernel)
  exact ⟨c, reached, of_decide_eq_true ends, no_premature_unhook oneFileSystem reached⟩

/-- Both threads hook and count the same entry down to zero. The first one removes
it and hooks the vector again, with a new entry; the second one then finds its
own entry still at zero. -/
def removesAnother : List (Fin 2 × Act) :=
  hooksFirst thread0 ++ countsDown thread0 ++ hooksAgain thread1 ++ countsDown thread1 ++
    removesEntry thread0 ++ hooksFirst thread0 ++ takes thread1 [.run, .run]

/-- What is reached: the entry about to be removed counts the outstanding hook. -/
theorem new_entry_removed :
    ∃ c : Config (Shared × Outstanding) Pc (Fin 2),
      Reaches (matched oneFileSystem.table) anyStep (matchedStart oneFileSystem.original) c ∧
      c.pc 1 = .unhookRemove sharedVnode 0 ∧ c.shared.1.filter.registry.lookup 64 = some 1 ∧
      (c.shared.1.filter.heap 1).map (·.vNodeCounter) = some 1 ∧ c.shared.2 = [64] := by
  obtain ⟨c, reached, ends⟩ := exists_reached_of_replay (matched oneFileSystem.table) anyStep
    (matchedStart oneFileSystem.original) removesAnother
    (fun c => c.pc 1 = .unhookRemove sharedVnode 0 ∧ c.shared.1.filter.registry.lookup 64 = some 1 ∧
      (c.shared.1.filter.heap 1).map (·.vNodeCounter) = some 1 ∧ c.shared.2 = [64]) (by decide +kernel)
  exact ⟨c, reached, of_decide_eq_true ends⟩

/-- Without the condition a counted entry is removed. -/
theorem counted_entry_removed :
    ¬ ∀ c : Config (Shared × Outstanding) Pc (Fin 2),
      Reaches (matched oneFileSystem.table) anyStep (matchedStart oneFileSystem.original) c →
        NoPrematureUnhook oneFileSystem anyStep c := by
  intro always
  obtain ⟨c, reached, atRemove, found, counter, _⟩ := new_entry_removed
  obtain ⟨⟨entry, live, zero⟩, _⟩ :=
    (always c reached).removals 1 sharedVnode 0 1 atRemove trivial found
  rw [live, Option.map_some, zero] at counter
  cases counter

end FsdFilter.PrematureUnhook
