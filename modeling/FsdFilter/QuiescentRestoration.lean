import FsdFilter.PrematureUnhook

/-! What is left once every hook has been taken back and no call is in progress:
nothing, in the runs that remove no other entry than the tested one. Otherwise a
hook whose entry was removed by somebody else is taken back from the entry of a
later hook, and the counter passes zero unnoticed. -/
namespace FsdFilter.QuiescentRestoration
open VnodeOps HookRegistry HookCalls VectorCounts Interleaving ReaderWriterLock HookThreads
open ThreadSteps ThreadAccounting ThreadProtection VectorTransparency WrappingCounter MatchedCalls
open MatchedRuns PrematureUnhook

variable {T : Type} [Fintype T]

/-- No call is in progress and every hook has been unhooked. -/
def Quiescent (c : Config (Shared × Outstanding) Pc T) : Prop :=
  (∀ t, (c.pc t).resting = true) ∧ c.shared.2 = []

instance (c : Config (Shared × Outstanding) Pc T) : Decidable (Quiescent c) :=
  inferInstanceAs (Decidable (_ ∧ _))

/-- Nothing is registered, no entry is left and every vector is as the file
system built it. -/
structure Restored (vectors : Vectors) (c : Config (Shared × Outstanding) Pc T) : Prop where
  registry : ∀ v, c.shared.1.filter.registry.lookup v = none
  entries : ∀ e, c.shared.1.filter.heap e = none
  vectors : c.shared.1.filter.mem = vectors.original

theorem flying_of_resting {pc : Pc} (rests : pc.resting = true) : flying pc = none := by
  cases pc with
  | idle | done => rfl
  | _ => cases rests

theorem removes_of_resting {pc : Pc} (rests : pc.resting = true) : removes pc = none := by
  cases pc with
  | idle | done => rfl
  | _ => cases rests

theorem changing_of_resting {pc : Pc} (rests : pc.resting = true) : changing pc = none := by
  cases pc with
  | idle | done => rfl
  | _ => cases rests

variable [DecidableEq T]

/-- **Quiescent restoration**, in every balanced run that removes no other entry
than the tested one. -/
theorem quiescent_restored (vectors : Vectors) {c : Config (Shared × Outstanding) Pc T}
    (reached : Reaches (matched vectors.table) keepsTested (matchedStart vectors.original) c)
    (quiescent : Quiescent c) : Restored vectors c := by
  have inv := counted_of_reaches reached
  obtain ⟨rests, unhooked⟩ := quiescent
  have nothing : ∀ v, due c.shared.2 c.pc v = 0 := by
    intro v
    have nobody : tally (inFlight v) c.pc = 0 := tally_eq_zero fun t => by
      rw [inFlight, flying_of_resting (rests t)]
      rfl
    rw [due, unhooked, nobody]
    rfl
  have unregistered : ∀ v, c.shared.1.filter.registry.lookup v = none := by
    intro v
    by_contra registered
    -- an entry that counts nothing would be somebody's to remove
    obtain ⟨e, found⟩ := Option.ne_none_iff_exists'.mp registered
    obtain ⟨t, has⟩ := inv.pending v e found (nothing v)
    rw [removes_of_resting (rests t)] at has
    cases has
  refine ⟨unregistered, fun e => ?_, funext fun v => ?_⟩
  · by_contra left
    obtain ⟨entry, live⟩ := Option.ne_none_iff_exists'.mp left
    have nobody : tally (holds e) c.pc = 0 := tally_eq_zero fun t => by
      rw [holds, resting_held (rests t)]
      rfl
    have balanced := inv.transparent.safe.balanced e
    have positive := inv.transparent.safe.alive live
    rw [refCount_of_live live, nobody, Nat.zero_add] at balanced
    obtain ⟨v, found⟩ := registryRefs_pos.mp (balanced ▸ positive)
    rw [unregistered v] at found
    cases found
  · have idle : ∀ t, changing (c.pc t) ≠ some v := by
      intro t
      rw [changing_of_resting (rests t)]
      exact (Option.some_ne_none v).symm
    exact (inv.transparent.settled v idle).unregistered (unregistered v)

/-! ### Replayed runs -/

/-- A hook, taken back before anything else happens. -/
def hookedOnce : List (Fin 2 × Act) := hooksFirst thread0 ++ countsDown thread0 ++ removesEntry thread0

theorem quiescent_restored_hooked_once :
    ∃ c : Config (Shared × Outstanding) Pc (Fin 2),
      Reaches (matched oneFileSystem.table) keepsTested (matchedStart oneFileSystem.original) c ∧
      c.pc 0 = .done (.unhooked sharedVnode) ∧ Restored oneFileSystem c := by
  obtain ⟨c, reached, ends⟩ := exists_reached_of_replay (matched oneFileSystem.table) keepsTested
    (matchedStart oneFileSystem.original) hookedOnce
    (fun c => c.pc 0 = .done (.unhooked sharedVnode) ∧ Quiescent c) (by decide +kernel)
  obtain ⟨finished, quiescent⟩ := of_decide_eq_true ends
  exact ⟨c, reached, finished, quiescent_restored oneFileSystem reached quiescent⟩

/-- The second thread goes on to remove the other one's new entry. It hooks the
vector once more, and both hooks are taken back from that third entry: one thread
counts it to zero, the other one below, and neither removes it. -/
def leavesEntry : List (Fin 2 × Act) :=
  removesAnother ++ takes thread1 (List.replicate 16 .run) ++ hooksFirst thread1 ++
    takes thread0 [.call (.unhook sharedVnode), .run] ++ takes thread1
    [.call (.unhook sharedVnode), .run] ++
    takes thread0 [.run] ++ takes thread1 [.run, .run] ++ takes thread0 (List.replicate 4 .run)

/-- What is reached: everything has been unhooked, and the entry shows -1. -/
theorem quiescent_with_entry :
    ∃ c : Config (Shared × Outstanding) Pc (Fin 2),
      Reaches (matched oneFileSystem.table) anyStep (matchedStart oneFileSystem.original) c ∧
      Quiescent c ∧ c.shared.1.filter.registry.lookup 64 = some 0 ∧
      (c.shared.1.filter.heap 0).map (·.vNodeCounter) = some (-1) := by
  obtain ⟨c, reached, ends⟩ := exists_reached_of_replay (matched oneFileSystem.table) anyStep
    (matchedStart oneFileSystem.original) leavesEntry
    (fun c => Quiescent c ∧ c.shared.1.filter.registry.lookup 64 = some 0 ∧
      (c.shared.1.filter.heap 0).map (·.vNodeCounter) = some (-1)) (by decide +kernel)
  exact ⟨c, reached, of_decide_eq_true ends⟩

/-- Without the condition an entry stays registered. -/
theorem negative_entry_left :
    ¬ ∀ c : Config (Shared × Outstanding) Pc (Fin 2),
      Reaches (matched oneFileSystem.table) anyStep (matchedStart oneFileSystem.original) c →
        Quiescent c → Restored oneFileSystem c := by
  intro always
  obtain ⟨c, reached, quiescent, found, _⟩ := quiescent_with_entry
  have missing := (always c reached quiescent).registry 64
  rw [found] at missing
  cases missing

end FsdFilter.QuiescentRestoration
