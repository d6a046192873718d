import FsdFilter.GateEvents

/-! Whether the vector of a known vnode stays hooked. Vnodes are counted when
they are authorized and taken back when they are reclaimed, known or not: a
vector whose counter one reclaim takes to zero is released although another known
vnode still needs it. Exactly the reclaims that do not do this keep all known
vnodes filtered. -/
namespace FsdFilter.KnownVnodes
open VnodeOps HookRegistry HookCalls VectorCounts VfsHooks Interleaving WrappingCounter GateEvents

variable {I : Type} [DecidableEq I] {fs : FileSystems I} {g g' : GateState I} {event : Event I}
  {counts counts' : Counts} {known known' : Finset I}

/-! ### What taking back leaves registered -/

/-- A counter that is taken back from once is passed by none of the values up to
the number of times, or the vector is released. -/
theorem uncounted_isSome (fs : FileSystems I) (g : GateState I) (counts : Counts) (vnodes : List I)
    (v : VopVector) :
    (uncounted fs g counts vnodes v).isSome ↔
      (counts v).isSome ∧ ∀ j < takenBack fs g vnodes v, counts v ≠ some (count (j + 1)) := by
  induction vnodes generalizing counts with
  | nil => simp [uncounted, takenBack]
  | cons i vnodes ih =>
    have next : uncounted fs g counts (i :: vnodes) =
        uncounted fs g (counts.unhook (fs.vnode g i)) vnodes := rfl
    have same : (fs.vnode g i).vOp = fs.vOp i := rfl
    rw [next, ih, unhook_at, same, takenBack, takenBack, List.countP_cons]
    split_ifs with here
    · cases found : counts v with
      | none => simp
      | some c =>
        -- the first round is the one that can find the counter at one
        rw [Nat.forall_lt_succ_left]
        by_cases last : c = 1
        · subst last
          simp [count]
        · have first : c ≠ count 0 + 1 := last
          simp [last, first, count_succ, pred_eq_iff]
    · simp

/-! ### One event -/

/-- Counting registers what it makes known and releases nothing. -/
theorem counted_registers {l : List I} (counted : Counted fs counts known l counts' known')
    (registered : ∀ i ∈ known, (counts (fs.vOp i)).isSome) :
    ∀ i ∈ known', (counts' (fs.vOp i)).isSome := by
  induction counted with
  | nil => exact registered
  | refused _ _ ih => exact ih registered
  | @again counts _ known _ j _ c _ _ ih | @first counts _ known _ j _ _ _ ih =>
    refine ih fun i member => ?_
    by_cases here : fs.vOp i = fs.vOp j
    · simp [here]
    · rw [Function.update_of_ne here]
      rcases Finset.mem_insert.mp member with rfl | member
      · exact absurd rfl here
      · exact registered i member

/-- Every known vnode's vector is registered. -/
def KnownRegistered (fs : FileSystems I) (g : GateState I) : Prop :=
  ∀ i ∈ g.known, (countsOf g.filter (fs.vOp i)).isSome

/-- A reclaim that enters the hook takes no counter to zero that stands for
another known vnode: when it takes a vector back `k` times, the counter is none of
`1` to `k`. -/
def sparesKnown (fs : FileSystems I) (g : GateState I) : Event I → Bool
  | .reclaim vnode parent =>
    !(countsOf g.filter (fs.vOp vnode)).isSome || decide (∀ i ∈ g.known, i ≠ vnode →
      ∀ j < takenBack fs g (vnode :: parent.toList) (fs.vOp i),
        countsOf g.filter (fs.vOp i) ≠ some (count (j + 1)))
  | _ => true

/-- From a state where all known vnodes are registered, an event keeps them
registered exactly if it spares them. -/
theorem happened_known_iff (happened : Happened fs g event g') (registered : KnownRegistered fs g) :
    KnownRegistered fs g' ↔ sparesKnown fs g event = true := by
  cases happened with
  | authorized legal counted => exact iff_of_true (counted_registers counted registered) rfl
  | recycled => exact iff_of_true registered rfl
  | @reclaimed vnode parent filter legal taken =>
    unfold KnownRegistered
    simp only [taken, sparesKnown, Bool.or_eq_true, Bool.not_eq_true', decide_eq_true_eq,
      Finset.mem_erase]
    cases hooked : (countsOf g.filter (fs.vOp vnode)).isSome with
    | false => simpa using fun i _ member => registered i member
    | true =>
      simp only [↓reduceIte, uncounted_isSome, Bool.true_eq_false, false_or]
      exact ⟨fun all i member other => (all i ⟨other, member⟩).2,
        fun spared i member => ⟨registered i member.2, spared i member.2 member.1⟩⟩

/-! ### Runs of events -/

/-- Every known vnode is filtered: its vector is registered and hooked. -/
def KnownFiltered (fs : FileSystems I) (g : GateState I) : Prop :=
  ∀ i ∈ g.known, (∃ e, g.filter.registry.lookup (fs.vOp i) = some e) ∧
    ∀ patch ∈ fs.vectors.patches, g.filter.mem (fs.vOp i) patch.addr = patch.value

omit [DecidableEq I] in
theorem knownFiltered_iff (wf : WellFormed fs.vectors g.filter) :
    KnownFiltered fs g ↔ KnownRegistered fs g := by
  refine forall₂_congr fun i _ => ?_
  rw [wf.countsOf_isSome, Option.isSome_iff_exists]
  refine ⟨fun both => both.1, fun ⟨e, found⟩ => ⟨⟨e, found⟩, fun patch member => ?_⟩⟩
  rw [wf.hooked found]
  exact fs.vectors.hookedSlots_at member _

/-- The events that spare the known vnodes. -/
def sparing (fs : FileSystems I) : Guard (GateState I) Unit Unit (Event I) := fun c _ event =>
  sparesKnown fs c.shared event = true

instance (c : Config (GateState I) Unit Unit) (t : Unit) (event : Event I) :
    Decidable (sparing fs c t event) :=
  inferInstanceAs (Decidable (_ = true))

/-- **Known vnodes stay filtered**, as long as every reclaim spares them, and the
first one that does not leaves one unfiltered. -/
theorem known_filtered (fs : FileSystems I) {c : Config (GateState I) Unit Unit}
    (reached : Reaches (gate fs) (sparing fs) (gateStart fs) c) :
    KnownFiltered fs c.shared ∧ ∀ event c', (gate fs).advance c () event = .next c' →
      (KnownFiltered fs c'.shared ↔ sparing fs c () event) := by
  have kept : WellFormed fs.vectors c.shared.filter ∧ KnownRegistered fs c.shared := by
    refine reached.invariant (fun c => WellFormed fs.vectors c.shared.filter ∧ KnownRegistered fs c.shared)
      ⟨wellFormed_initial fs.vectors, by simp [KnownRegistered, gateStart]⟩ ?_
    rintro c ⟨⟩ event c' ⟨wf, registered⟩ spares moved
    obtain ⟨wf', happened⟩ := gate_happened wf moved
    exact ⟨wf', (happened_known_iff happened registered).mpr spares⟩
  obtain ⟨wf, registered⟩ := kept
  refine ⟨(knownFiltered_iff wf).mpr registered, fun event c' moved => ?_⟩
  obtain ⟨wf', happened⟩ := gate_happened wf moved
  rw [knownFiltered_iff wf']
  exact happened_known_iff happened registered

/-! ### Replayed runs -/

/-- Regular files of one file system. -/
def regularFiles : FileSystems ℕ := ⟨.consecutive, fun _ _ => 1, fun _ => 64, fun _ => .vreg⟩

/-- An authorization that finds memory. -/
def authorizes (vnode : ℕ) : Unit × Event ℕ :=
  ((), .authorize vnode none ⟨.within 4, true⟩ ⟨.within 4, true⟩)

theorem known_filtered_two_files :
    ∃ c, Reaches (gate regularFiles) (sparing regularFiles) (gateStart regularFiles) c ∧
      c.shared.known = {1} ∧ KnownFiltered regularFiles c.shared := by
  obtain ⟨c, reached, ends⟩ := exists_reached_of_replay (gate regularFiles) (sparing regularFiles)
    (gateStart regularFiles) [authorizes 0, authorizes 1, ((), .reclaim 0 none)]
    (fun c => c.shared.known = {1}) (by decide +kernel)
  exact ⟨c, reached, of_decide_eq_true ends, (known_filtered regularFiles reached).1⟩

/-- Without the condition: a file is authorized, and another one of the file
system that never was is reclaimed. -/
theorem known_file_not_filtered :
    ¬ ∀ c, Reaches (gate regularFiles) anyStep (gateStart regularFiles) c →
      KnownFiltered regularFiles c.shared := by
  intro always
  obtain ⟨c, reached, ends⟩ := exists_reached_of_replay (gate regularFiles) anyStep
    (gateStart regularFiles) [authorizes 0, ((), .reclaim 1 none)]
    (fun c => 0 ∈ c.shared.known ∧ c.shared.filter.registry.lookup 64 = none) (by decide +kernel)
  obtain ⟨member, absent⟩ := of_decide_eq_true ends
  obtain ⟨⟨e, found⟩, _⟩ := always c reached 0 member
  have same : regularFiles.vOp 0 = 64 := rfl
  rw [same, absent] at found
  cases found

end FsdFilter.KnownVnodes
