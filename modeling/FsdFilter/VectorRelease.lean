import FsdFilter.KnownVnodes

/-! Whether a vector is released when its last known vnode goes. Every
authorization counts its vnode and its parent again, a reclaim takes each back
once: the counter stays within the number of known vnodes as long as no vnode is
counted again before its vector was released. -/
namespace FsdFilter.VectorRelease
open VnodeOps HookRegistry HookCalls VectorCounts VfsHooks Interleaving WrappingCounter GateEvents
open KnownVnodes

variable {I : Type} [DecidableEq I] {fs : FileSystems I} {g g' : GateState I} {event : Event I}
  {counts counts' : Counts} {known known' : Finset I} {v : VopVector} {c c' : Int32}

/-- The number of vnodes of a vector among some. -/
def cardOn (fs : FileSystems I) (vnodes : Finset I) (v : VopVector) : ℕ :=
  (vnodes.filter (fs.vOp · = v)).card

/-- How often a vector occurs among some vnodes. -/
def timesOn (fs : FileSystems I) (vnodes : List I) (v : VopVector) : ℕ := vnodes.countP (fs.vOp · = v)

/-- A counter is positive and shows no more vnodes than are known. -/
def Within (fs : FileSystems I) (counts : Counts) (known : Finset I) : Prop :=
  ∀ v c, counts v = some c → 0 < c.toInt ∧ c.toInt ≤ cardOn fs known v

/-- A counter has room for some more vnodes. -/
structure Room (fs : FileSystems I) (known : Finset I) (vnodes : List I) (v : VopVector)
    (c : Int32) : Prop where
  known : c.toInt + timesOn fs vnodes v ≤ cardOn fs (known ∪ vnodes.toFinset) v
  fits : c.toInt + timesOn fs vnodes v < 2 ^ 31

omit [DecidableEq I] in
theorem timesOn_cons (fs : FileSystems I) (i : I) (l : List I) (v : VopVector) :
    timesOn fs (i :: l) v = timesOn fs l v + if fs.vOp i = v then 1 else 0 := by
  simp [timesOn, List.countP_cons]

theorem union_cons (known : Finset I) (i : I) (l : List I) :
    known ∪ (i :: l).toFinset = insert i known ∪ l.toFinset := by
  rw [List.toFinset_cons, Finset.union_insert, Finset.insert_union]

/-- Different vnodes occur as often as there are of them. -/
theorem cardOn_toFinset (fs : FileSystems I) {l : List I} (nodup : l.Nodup) (v : VopVector) :
    cardOn fs l.toFinset v = timesOn fs l v := by
  have same : l.toFinset.filter (fs.vOp · = v) = (l.filter (fs.vOp · = v)).toFinset := by
    ext i
    simp
  rw [cardOn, same, List.toFinset_card_of_nodup (nodup.filter _), timesOn,
    List.countP_eq_length_filter]

/-- Different vnodes of a vector are at least as many as they occur. -/
theorem timesOn_le_cardOn (fs : FileSystems I) {l : List I} (nodup : l.Nodup) (known : Finset I)
    (v : VopVector) : timesOn fs l v ≤ cardOn fs (known ∪ l.toFinset) v := by
  rw [← cardOn_toFinset fs nodup]
  exact Finset.card_le_card (Finset.filter_subset_filter _ Finset.subset_union_right)

/-- New vnodes of a vector add to the known ones. -/
theorem cardOn_union (fs : FileSystems I) {l : List I} (nodup : l.Nodup)
    (new : ∀ i ∈ l, fs.vOp i = v → i ∉ known) :
    cardOn fs (known ∪ l.toFinset) v = cardOn fs known v + timesOn fs l v := by
  rw [← cardOn_toFinset fs nodup, cardOn, Finset.filter_union]
  refine Finset.card_union_of_disjoint (Finset.disjoint_left.mpr fun i old fresh => ?_)
  rw [Finset.mem_filter] at old fresh
  exact new i (List.mem_toFinset.mp fresh.1) fresh.2 old.1

/-- A counter within the known vnodes has room for new ones. -/
theorem room_of_new {l : List I} (nodup : l.Nodup) (within : c.toInt ≤ cardOn fs known v)
    (new : ∀ i ∈ l, fs.vOp i = v → i ∉ known) (few : cardOn fs (known ∪ l.toFinset) v < 2 ^ 31) :
    Room fs known l v c := by
  rw [cardOn_union fs nodup new] at few
  constructor
  · rw [cardOn_union fs nodup new]
    omega
  · omega

/-- The room for the vnodes that come after one of another vector. -/
theorem Room.later {i : I} {l : List I} (room : Room fs known (i :: l) v c) (other : fs.vOp i ≠ v) :
    Room fs (insert i known) l v c := by
  obtain ⟨within, fits⟩ := room
  rw [timesOn_cons, if_neg other] at within fits
  rw [union_cons] at within
  exact ⟨within, fits⟩

/-! ### Counting -/

/-- What is true of the counter that is set, and was true of the others. -/
theorem updated_some {holds : VopVector → Int32 → Prop} {counts : Counts} {v : VopVector}
    {c : Int32} (here : holds v c) (others : ∀ w d, w ≠ v → counts w = some d → holds w d) :
    ∀ w d, Function.update counts v (some c) w = some d → holds w d := by
  intro w d found
  by_cases same : w = v
  · subst same
    rw [Function.update_self] at found
    cases found
    exact here
  · rw [Function.update_of_ne same] at found
    exact others w d same found

/-- Counting leaves every counter within the known vnodes, if there is room. -/
theorem counted_within {l : List I} (counted : Counted fs counts known l counts' known')
    (nodup : l.Nodup) (short : l.length < 2 ^ 31) (positive : ∀ v c, counts v = some c → 0 < c.toInt)
    (room : ∀ v c, counts v = some c → Room fs known l v c) : Within fs counts' known' := by
  induction counted with
  | nil =>
    intro v c found
    exact ⟨positive v c found, by simpa [timesOn] using (room v c found).known⟩
  | @again counts _ known _ i l c found _ ih =>
    have here := room (fs.vOp i) c found
    have grown : (c + 1).toInt = c.toInt + 1 := by
      have fits := here.fits
      rw [timesOn_cons, if_pos rfl] at fits
      exact toInt_succ (by omega)
    apply ih (List.nodup_cons.mp nodup).2 (by simp at short; omega)
    · refine updated_some ?_ fun v d _ holds => positive v d holds
      have before := positive _ c found
      omega
    · refine updated_some ?_ fun v d other holds => (room v d holds).later (Ne.symm other)
      have fits := here.fits
      have known := here.known
      rw [timesOn_cons, if_pos rfl] at fits known
      rw [union_cons] at known
      exact ⟨by omega, by omega⟩
  | @first counts _ known _ i l absent _ ih =>
    have rest := (List.nodup_cons.mp nodup).2
    apply ih rest (by simp at short; omega)
    · exact updated_some (by decide) fun v d _ holds => positive v d holds
    · refine updated_some ?_ fun v d other holds => (room v d holds).later (Ne.symm other)
      have one : (1 : Int32).toInt = 1 := rfl
      have different := timesOn_le_cardOn fs nodup known (fs.vOp i)
      rw [timesOn_cons, if_pos rfl, union_cons] at different
      have few : timesOn fs l (fs.vOp i) ≤ l.length := List.countP_le_length
      rw [List.length_cons] at short
      exact ⟨by omega, by omega⟩
  | @refused counts _ known _ i l absent _ ih =>
    refine ih (List.nodup_cons.mp nodup).2 (by simp at short; omega) positive fun v d holds => ?_
    have other : fs.vOp i ≠ v := by
      rintro rfl
      rw [absent] at holds
      cases holds
    obtain ⟨within, fits⟩ := (room v d holds).later other
    rw [cardOn, Finset.insert_union, Finset.filter_insert, if_neg other] at within
    exact ⟨within, fits⟩

/-- Only the vnodes counted become known. -/
theorem counted_known {l : List I} (counted : Counted fs counts known l counts' known') :
    ∀ i ∈ known', i ∈ known ∨ i ∈ l := by
  induction counted with
  | nil => exact fun i member => .inl member
  | again _ _ ih | first _ _ ih =>
    intro i member
    rcases ih i member with before | later
    · rcases Finset.mem_insert.mp before with rfl | before
      · exact .inr List.mem_cons_self
      · exact .inl before
    · exact .inr (List.mem_cons_of_mem _ later)
  | refused _ _ ih =>
    intro i member
    exact (ih i member).imp_right (List.mem_cons_of_mem _)

/-! ### Taking back -/

/-- A positive counter that survives has lost one for each vnode taken back. -/
theorem uncounted_some {l : List I} (left : uncounted fs g counts l v = some c') :
    ∃ c, counts v = some c ∧
      (0 < c.toInt → 0 < c'.toInt ∧ c'.toInt + takenBack fs g l v = c.toInt) := by
  induction l generalizing counts with
  | nil => exact ⟨c', left, fun positive => ⟨positive, by simp [takenBack]⟩⟩
  | cons i l ih =>
    have next : uncounted fs g (counts.unhook (fs.vnode g i)) l v = some c' := left
    obtain ⟨d, found, shown⟩ := ih next
    rw [unhook_at] at found
    have same : (fs.vnode g i).vOp = fs.vOp i := rfl
    rw [takenBack, List.countP_cons, ← same]
    split_ifs at found with here
    · obtain ⟨c, counted, rest⟩ := Option.bind_eq_some_iff.mp found
      split_ifs at rest with last
      cases rest
      refine ⟨c, counted, fun positive => ?_⟩
      have apart : c.toInt ≠ 1 := fun one => last (Int32.toInt_inj.mp one)
      have less := toInt_pred positive
      obtain ⟨positive', total⟩ := shown (by omega)
      refine ⟨positive', ?_⟩
      rw [if_pos here]
      unfold takenBack at total
      omega
    · refine ⟨d, found, fun positive => ?_⟩
      rw [if_neg here]
      exact shown positive

/-! ### Runs of events -/

/-- An authorization counts a vnode of a registered vector only if it does not know the
vnode yet, and leaves fewer than 2^31 vnodes of the vector known. -/
def countsOnce (fs : FileSystems I) (g : GateState I) : Event I → Bool
  | .authorize vnode parent _ _ =>
    (authorized fs g vnode parent).all fun i => (countsOf g.filter (fs.vOp i)).isNone ||
      (i ∉ g.known ∧ cardOn fs (g.known ∪ (authorized fs g vnode parent).toFinset) (fs.vOp i) < 2 ^ 31)
  | _ => true

/-- What counting once says of the vnodes of a registered vector. -/
theorem new_of_countsOnce {vnode i : I} {parent : Option I} {supply parentSupply : Supply}
    (once : countsOnce fs g (.authorize vnode parent supply parentSupply) = true)
    (member : i ∈ authorized fs g vnode parent) (registered : countsOf g.filter (fs.vOp i) = some c) :
    i ∉ g.known ∧
      cardOn fs (g.known ∪ (authorized fs g vnode parent).toFinset) (fs.vOp i) < 2 ^ 31 := by
  have admitted := List.all_eq_true.mp once i member
  rw [registered] at admitted
  simpa using admitted

/-- The vnodes that are counted are taken back when they are reclaimed. -/
def isEligible (fs : FileSystems I) (i : I) : Bool := isUnhookable ⟨fs.vOp i, fs.vType i, false⟩

/-- What holds between the events of a run that counts once. -/
structure Bounded (fs : FileSystems I) (g : GateState I) : Prop where
  wellFormed : WellFormed fs.vectors g.filter
  within : Within fs (countsOf g.filter) g.known
  eligible : ∀ i ∈ g.known, isEligible fs i = true

theorem authorized_eligible {vnode i : I} {parent : Option I}
    (member : i ∈ authorized fs g vnode parent) :
    isEligible fs i = true := by
  unfold authorized at member
  split_ifs at member
  · cases member
  · have hookable := (List.mem_filter.mp member).2
    simp only [isHookable, Bool.and_eq_true] at hookable
    simp only [isEligible, isUnhookable, Bool.and_eq_true]
    exact ⟨hookable.2, hookable.1.1⟩

theorem authorized_nodup {vnode : I} {parent : Option I} (legal : isLegal g vnode parent = true) :
    (authorized fs g vnode parent).Nodup := by
  unfold authorized
  split_ifs
  · exact List.nodup_nil
  · refine List.Nodup.filter _ ?_
    cases parent with
    | none => exact List.nodup_singleton vnode
    | some parent =>
      simp only [isLegal, Option.mem_def, Option.some.injEq, forall_eq', decide_eq_true_eq] at legal
      simpa using Ne.symm legal.2.2

theorem authorized_length (fs : FileSystems I) (g : GateState I) (vnode : I) (parent : Option I) :
    (authorized fs g vnode parent).length ≤ 2 := by
  unfold authorized
  split_ifs
  · exact Nat.zero_le 2
  · apply (List.length_filter_le ..).trans
    cases parent <;> simp

/-- A reclaimed vnode leaves one less on its own vector, if it was known. -/
theorem cardOn_erase (fs : FileSystems I) (known : Finset I) (i : I) (v : VopVector) :
    cardOn fs known v ≤ cardOn fs (known.erase i) v + if i ∈ known ∧ fs.vOp i = v then 1 else 0 := by
  unfold cardOn
  rw [Finset.filter_erase]
  split_ifs with here
  · have less := Finset.pred_card_le_card_erase (s := known.filter (fs.vOp · = v)) (a := i)
    omega
  · rw [Finset.erase_eq_of_notMem (by simpa using here)]
    omega

/-- **The step.** An event that counts once keeps every counter within the known
vnodes. -/
theorem Bounded.happened (bounded : Bounded fs g) (wf' : WellFormed fs.vectors g'.filter)
    (happened : Happened fs g event g') (once : countsOnce fs g event = true) : Bounded fs g' := by
  cases happened with
  | @authorized vnode parent _ _ filter known legal counted =>
    refine ⟨wf', ?_, ?_⟩
    · have length := authorized_length fs g vnode parent
      refine counted_within counted (authorized_nodup legal) (by omega)
        (fun v c found => (bounded.within v c found).1)
        fun v c found => ?_
      by_cases touched : ∃ i ∈ authorized fs g vnode parent, fs.vOp i = v
      · obtain ⟨i, member, rfl⟩ := touched
        refine room_of_new (authorized_nodup legal) (bounded.within _ c found).2
          (fun j inside same => ?_)
          (new_of_countsOnce once member found).2
        exact (new_of_countsOnce once inside (same.symm ▸ found)).1
      · -- nothing of this vector is counted
        push Not at touched
        have none : timesOn fs (authorized fs g vnode parent) v = 0 := by
          rw [timesOn, List.countP_eq_zero]
          simpa using touched
        have more : cardOn fs g.known v ≤ cardOn fs (g.known ∪ (authorized fs g vnode parent).toFinset) v :=
          Finset.card_le_card (Finset.filter_subset_filter _ Finset.subset_union_left)
        have within := (bounded.within v c found).2
        have fits := c.toInt_lt
        exact ⟨by omega, by omega⟩
    · intro i member
      rcases counted_known counted i member with before | now
      · exact bounded.eligible i before
      · exact authorized_eligible now
  | recycled => exact ⟨wf', bounded.within, bounded.eligible⟩
  | @reclaimed vnode parent filter legal taken =>
    refine ⟨wf', ?_, fun i member => bounded.eligible i (Finset.mem_of_mem_erase member)⟩
    intro v c' found
    change 0 < c'.toInt ∧ c'.toInt ≤ cardOn fs (g.known.erase vnode) v
    have erased := cardOn_erase fs g.known vnode v
    simp only [taken] at found
    split_ifs at found with hooked
    · obtain ⟨c, counted, shown⟩ := uncounted_some found
      obtain ⟨positive, within⟩ := bounded.within v c counted
      obtain ⟨positive', total⟩ := shown positive
      refine ⟨positive', ?_⟩
      split_ifs at erased with here
      · -- the vnode's own vector is taken back from at least once
        have own : (isUnhookable (fs.vnode g vnode) && fs.vOp vnode == v) = true := by
          rw [Bool.and_eq_true, beq_iff_eq]
          exact ⟨bounded.eligible vnode here.1, here.2⟩
        have once : 0 < takenBack fs g (vnode :: parent.toList) v :=
          List.countP_pos_iff.mpr ⟨vnode, List.mem_cons_self, own⟩
        omega
      · omega
    · obtain ⟨positive, within⟩ := bounded.within v c' found
      have other : ¬ (vnode ∈ g.known ∧ fs.vOp vnode = v) := by
        rintro ⟨_, rfl⟩
        rw [found] at hooked
        exact hooked rfl
      rw [if_neg other] at erased
      exact ⟨positive, by omega⟩

/-- Every vector without a known vnode is released, and no counter shows more
vnodes than are known. -/
structure Released (fs : FileSystems I) (g : GateState I) : Prop where
  released : ∀ v, (∀ i ∈ g.known, fs.vOp i ≠ v) →
    g.filter.registry.lookup v = none ∧ g.filter.mem v = fs.vectors.original v
  bounded : ∀ v e entry, g.filter.registry.lookup v = some e → g.filter.heap e = some entry →
    entry.vNodeCounter.toInt ≤ (g.known.filter (fs.vOp · = v)).card

omit [DecidableEq I] in
theorem Bounded.released (bounded : Bounded fs g) : Released fs g := by
  refine ⟨fun v nobody => ?_, fun v e entry found live => ?_⟩
  · have unregistered : g.filter.registry.lookup v = none := by
      by_contra registered
      obtain ⟨e, found⟩ := Option.ne_none_iff_exists'.mp registered
      obtain ⟨entry, live, _⟩ := bounded.wellFormed.registered found
      obtain ⟨positive, within⟩ := bounded.within v _ (countsOf_found found live)
      have none : cardOn fs g.known v = 0 := by
        rw [cardOn, Finset.card_eq_zero, Finset.filter_eq_empty_iff]
        exact fun i member => nobody i member
      omega
    exact ⟨unregistered, bounded.wellFormed.unhooked unregistered⟩
  · exact (bounded.within v _ (countsOf_found found live)).2

/-- The events that count once. -/
def countingOnce (fs : FileSystems I) : Guard (GateState I) Unit Unit (Event I) := fun c _ event =>
  countsOnce fs c.shared event = true

instance (c : Config (GateState I) Unit Unit) (t : Unit) (event : Event I) :
    Decidable (countingOnce fs c t event) :=
  inferInstanceAs (Decidable (_ = true))

/-- **A vector is released with its last known vnode**, in every run that counts no
known vnode again while its vector is registered. -/
theorem vectors_released (fs : FileSystems I) {c : Config (GateState I) Unit Unit}
    (reached : Reaches (gate fs) (countingOnce fs) (gateStart fs) c) : Released fs c.shared := by
  have bounded : Bounded fs c.shared := by
    refine reached.invariant (fun c => Bounded fs c.shared)
      ⟨wellFormed_initial fs.vectors, by nofun, by simp [gateStart]⟩ ?_
    rintro c ⟨⟩ event c' bounded once moved
    obtain ⟨wf', happened⟩ := gate_happened bounded.wellFormed moved
    exact bounded.happened wf' happened once
  exact bounded.released

/-! ### Replayed runs -/

theorem vectors_released_two_files :
    ∃ c, Reaches (gate regularFiles) (countingOnce regularFiles) (gateStart regularFiles) c ∧
      c.shared.reclaimed = {0, 1} ∧ c.shared.filter.registry.lookup 64 = none := by
  obtain ⟨c, reached, ends⟩ := exists_reached_of_replay (gate regularFiles) (countingOnce regularFiles)
    (gateStart regularFiles) [authorizes 0, authorizes 1, ((), .reclaim 0 none), ((), .reclaim 1 none)]
    (fun c => c.shared.known = ∅ ∧ c.shared.reclaimed = {0, 1}) (by decide +kernel)
  obtain ⟨nobody, gone⟩ := of_decide_eq_true ends
  exact ⟨c, reached, gone, ((vectors_released regularFiles reached).released 64 (by simp [nobody])).1⟩

/-- Without the condition: a file is authorized twice and reclaimed. -/
theorem counted_twice_not_released :
    ¬ ∀ c, Reaches (gate regularFiles) anyStep (gateStart regularFiles) c →
      Released regularFiles c.shared := by
  intro always
  obtain ⟨c, reached, ends⟩ := exists_reached_of_replay (gate regularFiles) anyStep
    (gateStart regularFiles) [authorizes 0, authorizes 0, ((), .reclaim 0 none)]
    (fun c => c.shared.known = ∅ ∧ c.shared.filter.registry.lookup 64 = some 0) (by decide +kernel)
  obtain ⟨nobody, found⟩ := of_decide_eq_true ends
  obtain ⟨absent, _⟩ := (always c reached).released 64 (by simp [nobody])
  rw [found] at absent
  cases absent

end FsdFilter.VectorRelease
