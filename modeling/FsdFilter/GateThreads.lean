import FsdFilter.CounterRange

/-! Authorizations and reclaims by threads of the kernel that interleave. An
event is the calls it makes one after another; a reclaim makes its calls if it
enters the hook, which it does through the slot of the vector. The counters stay
in their range as long as a reclaim takes back a count that stands and fewer than
2^31 counts are owed on an entry; two reclaims of which only one was counted are
replayed. -/
namespace FsdFilter.GateThreads
open VnodeOps HookRegistry HookCalls Interleaving ReaderWriterLock HookThreads ThreadSteps
open ThreadAccounting ThreadProtection WrappingCounter MatchedCalls CounterRange

/-- Where a thread of the kernel is: in one call, with others of the same event
still to make. -/
structure GatePc where
  point : Pc
  todo : List Call
  deriving DecidableEq, Repr

/-- What a thread does next: it takes up an event, or goes on with the one it has. -/
inductive GateAct where
  | authorize (vnode : Vnode) (parent : Option Vnode)
  | reclaim (vnode : Vnode) (parent : Option Vnode)
  | go (act : Act)

/-- The calls of `VnodeAuthorizeCallback`. -/
def authorizeCalls (vnode : Vnode) (parent : Option Vnode) : List Call :=
  if vnode.isRecycled || !vnode.isDiskRelated then [] else (vnode :: parent.toList).map .hook

/-- The calls of `VNOP_RECLAIM`: those of `FltFsdReclaimHook`, if the slot holds it. -/
def reclaimCalls (offsets : OpvOffsets) (s : FilterState) (vnode : Vnode) (parent : Option Vnode) :
    List Call :=
  if s.mem vnode.vOp (offsets.offset .vnopReclaim) = .hook .fltFsdReclaimHook then
    .getOriginal vnode .reclaim :: (vnode :: parent.toList).map .unhook
  else []

/-- The outcome of a call's step, for a thread with more to do. -/
def goesOn (todo : List Call) : Outcome Fault (Shared × Pc) → Outcome Fault (Shared × GatePc)
  | .blocked => .blocked
  | .fault reason => .fault reason
  | .next (s, point) => .next (s, ⟨point, todo⟩)

/-- One step of a thread of the kernel. -/
def gateStep (offsets : OpvOffsets) (s : Shared) (p : GatePc) :
    GateAct → Outcome Fault (Shared × GatePc)
  | .authorize vnode parent =>
    if p.point.resting && p.todo.isEmpty then .next (s, { p with todo := authorizeCalls vnode parent })
    else .blocked
  | .reclaim vnode parent =>
    if p.point.resting && p.todo.isEmpty then
      .next (s, { p with todo := reclaimCalls offsets s.filter vnode parent })
    else .blocked
  | .go act =>
    if p.point.resting then
      match p.todo with
      | [] => .blocked
      | call :: todo => goesOn todo (step offsets.table s p.point (.call call))
    else goesOn p.todo (step offsets.table s p.point act)

/-- The threads of the kernel. -/
def gateThreads (offsets : OpvOffsets) : System Shared GatePc GateAct Fault := ⟨gateStep offsets⟩

/-- Nothing is hooked and no thread has an event. -/
def gateThreadsStart {T : Type} (mem : VopMemory) : Config Shared GatePc T :=
  ⟨(start (T := T) mem).shared, fun _ => ⟨.idle, []⟩⟩

variable {offsets : OpvOffsets} {s s' : Shared} {p p' : GatePc} {a : GateAct}

theorem goesOn_next {todo : List Call} {outcome : Outcome Fault (Shared × Pc)}
    (moved : goesOn todo outcome = .next (s', p')) : outcome = .next (s', p'.point) := by
  cases outcome with
  | blocked | fault => cases moved
  | next result => cases moved; rfl

/-- An event is taken up without a call's step, by a thread without a call, and goes
on with one. -/
theorem gateStep_projects (stepped : gateStep offsets s p a = .next (s', p')) :
    (s' = s ∧ p'.point = p.point ∧ p.point.resting = true) ∨
      ∃ b, step offsets.table s p.point b = .next (s', p'.point) := by
  cases a with
  | authorize vnode parent | reclaim vnode parent =>
    simp only [gateStep] at stepped
    split_ifs at stepped with ready
    cases stepped
    exact .inl ⟨rfl, rfl, (Bool.and_eq_true_iff.mp ready).1⟩
  | go act =>
    simp only [gateStep] at stepped
    split_ifs at stepped
    · split at stepped
      · cases stepped
      · rename_i call todo _
        exact .inr ⟨.call call, goesOn_next stepped⟩
    · exact .inr ⟨act, goesOn_next stepped⟩

/-! ### Recorded runs -/

/-- The threads of the kernel, with a record of the counts that stand. -/
def recordedGate (offsets : OpvOffsets) : System (Shared × Standing) GatePc GateAct Fault :=
  (gateThreads offsets).recorded fun s p => settle s p.point

/-- Nothing is hooked, no thread has an event and no count stands. -/
def recordedGateStart {T : Type} (mem : VopMemory) : Config (Shared × Standing) GatePc T :=
  ⟨((gateThreadsStart (T := T) mem).shared, fun _ => 0), fun _ => ⟨.idle, []⟩⟩

/-- The record is that of the calls that the events make. -/
theorem recordedGate_projects {r r' : Shared × Standing}
    (stepped : (recordedGate offsets).step r p a = .next (r', p')) :
    (r' = r ∧ p'.point = p.point) ∨
      ∃ b, (recordedThreads offsets.table).step r p.point b = .next (r', p'.point) := by
  obtain ⟨shared, standing⟩ := r
  obtain ⟨shared', standing'⟩ := r'
  obtain ⟨inner, recorded⟩ := System.recorded_next.mp stepped
  rcases gateStep_projects inner with ⟨same, still, resting⟩ | ⟨b, moved⟩
  · left
    have kept : standing' = standing := recorded.trans (settle_resting standing resting)
    exact ⟨Prod.ext same kept, still⟩
  · exact .inr ⟨b, System.recorded_next.mpr ⟨moved, recorded⟩⟩

variable {T : Type} [Fintype T] [DecidableEq T]

/-- The steps of calls whose counts are matched. -/
def gateWithinCount : Guard (Shared × Standing) GatePc T GateAct := fun c t _ =>
  withinCount (c.project GatePc.point) t .run

instance (c : Config (Shared × Standing) GatePc T) (t : T) (a : GateAct) :
    Decidable (gateWithinCount c t a) :=
  inferInstanceAs (Decidable (withinCount _ _ _))

omit [Fintype T] [DecidableEq T] in
/-- Every counter is in its range: a registered entry counts from 0 to 2^31 - 1, an
increment that is made does not wrap, a decrement finds at least one, and a hook
that has counted does not find zero afterwards. -/
structure CountersInRange (made : T → GateAct → Prop) (c : Config Shared GatePc T) : Prop where
  registered : ∀ v e entry, c.shared.filter.registry.lookup v = some e →
    c.shared.filter.heap e = some entry →
    0 ≤ entry.vNodeCounter.toInt ∧ entry.vNodeCounter.toInt ≤ 2 ^ 31 - 1
  increments : ∀ t act v e entry, made t act → increments (c.pc t).point = some (v, e) →
    c.shared.filter.heap e = some entry →
    entry.incremented.vNodeCounter.toInt = entry.vNodeCounter.toInt + 1
  decrements : ∀ t v e entry, decrements (c.pc t).point = some (v, e) →
    c.shared.filter.heap e = some entry → 1 ≤ entry.vNodeCounter.toInt
  checks : ∀ t x e entry, (c.pc t).point = .hookReleaseExisting x e →
    c.shared.filter.heap e = some entry → entry.vNodeCounter ≠ 0

/-- **The counters stay in their range**, in every run of events whose reclaims take
back a count that stands, and whose counts are made while fewer than 2^31 - 1 are
owed on the entry. -/
theorem counters_in_range (offsets : OpvOffsets) (mem : VopMemory)
    {c : Config (Shared × Standing) GatePc T}
    (reached : Reaches (recordedGate offsets) gateWithinCount (recordedGateStart mem) c) :
    CountersInRange (gateWithinCount c) c.erase := by
  have projected : Reaches (recordedThreads offsets.table) (fun c t _ => withinCount c t .run)
      ((recordedGateStart mem).project GatePc.point) (c.project GatePc.point) :=
    Reaches.project (fun _ _ _ _ _ stepped => recordedGate_projects stepped) reached
  have shown : Shown c.shared.1 c.shared.2 (c.project GatePc.point).pc := shown_of_reaches projected
  have claim : ∀ t e entry, claims e (c.pc t).point = 1 → c.shared.1.filter.heap e = some entry →
      1 ≤ entry.vNodeCounter.toInt := by
    intro t e entry has live
    have counted := shown e entry live
    have positive : 0 < owed c.shared.2 (c.project GatePc.point).pc e := owed_of_claims (t := t) has
    omega
  refine ⟨fun v e entry _ live => ?_, ?_, ?_, ?_⟩
  · have counted := shown e entry live
    have above := entry.vNodeCounter.toInt_lt
    omega
  · intro t act v e entry admitted counts live
    have counted := shown e entry live
    have few : owed c.shared.2 (c.project GatePc.point).pc e + 1 < 2 ^ 31 := admitted.2 (v, e) counts
    exact toInt_succ (by omega)
  · intro t v e entry takes live
    exact claim t e entry (claims_of_decrements takes) live
  · intro t x e entry looks live zero
    have at_ : (c.pc t).point = .hookReleaseExisting x e := looks
    have has : claims e (c.pc t).point = 1 := by rw [at_]; simp [claims, claimed, one]
    have positive := claim t e entry has live
    rw [zero] at positive
    exact absurd positive (by decide)

/-! ### Replayed runs -/

/-- A thread takes up the authorization of a file and hooks its vector. -/
def authorizesFirst (t : Fin 2) : List (Fin 2 × GateAct) :=
  (t, .authorize ⟨64, .vreg, false⟩ none) ::
    [.run, .run, .allocate (.within 4), .run, .run, .insert true].map (fun act => (t, .go act)) ++
    List.replicate 16 (t, .go .run)

/-- A thread takes up the reclaim of a file and looks the entry up to take one. -/
def reclaimsUntilFound (t : Fin 2) : List (Fin 2 × GateAct) :=
  (t, .reclaim ⟨64, .vreg, true⟩ none) :: List.replicate 6 (t, .go .run)

theorem counters_in_range_reclaimed :
    ∃ c : Config (Shared × Standing) GatePc (Fin 2),
      Reaches (recordedGate .consecutive) gateWithinCount (recordedGateStart fun _ _ => .fsd 1) c ∧
      (c.pc 0).point = .unhookDecrement ⟨64, .vreg, true⟩ 0 ∧
      CountersInRange (gateWithinCount c) c.erase := by
  obtain ⟨c, reached, ends⟩ := exists_reached_of_replay (recordedGate .consecutive) gateWithinCount
    (recordedGateStart fun _ _ => .fsd 1) (authorizesFirst 0 ++ reclaimsUntilFound 0)
    (fun c => (c.pc 0).point = .unhookDecrement ⟨64, .vreg, true⟩ 0) (by decide +kernel)
  exact ⟨c, reached, of_decide_eq_true ends, counters_in_range .consecutive _ reached⟩

/-- Without the condition: two files of a vector are reclaimed, only one of which
was ever counted, and both threads find the entry before either takes from it. -/
theorem counter_below_zero :
    ¬ ∀ c : Config Shared GatePc (Fin 2),
      Reaches (gateThreads .consecutive) anyStep (gateThreadsStart fun _ _ => .fsd 1) c →
        CountersInRange (fun _ _ => True) c := by
  intro always
  obtain ⟨c, reached, ends⟩ := exists_reached_of_replay (gateThreads .consecutive) anyStep
    (gateThreadsStart (T := Fin 2) fun _ _ => .fsd 1)
    (authorizesFirst 0 ++ reclaimsUntilFound 0 ++ reclaimsUntilFound 1 ++ [(0, .go .run), (1, .go .run)])
    (fun c => c.shared.filter.registry.lookup 64 = some 0 ∧
      (c.shared.filter.heap 0).map (·.vNodeCounter) = some (-1)) (by decide +kernel)
  obtain ⟨found, counter⟩ := of_decide_eq_true ends
  obtain ⟨entry, live, negative⟩ := Option.map_eq_some_iff.mp counter
  have range := ((always c reached).registered 64 0 entry found live).1
  rw [negative] at range
  exact absurd range (by decide)

end FsdFilter.GateThreads
