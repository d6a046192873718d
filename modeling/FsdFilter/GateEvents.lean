import Mathlib.Data.Finset.Card
import FsdFilter.Interleaving
import FsdFilter.VfsHooks

/-! What makes the filter hook and unhook: the kernel authorizes an action on a
vnode, or reclaims a vnode whose vector is hooked. Events run one after another.
Which vnodes share a vector, which parent the kernel finds and which vnodes are
never authorized is left open. -/
namespace FsdFilter.GateEvents
open StateRuns VnodeOps SlotPatch HookRegistry HookCalls VectorCounts HookRefinement VfsHooks
open Interleaving

/-- `FltIOKitKAuthVnodeGate::VnodeAuthorizeCallback`. The decision is always
deferred; what is kept are the answers of the hooking calls, if they are made. -/
def vnodeAuthorizeCallback (offsets : List FltVnodeOpvOffsetDesc) (supply parentSupply : Supply)
    (vnode : Vnode) (parent : Option Vnode) : FilterM (Option (HookReturn × Option HookReturn)) := do
  if vnode.isRecycled then pure none
  else if !vnode.isDiskRelated then pure none
  else
    let answers ← fltHookVnodeVopAndParent offsets supply parentSupply vnode parent
    pure (some answers)

/-- The kernel's `VNOP_RECLAIM`: it enters whatever the slot of the vector holds. -/
def vnopReclaim {B : Type} (kernel : Kernel B) (offsets : OpvOffsets) (ap : VnopVpArgs B) :
    HookM B ℤ := do
  match ← readSlot ap.aVp.vOp (offsets.offset .vnopReclaim) with
  | .hook .fltFsdReclaimHook => fltFsdReclaimHook kernel offsets.table ap
  | func => kernel.call func (.reclaim ap)

/-- The vnodes of a run and the file systems they belong to. An `I` names a
vnode from its creation to its reclaim. -/
structure FileSystems (I : Type) where
  offsets : OpvOffsets
  functions : VopVector → VmOffset → ℕ
  vOp : I → VopVector
  vType : I → Vtype

/-- The file systems' vectors before anything is hooked. -/
def FileSystems.vectors {I : Type} (fs : FileSystems I) : Vectors :=
  .ofFileSystems fs.offsets fs.functions

/-- The filter, the vnodes it has counted and that are not reclaimed yet, the
vnodes that the kernel has marked dead, and those it has reclaimed. -/
structure GateState (I : Type) where
  filter : FilterState
  known : Finset I
  recycled : Finset I
  reclaimed : Finset I

/-- One event. The parent is what `vnode_getparent` finds at that time. -/
inductive Event (I : Type) where
  | authorize (vnode : I) (parent : Option I) (supply parentSupply : Supply)
  | recycle (vnode : I)
  | reclaim (vnode : I) (parent : Option I)

section Machine
variable {I : Type} [DecidableEq I] (fs : FileSystems I)

def FileSystems.vnode (g : GateState I) (i : I) : Vnode := ⟨fs.vOp i, fs.vType i, i ∈ g.recycled⟩

/-- A vnode is known once it has been counted. -/
def learn (known : Finset I) (i : I) (answer : HookReturn) : Finset I :=
  if answer = ⟨.kIOReturnSuccess, some true⟩ then insert i known else known

/-- What an authorization makes known. -/
def learned (known : Finset I) (vnode : I) (parent : Option I) :
    Option (HookReturn × Option HookReturn) → Finset I
  | none => known
  | some (own, second) =>
    match parent, second with
    | some parent, some answer => learn (learn known vnode own) parent answer
    | _, _ => learn known vnode own

/-- No function of a file system is looked at, only the parent is found. -/
def reclaimKernel (parent : Option Vnode) : Kernel Unit := ⟨fun _ _ => 0, fun _ => parent⟩

/-- The vnodes of an event are alive, and nobody is its own parent. -/
def isLegal (g : GateState I) (vnode : I) (parent : Option I) : Bool :=
  vnode ∉ g.reclaimed ∧ (∀ p ∈ parent, p ∉ g.reclaimed ∧ p ≠ vnode)

/-- One event, run to its end. -/
def gateStep (g : GateState I) : Event I → Outcome Fault (GateState I × Unit)
  | .authorize vnode parent supply parentSupply =>
    if isLegal g vnode parent then
      match vnodeAuthorizeCallback fs.offsets.table supply parentSupply (fs.vnode g vnode)
          (parent.map (fs.vnode g)) g.filter with
      | .ok (answers, filter) =>
        .next ({ g with filter := filter, known := learned g.known vnode parent answers }, ())
      | .error fault => .fault fault
    else .blocked
  | .recycle vnode => .next ({ g with recycled := insert vnode g.recycled }, ())
  | .reclaim vnode parent =>
    if isLegal g vnode parent then
      match vnopReclaim (reclaimKernel (parent.map (fs.vnode g))) fs.offsets ⟨fs.vnode g vnode, ()⟩ []
          g.filter with
      | .ok (_, filter) =>
        .next ({ g with filter := filter, known := g.known.erase vnode,
                        reclaimed := insert vnode g.reclaimed }, ())
      | .error fault => .fault fault
    else .blocked

/-- The events as the steps of one thread. -/
def gate : System (GateState I) Unit (Event I) Fault := ⟨fun g _ event => gateStep fs g event⟩

/-- Nothing is hooked and nothing known. -/
def gateStart : Config (GateState I) Unit Unit :=
  ⟨⟨FilterState.initial fs.vectors.original, ∅, ∅, ∅⟩, fun _ => ()⟩

end Machine

/-! ### What an event does to the counts -/

/-- Vnodes are counted one after another; a first one may find no memory. -/
inductive Counted {I : Type} [DecidableEq I] (fs : FileSystems I) :
    Counts → Finset I → List I → Counts → Finset I → Prop where
  | nil {counts : Counts} {known : Finset I} : Counted fs counts known [] counts known
  | again {counts counts' : Counts} {known known' : Finset I} {i : I} {l : List I} {c : Int32}
      (found : counts (fs.vOp i) = some c)
      (rest : Counted fs (Function.update counts (fs.vOp i) (some (c + 1))) (insert i known) l
      counts' known') :
      Counted fs counts known (i :: l) counts' known'
  | first {counts counts' : Counts} {known known' : Finset I} {i : I} {l : List I}
      (absent : counts (fs.vOp i) = none)
      (rest : Counted fs (Function.update counts (fs.vOp i) (some 1)) (insert i known) l counts' known') :
      Counted fs counts known (i :: l) counts' known'
  | refused {counts counts' : Counts} {known known' : Finset I} {i : I} {l : List I}
      (absent : counts (fs.vOp i) = none) (rest : Counted fs counts known l counts' known') :
      Counted fs counts known (i :: l) counts' known'

section Counting
variable {I : Type} [DecidableEq I] {fs : FileSystems I}

/-- The vnodes that an authorization counts. -/
def authorized (fs : FileSystems I) (g : GateState I) (vnode : I) (parent : Option I) : List I :=
  if (fs.vnode g vnode).isRecycled || !(fs.vnode g vnode).isDiskRelated then []
  else (vnode :: parent.toList).filter fun i => isHookable (fs.vnode g i)

/-- Vnodes are taken back one after another. -/
def uncounted (fs : FileSystems I) (g : GateState I) (counts : Counts) (vnodes : List I) : Counts :=
  (vnodes.map (fs.vnode g)).foldl Counts.unhook counts

variable {g : GateState I} {s : FilterState}

/-- How often a vector is taken back from when some vnodes are. -/
def takenBack (fs : FileSystems I) (g : GateState I) (vnodes : List I) (v : VopVector) : ℕ :=
  vnodes.countP fun i => isUnhookable (fs.vnode g i) && fs.vOp i == v

/-- What one call of `FltUnHookVnodeVop` leaves of a counter. -/
theorem unhook_at (counts : Counts) (vnode : Vnode) (v : VopVector) :
    counts.unhook vnode v = if isUnhookable vnode && vnode.vOp == v then
      (counts v).bind fun c => if c = 1 then none else some (c - 1) else counts v := by
  unfold Counts.unhook
  by_cases eligible : isUnhookable vnode = true
  swap
  · simp [eligible]
  by_cases here : vnode.vOp = v
  · subst here
    cases found : counts vnode.vOp with
    | none => simp [eligible, found]
    | some c => simp [eligible]
  · cases counts vnode.vOp with
    | none => simp [eligible, here]
    | some c => simp [eligible, here, Function.update_of_ne (Ne.symm here)]

/-- What the answer of a hooking call makes known. -/
theorem learn_hookReturn (counts : Counts) (created : Bool) (known : Finset I) (i : I) :
    learn known i (counts.hookReturn created (fs.vnode g i)) =
      if isHookable (fs.vnode g i) && ((counts (fs.vOp i)).isSome || created) then insert i known
      else known := by
  unfold learn Counts.hookReturn isHookable
  have same : (fs.vnode g i).vOp = fs.vOp i := rfl
  rw [same]
  by_cases unknown : fs.vOp i = fltVopUnknownOffset
  · simp [unknown]
  by_cases recycled : (fs.vnode g i).isRecycled = true
  · simp [unknown, recycled]
  by_cases eligible : (fs.vnode g i).isDiskRelated = true
  · by_cases room : (counts (fs.vOp i)).isSome || created
    · simp [unknown, recycled, eligible, room]
    · simp [unknown, recycled, eligible, room]
  · simp [unknown, recycled, eligible]

/-- One call of `FltHookVnodeVop`, followed by others. -/
theorem hook_counts (wf : WellFormed fs.vectors s) (supply : Supply) (g : GateState I) (i : I) :
    ∃ answer s', fltHookVnodeVop fs.vectors.table supply (fs.vnode g i) s = .ok (answer, s') ∧
      WellFormed fs.vectors s' ∧ ∀ known l counts' known',
        Counted fs (countsOf s') (learn known i answer) l counts' known' →
          Counted fs (countsOf s) known ([i].filter (fun i => isHookable (fs.vnode g i)) ++ l)
            counts' known' := by
  obtain ⟨s', ran, kept, counts⟩ := hook_refines wf supply (fs.vnode g i)
  refine ⟨_, s', ran, kept, fun known l counts' known' rest => ?_⟩
  rw [counts, learn_hookReturn] at rest
  unfold Counts.hook at rest
  have same : (fs.vnode g i).vOp = fs.vOp i := rfl
  rw [same] at rest
  by_cases eligible : isHookable (fs.vnode g i) = true
  swap
  · simpa [eligible] using rest
  cases found : countsOf s (fs.vOp i) with
  | some c =>
    simp only [eligible, found, ↓reduceIte, Option.isSome_some, Bool.true_or, Bool.and_self] at rest
    simpa [eligible] using Counted.again found rest
  | none =>
    cases created : serves supply s with
    | true =>
      simp only [eligible, found, created, ↓reduceIte, Option.isSome_none, Bool.or_true,
        Bool.and_self] at rest
      simpa [eligible] using Counted.first found rest
    | false =>
      simp only [eligible, found, created, ↓reduceIte, Option.isSome_none, Bool.or_false,
        Bool.and_false, Bool.false_eq_true] at rest
      simpa [eligible] using Counted.refused found rest

/-- An authorization runs to its end and counts its vnodes. -/
theorem authorize_counts (wf : WellFormed fs.vectors s) (supply parentSupply : Supply) (g : GateState I)
    (vnode : I) (parent : Option I) (known : Finset I) :
    ∃ answers s', vnodeAuthorizeCallback fs.vectors.table supply parentSupply (fs.vnode g vnode)
        (parent.map (fs.vnode g)) s = .ok (answers, s') ∧ WellFormed fs.vectors s' ∧
      Counted fs (countsOf s) known (authorized fs g vnode parent) (countsOf s')
        (learned known vnode parent answers) := by
  unfold vnodeAuthorizeCallback authorized
  by_cases recycled : (fs.vnode g vnode).isRecycled = true
  · exact ⟨none, s, by simp [recycled, pure_run], wf, by simpa [recycled] using .nil⟩
  by_cases eligible : (fs.vnode g vnode).isDiskRelated = true
  swap
  · exact ⟨none, s, by simp [recycled, eligible, pure_run], wf, by simpa [eligible] using .nil⟩
  simp only [recycled, eligible, Bool.not_true, Bool.false_eq_true, Bool.or_self, ↓reduceIte]
  obtain ⟨own, middle, ran, kept, counted⟩ := hook_counts wf supply g vnode
  cases parent with
  | none =>
    refine ⟨some (own, none), middle, ?_, kept, ?_⟩
    · refine bind_ok (show _ = Except.ok ((own, none), middle) from ?_)
      exact bind_ok ran
    · have whole := counted known [] _ _ .nil
      rw [List.append_nil] at whole
      exact whole
  | some parent =>
    obtain ⟨second, s', ran', kept', counted'⟩ := hook_counts kept parentSupply g parent
    refine ⟨some (own, some second), s', ?_, kept', ?_⟩
    · refine bind_ok (show _ = Except.ok ((own, some second), s') from ?_)
      exact (bind_ok ran).trans (bind_ok ran')
    · have rest := counted' (learn known vnode own) [] _ _ .nil
      have whole := counted known _ _ _ rest
      have split : (vnode :: (some parent).toList).filter (fun i => isHookable (fs.vnode g i)) =
          [vnode].filter (fun i => isHookable (fs.vnode g i)) ++
            ([parent].filter (fun i => isHookable (fs.vnode g i)) ++ []) := by
        rw [List.append_nil, ← List.filter_append]
        rfl
      rw [split]
      exact whole

omit [DecidableEq I] in
private theorem reclaim_member : ⟨fs.offsets.offset .vnopReclaim, .reclaim, .hook .fltFsdReclaimHook⟩ ∈
    fs.vectors.patches := by
  rw [Vectors.patches, Vectors.table, FileSystems.vectors, Vectors.ofFileSystems, hookPatches_table]
  exact List.mem_cons_self

/-- A reclaim runs to its end. It enters the hook exactly while the vector is
registered, and then takes its vnodes back. -/
theorem reclaim_uncounts (wf : WellFormed fs.vectors s) (g : GateState I) (vnode : I)
    (parent : Option I) :
    ∃ result s', vnopReclaim (reclaimKernel (parent.map (fs.vnode g))) fs.offsets
      ⟨fs.vnode g vnode, ()⟩ [] s =
        .ok (result, s') ∧ WellFormed fs.vectors s' ∧
      countsOf s' = if (countsOf s (fs.vOp vnode)).isSome then
        uncounted fs g (countsOf s) (vnode :: parent.toList) else countsOf s := by
  have read : ∀ func, s.mem (fs.vOp vnode) (fs.offsets.offset .vnopReclaim) = func →
      readSlot (fs.vOp vnode) (fs.offsets.offset .vnopReclaim) s = .ok (func, s) := by
    rintro func rfl
    rfl
  unfold vnopReclaim
  cases found : s.registry.lookup (fs.vOp vnode) with
  | some p =>
    have hooked : s.mem (fs.vOp vnode) (fs.offsets.offset .vnopReclaim) = .hook .fltFsdReclaimHook := by
      rw [wf.hooked found]
      exact fs.vectors.hookedSlots_at reclaim_member _
    have registered : (countsOf s (fs.vOp vnode)).isSome := by
      rw [wf.countsOf_isSome, found]
      rfl
    obtain ⟨s', ran, kept, counts⟩ := reclaim_run (reclaimKernel (parent.map (fs.vnode g))) [] wf
      reclaim_member rfl ⟨fs.vnode g vnode, ()⟩
    refine ⟨_, s', (HookM.bind_lift [] (read _ hooked)).trans ran, kept, ?_⟩
    rw [if_pos registered, counts, uncounted, List.map_cons]
    cases parent <;> rfl
  | none =>
    have untouched : s.mem (fs.vOp vnode) (fs.offsets.offset .vnopReclaim) =
        .fsd (fs.functions (fs.vOp vnode) (fs.offsets.offset .vnopReclaim)) := by
      rw [wf.unhooked found]
      rfl
    have unregistered : ¬ (countsOf s (fs.vOp vnode)).isSome := by
      rw [wf.countsOf_isSome, found]
      nofun
    exact ⟨_, s, HookM.bind_lift [] (read _ untouched), wf, by rw [if_neg unregistered]⟩

/-! ### Runs of events -/

/-- What an event leaves: the vnodes it has to do with counted or taken back. -/
inductive Happened (fs : FileSystems I) (g : GateState I) : Event I → GateState I → Prop where
  | authorized {vnode : I} {parent : Option I} {supply parentSupply : Supply} {filter : FilterState}
      {known : Finset I} (legal : isLegal g vnode parent = true)
      (counted : Counted fs (countsOf g.filter) g.known (authorized fs g vnode parent)
      (countsOf filter) known) :
      Happened fs g (.authorize vnode parent supply parentSupply)
      { g with filter := filter, known := known }
  | recycled {vnode : I} :
      Happened fs g (.recycle vnode) { g with recycled := insert vnode g.recycled }
  | reclaimed {vnode : I} {parent : Option I} {filter : FilterState}
    (legal : isLegal g vnode parent = true)
      (taken : countsOf filter = if (countsOf g.filter (fs.vOp vnode)).isSome then
        uncounted fs g (countsOf g.filter) (vnode :: parent.toList) else countsOf g.filter) :
      Happened fs g (.reclaim vnode parent)
        { g with filter := filter, known := g.known.erase vnode, reclaimed := insert vnode g.reclaimed }

/-- Every event leaves well-formed vectors, whatever it finds. -/
theorem gateStep_happened {g' : GateState I} {event : Event I} (wf : WellFormed fs.vectors g.filter)
    (moved : gateStep fs g event = .next (g', ())) :
    WellFormed fs.vectors g'.filter ∧ Happened fs g event g' := by
  cases event with
  | authorize vnode parent supply parentSupply =>
    simp only [gateStep] at moved
    split_ifs at moved with legal
    obtain ⟨answers, s', ran, kept, counted⟩ :=
      authorize_counts wf supply parentSupply g vnode parent g.known
    have same : vnodeAuthorizeCallback fs.offsets.table supply parentSupply (fs.vnode g vnode)
        (parent.map (fs.vnode g)) g.filter = .ok (answers, s') := ran
    rw [same] at moved
    cases moved
    exact ⟨kept, .authorized legal counted⟩
  | recycle vnode =>
    cases moved
    exact ⟨wf, .recycled⟩
  | reclaim vnode parent =>
    simp only [gateStep] at moved
    split_ifs at moved with legal
    obtain ⟨result, s', ran, kept, taken⟩ := reclaim_uncounts wf g vnode parent
    rw [ran] at moved
    cases moved
    exact ⟨kept, .reclaimed legal taken⟩

/-- The same for a step of the gate. -/
theorem gate_happened {c c' : Config (GateState I) Unit Unit} {event : Event I}
    (wf : WellFormed fs.vectors c.shared.filter) (moved : (gate fs).advance c () event = .next c') :
    WellFormed fs.vectors c'.shared.filter ∧ Happened fs c.shared event c'.shared := by
  obtain ⟨point, stepped, _⟩ := System.advance_next moved
  exact gateStep_happened wf stepped

end Counting

end FsdFilter.GateEvents
