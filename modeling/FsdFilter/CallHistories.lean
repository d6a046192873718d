import FsdFilter.HookRefinement
import FsdFilter.WrappingCounter

/-! Sequences of calls, each run to completion, against a reference model that
only keeps how many vnodes of every vector are known. -/
namespace FsdFilter.CallHistories
open StateRuns VnodeOps SlotPatch HookRegistry HookCalls VectorCounts HookRefinement WrappingCounter

/-- One call with what memory it gets. -/
inductive Call where
  | hook (supply : Supply) (vnode : Vnode)
  | unhook (vnode : Vnode)

/-- The call; only `FltHookVnodeVop` answers. -/
def Call.run (offsets : List FltVnodeOpvOffsetDesc) : Call → FilterM (Option HookReturn)
  | .hook supply vnode => do
    let answer ← fltHookVnodeVop offsets supply vnode
    pure (some answer)
  | .unhook vnode => do
    fltUnHookVnodeVop offsets vnode
    pure none

def runCalls (offsets : List FltVnodeOpvOffsetDesc) : List Call → FilterM (List (Option HookReturn))
  | [] => pure []
  | call :: rest => do
    let answer ← call.run offsets
    let answers ← runCalls offsets rest
    pure (answer :: answers)

/-- Whether a call that wants to make a first entry gets the memory for it. -/
def Call.served (s : FilterState) : Call → Bool
  | .hook supply _ => serves supply s
  | .unhook _ => false

/-- The same for every call of a sequence, at the state it starts from. -/
def servedAlong (offsets : List FltVnodeOpvOffsetDesc) : List Call → FilterState → List Bool
  | [], _ => []
  | call :: rest, s =>
    call.served s :: match call.run offsets s with
      | .ok (_, s') => servedAlong offsets rest s'
      | .error _ => []

/-- How many vnodes of every vector are known. -/
abbrev Reference : Type := VopVector → ℕ

namespace Reference

/-- A successful hook of a regular file or a directory adds one. -/
def hook (n : Reference) (served : Bool) (vnode : Vnode) : HookReturn × Reference :=
  if vnode.vOp = fltVopUnknownOffset then (⟨.kIOReturnError, none⟩, n)
  else if vnode.isRecycled then (⟨.kIOReturnNoDevice, none⟩, n)
  else if !vnode.isDiskRelated then (⟨.kIOReturnSuccess, some false⟩, n)
  else if 0 < n vnode.vOp || served then
    (⟨.kIOReturnSuccess, some true⟩, Function.update n vnode.vOp (n vnode.vOp + 1))
  else (⟨.kIOReturnNoMemory, none⟩, n)

/-- An unhook of a regular file or a directory takes one away, if there is one. -/
def unhook (n : Reference) (vnode : Vnode) : Reference :=
  if isUnhookable vnode then Function.update n vnode.vOp (n vnode.vOp - 1) else n

def step (n : Reference) (served : Bool) : Call → Option HookReturn × Reference
  | .hook _ vnode => (some (n.hook served vnode).1, (n.hook served vnode).2)
  | .unhook vnode => (none, n.unhook vnode)

def run (n : Reference) : List Call → List Bool → List (Option HookReturn) × Reference
  | call :: calls, served :: rest =>
    let (answer, n') := n.step served call
    let (answers, last) := n'.run calls rest
    (answer :: answers, last)
  | _, _ => ([], n)

/-- The registry of counters that the numbers stand for. -/
def counts (n : Reference) : Counts := fun vOp => if n vOp = 0 then none else some (count (n vOp))

theorem counts_update (n : Reference) (vOp : VopVector) (m : ℕ) :
    Function.update n.counts vOp (some (count (m + 1))) =
      Reference.counts (Function.update n vOp (m + 1)) := by
  funext v
  by_cases here : v = vOp
  · subst v; simp [counts]
  · simp [counts, here]

theorem counts_forget (n : Reference) (vOp : VopVector) :
    Function.update n.counts vOp none = Reference.counts (Function.update n vOp 0) := by
  funext v
  by_cases here : v = vOp
  · subst v; simp [counts]
  · simp [counts, here]

end Reference

/-- How many of the answers report a counted hook. -/
def countedHooks (answers : List (Option HookReturn)) : ℕ :=
  answers.count (some ⟨.kIOReturnSuccess, some true⟩)

/-- A state that shows the numbers: a vector with known vnodes is registered
under that number and holds its hooks, any other is as it was. -/
structure Shows (vectors : Vectors) (s : FilterState) (n : Reference) : Prop where
  registered : ∀ v, 0 < n v → ∃ p entry, s.registry.lookup v = some p ∧ s.heap p = some entry ∧
    entry.vNodeCounter.toInt = n v
  unregistered : ∀ v, n v = 0 → s.registry.lookup v = none
  hooked : ∀ v, 0 < n v → ∀ patch ∈ vectors.patches, s.mem v patch.addr = patch.value
  others : ∀ v, ∀ offset, (∀ patch ∈ vectors.patches, patch.addr ≠ offset) →
    s.mem v offset = vectors.original v offset
  untouched : ∀ v, n v = 0 → s.mem v = vectors.original v

variable {vectors : Vectors} {s : FilterState} {n : Reference}

/-- The numbers that a well-formed state shows, as long as they fit. -/
theorem shows_of_counts (wf : WellFormed vectors s) (same : countsOf s = n.counts)
    (fits : ∀ v, n v < 2 ^ 31) : Shows vectors s n := by
  have known : ∀ v, 0 < n v → ∃ p, s.registry.lookup v = some p := by
    intro v positive
    have counted : (countsOf s v).isSome := by
      rw [same, Reference.counts, if_neg (by omega)]
      rfl
    exact Option.isSome_iff_exists.mp (wf.countsOf_isSome.mp counted)
  have unknown : ∀ v, n v = 0 → s.registry.lookup v = none := by
    intro v zero
    have missing : ¬ (countsOf s v).isSome := by
      rw [same, Reference.counts, if_pos zero]
      decide
    rw [wf.countsOf_isSome] at missing
    simpa using missing
  refine ⟨?_, unknown, ?_, ?_, fun v zero => wf.unhooked (unknown v zero)⟩
  · intro v positive
    obtain ⟨p, found⟩ := known v positive
    obtain ⟨entry, live, _⟩ := wf.registered found
    have counter : some entry.vNodeCounter = some (count (n v)) := by
      rw [← countsOf_found found live, same, Reference.counts, if_neg (by omega)]
    refine ⟨p, entry, found, live, ?_⟩
    rw [Option.some.inj counter, count_toInt (fits v)]
  · intro v positive patch member
    obtain ⟨p, found⟩ := known v positive
    rw [wf.hooked found]
    exact vectors.hookedSlots_at member v
  · intro v offset outside
    cases found : s.registry.lookup v with
    | none => rw [wf.unhooked found]
    | some p =>
      rw [wf.hooked found]
      exact patched_other outside

/-- The abstract hook is the reference hook. -/
theorem counts_hook (n : Reference) (served : Bool) (vnode : Vnode) :
    n.counts.hookReturn served vnode = (n.hook served vnode).1 ∧
      n.counts.hook served vnode = (n.hook served vnode).2.counts := by
  unfold Counts.hookReturn Counts.hook isHookable Reference.hook
  by_cases unknown : vnode.vOp = fltVopUnknownOffset
  · simp [unknown]
  by_cases recycled : vnode.isRecycled = true
  · simp [unknown, recycled]
  by_cases eligible : vnode.isDiskRelated = true
  swap
  · simp [unknown, recycled, eligible]
  rcases Nat.eq_zero_or_pos (n vnode.vOp) with zero | positive
  · have absent : n.counts vnode.vOp = none := if_pos zero
    cases served with
    | false => simp [unknown, recycled, eligible, absent, zero]
    | true =>
      refine ⟨by simp [unknown, recycled, eligible, absent, zero], ?_⟩
      simp only [unknown, recycled, eligible, absent, zero, bne_iff_ne, ne_eq, not_false_eq_true,
        Bool.not_false, Bool.and_true, Bool.not_true, Bool.false_eq_true, ↓reduceIte,
        Bool.or_true]
      exact n.counts_update vnode.vOp 0
  · have known : n.counts vnode.vOp = some (count (n vnode.vOp)) := if_neg (by omega)
    refine ⟨by simp [unknown, recycled, eligible, known, positive], ?_⟩
    simpa [unknown, recycled, eligible, known, positive] using n.counts_update vnode.vOp (n vnode.vOp)

/-- The abstract unhook is the reference unhook, as long as the number fits. -/
theorem counts_unhook (n : Reference) (vnode : Vnode) (fits : n vnode.vOp < 2 ^ 32) :
    n.counts.unhook vnode = (n.unhook vnode).counts := by
  unfold Counts.unhook Reference.unhook
  by_cases eligible : isUnhookable vnode = true
  swap
  · simp [eligible]
  rw [if_pos eligible, if_pos eligible]
  rcases Nat.lt_trichotomy (n vnode.vOp) 1 with zero | one | more
  · have absent : n.counts vnode.vOp = none := if_pos (by omega)
    rw [absent, show n vnode.vOp - 1 = n vnode.vOp by omega, Function.update_eq_self]
  · have known : n.counts vnode.vOp = some 1 := by rw [Reference.counts, one]; rfl
    rw [known, one]
    exact n.counts_forget vnode.vOp
  · have known : n.counts vnode.vOp = some (count (n vnode.vOp)) := if_neg (by omega)
    have apart : count (n vnode.vOp) ≠ 1 := by rw [ne_eq, count_eq_one fits]; omega
    have left : n vnode.vOp - 1 = (n vnode.vOp - 2) + 1 := by omega
    rw [known]
    simp only [apart, ↓reduceIte]
    rw [← count_pred (by omega), left]
    exact n.counts_update vnode.vOp _

/-! ### Whole sequences -/

/-- One call from a state that stands for the numbers. -/
theorem call_step (wf : WellFormed vectors s) (same : countsOf s = n.counts)
    (fits : ∀ v, n v < 2 ^ 31) (call : Call) :
    ∃ s', call.run vectors.table s = .ok ((n.step (call.served s) call).1, s') ∧
      WellFormed vectors s' ∧ countsOf s' = (n.step (call.served s) call).2.counts := by
  cases call with
  | hook supply vnode =>
    obtain ⟨s', ran, kept, counts⟩ := hook_refines wf supply vnode
    obtain ⟨answers, changes⟩ := counts_hook n (serves supply s) vnode
    rw [same, answers] at ran
    rw [same, changes] at counts
    exact ⟨s', bind_ok ran, kept, counts⟩
  | unhook vnode =>
    obtain ⟨s', ran, kept, counts⟩ := unhook_refines wf vnode
    have fitsHere := fits vnode.vOp
    rw [same, counts_unhook n vnode (by omega)] at counts
    exact ⟨s', bind_ok ran, kept, counts⟩

/-- A call raises a number only by the hook it reports. -/
theorem step_bounded (n : Reference) (served : Bool) (call : Call) (v : VopVector) :
    (n.step served call).2 v ≤ n v + countedHooks [(n.step served call).1] := by
  cases call with
  | hook supply vnode =>
    simp only [Reference.step, Reference.hook]
    split_ifs
    · simp
    · simp
    · simp
    · by_cases here : v = vnode.vOp
      · subst v; simp [countedHooks]
      · simp [here]
    · simp
  | unhook vnode =>
    simp only [Reference.step, Reference.unhook]
    split_ifs
    · by_cases here : v = vnode.vOp
      · subst v; simp; omega
      · simp [here]
    · simp

/-- The induction over the sequence: the numbers stay below 2^31 because only
counted hooks raise them. -/
theorem calls_run (wf : WellFormed vectors s) (same : countsOf s = n.counts) (calls : List Call)
    (bounded : ∀ v, n v + countedHooks (n.run calls (servedAlong vectors.table calls s)).1 < 2 ^ 31) :
    ∃ s', runCalls vectors.table calls s =
        .ok ((n.run calls (servedAlong vectors.table calls s)).1, s') ∧
      Shows vectors s' (n.run calls (servedAlong vectors.table calls s)).2 := by
  induction calls generalizing s n with
  | nil => exact ⟨s, rfl, shows_of_counts wf same bounded⟩
  | cons call calls ih =>
    have fits : ∀ v, n v < 2 ^ 31 := fun v => Nat.lt_of_le_of_lt (Nat.le_add_right ..) (bounded v)
    obtain ⟨s', ran, kept, counts⟩ := call_step wf same fits call
    have served : servedAlong vectors.table (call :: calls) s =
        call.served s :: servedAlong vectors.table calls s' := by
      simp only [servedAlong, ran]
    rw [served] at bounded ⊢
    simp only [Reference.run] at bounded ⊢
    obtain ⟨last, rest, shows⟩ := ih kept counts fun v => by
      have raised := step_bounded n (call.served s) call v
      have total := bounded v
      simp only [countedHooks, List.count_cons, List.count_nil] at raised total ⊢
      omega
    exact ⟨last, (bind_ok ran).trans (bind_ok rest), shows⟩

/-- **Counting refines.** From untouched vectors, every sequence of calls with
fewer than 2^31 counted hooks runs to its end without a fault, answers as the
reference does and leaves a state that shows the reference's numbers. -/
theorem calls_refine_reference (vectors : Vectors) (calls : List Call)
    (bounded : countedHooks (Reference.run (fun _ => 0) calls
      (servedAlong vectors.table calls (FilterState.initial vectors.original))).1 < 2 ^ 31) :
    ∃ s', runCalls vectors.table calls (FilterState.initial vectors.original) =
        .ok ((Reference.run (fun _ => 0) calls
          (servedAlong vectors.table calls (FilterState.initial vectors.original))).1, s') ∧
      Shows vectors s' (Reference.run (fun _ => 0) calls
        (servedAlong vectors.table calls (FilterState.initial vectors.original))).2 :=
  calls_run (wellFormed_initial vectors) rfl calls fun _ => by rwa [Nat.zero_add]

/-- A regular file of the vector at address 64. -/
def regular : Vnode := ⟨64, .vreg, false⟩

def hookThenUnhook : List Call :=
  [.hook ⟨.within 1, true⟩ regular, .hook ⟨.within 1, true⟩ { regular with isRecycled := true },
   .unhook regular]

theorem calls_refine_reference_hook_unhook :
    ∃ s', runCalls OpvOffsets.consecutive.table hookThenUnhook
        (FilterState.initial fun _ _ => .fsd 1) =
        .ok ([some ⟨.kIOReturnSuccess, some true⟩, some ⟨.kIOReturnNoDevice, none⟩, none], s') ∧
      s'.registry.lookup 64 = none := by
  obtain ⟨s', ran, shows⟩ := calls_refine_reference (.ofFileSystems .consecutive fun _ _ => 1)
    hookThenUnhook (by decide +kernel)
  have answers : (Reference.run (fun _ => 0) hookThenUnhook (servedAlong OpvOffsets.consecutive.table
      hookThenUnhook (FilterState.initial fun _ _ => .fsd 1))).1 =
        [some ⟨.kIOReturnSuccess, some true⟩, some ⟨.kIOReturnNoDevice, none⟩, none] := by
    decide +kernel
  exact ⟨s', answers ▸ ran, shows.unregistered 64 (by decide +kernel)⟩

/-- What one slot of the vector at 64 holds after the three calls, and whether
the vector is still registered. -/
def slotAfter (offsets : List FltVnodeOpvOffsetDesc) (original : VopFunc) (offset : VmOffset) :
    Option (Option EntryPtr × VopFunc) :=
  (runCalls offsets hookThenUnhook (FilterState.initial fun _ _ => original)).toOption.map fun last =>
    (last.2.registry.lookup 64, last.2.mem 64 offset)

/-- Two kinds of vectors that a hook and its unhook do not leave as they were:
one with the reserved value in a hooked slot, and one where two operations
share a slot. -/
theorem reserved_or_shared_slots_are_not_restored :
    slotAfter OpvOffsets.consecutive.table .vopNotHooked (OpvOffsets.consecutive.offset .vnopRead) =
        some (none, .hook .fltVnopReadHook) ∧
      slotAfter [⟨.vnopRead, 0⟩, ⟨.vnopWrite, 0⟩] (.fsd 1) 0 =
      some (none, .hook .fltVnopReadHook) := by
  decide +kernel

end FsdFilter.CallHistories
