import FsdFilter.Interleaving
import FsdFilter.StateRuns

/-! Two levels of one design. The state of the outer code stands for that of the inner
one: what is proved of a piece of code, or of a single step of one thread, holds for
whole sequences and for every run of all the threads. -/
namespace FsdFilter.Simulation
open Interleaving StateRuns

/-! ### Code -/

section Code
variable {σ τ ε ε' α β : Type}

/-- Both return the same in related states, or both fail for related reasons. -/
inductive Answers (R : σ → τ → Prop) (E : ε → ε' → Prop) :
    Except ε (α × σ) → Except ε' (α × τ) → Prop
  | ok {a : α} {s : σ} {i : τ} (related : R s i) : Answers R E (.ok (a, s)) (.ok (a, i))
  | error {fault : ε} {cause : ε'} (related : E fault cause) : Answers R E (.error fault) (.error cause)

/-- What the outer code does from a related state, the inner one does. -/
def Matches (R : σ → τ → Prop) (E : ε → ε' → Prop) (outer : StateT σ (Except ε) α)
    (inner : StateT τ (Except ε') α) :
    Prop := ∀ s i, R s i → Answers R E (outer s) (inner i)

variable {R : σ → τ → Prop} {E : ε → ε' → Prop} {outer : StateT σ (Except ε) α}
  {inner : StateT τ (Except ε') α} {outerNext : α → StateT σ (Except ε) β}
  {innerNext : α → StateT τ (Except ε') β} {s : σ} {i : τ}

theorem Answers.bind (first : Answers R E (outer s) (inner i))
    (rest : ∀ a, Matches R E (outerNext a) (innerNext a)) :
    Answers R E ((outer >>= outerNext) s) ((inner >>= innerNext) i) := by
  cases ran : outer s with
  | ok found =>
    rw [ran] at first
    cases ran' : inner i with
    | ok found' =>
      rw [ran'] at first
      cases first with
      | ok related =>
        rw [bind_ok ran, bind_ok ran']
        exact rest _ _ _ related
    | error cause => rw [ran'] at first; cases first
  | error fault =>
    rw [ran] at first
    cases ran' : inner i with
    | ok found' => rw [ran'] at first; cases first
    | error cause =>
      rw [ran'] at first
      cases first with
      | error related =>
        rw [bind_error ran, bind_error ran']
        exact .error related

theorem Matches.pure (a : α) :
    Matches R E (pure a : StateT σ (Except ε) α) (pure a : StateT τ (Except ε') α) :=
  fun _ _ related => .ok related

theorem Matches.bind (first : Matches R E outer inner)
    (rest : ∀ a, Matches R E (outerNext a) (innerNext a)) :
    Matches R E (outer >>= outerNext) (inner >>= innerNext) :=
  fun s i related => (first s i related).bind rest

end Code

/-! ### Threads -/

section Threads
variable {S S' P A A' F F' T : Type}

/-- Both go on to the same program point in related states, or fail for related reasons,
or wait. -/
inductive Follows (R : S → S' → Prop) (E : F → F' → Prop) :
    Outcome F (S × P) → Outcome F' (S' × P) → Prop
  | blocked : Follows R E .blocked .blocked
  | fault {reason : F} {cause : F'} (related : E reason cause) : Follows R E (.fault reason)
    (.fault cause)
  | next {s : S} {i : S'} {p : P} (related : R s i) : Follows R E (.next (s, p)) (.next (i, p))

/-- Every step of the outer code is matched by one of the inner code. -/
def Simulates (outer : System S P A F) (inner : System S' P A' F') (R : S → S' → Prop)
    (E : F → F' → Prop) : Prop :=
  ∀ s i p a, R s i → ∃ b, Follows R E (outer.step s p a) (inner.step i p b)

variable {outer : System S P A F} {inner : System S' P A' F'} {R : S → S' → Prop} {E : F → F' → Prop}
  {ok : Guard S P T A} [DecidableEq T]

/-- One step of one thread among many. -/
theorem Simulates.advance (simulates : Simulates outer inner R E) {c c' : Config S P T} {t : T}
    {a : A} {i : S'} (related : R c.shared i) (moved : outer.advance c t a = .next c') :
    ∃ b i', inner.advance ⟨i, c.pc⟩ t b = .next ⟨i', c'.pc⟩ ∧ R c'.shared i' := by
  obtain ⟨point, stepped, points⟩ := System.advance_next moved
  obtain ⟨b, follows⟩ := simulates _ _ (c.pc t) a related
  rw [stepped] at follows
  cases matched : inner.step i (c.pc t) b with
  | blocked => rw [matched] at follows; cases follows
  | fault cause => rw [matched] at follows; cases follows
  | next after =>
    rw [matched] at follows
    cases follows with
    | next related' =>
      refine ⟨b, _, ?_, related'⟩
      simp only [System.advance, matched, points]

/-- **The simulation rule.** Every run of the outer system is a run of the inner one, with
the same program points and a related shared state at its end. -/
theorem Simulates.reaches (simulates : Simulates outer inner R E) {start c : Config S P T} {i : S'}
    (initially : R start.shared i) (reached : Reaches outer ok start c) :
    ∃ i', Reaches inner anyStep ⟨i, start.pc⟩ ⟨i', c.pc⟩ ∧ R c.shared i' := by
  induction reached with
  | start => exact ⟨i, .start, initially⟩
  | step _ _ moved ih =>
    obtain ⟨middle, before, related⟩ := ih
    obtain ⟨b, i', matched, related'⟩ := simulates.advance related moved
    exact ⟨i', .step before trivial matched, related'⟩

/-- A fault after a run of the outer system is one after the matching run of the inner one. -/
theorem Simulates.fault (simulates : Simulates outer inner R E) {c : Config S P T} {i : S'}
    (related : R c.shared i) {t : T} {a : A} {reason : F}
    (stopped : outer.advance c t a = .fault reason) :
    ∃ b cause, inner.advance ⟨i, c.pc⟩ t b = .fault cause ∧ E reason cause := by
  obtain ⟨b, follows⟩ := simulates _ _ (c.pc t) a related
  rw [System.advance_fault stopped] at follows
  cases matched : inner.step i (c.pc t) b with
  | blocked => rw [matched] at follows; cases follows
  | next after => rw [matched] at follows; cases follows
  | fault cause =>
    rw [matched] at follows
    cases follows with
    | fault same =>
      refine ⟨b, cause, ?_, same⟩
      simp only [System.advance, matched]

/-! ### Under conditions on the calls -/

/-- The same while all program points are `good`, which they stay when the choices are
admitted; `forget` makes a choice of the inner code of one of the outer code. -/
structure SimulatesWhile (outer : System S P A F) (inner : System S' P A' F') (R : S → S' → Prop)
    (E : F → F' → Prop) (good : P → Prop) (admits : A → Prop) (forget : A → A') : Prop where
  follows : ∀ s i p a, R s i → good p → admits a →
    Follows R E (outer.step s p a) (inner.step i p (forget a))
  keeps : ∀ i p a i' p', good p → admits a → inner.step i p (forget a) = .next (i', p') → good p'

variable {good : P → Prop} {admits : A → Prop} {forget : A → A'}

/-- A run of the outer system is one of the inner one, and its program points are good. -/
theorem SimulatesWhile.reaches (simulates : SimulatesWhile outer inner R E good admits forget)
    {start c : Config S P T} {i : S'} (initially : R start.shared i) (allGood : ∀ t, good (start.pc t))
    (reached : Reaches outer (fun _ _ a => admits a) start c) :
    ∃ i', Reaches inner anyStep ⟨i, start.pc⟩ ⟨i', c.pc⟩ ∧ R c.shared i' ∧
      ∀ t, good (c.pc t) := by
  induction reached with
  | start => exact ⟨i, .start, initially, allGood⟩
  | @step c c' t a _ admitted moved ih =>
    obtain ⟨middle, before, related, wasGood⟩ := ih
    obtain ⟨point, stepped, points⟩ := System.advance_next moved
    have follows := simulates.follows _ _ (c.pc t) a related (wasGood t) admitted
    rw [stepped] at follows
    cases matched : inner.step middle (c.pc t) (forget a) with
    | blocked => rw [matched] at follows; cases follows
    | fault cause => rw [matched] at follows; cases follows
    | next after =>
      rw [matched] at follows
      cases follows with
      | next related' =>
        refine ⟨_, .step (t := t) (a := forget a) before trivial ?_, related', fun u => ?_⟩
        · simp only [System.advance, matched, points]
        · rw [points]
          by_cases own : u = t
          · subst own
            rw [Function.update_self]
            exact simulates.keeps _ _ _ _ _ (wasGood u) admitted matched
          · rw [Function.update_of_ne own]
            exact wasGood u

/-- A fault of the outer system is one of the inner one. -/
theorem SimulatesWhile.fault (simulates : SimulatesWhile outer inner R E good admits forget)
    {c : Config S P T} {i : S'} (related : R c.shared i) {t : T} (wasGood : good (c.pc t)) {a : A}
    (admitted : admits a) {reason : F} (stopped : outer.advance c t a = .fault reason) :
    ∃ cause, inner.advance ⟨i, c.pc⟩ t (forget a) = .fault cause ∧ E reason cause := by
  have follows := simulates.follows _ _ (c.pc t) a related wasGood admitted
  rw [System.advance_fault stopped] at follows
  cases matched : inner.step i (c.pc t) (forget a) with
  | blocked => rw [matched] at follows; cases follows
  | next after => rw [matched] at follows; cases follows
  | fault cause =>
    rw [matched] at follows
    cases follows with
    | fault same =>
      refine ⟨cause, ?_, same⟩
      simp only [System.advance, matched]

end Threads
end FsdFilter.Simulation
