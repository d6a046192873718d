import FsdFilter.StateRuns

/-! Computations that change a state and may stop, but only for a reason that is allowed:
rules that carry a condition on the state through a program, in the order of its steps. -/
namespace FsdFilter.CheckedRuns

variable {σ ε α β : Type}

/-- From a state in `pre` the code either stops for an allowed reason or returns with `post`. -/
def Meets (allowed : ε → Prop) (pre : σ → Prop) (code : StateT σ (Except ε) α)
    (post : α → σ → Prop) : Prop :=
  ∀ s, pre s → (∃ a s', code s = .ok (a, s') ∧ post a s') ∨ ∃ e, code s = .error e ∧ allowed e

namespace Meets
variable {allowed : ε → Prop} {pre pre' : σ → Prop} {post post' : α → σ → Prop}
  {finally' : β → σ → Prop} {code : StateT σ (Except ε) α}
  {next : α → StateT σ (Except ε) β} {a : α}

theorem returns (holds : ∀ s, pre s → post a s) : Meets allowed pre (pure a) post :=
  fun s before => .inl ⟨a, s, rfl, holds s before⟩

theorem stop {e : ε} (reason : allowed e) : Meets allowed pre (throw e) post :=
  fun _ _ => .inr ⟨e, rfl, reason⟩

theorem bind {between : α → σ → Prop} (first : Meets allowed pre code between)
    (rest : ∀ a, Meets allowed (between a) (next a) finally') :
    Meets allowed pre (code >>= next) finally' := by
  intro s before
  rcases first s before with ⟨a, s', ran, after⟩ | ⟨e, stopped, reason⟩
  · rw [StateRuns.bind_ok ran]
    exact rest a s' after
  · exact .inr ⟨e, StateRuns.bind_error stopped, reason⟩

theorem mono (code_meets : Meets allowed pre code post) (weaker : ∀ s, pre' s → pre s)
    (stronger : ∀ a s, post a s → post' a s) : Meets allowed pre' code post' := by
  intro s before
  rcases code_meets s (weaker s before) with ⟨a, s', ran, after⟩ | stopped
  · exact .inl ⟨a, s', ran, stronger a s' after⟩
  · exact .inr stopped

theorem after (code_meets : Meets allowed pre code post) (stronger : ∀ a s, post a s → post' a s) :
    Meets allowed pre code post' :=
  code_meets.mono (fun _ => id) stronger

theorem modified {change : σ → σ} {post : PUnit → σ → Prop}
    (keeps : ∀ s, pre s → post () (change s)) :
    Meets allowed pre (modify change) post :=
  fun s before => .inl ⟨(), change s, rfl, keeps s before⟩

/-- What is read from the state is that of a state before. -/
theorem reads {next : σ → StateT σ (Except ε) β}
    (rest : ∀ s, pre s → Meets allowed pre (next s) finally') :
    Meets allowed pre (get >>= next) finally' :=
  fun s before => rest s before s before

theorem lift {outcome : Except ε α}
    (holds : ∀ s, pre s → (∃ a, outcome = .ok a ∧ post a s) ∨ ∃ e, outcome = .error e ∧ allowed e) :
    Meets allowed pre (liftM outcome) post := by
  intro s before
  rcases holds s before with ⟨a, rfl, after⟩ | ⟨e, rfl, reason⟩
  · exact .inl ⟨a, s, rfl, after⟩
  · exact .inr ⟨e, rfl, reason⟩

theorem ite {c : Prop} [Decidable c] {other : StateT σ (Except ε) α}
    (yes : c → Meets allowed pre code post) (no : ¬c → Meets allowed pre other post) :
    Meets allowed pre (if c then code else other) post := by
  by_cases holds : c
  · rw [if_pos holds]
    exact yes holds
  · rw [if_neg holds]
    exact no holds

/-- A condition under which the code stops. -/
theorem guard {c : Prop} [Decidable c] {act : StateT σ (Except ε) PUnit}
    {rest : PUnit → StateT σ (Except ε) β} (yes : c → Meets allowed pre act fun _ _ => False)
    (go : ¬c → Meets allowed pre (rest ()) finally') :
    Meets allowed pre (if c then act >>= rest else rest ()) finally' :=
  .ite (fun holds => (yes holds).bind fun _ _ never => never.elim) go

end Meets

/-- The code keeps an invariant. As a class: instance search follows the structure of the code. -/
class Keeps (allowed : ε → Prop) (invariant : σ → Prop) (code : StateT σ (Except ε) α) : Prop where
  meets : Meets allowed invariant code fun _ => invariant

namespace Keeps
variable {allowed : ε → Prop} {invariant : σ → Prop} {code other : StateT σ (Except ε) α}
  {next : α → StateT σ (Except ε) β}

instance returns (a : α) : Keeps allowed invariant (pure a : StateT σ (Except ε) α) :=
  ⟨.returns fun _ => id⟩

instance reads : Keeps allowed invariant (get : StateT σ (Except ε) σ) :=
  ⟨fun s holds => .inl ⟨s, s, rfl, holds⟩⟩

instance bind [Keeps allowed invariant code] [∀ a, Keeps allowed invariant (next a)] :
    Keeps allowed invariant (code >>= next) :=
  ⟨meets.bind fun _ => meets⟩

instance ite {c : Prop} [Decidable c] [Keeps allowed invariant code] [Keeps allowed invariant other] :
    Keeps allowed invariant (if c then code else other) :=
  ⟨.ite (fun _ => meets) fun _ => meets⟩

instance map (f : α → β) [Keeps allowed invariant code] : Keeps allowed invariant (f <$> code) := by
  refine ⟨fun s holds => ?_⟩
  have mapped : (f <$> code) s = (code >>= fun a => pure (f a)) s := rfl
  rw [mapped]
  exact meets s holds

/-- A sequence of which instance search cannot follow the rest. -/
theorem seq [Keeps allowed invariant code] (rest : ∀ a, Keeps allowed invariant (next a)) :
    Keeps allowed invariant (code >>= next) :=
  bind

/-- The same for a choice. -/
theorem branch {c : Prop} [Decidable c] (yes : Keeps allowed invariant code)
    (no : Keeps allowed invariant other) :
    Keeps allowed invariant (if c then code else other) :=
  ite

end Keeps
end FsdFilter.CheckedRuns
