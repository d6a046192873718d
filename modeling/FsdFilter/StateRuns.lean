import Mathlib.Logic.Function.Basic

/-! Computations that change a state or fail: how a sequence runs, and what holds of the
runs that return. -/
namespace FsdFilter.StateRuns

variable {σ ε α β : Type} {s middle : σ}

theorem bind_ok {first : StateT σ (Except ε) α} {next : α → StateT σ (Except ε) β} {a : α}
    (ran : first s = .ok (a, middle)) : (first >>= next) s = next a middle := by
  simp only [bind, StateT.bind, Except.bind, ran]

theorem bind_error {first : StateT σ (Except ε) α} {next : α → StateT σ (Except ε) β} {fault : ε}
    (stopped : first s = .error fault) : (first >>= next) s = .error fault := by
  simp only [bind, StateT.bind, Except.bind, stopped]

/-- A sequence that returns is a first computation that returned and a second one. -/
theorem of_bind_ok {first : StateT σ (Except ε) α} {next : α → StateT σ (Except ε) β}
    {result : β × σ} (ran : (first >>= next) s = .ok result) :
    ∃ a middle, first s = .ok (a, middle) ∧ next a middle = .ok result := by
  cases ranFirst : first s with
  | error fault => cases (bind_error ranFirst).symm.trans ran
  | ok found =>
    rw [bind_ok ranFirst] at ran
    exact ⟨found.1, found.2, rfl, ran⟩

theorem pure_run (a : α) : (pure a : StateT σ (Except ε) α) s = .ok (a, s) := rfl

theorem get_bind (next : σ → StateT σ (Except ε) β) :
    ((get : StateT σ (Except ε) σ) >>= next) s = next s s := rfl

theorem pure_bind_run (a : α) (next : α → StateT σ (Except ε) β) :
    ((pure a : StateT σ (Except ε) α) >>= next) s = next a s := rfl

/-- What holds of the result whenever there is one. -/
def Ensures (code : StateT σ (Except ε) α) (s : σ) (holds : α → σ → Prop) : Prop :=
  ∀ a s', code s = .ok (a, s') → holds a s'

namespace Ensures
variable {code : StateT σ (Except ε) α} {next : α → StateT σ (Except ε) β}
  {holds : α → σ → Prop} {finally' : β → σ → Prop} {a : α} {s' : σ}

theorem of_ok (ran : code s = .ok (a, s')) (result : holds a s') : Ensures code s holds := by
  intro a₁ s₁ ran₁
  cases ran.symm.trans ran₁
  exact result

theorem of_error {fault : ε} (stopped : code s = .error fault) : Ensures code s holds := by
  intro a₁ s₁ ran₁
  cases stopped.symm.trans ran₁

theorem after (ran : code s = .ok (a, s')) (rest : Ensures (next a) s' finally') :
    Ensures (code >>= next) s finally' := by
  intro b s₂ ran₂
  rw [bind_ok ran] at ran₂
  exact rest b s₂ ran₂

theorem bind (first : Ensures code s holds) (rest : ∀ a s', holds a s' → Ensures (next a) s' finally') :
    Ensures (code >>= next) s finally' := by
  intro b s₂ ran
  obtain ⟨a, s₁, ran₁, ran₂⟩ := of_bind_ok ran
  exact rest a s₁ (first a s₁ ran₁) b s₂ ran₂

end Ensures
end FsdFilter.StateRuns
