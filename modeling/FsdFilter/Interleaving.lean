import Mathlib.Algebra.BigOperators.Group.Finset.Piecewise
import Mathlib.Algebra.Order.BigOperators.Group.Finset
import Mathlib.Data.Fintype.Basic
import Mathlib.Logic.Relation

/-! Threads that share a state and interleave one atomic step at a time. A
`System` is the code one thread runs; a configuration gives every thread its
own program point. Nothing here is about a particular program: the rules are
the induction over a run, the accounting rule for quantities that threads hold
in pieces, and the projection of a run observed by a ghost state. -/
namespace FsdFilter.Interleaving

/-- What one atomic step of a thread can do: wait, stop the machine on an
illegal access, or move on. -/
inductive Outcome (F α : Type) where
  | blocked
  | fault (reason : F)
  | next (result : α)
  deriving DecidableEq, Repr

/-- The code of one thread: from the shared state, its program point and the
choice the environment makes, to the next shared state and program point. -/
structure System (S P A F : Type) where
  step : S → P → A → Outcome F (S × P)

/-- The shared state and the program point of every thread. -/
structure Config (S P T : Type) where
  shared : S
  pc : T → P

variable {S P A F G T : Type}

section Runs
variable [DecidableEq T]

/-- Thread `t` takes one step; the other threads keep their program points. -/
def System.advance (sys : System S P A F) (c : Config S P T) (t : T) (a : A) :
    Outcome F (Config S P T) :=
  match sys.step c.shared (c.pc t) a with
  | .blocked => .blocked
  | .fault reason => .fault reason
  | .next (shared, point) => .next ⟨shared, Function.update c.pc t point⟩

theorem System.advance_next {sys : System S P A F} {c c' : Config S P T} {t : T} {a : A}
    (moved : sys.advance c t a = .next c') :
    ∃ point, sys.step c.shared (c.pc t) a = .next (c'.shared, point) ∧
      c'.pc = Function.update c.pc t point := by
  unfold System.advance at moved
  split at moved
  · cases moved
  · cases moved
  · rename_i shared point stepped
    cases moved
    exact ⟨point, stepped, rfl⟩

theorem System.advance_fault {sys : System S P A F} {c : Config S P T} {t : T} {a : A} {reason : F}
    (stopped : sys.advance c t a = .fault reason) :
    sys.step c.shared (c.pc t) a = .fault reason := by
  unfold System.advance at stopped
  split at stopped
  · cases stopped
  · rename_i stepped
    cases stopped
    exact stepped
  · cases stopped

/-- A condition on the steps of a run, read before the step is taken. -/
abbrev Guard (S P T A : Type) : Type := Config S P T → T → A → Prop

/-- Every step of every run is admitted. -/
def anyStep : Guard S P T A := fun _ _ _ => True

instance (c : Config S P T) (t : T) (a : A) : Decidable (anyStep c t a) := isTrue trivial

/-- The configurations reached from `start` by steps that all meet `ok`, taken
by any threads in any order. -/
inductive Reaches (sys : System S P A F) (ok : Guard S P T A) (start : Config S P T) :
    Config S P T → Prop where
  | start : Reaches sys ok start start
  | step {c c' : Config S P T} {t : T} {a : A} (before : Reaches sys ok start c)
      (admitted : ok c t a) (moved : sys.advance c t a = .next c') : Reaches sys ok start c'

/-- **The invariant rule.** What the start satisfies and every admitted step
keeps holds in every reached configuration. -/
theorem Reaches.invariant {sys : System S P A F} {ok : Guard S P T A} {start c : Config S P T}
    (reached : Reaches sys ok start c) (Inv : Config S P T → Prop) (initially : Inv start)
    (kept : ∀ c t a c', Inv c → ok c t a → sys.advance c t a = .next c' → Inv c') : Inv c := by
  induction reached with
  | start => exact initially
  | step _ admitted moved ih => exact kept _ _ _ _ ih admitted moved

section Replay
variable (sys : System S P A F) (ok : Guard S P T A) [∀ c t a, Decidable (ok c t a)]

/-- Runs the steps of a schedule in order, each one admitted. -/
def System.replay : List (T × A) → Config S P T → Option (Config S P T)
  | [], c => some c
  | (t, a) :: rest, c =>
    if ok c t a then
      match sys.advance c t a with
      | .next c' => replay rest c'
      | _ => none
    else none

variable {sys ok} {start : Config S P T}

/-- A schedule that replays is a run. -/
theorem reaches_of_replay (schedule : List (T × A)) {c c' : Config S P T}
    (reached : Reaches sys ok start c) (replayed : sys.replay ok schedule c = some c') :
    Reaches sys ok start c' := by
  induction schedule generalizing c with
  | nil => cases replayed; exact reached
  | cons head rest ih =>
    obtain ⟨t, a⟩ := head
    simp only [System.replay] at replayed
    split_ifs at replayed with admitted
    cases moved : sys.advance c t a with
    | next middle =>
      rw [moved] at replayed
      exact ih (.step reached admitted moved) replayed
    | blocked => rw [moved] at replayed; cases replayed
    | fault reason => rw [moved] at replayed; cases replayed

/-- A schedule of one step. -/
theorem System.advance_of_replay {c c' : Config S P T} {t : T} {a : A}
    (replayed : sys.replay ok [(t, a)] c = some c') : sys.advance c t a = .next c' := by
  simp only [System.replay] at replayed
  split_ifs at replayed with admitted
  cases moved : sys.advance c t a with
  | next middle =>
    rw [moved] at replayed
    cases replayed
    rfl
  | blocked => rw [moved] at replayed; cases replayed
  | fault reason => rw [moved] at replayed; cases replayed

variable (sys ok start)

/-- A schedule that ends where `p` holds reaches such a configuration. -/
theorem exists_reached_of_replay (schedule : List (T × A)) (p : Config S P T → Bool)
    (ends : (sys.replay ok schedule start).map p = some true) :
    ∃ c, Reaches sys ok start c ∧ p c = true := by
  cases replayed : sys.replay ok schedule start with
  | none => rw [replayed] at ends; cases ends
  | some c =>
    rw [replayed] at ends
    exact ⟨c, reaches_of_replay schedule .start replayed, Option.some.inj ends⟩

end Replay

/-- What the code of one thread brings about while no other thread moves. -/
def System.Alone (sys : System S P A F) : S × P → S × P → Prop :=
  Relation.ReflTransGen fun before after => ∃ a, sys.step before.1 before.2 a = .next after

/-- What a thread brings about alone is a run in every configuration. -/
theorem System.Alone.reaches {sys : System S P A F} {c : Config S P T} {t : T} {after : S × P}
    (alone : sys.Alone (c.shared, c.pc t) after) :
    Reaches sys anyStep c ⟨after.1, Function.update c.pc t after.2⟩ := by
  induction alone with
  | refl =>
    rw [Function.update_eq_self]
    exact .start
  | @tail middle after _ moved ih =>
    obtain ⟨a, stepped⟩ := moved
    refine .step (t := t) (a := a) ih trivial ?_
    simp only [System.advance, Function.update_self, stepped, Function.update_idem]

end Runs

/-! ### Ghost observation -/

section Ghost

/-- The same code observed by a ghost state: `observe` sees each step before it
is taken, may refuse it, and never influences what the step does. -/
def System.observed (sys : System S P A F) (observe : G → P → A → Option G) :
    System (S × G) P A F where
  step s p a :=
    match observe s.2 p a with
    | none => .blocked
    | some ghost =>
      match sys.step s.1 p a with
      | .blocked => .blocked
      | .fault reason => .fault reason
      | .next (shared, point) => .next ((shared, ghost), point)

theorem System.observed_next {sys : System S P A F} {observe : G → P → A → Option G}
    {s s' : S × G} {p p' : P} {a : A} (stepped : (sys.observed observe).step s p a = .next (s', p')) :
    observe s.2 p a = some s'.2 ∧ sys.step s.1 p a = .next (s'.1, p') := by
  simp only [System.observed] at stepped
  split at stepped
  · cases stepped
  · rename_i ghost seen
    split at stepped
    · cases stepped
    · cases stepped
    · rename_i inner
      cases stepped
      exact ⟨seen, inner⟩

/-- The configuration without the ghost state. -/
def Config.erase (c : Config (S × G) P T) : Config S P T := ⟨c.shared.1, c.pc⟩

variable [DecidableEq T]

theorem System.observed_advance {sys : System S P A F} {observe : G → P → A → Option G}
    {c c' : Config (S × G) P T} {t : T} {a : A}
    (moved : (sys.observed observe).advance c t a = .next c') :
    observe c.shared.2 (c.pc t) a = some c'.shared.2 ∧
      sys.advance c.erase t a = .next c'.erase := by
  obtain ⟨point, stepped, points⟩ := System.advance_next moved
  obtain ⟨seen, inner⟩ := System.observed_next stepped
  refine ⟨seen, ?_⟩
  simp only [System.advance, Config.erase, inner, points]

/-- An observed run is a run of the code itself. -/
theorem Reaches.erase {sys : System S P A F} {observe : G → P → A → Option G}
    {ok : Guard (S × G) P T A} {start c : Config (S × G) P T}
    (reached : Reaches (sys.observed observe) ok start c) :
    Reaches sys anyStep start.erase c.erase := by
  induction reached with
  | start => exact .start
  | step _ _ moved ih => exact .step ih trivial (System.observed_advance moved).2

end Ghost

/-! ### Records -/

section Record

/-- The same code with a record of its steps: `record` sees the shared state and the
program point that a step is taken from, and never influences what the step does. -/
def System.recorded (sys : System S P A F) (record : S → P → G → G) : System (S × G) P A F where
  step s p a :=
    match sys.step s.1 p a with
    | .blocked => .blocked
    | .fault reason => .fault reason
    | .next (shared, point) => .next ((shared, record s.1 p s.2), point)

theorem System.recorded_next {sys : System S P A F} {record : S → P → G → G} {s s' : S × G}
    {p p' : P} {a : A} :
    (sys.recorded record).step s p a = .next (s', p') ↔
      sys.step s.1 p a = .next (s'.1, p') ∧ s'.2 = record s.1 p s.2 := by
  obtain ⟨shared, recorded⟩ := s'
  simp only [System.recorded]
  cases sys.step s.1 p a with
  | blocked | fault => simp
  | next result =>
    obtain ⟨next, point⟩ := result
    simp only [Outcome.next.injEq, Prod.mk.injEq]
    constructor
    · rintro ⟨⟨rfl, rfl⟩, rfl⟩
      exact ⟨⟨rfl, rfl⟩, rfl⟩
    · rintro ⟨⟨rfl, rfl⟩, rfl⟩
      exact ⟨⟨rfl, rfl⟩, rfl⟩

variable [DecidableEq T]

theorem System.recorded_advance {sys : System S P A F} {record : S → P → G → G}
    {c c' : Config (S × G) P T} {t : T} {a : A}
    (moved : (sys.recorded record).advance c t a = .next c') :
    c'.shared.2 = record c.shared.1 (c.pc t) c.shared.2 ∧ sys.advance c.erase t a = .next c'.erase := by
  obtain ⟨point, stepped, points⟩ := System.advance_next moved
  obtain ⟨inner, recorded⟩ := System.recorded_next.mp stepped
  refine ⟨recorded, ?_⟩
  simp only [System.advance, Config.erase, inner, points]

end Record

/-! ### Projection -/

section Projection
variable {P' A' : Type}

/-- The configuration with less said about every program point. -/
def Config.project (f : P' → P) (c : Config S P' T) : Config S P T := ⟨c.shared, fun t => f (c.pc t)⟩

variable [DecidableEq T]

/-- **The projection rule.** When every step of a system is a step of another one
on the projected program points, or nothing, its runs are runs of the other one;
a condition that does not look at the choices is met along with its projection. -/
theorem Reaches.project {outer : System S P' A' F} {inner : System S P A F} {f : P' → P}
    {ok : Config S P T → T → Prop} {start c : Config S P' T}
    (simulates : ∀ s p a s' p', outer.step s p a = .next (s', p') →
      (s' = s ∧ f p' = f p) ∨ ∃ b, inner.step s (f p) b = .next (s', f p'))
    (reached : Reaches outer (fun c t _ => ok (c.project f) t) start c) :
    Reaches inner (fun c t _ => ok c t) (start.project f) (c.project f) := by
  induction reached with
  | start => exact .start
  | @step c c' t a _ admitted moved ih =>
    obtain ⟨point, stepped, points⟩ := System.advance_next moved
    have projected : c'.project f = ⟨c'.shared, Function.update (c.project f).pc t (f point)⟩ := by
      simp only [Config.project, points]
      congr
      funext u
      by_cases self : u = t
      · subst self; simp
      · simp [self]
    rcases simulates _ _ _ _ _ stepped with ⟨same, still⟩ | ⟨b, inside⟩
    · have unchanged : c'.project f = c.project f := by
        rw [projected, same, still]
        simp only [Config.project, Function.update_eq_self]
      rw [unchanged]
      exact ih
    · refine .step (a := b) ih admitted ?_
      rw [projected]
      simp only [System.advance, Config.project, inside]

end Projection

/-! ### Accounting over all threads -/

section Tally
variable [Fintype T]

/-- The total of what the threads hold, `f` telling it of one program point. -/
def tally (f : P → ℕ) (pc : T → P) : ℕ := ∑ t, f (pc t)

theorem le_tally (f : P → ℕ) (pc : T → P) (t : T) : f (pc t) ≤ tally f pc :=
  Finset.single_le_sum (f := fun t => f (pc t)) (fun _ _ => Nat.zero_le _) (Finset.mem_univ t)

theorem tally_eq_zero {f : P → ℕ} {pc : T → P} (none : ∀ t, f (pc t) = 0) : tally f pc = 0 :=
  Finset.sum_eq_zero fun t _ => none t

variable [DecidableEq T]

/-- One thread's move changes the total by its own difference. -/
theorem tally_update (f : P → ℕ) (pc : T → P) (t : T) (point : P) :
    tally f (Function.update pc t point) + f (pc t) = tally f pc + f point := by
  have moved : ∀ u, f (Function.update pc t point u) =
      Function.update (fun u => f (pc u)) t (f point) u := by
    intro u
    by_cases same : u = t
    · subst u; simp
    · simp [same]
  have before := Finset.sum_update_of_mem (Finset.mem_univ t) (fun u => f (pc u)) (f (pc t))
  have after := Finset.sum_update_of_mem (Finset.mem_univ t) (fun u => f (pc u)) (f point)
  rw [Function.update_eq_self] at before
  simp only [tally, moved]
  omega

/-- Two different threads hold their pieces side by side. -/
theorem add_le_tally (f : P → ℕ) (pc : T → P) {t u : T} (different : t ≠ u) :
    f (pc t) + f (pc u) ≤ tally f pc := by
  have pair := Finset.sum_le_sum_of_subset (f := fun t => f (pc t))
    (Finset.subset_univ ({t, u} : Finset T))
  rw [Finset.sum_pair different] at pair
  exact pair

end Tally

end FsdFilter.Interleaving
