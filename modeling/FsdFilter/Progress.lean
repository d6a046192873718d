import FsdFilter.ReaderWriterLock

/-! When threads get done. Each step that a thread takes inside a call counts down the work
that is left of it, so a call has a bounded number of steps whatever the other threads do.
Where threads wait for one reader-writer lock only, some thread inside a call can go on. -/
namespace FsdFilter.Progress
open Interleaving ReaderWriterLock

variable {S P A F T : Type}

/-! ### Runs with their steps -/

section Steps
variable [DecidableEq T] {sys : System S P A F} {ok : Guard S P T A} {start c c' : Config S P T}
  {schedule : List (T × A)}

/-- The steps of a schedule, one after the other, each one admitted. -/
inductive Runs (sys : System S P A F) (ok : Guard S P T A) :
    Config S P T → List (T × A) → Config S P T → Prop where
  | nil {c : Config S P T} : Runs sys ok c [] c
  | cons {c middle c' : Config S P T} {t : T} {a : A} {rest : List (T × A)} (admitted : ok c t a)
      (moved : sys.advance c t a = .next middle) (later : Runs sys ok middle rest c') :
      Runs sys ok c ((t, a) :: rest) c'

/-- A run from a reached configuration reaches its end. -/
theorem Runs.reaches (run : Runs sys ok c schedule c') (reached : Reaches sys anyStep start c) :
    Reaches sys anyStep start c' := by
  induction run with
  | nil => exact reached
  | cons _ moved _ ih => exact ih (.step reached trivial moved)

/-- What every step keeps holds at the end of a run. -/
theorem Runs.invariant (run : Runs sys ok c schedule c') (Inv : Config S P T → Prop) (initially : Inv c)
    (kept : ∀ c t a c', Inv c → sys.advance c t a = .next c' → Inv c') : Inv c' := by
  induction run with
  | nil => exact initially
  | cons _ moved _ ih => exact ih (kept _ _ _ _ initially moved)

/-! ### Bounded work -/

/-- Only threads inside a call take steps. -/
def working (busy : P → Bool) : Guard S P T A := fun c t _ => busy (c.pc t) = true

/-- One thread makes no new call; the others do what they like. -/
def staysIn (busy : P → Bool) (t : T) : Guard S P T A := fun c u _ => u = t → busy (c.pc u) = true

/-- Each step inside a call leaves less work. -/
def CountsDown (sys : System S P A F) (busy : P → Bool) (work : P → ℕ) : Prop :=
  ∀ s p a s' p', busy p = true → sys.step s p a = .next (s', p') → work p' < work p

variable {busy : P → Bool} {work : P → ℕ}

/-- A thread takes no more steps inside a call than there is work, whatever the others do. -/
theorem CountsDown.own_steps (down : CountsDown sys busy work) {t : T}
    (run : Runs sys (staysIn busy t) c schedule c') :
    schedule.countP (·.1 = t) + work (c'.pc t) ≤ work (c.pc t) := by
  induction run with
  | nil => simp
  | @cons c middle c' u a rest admitted moved _ ih =>
    obtain ⟨point, stepped, points⟩ := System.advance_next moved
    by_cases own : u = t
    · subst own
      have less := down _ _ _ _ _ (admitted rfl) stepped
      simp only [points, Function.update_self] at ih
      simp only [List.countP_cons, decide_true, if_true]
      omega
    · simp only [points, Function.update_of_ne (Ne.symm own)] at ih
      simpa [List.countP_cons, own] using ih

/-- All threads together take no more steps than there is work, when no call is made. -/
theorem CountsDown.all_steps [Fintype T] (down : CountsDown sys busy work)
    (run : Runs sys (working busy) c schedule c') :
    schedule.length + tally work c'.pc ≤ tally work c.pc := by
  induction run with
  | nil => simp
  | @cons c middle c' u a rest admitted moved _ ih =>
    obtain ⟨point, stepped, points⟩ := System.advance_next moved
    have less := down _ _ _ _ _ admitted stepped
    have total := tally_update work c.pc u point
    rw [points] at ih
    simp only [List.length_cons]
    omega

omit [DecidableEq T] in
theorem tally_le [Fintype T] {pc : T → P} {bound : ℕ} (each : ∀ t, work (pc t) ≤ bound) :
    tally work pc ≤ Fintype.card T * bound := by
  have sum : ∑ t, work (pc t) ≤ Finset.univ.card • bound :=
    Finset.sum_le_card_nsmul _ _ _ fun t _ => each t
  simpa [tally] using sum

end Steps

/-! ### One lock -/

section Waiting
variable {sys : System S P A F} {lock : S → RwLock} {mode : P → Mode} {busy : P → Bool}
  {c : Config S P T}

/-- The only waiting is for the lock: a holder goes on, and everybody does when the lock is
free. -/
structure WaitsForLock (sys : System S P A F) (lock : S → RwLock) (mode : P → Mode)
    (busy : P → Bool) : Prop where
  inCall : ∀ p, mode p ≠ .free → busy p = true
  holder : ∀ s p, mode p ≠ .free → ∃ a, sys.step s p a ≠ .blocked
  others : ∀ s p, busy p = true → lock s = .unlocked → ∃ a, sys.step s p a ≠ .blocked

theorem advance_blocked_iff [DecidableEq T] {t : T} {a : A} :
    sys.advance c t a = .blocked ↔ sys.step c.shared (c.pc t) a = .blocked := by
  unfold System.advance
  cases sys.step c.shared (c.pc t) a <;> simp

variable [Fintype T]

theorem unlocked_of_free {l : RwLock} {pc : T → P} (inStep : InStep l mode pc)
    (free : ∀ t, mode (pc t) = .free) :
    l = .unlocked := by
  have readers : l.readers = 0 := inStep.readers.trans (tally_eq_zero fun t => by rw [free t]; rfl)
  have writer : l.writer.toNat = 0 := inStep.writer.trans (tally_eq_zero fun t => by rw [free t]; rfl)
  obtain ⟨r, w⟩ := l
  cases w with
  | false => exact congrArg (RwLock.mk · false) readers
  | true => cases writer

variable [DecidableEq T]

/-- **No deadlock.** While some thread is inside a call, some thread inside a call can go on. -/
theorem WaitsForLock.exists_unblocked (waits : WaitsForLock sys lock mode busy)
    (inStep : InStep (lock c.shared) mode c.pc) (someBusy : ∃ t, busy (c.pc t) = true) :
    ∃ t a, busy (c.pc t) = true ∧ sys.advance c t a ≠ .blocked := by
  by_cases held : ∃ t, mode (c.pc t) ≠ .free
  · obtain ⟨t, holds⟩ := held
    obtain ⟨a, goes⟩ := waits.holder c.shared (c.pc t) holds
    exact ⟨t, a, waits.inCall _ holds, advance_blocked_iff.not.mpr goes⟩
  · obtain ⟨t, inCall⟩ := someBusy
    have free : ∀ u, mode (c.pc u) = .free := fun u => by_contra fun holds => held ⟨u, holds⟩
    obtain ⟨a, goes⟩ := waits.others c.shared (c.pc t) inCall (unlocked_of_free inStep free)
    exact ⟨t, a, inCall, advance_blocked_iff.not.mpr goes⟩

end Waiting
end FsdFilter.Progress
