import FsdFilter.Interleaving

/-! A reader-writer lock shared by any number of threads. A program point is in
one `Mode`; a lock is in step with the threads when it counts exactly those
whose point is in that mode. From that follows the exclusion every protected
section relies on. -/
namespace FsdFilter.ReaderWriterLock
open Interleaving

/-- How a program point holds the lock. -/
inductive Mode where
  | free | shared | exclusive
  deriving DecidableEq, Repr

def Mode.reading : Mode → ℕ
  | .shared => 1
  | _ => 0

def Mode.writing : Mode → ℕ
  | .exclusive => 1
  | _ => 0

/-- The lock: how many threads read under it and whether one writes. -/
structure RwLock where
  readers : ℕ
  writer : Bool
  deriving DecidableEq, Repr

namespace RwLock

/-- The lock nobody holds. -/
def unlocked : RwLock := ⟨0, false⟩

/-- A reader gets the lock when nobody writes. -/
def lockRead (lock : RwLock) : Option RwLock :=
  if lock.writer then none else some { lock with readers := lock.readers + 1 }

/-- A writer gets the lock when nobody holds it. -/
def lockWrite (lock : RwLock) : Option RwLock :=
  if lock.writer || lock.readers ≠ 0 then none else some { lock with writer := true }

/-- A reader gets the lock only while nobody writes. -/
theorem writer_of_lockRead {lock lock' : RwLock} (taken : lock.lockRead = some lock') :
    lock.writer = false := by
  unfold lockRead at taken
  split at taken
  · cases taken
  · rename_i unwritten
    simpa using unwritten

/-- The holder gives the lock back. -/
def unlock (lock : RwLock) : Mode → RwLock
  | .free => lock
  | .shared => { lock with readers := lock.readers - 1 }
  | .exclusive => { lock with writer := false }

/-- A lock is never read and written at once. -/
def Exclusive (lock : RwLock) : Prop := lock.writer = true → lock.readers = 0

end RwLock

/-- What one step of a thread in `mode` can do to the lock, and the mode it is in
afterwards. -/
inductive LockStep (lock : RwLock) : Mode → RwLock → Mode → Prop where
  | keep {mode : Mode} : LockStep lock mode lock mode
  | read {lock' : RwLock} (taken : lock.lockRead = some lock') : LockStep lock .free lock' .shared
  | write {lock' : RwLock} (taken : lock.lockWrite = some lock') : LockStep lock .free lock' .exclusive
  | release {mode : Mode} : LockStep lock mode (lock.unlock mode) .free

/-- One thread going from one mode to another, as the lock sees it. -/
structure Moves (lock lock' : RwLock) (mode mode' : Mode) : Prop where
  readers : lock'.readers + mode.reading = lock.readers + mode'.reading
  writer : lock'.writer.toNat + mode.writing = lock.writer.toNat + mode'.writing
  exclusive : lock.Exclusive → lock'.Exclusive

private theorem moves_lockRead {lock lock' : RwLock} (taken : lock.lockRead = some lock') :
    Moves lock lock' .free .shared := by
  unfold RwLock.lockRead at taken
  split at taken
  · cases taken
  · rename_i unwritten
    cases taken
    refine ⟨by simp [Mode.reading], by simp [Mode.writing], fun _ written => ?_⟩
    exact absurd written unwritten

private theorem moves_lockWrite {lock lock' : RwLock} (taken : lock.lockWrite = some lock') :
    Moves lock lock' .free .exclusive := by
  unfold RwLock.lockWrite at taken
  split at taken
  · cases taken
  · rename_i unheld
    cases taken
    simp only [ne_eq, Bool.or_eq_true, decide_eq_true_eq, not_or, Bool.not_eq_true,
      not_not] at unheld
    exact ⟨by simp [Mode.reading], by simp [Mode.writing, unheld.1], fun _ _ => unheld.2⟩

private theorem moves_unlock {lock : RwLock} {mode : Mode} (reads : mode.reading ≤ lock.readers)
    (writes : mode.writing ≤ lock.writer.toNat) : Moves lock (lock.unlock mode) mode .free := by
  cases mode with
  | free => exact ⟨rfl, rfl, id⟩
  | shared =>
    refine ⟨by simp [RwLock.unlock, Mode.reading] at reads ⊢; omega, rfl, fun alone written => ?_⟩
    have zero := alone written
    simp [RwLock.unlock, zero]
  | exclusive =>
    cases held : lock.writer with
    | false => simp [Mode.writing, held] at writes
    | true =>
      exact ⟨rfl, by
        simp [RwLock.unlock, Mode.writing, held], fun _ => by simp [RwLock.unlock, RwLock.Exclusive]⟩

variable {P T : Type} [Fintype T]

/-- The lock counts exactly the threads that hold it. -/
structure InStep (lock : RwLock) (mode : P → Mode) (pc : T → P) : Prop where
  readers : lock.readers = tally (fun p => (mode p).reading) pc
  writer : lock.writer.toNat = tally (fun p => (mode p).writing) pc
  exclusive : lock.Exclusive

theorem InStep.unlocked {mode : P → Mode} {pc : T → P} (free : ∀ t, mode (pc t) = .free) :
    InStep RwLock.unlocked mode pc :=
  ⟨(tally_eq_zero fun t => by rw [free t]; rfl).symm,
    (tally_eq_zero fun t => by rw [free t]; rfl).symm, fun _ => rfl⟩

variable {lock lock' : RwLock} {mode : P → Mode} {pc : T → P} {t u : T} {point : P}

/-- Whoever writes under the lock is counted by it. -/
theorem InStep.writer_of_exclusive (inStep : InStep lock mode pc)
    (holds : mode (pc t) = .exclusive) : lock.writer = true := by
  have counted := le_tally (fun p => (mode p).writing) pc t
  rw [holds, ← inStep.writer] at counted
  cases written : lock.writer with
  | true => rfl
  | false => simp [written, Mode.writing] at counted

theorem InStep.free_of_unheld (inStep : InStep lock mode pc) (unwritten : lock.writer = false) :
    mode (pc t) ≠ .exclusive := by
  intro holds
  rw [inStep.writer_of_exclusive holds] at unwritten
  cases unwritten

variable [DecidableEq T]

private theorem InStep.moved (inStep : InStep lock mode pc)
    (moves : Moves lock lock' (mode (pc t)) (mode point)) :
    InStep lock' mode (Function.update pc t point) := by
  have readers := tally_update (fun p => (mode p).reading) pc t point
  have writers := tally_update (fun p => (mode p).writing) pc t point
  have readersMoved := moves.readers
  have writerMoved := moves.writer
  have readersBefore := inStep.readers
  have writerBefore := inStep.writer
  exact ⟨by omega, by omega, moves.exclusive inStep.exclusive⟩

/-- The lock stays in step with every step of a thread. -/
theorem InStep.stepped (inStep : InStep lock mode pc)
    (stepped : LockStep lock (mode (pc t)) lock' (mode point)) :
    InStep lock' mode (Function.update pc t point) := by
  have reading := inStep.readers ▸ le_tally (fun p => (mode p).reading) pc t
  have writing := inStep.writer ▸ le_tally (fun p => (mode p).writing) pc t
  apply inStep.moved
  generalize mode (pc t) = before at *
  generalize mode point = after at *
  cases stepped with
  | keep => exact ⟨rfl, rfl, id⟩
  | read taken => exact moves_lockRead taken
  | write taken => exact moves_lockWrite taken
  | release => exact moves_unlock reading writing

/-- **Exclusion.** While one thread writes, no other thread holds the lock. -/
theorem InStep.alone (inStep : InStep lock mode pc) (holds : mode (pc t) = .exclusive)
    (other : u ≠ t) : mode (pc u) = .free := by
  have noReader : tally (fun p => (mode p).reading) pc = 0 := by
    rw [← inStep.readers]
    exact inStep.exclusive (inStep.writer_of_exclusive holds)
  have oneWriter : tally (fun p => (mode p).writing) pc ≤ 1 := by
    rw [← inStep.writer]
    exact Bool.toNat_le lock.writer
  have reading := le_tally (fun p => (mode p).reading) pc u
  have writing := add_le_tally (fun p => (mode p).writing) pc other
  rw [noReader] at reading
  simp only [holds] at writing
  cases held : mode (pc u) with
  | free => rfl
  | shared => simp [held, Mode.reading] at reading
  | exclusive =>
    simp only [held] at writing
    have one : Mode.exclusive.writing = 1 := rfl
    omega

/-- While one thread holds the lock in either way, no other one writes. -/
theorem InStep.unwritten (inStep : InStep lock mode pc) (holds : mode (pc t) ≠ .free) (other : u ≠ t) :
    mode (pc u) ≠ .exclusive :=
  fun writes => holds (inStep.alone writes other.symm)

end FsdFilter.ReaderWriterLock
