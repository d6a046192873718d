import Mathlib.Data.List.Nodup
import Mathlib.Logic.Function.Basic

/-! Overwriting some cells of a memory while saving what they held, and putting
it back. A table lists the cells, the place each old value is saved at and the
new value. The two loops that work through such a table one entry at a time
pass through the states described here: a patched prefix on the way in, a
patched suffix on the way out. -/
namespace FsdFilter.SlotPatch

/-- One overwritten cell: where it is, where its old value goes, what it gets. -/
structure Patch (A I B : Type) where
  addr : A
  index : I
  value : B
  deriving DecidableEq, Repr

variable {A I B : Type}

/-- No cell and no saving place occurs twice. -/
structure Separate (table : List (Patch A I B)) : Prop where
  addrs : (table.map (·.addr)).Nodup
  indices : (table.map (·.index)).Nodup

variable {table done rest : List (Patch A I B)} {p : Patch A I B} {mem : A → B} {a : A} {blank : B}

theorem Separate.tail (sep : Separate (p :: rest)) : Separate rest :=
  ⟨(List.nodup_cons.mp sep.addrs).2, (List.nodup_cons.mp sep.indices).2⟩

theorem Separate.head_addr (sep : Separate (p :: rest)) : ∀ q ∈ rest, q.addr ≠ p.addr := by
  intro q member same
  exact (List.nodup_cons.mp sep.addrs).1 (List.mem_map.mpr ⟨q, member, same⟩)

theorem Separate.head_index (sep : Separate (p :: rest)) : ∀ q ∈ rest, q.index ≠ p.index := by
  intro q member same
  exact (List.nodup_cons.mp sep.indices).1 (List.mem_map.mpr ⟨q, member, same⟩)

theorem Separate.suffix (sep : Separate (done ++ rest)) : Separate rest := by
  induction done with
  | nil => exact sep
  | cons q done ih => exact ih sep.tail

theorem Separate.sublist {part : List (Patch A I B)} (sep : Separate table)
    (some : part.Sublist table) : Separate part :=
  ⟨sep.addrs.sublist (some.map _), sep.indices.sublist (some.map _)⟩

theorem Separate.before (sep : Separate (done ++ p :: rest)) :
    ∀ q ∈ done, q.addr ≠ p.addr ∧ q.index ≠ p.index := by
  induction done with
  | nil => intro q member; cases member
  | cons r done ih =>
    intro q member
    rcases List.mem_cons.mp member with rfl | member
    · have later : p ∈ done ++ p :: rest := by simp
      exact ⟨(sep.head_addr p later).symm, (sep.head_index p later).symm⟩
    · exact ih sep.tail q member

section Memory
variable [DecidableEq A]

/-- The memory with every cell of the table overwritten. -/
def patched : List (Patch A I B) → (A → B) → A → B
  | [], mem => mem
  | p :: rest, mem => Function.update (patched rest mem) p.addr p.value

/-- Cells outside the table keep what they held. -/
theorem patched_other (outside : ∀ q ∈ table, q.addr ≠ a) : patched table mem a = mem a := by
  induction table with
  | nil => rfl
  | cons p rest ih =>
    rw [patched, Function.update_of_ne (Ne.symm (outside p List.mem_cons_self))]
    exact ih fun q member => outside q (List.mem_cons_of_mem _ member)

/-- Cells of the table hold what the table gives them. -/
theorem patched_at (sep : Separate table) (member : p ∈ table) :
    patched table mem p.addr = p.value := by
  induction table with
  | nil => cases member
  | cons q rest ih =>
    rcases List.mem_cons.mp member with rfl | member
    · simp [patched]
    · rw [patched, Function.update_of_ne (sep.head_addr p member)]
      exact ih sep.tail member

/-- A patched cell holds either what it held or what the table gives it. -/
theorem patched_cases (table : List (Patch A I B)) (mem : A → B) (a : A) :
    patched table mem a = mem a ∨ ∃ p ∈ table, p.addr = a ∧ patched table mem a = p.value := by
  induction table with
  | nil => exact .inl rfl
  | cons q rest ih =>
    by_cases same : a = q.addr
    · exact .inr ⟨q, List.mem_cons_self, same.symm, by simp [patched, same]⟩
    · rw [patched, Function.update_of_ne same]
      rcases ih with kept | ⟨p, member, at_, holds⟩
      · exact .inl kept
      · exact .inr ⟨p, List.mem_cons_of_mem _ member, at_, holds⟩

/-- Overwriting one more cell extends the patched prefix. -/
theorem patched_concat (sep : Separate (done ++ p :: rest)) :
    Function.update (patched done mem) p.addr p.value = patched (done ++ [p]) mem := by
  induction done with
  | nil => rfl
  | cons q done ih =>
    have apart : q.addr ≠ p.addr := (sep.before q List.mem_cons_self).1
    rw [patched, Function.update_comm apart, ih sep.tail, List.cons_append, patched]

/-- Putting back the first cell of a patched suffix leaves the rest patched. -/
theorem patched_restore (sep : Separate (p :: rest)) :
    Function.update (patched (p :: rest) mem) p.addr (mem p.addr) = patched rest mem := by
  have kept : patched rest mem p.addr = mem p.addr := patched_other sep.head_addr
  rw [patched, Function.update_idem, ← kept, Function.update_eq_self]

end Memory

section Saving
variable [DecidableEq I]

/-- The old values of the cells of the table, everything else blank. -/
def saved (blank : B) : List (Patch A I B) → (A → B) → I → B
  | [], _ => fun _ => blank
  | p :: rest, mem => Function.update (saved blank rest mem) p.index (mem p.addr)

/-- Every cell of the table has its old value saved. -/
theorem saved_at (sep : Separate table) (member : p ∈ table) :
    saved blank table mem p.index = mem p.addr := by
  induction table with
  | nil => cases member
  | cons q rest ih =>
    rcases List.mem_cons.mp member with rfl | member
    · simp [saved]
    · rw [saved, Function.update_of_ne (sep.head_index p member)]
      exact ih sep.tail member

/-- Places outside the table stay blank. -/
theorem saved_other {i : I} (outside : ∀ q ∈ table, q.index ≠ i) : saved blank table mem i = blank := by
  induction table with
  | nil => rfl
  | cons p rest ih =>
    rw [saved, Function.update_of_ne (Ne.symm (outside p List.mem_cons_self))]
    exact ih fun q member => outside q (List.mem_cons_of_mem _ member)

/-- Saving one more cell extends the saved prefix; what is saved is still the
value the untouched memory held. -/
theorem saved_concat [DecidableEq A] (sep : Separate (done ++ p :: rest)) :
    Function.update (saved blank done mem) p.index (patched done mem p.addr) =
      saved blank (done ++ [p]) mem := by
  have untouched : patched done mem p.addr = mem p.addr :=
    patched_other fun q member => (sep.before q member).1
  rw [untouched]
  clear untouched
  induction done with
  | nil => rfl
  | cons q done ih =>
    have apart : q.index ≠ p.index := (sep.before q List.mem_cons_self).2
    rw [saved, Function.update_comm apart, ih sep.tail, List.cons_append, saved]

end Saving

end FsdFilter.SlotPatch
