import Mathlib.Logic.Function.Basic
import Mathlib.Order.Basic

/-! Memory as blocks that remember their size. An allocation can be refused, and a
block is given back with the size it was allocated with. No address is used twice, so
that a block that was given back is never mistaken for another one. -/
namespace FsdFilter.SizedBlocks

/-- Where a block is. -/
abbrev Addr : Type := ℕ

/-- The blocks that are allocated, with their sizes. All are below the next address. -/
structure Blocks where
  fresh : Addr
  attempts : ℕ
  size : Addr → Option ℕ
  below : ∀ a, (size a).isSome = true → a < fresh

namespace Blocks

/-- Nothing was ever allocated. -/
def empty : Blocks where
  fresh := 0
  attempts := 0
  size _ := none
  below _ held := by cases held

/-- What an attempt that is granted leaves. -/
def granted (blocks : Blocks) (size : ℕ) : Blocks where
  fresh := blocks.fresh + 1
  attempts := blocks.attempts + 1
  size := Function.update blocks.size blocks.fresh (some size)
  below a held := by
    by_cases new : a = blocks.fresh
    · exact new ▸ Nat.lt_succ_self _
    · rw [Function.update_of_ne new] at held
      exact Nat.lt_succ_of_lt (blocks.below a held)

/-- The same blocks, after so many attempts. -/
def atAttempt (blocks : Blocks) (n : ℕ) : Blocks := { blocks with attempts := n }

/-- What an attempt that is refused leaves. -/
def refused (blocks : Blocks) : Blocks := blocks.atAttempt (blocks.attempts + 1)

/-- An attempt to allocate; `grants` tells which attempts succeed. -/
def allocate (grants : ℕ → Bool) (size : ℕ) (blocks : Blocks) : Option Addr × Blocks :=
  if grants blocks.attempts then (some blocks.fresh, blocks.granted size) else (none, blocks.refused)

/-- The blocks without those of a list. -/
def without (blocks : Blocks) (gone : List Addr) : Blocks where
  fresh := blocks.fresh
  attempts := blocks.attempts
  size a := if a ∈ gone then none else blocks.size a
  below a held := by
    by_cases taken : a ∈ gone
    · rw [if_pos taken] at held
      cases held
    · rw [if_neg taken] at held
      exact blocks.below a held

/-- Gives a block back: it must be allocated, with this size. -/
def free (a : Addr) (size : ℕ) (blocks : Blocks) : Option Blocks :=
  if blocks.size a = some size then some (blocks.without [a]) else none

/-- A block is allocated at the address. -/
def live (blocks : Blocks) (a : Addr) : Bool := (blocks.size a).isSome

theorem live_of_size {blocks : Blocks} {a : Addr} {size : ℕ} (allocated : blocks.size a = some size) :
    blocks.live a = true := by
  rw [live, allocated]
  rfl

theorem lt_fresh {blocks : Blocks} {a : Addr} (held : blocks.live a = true) : a < blocks.fresh :=
  blocks.below a held

theorem granted_new (blocks : Blocks) (size : ℕ) :
    (blocks.granted size).size blocks.fresh = some size :=
  Function.update_self ..

theorem granted_old {blocks : Blocks} {a : Addr} (old : a < blocks.fresh) (size : ℕ) :
    (blocks.granted size).size a = blocks.size a := Function.update_of_ne (Nat.ne_of_lt old) ..

theorem without_nil (blocks : Blocks) : blocks.without [] = blocks := by
  simp [without]

theorem without_append (blocks : Blocks) (gone more : List Addr) :
    blocks.without (gone ++ more) = (blocks.without gone).without more := by
  simp only [without, Blocks.mk.injEq, true_and]
  funext a
  by_cases first : a ∈ gone <;> simp [first]

theorem without_size {blocks : Blocks} {gone : List Addr} {a : Addr} (kept : a ∉ gone) :
    (blocks.without gone).size a = blocks.size a := if_neg kept

theorem without_gone {blocks : Blocks} {gone : List Addr} {a : Addr} (taken : a ∈ gone) :
    (blocks.without gone).size a = none := if_pos taken

/-- A block that was given back is not allocated. -/
theorem not_live_without {blocks : Blocks} {gone : List Addr} {a : Addr} (taken : a ∈ gone) :
    (blocks.without gone).live a = false := by
  rw [live, without_gone taken]
  rfl

/-- What is not allocated is not allocated when others are given back. -/
theorem without_not_live {blocks : Blocks} {a : Addr} (dead : blocks.live a = false)
    (gone : List Addr) :
    (blocks.without gone).live a = false := by
  by_cases taken : a ∈ gone
  · exact not_live_without taken
  · rwa [live, without_size taken]

theorem without_congr {blocks : Blocks} {gone gone' : List Addr} (same : ∀ a, a ∈ gone ↔ a ∈ gone') :
    blocks.without gone = blocks.without gone' := by
  simp only [without, same]

theorem free_eq {blocks : Blocks} {a : Addr} {size : ℕ} (allocated : blocks.size a = some size) :
    blocks.free a size = some (blocks.without [a]) := if_pos allocated

/-! ### Accounts -/

variable {blocks blocks' blocks'' : Blocks} {own own' own'' : List Addr}

/-- Whoever owned some blocks owns others now: what he lost was given back, what he
gained was allocated since, and nobody else's block changed. -/
structure Accounts (blocks : Blocks) (own : List Addr) (blocks' : Blocks)
    (own' : List Addr) : Prop where
  rest : ∀ a, a ∉ own → a ∉ own' → blocks'.size a = blocks.size a
  released : ∀ a ∈ own, a ∉ own' → blocks'.size a = none
  taken : ∀ a ∈ own', a ∈ own ∨ blocks.fresh ≤ a
  fresh : blocks.fresh ≤ blocks'.fresh

/-- No block is allocated at an address that was not handed out yet. -/
theorem size_of_fresh {a : Addr} (new : blocks.fresh ≤ a) : blocks.size a = none := by
  by_contra held
  exact Nat.not_lt_of_le new (blocks.below a (Option.isSome_iff_ne_none.mpr held))

namespace Accounts

theorem refl : Accounts blocks own blocks own :=
  ⟨fun _ _ _ => rfl, fun _ inside outside => absurd inside outside, fun _ inside => .inl inside,
    Nat.le_refl _⟩

theorem trans (first : Accounts blocks own blocks' own')
    (second : Accounts blocks' own' blocks'' own'') :
    Accounts blocks own blocks'' own'' := by
  refine ⟨fun a before after => ?_, fun a before after => ?_, fun a after => ?_,
    Nat.le_trans first.fresh second.fresh⟩
  · by_cases between : a ∈ own'
    · -- allocated since, and given back
      have new := (first.taken a between).resolve_left before
      rw [second.released a between after, size_of_fresh new]
    · rw [second.rest a between after, first.rest a before between]
  · by_cases between : a ∈ own'
    · exact second.released a between after
    · rw [second.rest a between after, first.released a before between]
  · rcases second.taken a after with between | new
    · exact first.taken a between
    · exact .inr (Nat.le_trans first.fresh new)

/-- Only which blocks are owned matters. -/
theorem congr {other other' : List Addr} (accounts : Accounts blocks own blocks' own')
    (same : ∀ a, a ∈ other ↔ a ∈ own) (same' : ∀ a, a ∈ other' ↔ a ∈ own') :
    Accounts blocks other blocks' other' := by
  refine ⟨fun a before after => ?_, fun a before after => ?_, fun a after => ?_, accounts.fresh⟩
  · exact accounts.rest a (mt (same a).mpr before) (mt (same' a).mpr after)
  · exact accounts.released a ((same a).mp before) (mt (same' a).mpr after)
  · exact (accounts.taken a ((same' a).mp after)).imp_left (same a).mpr

/-- Blocks of the owner that are not touched. -/
theorem append (accounts : Accounts blocks own blocks' own') (kept : List Addr) :
    Accounts blocks (own ++ kept) blocks' (own' ++ kept) := by
  refine ⟨fun a before after => ?_, fun a before after => ?_, fun a after => ?_, accounts.fresh⟩
  · rw [List.mem_append, not_or] at before after
    exact accounts.rest a before.1 after.1
  · rw [List.mem_append, not_or] at after
    exact accounts.released a ((List.mem_append.mp before).resolve_right after.2) after.1
  · rcases List.mem_append.mp after with after | kept
    · exact (accounts.taken a after).imp_left (List.mem_append_left _)
    · exact .inl (List.mem_append_right _ kept)

/-- A block is allocated. -/
theorem of_granted (blocks : Blocks) (size : ℕ) :
    Accounts blocks [] (blocks.granted size) [blocks.fresh] := by
  refine ⟨fun a _ other => ?_, fun _ none' => absurd none' List.not_mem_nil, fun a new => ?_,
    Nat.le_succ _⟩
  · exact Function.update_of_ne (fun same => other (List.mem_singleton.mpr same)) ..
  · exact .inr (Nat.le_of_eq (List.mem_singleton.mp new).symm)

/-- The number of attempts is no part of the accounts. -/
theorem atAttempt (accounts : Accounts blocks own blocks' own') (n : ℕ) :
    Accounts blocks own (blocks'.atAttempt n) own' :=
  ⟨accounts.rest, accounts.released, accounts.taken, accounts.fresh⟩

/-- Blocks are given back. -/
theorem of_without (blocks : Blocks) (gone : List Addr) :
    Accounts blocks gone (blocks.without gone) [] :=
  ⟨fun _ kept _ => without_size kept, fun _ taken _ => without_gone taken,
    fun _ none' => absurd none' List.not_mem_nil, Nat.le_refl _⟩

/-- In the end nothing is left of what was allocated since. -/
theorem balanced (accounts : Accounts blocks [] blocks' []) : blocks'.size = blocks.size :=
  funext fun a => accounts.rest a List.not_mem_nil List.not_mem_nil

end Accounts
end Blocks
end FsdFilter.SizedBlocks
