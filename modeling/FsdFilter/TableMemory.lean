import FsdFilter.CommonHashTable
import FsdFilter.LinkedLists
import FsdFilter.StateRuns

/-! What each access of the hash table code does to the memory. The accesses go
through pointers that may be `none`: the links of an entry and the head pointer of its
list are then written by one rule. -/
namespace FsdFilter.TableMemory
open SizedBlocks LinkedLists StateRuns CommonHashTable

/-! ### Accesses -/

section Accesses
variable {D : Type} {h : Heap D} {a : Addr}

theorem field_run {α : Type} (read : Heap D → Addr → α) (live : h.blocks.live a = true) :
    field read a h = .ok (read h a, h) := if_pos live

theorem assign_run (write : Heap D → Heap D) (live : h.blocks.live a = true) :
    assign write a h = .ok ((), write h) := if_pos live

theorem fnFree_run {size : ℕ} (allocated : h.blocks.size a = some size) :
    fnFree a size h = .ok ((), { h with blocks := h.blocks.without [a] }) := by
  simp only [fnFree, Blocks.free_eq allocated]

theorem alloc_granted {kernel : Kernel} (size : ℕ) (granted : kernel.grants h.blocks.attempts = true) :
    alloc kernel size h = .ok (some h.blocks.fresh, { h with blocks := h.blocks.granted size }) := by
  simp only [alloc, Blocks.allocate, granted, if_true]

theorem alloc_refused {kernel : Kernel} (size : ℕ) (refused : kernel.grants h.blocks.attempts = false) :
    alloc kernel size h = .ok (none, { h with blocks := h.blocks.refused }) := by
  simp only [alloc, Blocks.allocate, refused, Bool.false_eq_true, if_false]

theorem deref_some (a : Addr) : (deref (some a) : HashM D Addr) = pure a := rfl

/-- Whatever the pointer leads to is allocated. -/
def LiveAt (blocks : Blocks) (p : Option Addr) : Prop := ∀ a, p = some a → blocks.live a = true

variable {t : HashTable D} {b : UInt} {p value : Option Addr}

/-- The bucket heads after a write through the link before an entry. -/
def linkedTo (t : HashTable D) (b : UInt) (before p : Option Addr) : HashTable D :=
  match before with
  | some _ => t
  | none => t.setBucket b p

/-- `p_oldest` after a write through the link before an entry of the age list. -/
def oldestTo (t : HashTable D) (older p : Option Addr) : HashTable D :=
  match older with
  | some _ => t
  | none => { t with pOldest := p }

/-- `p_newest` after a write through the link behind an entry. -/
def newestTo (t : HashTable D) (newer p : Option Addr) : HashTable D :=
  match newer with
  | some _ => t
  | none => { t with pNewest := p }

variable {β : Type}

theorem field_bind {α : Type} {read : Heap D → Addr → α} {next : α → HashM D β}
    (live : h.blocks.live a = true) :
    (field read a >>= next) h = next (read h a) h := bind_ok (field_run read live)

theorem assign_bind {write : Heap D → Heap D} {next : Unit → HashM D β}
    (live : h.blocks.live a = true) :
    (assign write a >>= next) h = next () (write h) := bind_ok (assign_run write live)

theorem setNext_bind {next : Unit → HashM D β} (live : h.blocks.live a = true) :
    (setNext a value >>= next) h = next () { h with pNext := setAt h.pNext (some a) value } :=
  assign_bind live

theorem setPrev_bind {next : Unit → HashM D β} (live : h.blocks.live a = true) :
    (setPrev a value >>= next) h = next () { h with pPrev := setAt h.pPrev (some a) value } :=
  assign_bind live

theorem setOlder_bind {next : Unit → HashM D β} (live : h.blocks.live a = true) :
    (setOlder a value >>= next) h = next () { h with pOlder := setAt h.pOlder (some a) value } :=
  assign_bind live

theorem setNewer_bind {next : Unit → HashM D β} (live : h.blocks.live a = true) :
    (setNewer a value >>= next) h = next () { h with pNewer := setAt h.pNewer (some a) value } :=
  assign_bind live

theorem setLink_bind {next : HashTable D → HashM D β} (live : LiveAt h.blocks p) :
    (setLink t b p value >>= next) h =
      next (linkedTo t b p value) { h with pNext := setAt h.pNext p value } := by
  cases p with
  | none => rfl
  | some a =>
    apply bind_ok
    exact setNext_bind (live a rfl)

theorem setPrevOf_bind {next : Unit → HashM D β} (live : LiveAt h.blocks p) :
    (setPrevOf p value >>= next) h = next () { h with pPrev := setAt h.pPrev p value } := by
  cases p with
  | none => rfl
  | some a => exact setPrev_bind (live a rfl)

theorem setNewerLink_bind {next : HashTable D → HashM D β} (live : LiveAt h.blocks p) :
    (setNewerLink t p value >>= next) h =
      next (oldestTo t p value) { h with pNewer := setAt h.pNewer p value } := by
  cases p with
  | none => rfl
  | some a =>
    apply bind_ok
    exact setNewer_bind (live a rfl)

theorem setOlderLink_run (live : LiveAt h.blocks p) :
    setOlderLink t p value h =
      .ok (newestTo t p value, { h with pOlder := setAt h.pOlder p value }) := by
  cases p with
  | none => rfl
  | some a => exact setOlder_bind (live a rfl)

end Accesses

/-! ### Lists in the memory -/

/-- A head pointer and the links of the entries, as the links of one list. -/
def follow (head : Option Addr) (links : Addr → Option Addr) : Option Addr → Option Addr
  | none => head
  | some a => links a

section Lists
variable {D : Type} {t : HashTable D} {b : UInt} {p value head : Option Addr}
  {links : Addr → Option Addr}

/-- A write through the link before an entry, whichever kind of link it is. -/
theorem follow_setAt {head' : Option Addr} (headOf : head' = if p = none then value else head) :
    follow head' (setAt links p value) = Function.update (follow head links) p value := by
  funext place
  cases p with
  | none => cases place <;> simp [follow, setAt, headOf]
  | some a =>
    cases place with
    | none => simp [follow, headOf]
    | some c => by_cases same : c = a <;> simp [follow, setAt, same]

theorem follow_linkedTo : follow ((linkedTo t b p value).ppEntries b) (setAt links p value) =
    Function.update (follow (t.ppEntries b) links) p value := by
  apply follow_setAt
  cases p <;> simp [linkedTo, HashTable.setBucket]

/-- A write to the link of an entry leaves the head pointer alone. -/
theorem follow_some {a : Addr} : follow head (setAt links (some a) value) =
    Function.update (follow head links) (some a) value := follow_setAt rfl

theorem linkedTo_other {b' : UInt} (other : b' ≠ b) :
    (linkedTo t b p value).ppEntries b' = t.ppEntries b' := by
  cases p with
  | none => exact Function.update_of_ne other ..
  | some a => rfl

theorem follow_oldestTo : follow (oldestTo t p value).pOldest (setAt links p value) =
    Function.update (follow t.pOldest links) p value := by
  apply follow_setAt
  cases p <;> simp [oldestTo]

end Lists

/-! ### Cells -/

/-- All that the memory holds at an address. -/
structure Cell (D : Type) where
  block : Option ℕ
  pNext : Option Addr
  pPrev : Option Addr
  key : HashKey
  pData : Option D
  pOlder : Option Addr
  pNewer : Option Addr
  size : ℕ
  keyShadow : Option Addr

/-- The memory at an address. -/
def cell {D : Type} (h : Heap D) (a : Addr) : Cell D :=
  ⟨h.blocks.size a, h.pNext a, h.pPrev a, h.key a, h.pData a, h.pOlder a, h.pNewer a, h.size a,
    h.keyShadow a⟩

section Cells
variable {D : Type} {h h' : Heap D} {a : Addr}

theorem cell_live (same : cell h' a = cell h a) : h'.blocks.live a = h.blocks.live a := by
  rw [Blocks.live, Blocks.live, show h'.blocks.size a = h.blocks.size a from congrArg Cell.block same]

theorem cell_next (same : cell h' a = cell h a) : h'.pNext a = h.pNext a := congrArg Cell.pNext same

theorem cell_prev (same : cell h' a = cell h a) : h'.pPrev a = h.pPrev a := congrArg Cell.pPrev same

theorem cell_older (same : cell h' a = cell h a) : h'.pOlder a = h.pOlder a := congrArg Cell.pOlder same

theorem cell_newer (same : cell h' a = cell h a) : h'.pNewer a = h.pNewer a := congrArg Cell.pNewer same

end Cells
end FsdFilter.TableMemory
