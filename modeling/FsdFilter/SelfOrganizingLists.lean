import Mathlib.Data.List.Dedup
import Mathlib.Data.List.Nodup

/-! Lists that are searched from the front and reorganized by the search: an element that
is found moves to the front, or up by one place. A list of bounded length that new
elements enter at the front is a cache; with the first rule it keeps the elements that
were used last. -/
namespace FsdFilter.SelfOrganizingLists

variable {α β : Type}

/-! ### The two rules -/

/-- The first element with `p` moves to the front. -/
def toFront (p : α → Bool) (l : List α) : List α :=
  match l.find? p with
  | some a => a :: l.eraseP p
  | none => l

/-- The first element with `p` moves up by one place. -/
def oneUp (p : α → Bool) : List α → List α
  | x :: y :: rest => if p x then x :: y :: rest else if p y then y :: x :: rest
    else x :: oneUp p (y :: rest)
  | l => l

theorem toFront_of_none {p : α → Bool} {l : List α} (none' : ∀ x ∈ l, p x = false) :
    toFront p l = l := by
  have missing : l.find? p = none := List.find?_eq_none.mpr fun x inside => by simp [none' x inside]
  simp only [toFront, missing]

theorem toFront_append {p : α → Bool} {before after : List α} {a : α}
    (others : ∀ x ∈ before, p x = false) (here : p a = true) :
    toFront p (before ++ a :: after) = a :: (before ++ after) := by
  have missing : before.find? p = none :=
    List.find?_eq_none.mpr fun x inside => by simp [others x inside]
  have kept : (before ++ a :: after).eraseP p = before ++ after := by
    rw [List.eraseP_append_right _ fun x inside => by simp [others x inside], List.eraseP_cons_of_pos here]
  simp [toFront, List.find?_append, missing, here, kept]

theorem oneUp_of_none {p : α → Bool} {l : List α} (none' : ∀ x ∈ l, p x = false) : oneUp p l = l := by
  induction l with
  | nil => rfl
  | cons x rest ih =>
    cases rest with
    | nil => rfl
    | cons y rest =>
      have tail := ih fun z inside => none' z (List.mem_cons_of_mem _ inside)
      simp [oneUp, none' x, none' y, tail]

theorem oneUp_cons {p : α → Bool} {a : α} {after : List α} (here : p a = true) :
    oneUp p (a :: after) = a :: after := by
  cases after with
  | nil => rfl
  | cons y rest => simp [oneUp, here]

theorem oneUp_append {p : α → Bool} {front after : List α} {x a : α}
    (others : ∀ y ∈ front ++ [x], p y = false) (here : p a = true) :
    oneUp p (front ++ x :: a :: after) = front ++ a :: x :: after := by
  induction front with
  | nil => simp [oneUp, others x (by simp), here]
  | cons y rest ih =>
    have tail := ih fun z inside => others z (List.mem_cons_of_mem _ inside)
    have first : p y = false := others y List.mem_cons_self
    cases rest with
    | nil => simpa [oneUp, first, others x (by simp)] using tail
    | cons z rest => simpa [oneUp, first, others z (by simp)] using tail

/-- Only the elements of the list are looked at. -/
theorem toFront_congr {p q : α → Bool} {l : List α} (same : ∀ x ∈ l, p x = q x) :
    toFront p l = toFront q l := by
  cases found : l.find? p with
  | none =>
    have missing : ∀ x ∈ l, p x = false :=
      fun x inside => by simpa using List.find?_eq_none.mp found x inside
    rw [toFront_of_none missing, toFront_of_none fun x inside => same x inside ▸ missing x inside]
  | some a =>
    obtain ⟨here, before, after, rfl, others⟩ := List.find?_eq_some_iff_append.mp found
    have missing : ∀ x ∈ before, p x = false := fun x inside => by simpa using others x inside
    rw [toFront_append missing here, toFront_append (fun x inside => ?_) (same a (by simp) ▸ here)]
    exact same x (List.mem_append_left _ inside) ▸ missing x inside

theorem oneUp_congr {p q : α → Bool} {l : List α} (same : ∀ x ∈ l, p x = q x) :
    oneUp p l = oneUp q l := by
  induction l with
  | nil => rfl
  | cons x rest ih =>
    have first := same x List.mem_cons_self
    have tail := ih fun y inside => same y (List.mem_cons_of_mem _ inside)
    cases rest with
    | nil => rfl
    | cons y rest => simp only [oneUp, first, same y (by simp), tail]

/-- What the elements look like does not matter for where they move. -/
theorem map_toFront (f : α → β) (p : β → Bool) (l : List α) :
    (toFront (fun x => p (f x)) l).map f = toFront p (l.map f) := by
  have same : (fun x => p (f x)) = p ∘ f := rfl
  rw [toFront, toFront, List.find?_map, List.eraseP_map, same]
  cases l.find? (p ∘ f) with
  | none => rfl
  | some a => rfl

theorem map_oneUp (f : α → β) (p : β → Bool) (l : List α) :
    (oneUp (fun x => p (f x)) l).map f = oneUp p (l.map f) := by
  induction l with
  | nil => rfl
  | cons x rest ih =>
    cases rest with
    | nil => rfl
    | cons y rest =>
      simp only [oneUp, List.map_cons] at ih ⊢
      split
      · rfl
      · split
        · rfl
        · rw [List.map_cons, ih]

/-! ### Which elements were used last -/

section Recency
variable [DecidableEq α]

/-- The elements of a sequence of uses, the one that was used last first. -/
def recent (uses : List α) : List α := uses.dedup.reverse

theorem recent_nodup (uses : List α) : (recent uses).Nodup := List.nodup_reverse.mpr uses.nodup_dedup

theorem mem_recent {uses : List α} {a : α} : a ∈ recent uses ↔ a ∈ uses := by simp [recent]

/-- Later uses come first, and what was not used again keeps its order. -/
theorem recent_append (uses later : List α) :
    recent (uses ++ later) = recent later ++ (recent uses).filter (· ∉ later) := by
  induction uses with
  | nil => simp [recent]
  | cons a rest ih =>
    by_cases again : a ∈ rest
    · simpa [recent, again] using ih
    · by_cases then' : a ∈ later
      · simpa [recent, again, then'] using ih
      · have first : (a :: (rest ++ later)).dedup = a :: (rest ++ later).dedup :=
          List.dedup_cons_of_notMem (by simp [again, then'])
        simp only [recent, List.cons_append, first, List.dedup_cons_of_notMem again,
          List.reverse_cons] at ih ⊢
        rw [ih]
        simp [then']

theorem recent_concat (uses : List α) (a : α) : recent (uses ++ [a]) = a :: (recent uses).erase a := by
  rw [recent_append, (recent_nodup uses).erase_eq_filter]
  simp [recent, bne, BEq.beq]

/-- In terms of the element alone. -/
theorem toFront_eq (l : List α) (a : α) : toFront (· = a) l = if a ∈ l then a :: l.erase a else l := by
  split_ifs with member
  · obtain ⟨before, after, rfl, fresh⟩ := List.eq_append_cons_of_mem member
    have others : ∀ x ∈ before, decide (x = a) = false :=
      fun x inside => decide_eq_false fun same => fresh (same ▸ inside)
    rw [toFront_append others (decide_eq_true rfl), List.erase_append_right _ fresh,
      List.erase_cons_head]
  · exact toFront_of_none fun x inside => decide_eq_false fun same => member (same ▸ inside)

/-- One access to a cache for `limit` elements, the one that was used last first. -/
def access (limit : ℕ) (cache : List α) (a : α) : List α :=
  if a ∈ cache then a :: cache.erase a else if limit ≤ cache.length then a :: cache.dropLast
  else a :: cache

theorem take_erase_of_mem {n : ℕ} {l : List α} {a : α} (member : a ∈ l.take (n + 1)) :
    (l.take (n + 1)).erase a = (l.erase a).take n := by
  induction l generalizing n with
  | nil => cases member
  | cons x rest ih =>
    by_cases here : x = a
    · simp [here]
    · cases n with
      | zero => simp [Ne.symm here] at member
      | succ n =>
        have inRest : a ∈ rest.take (n + 1) := by simpa [Ne.symm here] using member
        have tail := ih inRest
        rw [List.take_succ_cons, List.erase_cons_tail (by simpa using here),
          List.erase_cons_tail (by simpa using here), List.take_succ_cons, tail]

theorem take_erase_of_notMem {n : ℕ} {l : List α} {a : α} (absent : a ∉ l.take n) :
    (l.erase a).take n = l.take n := by
  induction l generalizing n with
  | nil => rfl
  | cons x rest ih =>
    cases n with
    | zero => rfl
    | succ n =>
      simp only [List.take_succ_cons, List.mem_cons, not_or] at absent
      rw [List.erase_cons_tail (by simpa using Ne.symm absent.1), List.take_succ_cons,
        List.take_succ_cons, ih absent.2]

/-- A cache that has the last elements used has them after one more access. -/
theorem access_recent {limit : ℕ} (some' : 0 < limit) (uses : List α) (a : α) :
    access limit ((recent uses).take limit) a = (recent (uses ++ [a])).take limit := by
  obtain ⟨n, rfl⟩ := Nat.exists_eq_succ_of_ne_zero (Nat.ne_of_gt some')
  rw [recent_concat, List.take_succ_cons, access]
  split_ifs with member full
  · rw [take_erase_of_mem member]
  · have shorter : ((recent uses).take (n + 1)).dropLast = (recent uses).take n := by
      rw [List.dropLast_eq_take, List.take_take]
      congr 1
      simp only [Nat.succ_eq_add_one, List.length_take] at full ⊢
      omega
    have missing : a ∉ (recent uses).take n :=
      fun inside => member (List.take_subset_take_left _ (Nat.le_succ n) inside)
    rw [shorter, take_erase_of_notMem missing]
  · have whole : (recent uses).take (n + 1) = recent uses := by
      apply List.take_of_length_le
      simp only [Nat.succ_eq_add_one, List.length_take] at full ⊢
      omega
    rw [whole] at member full ⊢
    rw [List.erase_of_not_mem member,
      List.take_of_length_le (by simp only [Nat.succ_eq_add_one] at full; omega)]

/-- An element that was used is still in the cache exactly when fewer than `limit` other
elements were used since. -/
theorem mem_take_recent_iff {limit : ℕ} {before since : List α} {a : α} (last : a ∉ since) :
    a ∈ (recent (before ++ a :: since)).take limit ↔ since.dedup.length < limit := by
  have shape : recent (before ++ a :: since) =
      recent since ++ a :: ((recent before).erase a).filter (· ∉ since) := by
    have parts : before ++ a :: since = (before ++ [a]) ++ since := by simp
    rw [parts, recent_append, recent_concat, List.filter_cons_of_pos (by simpa using last)]
  have notRecent : a ∉ recent since := fun inside => last (mem_recent.mp inside)
  have length : (recent since).length = since.dedup.length := List.length_reverse
  rw [shape, List.take_append, List.mem_append, length]
  constructor
  · rintro (inside | inside)
    · exact absurd (List.mem_of_mem_take inside) notRecent
    · by_contra beyond
      rw [Nat.sub_eq_zero_of_le (Nat.le_of_not_lt beyond)] at inside
      cases inside
  · intro few
    obtain ⟨n, room⟩ := Nat.exists_eq_succ_of_ne_zero (Nat.sub_ne_zero_of_lt few)
    right
    rw [room]
    exact List.mem_cons_self

end Recency
end FsdFilter.SelfOrganizingLists
