import Mathlib.Data.List.Nodup
import Mathlib.Logic.Function.Basic

/-! Doubly linked lists as two link functions. `next none` is the head pointer, so
that the head and the elements are relinked alike; `prev` of the first element is
`none`. Taking an element out and putting one in are the only edits: moving an
element is one after the other. -/
namespace FsdFilter.LinkedLists

variable {A : Type} {next : Option A → Option A} {prev : A → Option A} {x y : Option A} {a : A}
  {l before after : List A}

/-- After `x` come the elements of the list one by one, and then `y`. -/
def Links (next : Option A → Option A) (prev : A → Option A) : Option A → List A → Option A → Prop
  | x, [], y => next x = y
  | x, a :: rest, y => next x = some a ∧ prev a = x ∧ Links next prev (some a) rest y

/-- The list that starts at the head pointer. -/
def Linked (next : Option A → Option A) (prev : A → Option A) (l : List A) : Prop :=
  Links next prev none l none

theorem Links.next_eq (links : Links next prev x l y) : next x = l.head?.or y := by
  cases l with
  | nil => exact links
  | cons a rest => exact links.1

theorem Linked.next_none (linked : Linked next prev l) : next none = l.head? := by
  have first := Links.next_eq linked
  rwa [Option.or_none] at first

theorem last_cons (a : A) (rest : List A) (x : Option A) :
    (a :: rest).getLast?.or x = rest.getLast?.or (some a) := by
  cases rest with
  | nil => rfl
  | cons b rest => simp [List.getLast?_cons]

/-- Two parts and the seam between them. -/
theorem links_append : Links next prev x (before ++ after) y ↔
    Links next prev x before (after.head?.or y) ∧ Links next prev (before.getLast?.or x) after y := by
  induction before generalizing x with
  | nil =>
    refine ⟨fun links => ⟨links.next_eq, links⟩, fun both => both.2⟩
  | cons b rest ih =>
    rw [List.cons_append, last_cons]
    simp only [Links, ih, and_assoc]

/-- The neighbours of an element. -/
theorem Linked.neighbours (linked : Linked next prev (before ++ a :: after)) :
    prev a = before.getLast? ∧ next (some a) = after.head? := by
  obtain ⟨-, -, previous, rest⟩ := links_append.mp linked
  rw [Option.or_none] at previous
  refine ⟨previous, ?_⟩
  have following := rest.next_eq
  rwa [Option.or_none] at following

/-- Links outside the list do not matter. -/
theorem Links.congr {next' : Option A → Option A} {prev' : A → Option A} (links : Links next prev x l y)
    (start : next' x = next x) (nexts : ∀ a ∈ l, next' (some a) = next (some a))
    (prevs : ∀ a ∈ l, prev' a = prev a) : Links next' prev' x l y := by
  induction l generalizing x with
  | nil => exact start.trans links
  | cons a rest ih =>
    obtain ⟨first, back, links⟩ := links
    refine ⟨start.trans first, (prevs a List.mem_cons_self).trans back,
      ih links (nexts a List.mem_cons_self) ?_ ?_⟩
    · exact fun b member => nexts b (List.mem_cons_of_mem _ member)
    · exact fun b member => prevs b (List.mem_cons_of_mem _ member)

theorem Linked.congr {next' : Option A → Option A} {prev' : A → Option A} (linked : Linked next prev l)
    (head : next' none = next none) (nexts : ∀ a ∈ l, next' (some a) = next (some a))
    (prevs : ∀ a ∈ l, prev' a = prev a) : Linked next' prev' l := Links.congr linked head nexts prevs

/-- The elements from one on, along a link. -/
def walk (link : A → Option A) : ℕ → Option A → List A
  | _, none => []
  | 0, some _ => []
  | fuel + 1, some a => a :: walk link fuel (link a)

/-- The links lead through the list that they hold, and through no other. -/
theorem Links.walk_eq {link : A → Option A} {fuel : ℕ} (links : Links next prev x l none)
    (fields : ∀ a, next (some a) = link a) (enough : l.length ≤ fuel) : walk link fuel l.head? = l := by
  induction l generalizing x fuel with
  | nil => cases fuel <;> rfl
  | cons a rest ih =>
    cases fuel with
    | zero => cases enough
    | succ fuel =>
      obtain ⟨-, -, links⟩ := links
      have following : link a = rest.head? := by
        rw [← fields a, links.next_eq, Option.or_none]
      rw [List.head?_cons, walk, following, ih links (Nat.le_of_succ_le_succ enough)]

variable [DecidableEq A]

/-- Writes through a pointer that may be `none`. -/
def setAt (f : A → Option A) (p value : Option A) : A → Option A :=
  match p with
  | some a => Function.update f a value
  | none => f

theorem setAt_of_ne {f : A → Option A} {p value : Option A} (other : p ≠ some a) :
    setAt f p value a = f a := by
  cases p with
  | none => rfl
  | some b =>
    refine Function.update_of_ne ?_ ..
    rintro rfl
    exact other rfl

/-- Writes at different places can be made in either order. -/
theorem setAt_comm {f : A → Option A} {p q v w : Option A} (apart : p ≠ q) :
    setAt (setAt f p v) q w = setAt (setAt f q w) p v := by
  cases p with
  | none => rfl
  | some a =>
    cases q with
    | none => rfl
    | some c => exact Function.update_comm (fun same => apart (congrArg some same)) ..

/-- The last link of a list leads somewhere else. -/
theorem Links.redirectEnd (links : Links next prev x l y) (distinct : l.Nodup)
    (outside : ∀ a ∈ l, x ≠ some a) (y' : Option A) :
    Links (Function.update next (l.getLast?.or x) y') prev x l y' := by
  induction l generalizing x with
  | nil => exact Function.update_self ..
  | cons a rest ih =>
    obtain ⟨first, back, links⟩ := links
    obtain ⟨notLater, distinct⟩ := List.nodup_cons.mp distinct
    have later : ∀ b ∈ rest, some a ≠ some b := by
      intro b member same
      exact notLater (Option.some.inj same ▸ member)
    rw [last_cons]
    refine ⟨?_, back, ih links distinct later⟩
    rw [Function.update_of_ne, first]
    cases last : rest.getLast? with
    | none => exact outside a List.mem_cons_self
    | some b => exact outside b (List.mem_cons_of_mem _ (List.mem_of_getLast? last))

/-- The first element of a list follows something else. -/
theorem Links.redirectStart {x' : Option A} (links : Links next prev x l y) (distinct : l.Nodup)
    (start : next x' = l.head?.or y) : Links next (setAt prev l.head? x') x' l y := by
  cases l with
  | nil => exact start
  | cons a rest =>
    obtain ⟨-, -, links⟩ := links
    obtain ⟨notLater, -⟩ := List.nodup_cons.mp distinct
    refine ⟨start, Function.update_self .., links.congr rfl (fun _ _ => rfl) fun b member => ?_⟩
    have later : b ≠ a := by
      rintro rfl
      exact notLater member
    exact Function.update_of_ne later ..

omit [DecidableEq A] in
/-- Neither neighbour of a gap is in the other part. -/
theorem seam_apart (distinct : (before ++ after).Nodup) :
    (∀ b ∈ after, before.getLast? ≠ some b) ∧ ∀ b ∈ before, after.head? ≠ some b := by
  obtain ⟨-, -, apart⟩ := List.nodup_append.mp distinct
  constructor
  · intro b member last
    exact apart b (List.mem_of_getLast? last) b member rfl
  · intro b member first
    exact apart b member b (List.mem_of_head? first) rfl

/-- Takes an element out: its neighbours are linked with each other. -/
theorem Linked.unlink (linked : Linked next prev (before ++ a :: after))
    (distinct : (before ++ a :: after).Nodup) :
    Linked (Function.update next (prev a) (next (some a))) (setAt prev (next (some a)) (prev a))
      (before ++ after) := by
  obtain ⟨back, forth⟩ := linked.neighbours
  rw [back, forth]
  obtain ⟨first, seam, -, second⟩ := links_append.mp linked
  rw [Option.or_none] at seam
  have shorter : (before ++ after).Nodup := distinct.sublist (by simp)
  obtain ⟨firstDistinct, secondDistinct, apart⟩ := List.nodup_append.mp distinct
  obtain ⟨notAfter, secondDistinct⟩ := List.nodup_cons.mp secondDistinct
  obtain ⟨lastApart, headApart⟩ := seam_apart shorter
  refine links_append.mpr ⟨?_, ?_⟩
  · rw [Option.or_none]
    have redirected := first.redirectEnd firstDistinct (by simp) after.head?
    rw [Option.or_none] at redirected
    exact redirected.congr rfl (fun _ _ => rfl) fun b member => setAt_of_ne (headApart b member)
  · rw [Option.or_none]
    have notHere : before.getLast? ≠ some a := by
      intro last
      exact apart a (List.mem_of_getLast? last) a List.mem_cons_self rfl
    have kept : Links (Function.update next before.getLast? after.head?) prev (some a) after none := by
      refine second.congr (Function.update_of_ne (Ne.symm notHere) ..) (fun b member => ?_)
        fun _ _ => rfl
      exact Function.update_of_ne (Ne.symm (lastApart b member)) ..
    refine kept.redirectStart secondDistinct ?_
    rw [Function.update_self, Option.or_none]

/-- Puts an element in, between two neighbours. -/
theorem Linked.insert (linked : Linked next prev (before ++ after)) (distinct : (before ++ after).Nodup)
    (new : a ∉ before ++ after) :
    Linked (Function.update (Function.update next before.getLast? (some a)) (some a) after.head?)
      (Function.update (setAt prev after.head? (some a)) a before.getLast?) (before ++ a :: after) := by
  obtain ⟨first, second⟩ := links_append.mp linked
  rw [Option.or_none] at second
  obtain ⟨firstDistinct, secondDistinct, -⟩ := List.nodup_append.mp distinct
  obtain ⟨lastApart, headApart⟩ := seam_apart distinct
  have notBefore : ∀ b ∈ before, b ≠ a := fun b member same => new (by simp [← same, member])
  have notAfter : ∀ b ∈ after, b ≠ a := fun b member same => new (by simp [← same, member])
  have notLast : before.getLast? ≠ some a := fun last => notBefore a (List.mem_of_getLast? last) rfl
  refine links_append.mpr ⟨?_, ?_, ?_, ?_⟩
  · have redirected := first.redirectEnd firstDistinct (by simp) (some a)
    rw [Option.or_none] at redirected
    refine redirected.congr (Function.update_of_ne (by simp) ..) (fun b member => ?_) fun b member => ?_
    · exact Function.update_of_ne (fun same => notBefore b member (Option.some.inj same)) ..
    · rw [Function.update_of_ne (notBefore b member), setAt_of_ne (headApart b member)]
  · rw [Option.or_none, Function.update_of_ne notLast, Function.update_self]
  · rw [Option.or_none, Function.update_self]
  · cases after with
    | nil => exact Function.update_self ..
    | cons c rest =>
      obtain ⟨-, -, links⟩ := second
      obtain ⟨notRest, -⟩ := List.nodup_cons.mp secondDistinct
      have forward : ∀ b ∈ c :: rest,
        Function.update (Function.update next before.getLast? (some a)) (some a)
          (some c) (some b) = next (some b) := by
        intro b member
        have other : some b ≠ some a := fun same => notAfter b member (Option.some.inj same)
        rw [Function.update_of_ne other, Function.update_of_ne (Ne.symm (lastApart b member))]
      refine ⟨Function.update_self .., ?_, links.congr (forward c List.mem_cons_self) (fun b member => ?_)
        fun b member => ?_⟩
      · rw [Function.update_of_ne (notAfter c List.mem_cons_self)]
        exact Function.update_self ..
      · exact forward b (List.mem_cons_of_mem _ member)
      · have later : b ≠ c := by
          rintro rfl
          exact notRest member
        rw [Function.update_of_ne (notAfter b (List.mem_cons_of_mem _ member))]
        exact Function.update_of_ne later ..

end FsdFilter.LinkedLists
