import Mathlib.Data.List.Perm.Subperm
import Mathlib.Logic.Function.Basic

/-! Values written under keys, one after another: the last write under a key
stands, and as many writes as there are keys reach every key exactly when no
key is written twice. -/
namespace FsdFilter.KeyedWrites
variable {K V : Type} [DecidableEq K] {f : K → V} {writes : List (K × V)} {key : K}

/-- What is held under every key after some writes. -/
def record (f : K → V) (writes : List (K × V)) : K → V :=
  writes.foldl (fun held write => Function.update held write.1 write.2) f

@[simp] theorem record_nil (f : K → V) : record f [] = f := rfl

@[simp] theorem record_cons (f : K → V) (write : K × V) (writes : List (K × V)) :
    record f (write :: writes) = record (Function.update f write.1 write.2) writes := rfl

theorem record_append (f : K → V) (earlier later : List (K × V)) :
    record f (earlier ++ later) = record (record f earlier) later :=
  List.foldl_append

/-- A key that is not written keeps what it held. -/
theorem record_untouched (untouched : key ∉ writes.map Prod.fst) : record f writes key = f key := by
  induction writes generalizing f with
  | nil => rfl
  | cons write rest ih =>
    simp only [List.map_cons, List.mem_cons, not_or] at untouched
    rw [record_cons, ih untouched.2, Function.update_of_ne untouched.1]

/-- A key that is written holds one of the values written under it, whatever it
held before. -/
theorem record_written (written : key ∈ writes.map Prod.fst) :
    ∃ value, (key, value) ∈ writes ∧ ∀ f, record f writes key = value := by
  induction writes with
  | nil => simp at written
  | cons write rest ih =>
    by_cases again : key ∈ rest.map Prod.fst
    · obtain ⟨value, member, held⟩ := ih again
      exact ⟨value, List.mem_cons_of_mem _ member, fun f => held _⟩
    · simp only [List.map_cons, List.mem_cons, again, or_false] at written
      refine ⟨write.2, by simp [written], fun f => ?_⟩
      rw [record_cons, record_untouched again, written, Function.update_self]

omit [DecidableEq K] in
/-- As many keys as there are, of which none is missing, are all different,
and the other way round. -/
theorem nodup_iff_covers {keys written : List K} (distinct : keys.Nodup) (known : written ⊆ keys)
    (length : written.length = keys.length) : written.Nodup ↔ keys ⊆ written := by
  constructor
  · intro nodup
    exact ((nodup.subperm known).perm_of_length_le (Nat.le_of_eq length.symm)).symm.subset
  · intro covers
    exact ((distinct.subperm covers).perm_of_length_le (Nat.le_of_eq length)).nodup distinct

end FsdFilter.KeyedWrites
