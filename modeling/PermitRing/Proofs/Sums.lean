import Mathlib.Algebra.BigOperators.Group.List.Basic
import Mathlib.Data.List.Perm.Basic
import Mathlib.Data.Multiset.AddSub

/-!
# Sums over a list of which one entry changes

Where one of several threads moves, a sum over them changes by what that thread adds to it.

## Main results

* `sum_map_eq_add`, `sum_map_set` — the sum before and after, with the entry apart;
* `exists_of_mem_sum` — what is in a sum of multisets is in one of them.
-/

namespace PermitRing

variable {β M : Type} [AddCommMonoid M] {l : List β} {k : Nat} {x : β}

/-- The sum, with one of the entries apart. -/
theorem sum_map_eq_add (h : l[k]? = some x) (f : β → M) :
    (l.map f).sum = f x + ((l.eraseIdx k).map f).sum := by
  obtain ⟨hlt, hget⟩ := List.getElem?_eq_some_iff.mp h
  rw [← hget, ← ((List.getElem_cons_eraseIdx_perm hlt).map f).sum_eq, List.map_cons, List.sum_cons]

/-- The sum after this entry was replaced. -/
theorem sum_map_set (h : l[k]? = some x) (f : β → M) (y : β) :
    ((l.set k y).map f).sum = f y + ((l.eraseIdx k).map f).sum := by
  obtain ⟨hlt, -⟩ := List.getElem?_eq_some_iff.mp h
  rw [((List.set_perm_cons_eraseIdx hlt y).map f).sum_eq, List.map_cons, List.sum_cons]

/-- What is in a sum is in one of its terms. -/
theorem exists_of_mem_sum {γ : Type} {f : β → Multiset γ} {c : γ} (h : c ∈ (l.map f).sum) :
    ∃ x ∈ l, c ∈ f x := by
  induction l with
  | nil => cases h
  | cons x l ih =>
    rw [List.map_cons, List.sum_cons, Multiset.mem_add] at h
    rcases h with h | h
    · exact ⟨x, List.mem_cons_self, h⟩
    · obtain ⟨y, hy, hc⟩ := ih h
      exact ⟨y, List.mem_cons_of_mem x hy, hc⟩

end PermitRing
