import Mathlib.Data.List.Basic

/-!
# Histories

A history is a list that grows at its end. What is read off it, deed by deed, grows by what is read
off the last deed, so an invariant over runs needs to look at that one only.

## Main results

* `filterMap_concat`, `countP_concat` — a view of a history, and a count, one deed further.
-/

namespace PermitRing

variable {β γ : Type}

/-- A view of a history grows by what it shows of the last deed. -/
theorem filterMap_concat (f : β → Option γ) (l : List β) (x : β) :
    (l ++ [x]).filterMap f = l.filterMap f ++ (f x).toList := by
  rw [List.filterMap_append, List.filterMap_cons, List.filterMap_nil]
  cases f x <;> rfl

/-- The same where a deed is the first. -/
theorem filterMap_cons (f : β → Option γ) (x : β) (l : List β) :
    (x :: l).filterMap f = (f x).toList ++ l.filterMap f := by
  rw [List.filterMap_cons]
  cases f x <;> rfl

theorem countP_concat (p : β → Bool) (l : List β) (x : β) :
    (l ++ [x]).countP p = l.countP p + (p x).toNat := by
  rw [List.countP_append, List.countP_singleton]
  cases p x <;> rfl

end PermitRing
