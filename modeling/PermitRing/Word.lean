/-!
# Counters of one machine word

The counters that threads share are changed by one and wrap around at the end of their word. Here
is that step in both directions, with the statements that it is ordinary counting as long as no end
is reached.
-/

namespace PermitRing.Word

/-- The number of values of a word of 64 bits. -/
def size : Nat := 0x10000000000000000

/-- One more, starting over at the end of the word. -/
def succ (n : Nat) : Nat :=
  (n + 1) % size

/-- One less, going on from the end of the word below zero. -/
def pred (n : Nat) : Nat :=
  if n = 0 then size - 1 else n - 1

theorem succ_eq {n : Nat} (h : n + 1 < size) : succ n = n + 1 :=
  Nat.mod_eq_of_lt h

theorem pred_eq {n : Nat} (h : 0 < n) : pred n = n - 1 :=
  if_neg (Nat.ne_of_gt h)

theorem pred_succ {n : Nat} (h : n < size) : pred (succ n) = n := by
  rw [succ]
  by_cases hn : n + 1 = size
  · rw [hn, Nat.mod_self, pred, if_pos rfl, ← hn, Nat.add_sub_cancel]
  · rw [Nat.mod_eq_of_lt (Nat.lt_of_le_of_ne h hn), pred_eq n.succ_pos, Nat.succ_sub_one]

end PermitRing.Word
