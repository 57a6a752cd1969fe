import PermitRing.Text.Outline

/-!
# Lifecycle of a queue

A queue is open, then draining, then closed. Pushes are accepted while it is open; pops may succeed
until it is closed.
-/

namespace PermitRing

/-- The stages of a queue's life, in the order in which they follow each other. -/
inductive Lifecycle
  /-- Pushes and pops are both permitted. -/
  | opened
  /-- The queue was closed; pops go on while elements remain. -/
  | draining
  /-- Closed and drained, for good. -/
  | closed
  deriving DecidableEq, Repr, Inhabited

namespace Lifecycle

/-- The place of a stage in the order. -/
def number : Lifecycle → Nat
  | opened => 0
  | draining => 1
  | closed => 2

/-- The stage with a given number. Every number past the last stage means the last stage. -/
def ofNumber : Nat → Lifecycle
  | 0 => opened
  | 1 => draining
  | _ => closed

/-- Stages are ordered as they follow each other. -/
instance : LE Lifecycle :=
  ⟨fun a b => a.number ≤ b.number⟩

instance (a b : Lifecycle) : Decidable (a ≤ b) :=
  inferInstanceAs (Decidable (a.number ≤ b.number))

/-- Pushes are accepted. -/
def acceptsPush : Lifecycle → Bool
  | opened => true
  | draining | closed => false

/-- Pops may still succeed. -/
def acceptsPop : Lifecycle → Bool
  | opened | draining => true
  | closed => false

/-- The queue was closed. -/
def isClosing : Lifecycle → Bool
  | opened => false
  | draining | closed => true

/-- The name by which a stage is displayed. -/
def name : Lifecycle → String
  | opened => "open"
  | draining => "draining"
  | closed => "closed"

/-- The name with which a stage stands in the outline of a larger value. -/
def outline : Lifecycle → Text.Outline
  | opened => .word "Open"
  | draining => .word "Draining"
  | closed => .word "Closed"

theorem ofNumber_number (s : Lifecycle) : ofNumber s.number = s := by
  cases s <;> rfl

end Lifecycle

end PermitRing
