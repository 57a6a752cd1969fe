import PermitRing.Discipline
import PermitRing.Text.Quoted

/-!
# Refusals

Why a queue turns a call down, and the forms in which a refusal reaches the caller: alone, with the
value that a push hands back, or beside the failure of a constructor. Every form has a message for
people and an outline that shows how it is built.
-/

namespace PermitRing

/-! ### The reasons -/

/-- Why a queue turns a call down. -/
inductive Refusal
  /-- Pushes are no longer accepted, or, for a pop, nothing is left and nothing will come. -/
  | closed
  /-- No slot is free. -/
  | full
  /-- No element is ready. -/
  | empty
  /-- The time limit passed before a permit became available. -/
  | timedOut
  /-- The queue had been closed before. -/
  | alreadyClosed
  /-- A queue needs at least one slot. -/
  | invalidCapacity (capacity : Nat)
  /-- The configuration asks for another discipline than the queue has. -/
  | disciplineMismatch (expected found : Discipline)
  /-- The configuration does not pass validation. -/
  | invalidConfig (reason : String)
  deriving DecidableEq, Repr, Inhabited

namespace Refusal

/-- The refusal in words. -/
def message : Refusal → String
  | closed => "queue closed"
  | full => "queue full"
  | empty => "queue empty"
  | timedOut => "operation timed out"
  | alreadyClosed => "queue already closed"
  | invalidCapacity n => s!"invalid capacity: {n}"
  | disciplineMismatch expected found =>
    "discipline mismatch: queue is " ++ expected.name ++ ", config asks for " ++ found.name
  | invalidConfig reason => "invalid config: " ++ reason

/-- How the refusal is built. -/
def outline : Refusal → Text.Outline
  | closed => .word "Closed"
  | full => .word "Full"
  | empty => .word "Empty"
  | timedOut => .word "Timeout"
  | alreadyClosed => .word "AlreadyClosed"
  | invalidCapacity n => .applied "InvalidCapacity" [.word (toString n)]
  | disciplineMismatch expected found =>
    .record "DisciplineMismatch" [("expected", expected.outline), ("found", found.outline)] false
  | invalidConfig reason => .applied "InvalidConfig" [.word (Text.quoted reason)]

/-- Whether the same call may succeed when it is made again later. -/
def isRecoverable : Refusal → Bool
  | full | empty | timedOut => true
  | closed | alreadyClosed | invalidCapacity _ | disciplineMismatch _ _ | invalidConfig _ => false

end Refusal

/-! ### Rejected values -/

/-- A value that was not pushed, with the reason. -/
structure Rejected (α : Type) where
  /-- The value, handed back. -/
  value : α
  /-- Why it was not pushed. -/
  reason : Refusal

namespace Rejected

variable {α : Type}

/-- The rejection in words; the value is not mentioned. -/
def message (r : Rejected α) : String :=
  "push rejected: " ++ r.reason.message

/-- How the rejection is built. The value is one of its fields and is not shown, because it need
not have an outline. -/
def outline (r : Rejected α) : Text.Outline :=
  .record "PushError" [("error", r.reason.outline)] true

/-- No slot was free. -/
def isFull (r : Rejected α) : Bool :=
  decide (r.reason = .full)

/-- The queue was closed. -/
def isClosed (r : Rejected α) : Bool :=
  decide (r.reason = .closed)

/-- The error beneath this one. The reason is part of the rejection itself, so there is none. -/
def source? (_ : Rejected α) : Option Refusal :=
  none

end Rejected

/-! ### Elements that were not built -/

/-- Why an element was not built in place. -/
inductive Unbuilt (ε : Type)
  /-- The queue turned the call down; the constructor did not run. -/
  | refused (reason : Refusal)
  /-- The constructor failed; its permit went back. -/
  | failed (error : ε)
  deriving DecidableEq, Repr

namespace Unbuilt

variable {ε : Type}

/-- The failure in words, where `describe` puts a constructor's error into words. -/
def message (describe : ε → String) : Unbuilt ε → String
  | refused r => r.message
  | failed e => "element construction failed: " ++ describe e

/-- How the failure is built, where `depict` outlines a constructor's error. -/
def outline (depict : ε → Text.Outline) : Unbuilt ε → Text.Outline
  | refused r => .applied "Queue" [r.outline]
  | failed e => .applied "Construct" [depict e]

end Unbuilt

end PermitRing
