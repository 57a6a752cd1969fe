import PermitRing.Queue.Basic

/-!
# Answers of a queue

What a caller gets to see: what each kind of call comes to, the properties that may be asked for,
and what shows of a queue while nothing happens to it. Runs of a queue, whether they are settled or
go in atomic steps, answer in the same terms.
-/

namespace PermitRing.Queue

/-! ### Constructors -/

/-- What a constructor does in the end. -/
inductive Build (α : Type)
  /-- It builds an element. -/
  | built (v : α)
  /-- It fails, with an error. -/
  | failed (error : String)
  /-- It gives up, with a text. -/
  | raised (text : String)
  deriving DecidableEq, Repr

/-! ### Answers -/

/-- The properties of a queue that a caller may ask for. -/
structure Info where
  /-- The number of slots. -/
  capacity : Nat
  /-- Which sides several threads may use. -/
  discipline : Discipline
  /-- The queue was closed. -/
  isClosed : Bool
  /-- No element is ready. -/
  isEmpty : Bool
  /-- No slot is free. -/
  isFull : Bool
  deriving DecidableEq, Repr

/-- The properties of a queue that a caller may ask for. -/
def info {α : Type} (q : Queue α) : Info :=
  ⟨q.capacity, q.discipline, q.isClosed, q.isEmpty, q.isFull⟩

/-- What a call comes to. -/
inductive Answer (α : Type)
  /-- It succeeded, and has nothing to hand out. -/
  | done
  /-- A push was turned down. -/
  | rejected (r : Rejected α)
  /-- An element was popped. -/
  | popped (v : α)
  /-- A pop, an infallible construction or a closing was turned down. -/
  | refused (r : Refusal)
  /-- Elements were popped one after the other. -/
  | values (vs : List α)
  /-- A fallible construction did not come about. -/
  | unbuilt (u : Unbuilt String)
  /-- The properties of the queue. -/
  | info (i : Info)
  /-- The outline of the queue. -/
  | outline (o : Text.Outline)
  /-- The stage of the queue's life. -/
  | state (s : Lifecycle)
  /-- The call does not answer. -/
  | faulted (f : Fault)
  /-- A thread sleeps in the call. -/
  | asleep (thread : Nat)
  /-- The time limit of a thread has passed. -/
  | elapsed (thread : Nat)

namespace Answer

variable {α : Type}

/-- The answer of a push. -/
def ofPushed : Pushed α → Answer α
  | .accepted => done
  | .rejected r => rejected r
  | .faulted f => faulted f

/-- The answer of a pop. -/
def ofPopped : Popped α → Answer α
  | .popped v => popped v
  | .refused r => refused r
  | .faulted f => faulted f

/-- The answer of a construction that the queue turned down. -/
def ofRefusal (fallible : Bool) (r : Refusal) : Answer α :=
  if fallible then unbuilt (.refused r) else refused r

end Answer

/-- What shows of a queue between two steps. -/
structure View where
  /-- The stage of its life. -/
  state : Lifecycle
  /-- The elements that are ready. -/
  size : Nat
  /-- The slots that are free. -/
  free : Nat
  /-- The producers that wait for a slot. -/
  blockedProducers : Nat
  /-- The consumers that wait for an element. -/
  blockedConsumers : Nat
  deriving DecidableEq, Repr

/-- What shows of a queue between two steps. -/
def view {α : Type} (q : Queue α) : View :=
  ⟨q.state, q.size, q.free, q.blockedProducers, q.blockedConsumers⟩

end PermitRing.Queue
