import PermitRing.Queue.Point

/-!
# Threads on a queue

Any number of threads, each with a list of calls to make on one queue. At every step one thread
takes the next atomic step of its call; which one is a matter of choice, so the reachable states are
those of all interleavings.

## Main definitions

* `Machine.step?` — the step of one thread, if it can take one;
* `Machine.Reachable` — the states that some sequence of choices leads to;
* `Machine.round`, `Machine.rounds` — turn by turn, one step of every thread that can take one.

## Implementation notes

A call to iterate is a pop that is made again after every element; it ends when a pop is refused.
-/

namespace PermitRing.Queue

/-- A call on a queue. -/
inductive Call (α : Type)
  /-- Pushes an element. -/
  | push (v : α) (wait : Wait)
  /-- Constructs an element in place. -/
  | emplace (wait : Wait) (fallible : Bool) (build : Build α)
  /-- Pops an element. -/
  | pop (wait : Wait)
  /-- Pops elements until the queue is finished. -/
  | iter
  /-- Closes the queue. -/
  | close
  /-- Asks for the stage of the queue's life. -/
  | state

/-- Where a thread stands inside a call. -/
inductive Point (α : Type)
  /-- It puts an element in. -/
  | producing (p : Producing α)
  /-- It takes an element out. -/
  | consuming (p : Consuming α)
  /-- It closes the queue. -/
  | closing (p : Closing)
  /-- It asks for the stage of the queue's life. -/
  | observing (p : Observing)

/-- A thread. -/
structure Thread (α : Type) where
  /-- The calls that it has not finished; it is inside the first one, if it is inside any. -/
  calls : List (Call α)
  /-- Where it stands; none between two calls. -/
  point : Option (Point α) := none
  /-- The answers of the calls that it finished, the latest first. -/
  answers : List (Answer α) := []

/-- Threads on a queue. -/
structure Machine (α : Type) where
  /-- The queue. -/
  queue : Queue α
  /-- The threads. -/
  threads : List (Thread α)

variable {α : Type}

/-! ### One thread -/

/-- The point at which a call begins. -/
def Call.first : Call α → Point α
  | .push .. | .emplace .. => .producing .checkOpen
  | .pop _ | .iter => .consuming (.look .load)
  | .close => .closing .swap
  | .state => .observing .openFirst

/-- How long the call waits. -/
def Call.wait : Call α → Wait
  | .push _ wait | .emplace wait _ _ | .pop wait => wait
  | .iter | .close | .state => .atMost .endless

/-- What the call is to put into the queue. -/
def Call.job? : Call α → Option (Job α)
  | .push v _ => some (.value v)
  | .emplace _ fallible build => some (.construction fallible build)
  | .pop _ | .iter | .close | .state => none

/-- Whether the call is made again after an answer. -/
def Call.isRepeated : Call α → Answer α → Bool
  | .iter, .popped _ => true
  | _, _ => false

/-- What leads on at a kind of point leads on. -/
def liftProgress {π : Type} (f : π → Point α) :
    Progress π (Answer α) × Queue α → Progress (Point α) (Answer α) × Queue α
  | (.more p, q) => (.more (f p), q)
  | (.done a, q) => (.done a, q)

/-- The next step of a thread inside a call. -/
def Point.step (call : Call α) (c : Choice) :
    Point α → Queue α → Option (Progress (Point α) (Answer α) × Queue α)
  | .producing p, q =>
    call.job?.bind fun job => (p.step call.wait job c q).map (liftProgress .producing)
  | .consuming p, q => (p.step call.wait c q).map (liftProgress .consuming)
  | .closing p, q => some (liftProgress .closing (p.step q))
  | .observing p, q => some (liftProgress .observing (p.step q))

/-- The next step of a thread, if it can take one. -/
def Thread.step? (c : Choice) (t : Thread α) (q : Queue α) : Option (Thread α × Queue α) :=
  match t.calls with
  | [] => none
  | call :: calls =>
    ((t.point.getD call.first).step call c q).map fun
      | (.more p, q) => ({ t with point := some p }, q)
      | (.done a, q) =>
        ({ calls := if call.isRepeated a then call :: calls else calls
           point := none
           answers := a :: t.answers }, q)

/-- The thread has finished all its calls. -/
def Thread.isFinished (t : Thread α) : Bool :=
  t.calls.isEmpty

namespace Machine

/-! ### All threads -/

/-- The step that a choice stands for, if its thread can take one. -/
def step? (c : Choice) (m : Machine α) : Option (Machine α) :=
  (m.threads[c.thread]?).bind fun t =>
    (t.step? c m.queue).map fun (t, q) => ⟨q, m.threads.set c.thread t⟩

/-- The states that some sequence of choices leads to. -/
inductive Reachable (start : Machine α) : Machine α → Prop
  /-- The state at the beginning. -/
  | refl : Reachable start start
  /-- One step further. -/
  | step {m n : Machine α} (c : Choice) (h : Reachable start m) (hs : m.step? c = some n) :
    Reachable start n

/-- The state after a sequence of choices; one that stands for no step changes nothing. -/
def run (cs : List Choice) (m : Machine α) : Machine α :=
  cs.foldl (fun m c => (m.step? c).getD m) m

/-! ### Turns -/

/-- The choices of one round, in which every thread has its turn. -/
def turn (m : Machine α) : List Choice :=
  (List.range m.threads.length).map fun t => { thread := t }

/-- The state after one round. -/
def round (m : Machine α) : Machine α :=
  m.run m.turn

/-- All threads have finished. -/
def isFinished (m : Machine α) : Bool :=
  m.threads.all Thread.isFinished

/-- The state after at most so many rounds; nothing happens once `stop` holds. -/
def roundsUntil (stop : Machine α → Bool) : Nat → Machine α → Machine α
  | 0, m => m
  | n + 1, m => if stop m then m else roundsUntil stop n m.round

end Machine

end PermitRing.Queue
