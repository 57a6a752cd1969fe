import PermitRing.Queue.Machine

/-!
# Transfers

Several threads push numbered elements into one queue and several others take them out until the
queue is finished. The queue is closed when all producers have ended, or right at the start, while
they are at work. What comes out does not depend on the interleaving except for the order in which
different consumers get their elements; here the threads take turns, one atomic step each.
-/

namespace PermitRing

/-- What is to be transferred, and by how many threads. -/
structure Transfer where
  /-- Which sides of the queue several threads may use. -/
  discipline : Discipline
  /-- The number of slots. -/
  capacity : Nat := ({} : Config).capacity
  /-- The threads that push. -/
  producers : Nat := 1
  /-- The threads that pop. -/
  consumers : Nat := 1
  /-- The elements that each producer pushes. -/
  perProducer : Nat := 1
  /-- Rounds that a thread spins at a slot. -/
  spinLimit : Nat := Backoff.defaultSpinLimit
  /-- The queue is closed at the start. -/
  closesEarly : Bool := false
  deriving DecidableEq, Repr

namespace Transfer

/-! ### The threads -/

/-- The calls of a producer: its elements are numbered on from those of the producers before it. -/
def pushes (x : Transfer) (producer : Nat) : List (Queue.Call Nat) :=
  (List.range x.perProducer).map fun i =>
    .push (producer * x.perProducer + i) (.atMost .endless)

/-- The configuration of the queue. -/
def config (x : Transfer) : Config :=
  { capacity := x.capacity, discipline := x.discipline, spinLimit := x.spinLimit }

/-- The threads before their first step: producers, then consumers. -/
def threads (x : Transfer) : List (Queue.Thread Nat) :=
  ((List.range x.producers).map fun p => { calls := x.pushes p }) ++
    List.replicate x.consumers { calls := [.iter] }

/-- The thread that closes the queue. -/
def closer : Queue.Thread Nat :=
  { calls := [.close] }

/-- A bound on the rounds of a transfer in which no thread waits for ever. -/
def rounds (x : Transfer) : Nat :=
  1000 * (x.producers * x.perProducer + x.producers + x.consumers + 1)

/-- All producers have ended. -/
def producersEnded (x : Transfer) (m : Queue.Machine Nat) : Bool :=
  (m.threads.take x.producers).all Queue.Thread.isFinished

/-- Runs the threads on a queue until all have ended; the thread that closes it is the last one. -/
def runOn (x : Transfer) (queue : Queue Nat) : Queue.Machine Nat :=
  let m : Queue.Machine Nat := ⟨queue, x.threads⟩
  let m := if x.closesEarly then m else m.roundsUntil x.producersEnded x.rounds
  { m with threads := m.threads ++ [closer] }.roundsUntil Queue.Machine.isFinished x.rounds

/-! ### What came of it -/

/-- What came of a transfer. -/
structure Result where
  /-- The pushes that succeeded. -/
  accepted : Nat
  /-- Whether the queue was closed by this transfer. -/
  closed : Bool
  /-- What each consumer received, in order. -/
  received : List (List Nat)
  /-- The stage of the queue's life at the end. -/
  state : Lifecycle
  /-- The elements that are left. -/
  size : Nat
  /-- The slots that are free. -/
  free : Nat
  deriving DecidableEq, Repr

/-- A call succeeded that has nothing to hand out. -/
def isDone : Queue.Answer Nat → Bool
  | .done => true
  | _ => false

/-- The element that a pop took out. -/
def popped? : Queue.Answer Nat → Option Nat
  | .popped v => some v
  | _ => none

/-- What came of the threads. -/
def resultOf (x : Transfer) (m : Queue.Machine Nat) : Result where
  accepted := ((m.threads.take x.producers).flatMap Queue.Thread.answers).countP isDone
  closed := (m.threads.drop (x.producers + x.consumers)).any fun t => t.answers.any isDone
  received := ((m.threads.drop x.producers).take x.consumers).map fun t =>
    t.answers.reverse.filterMap popped?
  state := m.queue.state
  size := m.queue.size
  free := m.queue.free

/-- Carries out a transfer. -/
def run (x : Transfer) : Except Refusal Result :=
  match Queue.create x.discipline x.config (fun _ _ => 0) with
  | .error r => .error r
  | .ok queue => .ok (x.resultOf (x.runOn queue))

namespace Result

/-- All elements that were received, one consumer after the other. -/
def values (r : Result) : List Nat :=
  r.received.flatten

/-- All elements that were received, in increasing order. -/
def sorted (r : Result) : List Nat :=
  r.values.mergeSort

/-- No element was received twice. -/
def isUnique (r : Result) : Bool :=
  (r.sorted.zip r.sorted.tail).all fun p => decide (p.1 < p.2)

/-- As many elements were received as accepted. -/
def isConserved (r : Result) : Bool :=
  r.values.length == r.accepted

/-- The elements of each producer were received in the order in which it pushed them. -/
def isOrdered (x : Transfer) (r : Result) : Bool :=
  (List.range x.producers).all fun p =>
    let own := r.values.filter fun v => v / x.perProducer == p
    (own.zip own.tail).all fun p => decide (p.1 < p.2)

end Result

end Transfer

end PermitRing
