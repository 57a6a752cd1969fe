import PermitRing.Config
import PermitRing.Gate.Basic
import PermitRing.Index.Basic
import PermitRing.Lifecycle
import PermitRing.Log.Line
import PermitRing.Storage

/-!
# Bounded queues

A ring of slots with an index on either side, a gate that admits operations, and a closing that
takes producers into account that are already inside. A producer is admitted in two parts: it takes
a permit, is counted as *pending*, and then looks again whether the queue is still open. Pending
producers are waited for: a closed queue counts as drained only when there are none, so an element
whose producer was admitted is always handed out.

## Main definitions

* `Queue.create` — a queue from a configuration;
* `Queue.push`, `pop`, `close`, `state`, `drop` — the operations, as they go in a settled run;
* `Queue.admitProducer`, `publish`, `abandonProducer`, `admitConsumer`, `take` — the parts of them
  between which a constructor runs or a thread sleeps.

## Implementation notes

An operation that may fall asleep answers `none` when it does; the thread then waits in the gate
and goes on with `readmitProducer` or `readmitConsumer` once it is roused. The messages that an
operation logs are functions of their own, so the operations do not depend on the log.
-/

namespace PermitRing

/-- A bounded queue. -/
structure Queue (α : Type) where
  /-- Which sides several threads may use. -/
  discipline : Discipline
  /-- The slots. -/
  storage : Storage α
  /-- Where the next element goes in. -/
  tail : Index
  /-- Where the next element comes out. -/
  head : Index
  /-- Permits for both sides. -/
  gate : Gate
  /-- The queue has not been closed. -/
  isOpen : Bool
  /-- The producers that are counted as inside, as a word. -/
  pending : Nat
  /-- Rounds that a thread spins at a slot. -/
  spinLimit : Nat
  /-- Whether creation and closing are reported. -/
  debugLogging : Bool

namespace Queue

variable {α : Type}

/-! ### Creation -/

/-- The index of a side that several threads may use, or one. -/
def indexKind (many : Bool) : Index.Kind :=
  if many then .shared else .single

/-- An empty queue of a discipline. The configuration has to name the same one. -/
def create (d : Discipline) (c : Config) (order : Side → Nat → Nat) :
    Except Refusal (Queue α) :=
  match c.validate with
  | .error r => .error r
  | .ok () =>
    if c.discipline ≠ d then .error (.disciplineMismatch d c.discipline)
    else .ok
      { discipline := d
        storage := .vacant c.capacity
        tail := { kind := indexKind d.manyProducers }
        head := { kind := indexKind d.manyConsumers }
        gate := .start c.capacity order
        isOpen := true
        pending := 0
        spinLimit := c.spinLimit
        debugLogging := c.debugLogging }

/-- What creation logs. -/
def creationMessages (d : Discipline) (c : Config) : List Log.Message :=
  match c.validate with
  | .error r => [⟨.warn, "rejected queue config: " ++ r.message⟩]
  | .ok () =>
    if c.discipline ≠ d then
      [⟨.warn, "rejected queue config: " ++ c.discipline.name ++ " requested for a " ++ d.name ++
        " queue"⟩]
    else if c.debugLogging then
      [⟨.debug, "creating " ++ d.name ++ " queue: capacity=" ++ toString c.capacity ++
        " spin_limit=" ++ toString c.spinLimit⟩]
    else []

/-! ### Views -/

/-- The number of slots. -/
def capacity (q : Queue α) : Nat :=
  q.storage.capacity

/-- The elements that are ready. -/
def size (q : Queue α) : Nat :=
  q.gate.consume.count

/-- The slots that are free. -/
def free (q : Queue α) : Nat :=
  q.gate.produce.count

/-- The queue was closed. -/
def isClosed (q : Queue α) : Bool :=
  !q.isOpen

/-- No element is ready. -/
def isEmpty (q : Queue α) : Bool :=
  q.size == 0

/-- No slot is free. -/
def isFull (q : Queue α) : Bool :=
  q.free == 0

/-- The queue was closed and no producer is inside, so nothing will be added. -/
def isDrained (q : Queue α) : Bool :=
  !q.isOpen && q.pending == 0

/-- The stage of the queue's life. -/
def state (q : Queue α) : Lifecycle :=
  if q.isOpen then .opened
  else if q.isDrained && q.size == 0 then .closed
  else .draining

/-- The producers that wait for a slot. -/
def blockedProducers (q : Queue α) : Nat :=
  q.gate.produce.waiters

/-- The consumers that wait for an element. -/
def blockedConsumers (q : Queue α) : Nat :=
  q.gate.consume.waiters

/-- How the queue is built, as far as it shows. -/
def outline (q : Queue α) : Text.Outline :=
  .record "BoundedQueue"
    [("discipline", q.discipline.outline), ("capacity", .word (toString q.capacity)),
     ("state", q.state.outline), ("approx_size", .word (toString q.size)),
     ("blocked_producers", .word (toString q.blockedProducers)),
     ("blocked_consumers", .word (toString q.blockedConsumers))] false

/-! ### Permits of the queue's sides -/

/-- The queue with the permits of its producers replaced. -/
def setProduce (q : Queue α) (p : Permits) : Queue α :=
  { q with gate := { q.gate with produce := p } }

/-- The queue with the permits of its consumers replaced. -/
def setConsume (q : Queue α) (p : Permits) : Queue α :=
  { q with gate := { q.gate with consume := p } }

/-- The time limit of a thread passes: wherever it sleeps it gets up. -/
def expire (thread : Nat) (q : Queue α) : Queue α :=
  (q.setProduce (q.gate.produce.expire thread)).setConsume (q.gate.consume.expire thread)

/-! ### Producers -/

/-- A producer is no longer inside. The last one to leave a closed queue wakes the consumers, since
none of them will be woken by an element any more. -/
def finishProducer (q : Queue α) : Queue α :=
  let last := q.pending == 1
  let q := { q with pending := Word.pred q.pending }
  if last && !q.isOpen then q.setConsume q.gate.consume.releaseAll else q

/-- A producer gives its place back without having published. -/
def abandonProducer (q : Queue α) : Queue α :=
  (q.setProduce q.gate.produce.release).finishProducer

/-- A producer with a permit comes inside, unless the queue was closed in the meantime. -/
def enterProducer (q : Queue α) : Except Refusal Unit × Queue α :=
  let q := { q with pending := Word.succ q.pending }
  if q.isOpen then (.ok (), q) else (.error .closed, q.abandonProducer)

/-- What the end of a producer's wait for a permit leads to. -/
def enterAfter (q : Queue α) : Option Permits.Outcome → Option (Except Refusal Unit) × Queue α
  | none => (none, q)
  | some .cancelled => (some (.error .closed), q)
  | some .timedOut => (some (.error .timedOut), q)
  | some .acquired =>
    let (r, q) := q.enterProducer
    (some r, q)

/-- Admits a producer: no answer if it falls asleep. -/
def admitProducer (thread : Nat) (wait : Wait) (q : Queue α) :
    Option (Except Refusal Unit) × Queue α :=
  if !q.isOpen then (some (.error .closed), q)
  else match wait with
    | .never =>
      match q.gate.produce.take? with
      | none => (some (.error .full), q)
      | some p => (q.setProduce p).enterAfter (some .acquired)
    | .atMost limit =>
      let a := q.gate.produce.acquire thread limit [] (!q.isOpen)
      (q.setProduce a.permits).enterAfter a.outcome

/-- Admits a producer that slept. -/
def readmitProducer (thread : Nat) (limit : Patience) (q : Queue α) :
    Option (Except Refusal Unit) × Queue α :=
  let (o, p) := q.gate.produce.resume thread limit (!q.isOpen)
  (q.setProduce p).enterAfter o

/-- An admitted producer moves its element in and leaves. The fields are taken apart so that nobody
else holds the slots while one of them changes. -/
def publish (v : α) : Queue α → Except Fault Unit × Queue α
  | ⟨d, storage, tail, head, gate, isOpen, pending, spinLimit, debugLogging⟩ =>
    match tail.claim storage.capacity with
    | (.error f, tail) =>
      (.error f, ⟨d, storage, tail, head, gate, isOpen, pending, spinLimit, debugLogging⟩)
    | (.ok i, tail) =>
      match storage.write i v with
      | (.error f, storage) =>
        (.error f, ⟨d, storage, tail, head, gate, isOpen, pending, spinLimit, debugLogging⟩)
      | (.ok (), storage) =>
        let gate := { gate with consume := gate.consume.release }
        (.ok (), finishProducer
          ⟨d, storage, tail, head, gate, isOpen, pending, spinLimit, debugLogging⟩)

/-- How a push ends. -/
inductive Pushed (α : Type)
  /-- The element is in the queue. -/
  | accepted
  /-- It is not, and comes back. -/
  | rejected (r : Rejected α)
  /-- The call does not answer. -/
  | faulted (f : Fault)

/-- What the admission of a producer with an element leads to. -/
def pushAfter (v : α) : Option (Except Refusal Unit) × Queue α → Option (Pushed α) × Queue α
  | (none, q) => (none, q)
  | (some (.error r), q) => (some (.rejected ⟨v, r⟩), q)
  | (some (.ok ()), q) =>
    match q.publish v with
    | (.error f, q) => (some (.faulted f), q)
    | (.ok (), q) => (some .accepted, q)

/-- Pushes an element: no answer if the thread falls asleep. -/
def push (thread : Nat) (v : α) (wait : Wait) (q : Queue α) : Option (Pushed α) × Queue α :=
  pushAfter v (q.admitProducer thread wait)

/-- Goes on with a push that slept. -/
def resumePush (thread : Nat) (v : α) (limit : Patience) (q : Queue α) :
    Option (Pushed α) × Queue α :=
  pushAfter v (q.readmitProducer thread limit)

/-! ### Consumers -/

/-- What the end of a consumer's wait for a permit leads to. -/
def admittedAfter : Option Permits.Outcome → Option (Except Refusal Unit)
  | none => none
  | some .acquired => some (.ok ())
  | some .cancelled => some (.error .closed)
  | some .timedOut => some (.error .timedOut)

/-- Admits a consumer that slept. -/
def readmitConsumer (thread : Nat) (limit : Patience) (q : Queue α) :
    Option (Except Refusal Unit) × Queue α :=
  let (o, p) := q.gate.consume.resume thread limit q.isDrained
  (admittedAfter o, q.setConsume p)

/-- Admits a consumer: no answer if it falls asleep. A consumer that does not wait looks for a
permit once more after it has seen that nothing will be added. -/
def admitConsumer (thread : Nat) (wait : Wait) (q : Queue α) :
    Option (Except Refusal Unit) × Queue α :=
  match q.gate.consume.take? with
  | some p => (some (.ok ()), q.setConsume p)
  | none =>
    match wait with
    | .never =>
      if !q.isDrained then (some (.error .empty), q)
      else match q.gate.consume.take? with
        | some p => (some (.ok ()), q.setConsume p)
        | none => (some (.error .closed), q)
    | .atMost limit =>
      let a := q.gate.consume.acquire thread limit [] q.isDrained
      (admittedAfter a.outcome, q.setConsume a.permits)

/-- An admitted consumer moves its element out. -/
def take : Queue α → Except Fault α × Queue α
  | ⟨d, storage, tail, head, gate, isOpen, pending, spinLimit, debugLogging⟩ =>
    match head.claim storage.capacity with
    | (.error f, head) =>
      (.error f, ⟨d, storage, tail, head, gate, isOpen, pending, spinLimit, debugLogging⟩)
    | (.ok i, head) =>
      match storage.take i with
      | (.error f, storage) =>
        (.error f, ⟨d, storage, tail, head, gate, isOpen, pending, spinLimit, debugLogging⟩)
      | (.ok v, storage) =>
        let gate := { gate with produce := gate.produce.release }
        (.ok v, ⟨d, storage, tail, head, gate, isOpen, pending, spinLimit, debugLogging⟩)

/-- How a pop ends. -/
inductive Popped (α : Type)
  /-- An element was taken. -/
  | popped (v : α)
  /-- None was. -/
  | refused (r : Refusal)
  /-- The call does not answer. -/
  | faulted (f : Fault)

/-- What the admission of a consumer leads to. -/
def popAfter : Option (Except Refusal Unit) × Queue α → Option (Popped α) × Queue α
  | (none, q) => (none, q)
  | (some (.error r), q) => (some (.refused r), q)
  | (some (.ok ()), q) =>
    match q.take with
    | (.error f, q) => (some (.faulted f), q)
    | (.ok v, q) => (some (.popped v), q)

/-- Pops an element: no answer if the thread falls asleep. -/
def pop (thread : Nat) (wait : Wait) (q : Queue α) : Option (Popped α) × Queue α :=
  popAfter (q.admitConsumer thread wait)

/-- Goes on with a pop that slept. -/
def resumePop (thread : Nat) (limit : Patience) (q : Queue α) : Option (Popped α) × Queue α :=
  popAfter (q.readmitConsumer thread limit)

/-- Pops up to `n` elements without waiting, until there is none. -/
def popMany : Nat → Queue α → List α × Queue α
  | 0, q => ([], q)
  | n + 1, q =>
    match q.pop 0 .never with
    | (some (.popped v), q) =>
      let (vs, q) := popMany n q
      (v :: vs, q)
    | (_, q) => ([], q)

/-! ### Closing and destruction -/

/-- Closes the queue and wakes everybody who waits; only the first call does. -/
def close (q : Queue α) : Except Refusal Unit × Queue α :=
  if q.isOpen then (.ok (), { q with isOpen := false, gate := q.gate.wakeAll })
  else (.error .alreadyClosed, q)

/-- What a call of `close` logs. -/
def closeMessages (q : Queue α) : List Log.Message :=
  if !q.isOpen then
    [⟨.warn, "close() called on a " ++ q.discipline.name ++ " queue that is already " ++
      q.state.name⟩]
  else if q.debugLogging then
    [⟨.debug, q.discipline.name ++ " queue closed: " ++ toString q.size ++
      " items left to drain, " ++ toString q.pending ++ " producers in flight"⟩]
  else []

/-- Destroys the queue with the elements left in it, in the order of their slots. -/
def drop (q : Queue α) : List α :=
  q.storage.clear.1

/-- What the destruction of the queue logs. -/
def dropMessages (q : Queue α) : List Log.Message :=
  let n := q.drop.length
  if n = 0 then []
  else [⟨.debug, q.discipline.name ++ " queue dropped with " ++ toString n ++ " undrained items"⟩]

/-- What a failed construction logs after its reservation was given back. -/
def rollbackMessages : List Log.Message :=
  [⟨.trace, "element construction failed, slot reservation rolled back"⟩]

end Queue

end PermitRing
