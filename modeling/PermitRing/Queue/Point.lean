import PermitRing.Queue.Answer

/-!
# Points of an operation

Every operation on a queue is a sequence of atomic steps, between which other threads may act: a
load, a store, a compare-and-swap or a fetch-and-add on one shared word, one falling asleep or
rousing in the operating system, or one move of an element into or out of a slot. Here are the
points at which a thread may stand between two such steps, and the step that follows each of them.

## Main definitions

* `Awaiting` — a thread waits for a permit of one side;
* `Finishing` — a producer leaves the queue;
* `Producing`, `Consuming` — the whole of a push or an emplace, and of a pop;
* `Closing`, `Observing` — a call of `close`, and of `state`.

## Implementation notes

A step has no outcome where the thread cannot take one, which happens only while it sleeps. What
the steps do not determine is left to a `Choice`: whether a compare-and-swap fails without cause,
and whether the thread's time limit has passed. A constructor is one step, because nothing that it
does itself is shared.
-/

namespace PermitRing.Queue

variable {α : Type}

/-- What is left open about one step of a thread. -/
structure Choice where
  /-- The thread that takes the step. -/
  thread : Nat
  /-- Its compare-and-swap fails without cause. -/
  spurious : Bool := false
  /-- Its time limit has passed. -/
  expired : Bool := false
  deriving DecidableEq, Repr, Inhabited

/-- The permits of a side. -/
def permits (x : Side) (q : Queue α) : Permits :=
  q.gate.side x

/-- The queue with the permits of a side replaced. -/
def setPermits (x : Side) (p : Permits) (q : Queue α) : Queue α :=
  { q with gate := q.gate.setSide x p }

/-- The queue with the parker of a side replaced. -/
def setParker (x : Side) (k : Parker) (q : Queue α) : Queue α :=
  q.setPermits x { q.permits x with parker := k }

/-! ### Steps on the permits of one side -/

/-- A step of taking a permit without waiting; `here` and `next` say where it leads. -/
def stepTaking {π ρ : Type} (x : Side) (c : Choice) (p : Permits.Taking) (q : Queue α)
    (here : Permits.Taking → π) (next : Bool → Progress π ρ) : Progress π ρ × Queue α :=
  match p.step c.spurious (q.permits x) with
  | (.more p, k) => (.more (here p), q.setPermits x k)
  | (.done b, k) => (next b, q.setPermits x k)

/-- A step of waking one thread, or all; `here` and `next` say where it leads. -/
def stepWaking {π ρ : Type} (x : Side) (every : Bool) (w : Permits.Waking) (q : Queue α)
    (here : Permits.Waking → π) (next : Progress π ρ) : Progress π ρ × Queue α :=
  match w.step every (q.permits x) with
  | (.more w, k) => (.more (here w), q.setPermits x k)
  | (.done (), k) => (next, q.setPermits x k)

/-! ### Waiting for a permit -/

/-- Where a thread stands that waits for a permit. -/
inductive Awaiting
  /-- It looks for a permit before it waits. -/
  | fast (p : Permits.Taking)
  /-- It is about to read the epoch. -/
  | prepare
  /-- It looks for a permit after it has read the epoch. -/
  | look (epoch : Nat) (p : Permits.Taking)
  /-- It asks whether the queue is open. -/
  | askOpen (epoch : Nat)
  /-- It asks whether producers are inside a closed queue. -/
  | askPending (epoch : Nat)
  /-- Waiting makes no sense; it looks for a permit once more. -/
  | lastLook (p : Permits.Taking)
  /-- It asks whether its time limit has passed. -/
  | deadline (epoch : Nat)
  /-- It is about to enter the parker. -/
  | enlist (epoch : Nat)
  /-- It is about to fall asleep, if the epoch is still the one that it read. -/
  | sleep (epoch : Nat)
  /-- It fell asleep. -/
  | asleep
  /-- It is about to leave the parker. -/
  | leave
  deriving DecidableEq, Repr

/-- The next step of a thread that waits for a permit of a side. A producer gives up when the queue
is closed, and a consumer when it is also left by all producers. -/
def Awaiting.step (x : Side) (limit : Patience) (c : Choice) :
    Awaiting → Queue α → Option (Progress Awaiting Permits.Outcome × Queue α)
  | .fast p, q =>
    some (stepTaking x c p q .fast fun b => if b then .done .acquired else .more .prepare)
  | .prepare, q => some (.more (.look (q.permits x).parker.epoch .load), q)
  | .look e p, q =>
    some (stepTaking x c p q (.look e) fun b => if b then .done .acquired else .more (.askOpen e))
  | .askOpen e, q =>
    if q.isOpen then some (.more (.deadline e), q)
    else match x with
      | .produce => some (.more (.lastLook .load), q)
      | .consume => some (.more (.askPending e), q)
  | .askPending e, q =>
    some (.more (if q.pending = 0 then .lastLook .load else .deadline e), q)
  | .lastLook p, q =>
    some (stepTaking x c p q .lastLook fun b => .done (if b then .acquired else .cancelled))
  | .deadline e, q =>
    if limit = .instant ∨ limit ≠ .endless ∧ c.expired = true then some (.done .timedOut, q)
    else some (.more (.enlist e), q)
  | .enlist e, q => some (.more (.sleep e), q.setParker x (q.permits x).parker.enlist)
  | .sleep e, q =>
    let k := (q.permits x).parker
    if k.epoch = e then some (.more .asleep, q.setParker x (k.doze c.thread e))
    else some (.more .leave, q)
  | .asleep, q =>
    let k := (q.permits x).parker
    if k.isAsleep c.thread then
      if limit ≠ .endless ∧ c.expired = true then
        some (.more .leave, q.setParker x (k.getUp c.thread))
      else none
    else some (.more .leave, q)
  | .leave, q => some (.more .prepare, q.setParker x (q.permits x).parker.leave)

/-! ### Producers -/

/-- Where a producer stands that leaves the queue. -/
inductive Finishing
  /-- It is about to take itself off the count. -/
  | count
  /-- It was the last one and asks whether the queue is open. -/
  | check
  /-- It wakes the consumers of a closed queue. -/
  | wake (w : Permits.Waking)
  deriving DecidableEq, Repr

/-- The next step of a producer that leaves the queue. -/
def Finishing.step : Finishing → Queue α → Progress Finishing Unit × Queue α
  | .count, q =>
    (if q.pending = 1 then .more .check else .done (), { q with pending := Word.pred q.pending })
  | .check, q => (if q.isOpen then .done () else .more (.wake .bump), q)
  | .wake w, q => stepWaking .consume true w q .wake (.done ())

/-- What a producer is to put into the queue. -/
inductive Job (α : Type)
  /-- An element that it brings along. -/
  | value (v : α)
  /-- One that is constructed in place. -/
  | construction (fallible : Bool) (build : Build α)

/-- The answer of a producer that the queue turns down. -/
def Job.refused : Job α → Refusal → Answer α
  | .value v, r => .rejected ⟨v, r⟩
  | .construction fallible _, r => .ofRefusal fallible r

/-- Where a producer stands. -/
inductive Producing (α : Type)
  /-- It asks whether the queue is open. -/
  | checkOpen
  /-- It looks for a permit and will not wait. -/
  | look (p : Permits.Taking)
  /-- It waits for a permit. -/
  | wait (a : Awaiting)
  /-- It has a permit and is about to be counted. -/
  | enter
  /-- It is counted and asks again whether the queue is open. -/
  | recheck
  /-- The constructor runs. -/
  | construct
  /-- It claims a position for its element. -/
  | claim (v : α) (x : Index.Claiming)
  /-- It moves its element into the slot at its position. -/
  | write (v : α) (i : Nat) (w : Slot.Writing)
  /-- It is about to hand out a permit for its element. -/
  | give
  /-- It wakes a consumer. -/
  | wake (w : Permits.Waking)
  /-- It has no element after all and is about to hand its permit back. -/
  | giveBack (a : Answer α)
  /-- It wakes another producer. -/
  | wakeBack (a : Answer α) (w : Permits.Waking)
  /-- It leaves the queue with an answer. -/
  | finish (a : Answer α) (f : Finishing)

/-- The next step of a producer. -/
def Producing.step (wait : Wait) (job : Job α) (c : Choice) :
    Producing α → Queue α → Option (Progress (Producing α) (Answer α) × Queue α)
  | .checkOpen, q =>
    if !q.isOpen then some (.done (job.refused .closed), q)
    else match wait with
      | .never => some (.more (.look .load), q)
      | .atMost _ => some (.more (.wait (.fast .load)), q)
  | .look p, q =>
    some (stepTaking .produce c p q .look fun b =>
      if b then .more .enter else .done (job.refused .full))
  | .wait a, q =>
    match wait with
    | .never => none
    | .atMost limit =>
      (a.step .produce limit c q).map fun (r, q) =>
        (match r with
          | .more a => .more (.wait a)
          | .done .acquired => .more .enter
          | .done .cancelled => .done (job.refused .closed)
          | .done .timedOut => .done (job.refused .timedOut), q)
  | .enter, q => some (.more .recheck, { q with pending := Word.succ q.pending })
  | .recheck, q =>
    if !q.isOpen then some (.more (.giveBack (job.refused .closed)), q)
    else match job with
      | .value v => some (.more (.claim v .start), q)
      | .construction _ _ => some (.more .construct, q)
  | .construct, q =>
    match job with
    | .value v | .construction _ (.built v) => some (.more (.claim v .start), q)
    | .construction _ (.failed e) => some (.more (.giveBack (.unbuilt (.failed e))), q)
    | .construction _ (.raised text) => some (.more (.giveBack (.faulted (.raised text))), q)
  | .claim v x, q =>
    match x.step q.capacity c.spurious q.tail with
    | (.more x, tail) => some (.more (.claim v x), { q with tail })
    | (.done (.ok i), tail) =>
      some (.more (.write v i (.claim (.start q.spinLimit))), { q with tail })
    | (.done (.error f), tail) => some (.done (.faulted f), { q with tail })
  | .write v i w, q =>
    match q.storage.slot i with
    | .error f => some (.done (.faulted f), q)
    | .ok s =>
      match w.step v c.spurious s with
      | (.more w, s) => some (.more (.write v i w), { q with storage := q.storage.put i s })
      | (.done (), s) => some (.more .give, { q with storage := q.storage.put i s })
  | .give, q => some (.more (.wake .bump), q.setConsume q.gate.consume.give)
  | .wake w, q => some (stepWaking .consume false w q .wake (.more (.finish .done .count)))
  | .giveBack a, q => some (.more (.wakeBack a .bump), q.setProduce q.gate.produce.give)
  | .wakeBack a w, q =>
    some (stepWaking .produce false w q (.wakeBack a) (.more (.finish a .count)))
  | .finish a f, q =>
    match f.step q with
    | (.more f, q) => some (.more (.finish a f), q)
    | (.done (), q) => some (.done a, q)

/-! ### Consumers -/

/-- Where a consumer stands. -/
inductive Consuming (α : Type)
  /-- It looks for a permit. -/
  | look (p : Permits.Taking)
  /-- There is none, it will not wait, and it asks whether the queue is open. -/
  | askOpen
  /-- It asks whether producers are inside the closed queue. -/
  | askPending
  /-- There are none, and it looks for a permit once more. -/
  | lastLook (p : Permits.Taking)
  /-- It waits for a permit. -/
  | wait (a : Awaiting)
  /-- It claims the position of an element. -/
  | claim (x : Index.Claiming)
  /-- It moves the element out of the slot at its position. -/
  | take (i : Nat) (t : Slot.Taking α)
  /-- It is about to hand out a permit for the slot. -/
  | give (v : α)
  /-- It wakes a producer. -/
  | wake (v : α) (w : Permits.Waking)

/-- The next step of a consumer. -/
def Consuming.step (wait : Wait) (c : Choice) :
    Consuming α → Queue α → Option (Progress (Consuming α) (Answer α) × Queue α)
  | .look p, q =>
    some (stepTaking .consume c p q .look fun b =>
      if b then .more (.claim .start)
      else match wait with
        | .never => .more .askOpen
        | .atMost _ => .more (.wait (.fast .load)))
  | .askOpen, q => some (if q.isOpen then .done (.refused .empty) else .more .askPending, q)
  | .askPending, q =>
    some (if q.pending = 0 then .more (.lastLook .load) else .done (.refused .empty), q)
  | .lastLook p, q =>
    some (stepTaking .consume c p q .lastLook fun b =>
      if b then .more (.claim .start) else .done (.refused .closed))
  | .wait a, q =>
    match wait with
    | .never => none
    | .atMost limit =>
      (a.step .consume limit c q).map fun (r, q) =>
        (match r with
          | .more a => .more (.wait a)
          | .done .acquired => .more (.claim .start)
          | .done .cancelled => .done (.refused .closed)
          | .done .timedOut => .done (.refused .timedOut), q)
  | .claim x, q =>
    match x.step q.capacity c.spurious q.head with
    | (.more x, head) => some (.more (.claim x), { q with head })
    | (.done (.ok i), head) => some (.more (.take i (.claim (.start q.spinLimit))), { q with head })
    | (.done (.error f), head) => some (.done (.faulted f), { q with head })
  | .take i t, q =>
    match q.storage.slot i with
    | .error f => some (.done (.faulted f), q)
    | .ok s =>
      match t.step c.spurious s with
      | (.more t, s) => some (.more (.take i t), { q with storage := q.storage.put i s })
      | (.done v, s) => some (.more (.give v), { q with storage := q.storage.put i s })
  | .give v, q => some (.more (.wake v .bump), q.setProduce q.gate.produce.give)
  | .wake v w, q => some (stepWaking .produce false w q (.wake v) (.done (.popped v)))

/-! ### Closing and observing -/

/-- Where a thread stands that closes the queue. -/
inductive Closing
  /-- It is about to swap the queue's state. -/
  | swap
  /-- It wakes the consumers. -/
  | wakeConsumers (w : Permits.Waking)
  /-- It wakes the producers. -/
  | wakeProducers (w : Permits.Waking)
  deriving DecidableEq, Repr

/-- The next step of a thread that closes the queue. -/
def Closing.step : Closing → Queue α → Progress Closing (Answer α) × Queue α
  | .swap, q =>
    if q.isOpen then (.more (.wakeConsumers .bump), { q with isOpen := false })
    else (.done (.refused .alreadyClosed), q)
  | .wakeConsumers w, q =>
    stepWaking .consume true w q .wakeConsumers (.more (.wakeProducers .bump))
  | .wakeProducers w, q => stepWaking .produce true w q .wakeProducers (.done .done)

/-- Where a thread stands that asks for the stage of the queue's life. -/
inductive Observing
  /-- It asks whether the queue is open. -/
  | openFirst
  /-- It was closed, and it asks once more, as part of asking whether it is drained. -/
  | openAgain
  /-- It asks whether producers are inside. -/
  | pending
  /-- There are none, and it asks whether elements are ready. -/
  | count
  deriving DecidableEq, Repr

/-- The next step of a thread that asks for the stage of the queue's life. -/
def Observing.step : Observing → Queue α → Progress Observing (Answer α) × Queue α
  | .openFirst, q => (if q.isOpen then .done (.state .opened) else .more .openAgain, q)
  | .openAgain, q => (if q.isOpen then .done (.state .draining) else .more .pending, q)
  | .pending, q => (if q.pending = 0 then .more .count else .done (.state .draining), q)
  | .count, q => (.done (.state (if q.size = 0 then .closed else .draining)), q)

end PermitRing.Queue
