import PermitRing.Command.Script
import PermitRing.Queue.Basic

/-!
# The demonstration

One producer pushes ten numbers into a queue of four slots while a slow consumer pops them. The
producer waits whenever the queue is full, tries a construction that fails, and closes the queue;
the consumer takes what is left and stops.
-/

namespace PermitRing.Command.Demo

/-- The numbers that are pushed. -/
def numbers : List Nat :=
  (List.range 10).map (· + 1)

/-- The configuration of the queue. -/
def config : Config :=
  { capacity := 4, discipline := .spsc, debugLogging := true }

/-- The name of the producer's thread in the log. -/
def producerName : String := "ThreadId(2)"

/-- The name of the program's own thread in the log. -/
def mainName : String := "main"

/-- The demonstration under way. -/
structure Progress where
  /-- The queue. -/
  queue : Queue Nat
  /-- The numbers received so far. -/
  received : List Nat := []
  /-- What has been done so far. -/
  events : List Event := []

namespace Progress

/-- Something is done. -/
def add (es : List Event) (p : Progress) : Progress :=
  { p with events := p.events ++ es }

/-- The consumer takes a number, if one is ready, and is slow about it. -/
def consume (p : Progress) : Progress :=
  match p.queue.pop 0 .never with
  | (some (.popped v), q) =>
    { p with queue := q, received := p.received ++ [v] }.add
      [outLine ("[Consumer] Received: " ++ toString v), .pause 5]
  | (_, q) => { p with queue := q }

/-- The producer pushes a number; if the queue is full the consumer acts first. -/
def produce (s : Log.Settings) (p : Progress) (v : Nat) : Progress :=
  let p := p.add (logged s producerName
    [⟨.debug, "[Producer] pushing " ++ toString v ++ " (size ~" ++ toString p.queue.size ++ ")"⟩])
  let p := if p.queue.isFull then p.consume else p
  match p.queue.push 0 v .never with
  | (some (.rejected r), q) =>
    { p with queue := q }.add
      [outLine ("[Producer] push " ++ toString v ++ " failed: " ++ r.reason.message)]
  | (_, q) => { p with queue := q }.add [outLine ("[Producer] Sent: " ++ toString v)]

/-- The producer tries a construction that fails, and leaves no trace of it in the queue. -/
def construct (s : Log.Settings) (p : Progress) : Progress :=
  let p := if p.queue.isFull then p.consume else p
  match p.queue.admitProducer 0 .never with
  | (some (.ok ()), q) =>
    { p with queue := q.abandonProducer }.add
      (logged s producerName Queue.rollbackMessages ++
        [outLine "[Producer] emplace rolled back: sensor offline"])
  | (_, q) => { p with queue := q }

/-- The producer closes the queue and ends. -/
def close (s : Log.Settings) (p : Progress) : Progress :=
  let messages := p.queue.closeMessages
  { p with queue := p.queue.close.2 }.add
    (logged s producerName messages ++ [outLine "[Producer] Done, queue closed"])

end Progress

/-- The demonstration with a queue. -/
def withQueue (s : Log.Settings) (q : Queue Nat) : Progress :=
  let p := ((numbers.foldl (Progress.produce s) { queue := q }).construct s).close s
  (config.capacity).repeat Progress.consume p

/-- The whole program. -/
def script (s : Log.Settings) : Script :=
  let opening := outLine "=== boundq Basic Example ===\n" ::
    logged s mainName (Queue.creationMessages .spsc config)
  match Queue.create .spsc config (fun _ _ => 0) with
  | .error r => ⟨opening ++ [errLine ("failed to create queue: " ++ r.message)], 1⟩
  | .ok q =>
    let p := withQueue s q
    ⟨opening ++ p.events ++
      logged s mainName
        [⟨.info, "consumer received " ++ toString p.received.length ++ " values"⟩] ++
      [outLine ("\nReceived in order: [" ++ ", ".intercalate (p.received.map toString) ++ "]"),
       outLine "\n=== Example Complete ==="], 0⟩

end PermitRing.Command.Demo
