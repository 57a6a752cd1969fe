import PermitRing.Command.Elapsed
import PermitRing.Command.Relay
import PermitRing.Command.Script

/-!
# The stress test

Many producers and consumers on one small queue; the sides that one thread at a time may use get one
thread. Every number has to arrive once, which their sum shows. The test is given up when the
producers have not ended within a time limit, which happens only if nobody consumes and the numbers
do not fit the queue.
-/

namespace PermitRing.Command

/-- What a stress test is to do. -/
structure Stress where
  /-- Which sides several threads may use. -/
  discipline : Discipline
  /-- The numbers of each producer. -/
  perProducer : Nat
  /-- The number of slots. -/
  capacity : Nat
  /-- The threads on a side that several may use. -/
  threads : Nat
  /-- The time limit, in milliseconds. -/
  limit : Nat
  deriving DecidableEq, Repr

namespace Stress

/-- The test that the arguments and the environment ask for; what cannot be read has a default. -/
def ofArguments (args : List String) (env : Environment) : Stress where
  discipline := (args[0]?.bind Discipline.ofText?).getD .mpmc
  perProducer := (args[1]?.bind fun s => Text.unsigned? 64 s.toList).getD 200000
  capacity := (args[2]?.bind fun s => Text.unsigned? 64 s.toList).getD 8
  threads := env.read (Text.unsigned? 64) "BQ_STRESS_THREADS" 4
  limit := env.millis "BQ_STRESS_TIMEOUT_MS" 60000

/-- The threads that push. -/
def producers (x : Stress) : Nat :=
  if x.discipline.manyProducers then x.threads else 1

/-- The threads that pop. -/
def consumers (x : Stress) : Nat :=
  if x.discipline.manyConsumers then x.threads else 1

/-- All numbers, of all producers. -/
def total (x : Stress) : Nat :=
  x.producers * x.perProducer

/-- The sum of all numbers, which count up from zero. -/
def expectedSum (x : Stress) : Nat :=
  x.total * (x.total - 1) / 2

/-- The configuration of the queue. -/
def config (x : Stress) : Config :=
  { capacity := x.capacity, discipline := x.discipline }

/-! ### The work -/

/-- How the work ends. -/
inductive Ending
  /-- There was no queue to work with. -/
  | uncreated (r : Refusal)
  /-- The producers did not end. -/
  | stuck (t : Tally)
  /-- The queue was closed and its consumers ended. -/
  | ended (t : Tally) (q : Queue Nat)

/-- Does the work. -/
def work (x : Stress) : Ending :=
  match Queue.create x.discipline x.config (fun _ _ => 0) with
  | .error r => .uncreated r
  | .ok queue =>
    let receives := x.consumers != 0
    match Relay.send receives x.total 0 { queue } with
    | (r, 0) =>
      let r := r.finish receives
      .ended r.tally r.queue
    | (r, _) => .stuck r.tally

/-! ### The report -/

/-- What is written before the work is done. -/
def heading (x : Stress) : List Event :=
  [outLine "=== boundq Stress Test ===\n",
   outLine (x.discipline.name ++ ": " ++ toString x.producers ++ " producers x " ++
     toString x.perProducer ++ " items, " ++ toString x.consumers ++ " consumers, capacity " ++
     toString x.capacity)]

/-- How far the work is. -/
def progress (x : Stress) (t : Tally) : Event :=
  .out ("\rReceived: " ++ toString t.received ++ "/" ++ toString x.total)

/-- The sum of the received numbers is that of all numbers. -/
def checks (x : Stress) (t : Tally) : Bool :=
  t.checksum == x.expectedSum

/-- The table of results. -/
def results (x : Stress) (t : Tally) (q : Queue Nat) (nanos : Nat) : List Event :=
  [outLine "\n\n=== Results ===",
   outLine ("Items sent:      " ++ toString x.total),
   outLine ("Items received:  " ++ toString t.received),
   outLine ("Checksum ok:     " ++ toString (x.checks t)),
   outLine ("Final state:     " ++ q.state.name),
   outLine ("Time:            " ++ elapsedText nanos),
   outLine ("Throughput:      " ++ perSecond t.received nanos ++ " items/sec")]

/-- What is written about the end of the work, and whether the test was passed. -/
def report (s : Log.Settings) (x : Stress) (nanos : Nat) : Ending → List Event × Bool
  | .uncreated r =>
    (logged s "main" (Queue.creationMessages x.discipline x.config) ++
      [outLine ("failed to create queue: " ++ r.message)], false)
  | .stuck t =>
    ([x.progress t, .pause x.limit,
      outLine ("\nTimeout! Only " ++ toString t.received ++ "/" ++ toString x.total ++
        " received")], false)
  | .ended t q =>
    (x.progress t :: x.results t q nanos ++
      logged s "main"
        (⟨.info, x.discipline.name ++ " stress finished in " ++ elapsedText nanos⟩ ::
          q.dropMessages),
      t.received == x.total && x.checks t && decide (q.state = .closed))

/-- The whole program, given how the work ended and how long it took. -/
def script (s : Log.Settings) (x : Stress) (e : Ending) (nanos : Nat) : Script :=
  let (events, passed) := x.report s nanos e
  if passed then ⟨x.heading ++ events ++ [outLine "\n=== Stress Test Complete ==="], 0⟩
  else ⟨x.heading ++ events ++ [outLine "\n=== Stress Test FAILED ==="], 1⟩

end Stress

end PermitRing.Command
