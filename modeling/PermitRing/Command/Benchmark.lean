import PermitRing.Command.Elapsed
import PermitRing.Command.Relay
import PermitRing.Command.Script

/-!
# The benchmark

The same numbers are moved through a queue of each discipline and through a bare ring of slots, and
the rates are set side by side. A run that loses a number is not worth a rate and ends the program.
-/

namespace PermitRing.Command

/-- What a benchmark is to do. -/
structure Benchmark where
  /-- The numbers to be moved. -/
  items : Nat
  /-- The number of slots. -/
  capacity : Nat
  deriving DecidableEq, Repr

namespace Benchmark

/-- The benchmark that the arguments ask for; what cannot be read has a default. -/
def ofArguments (args : List String) : Benchmark where
  items := (args[0]?.bind fun s => Text.unsigned? 64 s.toList).getD 1000000
  capacity := (args[1]?.bind fun s => Text.unsigned? 64 s.toList).getD 1024

/-- The threads on a side, by whether several may use it. -/
def threads (many : Bool) : Nat :=
  if many then 4 else 1

/-- The threads that push into a queue. -/
def producers (d : Discipline) : Nat :=
  threads d.manyProducers

/-- The threads that pop from a queue. -/
def consumers (d : Discipline) : Nat :=
  threads d.manyConsumers

/-- The numbers that all producers push; those that do not divide evenly are left out. -/
def total (x : Benchmark) (d : Discipline) : Nat :=
  x.items / producers d * producers d

/-- The configuration of a queue. -/
def config (x : Benchmark) (d : Discipline) : Config :=
  { capacity := x.capacity, discipline := d }

/-! ### The work -/

/-- Moves the numbers through a queue: how many are received. -/
def throughQueue (x : Benchmark) (d : Discipline) : Except Refusal Nat :=
  match Queue.create d (x.config d) (fun _ _ => 0) with
  | .error r => .error r
  | .ok queue => .ok ((Relay.send true (x.total d) 0 { queue }).1.finish true).tally.received

/-- Moves the numbers through a ring: how many are received. -/
def throughRing (x : Benchmark) (d : Discipline) : Nat :=
  relayRing x.capacity (x.total d) 0 0 (.vacant x.capacity)

/-! ### The report -/

/-- What is written before the first run. -/
def heading (x : Benchmark) : List Event :=
  [outLine "=== boundq Benchmark ===\n",
   outLine (toString x.items ++ " items, capacity " ++ toString x.capacity ++ "\n"),
   outLine (alignLeft 8 "kind" ++ " " ++ alignRight 6 "prod" ++ " " ++ alignRight 6 "cons" ++
     " " ++ alignRight 14 "boundq" ++ " " ++ alignRight 14 "ArrayQueue")]

/-- A rate as it stands in the table. -/
def rate (x : Benchmark) (nanos : Nat) : String :=
  alignRight 10 (millionsPerSecond x.items nanos) ++ " M/s"

/-- The line of a discipline, from the times that its two runs took. -/
def row (x : Benchmark) (d : Discipline) (queueNanos ringNanos : Nat) : Event :=
  outLine (alignLeft 8 d.name ++ " " ++ alignRight 6 (toString (producers d)) ++ " " ++
    alignRight 6 (toString (consumers d)) ++ " " ++ x.rate queueNanos ++ " " ++ x.rate ringNanos)

/-- What is written when a run fails. -/
def failure (reason : String) : Event :=
  errLine ("\nbenchmark FAILED: " ++ reason)

/-- What is written about a discipline whose queue could not be created. -/
def uncreated (s : Log.Settings) (x : Benchmark) (d : Discipline) (r : Refusal) : List Event :=
  logged s "main" (Queue.creationMessages d (x.config d)) ++
    [failure ("failed to create queue: " ++ r.message)]

/-- What is written about the two runs of a discipline, from what was received and how long it
took, and whether both were good. -/
def report (x : Benchmark) (d : Discipline) (received ringReceived queueNanos ringNanos : Nat) :
    List Event × Bool :=
  let ratio (n : Nat) : String := toString n ++ "/" ++ toString (x.total d)
  if received ≠ x.total d then ([failure ("boundq lost items: " ++ ratio received)], false)
  else if ringReceived ≠ x.total d then
    ([failure ("ArrayQueue lost items: " ++ ratio ringReceived)], false)
  else ([x.row d queueNanos ringNanos], true)

/-- What is written after the last run. -/
def closing : List Event :=
  [outLine "\n=== Benchmark Complete ==="]

/-- The runs of several disciplines one after the other, up to the first that is no good; all of
them take no time. -/
def untimed (s : Log.Settings) (x : Benchmark) : List Discipline → Script
  | [] => ⟨closing, 0⟩
  | d :: ds =>
    match x.throughQueue d with
    | .error r => ⟨uncreated s x d r, 1⟩
    | .ok n =>
      match x.report d n (x.throughRing d) 0 0 with
      | (events, false) => ⟨events, 1⟩
      | (events, true) =>
        let rest := untimed s x ds
        { rest with events := events ++ rest.events }

/-- The whole program, with runs that take no time. -/
def script (s : Log.Settings) (x : Benchmark) : Script :=
  let rest := x.untimed s Discipline.all
  { rest with events := x.heading ++ rest.events }

end Benchmark

end PermitRing.Command
