import PermitRing.Command.Benchmark
import PermitRing.Command.Demo
import PermitRing.Command.Stress
import PermitRing.Log.Logger

/-!
# The command line

Three programs under one roof, chosen by the first argument: the demonstration, the stress test and
the benchmark. This module reads arguments, variables and the clock and carries scripts out; what
they say is defined elsewhere.
-/

namespace PermitRing.Command

/-- The variables that the programs read. -/
def variableNames : List String :=
  ["BQ_LOG_LEVEL", "BQ_FLUSH_EPRINT", "BQ_LOG_TIME", "BQ_STRESS_THREADS", "BQ_STRESS_TIMEOUT_MS"]

/-- The variables that are set. -/
def readEnvironment : IO Environment := do
  let entries ← variableNames.filterMapM fun k => do
    return (← IO.getEnv k).map fun v => (k, v.toUTF8)
  return Environment.ofList entries

/-- Carries out events of a program that was started at a time. -/
def perform (s : Log.Settings) (start : Nat) (events : List Event) : IO Unit := do
  let out ← IO.getStdout
  let err ← IO.getStderr
  for e in events do
    match e with
    | .out text => out.putStr text; out.flush
    | .err line =>
      let now ← IO.monoNanosNow
      err.putStr (line.render s (Log.Line.stamp ((now - start) / 1000)))
      if s.flush then err.flush
    | .pause millis => IO.sleep millis.toUInt32

/-- A value and the nanoseconds that it took to find it. -/
def timed {β : Type} (f : Unit → β) : IO (β × Nat) := do
  let before ← IO.monoNanosNow
  let x ← IO.lazyPure f
  let after ← IO.monoNanosNow
  return (x, after - before)

/-- Runs the stress test. -/
def runStress (s : Log.Settings) (start : Nat) (x : Stress) : IO UInt32 := do
  let (e, nanos) ← timed fun _ => x.work
  let script := x.script s e nanos
  perform s start script.events
  return script.exitCode.toUInt32

/-- Runs the benchmark. -/
def runBenchmark (s : Log.Settings) (start : Nat) (x : Benchmark) : IO UInt32 := do
  perform s start x.heading
  for d in Discipline.all do
    match ← timed fun _ => x.throughQueue d with
    | (.error r, _) =>
      perform s start (Benchmark.uncreated s x d r)
      return 1
    | (.ok received, queueNanos) =>
      let (ringReceived, ringNanos) ← timed fun _ => x.throughRing d
      let (events, good) := x.report d received ringReceived queueNanos ringNanos
      perform s start events
      if !good then return 1
  perform s start Benchmark.closing
  return 0

end PermitRing.Command

open PermitRing Command in
/-- Runs the program that the first argument names on the other arguments. -/
def main (args : List String) : IO UInt32 := do
  let s := Log.Settings.ofEnvironment (← readEnvironment)
  let start ← IO.monoNanosNow
  match args with
  | "basic" :: _ =>
    perform s start (Demo.script s).events
    return 0
  | "stress" :: rest => runStress s start (Stress.ofArguments rest (← readEnvironment))
  | "benchmark" :: rest => runBenchmark s start (Benchmark.ofArguments rest)
  | _ =>
    IO.eprintln ("usage: basic | stress [discipline] [items] [capacity] | " ++
      "benchmark [items] [capacity]")
    return 2
