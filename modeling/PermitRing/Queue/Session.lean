import PermitRing.Queue.Answer

/-!
# Settled runs of a queue

A single caller makes calls on a queue. Where a call would fall asleep it is made on a thread of its
own, and the caller goes on; after every step all threads run until they have returned or sleep, so
what they come to follows from the steps alone. A constructor may itself be a run of steps on the
queue that it constructs for, to any depth. That a thread's time limit passes is a step, too.

## Main definitions

* `Session.Step`, `Session.Report` — a step of the caller and everything that it leads to;
* `Session.runStep`, `runSteps` — carrying steps out;
* `Session.elapse?` — the time limit of a thread passes;
* `Session.settle` — lets the threads run that do not sleep;
* `Session.finish` — the end of a run, with the destruction of the queue.

## Implementation notes

The steps are defined by recursion on their structure, for any way to let threads run. Letting
threads run is defined by recursion on a number of turns, because a thread that wakes up may run a
constructor's steps, which let threads run in turn. `Session.turns` is a bound on the number needed:
every turn ends a call, takes an element out, or puts a roused thread back to sleep, and only turns
of the first two kinds rouse threads.

The constructor of a thread that was roused may report steps while threads are let run after a step
of somebody else. Such reports are part of the report of that step, as its *asides*.
-/

namespace PermitRing.Queue

/-! ### Steps and reports -/

/-- A step of the caller. -/
inductive Session.Step (α : Type)
  /-- Pushes an element. -/
  | push (v : α) (wait : Wait)
  /-- Pops an element. -/
  | pop (wait : Wait)
  /-- Starts a thread that pops elements until the queue is finished, or up to a number of them. -/
  | iter (most : Option Nat)
  /-- Pops the elements that are ready, up to a number of them. -/
  | tryIter (most : Option Nat)
  /-- Constructs an element in place: the constructor carries out steps first. If it is fallible
  its failures are told apart from the queue's refusals. -/
  | emplace (wait : Wait) (fallible : Bool) (inner : List (Session.Step α)) (build : Build α)
  /-- Closes the queue. -/
  | close
  /-- Asks for the queue's properties. -/
  | info
  /-- Asks for the queue's outline. -/
  | outline
  /-- The time limit of a thread passes, if it is in the middle of a call that has one. -/
  | elapse (thread : Nat)

/-- Everything that a step leads to. -/
inductive Session.Report (α : Type)
  /-- The name of the thread that took the step, and the answer of the call; for a construction
  whether the constructor ran, and the reports of the steps that it carried out; what shows of the
  queue afterwards; the threads whose calls returned, with their answers; the reports of the steps
  that the constructors of roused threads carried out; and the lines that were logged. -/
  | mk (name : String) (answer : Answer α) (ran : Bool) (inner : List (Session.Report α))
    (view : View) (woken : List (Nat × Answer α)) (asides : List (Session.Report α))
    (log : List Log.Line)

/-! ### Runs -/

/-- What a thread is in the middle of. -/
inductive Task (α : Type)
  /-- A push. -/
  | push (v : α) (limit : Patience)
  /-- A pop. -/
  | pop (limit : Patience)
  /-- A sequence of pops, of which so many are left, with the elements popped so far. -/
  | iter (left : Option Nat) (got : List α)
  /-- A construction. -/
  | emplace (limit : Patience) (fallible : Bool) (inner : List (Session.Step α)) (build : Build α)

/-- The task after its time limit has passed, if it has one that may pass. -/
def Task.expire? {α : Type} : Task α → Option (Task α)
  | .push v limit => limit.expire?.map (.push v)
  | .pop limit => limit.expire?.map .pop
  | .iter .. => none
  | .emplace limit fallible inner build =>
    limit.expire?.map fun limit => .emplace limit fallible inner build

/-- A thread whose call has not returned. -/
structure Waiting (α : Type) where
  /-- The thread. -/
  thread : Nat
  /-- What it is in the middle of. -/
  task : Task α

/-- The thread after its time limit has passed, if it has one that may pass. -/
def Waiting.expire {α : Type} (w : Waiting α) : Waiting α :=
  { w with task := w.task.expire?.getD w.task }

/-- A queue in a settled run. -/
structure Session (α : Type) where
  /-- The queue. -/
  queue : Queue α
  /-- The level up to which messages are logged. -/
  level : Log.Level
  /-- The threads whose calls have not returned. -/
  waiting : List (Waiting α) := []
  /-- The threads that were started. -/
  threads : Nat := 0
  /-- The calls that returned on threads, and have not been reported. -/
  returned : List (Nat × Answer α) := []
  /-- The lines that were logged, and have not been reported. -/
  log : List Log.Line := []

namespace Session

variable {α : Type}

/-- The name of the caller's own thread. -/
def mainName : String := "main"

/-- The name of a thread. -/
def threadName (t : Nat) : String :=
  "w" ++ toString t

/-- Logs messages of a thread, as far as they pass. -/
def say (name : String) (ms : List Log.Message) (s : Session α) : Session α :=
  { s with log := s.log ++ Log.Message.lines s.level name ms }

/-- The run with its queue replaced. -/
def setQueue (s : Session α) (q : Queue α) : Session α :=
  { s with queue := q }

/-- The number of the next thread. -/
def nextThread (s : Session α) : Nat :=
  s.threads + 1

/-- Starts the next thread in the middle of a task. -/
def start (task : Task α) (s : Session α) : Session α :=
  { s with waiting := s.waiting ++ [⟨s.nextThread, task⟩], threads := s.nextThread }

/-- A thread is no longer among those that may be let run. -/
def leave (t : Nat) (s : Session α) : Session α :=
  { s with waiting := s.waiting.filter fun w => w.thread != t }

/-- The call of a thread returned. -/
def finishThread (t : Nat) (a : Answer α) (s : Session α) : Session α :=
  { s.leave t with returned := s.returned ++ [(t, a)] }

/-- A thread goes on with another task. -/
def setTask (t : Nat) (task : Task α) (s : Session α) : Session α :=
  { s with waiting := s.waiting.map fun w => if w.thread = t then ⟨t, task⟩ else w }

/-- A thread sleeps in the queue's gate. -/
def isAsleep (s : Session α) (t : Nat) : Bool :=
  s.queue.gate.produce.parker.isAsleep t || s.queue.gate.consume.parker.isAsleep t

/-- The first thread that does not sleep. -/
def runnable? (s : Session α) : Option (Waiting α) :=
  s.waiting.find? fun w => !s.isAsleep w.thread

/-- The report of a step after which threads were let run. It takes along what has happened since
the last one. -/
def report (name : String) (answer : Answer α) (ran : Bool) (inner : List (Report α)) :
    List (Report α) × Session α → Report α × Session α
  | (asides, s) =>
    (.mk name answer ran inner s.queue.view s.returned asides s.log,
      { s with returned := [], log := [] })

/-- The time limit of a thread passes: it is roused, and will not wait any more. No outcome if the
thread is in the middle of nothing that has such a limit. -/
def elapse? (t : Nat) (s : Session α) : Option (Session α) :=
  if s.waiting.any fun w => w.thread == t && w.task.expire?.isSome then
    some { s.setQueue (s.queue.expire t) with
      waiting := s.waiting.map fun w => if w.thread = t then w.expire else w }
  else none

/-- The end of a construction whose constructor has carried out its steps. -/
def construct (name : String) (build : Build α) (s : Session α) : Answer α × Session α :=
  match build with
  | .built v =>
    match s.queue.publish v with
    | (.ok (), q) => (.done, s.setQueue q)
    | (.error f, q) => (.faulted f, s.setQueue q)
  | .failed e =>
    (.unbuilt (.failed e), (s.setQueue s.queue.abandonProducer).say name rollbackMessages)
  | .raised text => (.faulted (.raised text), s.setQueue s.queue.abandonProducer)

/-! ### Steps -/

/-- How long a call waits on a thread of its own. -/
def limitOf : Wait → Patience
  | .never => .instant
  | .atMost limit => limit

/-- The part of a step that needs no constructor: the answer and the run after. -/
def act (name : String) (x : Step α) (s : Session α) : Answer α × Session α :=
  match x with
  | .push v wait =>
    match s.queue.push s.nextThread v wait with
    | (some r, q) => (.ofPushed r, s.setQueue q)
    | (none, q) => (.asleep s.nextThread, (s.setQueue q).start (.push v (limitOf wait)))
  | .pop wait =>
    match s.queue.pop s.nextThread wait with
    | (some r, q) => (.ofPopped r, s.setQueue q)
    | (none, q) => (.asleep s.nextThread, (s.setQueue q).start (.pop (limitOf wait)))
  | .iter most => (.asleep s.nextThread, s.start (.iter most []))
  | .tryIter most =>
    let (vs, q) := s.queue.popMany (match most with
      | some n => min n s.queue.size
      | none => s.queue.size)
    (.values vs, s.setQueue q)
  | .emplace .. => (.done, s)
  | .close =>
    let s := s.say name s.queue.closeMessages
    match s.queue.close with
    | (.ok (), q) => (.done, s.setQueue q)
    | (.error r, q) => (.refused r, s.setQueue q)
  | .info => (.info s.queue.info, s)
  | .outline => (.outline s.queue.outline, s)
  | .elapse t =>
    match s.elapse? t with
    | some s => (.elapsed t, s)
    | none => (.done, s)

/-- A call on a thread that was started by a step answers the caller if it has returned by the end
of the step. -/
def settled (answer : Answer α) (s : Session α) : Answer α × Session α :=
  match answer with
  | .asleep t =>
    match s.returned.find? fun r => r.1 == t with
    | some r => (r.2, { s with returned := s.returned.filter fun r => r.1 != t })
    | none => (answer, s)
  | _ => (answer, s)

mutual

/-- Carries out a step of the thread with a name, lets threads run, and reports. -/
def runStep (settle : Session α → List (Report α) × Session α) (name : String) :
    Step α → Session α → Report α × Session α
  | .emplace wait fallible inner build, s =>
    match s.queue.admitProducer s.nextThread wait with
    | (none, q) =>
      report name (.asleep s.nextThread) false []
        (settle ((s.setQueue q).start (.emplace (limitOf wait) fallible inner build)))
    | (some (.error r), q) =>
      report name (.ofRefusal fallible r) false [] (settle (s.setQueue q))
    | (some (.ok ()), q) =>
      let (reports, s) := runSteps settle name inner (s.setQueue q)
      let (answer, s) := s.construct name build
      report name answer true reports (settle s)
  | x, s =>
    let (answer, s) := s.act name x
    let (asides, s) := settle s
    let (answer, s) := s.settled answer
    report name answer false [] (asides, s)

/-- Carries out steps in order. -/
def runSteps (settle : Session α → List (Report α) × Session α) (name : String) :
    List (Step α) → Session α → List (Report α) × Session α
  | [], s => ([], s)
  | x :: xs, s =>
    let (r, s) := runStep settle name x s
    let (rs, s) := runSteps settle name xs s
    (r :: rs, s)

end

/-! ### Letting threads run -/

/-- A thread that sequentially pops has popped one element. -/
def goOn (t : Nat) (left : Option Nat) (got : List α) (s : Session α) : Session α :=
  match left with
  | none => s.setTask t (.iter none got)
  | some n =>
    if n ≤ 1 then s.finishThread t (.values got) else s.setTask t (.iter (some (n - 1)) got)

/-- Lets nobody run. -/
def idle (s : Session α) : List (Report α) × Session α :=
  ([], s)

/-- A thread that does not sleep goes on with its call, until it returns, falls asleep, or has
popped one element. If its constructor runs, the reports of the constructor's steps come along. -/
def resume (settle : Session α → List (Report α) × Session α) (w : Waiting α) (s : Session α) :
    List (Report α) × Session α :=
  match w.task with
  | .push v limit =>
    match s.queue.resumePush w.thread v limit with
    | (some r, q) => idle ((s.setQueue q).finishThread w.thread (.ofPushed r))
    | (none, q) => idle (s.setQueue q)
  | .pop limit =>
    match s.queue.resumePop w.thread limit with
    | (some r, q) => idle ((s.setQueue q).finishThread w.thread (.ofPopped r))
    | (none, q) => idle (s.setQueue q)
  | .iter (some 0) got => idle (s.finishThread w.thread (.values got))
  | .iter left got =>
    match s.queue.resumePop w.thread .endless with
    | (some (.popped v), q) => idle ((s.setQueue q).goOn w.thread left (got ++ [v]))
    | (some (.refused _), q) => idle ((s.setQueue q).finishThread w.thread (.values got))
    | (some (.faulted f), q) => idle ((s.setQueue q).finishThread w.thread (.faulted f))
    | (none, q) => idle (s.setQueue q)
  | .emplace limit fallible inner build =>
    match s.queue.readmitProducer w.thread limit with
    | (none, q) => idle (s.setQueue q)
    | (some (.error r), q) => idle ((s.setQueue q).finishThread w.thread (.ofRefusal fallible r))
    | (some (.ok ()), q) =>
      let name := threadName w.thread
      let (reports, s) := runSteps settle name inner ((s.setQueue q).leave w.thread)
      let (answer, s) := s.construct name build
      (reports, s.finishThread w.thread answer)

/-- Lets threads run for at most so many turns. -/
def settleWithin : Nat → Session α → List (Report α) × Session α
  | 0, s => idle s
  | n + 1, s =>
    match s.runnable? with
    | none => idle s
    | some w =>
      let (reports, s) := resume (settleWithin n) w s
      let (asides, s) := settleWithin n s
      (reports ++ asides, s)

mutual

/-- The calls in a step, with those of its constructor. -/
def callsOf : Step α → Nat
  | .emplace _ _ inner _ => 1 + callsIn inner
  | _ => 1

/-- The calls in a list of steps. -/
def callsIn : List (Step α) → Nat
  | [] => 0
  | x :: xs => callsOf x + callsIn xs

end

/-- The calls that a thread may still make. -/
def callsOfThread (w : Waiting α) : Nat :=
  match w.task with
  | .emplace _ _ inner _ => 1 + callsIn inner
  | _ => 1

/-- The calls that all threads may still make. -/
def callsAhead (s : Session α) : Nat :=
  s.waiting.foldr (fun w n => callsOfThread w + n) 0

/-- A bound on the turns that the threads need until all have returned or sleep: every call ahead
puts at most one element in and ends once, every element comes out at most once, and each of these
events rouses every thread at most twice. -/
def turns (s : Session α) : Nat :=
  (3 * s.callsAhead + s.queue.size + 1) * (2 * s.callsAhead + 1)

/-- Lets threads run until all have returned or sleep. The reports are those of the steps that
constructors of roused threads carry out meanwhile. -/
def settle (s : Session α) : List (Report α) × Session α :=
  settleWithin s.turns s

/-! ### Whole runs -/

/-- Carries out the steps of the caller. -/
def run (xs : List (Step α)) (s : Session α) : List (Report α) × Session α :=
  runSteps settle mainName xs s

/-- The end of a run. -/
structure Ending (α : Type) where
  /-- Whether a call of `close` succeeded that was made for the sake of threads that slept; none if
  there were no such threads. -/
  closed : Option Bool
  /-- The threads that returned by it, with their answers. -/
  woken : List (Nat × Answer α)
  /-- The reports of the steps that constructors of roused threads carried out by it. -/
  asides : List (Report α)
  /-- What shows of the queue then. -/
  view : View
  /-- The elements that were destroyed with the queue. -/
  destroyed : List α
  /-- The lines that were logged. -/
  log : List Log.Line

/-- Ends a run: a queue in which threads still sleep is closed, and the queue is destroyed. -/
def finish (s : Session α) : Ending α :=
  let (closed, asides, s) :=
    if s.waiting.isEmpty then (none, [], s)
    else
      let s := s.say mainName s.queue.closeMessages
      let (r, q) := s.queue.close
      (some r.isOk, settle (s.setQueue q))
  let view := s.queue.view
  let s := s.say mainName s.queue.dropMessages
  { closed, woken := s.returned, asides, view, destroyed := s.queue.drop, log := s.log }

end Session

end PermitRing.Queue
