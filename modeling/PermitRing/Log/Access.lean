import PermitRing.Log.Line
import PermitRing.Progress

/-!
# Access to the log by several threads

The settings word is shared, and so is the stream that lines are written to. A thread that finds the
word not ready has the environment read, which is done by one thread only while the others wait for
it; only then does it read its setting, or change it: a flag in one step on the word, and the level
by comparing with what it read before, over again if the word is another one by then.

A message whose level passes becomes a line. Its thread waits until nobody else writes, looks at the
settings again for the time stamp and, when the line is written, for flushing, and lets the others
write.

## Main definitions

* `Access.Call`, `Access.Task` — what threads do, and the parts of it that follow each other;
* `Access.step?` — the step of one thread, if it can take one;
* `Access.Reachable` — the states that some sequence of steps leads to.
-/

namespace PermitRing.Log

/-- How far the reading of the environment is. -/
inductive Access.Once
  /-- It has not begun. -/
  | idle
  /-- A thread is at it. -/
  | running (thread : Nat)
  /-- It is over. -/
  | complete
  deriving DecidableEq, Repr

/-- A call on the log. -/
inductive Access.Call
  /-- Has the environment read. -/
  | init
  /-- Gives one setting. -/
  | set (x : Settings.Setter)
  /-- Asks for the level. -/
  | level
  /-- Asks whether lines are flushed. -/
  | flush
  /-- Asks whether messages of a level are written. -/
  | enabled (l : Level)
  /-- Writes a message if its level passes. -/
  | message (m : Message)
  deriving DecidableEq, Repr

/-- What a thread is about: a call, or a part of the writing of a line. -/
inductive Access.Task
  /-- A call. -/
  | call (c : Access.Call)
  /-- It waits for its turn to write a line. -/
  | enter (l : Line)
  /-- It asks whether the line has a time stamp. -/
  | stamp (l : Line)
  /-- It writes the line. -/
  | put (l : Line) (stamped : Bool)
  /-- It asks whether to flush the line. -/
  | flush
  /-- It lets others write. -/
  | leave
  deriving DecidableEq, Repr

/-- What comes of a task. -/
inductive Access.Answer
  /-- Nothing is told. -/
  | done
  /-- The level. -/
  | level (l : Level)
  /-- Yes or no. -/
  | yes (b : Bool)
  deriving DecidableEq, Repr

/-- Where a thread stands inside a task. -/
inductive Access.Point
  /-- It is about to load the word. -/
  | load
  /-- It is about to have the environment read, or to wait until that is done. -/
  | once
  /-- It is about to store the settings that it read from the environment. -/
  | store
  /-- It is about to let the waiting threads go on. -/
  | release
  /-- It is about to load the word again. -/
  | reload
  /-- It is about to load the word that it will compare with. -/
  | fetch
  /-- It is about to change the word if that is still what was seen. -/
  | exchange (seen : Settings)
  /-- It is about to change the word, whatever that is. -/
  | change
  /-- It is about to do what needs no look at the word. -/
  | act
  deriving DecidableEq, Repr

/-- A line that was written. -/
structure Access.Written where
  /-- The thread that wrote it. -/
  thread : Nat
  /-- The line. -/
  line : Line
  /-- Whether it has a time stamp. -/
  stamped : Bool
  deriving DecidableEq, Repr

/-- A thread that makes calls on the log. -/
structure Access.Caller where
  /-- Its name. -/
  name : String
  /-- What it has not finished; it is inside the first of these, if it is inside any. -/
  tasks : List Access.Task
  /-- Where it stands; none between two tasks. -/
  point : Option Access.Point := none
  /-- The answers of the calls that it finished, the latest first. -/
  answers : List Access.Answer := []
  deriving DecidableEq, Repr

/-- The log with the threads that use it. -/
structure Access where
  /-- The variables that the settings are read from. -/
  env : Environment
  /-- The word. -/
  settings : Settings := .initial
  /-- How far the reading of the environment is. -/
  once : Access.Once := .idle
  /-- The thread whose turn it is to write. -/
  writer : Option Nat := none
  /-- The lines that were written, the latest first. -/
  written : List Access.Written := []
  /-- The threads. -/
  callers : List Access.Caller

namespace Access

/-- Threads with names and calls to make, on a log that nobody has used. -/
def start (env : Environment) (threads : List (String × List Call)) : Access where
  env := env
  callers := threads.map fun t => { name := t.1, tasks := t.2.map .call }

/-! ### Tasks -/

/-- The point at which a task begins. Nothing passes as a message of level `off`, so that is known
without a look at the word. -/
def Task.first : Task → Point
  | .call .init => .once
  | .call (.enabled .off) | .call (.message ⟨.off, _⟩) => .act
  | .call _ | .stamp _ | .flush => .load
  | .enter _ | .put .. | .leave => .act

/-- What comes of a task at given settings. -/
def Task.answer (s : Settings) : Task → Answer
  | .call .level => .level s.level
  | .call .flush | .flush => .yes s.flush
  | .call (.enabled l) => .yes (l.passes s.level)
  | .call (.message m) => .yes (m.level.passes s.level)
  | .stamp _ => .yes s.time
  | _ => .done

/-- The setting that a task gives. -/
def Task.setter? : Task → Option Settings.Setter
  | .call (.set x) => some x
  | _ => none

/-- What a task does with the word once that is ready: it has its answer, or goes on to change it,
the level by comparing. -/
def Task.withWord (s : Settings) (task : Task) : Progress Point Answer :=
  match task.setter? with
  | some (.level _) => .more .fetch
  | some _ => .more .change
  | none => .done (task.answer s)

/-- What a task does when the environment has been read: `init` is over then, and the others load
the word again. -/
def Task.whenRead : Task → Progress Point Answer
  | .call .init => .done .done
  | _ => .more .reload

/-- The settings that a task makes of given ones. -/
def Task.change (s : Settings) (task : Task) : Settings :=
  task.setter?.elim s s.set

/-- What a task does that needs no look at the word. Only one thread at a time writes. -/
def Task.act (thread : Nat) (a : Access) : Task → Option Access
  | .enter _ => if a.writer = none then some { a with writer := some thread } else none
  | .put l stamped => some { a with written := ⟨thread, l, stamped⟩ :: a.written }
  | .leave => some { a with writer := none }
  | _ => some a

/-- What a thread with a name does after a task: a message that passes is written as a line. -/
def Task.next (name : String) : Task → Answer → List Task
  | .call (.message m), .yes true => [.enter ⟨some m.level, name, m.text, true⟩]
  | .enter l, _ => [.stamp l]
  | .stamp l, .yes stamped => [.put l stamped]
  | .put .., _ => [.flush]
  | .flush, _ => [.leave]
  | _, _ => []

/-! ### Steps -/

/-- The next step of a thread inside a task, if it can take one: a thread that waits for another
cannot. A comparison may also fail without cause, which `spurious` says. -/
def Point.step (thread : Nat) (spurious : Bool) (task : Task) (a : Access) :
    Point → Option (Progress Point Answer × Access)
  | .load => some (if a.settings.ready then task.withWord a.settings else .more .once, a)
  | .once =>
    match a.once with
    | .idle => some (.more .store, { a with once := .running thread })
    | .running _ => none
    | .complete => some (task.whenRead, a)
  | .store => some (.more .release, { a with settings := .ofEnvironment a.env })
  | .release => some (task.whenRead, { a with once := .complete })
  | .reload => some (task.withWord a.settings, a)
  | .fetch => some (.more (.exchange a.settings), a)
  | .exchange seen =>
    if a.settings ≠ seen ∨ spurious = true then some (.more (.exchange a.settings), a)
    else some (.done .done, { a with settings := task.change seen })
  | .change => some (.done .done, { a with settings := task.change a.settings })
  | .act => (task.act thread a).map fun b => (.done (task.answer a.settings), b)

/-- A thread after a step of the first of its tasks. -/
def Caller.after (c : Caller) (task : Task) (tasks : List Task) : Progress Point Answer → Caller
  | .more p => { c with point := some p }
  | .done x =>
    { name := c.name
      tasks := task.next c.name x ++ tasks
      answers := match task with
        | .call _ => x :: c.answers
        | _ => c.answers }

/-- The step of one thread, if it can take one. -/
def step? (thread : Nat) (spurious : Bool) (a : Access) : Option Access :=
  (a.callers[thread]?).bind fun c =>
    match c.tasks with
    | [] => none
    | task :: tasks =>
      ((c.point.getD task.first).step thread spurious task a).map fun (r, b) =>
        { b with callers := a.callers.set thread (c.after task tasks r) }

/-- The states that some sequence of steps leads to. -/
inductive Reachable (start : Access) : Access → Prop
  /-- The state at the beginning. -/
  | refl : Reachable start start
  /-- One step further. -/
  | step {a b : Access} (thread : Nat) (spurious : Bool) (h : Reachable start a)
    (hs : a.step? thread spurious = some b) : Reachable start b

/-- All threads have made their calls. -/
def isFinished (a : Access) : Bool :=
  a.callers.all fun c => c.tasks.isEmpty

end Access

end PermitRing.Log
