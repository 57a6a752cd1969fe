import PermitRing.Log.Line

/-!
# Scripts of a program

What a program does to the outside world: the texts that it writes to its two outputs, the pauses
that it makes, and its exit code. A program is a function from its arguments and its environment to
such a script, so that everything but the carrying out is a matter of definitions.
-/

namespace PermitRing.Command

/-- One thing that a program does. -/
inductive Event
  /-- It writes a text to its output. -/
  | out (text : String)
  /-- It writes a line to its error output. -/
  | err (line : Log.Line)
  /-- It waits for some milliseconds. -/
  | pause (millis : Nat)
  deriving DecidableEq, Repr

/-- Everything that a program does. -/
structure Script where
  /-- What it does, in order. -/
  events : List Event := []
  /-- The exit code. -/
  exitCode : Nat := 0
  deriving DecidableEq, Repr

namespace Script

/-- The text on the output. -/
def stdout (s : Script) : String :=
  String.join (s.events.map fun
    | .out text => text
    | _ => "")

/-- The lines on the error output. -/
def stderr (s : Script) : List Log.Line :=
  s.events.filterMap fun
    | .err line => some line
    | _ => none

end Script

/-- The events of a text with the end of its line. -/
def outLine (text : String) : Event :=
  .out (text ++ "\n")

/-- The events of the messages that a thread logs. -/
def logged (s : Log.Settings) (thread : String) (ms : List Log.Message) : List Event :=
  (Log.Message.lines s.level thread ms).map .err

/-- A text of the error output that is no message of the log. -/
def errLine (text : String) : Event :=
  .err ⟨none, "", text, true⟩

end PermitRing.Command
