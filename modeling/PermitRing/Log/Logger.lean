import PermitRing.Log.Line

/-!
# The logger

The log of a running program: its settings, which are read from the environment when they are
first needed, and the calls that threads make on it. A call looks at the settings, if only to find
out whether its line is to be flushed, and is not carried out before the environment has been read.
Only of the level `off` it is known without a look that nothing passes at it.
-/

namespace PermitRing.Log

/-- The log of a running program. -/
structure Logger where
  /-- The variables that the settings are read from. -/
  env : Environment
  /-- The settings at this moment. -/
  settings : Settings

namespace Logger

/-- The log of a program that has just started. -/
def start (env : Environment) : Logger :=
  ⟨env, .initial⟩

/-- A log that is ready for use at a level, without flushing and without time stamps. -/
def atLevel (l : Level) : Logger :=
  ⟨.empty, .pack l false false⟩

/-- The log with its settings read from the environment, if that has not been done before. -/
def prepared (g : Logger) : Logger :=
  { g with settings := g.settings.prepared g.env }

/-- A call on the log. -/
inductive Call
  /-- Reads the settings from the environment, if that has not been done before. -/
  | init
  /-- Sets the level. -/
  | setLevel (l : Level)
  /-- Sets whether lines are flushed. -/
  | setFlush (on : Bool)
  /-- Sets whether lines have time stamps. -/
  | setTime (on : Bool)
  /-- Asks for level and flushing. -/
  | get
  /-- Asks whether messages of a level are written. -/
  | enabled (l : Level)
  /-- Writes a message if its level passes. -/
  | message (l : Level) (text : String)
  /-- Writes a line, whatever the level. -/
  | emit (level : Option Level) (text : String) (ends : Bool)
  deriving DecidableEq, Repr

/-- What a call on the log answers. -/
inductive Answer
  /-- Nothing. -/
  | done
  /-- The settings that were asked for. -/
  | settings (level : Level) (flush : Bool)
  /-- Whether messages of the level are written. -/
  | enabled (yes : Bool)
  /-- Whether the text of the message was made at all. -/
  | evaluated (yes : Bool)
  deriving DecidableEq, Repr

/-- Whether a call looks at the settings. -/
def Call.looks : Call → Bool
  | .enabled .off | .message .off _ => false
  | _ => true

/-- Carries out a call of a thread: its answer, the lines that it writes, and the log afterwards. -/
def call (thread : String) (c : Call) (g : Logger) : Answer × List Line × Logger :=
  let g := if c.looks then g.prepared else g
  match c with
  | .init => (.done, [], g)
  | .setLevel l => (.done, [], { g with settings := g.settings.setLevel l })
  | .setFlush on => (.done, [], { g with settings := g.settings.setFlush on })
  | .setTime on => (.done, [], { g with settings := g.settings.setTime on })
  | .get => (.settings g.settings.level g.settings.flush, [], g)
  | .enabled l => (.enabled (l.passes g.settings.level), [], g)
  | .message l text =>
    if l.passes g.settings.level then (.evaluated true, [⟨some l, thread, text, true⟩], g)
    else (.evaluated false, [], g)
  | .emit level text ends => (.done, [⟨level, thread, text, ends⟩], g)

end Logger

end PermitRing.Log
