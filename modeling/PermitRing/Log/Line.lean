import PermitRing.Log.Settings

/-!
# Log lines

What is written for one message: a header with the tag of its level, a time stamp if the settings
ask for one, and the name of the thread that wrote it; then the text. A message without a level
has no header.

## Implementation notes

A time stamp is a parameter of `Line.render`, because it is the only part of the text that does
not follow from what the program does.
-/

namespace PermitRing.Log

/-- One message on its way to the log. -/
structure Line where
  /-- The level that the header names; without one there is no header. -/
  level : Option Level
  /-- The name of the thread that wrote the message. -/
  thread : String
  /-- The message. -/
  text : String
  /-- Whether the line ends behind the message. -/
  ends : Bool := true
  deriving DecidableEq, Repr

namespace Line

/-- The header of a line. -/
def header (time : Bool) (stamp : String) (level : Level) (thread : String) : String :=
  "[bq:" ++ level.tag ++ "]" ++ (if time then " " ++ stamp ++ "us" else "") ++
    " <" ++ thread ++ "> "

/-- The text of a line, with `stamp` for the microseconds in its time stamp. -/
def render (s : Settings) (stamp : String) (l : Line) : String :=
  (match l.level with
    | some level => header s.time stamp level l.thread
    | none => "") ++ l.text ++ if l.ends then "\n" else ""

/-- The text of several lines. -/
def renderAll (s : Settings) (stamp : String) (ls : List Line) : String :=
  String.join (ls.map (render s stamp))

/-- A number of microseconds as it stands in a time stamp, ten characters wide. -/
def stamp (micros : Nat) : String :=
  let digits := toString micros
  String.ofList (List.replicate (10 - digits.length) ' ') ++ digits

end Line

/-! ### Filtered messages -/

/-- A message that is written only if its level passes the setting. -/
structure Message where
  /-- How much it matters. -/
  level : Level
  /-- What it says. -/
  text : String
  deriving DecidableEq, Repr

namespace Message

/-- The lines that a thread writes for some messages at a setting: those that pass, in order. -/
def lines (setting : Level) (thread : String) (ms : List Message) : List Line :=
  (ms.filter fun m => m.level.passes setting).map fun m => ⟨some m.level, thread, m.text, true⟩

end Message

end PermitRing.Log
