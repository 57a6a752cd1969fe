import PermitRing.Text.Blank
import PermitRing.Text.Letters
import PermitRing.Text.Numeral
import PermitRing.Text.Outline

/-!
# Log levels

How much a message matters, and how much is written. A level is configured by its name or by its
number, and a message is written when its own level does not exceed the configured one.
-/

namespace PermitRing.Log

/-- How much a message matters; as a setting, the least important messages that are written. -/
inductive Level
  /-- As a setting: nothing is written. No message has this level. -/
  | off
  /-- An operation failed. -/
  | error
  /-- A call that is probably a mistake. -/
  | warn
  /-- A result. -/
  | info
  /-- An event in the life of a queue. -/
  | debug
  /-- An event in the life of one element. -/
  | trace
  deriving DecidableEq, Repr, Inhabited

namespace Level

/-- All levels, the most reserved first. -/
def all : List Level :=
  [off, error, warn, info, debug, trace]

/-- The place of a level in `all`. -/
def number : Level → Nat
  | off => 0
  | error => 1
  | warn => 2
  | info => 3
  | debug => 4
  | trace => 5

/-- The level with a given number. Every number past the last level means the last level. -/
def ofNumber : Nat → Level
  | 0 => off
  | 1 => error
  | 2 => warn
  | 3 => info
  | 4 => debug
  | _ => trace

/-- Levels are ordered from the most reserved to the most talkative. -/
instance : LE Level :=
  ⟨fun a b => a.number ≤ b.number⟩

instance (a b : Level) : Decidable (a ≤ b) :=
  inferInstanceAs (Decidable (a.number ≤ b.number))

/-- Whether a message of level `l` is written at a setting: there are no messages of level
`off`, and the others are written up to the setting. -/
def passes (l setting : Level) : Bool :=
  decide (l ≠ off) && decide (l ≤ setting)

/-! ### Texts -/

/-- The name by which a level is displayed and configured. -/
def name : Level → String
  | off => "off"
  | error => "error"
  | warn => "warn"
  | info => "info"
  | debug => "debug"
  | trace => "trace"

/-- The letter that stands for a level in front of a message. -/
def tag : Level → String
  | off => ""
  | error => "E"
  | warn => "W"
  | info => "I"
  | debug => "D"
  | trace => "T"

/-- The name with which a level stands in the outline of a larger value. -/
def outline : Level → Text.Outline
  | off => .word "Off"
  | error => .word "Error"
  | warn => .word "Warn"
  | info => .word "Info"
  | debug => .word "Debug"
  | trace => .word "Trace"

/-- Reads a level without blanks around it: a number of eight bits that is a level's, or a name
in any letter case. -/
def ofTrimmed? (s : List Char) : Option Level :=
  match Text.unsigned? 8 s with
  | some n => if n ≤ 5 then some (ofNumber n) else none
  | none => Text.findSpelled? name all s

/-- Reads a level; blanks around it are skipped. -/
def ofText? (s : String) : Option Level :=
  ofTrimmed? (Text.trimBlank s.toList)

/-! ### Small facts -/

theorem ofNumber_number (l : Level) : ofNumber l.number = l := by
  cases l <;> rfl

theorem number_le_five (l : Level) : l.number ≤ 5 := by
  cases l <;> decide

end Level

end PermitRing.Log
