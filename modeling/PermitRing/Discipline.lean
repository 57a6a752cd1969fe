import PermitRing.Text.Letters
import PermitRing.Text.Outline

/-!
# Disciplines

How many threads may use each side of a queue at once. A side is either single or shared, and the
four combinations have names: the first letter tells about the producers, the third about the
consumers.
-/

namespace PermitRing

/-- Which sides of a queue may be used by several threads at once. -/
inductive Discipline
  /-- One producer, one consumer. -/
  | spsc
  /-- Many producers, one consumer. -/
  | mpsc
  /-- One producer, many consumers. -/
  | spmc
  /-- Many producers, many consumers. -/
  | mpmc
  deriving DecidableEq, Repr, Inhabited

namespace Discipline

/-- All disciplines, those with single sides first. -/
def all : List Discipline :=
  [spsc, mpsc, spmc, mpmc]

/-- Several threads may push at once. -/
def manyProducers : Discipline → Bool
  | mpsc | mpmc => true
  | spsc | spmc => false

/-- Several threads may pop at once. -/
def manyConsumers : Discipline → Bool
  | spmc | mpmc => true
  | spsc | mpsc => false

/-- The place of a discipline in `all`. -/
def number : Discipline → Nat
  | spsc => 0
  | mpsc => 1
  | spmc => 2
  | mpmc => 3

/-! ### Names -/

/-- The name by which a discipline is displayed and configured. -/
def name : Discipline → String
  | spsc => "spsc"
  | mpsc => "mpsc"
  | spmc => "spmc"
  | mpmc => "mpmc"

/-- The name with which a discipline stands in the outline of a larger value. -/
def outline : Discipline → Text.Outline
  | spsc => .word "Spsc"
  | mpsc => .word "Mpsc"
  | spmc => .word "Spmc"
  | mpmc => .word "Mpmc"

/-- Reads a name in any letter case. Blanks around it are not skipped. -/
def ofText? (s : String) : Option Discipline :=
  Text.findSpelled? name all s.toList

end Discipline

end PermitRing
