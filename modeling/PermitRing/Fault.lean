/-!
# Faults

The ways in which a call fails to answer at all: a checked precondition that does not hold, an
arithmetic check, a constructor that gives up, or a wait that nobody will end. A queue that is used
by its rules meets none of its own faults; a constructor's is passed on to its caller.
-/

namespace PermitRing

/-- Why a call does not answer. -/
inductive Fault
  /-- A position was to be reduced modulo a capacity of zero. -/
  | remainderByZero
  /-- A sum does not fit a word. -/
  | sumOverflow
  /-- A single-writer index was claimed while a claim of it was under way. -/
  | indexBusy
  /-- A slot was addressed past the end of the storage. -/
  | slotOutOfRange (index capacity : Nat)
  /-- A constructor gave up with a text of its own. -/
  | raised (text : String)
  /-- The slot that the call waits for will not change its phase. -/
  | waitsForever
  deriving DecidableEq, Repr, Inhabited

/-- The fault in words. A wait that does not end has nobody to say it to. -/
def Fault.message : Fault → String
  | .remainderByZero => "attempt to calculate the remainder with a divisor of zero"
  | .sumOverflow => "attempt to add with overflow"
  | .indexBusy => "single-writer index claimed by two threads at once"
  | .slotOutOfRange i n => s!"slot index {i} out of range for capacity {n}"
  | .raised text => text
  | .waitsForever => ""

end PermitRing
