/-!
# Patience

How long a call waits, and how time passes in a settled run. In such a run every thread goes on
until it has returned or sleeps before anything else happens, so a time limit matters in four ways
only: it is zero and nothing is waited for; it passes while the thread sleeps undisturbed; it passes
later, while the thread still sleeps and after others have acted; or it lies so far away that the
thread is as good as asleep for ever. When a limit of the third kind passes is not for the thread to
say: there is a step of the run for it.
-/

namespace PermitRing

/-- How long a waiting call waits in a settled run. -/
inductive Patience
  /-- The limit is zero: the call asks once and does not sleep. -/
  | instant
  /-- The limit passes before anybody else acts. -/
  | brief
  /-- The limit may pass after others have acted. -/
  | lasting
  /-- There is no limit, or none that passes. -/
  | endless
  deriving DecidableEq, Repr, Inhabited

namespace Patience

/-- The longest limit, in milliseconds, that passes before anybody else acts. -/
def longestBrief : Nat := 1000

/-- The patience of a call with a limit in milliseconds, or without one. -/
def ofLimit : Option Nat → Patience
  | none => endless
  | some 0 => instant
  | some ms => if ms ≤ longestBrief then brief else lasting

/-- The patience of a caller whom nobody can wake: every limit passes. -/
def alone : Option Nat → Patience
  | none => endless
  | some 0 => instant
  | some _ => brief

/-- Whether a thread that waits so long is asleep when others act. -/
def isLong : Patience → Bool
  | instant | brief => false
  | lasting | endless => true

/-- What is left of a limit that passes while the thread sleeps. -/
def expire? : Patience → Option Patience
  | lasting => some instant
  | instant | brief | endless => none

/-- A limit that has passed does not pass again. -/
theorem expire?_of_expired {p p' : Patience} (h : p.expire? = some p') : p'.expire? = none := by
  cases p <;> cases h
  rfl

end Patience

/-- Whether a call waits at all. -/
inductive Wait
  /-- It answers at once, one way or the other. -/
  | never
  /-- It waits. -/
  | atMost (limit : Patience)
  deriving DecidableEq, Repr, Inhabited

end PermitRing
