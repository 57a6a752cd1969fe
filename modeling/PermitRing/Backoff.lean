import PermitRing.Text.Outline

/-!
# Backoff

How a thread passes the time while a slot that it has claimed is still in another thread's hands.
Such a wait is as long as one element takes to move, so the thread spins first, twice as long at
each round up to a limit, and from round `spinLimit` on lets other threads run.
-/

namespace PermitRing

/-- A wait for another thread, and how far it has come. -/
structure Backoff where
  /-- Rounds waited so far; the count stays at the largest word of 32 bits. -/
  step : Nat
  /-- Rounds to spin before letting other threads run. -/
  spinLimit : Nat
  deriving DecidableEq, Repr

namespace Backoff

/-- The spin limit of a wait that does not name one. -/
def defaultSpinLimit : Nat := 64

/-- A wait that has not begun. -/
def start (spinLimit : Nat) : Backoff :=
  ⟨0, spinLimit⟩

/-- Spinning is over. -/
def isYielding (b : Backoff) : Bool :=
  decide (b.spinLimit ≤ b.step)

/-- What a round consists of: a number of pauses, or `none` to let other threads run. -/
def pauses? (b : Backoff) : Option Nat :=
  if b.isYielding then none else some (1 <<< min b.step 6)

/-- Waits one round. -/
def snooze (b : Backoff) : Backoff :=
  { b with step := min (b.step + 1) 0xFFFFFFFF }

/-- Waits `n` rounds. -/
def snoozes (n : Nat) (b : Backoff) : Backoff :=
  n.repeat snooze b

/-- Starts over. -/
def reset (b : Backoff) : Backoff :=
  { b with step := 0 }

/-- How the wait is built. -/
def outline (b : Backoff) : Text.Outline :=
  .record "Backoff"
    [("step", .word (toString b.step)), ("spin_limit", .word (toString b.spinLimit))] false

end Backoff

end PermitRing
