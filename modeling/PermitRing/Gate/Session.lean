import PermitRing.Gate.Basic
import PermitRing.Permits.Session

/-!
# Settled runs of an admission gate

Each side of a gate is a permit counter in a settled run of its own; the two runs have their cancel
flag and the numbering of their threads in common.
-/

namespace PermitRing.Gate

/-- An admission gate in a settled run. -/
structure Session where
  /-- The run of the side of those who push. -/
  produce : Permits.Session
  /-- The run of the side of those who pop. -/
  consume : Permits.Session
  /-- The number of slots. -/
  capacity : Nat

namespace Session

/-- The run at its beginning. -/
def start (capacity : Nat) (order : Side → Nat → Nat) : Session :=
  let g := Gate.start capacity order
  { produce := { permits := g.produce }, consume := { permits := g.consume }, capacity }

/-- The gate in its present state. -/
def gate (s : Session) : Gate :=
  ⟨s.produce.permits, s.consume.permits, s.capacity⟩

/-- The run of a side. -/
def side (s : Session) : Side → Permits.Session
  | .produce => s.produce
  | .consume => s.consume

/-- The threads that were started. -/
def threads (s : Session) : Nat :=
  max s.produce.threads s.consume.threads

/-- A step of the caller. -/
inductive Step
  /-- A step on one side. -/
  | on (side : Side) (x : Permits.Session.Step)
  /-- Sets the answer of the threads' cancel predicate. -/
  | setFlag (on : Bool)
  /-- Wakes the threads of both sides. -/
  | wakeAll
  deriving DecidableEq, Repr

/-- Lets the threads of both sides go on. -/
def settle (s : Session) : List (Nat × Permits.Outcome) × Session :=
  let (out, produce) := s.produce.settle
  let (out', consume) := s.consume.settle
  (out ++ out', { s with produce, consume })

/-- The run with the flag of both sides set. -/
def setFlag (on : Bool) (s : Session) : Session :=
  { s with produce := { s.produce with flag := on }, consume := { s.consume with flag := on } }

/-- The run with the threads of both sides woken, the consumers first. -/
def wakeAll (s : Session) : Session :=
  let g := s.gate.wakeAll
  { s with
    produce := { s.produce with permits := g.produce }
    consume := { s.consume with permits := g.consume } }

/-- Carries out a step and lets the run settle: the answer, the outcomes of the threads that
returned, and the run after. -/
def step (x : Step) (s : Session) :
    Permits.Session.Answer × List (Nat × Permits.Outcome) × Session :=
  match x with
  | .on .produce x =>
    let r := { s.produce with threads := s.threads }.act x
    (r.1, { s with produce := r.2 }.settle)
  | .on .consume x =>
    let r := { s.consume with threads := s.threads }.act x
    (r.1, { s with consume := r.2 }.settle)
  | .setFlag on => (.done, (s.setFlag on).settle)
  | .wakeAll => (.done, s.wakeAll.settle)

/-- Ends the run: the flag is set and everybody is woken. -/
def finish (s : Session) : List (Nat × Permits.Outcome) × Session :=
  (s.setFlag true).wakeAll.settle

end Session

end PermitRing.Gate
