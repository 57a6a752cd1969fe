import PermitRing.Parker.Basic

/-!
# Settled runs of a parker

A single caller reads epochs, wakes threads, and parks. Where the caller would fall asleep, a new
thread parks in its place, so the run goes on; after every step all threads have returned or sleep.
Time passes as a step of the run: the limit of a thread that sleeps may pass between any two steps
of the caller.
-/

namespace PermitRing.Parker

/-- A parker in a settled run. -/
structure Session where
  /-- The parker. -/
  parker : Parker
  /-- The epoch that was read last. -/
  remembered : Nat
  /-- The threads that were started. -/
  threads : Nat := 0
  /-- Those of them that parked with a limit which may pass. -/
  limited : List Nat := []

namespace Session

/-- A step of the caller, or of time. -/
inductive Step
  /-- Reads the epoch and remembers it. -/
  | prepare
  /-- Parks with an epoch, or with the remembered one. -/
  | park (epoch? : Option Nat) (limit : Patience)
  /-- Wakes one thread. -/
  | unparkOne
  /-- Wakes all threads. -/
  | unparkAll
  /-- The time limit of a thread passes, if it sleeps and has one. -/
  | elapse (thread : Nat)
  deriving DecidableEq, Repr

/-- What a step answers. -/
inductive Answer
  /-- Nothing. -/
  | done
  /-- The epoch. -/
  | epoch (e : Nat)
  /-- The call of `park` returned; whether it was woken. -/
  | returned (woken : Bool)
  /-- A thread sleeps in the call. -/
  | asleep (thread : Nat)
  deriving DecidableEq, Repr

/-- A new parker, whose epoch is read once at the start. -/
def start (kind : Kind) (order : Nat → Nat) : Session :=
  { parker := { kind, order }, remembered := 0 }

/-- The threads that no longer sleep in `p`, woken. -/
def woken (s : Session) (p : Parker) : List (Nat × Bool) :=
  (s.parker.risen p).map fun t => (t, true)

/-- The sleeper whose time limit passes, if the thread sleeps and has one. -/
def expiring? (t : Nat) (s : Session) : Option Sleeper :=
  if t ∈ s.limited then s.parker.sleepers.find? fun z => z.thread == t else none

/-- Carries out a step: its answer, the threads whose calls returned by it and whether they were
woken, and the run after. -/
def step (x : Step) (s : Session) : Answer × List (Nat × Bool) × Session :=
  match x with
  | .prepare => (.epoch s.parker.epoch, [], { s with remembered := s.parker.epoch })
  | .park epoch? limit =>
    let t := s.threads + 1
    match s.parker.park t (epoch?.getD s.remembered) limit with
    | (.woken, p) => (.returned true, [], { s with parker := p })
    | (.timedOut, p) => (.returned false, [], { s with parker := p })
    | (.asleep, p) =>
      (.asleep t, [],
        { s with
          parker := p
          threads := t
          limited := if limit = .lasting then s.limited ++ [t] else s.limited })
  | .unparkOne =>
    (.done, s.woken s.parker.unparkOne, { s with parker := s.parker.unparkOne })
  | .unparkAll =>
    (.done, s.woken s.parker.unparkAll, { s with parker := s.parker.unparkAll })
  | .elapse t =>
    match s.expiring? t with
    | some z => (.done, [(t, s.parker.isWokenLate z)], { s with parker := s.parker.expire t })
    | none => (.done, [], s)

/-- Carries out the steps in order. -/
def run : List Step → Session → List (Answer × List (Nat × Bool) × Session)
  | [], _ => []
  | x :: xs, s =>
    let r := s.step x
    r :: run xs r.2.2

end Session

end PermitRing.Parker
