import PermitRing.Permits.Basic

/-!
# Settled runs of a permit counter

A single caller uses a counter, and starts threads that wait for a permit. All those threads have
one cancel predicate, a flag that the caller sets and clears. After every step each of them has
returned or sleeps. No limit passes here while others act, so a thread that sleeps does so until
somebody wakes it.
-/

namespace PermitRing.Permits

/-- A thread that waits for a permit. -/
structure Waiter where
  /-- The thread. -/
  thread : Nat
  /-- How long it waits. -/
  limit : Patience
  deriving DecidableEq, Repr

/-- A permit counter in a settled run. -/
structure Session where
  /-- The counter. -/
  permits : Permits
  /-- The answer of the threads' cancel predicate. -/
  flag : Bool := false
  /-- The threads that have not returned. -/
  waiting : List Waiter := []
  /-- The threads that were started. -/
  threads : Nat := 0

namespace Session

/-- A step of the caller. -/
inductive Step
  /-- Takes a permit if there is one. -/
  | take
  /-- Hands one permit back. -/
  | release
  /-- Wakes all threads. -/
  | releaseAll
  /-- Takes a permit, with a cancel predicate of the caller's own. -/
  | acquire (limit : Patience) (es : List Evaluation) (last : Bool)
  /-- Starts a thread that takes a permit. -/
  | start (limit : Patience)
  /-- Sets the answer of the threads' cancel predicate; nobody is woken. -/
  | setFlag (on : Bool)
  deriving DecidableEq, Repr

/-- What a step answers. -/
inductive Answer
  /-- Nothing. -/
  | done
  /-- Whether a permit was taken. -/
  | taken (yes : Bool)
  /-- How the caller's own wait ended, and how often its predicate was asked. -/
  | ended (outcome : Outcome) (evaluations : Nat)
  /-- The started thread returned. -/
  | returned (outcome : Outcome)
  /-- The started thread sleeps. -/
  | asleep (thread : Nat)
  /-- The caller sleeps, and the run does not go on. -/
  | stuck
  deriving DecidableEq, Repr

/-- Lets every thread that does not sleep go on waiting, in the order in which they were started:
the outcomes of those that returned, and the run after. -/
def settle (s : Session) : List (Nat × Outcome) × Session :=
  s.waiting.foldl (fun (out, s) w =>
    if s.permits.parker.isAsleep w.thread then (out, { s with waiting := s.waiting ++ [w] })
    else match s.permits.resume w.thread w.limit s.flag with
      | (some o, p) => (out ++ [(w.thread, o)], { s with permits := p })
      | (none, p) => (out, { s with permits := p, waiting := s.waiting ++ [w] }))
    ([], { s with waiting := [] })

/-- Carries out the caller's own part of a step. -/
def act (x : Step) (s : Session) : Answer × Session :=
  match x with
  | .take =>
    match s.permits.take? with
    | some p => (.taken true, { s with permits := p })
    | none => (.taken false, s)
  | .release => (.done, { s with permits := s.permits.release })
  | .releaseAll => (.done, { s with permits := s.permits.releaseAll })
  | .acquire limit es last =>
    match s.permits.acquire 0 limit es last with
    | ⟨some o, n, p⟩ => (.ended o n, { s with permits := p })
    | ⟨none, _, p⟩ => (.stuck, { s with permits := p })
  | .start limit =>
    let t := s.threads + 1
    match s.permits.acquire t limit [] s.flag with
    | ⟨some o, _, p⟩ => (.returned o, { s with permits := p, threads := t })
    | ⟨none, _, p⟩ =>
      (.asleep t, { s with permits := p, threads := t, waiting := s.waiting ++ [⟨t, limit⟩] })
  | .setFlag on => (.done, { s with flag := on })

/-- Carries out a step and lets the run settle: the answer, the outcomes of the threads that
returned, and the run after. -/
def step (x : Step) (s : Session) : Answer × List (Nat × Outcome) × Session :=
  let r := s.act x
  (r.1, r.2.settle)

/-- Ends the run: the flag is set and everybody is woken. -/
def finish (s : Session) : List (Nat × Outcome) × Session :=
  settle { s with flag := true, permits := s.permits.releaseAll }

end Session

end PermitRing.Permits
