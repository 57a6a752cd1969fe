import PermitRing.Index.Basic

/-!
# Claims by several threads

Any number of threads that claim positions of one index, each a number of times. At every step one
of them takes the next atomic step of its claim.

## Main definitions

* `Race.step` — the step of one thread;
* `Race.inTurn` — a schedule in which the threads finish one claim each in turn;
* `Race.counts` — how often each position was handed out.
-/

namespace PermitRing.Index

/-- A thread that claims positions. -/
structure Claimant where
  /-- The claims that it has not finished. -/
  left : Nat
  /-- Where it stands in the first of them. -/
  point : Claiming := .start
  deriving DecidableEq, Repr, Inhabited

/-- Several threads that claim positions of one index. -/
structure Race where
  /-- The number of slots in the ring. -/
  capacity : Nat
  /-- The index. -/
  index : Index
  /-- The threads. -/
  claimants : Array Claimant
  /-- The outcomes of all finished claims, the latest first. -/
  claimed : List (Except Fault Nat) := []

namespace Race

/-- Threads that make the same number of claims each, before the first of them. -/
def start (kind : Kind) (capacity threads each : Nat) : Race where
  capacity := capacity
  index := { kind }
  claimants := Array.replicate threads { left := each }

/-- The next step of a thread; one that has finished takes none. The swap of a shared index may
fail without cause, which `spurious` says. -/
def step (thread : Nat) (spurious : Bool) (r : Race) : Race :=
  match r.claimants[thread]? with
  | none => r
  | some c =>
    if c.left = 0 then r
    else match c.point.step r.capacity spurious r.index with
      | (.more p, x) =>
        { r with index := x, claimants := r.claimants.setIfInBounds thread { c with point := p } }
      | (.done o, x) =>
        { r with
          index := x
          claimants := r.claimants.setIfInBounds thread ⟨c.left - 1, .start⟩
          claimed := o :: r.claimed }

/-- The state after a sequence of steps, each of a thread whose swap fails without cause or not. -/
def run (schedule : List (Nat × Bool)) (r : Race) : Race :=
  schedule.foldl (fun r c => r.step c.1 c.2) r

/-- A schedule in which every thread finishes one claim of a shared index, which takes two steps. -/
def oneEach (threads : Nat) : List (Nat × Bool) :=
  (List.range threads).flatMap fun t => [(t, false), (t, false)]

/-- The state after every thread has had so many turns to finish a claim. -/
def inTurn (threads : Nat) : Nat → Race → Race
  | 0, r => r
  | n + 1, r => inTurn threads n (r.run (oneEach threads))

/-- The positions that were handed out, the first claim first. -/
def positions (r : Race) : List Nat :=
  r.claimed.reverse.filterMap Except.toOption

/-- How often each position was handed out. -/
def counts (r : Race) : List Nat :=
  let positions := r.positions
  (List.range r.capacity).map fun i => positions.count i

end Race

end PermitRing.Index
