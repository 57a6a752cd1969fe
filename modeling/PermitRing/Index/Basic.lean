import PermitRing.Fault
import PermitRing.Progress
import PermitRing.Word

/-!
# Indices

The position at which the next element goes in, or comes out. To claim a position is to be given it
and to move the index on to the next one, which after the last slot is the first.

An index that one thread at a time may claim reads and stores its position in separate steps, and
keeps a flag with which it notices that this rule is broken. A shared index moves on by comparing
and swapping, again and again until no other thread came between.

## Main definitions

* `Index.claim` — a whole claim by one thread;
* `Index.Claiming.step` — the atomic steps that a claim consists of.

## Implementation notes

A fault in the claim of a single-writer index leaves its flag set, so every later claim of it is
a fault too.
-/

namespace PermitRing

/-- How an index may be claimed. -/
inductive Index.Kind
  /-- By one thread at a time. -/
  | single
  /-- By any number of threads at once. -/
  | shared
  deriving DecidableEq, Repr, Inhabited

/-- A position that moves round a ring of slots. -/
structure Index where
  /-- How it may be claimed. -/
  kind : Index.Kind
  /-- The next position. -/
  position : Nat := 0
  /-- A claim of a single-writer index is under way; always false for a shared one. -/
  busy : Bool := false
  deriving DecidableEq, Repr

namespace Index

/-- The position after `old` in a ring of `capacity` slots. -/
def next (old capacity : Nat) : Except Fault Nat :=
  if Word.size ≤ old + 1 then .error .sumOverflow
  else if capacity = 0 then .error .remainderByZero
  else .ok ((old + 1) % capacity)

/-! ### Whole claims -/

/-- Claims the current position in a ring of `capacity` slots. -/
def claim (capacity : Nat) (x : Index) : Except Fault Nat × Index :=
  match x.kind with
  | .single =>
    if x.busy then (.error .indexBusy, x)
    else match next x.position capacity with
      | .error f => (.error f, { x with busy := true })
      | .ok p => (.ok x.position, { x with position := p })
  | .shared =>
    match next x.position capacity with
    | .error f => (.error f, x)
    | .ok p => (.ok x.position, { x with position := p })

/-! ### Atomic steps -/

/-- Where a thread stands that is claiming a position. -/
inductive Claiming
  /-- Before the first step. -/
  | start
  /-- The flag is set. -/
  | read
  /-- The position of a single-writer index was read. -/
  | store (old : Nat)
  /-- The next position was stored. -/
  | leave (old : Nat)
  /-- The position of a shared index was read. -/
  | swap (old : Nat)
  deriving DecidableEq, Repr

/-- The next step of a claim. A swap may also fail without cause, which `spurious` says. -/
def Claiming.step (capacity : Nat) (spurious : Bool) :
    Claiming → Index → Progress Claiming (Except Fault Nat) × Index
  | .start, x =>
    match x.kind with
    | .single =>
      if x.busy then (.done (.error .indexBusy), x) else (.more .read, { x with busy := true })
    | .shared => (.more (.swap x.position), x)
  | .read, x => (.more (.store x.position), x)
  | .store old, x =>
    match next old capacity with
    | .error f => (.done (.error f), x)
    | .ok p => (.more (.leave old), { x with position := p })
  | .leave old, x => (.done (.ok old), { x with busy := false })
  | .swap old, x =>
    match next old capacity with
    | .error f => (.done (.error f), x)
    | .ok p =>
      if x.position = old ∧ spurious = false then (.done (.ok old), { x with position := p })
      else (.more (.swap x.position), x)

/-! ### Small facts -/

theorem next_eq {old capacity : Nat} (h : old < capacity) (hc : capacity < Word.size) :
    next old capacity = .ok ((old + 1) % capacity) := by
  unfold next
  rw [if_neg (by omega), if_neg (by omega)]

end Index

end PermitRing
