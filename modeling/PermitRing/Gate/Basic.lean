import PermitRing.Fault
import PermitRing.Permits.Basic

/-!
# Admission gates

Permits for both sides of a queue. A produce permit stands for a free slot and a consume permit
for an element that is ready. An operation takes a permit of its own side first, moves its element,
and then hands a permit to the other side, so the two counters and the operations under way always
make up the capacity.
-/

namespace PermitRing

/-- The two sides of a queue. -/
inductive Side
  /-- The side of those who push. -/
  | produce
  /-- The side of those who pop. -/
  | consume
  deriving DecidableEq, Repr, Inhabited

/-- Permits for both sides of a queue. -/
structure Gate where
  /-- Free slots. -/
  produce : Permits
  /-- Elements that are ready. -/
  consume : Permits
  /-- The number of slots. -/
  capacity : Nat

namespace Gate

/-- The gate of an empty queue. -/
def start (capacity : Nat) (order : Side → Nat → Nat) : Gate where
  produce := ⟨capacity, { kind := .futex, order := order .produce }⟩
  consume := ⟨0, { kind := .futex, order := order .consume }⟩
  capacity := capacity

/-- The permits of a side. -/
def side (g : Gate) : Side → Permits
  | .produce => g.produce
  | .consume => g.consume

/-- The gate with the permits of a side replaced. -/
def setSide (g : Gate) (x : Side) (p : Permits) : Gate :=
  match x with
  | .produce => { g with produce := p }
  | .consume => { g with consume := p }

/-- Wakes everybody, the consumers first. -/
def wakeAll (g : Gate) : Gate :=
  { g with consume := g.consume.releaseAll, produce := g.produce.releaseAll }

/-- All permits that can be taken. Their sum is checked. -/
def permitsTotal (g : Gate) : Except Fault Nat :=
  if Word.size ≤ g.produce.count + g.consume.count then .error .sumOverflow
  else .ok (g.produce.count + g.consume.count)

end Gate

end PermitRing
