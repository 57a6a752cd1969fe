/-!
# Progress of an operation

An operation on shared data is a sequence of atomic steps, between which other threads may act. One
step of it either leaves more to do, from a later point, or ends it with a result.
-/

namespace PermitRing

/-- What one atomic step of an operation leads to. -/
inductive Progress (π ρ : Type)
  /-- The operation goes on from a point. -/
  | more (point : π)
  /-- The operation is over. -/
  | done (result : ρ)
  deriving DecidableEq, Repr

end PermitRing
