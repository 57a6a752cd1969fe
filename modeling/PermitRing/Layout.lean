/-!
# Layout

The two sides of a queue keep their indices on cache lines of their own, so that a producer and a
consumer do not slow each other down. This module holds the size of such a line and the wrapper
that gives a value one to itself.
-/

namespace PermitRing

/-- Bytes of a cache line. -/
def cacheLineSize : Nat := 64

/-- A value on a cache line of its own. -/
structure Padded (α : Type) where
  /-- The value. -/
  value : α

namespace Padded

variable {α : Type}

/-- Replaces the value, in the same place. -/
def set (_ : Padded α) (v : α) : Padded α :=
  ⟨v⟩

/-- The alignment of a padded value, whatever the value. -/
def alignment (_ : Padded α) : Nat :=
  cacheLineSize

end Padded

end PermitRing
