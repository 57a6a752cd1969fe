import PermitRing.Index.Basic
import PermitRing.Storage

/-!
# Rings

A ring of slots with an index on either side and nothing else: no permits, no waiting, no closing.
A thread that finds the slot at its position in the wrong phase is turned away and tries again. A
queue is measured against it.
-/

namespace PermitRing

/-- A ring of slots. -/
structure Ring (α : Type) where
  /-- The slots. -/
  storage : Storage α
  /-- Where the next element goes in. -/
  tail : Index
  /-- Where the next element comes out. -/
  head : Index

namespace Ring

variable {α : Type}

/-- A ring without elements. -/
def vacant (capacity : Nat) : Ring α :=
  ⟨.vacant capacity, { kind := .shared }, { kind := .shared }⟩

/-- Moves an element in, if the slot at the tail is free: whether it was, and the ring after. -/
def offer (v : α) : Ring α → Bool × Ring α
  | ⟨storage, tail, head⟩ =>
    match storage.write tail.position v with
    | (.error _, storage) => (false, ⟨storage, tail, head⟩)
    | (.ok (), storage) =>
      let capacity := storage.capacity
      (true, ⟨storage, (tail.claim capacity).2, head⟩)

/-- Moves an element out, if there is one in the slot at the head: the element, and the ring
after. -/
def poll : Ring α → Option α × Ring α
  | ⟨storage, tail, head⟩ =>
    match storage.take head.position with
    | (.error _, storage) => (none, ⟨storage, tail, head⟩)
    | (.ok v, storage) =>
      let capacity := storage.capacity
      (some v, ⟨storage, tail, (head.claim capacity).2⟩)

end Ring

end PermitRing
