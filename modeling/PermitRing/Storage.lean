import PermitRing.Fault
import PermitRing.Slot

/-!
# Storage

A fixed number of slots, addressed by their place. Nothing is ever put into a slot but by the
slot's own operations, and an address past the end is a fault that changes nothing.
-/

namespace PermitRing

/-- A fixed number of slots. -/
structure Storage (α : Type) where
  /-- The slots by their place. -/
  slots : Array (Slot α)

namespace Storage

variable {α : Type}

/-- `capacity` slots without elements. -/
def vacant (capacity : Nat) : Storage α :=
  ⟨Array.replicate capacity .vacant⟩

/-- The number of slots. -/
def capacity (s : Storage α) : Nat :=
  s.slots.size

/-- The slot at a place. -/
def slot (s : Storage α) (i : Nat) : Except Fault (Slot α) :=
  match s.slots[i]? with
  | some x => .ok x
  | none => .error (.slotOutOfRange i s.capacity)

/-- The storage with the slot at a place replaced. -/
def put (s : Storage α) (i : Nat) (x : Slot α) : Storage α :=
  ⟨s.slots.setIfInBounds i x⟩

/-! ### Operations on one slot -/

/-- Whether the slot at a place holds an element. -/
def isFull (s : Storage α) (i : Nat) : Except Fault Bool :=
  (s.slot i).map Slot.isFull

/-- Carries out an operation on the slot at a place: its result and the storage after. The slot's
operation has no outcome where it would wait, and a fault changes nothing. -/
def onSlot {β : Type} (op : Slot α → Option (β × Slot α)) (i : Nat) (s : Storage α) :
    Except Fault β × Storage α :=
  match s.slots[i]? with
  | none => (.error (.slotOutOfRange i s.capacity), s)
  | some x =>
    match op x with
    | some (r, x) => (.ok r, s.put i x)
    | none => (.error .waitsForever, s)

/-- Moves an element into the slot at a place. -/
def write (i : Nat) (v : α) (s : Storage α) : Except Fault Unit × Storage α :=
  s.onSlot (fun x => (x.write? v).map fun x => ((), x)) i

/-- Moves the element out of the slot at a place. -/
def take (i : Nat) (s : Storage α) : Except Fault α × Storage α :=
  s.onSlot Slot.take? i

/-- A writer waits at a full slot: see `Slot.writeBehind?`. -/
def writeBehind (i : Nat) (v : α) (s : Storage α) : Except Fault α × Storage α :=
  s.onSlot (Slot.writeBehind? v) i

/-- A taker waits at an empty slot: see `Slot.takeBehind?`. -/
def takeBehind (i : Nat) (v : α) (s : Storage α) : Except Fault α × Storage α :=
  s.onSlot (Slot.takeBehind? v) i

/-! ### Operations on all slots -/

/-- Which slots hold an element. -/
def occupancy (s : Storage α) : List Bool :=
  s.slots.toList.map Slot.isFull

/-- The number of slots that hold an element. -/
def fullCount (s : Storage α) : Nat :=
  s.occupancy.count true

/-- Destroys every element: the elements in the order of their slots, and the storage after. -/
def clear (s : Storage α) : List α × Storage α :=
  (s.slots.toList.filterMap fun x => x.clear.1, ⟨s.slots.map fun x => x.clear.2⟩)

end Storage

end PermitRing
