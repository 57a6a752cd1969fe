import PermitRing.Backoff
import PermitRing.Progress

/-!
# Slots

One place for at most one element. A slot has a phase word, by which threads claim it, and a cell,
which holds an element or nothing that may be looked at.

```
empty ──claim──▶ writing ──publish──▶ full
  ▲                                    │
  └──vacate── reading ◀─────claim──────┘
```

A claim succeeds only from the phase that it leaves, so of several threads that try to claim a slot
at once one is let in, and the cell is touched by that one alone until it publishes or vacates.

## Main definitions

* `Slot.claimWrite?`, `place`, `publish` and `claimRead?`, `remove`, `vacate` — the atomic steps;
* `Slot.write?`, `take?` — whole operations, which do not answer where they would wait;
* `Slot.Writing`, `Slot.Taking` — the points at which a thread stands between those steps.
-/

namespace PermitRing

/-- Whom a slot belongs to. -/
inductive Slot.Phase
  /-- Nobody; the cell holds nothing. -/
  | empty
  /-- The thread that is moving an element in. -/
  | writing
  /-- Nobody; the cell holds an element. -/
  | full
  /-- The thread that is moving the element out. -/
  | reading
  deriving DecidableEq, Repr, Inhabited

/-- One place for at most one element. -/
structure Slot (α : Type) where
  /-- Whom the slot belongs to. -/
  phase : Slot.Phase
  /-- The element, if one has been moved in and not been moved out. -/
  cell : Option α
  deriving DecidableEq, Repr

namespace Slot

variable {α : Type}

/-- A slot without an element. -/
def vacant : Slot α :=
  ⟨.empty, none⟩

instance : Inhabited (Slot α) :=
  ⟨vacant⟩

/-- Whether the slot holds an element that may be taken. -/
def isFull (s : Slot α) : Bool :=
  decide (s.phase = .full)

/-! ### Atomic steps -/

/-- Claims an empty slot for writing. -/
def claimWrite? (s : Slot α) : Option (Slot α) :=
  if s.phase = .empty then some { s with phase := .writing } else none

/-- Moves an element into the cell. -/
def place (v : α) (s : Slot α) : Slot α :=
  { s with cell := some v }

/-- Lets the element be taken. -/
def publish (s : Slot α) : Slot α :=
  { s with phase := .full }

/-- Claims a full slot for reading. -/
def claimRead? (s : Slot α) : Option (Slot α) :=
  if s.phase = .full then some { s with phase := .reading } else none

/-- Moves the element out of the cell. -/
def remove (s : Slot α) : Slot α :=
  { s with cell := none }

/-- Lets the slot be written again. -/
def vacate (s : Slot α) : Slot α :=
  { s with phase := .empty }

/-! ### Whole operations -/

/-- Moves an element in; no answer where the call would wait for the slot to become empty. -/
def write? (v : α) (s : Slot α) : Option (Slot α) :=
  s.claimWrite?.map fun s => (s.place v).publish

/-- Moves the element out; no answer where the call would wait for the slot to become full. -/
def take? (s : Slot α) : Option (α × Slot α) :=
  s.claimRead?.bind fun s => s.cell.map fun v => (v, s.remove.vacate)

/-- Destroys the element, if the slot is full. Nobody else may be at the slot. -/
def clear (s : Slot α) : Option α × Slot α :=
  if s.phase = .full then (s.cell, vacant) else (none, s)

/-- A writer waits at the slot until its element is taken, and then moves its own in: the element
taken, and the slot afterwards. No answer where the writer would not wait. -/
def writeBehind? (v : α) (s : Slot α) : Option (α × Slot α) :=
  match s.write? v with
  | some _ => none
  | none => s.take?.bind fun (old, s) => (s.write? v).map fun s => (old, s)

/-- A taker waits at the slot until an element is moved in, and takes that: the element taken, and
the slot afterwards. No answer where the taker would not wait. -/
def takeBehind? (v : α) (s : Slot α) : Option (α × Slot α) :=
  match s.take? with
  | some _ => none
  | none => (s.write? v).bind take?

/-! ### Points between the steps -/

/-- Where a thread stands that is moving an element in. -/
inductive Writing
  /-- Before its claim, having waited so long. -/
  | claim (wait : Backoff)
  /-- The slot is its own. -/
  | place
  /-- The element is in the cell. -/
  | publish
  deriving DecidableEq, Repr

/-- Where a thread stands that is moving an element out. -/
inductive Taking (α : Type)
  /-- Before its claim, having waited so long. -/
  | claim (wait : Backoff)
  /-- The slot is its own. -/
  | remove
  /-- The element is in its hands. -/
  | vacate (v : α)
  deriving DecidableEq, Repr

/-- The next step of a thread that moves `v` in. A claim may also fail without cause, which
`spurious` says. -/
def Writing.step (v : α) (spurious : Bool) : Writing → Slot α → Progress Writing Unit × Slot α
  | .claim wait, s =>
    match if spurious then none else s.claimWrite? with
    | some s => (.more .place, s)
    | none => (.more (.claim wait.snooze), s)
  | .place, s => (.more .publish, s.place v)
  | .publish, s => (.done (), s.publish)

/-- The next step of a thread that moves the element out. An empty cell in a claimed slot leaves
nothing to take, and the thread stays where it is. -/
def Taking.step (spurious : Bool) : Taking α → Slot α → Progress (Taking α) α × Slot α
  | .claim wait, s =>
    match if spurious then none else s.claimRead? with
    | some s => (.more .remove, s)
    | none => (.more (.claim wait.snooze), s)
  | .remove, s =>
    match s.cell with
    | some v => (.more (.vacate v), s.remove)
    | none => (.more .remove, s)
  | .vacate v, s => (.done v, s.vacate)

/-! ### Small facts -/

@[simp] theorem write?_vacant (v : α) : (vacant : Slot α).write? v = some ⟨.full, some v⟩ :=
  rfl

@[simp] theorem take?_full (v : α) : (⟨.full, some v⟩ : Slot α).take? = some (v, vacant) :=
  rfl

end Slot

end PermitRing
