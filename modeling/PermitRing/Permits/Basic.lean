import PermitRing.Parker.Basic
import PermitRing.Progress

/-!
# Permits

A counter of permits and a parker for the threads that wait for one. A permit is taken by counting
down from a number above zero and handed back by counting up and waking one thread. A thread that
finds none asks its *cancel predicate* whether waiting still makes sense, and parks if it does.

## Main definitions

* `Permits.take?`, `release`, `releaseAll`, `expire` — the operations that do not wait;
* `Permits.acquire` — taking a permit, waiting for it if need be, in a settled run;
* `Permits.Taking`, `Waking` — the points at which a thread stands between the atomic steps.

## Implementation notes

A cancel predicate may itself use the counter that it is asked about. It is given as a list of
evaluations, each with the operations that it performs and its answer, and one answer for all
evaluations after them, which perform nothing.
-/

namespace PermitRing

/-- A counter of permits with the threads that wait for one. -/
structure Permits where
  /-- The permits that can be taken, as a word. -/
  count : Nat
  /-- Where threads wait. -/
  parker : Parker

namespace Permits

/-! ### Operations that do not wait -/

/-- The permits left after one is taken, unless there is none. -/
def take? (p : Permits) : Option Permits :=
  if p.count = 0 then none else some { p with count := Word.pred p.count }

/-- Counts up. -/
def give (p : Permits) : Permits :=
  { p with count := Word.succ p.count }

/-- Hands one permit back and wakes one thread. -/
def release (p : Permits) : Permits :=
  let p := p.give
  { p with parker := p.parker.unparkOne }

/-- Wakes all threads, so that they ask their cancel predicates again. -/
def releaseAll (p : Permits) : Permits :=
  { p with parker := p.parker.unparkAll }

/-- The time limit of a thread passes: if it sleeps here it gets up. -/
def expire (thread : Nat) (p : Permits) : Permits :=
  { p with parker := p.parker.expire thread }

/-- The threads that wait. -/
def waiters (p : Permits) : Nat :=
  p.parker.parked

/-! ### Cancel predicates -/

/-- What a cancel predicate may do to the counter. -/
inductive Action
  /-- Hands one permit back. -/
  | release
  /-- Wakes all threads. -/
  | releaseAll
  /-- Takes a permit if there is one. -/
  | take
  deriving DecidableEq, Repr

/-- Carries out one operation of a predicate. -/
def perform (p : Permits) : Action → Permits
  | .release => p.release
  | .releaseAll => p.releaseAll
  | .take => p.take?.getD p

/-- One evaluation of a cancel predicate. -/
structure Evaluation where
  /-- What it does. -/
  actions : List Action
  /-- Whether the wait is to be given up. -/
  answer : Bool
  deriving DecidableEq, Repr

/-! ### Waiting -/

/-- How taking a permit ends. -/
inductive Outcome
  /-- A permit was taken. -/
  | acquired
  /-- The predicate gave the wait up. -/
  | cancelled
  /-- The time limit passed. -/
  | timedOut
  deriving DecidableEq, Repr

/-- The name by which an outcome is displayed. -/
def Outcome.name : Outcome → String
  | acquired => "Acquired"
  | cancelled => "Cancelled"
  | timedOut => "TimedOut"

/-- How one round of waiting ends. -/
inductive Round
  /-- The wait is over. -/
  | ended (outcome : Outcome)
  /-- The thread sleeps. -/
  | asleep
  /-- The thread has to look again; whether its time limit has passed. -/
  | again (expired : Bool)
  deriving DecidableEq, Repr

/-- One round: the epoch is read, a permit is looked for, the predicate is asked, and the thread
parks. The second component counts the evaluations of the predicate. -/
def round (thread : Nat) (limit : Patience) (expired : Bool) (e : Evaluation) (p : Permits) :
    Round × Nat × Permits :=
  let epoch := p.parker.epoch
  match p.take? with
  | some p => (.ended .acquired, 0, p)
  | none =>
    let p := e.actions.foldl perform p
    if e.answer then
      match p.take? with
      | some p => (.ended .acquired, 1, p)
      | none => (.ended .cancelled, 1, p)
    else if expired = true ∨ limit = .instant then (.ended .timedOut, 1, p)
    else match p.parker.park thread epoch limit with
      | (.woken, k) => (.again expired, 1, { p with parker := k })
      | (.timedOut, k) => (.again true, 1, { p with parker := k })
      | (.asleep, k) => (.asleep, 1, { p with parker := k })

/-- What a call that waits for a permit comes to. -/
structure Acquisition where
  /-- How it ended; none while the thread sleeps. -/
  outcome : Option Outcome
  /-- How often the predicate was asked. -/
  evaluations : Nat
  /-- The permits afterwards. -/
  permits : Permits

/-- Rounds until the wait is over or the thread sleeps. A round after the listed evaluations
changes nothing, so it is over, asleep, or out of time, and after that one more round ends it. -/
def await (thread : Nat) (limit : Patience) (last : Bool) :
    Bool → Nat → List Evaluation → Permits → Acquisition
  | expired, n, e :: es, p =>
    match round thread limit expired e p with
    | (.ended o, k, p) => ⟨some o, n + k, p⟩
    | (.asleep, k, p) => ⟨none, n + k, p⟩
    | (.again x, k, p) => await thread limit last x (n + k) es p
  | expired, n, [], p =>
    match round thread limit expired ⟨[], last⟩ p with
    | (.ended o, k, p) => ⟨some o, n + k, p⟩
    | (.asleep, k, p) => ⟨none, n + k, p⟩
    | (.again _, k, p) =>
      match round thread limit true ⟨[], last⟩ p with
      | (.ended o, l, p) => ⟨some o, n + k + l, p⟩
      | (_, l, p) => ⟨none, n + k + l, p⟩

/-- A thread takes a permit, and waits for it as long as its limit and its predicate let it. -/
def acquire (thread : Nat) (limit : Patience) (es : List Evaluation) (last : Bool) (p : Permits) :
    Acquisition :=
  match p.take? with
  | some p => ⟨some .acquired, 0, p⟩
  | none => await thread limit last false 0 es p

/-- A thread that slept goes on waiting; its predicate has one answer for all evaluations. -/
def resume (thread : Nat) (limit : Patience) (last : Bool) (p : Permits) :
    Option Outcome × Permits :=
  let a := await thread limit last false 0 [] p
  (a.outcome, a.permits)

/-! ### Small facts -/

@[simp] theorem count_release (p : Permits) : p.release.count = Word.succ p.count :=
  rfl

@[simp] theorem count_releaseAll (p : Permits) : p.releaseAll.count = p.count :=
  rfl

theorem take?_of_pos {p : Permits} (h : 0 < p.count) :
    p.take? = some { p with count := Word.pred p.count } :=
  if_neg (Nat.ne_of_gt h)

theorem take?_of_eq_zero {p : Permits} (h : p.count = 0) : p.take? = none :=
  if_pos h

/-! ### Points between the atomic steps -/

/-- Where a thread stands that is taking a permit without waiting. -/
inductive Taking
  /-- Before the first step. -/
  | load
  /-- A number of permits was read. -/
  | swap (seen : Nat)
  deriving DecidableEq, Repr

/-- The point after a number of permits was read: at zero there is nothing to take. -/
def Taking.seeing (n : Nat) : Progress Taking Bool :=
  if n = 0 then .done false else .more (.swap n)

/-- The next step of taking a permit. A swap may also fail without cause, which `spurious` says. -/
def Taking.step (spurious : Bool) : Taking → Permits → Progress Taking Bool × Permits
  | .load, p => (seeing p.count, p)
  | .swap seen, p =>
    if p.count = seen ∧ spurious = false then (.done true, { p with count := Word.pred p.count })
    else (seeing p.count, p)

/-- Where a thread stands that is waking others. -/
inductive Waking
  /-- Before the epoch is moved on. -/
  | bump
  /-- Before it looks whether anybody is parked. -/
  | look
  /-- Before it rouses. -/
  | rouse
  deriving DecidableEq, Repr

/-- The next step of waking one thread, or all. Roused threads still have to leave by themselves,
so this step takes them out of the sleepers only. -/
def Waking.step (every : Bool) : Waking → Permits → Progress Waking Unit × Permits
  | .bump, p => (.more .look, { p with parker := p.parker.bump })
  | .look, p => (if p.parker.parked = 0 then .done () else .more .rouse, p)
  | .rouse, p =>
    let k := p.parker
    if every then (.done (), { p with parker := { k with sleepers := [] } })
    else match k.nextSleeper? with
      | none => (.done (), p)
      | some s => (.done (), { p with parker := { k.getUp s.thread with rouses := k.rouses + 1 } })

end Permits

end PermitRing
