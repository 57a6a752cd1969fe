import PermitRing.Queue.Session

/-!
# The abstract queue

A bounded queue as it looks to those who use it: a list of elements, the number of constructors that
have reserved room and still run, and whether it was closed. There are no slots, indices, permits
or counters here, and no threads: a call either has an answer at once or would have to sleep.

## Main definitions

* `Fifo` — the state;
* `Fifo.call?` — a call without a constructor: no outcome where it would sleep;
* `Fifo.runStep?`, `runSteps?` — calls with constructors that make calls themselves, to any depth;
* `Fifo.Outcome` — what a step shows: a report without threads and log.

## Implementation notes

`iter` has no outcome, because that call is made on a thread of its own, which sleeps.
-/

namespace PermitRing

open Queue (Answer Build View)
open Queue.Session (Step Report)

/-- A bounded queue as it looks to those who use it. -/
structure Fifo (α : Type) where
  /-- Which sides several threads may use. -/
  discipline : Discipline
  /-- The number of elements that fit. -/
  capacity : Nat
  /-- The elements, the oldest first. -/
  items : List α := []
  /-- The constructors that run; each has room reserved for its element. -/
  running : Nat := 0
  /-- The queue was closed. -/
  isClosed : Bool := false

namespace Fifo

variable {α : Type}

/-! ### Views -/

/-- The room that is neither taken nor reserved. -/
def free (f : Fifo α) : Nat :=
  f.capacity - (f.items.length + f.running)

/-- Nothing will be added. -/
def isDrained (f : Fifo α) : Bool :=
  f.isClosed && f.running == 0

/-- The stage of the queue's life. -/
def state (f : Fifo α) : Lifecycle :=
  if !f.isClosed then .opened
  else if f.isDrained && f.items.isEmpty then .closed
  else .draining

/-- What shows of the queue between two steps. Nobody waits. -/
def view (f : Fifo α) : View :=
  ⟨f.state, f.items.length, f.free, 0, 0⟩

/-- The properties that a caller may ask for. -/
def info (f : Fifo α) : Queue.Info :=
  ⟨f.capacity, f.discipline, f.isClosed, f.items.isEmpty, f.free == 0⟩

/-- How the queue is built, as far as it shows. -/
def outline (f : Fifo α) : Text.Outline :=
  .record "BoundedQueue"
    [("discipline", f.discipline.outline), ("capacity", .word (toString f.capacity)),
     ("state", f.state.outline), ("approx_size", .word (toString f.items.length)),
     ("blocked_producers", .word (toString 0)), ("blocked_consumers", .word (toString 0))] false

/-! ### Calls -/

/-- Whether a producer gets room; no answer where it would sleep. -/
def admission? (wait : Wait) (f : Fifo α) : Option (Except Refusal Unit) :=
  if f.isClosed then some (.error .closed)
  else if f.items.length + f.running < f.capacity then some (.ok ())
  else match wait with
    | .never => some (.error .full)
    | .atMost limit => if limit.isLong then none else some (.error .timedOut)

/-- Why a consumer gets nothing out of an empty queue; no answer where it would sleep. -/
def refusal? (wait : Wait) (f : Fifo α) : Option Refusal :=
  if f.isDrained then some .closed
  else match wait with
    | .never => some .empty
    | .atMost limit => if limit.isLong then none else some .timedOut

/-- The queue with an element more at its end. -/
def append (v : α) (f : Fifo α) : Fifo α :=
  { f with items := f.items ++ [v] }

/-- A call without a constructor: its answer and the queue afterwards; none where it would sleep. -/
def call? : Step α → Fifo α → Option (Answer α × Fifo α)
  | .push v wait, f =>
    (f.admission? wait).map fun
      | .ok () => (.done, f.append v)
      | .error r => (.rejected ⟨v, r⟩, f)
  | .pop wait, f =>
    match f.items with
    | v :: vs => some (.popped v, { f with items := vs })
    | [] => (f.refusal? wait).map fun r => (.refused r, f)
  | .tryIter most, f =>
    let n := most.getD f.items.length
    some (.values (f.items.take n), { f with items := f.items.drop n })
  | .close, f =>
    if f.isClosed then some (.refused .alreadyClosed, f)
    else some (.done, { f with isClosed := true })
  | .info, f => some (.info f.info, f)
  | .outline, f => some (.outline f.outline, f)
  | .elapse _, f => some (.done, f)
  | .iter _, _ | .emplace .., _ => none

theorem admission?_eq_ok {wait : Wait} {f : Fifo α} (h : f.admission? wait = some (.ok ())) :
    f.isClosed = false ∧ f.items.length + f.running < f.capacity := by
  unfold admission? at h
  cases hc : f.isClosed with
  | true => simp [hc] at h
  | false =>
    by_cases hr : f.items.length + f.running < f.capacity
    · exact ⟨rfl, hr⟩
    · rw [hc, if_neg Bool.false_ne_true, if_neg hr] at h
      cases wait with
      | never => cases h
      | atMost limit =>
        dsimp only at h
        split at h <;> cases h

/-- A producer that would sleep finds the queue open and full, and may wait for others. -/
theorem admission?_eq_none {wait : Wait} {f : Fifo α} (h : f.admission? wait = none) :
    f.isClosed = false ∧ f.free = 0 ∧ ∃ limit, wait = .atMost limit ∧ limit.isLong = true := by
  unfold admission? at h
  split at h
  · cases h
  · rename_i hc
    split at h
    · cases h
    · rename_i hr
      have hfree : f.free = 0 := by rw [free]; omega
      cases wait with
      | never => cases h
      | atMost limit =>
        cases hl : limit.isLong with
        | true => exact ⟨Bool.eq_false_iff.mpr hc, hfree, limit, rfl, hl⟩
        | false =>
          dsimp only at h
          rw [hl] at h
          cases h

/-- A consumer that would sleep finds that elements may come, and may wait for others. -/
theorem refusal?_eq_none {wait : Wait} {f : Fifo α} (h : f.refusal? wait = none) :
    f.isDrained = false ∧ ∃ limit, wait = .atMost limit ∧ limit.isLong = true := by
  unfold refusal? at h
  split at h
  · cases h
  · rename_i hd
    cases wait with
    | never => cases h
    | atMost limit =>
      cases hl : limit.isLong with
      | true => exact ⟨Bool.eq_false_iff.mpr hd, limit, rfl, hl⟩
      | false =>
        dsimp only at h
        rw [hl] at h
        cases h

/-! ### Constructors -/

/-- A constructor begins to run. -/
def reserve (f : Fifo α) : Fifo α :=
  { f with running := f.running + 1 }

/-- A constructor no longer runs. -/
def unreserve (f : Fifo α) : Fifo α :=
  { f with running := f.running - 1 }

/-- A constructor ends: only one that has built an element adds it, closed or not. -/
def complete : Build α → Fifo α → Answer α × Fifo α
  | .built v, f => (.done, (f.unreserve).append v)
  | .failed e, f => (.unbuilt (.failed e), f.unreserve)
  | .raised text, f => (.faulted (.raised text), f.unreserve)

/-! ### Runs -/

/-- What a step shows. -/
inductive Outcome (α : Type)
  /-- The answer; for a construction whether the constructor ran, and what the steps that it
  carried out showed; and what shows of the queue afterwards. -/
  | mk (answer : Answer α) (ran : Bool) (inner : List (Outcome α)) (view : View)

mutual

/-- Carries out a step: no outcome if a call in it would sleep. -/
def runStep? : Step α → Fifo α → Option (Outcome α × Fifo α)
  | .emplace wait fallible inner build, f =>
    match f.admission? wait with
    | none => none
    | some (.error r) => some (.mk (.ofRefusal fallible r) false [] f.view, f)
    | some (.ok ()) =>
      (runSteps? inner f.reserve).map fun (outcomes, f) =>
        let (answer, f) := f.complete build
        (.mk answer true outcomes f.view, f)
  | x, f => (f.call? x).map fun (answer, f) => (.mk answer false [] f.view, f)

/-- Carries out steps in order. -/
def runSteps? : List (Step α) → Fifo α → Option (List (Outcome α) × Fifo α)
  | [], f => some ([], f)
  | x :: xs, f =>
    (runStep? x f).bind fun (outcome, f) =>
      (runSteps? xs f).map fun (outcomes, f) => (outcome :: outcomes, f)

end

/-! ### Reservations are balanced -/

theorem running_of_call? {x : Step α} {f g : Fifo α} {a : Answer α}
    (h : f.call? x = some (a, g)) : g.running = f.running := by
  cases x with
  | push v wait =>
    obtain ⟨r, -, hr⟩ := Option.map_eq_some_iff.mp h
    cases r with
    | error r => cases hr; rfl
    | ok u => cases hr; rfl
  | pop wait =>
    simp only [call?] at h
    split at h
    · cases h; rfl
    · obtain ⟨r, -, hr⟩ := Option.map_eq_some_iff.mp h
      cases hr; rfl
  | close =>
    simp only [call?] at h
    split at h <;> cases h <;> rfl
  | iter most | emplace wait fallible inner build => cases h
  | tryIter most | info | outline | elapse => cases h; rfl

theorem runStep?_of_ne {x : Step α} {f : Fifo α}
    (hx : ∀ wait fallible inner build, x ≠ .emplace wait fallible inner build) :
    runStep? x f = (f.call? x).map fun r => (.mk r.1 false [] r.2.view, r.2) := by
  rw [runStep?]
  exact hx

theorem running_complete (build : Build α) (f : Fifo α) :
    (f.complete build).2.running = f.running - 1 := by
  cases build <;> rfl

mutual

/-- After a step as many constructors run as before. -/
theorem running_of_runStep? : ∀ (x : Step α) {f g : Fifo α} {o : Outcome α},
    runStep? x f = some (o, g) → g.running = f.running
  | .emplace wait fallible inner build, f, g, o, h => by
    rw [runStep?] at h
    split at h
    · cases h
    · cases h; rfl
    · obtain ⟨r, hr, he⟩ := Option.map_eq_some_iff.mp h
      have hg : (r.2.complete build).2 = g := (Prod.mk.inj he).2
      rw [← hg, running_complete, running_of_runSteps? inner hr, reserve, Nat.add_sub_cancel]
  | .push v wait, f, g, o, h | .pop wait, f, g, o, h | .iter most, f, g, o, h
  | .tryIter most, f, g, o, h | .close, f, g, o, h | .info, f, g, o, h | .outline, f, g, o, h
  | .elapse t, f, g, o, h => by
    rw [runStep?_of_ne (by simp)] at h
    obtain ⟨r, hr, he⟩ := Option.map_eq_some_iff.mp h
    cases he
    exact running_of_call? hr

/-- After steps as many constructors run as before. -/
theorem running_of_runSteps? : ∀ (xs : List (Step α)) {f g : Fifo α} {os : List (Outcome α)},
    runSteps? xs f = some (os, g) → g.running = f.running
  | [], f, g, os, h => by cases h; rfl
  | x :: xs, f, g, os, h => by
    obtain ⟨⟨o, f₁⟩, hx, h₁⟩ := Option.bind_eq_some_iff.mp h
    obtain ⟨⟨os', f₂⟩, hxs, h₂⟩ := Option.map_eq_some_iff.mp h₁
    cases h₂
    rw [running_of_runSteps? xs hxs, running_of_runStep? x hx]

end

end Fifo

/-! ### Reports without threads and log -/

namespace Queue.Session

variable {α : Type}

mutual

/-- What a report shows of its step. -/
def Report.outcome : Report α → Fifo.Outcome α
  | .mk _ answer ran inner view _ _ _ => .mk answer ran (Report.outcomes inner) view

/-- What reports show of their steps. -/
def Report.outcomes : List (Report α) → List (Fifo.Outcome α)
  | [] => []
  | r :: rs => r.outcome :: Report.outcomes rs

end

/-- The answer of a call that sleeps. -/
def sleepingAnswer : Answer α → Bool
  | .asleep _ => true
  | _ => false

mutual

/-- A call of the step, or of its constructor, sleeps. -/
def Report.sleeps : Report α → Bool
  | .mk _ answer _ inner _ _ _ _ => sleepingAnswer answer || Report.anySleeps inner

/-- A call of the steps, or of their constructors, sleeps. -/
def Report.anySleeps : List (Report α) → Bool
  | [] => false
  | r :: rs => r.sleeps || Report.anySleeps rs

end

mutual

/-- The step makes no call that needs a thread of its own from the start. -/
def Step.isDirect : Step α → Bool
  | .iter _ => false
  | .emplace _ _ inner _ => Step.allDirect inner
  | _ => true

/-- The steps make no call that needs a thread of its own from the start. -/
def Step.allDirect : List (Step α) → Bool
  | [] => true
  | x :: xs => x.isDirect && Step.allDirect xs

end

/-- A step without a constructor is a call, after which all threads are let run. -/
theorem runStep_of_ne {settle : Session α → List (Report α) × Session α} {s : Session α} {x : Step α}
    (hx : ∀ wait fallible inner build, x ≠ .emplace wait fallible inner build) (name : String) :
    runStep settle name x s =
      Session.report name ((settle (s.act name x).2).2.settled (s.act name x).1).1 false []
        ((settle (s.act name x).2).1,
          ((settle (s.act name x).2).2.settled (s.act name x).1).2) := by
  rw [runStep]
  exact hx

end Queue.Session

end PermitRing
