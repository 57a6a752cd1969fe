import PermitRing.Patience
import PermitRing.Word

/-!
# Parkers

Where threads sleep until something has changed. A parker counts the wakes that it has been asked
for: this count, of 32 bits, is its *epoch*. A thread reads the epoch, looks whether it has to wait,
and then parks with the epoch that it read. If a wake came in between, the epoch has moved on and
the thread does not go to sleep, so that no wake is lost.

There are two kinds. With a futex the comparison of the epochs and the falling asleep are one step
of the operating system, and whoever is roused returns. With a condition variable the epoch is
guarded by a lock, and whoever is roused compares the epochs again and sleeps on if they agree. So
does a sleeper whose time limit passes: if the epoch has moved on meanwhile it counts as woken,
whereas the operating system says that time is up.

## Main definitions

* `Parker.park`, `unparkOne`, `unparkAll` — the operations, as they go in a settled run;
* `Parker.expire`, `isWokenLate` — the time limit of a sleeper passes;
* `Parker.enlist`, `leave`, `bump`, `rouseOne`, `rouseAll` — what they consist of.

## Implementation notes

Which of several sleepers a single wake reaches is not promised to anybody. `Parker.order` makes
that choice: the `n`-th wake that finds a sleeper reaches the one at place `order n` of the list,
counted round and round.
-/

namespace PermitRing

/-- By which means threads sleep. -/
inductive Parker.Kind
  /-- A word that the operating system compares. -/
  | futex
  /-- A condition variable. -/
  | condvar
  deriving DecidableEq, Repr, Inhabited

/-- A thread that sleeps. -/
structure Parker.Sleeper where
  /-- The thread. -/
  thread : Nat
  /-- The epoch with which it went to sleep. -/
  epoch : Nat
  deriving DecidableEq, Repr

/-- Where threads sleep until something has changed. -/
structure Parker where
  /-- By which means threads sleep. -/
  kind : Parker.Kind
  /-- The wakes so far, as a word of 32 bits. -/
  epoch : Nat := 0
  /-- The threads that are inside a call of `park`, as a word. -/
  parked : Nat := 0
  /-- The threads that sleep, in the order in which they fell asleep. -/
  sleepers : List Parker.Sleeper := []
  /-- The place of the sleeper that each single wake reaches. -/
  order : Nat → Nat := fun _ => 0
  /-- The single wakes that found a sleeper. -/
  rouses : Nat := 0

namespace Parker

/-- The number of values of an epoch. -/
def epochs : Nat := 0x100000000

/-! ### What the operations consist of -/

/-- A thread enters `park`. -/
def enlist (p : Parker) : Parker :=
  { p with parked := Word.succ p.parked }

/-- A thread leaves `park`. -/
def leave (p : Parker) : Parker :=
  { p with parked := Word.pred p.parked }

/-- A thread falls asleep. -/
def doze (thread epoch : Nat) (p : Parker) : Parker :=
  { p with sleepers := p.sleepers ++ [⟨thread, epoch⟩] }

/-- A thread is no longer asleep. -/
def getUp (thread : Nat) (p : Parker) : Parker :=
  { p with sleepers := p.sleepers.filter fun s => s.thread != thread }

/-- The thread sleeps. -/
def isAsleep (thread : Nat) (p : Parker) : Bool :=
  p.sleepers.any fun s => s.thread == thread

/-- Counts a wake. -/
def bump (p : Parker) : Parker :=
  { p with epoch := (p.epoch + 1) % epochs }

/-- A roused thread sleeps on: only with a condition variable, when it finds its own epoch. -/
def sleepsOn (p : Parker) (s : Sleeper) : Bool :=
  match p.kind with
  | .futex => false
  | .condvar => s.epoch == p.epoch

/-- The sleeper that the next single wake reaches. -/
def nextSleeper? (p : Parker) : Option Sleeper :=
  p.sleepers[p.order p.rouses % p.sleepers.length]?

/-- Rouses one sleeper, if there is any. -/
def rouseOne (p : Parker) : Parker :=
  match p.nextSleeper? with
  | none => p
  | some s =>
    let p := { p with rouses := p.rouses + 1 }
    if p.sleepsOn s then p else (p.getUp s.thread).leave

/-- Rouses every sleeper. -/
def rouseAll (p : Parker) : Parker :=
  let risen := p.sleepers.filter fun s => !p.sleepsOn s
  risen.length.repeat leave { p with sleepers := p.sleepers.filter p.sleepsOn }

/-! ### The operations in a settled run -/

/-- How a call of `park` ends, if it does. -/
inductive Park
  /-- The epoch had moved on. -/
  | woken
  /-- The time limit passed. -/
  | timedOut
  /-- It does not end; the thread sleeps. -/
  | asleep
  deriving DecidableEq, Repr

/-- A thread parks with an epoch. -/
def park (thread epoch : Nat) (limit : Patience) (p : Parker) : Park × Parker :=
  let p := p.enlist
  if p.epoch ≠ epoch then (.woken, p.leave)
  else match limit with
    | .lasting | .endless => (.asleep, p.doze thread epoch)
    | .instant | .brief => (.timedOut, p.leave)

/-- The time limit of a thread passes: if it sleeps here it gets up. -/
def expire (thread : Nat) (p : Parker) : Parker :=
  if p.isAsleep thread then (p.getUp thread).leave else p

/-- Whether a sleeper whose time limit passes counts as woken: only with a condition variable, when
it finds another epoch than its own. -/
def isWokenLate (p : Parker) (s : Sleeper) : Bool :=
  match p.kind with
  | .futex => false
  | .condvar => s.epoch != p.epoch

/-- Wakes one thread. -/
def unparkOne (p : Parker) : Parker :=
  let p := p.bump
  if p.parked = 0 then p else p.rouseOne

/-- Wakes all threads. -/
def unparkAll (p : Parker) : Parker :=
  let p := p.bump
  if p.parked = 0 then p else p.rouseAll

/-- The threads that slept in `p` and no longer sleep in `q`. -/
def risen (p q : Parker) : List Nat :=
  (p.sleepers.map Sleeper.thread).filter fun t => !q.isAsleep t

/-! ### Small facts -/

/-- Leaving changes nothing but the count. -/
theorem repeat_leave (n : Nat) (p : Parker) :
    n.repeat leave p = { p with parked := n.repeat Word.pred p.parked } := by
  induction n with
  | zero => rfl
  | succ n ih => simp only [Nat.repeat, ih, leave]

theorem epoch_rouseOne (p : Parker) : p.rouseOne.epoch = p.epoch := by
  unfold rouseOne
  cases p.nextSleeper? with
  | none => rfl
  | some s =>
    dsimp only
    split <;> simp only [getUp, leave]

theorem epoch_rouseAll (p : Parker) : p.rouseAll.epoch = p.epoch := by
  simp only [rouseAll, repeat_leave]

/-- Every wake moves the epoch on by one, whether it finds anybody or not. -/
theorem epoch_unparkOne (p : Parker) : p.unparkOne.epoch = (p.epoch + 1) % epochs := by
  simp only [unparkOne]
  split
  · rw [bump]
  · rw [epoch_rouseOne, bump]

theorem epoch_unparkAll (p : Parker) : p.unparkAll.epoch = (p.epoch + 1) % epochs := by
  simp only [unparkAll]
  split
  · rw [bump]
  · rw [epoch_rouseAll, bump]

/-- A thread that comes with an old epoch does not sleep. -/
theorem park_of_ne {p : Parker} {epoch : Nat} (h : p.epoch ≠ epoch) (thread : Nat)
    (limit : Patience) : p.park thread epoch limit = (.woken, p.enlist.leave) := by
  unfold park
  exact if_pos h

end Parker

end PermitRing
