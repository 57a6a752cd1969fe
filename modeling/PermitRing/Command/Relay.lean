import PermitRing.Queue.Basic
import PermitRing.Ring

/-!
# Relays

Numbers are passed on through a queue by whole calls, without threads: they are pushed until the
queue is full, then all of them are popped, and so on. As many numbers come out as go in, whatever
the threads that do the same at once, so a program that only counts and adds up learns as much from
a relay.
-/

namespace PermitRing.Command

/-- What the receiving end of a relay keeps. -/
structure Tally where
  /-- The numbers received. -/
  received : Nat := 0
  /-- Their sum, as a word. -/
  checksum : Nat := 0
  deriving DecidableEq, Repr

/-- One more number is received. -/
def Tally.add (t : Tally) (v : Nat) : Tally :=
  ⟨t.received + 1, (t.checksum + v) % Word.size⟩

/-- Numbers on their way through a queue. -/
structure Relay where
  /-- The queue. -/
  queue : Queue Nat
  /-- What was received. -/
  tally : Tally := {}

namespace Relay

/-- Receives up to so many numbers. -/
def receive : Nat → Relay → Relay
  | 0, r => r
  | n + 1, ⟨queue, tally⟩ =>
    match queue.pop 0 .never with
    | (some (.popped v), queue) => receive n ⟨queue, tally.add v⟩
    | (_, queue) => ⟨queue, tally⟩

/-- Receives everything that is ready. -/
def receiveAll (r : Relay) : Relay :=
  let n := r.queue.size
  r.receive n

/-- Sends so many numbers, counting up from `v`. When the queue is full its numbers are received, if
there is anybody who does so; if there is not, no more are sent. The second component is the number
of numbers that were not sent. -/
def send (receives : Bool) : Nat → Nat → Relay → Relay × Nat
  | 0, _, r => (r, 0)
  | n + 1, v, ⟨queue, tally⟩ =>
    match queue.push 0 v .never with
    | (some .accepted, queue) => send receives n (v + 1) ⟨queue, tally⟩
    | (_, queue) =>
      if receives then
        match (receiveAll ⟨queue, tally⟩) with
        | ⟨queue, tally⟩ =>
          match queue.push 0 v .never with
          | (some .accepted, queue) => send receives n (v + 1) ⟨queue, tally⟩
          | (_, queue) => (⟨queue, tally⟩, n + 1)
      else (⟨queue, tally⟩, n + 1)

/-- Closes the queue; what is left is received, if there is anybody who does so. -/
def finish (receives : Bool) (r : Relay) : Relay :=
  let r := { r with queue := r.queue.close.2 }
  if receives then r.receiveAll else r

end Relay

/-! ### The same without a queue -/

/-- Receives everything that is in a ring: the numbers received, and the ring after. -/
def pollAll : Nat → Nat → Ring Nat → Nat × Ring Nat
  | 0, k, r => (k, r)
  | n + 1, k, r =>
    match r.poll with
    | (some _, r) => pollAll n (k + 1) r
    | (none, r) => (k, r)

/-- Sends so many numbers through a ring of slots, receiving all of them whenever it is full; the
numbers received. -/
def relayRing (capacity : Nat) : Nat → Nat → Nat → Ring Nat → Nat
  | 0, _, k, r => (pollAll capacity k r).1
  | n + 1, v, k, r =>
    match r.offer v with
    | (true, r) => relayRing capacity n (v + 1) k r
    | (false, r) =>
      let (k, r) := pollAll capacity k r
      relayRing capacity n (v + 1) k (r.offer v).2

end PermitRing.Command
