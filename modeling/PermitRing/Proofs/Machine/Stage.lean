import PermitRing.Queue.Machine

/-!
# What a thread holds

Of all the points of an operation only few matter to the elements: where a thread looks for a permit
it holds nothing, however it does so, and where it wakes others it has nothing left to do. A *stage*
says what a thread holds. Of the queue, likewise, only the *core* matters: slots, indices, counters
and the flag, but not who sleeps where.

`Move` lists what a single step can do to a stage and to the core, with the conditions under which
it does. What is kept by all moves is kept by all interleavings.

## Main definitions

* `Stage`, `Core`, `Move` — what a thread holds, what it holds it of, and how that changes;
* `Call.accepted?`, `Answer.popped?`, `Call.Declines` — what an answer says about elements.
-/

namespace PermitRing.Queue

variable {α : Type}

/-! ### Stages -/

/-- What a thread holds of a queue. -/
inductive Stage (α : Type)
  /-- Nothing. -/
  | outside
  /-- Nothing; it is a consumer and has seen that the queue is closed. -/
  | sawClosed
  /-- Nothing; it is a consumer and has seen that no producer is inside the closed queue. -/
  | sawDrained
  /-- A permit to put an element in. -/
  | permitted
  /-- The permit, and a place in the count of producers. -/
  | counted
  /-- The same, and the queue was open when it was counted: its constructor runs. -/
  | building
  /-- The same, and an element: it claims a position. -/
  | tail (v : α) (x : Index.Claiming)
  /-- The same, and a position: it moves the element in. -/
  | writing (v : α) (i : Nat) (w : Slot.Writing)
  /-- The permit, for an element that it has moved in. -/
  | stored
  /-- The permit, for no element; it hands it back and then answers. -/
  | returning (a : Answer α)
  /-- A place in the count of producers. -/
  | leaving (a : Answer α)
  /-- Nothing; it was the last producer inside. -/
  | gone (a : Answer α)
  /-- A permit to take an element out: it claims a position. -/
  | head (x : Index.Claiming)
  /-- The permit and a position: it moves an element out. -/
  | taking (i : Nat) (t : Slot.Taking α)
  /-- The permit and an element. -/
  | taken (v : α)
  /-- An element. -/
  | handing (v : α)

/-- What a thread holds that waits for a permit. -/
def Awaiting.stage : Side → Awaiting → Stage α
  | .consume, .askPending _ => .sawClosed
  | .consume, .lastLook _ => .sawDrained
  | _, _ => .outside

/-- What a producer holds. -/
def Producing.stage : Producing α → Stage α
  | .checkOpen | .look _ | .wait _ => .outside
  | .enter => .permitted
  | .recheck => .counted
  | .construct => .building
  | .claim v x => .tail v x
  | .write v i w => .writing v i w
  | .give => .stored
  | .wake _ => .leaving .done
  | .giveBack a => .returning a
  | .wakeBack a _ | .finish a .count => .leaving a
  | .finish a _ => .gone a

/-- What a consumer holds. -/
def Consuming.stage : Consuming α → Stage α
  | .look _ | .askOpen => .outside
  | .askPending => .sawClosed
  | .lastLook _ => .sawDrained
  | .wait a => a.stage .consume
  | .claim x => .head x
  | .take i t => .taking i t
  | .give v => .taken v
  | .wake v _ => .handing v

/-- What a thread holds inside a call. -/
def Point.stage : Point α → Stage α
  | .producing p => p.stage
  | .consuming p => p.stage
  | .closing _ | .observing _ => .outside

/-- What a thread holds after a step, or its answer. -/
def stageOf : Progress (Point α) (Answer α) → Progress (Stage α) (Answer α)
  | .more p => .more p.stage
  | .done a => .done a

theorem Call.stage_first (call : Call α) : call.first.stage = .outside := by
  cases call <;> rfl

/-! ### The core of a queue -/

/-- The part of a queue by which elements are moved. -/
structure Core (α : Type) where
  /-- The slots. -/
  storage : Storage α
  /-- Where the next element goes in. -/
  tail : Index
  /-- Where the next element comes out. -/
  head : Index
  /-- The permits of producers. -/
  free : Nat
  /-- The permits of consumers. -/
  ready : Nat
  /-- The producers that are counted as inside. -/
  pending : Nat
  /-- The queue has not been closed. -/
  isOpen : Bool

/-- The part of the queue by which elements are moved. -/
def core (q : Queue α) : Core α where
  storage := q.storage
  tail := q.tail
  head := q.head
  free := q.free
  ready := q.size
  pending := q.pending
  isOpen := q.isOpen

/-- Who sleeps is no part of the core. -/
@[simp] theorem core_setParker (x : Side) (k : Parker) (q : Queue α) :
    (q.setParker x k).core = q.core := by
  cases x <;> rfl

/-! ### Calls and their answers -/

/-- The call pops elements. -/
def Call.isConsuming : Call α → Bool
  | .pop _ | .iter => true
  | _ => false

/-- The call puts an element in. -/
def Call.isProducing : Call α → Bool
  | .push .. | .emplace .. => true
  | _ => false

/-- The element that the call puts in, unless its constructor fails. -/
def Call.value? : Call α → Option α
  | .push v _ | .emplace _ _ (.built v) => some v
  | _ => none

theorem Call.isProducing_of_value? {call : Call α} {v : α} (h : call.value? = some v) :
    call.isProducing = true := by
  cases call <;> first | rfl | cases h

/-- The element that the call has put in when it gives an answer. -/
def Call.accepted? (call : Call α) : Answer α → Option α
  | .done => call.value?
  | _ => none

/-- The element that an answer hands out. -/
def Answer.popped? : Answer α → Option α
  | .popped v => some v
  | _ => none

/-- The answer of a pop that the queue is finished. -/
def Call.IsEnd (call : Call α) (a : Answer α) : Prop :=
  call.isConsuming = true ∧ a = .refused .closed

/-- An answer that moves no element and does not tell of the queue's end. An iteration gives none.
-/
structure Call.Declines (call : Call α) (a : Answer α) : Prop where
  accepted : call.accepted? a = none
  popped : a.popped? = none
  notEnd : ¬call.IsEnd a
  ne_iter : call ≠ .iter

theorem Call.declines_of_producing {call : Call α} (hc : call.isProducing = true) {a : Answer α}
    (ha : call.accepted? a = none) (hp : a.popped? = none) : call.Declines a := by
  refine ⟨ha, hp, fun he => ?_, ?_⟩
  · have hn : call.isConsuming = true := he.1
    cases call <;> simp_all [isProducing, isConsuming]
  · rintro rfl
    cases hc

theorem Call.accepted?_of_not_producing {call : Call α} (hc : call.isProducing = false)
    (a : Answer α) : call.accepted? a = none := by
  cases call <;> cases hc <;> cases a <;> rfl

/-! ### Moves -/

/-- What a step inside a call can do to the stage of its thread and to the core of the queue. -/
inductive Move (call : Call α) :
    Stage α → Core α → Progress (Stage α) (Answer α) → Core α → Prop
  /-- It looks around, or wakes others. -/
  | look {k : Core α} : Move call .outside k (.more .outside) k
  /-- The call ends without having moved an element. -/
  | decline {k : Core α} {a : Answer α} (ha : call.Declines a) : Move call .outside k (.done a) k
  /-- The queue is closed. -/
  | close {k : Core α} (hk : k.isOpen = true) :
    Move call .outside k (.more .outside) { k with isOpen := false }
  /-- A producer takes a permit. -/
  | reserve {k : Core α} (hc : call.isProducing = true) (hk : 0 < k.free) :
    Move call .outside k (.more .permitted) { k with free := k.free - 1 }
  /-- The producer is counted. -/
  | enter {k : Core α} :
    Move call .permitted k (.more .counted) { k with pending := Word.succ k.pending }
  /-- The counted producer finds the queue closed. -/
  | turnBack {k : Core α} {a : Answer α} (hk : k.isOpen = false) (ha : call.Declines a) :
    Move call .counted k (.more (.returning a)) k
  /-- The counted producer finds the queue open and has its element with it. -/
  | pass {k : Core α} {v : α} (hk : k.isOpen = true) (hv : call.value? = some v) :
    Move call .counted k (.more (.tail v .start)) k
  /-- The counted producer finds the queue open and constructs its element. -/
  | build {k : Core α} (hk : k.isOpen = true) : Move call .counted k (.more .building) k
  /-- The constructor has built the element. -/
  | built {k : Core α} {v : α} (hv : call.value? = some v) :
    Move call .building k (.more (.tail v .start)) k
  /-- The constructor has built none. -/
  | unbuilt {k : Core α} {a : Answer α} (hv : call.value? = none) (ha : call.Declines a) :
    Move call .building k (.more (.returning a)) k
  /-- A step on the index of the tail. -/
  | claimTail {k : Core α} {v : α} {x y : Index.Claiming} {i : Index} {b : Bool}
    (h : x.step k.storage.capacity b k.tail = (.more y, i)) :
    Move call (.tail v x) k (.more (.tail v y)) { k with tail := i }
  /-- The last step on the index of the tail. -/
  | gainTail {k : Core α} {v : α} {x : Index.Claiming} {i : Index} {n : Nat} {b : Bool}
    {w : Backoff} (h : x.step k.storage.capacity b k.tail = (.done (.ok n), i)) :
    Move call (.tail v x) k (.more (.writing v n (.claim w))) { k with tail := i }
  /-- The index of the tail cannot be claimed. -/
  | faultTail {k : Core α} {v : α} {x : Index.Claiming} {i : Index} {f : Fault} {b : Bool}
    (h : x.step k.storage.capacity b k.tail = (.done (.error f), i)) :
    Move call (.tail v x) k (.done (.faulted f)) { k with tail := i }
  /-- A step on the slot that an element goes into. -/
  | write {k : Core α} {v : α} {n : Nat} {w w' : Slot.Writing} {s s' : Slot α} {b : Bool}
    (hs : k.storage.slot n = .ok s) (h : w.step v b s = (.more w', s')) :
    Move call (.writing v n w) k (.more (.writing v n w')) { k with storage := k.storage.put n s' }
  /-- The last step on the slot that an element goes into. -/
  | store {k : Core α} {v : α} {n : Nat} {w : Slot.Writing} {s s' : Slot α} {b : Bool}
    (hs : k.storage.slot n = .ok s) (h : w.step v b s = (.done (), s')) :
    Move call (.writing v n w) k (.more .stored) { k with storage := k.storage.put n s' }
  /-- There is no slot for the element. -/
  | faultWrite {k : Core α} {v : α} {n : Nat} {w : Slot.Writing} {f : Fault}
    (hs : k.storage.slot n = .error f) : Move call (.writing v n w) k (.done (.faulted f)) k
  /-- A permit is handed out for the element. -/
  | give {k : Core α} :
    Move call .stored k (.more (.leaving .done)) { k with ready := Word.succ k.ready }
  /-- The permit is handed back. -/
  | giveBack {k : Core α} {a : Answer α} :
    Move call (.returning a) k (.more (.leaving a)) { k with free := Word.succ k.free }
  /-- A producer that is about to leave wakes others. -/
  | wake {k : Core α} {a : Answer α} : Move call (.leaving a) k (.more (.leaving a)) k
  /-- A producer leaves. -/
  | leave {k : Core α} {a : Answer α} (hk : k.pending ≠ 1) :
    Move call (.leaving a) k (.done a) { k with pending := Word.pred k.pending }
  /-- The last producer leaves. -/
  | leaveLast {k : Core α} {a : Answer α} (hk : k.pending = 1) :
    Move call (.leaving a) k (.more (.gone a)) { k with pending := Word.pred k.pending }
  /-- The last producer wakes others. -/
  | wakeLast {k : Core α} {a : Answer α} : Move call (.gone a) k (.more (.gone a)) k
  /-- The call of the last producer ends. -/
  | part {k : Core α} {a : Answer α} : Move call (.gone a) k (.done a) k
  /-- A consumer sees that the queue is closed. -/
  | seeClosed {k : Core α} (hk : k.isOpen = false) : Move call .outside k (.more .sawClosed) k
  /-- Producers are inside, and the consumer waits on. -/
  | seePending {k : Core α} (hk : k.pending ≠ 0) : Move call .sawClosed k (.more .outside) k
  /-- Producers are inside, and the consumer does not wait. -/
  | giveUp {k : Core α} (hk : k.pending ≠ 0) (hi : call ≠ .iter) :
    Move call .sawClosed k (.done (.refused .empty)) k
  /-- No producer is inside. -/
  | seeDrained {k : Core α} (hk : k.pending = 0) : Move call .sawClosed k (.more .sawDrained) k
  /-- The consumer looks for a permit once more. -/
  | lookAgain {k : Core α} : Move call .sawDrained k (.more .sawDrained) k
  /-- There is no permit, so the queue is finished. -/
  | finished {k : Core α} (hk : k.ready = 0) : Move call .sawDrained k (.done (.refused .closed)) k
  /-- A consumer takes a permit. -/
  | obtain {k : Core α} (hk : 0 < k.ready) :
    Move call .outside k (.more (.head .start)) { k with ready := k.ready - 1 }
  /-- A consumer takes a permit after all. -/
  | obtainLate {k : Core α} (hk : 0 < k.ready) :
    Move call .sawDrained k (.more (.head .start)) { k with ready := k.ready - 1 }
  /-- A step on the index of the head. -/
  | claimHead {k : Core α} {x y : Index.Claiming} {i : Index} {b : Bool}
    (h : x.step k.storage.capacity b k.head = (.more y, i)) :
    Move call (.head x) k (.more (.head y)) { k with head := i }
  /-- The last step on the index of the head. -/
  | gainHead {k : Core α} {x : Index.Claiming} {i : Index} {n : Nat} {b : Bool} {w : Backoff}
    (h : x.step k.storage.capacity b k.head = (.done (.ok n), i)) :
    Move call (.head x) k (.more (.taking n (.claim w))) { k with head := i }
  /-- The index of the head cannot be claimed. -/
  | faultHead {k : Core α} {x : Index.Claiming} {i : Index} {f : Fault} {b : Bool}
    (h : x.step k.storage.capacity b k.head = (.done (.error f), i)) :
    Move call (.head x) k (.done (.faulted f)) { k with head := i }
  /-- A step on the slot that an element comes out of. -/
  | take {k : Core α} {n : Nat} {t t' : Slot.Taking α} {s s' : Slot α} {b : Bool}
    (hs : k.storage.slot n = .ok s) (h : t.step b s = (.more t', s')) :
    Move call (.taking n t) k (.more (.taking n t')) { k with storage := k.storage.put n s' }
  /-- The last step on the slot that an element comes out of. -/
  | vacate {k : Core α} {v : α} {n : Nat} {t : Slot.Taking α} {s s' : Slot α} {b : Bool}
    (hs : k.storage.slot n = .ok s) (h : t.step b s = (.done v, s')) :
    Move call (.taking n t) k (.more (.taken v)) { k with storage := k.storage.put n s' }
  /-- There is no slot for the position. -/
  | faultTake {k : Core α} {n : Nat} {t : Slot.Taking α} {f : Fault}
    (hs : k.storage.slot n = .error f) : Move call (.taking n t) k (.done (.faulted f)) k
  /-- A permit is handed out for the slot. -/
  | release {k : Core α} {v : α} :
    Move call (.taken v) k (.more (.handing v)) { k with free := Word.succ k.free }
  /-- A consumer that has its element wakes others. -/
  | rouse {k : Core α} {v : α} : Move call (.handing v) k (.more (.handing v)) k
  /-- The element is handed out. -/
  | hand {k : Core α} {v : α} : Move call (.handing v) k (.done (.popped v)) k

end PermitRing.Queue
