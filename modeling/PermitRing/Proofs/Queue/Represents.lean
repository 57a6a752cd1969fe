import PermitRing.Proofs.Fifo
import PermitRing.Proofs.Permits.Waiting
import PermitRing.Proofs.Storage.Window

/-!
# What a queue stands for

Between two operations of a settled run, everything that a queue is made of follows from its
abstract state: the window of the ring holds the elements, the counters say how many there are and
how much room is left, and a producer is pending for every constructor that runs. Each operation
takes a queue that stands for one abstract state to a queue that stands for the next.

The threads that sleep in the gate are no part of this relation. The lemmas below say beside it what
an operation does to the permits of either side, so that a statement about sleepers can go on from
there.

## Main definitions

* `Queue.Represents` — a queue stands for an abstract state;
* `Queue.reserved`, `Queue.left` — the two halves of a producer's stay.

## Main results

* `represents_create` — a new queue stands for the empty state;
* `Represents.publish`, `abandonProducer`, `take` — the parts of the operations;
* `Represents.admitProducer`, `admitConsumer`, `close` — the operations that do not move elements.
-/

namespace PermitRing

namespace Index

/-- A claim that nobody disturbs moves on by one. -/
theorem claim_eq {capacity : Nat} {x : Index} (hb : x.busy = false) (hp : x.position < capacity)
    (hc : capacity < Word.size) :
    x.claim capacity = (.ok x.position, { x with position := (x.position + 1) % capacity }) := by
  unfold claim
  cases x.kind <;> simp [hb, next_eq hp hc]

end Index

namespace Queue

variable {α : Type}

/-- The queue `q` stands for the abstract state `f`. -/
structure Represents (q : Queue α) (f : Fifo α) : Prop where
  discipline : q.discipline = f.discipline
  capacity : q.capacity = f.capacity
  capacity_lt : f.capacity < Word.size
  room : f.items.length + f.running ≤ f.capacity
  window : q.storage.Window q.head.position f.items
  tail : q.tail.position = (q.head.position + f.items.length) % q.storage.capacity
  tail_idle : q.tail.busy = false
  head_idle : q.head.busy = false
  produce : q.gate.produce.count = f.free
  consume : q.gate.consume.count = f.items.length
  pending : q.pending = f.running
  isOpen : q.isOpen = !f.isClosed

theorem capacity_of_create {d : Discipline} {c : Config} {order : Side → Nat → Nat} {q : Queue α}
    (h : create d c order = .ok q) : 0 < c.capacity ∧ c.capacity < Word.size := by
  unfold create at h
  cases hv : c.validate with
  | error r => rw [hv] at h; cases h
  | ok u =>
    obtain ⟨hmin, hmax⟩ := c.validate_eq_ok_iff.mp hv
    exact ⟨hmin, Nat.lt_of_le_of_lt hmax (by decide)⟩

theorem eq_of_create {d : Discipline} {c : Config} {order : Side → Nat → Nat} {q : Queue α}
    (h : create d c order = .ok q) :
    q = { discipline := d, storage := .vacant c.capacity
          tail := { kind := indexKind d.manyProducers }
          head := { kind := indexKind d.manyConsumers }
          gate := .start c.capacity order, isOpen := true, pending := 0
          spinLimit := c.spinLimit, debugLogging := c.debugLogging } := by
  unfold create at h
  cases hv : c.validate with
  | error r => rw [hv] at h; cases h
  | ok u =>
    rw [hv] at h
    dsimp only at h
    split at h
    · cases h
    · exact (Except.ok.inj h).symm

/-- A configuration that passes validation makes a queue of its discipline. -/
theorem exists_create {c : Config} (h : c.validate = .ok ()) (order : Side → Nat → Nat) :
    ∃ q : Queue α, create c.discipline c order = .ok q := by
  simp only [create, h, ne_eq, not_true, if_false]
  exact ⟨_, rfl⟩

/-- A new queue stands for the empty state. -/
theorem represents_create {d : Discipline} {c : Config} {order : Side → Nat → Nat} {q : Queue α}
    (h : create d c order = .ok q) :
    Represents q { discipline := d, capacity := c.capacity } := by
  obtain ⟨hpos, hlt⟩ := capacity_of_create h
  rw [eq_of_create h]
  have hcap : (Storage.vacant c.capacity : Storage α).capacity = c.capacity := by
    simp [Storage.capacity, Storage.vacant]
  exact
    { discipline := rfl, capacity := hcap, capacity_lt := hlt, room := Nat.zero_le _
      window := Storage.window_vacant hpos
      tail := (Nat.zero_mod _).symm
      tail_idle := rfl, head_idle := rfl, produce := rfl, consume := rfl, pending := rfl
      isOpen := rfl }

/-- However it answers, a closing leaves the queue closed. -/
theorem isOpen_close (q : Queue α) : q.close.2.isOpen = false := by
  rw [close]
  split
  · rfl
  · exact Bool.eq_false_iff.mpr ‹_›

/-! ### The stay of a producer -/

/-- The queue after a producer with a permit came inside. -/
def reserved (q : Queue α) : Queue α :=
  { q.setProduce q.gate.produce.taken with pending := q.pending + 1 }

/-- The queue after a producer left. The last one to leave a closed queue wakes the consumers. -/
def left (q : Queue α) : Queue α :=
  { q with
    pending := q.pending - 1
    gate :=
      if q.pending = 1 ∧ q.isOpen = false then { q.gate with consume := q.gate.consume.releaseAll }
      else q.gate }

theorem finishProducer_eq {q : Queue α} (h : 0 < q.pending) : q.finishProducer = q.left := by
  unfold finishProducer left
  by_cases hl : q.pending = 1 ∧ q.isOpen = false
  · simp [hl, setConsume, Word.pred_eq]
  · rw [if_neg hl]
    have : (q.pending == 1 && !q.isOpen) = false := by
      cases ho : q.isOpen <;> simp_all
    simp [this, Word.pred_eq h]

@[simp] theorem storage_left (q : Queue α) : q.left.storage = q.storage := rfl
@[simp] theorem tail_left (q : Queue α) : q.left.tail = q.tail := rfl
@[simp] theorem head_left (q : Queue α) : q.left.head = q.head := rfl
@[simp] theorem isOpen_left (q : Queue α) : q.left.isOpen = q.isOpen := rfl
@[simp] theorem pending_left (q : Queue α) : q.left.pending = q.pending - 1 := rfl
@[simp] theorem discipline_left (q : Queue α) : q.left.discipline = q.discipline := rfl

@[simp] theorem produce_left (q : Queue α) : q.left.gate.produce = q.gate.produce := by
  unfold left
  dsimp only
  split <;> rfl

@[simp] theorem consume_count_left (q : Queue α) :
    q.left.gate.consume.count = q.gate.consume.count := by
  unfold left
  dsimp only
  split <;> rfl

namespace Represents

variable {q : Queue α} {f : Fifo α}

theorem storage_capacity (h : Represents q f) : q.storage.capacity = f.capacity :=
  h.capacity

theorem storage_capacity_lt (h : Represents q f) : q.storage.capacity < Word.size := by
  rw [h.storage_capacity]
  exact h.capacity_lt

/-- A constructor that runs has room. -/
theorem length_lt (h : Represents q f) (hr : 0 < f.running) :
    f.items.length < q.storage.capacity := by
  have := h.room
  have := h.storage_capacity
  omega

/-! ### Moving elements -/

/-- **An element is published.** The producer's reservation becomes an element, a consumer is woken
for it, and the producer leaves. -/
theorem publish (h : Represents q f) (hr : 0 < f.running) (v : α) :
    ∃ storage tail, q.publish v =
        (.ok (), Queue.left { q with storage, tail, gate.consume := q.gate.consume.release }) ∧
      Represents (Queue.left { q with storage, tail, gate.consume := q.gate.consume.release })
        (f.unreserve.append v) := by
  have hlen := h.length_lt hr
  have htail : q.tail.position < q.storage.capacity :=
    h.tail ▸ Nat.mod_lt _ (Nat.zero_lt_of_lt hlen)
  obtain ⟨storage, hwrite, hcap, hwindow⟩ := h.window.write hlen v
  rw [← h.tail] at hwrite
  refine ⟨storage, { q.tail with position := (q.tail.position + 1) % q.storage.capacity }, ?_, ?_⟩
  · rw [Queue.publish, Index.claim_eq h.tail_idle htail h.storage_capacity_lt]
    dsimp only
    rw [hwrite]
    dsimp only
    rw [finishProducer_eq (by show 0 < q.pending; rw [h.pending]; exact hr)]
  · have hroom := h.room
    have hconsume : Word.succ q.gate.consume.count = f.items.length + 1 := by
      rw [h.consume, Word.succ_eq]
      have := h.storage_capacity_lt
      omega
    exact
      { discipline := h.discipline
        capacity := hcap.trans h.capacity
        capacity_lt := h.capacity_lt
        room := by
          simp only [Fifo.append, Fifo.unreserve, List.length_append, List.length_singleton]
          omega
        window := hwindow
        tail := by
          simp only [tail_left, head_left, storage_left, Fifo.append, Fifo.unreserve,
            List.length_append, List.length_singleton, hcap]
          rw [h.tail, Nat.mod_add_mod, Nat.add_assoc]
        tail_idle := h.tail_idle
        head_idle := h.head_idle
        produce := by
          rw [produce_left, h.produce]
          simp only [Fifo.free, Fifo.append, Fifo.unreserve, List.length_append,
            List.length_singleton]
          omega
        consume := by
          rw [consume_count_left]
          simp only [Permits.count_release, hconsume, Fifo.append, Fifo.unreserve,
            List.length_append, List.length_singleton]
        pending := by simp only [pending_left, h.pending, Fifo.append, Fifo.unreserve]
        isOpen := h.isOpen }

/-- **A reservation is given back.** A producer is woken for it, and its owner leaves. -/
theorem abandonProducer (h : Represents q f) (hr : 0 < f.running) :
    q.abandonProducer = (q.setProduce q.gate.produce.release).left ∧
      Represents (q.setProduce q.gate.produce.release).left f.unreserve := by
  have hroom := h.room
  have hlt := h.capacity_lt
  refine ⟨finishProducer_eq (by show 0 < q.pending; rw [h.pending]; exact hr), ?_⟩
  exact
    { discipline := h.discipline
      capacity := h.capacity
      capacity_lt := h.capacity_lt
      room := by simp only [Fifo.unreserve]; omega
      window := h.window
      tail := h.tail
      tail_idle := h.tail_idle
      head_idle := h.head_idle
      produce := by
        rw [produce_left]
        simp only [setProduce, Permits.count_release, h.produce, Fifo.free, Fifo.unreserve]
        rw [Word.succ_eq (by omega)]
        omega
      consume := by rw [consume_count_left]; exact h.consume
      pending := by simp only [pending_left, Fifo.unreserve]; rw [← h.pending]; rfl
      isOpen := h.isOpen }

/-- The queue after a consumer took a permit still stores its element. -/
theorem take {v : α} {vs : List α} (h : Represents q f) (hi : f.items = v :: vs) :
    ∃ storage head, (q.setConsume q.gate.consume.taken).take =
        (.ok v, { q.setConsume q.gate.consume.taken with
          storage, head, gate.produce := q.gate.produce.release }) ∧
      Represents { q.setConsume q.gate.consume.taken with
          storage, head, gate.produce := q.gate.produce.release } { f with items := vs } := by
  have hwin := h.window
  rw [hi] at hwin
  obtain ⟨storage, htake, hcap, hwindow⟩ := hwin.take
  have hroom := h.room
  have hlt := h.capacity_lt
  rw [hi, List.length_cons] at hroom
  refine ⟨storage, { q.head with position := (q.head.position + 1) % q.storage.capacity }, ?_, ?_⟩
  · rw [Queue.take]
    simp only [setConsume]
    rw [Index.claim_eq h.head_idle h.window.first_lt h.storage_capacity_lt]
    dsimp only
    rw [htake]
  · exact
      { discipline := h.discipline
        capacity := hcap.trans h.capacity
        capacity_lt := h.capacity_lt
        room := by dsimp only; omega
        window := hwindow
        tail := by
          simp only [setConsume, hcap]
          rw [h.tail, hi, List.length_cons, Nat.mod_add_mod, Nat.add_assoc, Nat.add_comm 1]
        tail_idle := h.tail_idle
        head_idle := h.head_idle
        produce := by
          simp only [Permits.count_release, h.produce, Fifo.free, hi, List.length_cons]
          rw [Word.succ_eq (by omega)]
          omega
        consume := by
          simp only [setConsume, Permits.count_taken, h.consume, hi, List.length_cons,
            Nat.add_sub_cancel]
        pending := h.pending
        isOpen := h.isOpen }

/-! ### Other permits -/

/-- The sleepers of the producers' side are no part of what the queue stands for. -/
theorem setProduce (h : Represents q f) {p : Permits} (hp : p.count = q.gate.produce.count) :
    Represents (q.setProduce p) f :=
  { h with produce := hp.trans h.produce }

/-- The sleepers of the consumers' side are no part of what the queue stands for. -/
theorem setConsume (h : Represents q f) {p : Permits} (hp : p.count = q.gate.consume.count) :
    Represents (q.setConsume p) f :=
  { h with consume := hp.trans h.consume }

/-- A producer with a permit comes inside. -/
theorem reserved (h : Represents q f) (hr : f.items.length + f.running < f.capacity) :
    Represents q.reserved f.reserve :=
  { h with
    room := by simp only [Fifo.reserve]; omega
    produce := by
      simp only [Queue.reserved, Queue.setProduce, Permits.count_taken, h.produce, Fifo.free,
        Fifo.reserve]
      omega
    pending := by simp only [Queue.reserved, Fifo.reserve, h.pending] }

/-- A permit is free if and only if there is room. -/
theorem produce_pos_iff (h : Represents q f) :
    0 < q.gate.produce.count ↔ f.items.length + f.running < f.capacity := by
  rw [h.produce, Fifo.free]
  omega

theorem consume_pos_iff (h : Represents q f) : 0 < q.gate.consume.count ↔ f.items ≠ [] := by
  rw [h.consume, List.length_pos_iff]

theorem isClosed_iff (h : Represents q f) : f.isClosed = true ↔ q.isOpen = false := by
  rw [h.isOpen, Bool.not_eq_false']

theorem isDrained (h : Represents q f) : q.isDrained = f.isDrained := by
  rw [Queue.isDrained, h.isOpen, h.pending, Bool.not_not, Fifo.isDrained]

/-! ### Admission -/

theorem enterProducer_of_open (h : Represents q f) (hc : f.isClosed = false)
    (hr : f.items.length + f.running < f.capacity) :
    (q.setProduce q.gate.produce.taken).enterProducer = (.ok (), q.reserved) := by
  have hopen : q.isOpen = true := by rw [h.isOpen, hc]; rfl
  have hlt : q.pending + 1 < Word.size := by
    have := h.capacity_lt
    rw [h.pending]
    omega
  simp only [enterProducer, Queue.setProduce, hopen, if_true, Word.succ_eq hlt, Queue.reserved]

/-- **Admission of a producer.** It is decided by the abstract state alone. -/
theorem admitProducer (h : Represents q f) (hp : q.gate.produce.parker.parked < Word.size)
    (thread : Nat) (wait : Wait) :
    q.admitProducer thread wait =
      match f.admission? wait with
      | none => (none, q.setProduce (q.gate.produce.withSleeper thread))
      | some (.error r) => (some (.error r), q)
      | some (.ok ()) => (some (.ok ()), q.reserved) := by
  unfold Queue.admitProducer Fifo.admission?
  rw [h.isOpen]
  cases hc : f.isClosed with
  | true => simp
  | false =>
    simp only [Bool.not_false, Bool.not_true, if_false, Bool.false_eq_true]
    by_cases hr : f.items.length + f.running < f.capacity
    · have hpos := h.produce_pos_iff.mpr hr
      rw [if_pos hr]
      cases wait with
      | never => simp only [Permits.take?_eq_some hpos, enterAfter, h.enterProducer_of_open hc hr]
      | atMost limit =>
        have := Permits.acquire_eq hp thread limit false
        rw [Permits.waited, if_pos hpos, Prod.mk.injEq] at this
        simp only [this, enterAfter, h.enterProducer_of_open hc hr]
    · have hzero : q.gate.produce.count = 0 := by have := h.produce_pos_iff.not.mpr hr; omega
      rw [if_neg hr]
      cases wait with
      | never => simp only [Permits.take?_of_eq_zero hzero]
      | atMost limit =>
        have := Permits.acquire_eq hp thread limit false
        rw [Permits.waited, if_neg (by omega), Prod.mk.injEq] at this
        cases hl : limit.isLong <;> simp_all [enterAfter, Queue.setProduce]

/-- **Admission of a consumer.** It is decided by the abstract state alone. -/
theorem admitConsumer (h : Represents q f) (hp : q.gate.consume.parker.parked < Word.size)
    (thread : Nat) (wait : Wait) :
    q.admitConsumer thread wait =
      if f.items ≠ [] then (some (.ok ()), q.setConsume q.gate.consume.taken)
      else match f.refusal? wait with
      | none => (none, q.setConsume (q.gate.consume.withSleeper thread))
      | some r => (some (.error r), q) := by
  unfold Queue.admitConsumer Fifo.refusal?
  by_cases hi : f.items = []
  · have hzero : q.gate.consume.count = 0 := by rw [h.consume, hi, List.length_nil]
    rw [Permits.take?_of_eq_zero hzero, if_neg (not_not.mpr hi)]
    simp only [h.isDrained]
    cases wait with
    | never => cases hd : f.isDrained <;> simp
    | atMost limit =>
      have := Permits.acquire_eq hp thread limit f.isDrained
      rw [Permits.waited, if_neg (by omega), Prod.mk.injEq] at this
      simp only [this]
      cases hd : f.isDrained <;> cases hl : limit.isLong <;>
        simp [admittedAfter, Queue.setConsume]
  · rw [Permits.take?_eq_some (h.consume_pos_iff.mpr hi), if_pos hi]

/-! ### Whole calls -/

theorem push (h : Represents q f) (hp : q.gate.produce.parker.parked < Word.size) (thread : Nat)
    (v : α) (wait : Wait) :
    q.push thread v wait =
      match f.admission? wait with
      | none => (none, q.setProduce (q.gate.produce.withSleeper thread))
      | some (.error r) => (some (.rejected ⟨v, r⟩), q)
      | some (.ok ()) => pushAfter v (some (.ok ()), q.reserved) := by
  rw [Queue.push, h.admitProducer hp]
  split <;> rfl

theorem pop (h : Represents q f) (hp : q.gate.consume.parker.parked < Word.size) (thread : Nat)
    (wait : Wait) :
    q.pop thread wait =
      if f.items ≠ [] then popAfter (some (.ok ()), q.setConsume q.gate.consume.taken)
      else match f.refusal? wait with
      | none => (none, q.setConsume (q.gate.consume.withSleeper thread))
      | some r => (some (.refused r), q) := by
  rw [Queue.pop, h.admitConsumer hp]
  split
  · rfl
  · split <;> rfl

/-- The queue is closed, and everybody is woken. -/
theorem close (h : Represents q f) (hc : f.isClosed = false) :
    q.close = (.ok (), { q with isOpen := false, gate := q.gate.wakeAll }) ∧
      Represents { q with isOpen := false, gate := q.gate.wakeAll }
        { f with isClosed := true } := by
  have hopen : q.isOpen = true := by rw [h.isOpen, hc]; rfl
  exact ⟨if_pos hopen, { h with isOpen := rfl }⟩

theorem close_of_closed (h : Represents q f) (hc : f.isClosed = true) :
    q.close = (.error .alreadyClosed, q) := by
  have hopen : ¬q.isOpen = true := by rw [h.isOpen, hc]; exact Bool.false_ne_true
  exact if_neg hopen

/-! ### Views -/

theorem size_eq (h : Represents q f) : q.size = f.items.length :=
  h.consume

theorem state (h : Represents q f) : q.state = f.state := by
  unfold Queue.state Fifo.state Queue.size
  rw [h.isDrained, h.isOpen, h.consume]
  cases f.items <;> simp

theorem info (h : Represents q f) : q.info = f.info := by
  simp only [Queue.info, Fifo.info, h.capacity, h.discipline, isClosed, h.isOpen, Bool.not_not,
    isEmpty, isFull, Queue.size, Queue.free, h.consume, h.produce]
  cases f.items <;> rfl

end Represents

end Queue

end PermitRing
