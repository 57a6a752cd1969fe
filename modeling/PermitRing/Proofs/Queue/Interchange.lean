import PermitRing.Proofs.Queue.Accesses
import PermitRing.Proofs.Queue.Bisimulation

/-!
# Queues that differ in their discipline

A discipline decides how the two indices of a queue are claimed, and is printed here and there. As
long as claims do not overlap it decides nothing else: a claim that finds the flag of a
single-writer index clear, and either index at a position of the ring, gives the same position out
and moves on alike, and leaves the flag clear. So an operation on a queue whose discipline was
replaced is the operation on the queue itself, with the discipline replaced afterwards.

The condition on the indices is what carries this. A flag that stays set would stop a single-writer
index for good, where a shared index goes on; but no claim leaves it set that has begun at a
position of the ring. An operation that touches neither index needs no condition.

## Main definitions

* `Queue.under` — the queue with another discipline;
* `Queue.Orderly` — both indices are ready to be claimed;
* `Queue.Neutral` — an operation to which the discipline makes no difference;
* `Queue.Recast` — two queues that differ in nothing but their discipline.

## Main results

* `Ready.publish_eq`, `Ready.take_eq` — what follows a claim, whatever the kind of the index;
* `neutral_publish`, `neutral_take`, `neutral_close` and others — no part of an operation depends on
  the discipline;
* `bisimulation_under` — so queues that differ in it cannot be told apart.
-/

namespace PermitRing

namespace Queue

variable {α β : Type} {q q' : Queue α} {d : Discipline}

/-! ### Another discipline -/

/-- The queue as it would be with another discipline. -/
def under (d : Discipline) (q : Queue α) : Queue α :=
  { q with
    discipline := d
    tail := { q.tail with kind := indexKind d.manyProducers }
    head := { q.head with kind := indexKind d.manyConsumers } }

@[simp] theorem discipline_under (d : Discipline) (q : Queue α) : (q.under d).discipline = d :=
  rfl

@[simp] theorem gate_under (d : Discipline) (q : Queue α) : (q.under d).gate = q.gate :=
  rfl

@[simp] theorem isOpen_under (d : Discipline) (q : Queue α) : (q.under d).isOpen = q.isOpen :=
  rfl

@[simp] theorem view_under (d : Discipline) (q : Queue α) : (q.under d).view = q.view :=
  rfl

@[simp] theorem storage_under (d : Discipline) (q : Queue α) : (q.under d).storage = q.storage :=
  rfl

@[simp] theorem position_tail_under (d : Discipline) (q : Queue α) :
    (q.under d).tail.position = q.tail.position :=
  rfl

@[simp] theorem position_head_under (d : Discipline) (q : Queue α) :
    (q.under d).head.position = q.head.position :=
  rfl

@[simp] theorem drop_under (d : Discipline) (q : Queue α) : (q.under d).drop = q.drop :=
  rfl

/-- Both indices stand in the ring and are not being claimed. -/
structure Ready (q : Queue α) : Prop where
  capacity_lt : q.capacity < Word.size
  tail_lt : q.tail.position < q.capacity
  head_lt : q.head.position < q.capacity
  tail_idle : q.tail.busy = false
  head_idle : q.head.busy = false

/-- Both indices are ready, and they are claimed as the discipline says. -/
structure Orderly (q : Queue α) : Prop extends Ready q where
  own : q.under q.discipline = q

theorem Ready.under (h : q.Ready) (d : Discipline) : (q.under d).Ready :=
  ⟨h.capacity_lt, h.tail_lt, h.head_lt, h.tail_idle, h.head_idle⟩

/-- What concerns the gate and the count of producers leaves the indices ready. -/
theorem Ready.of_alike (h : q.Ready) (ha : Alike q q') : q'.Ready where
  capacity_lt := ha.capacity ▸ h.capacity_lt
  tail_lt := ha.tail ▸ ha.capacity ▸ h.tail_lt
  head_lt := ha.head ▸ ha.capacity ▸ h.head_lt
  tail_idle := ha.tail ▸ h.tail_idle
  head_idle := ha.head ▸ h.head_idle

theorem orderly_create {c : Config} {order : Side → Nat → Nat} (h : create d c order = .ok q) :
    q.Orderly := by
  obtain ⟨hpos, hlt⟩ := capacity_of_create h
  have hcap : (Storage.vacant c.capacity : Storage α).capacity = c.capacity := by
    simp [Storage.capacity, Storage.vacant]
  rw [eq_of_create h]
  exact ⟨⟨hcap.trans_lt hlt, hpos.trans_eq hcap.symm, hpos.trans_eq hcap.symm, rfl, rfl⟩, rfl⟩

/-- Another discipline makes another queue of the same configuration. -/
theorem create_under {c : Config} {order : Side → Nat → Nat}
    (h : create d { c with discipline := d } order = .ok q) (d' : Discipline) :
    create d' { c with discipline := d' } order = .ok (q.under d') := by
  have hv : ({ c with discipline := d' } : Config).validate = .ok () := by
    -- nothing is asked of the discipline but that it is the one of the queue
    change ({ c with discipline := d } : Config).validate = .ok ()
    cases hv : ({ c with discipline := d } : Config).validate with
    | ok u => rfl
    | error r =>
      rw [create, hv] at h
      cases h
  rw [eq_of_create h, create, hv]
  exact if_neg (not_not_intro rfl)

/-! ### Neutral operations -/

/-- The discipline makes no difference to the operation, which leaves the indices ready. -/
structure Neutral (op : Queue α → β × Queue α) : Prop where
  under : ∀ {q : Queue α}, q.Ready → ∀ d, op (q.under d) = ((op q).1, (op q).2.under d)
  ready : ∀ {q : Queue α}, q.Ready → (op q).2.Ready

/-- An operation that keeps to the gate and the count of producers. -/
theorem Neutral.of_alike {op : Queue α → β × Queue α} (ha : ∀ q, Alike q (op q).2)
    (hu : ∀ d, Commutes (Queue.under d) op) : Neutral op :=
  ⟨fun {q} _ d => hu d q, fun hq => hq.of_alike (ha _)⟩

/-- Since nothing but the discipline is lost when it is replaced, an operation keeps it. -/
theorem Neutral.orderly {op : Queue α → β × Queue α} (h : Neutral op) (hq : q.Orderly) :
    (op q).2.Orderly ∧ (op q).2.discipline = q.discipline := by
  have he : (op q).2 = (op q).2.under q.discipline := by
    have he := h.under hq.toReady q.discipline
    rw [hq.own] at he
    exact congrArg Prod.snd he
  have hd : (op q).2.discipline = q.discipline := by
    rw [he, discipline_under]
  exact ⟨⟨h.ready hq.toReady, hd ▸ he.symm⟩, hd⟩

/-! ### Admission -/

theorem behindGate_under (d : Discipline) : BehindGate (under (α := α) d) :=
  fun _ _ _ _ => rfl

theorem neutral_admitProducer (thread : Nat) (wait : Wait) :
    Neutral (admitProducer (α := α) thread wait) :=
  Neutral.of_alike (fun q => alike_admitProducer q thread wait)
    fun d => (behindGate_under d).admitProducer thread wait

theorem neutral_readmitProducer (thread : Nat) (limit : Patience) :
    Neutral (readmitProducer (α := α) thread limit) :=
  Neutral.of_alike (fun q => alike_readmitProducer q thread limit)
    fun d => (behindGate_under d).readmitProducer thread limit

theorem neutral_admitConsumer (thread : Nat) (wait : Wait) :
    Neutral (admitConsumer (α := α) thread wait) :=
  Neutral.of_alike (fun q => alike_admitConsumer q thread wait)
    fun d => (behindGate_under d).admitConsumer thread wait

theorem neutral_readmitConsumer (thread : Nat) (limit : Patience) :
    Neutral (readmitConsumer (α := α) thread limit) :=
  Neutral.of_alike (fun q => alike_readmitConsumer q thread limit)
    fun d => (behindGate_under d).readmitConsumer thread limit

theorem neutral_abandonProducer : Neutral fun q : Queue α => ((), q.abandonProducer) :=
  Neutral.of_alike alike_abandonProducer fun d q =>
    congrArg (Prod.mk ()) ((behindGate_under d).abandonProducer q)

theorem neutral_expire (thread : Nat) : Neutral fun q : Queue α => ((), q.expire thread) :=
  Neutral.of_alike (fun q => alike_expire q thread) fun d q =>
    congrArg (Prod.mk ()) ((behindGate_under d).expire thread q)

theorem neutral_close : Neutral (close (α := α)) := by
  refine ⟨fun {q} _ d => (behindGate_under d).close q, fun {q} hq => ?_⟩
  rw [close]
  cases q.isOpen with
  | true => exact ⟨hq.capacity_lt, hq.tail_lt, hq.head_lt, hq.tail_idle, hq.head_idle⟩
  | false => exact hq

/-! ### Elements -/

/-- The queue with other slots, whose tail has moved on. -/
def tailMoved (storage : Storage α) (q : Queue α) : Queue α :=
  { q with
    storage, tail := { q.tail with position := (q.tail.position + 1) % q.storage.capacity } }

/-- The queue with other slots, whose head has moved on. -/
def headMoved (storage : Storage α) (q : Queue α) : Queue α :=
  { q with
    storage, head := { q.head with position := (q.head.position + 1) % q.storage.capacity } }

theorem Ready.tailMoved {storage : Storage α} (h : q.Ready)
    (hc : storage.capacity = q.storage.capacity) : (q.tailMoved storage).Ready where
  capacity_lt := hc.trans_lt h.capacity_lt
  tail_lt := (Nat.mod_lt _ (Nat.zero_lt_of_lt h.tail_lt)).trans_eq hc.symm
  head_lt := h.head_lt.trans_eq hc.symm
  tail_idle := h.tail_idle
  head_idle := h.head_idle

theorem Ready.headMoved {storage : Storage α} (h : q.Ready)
    (hc : storage.capacity = q.storage.capacity) : (q.headMoved storage).Ready where
  capacity_lt := hc.trans_lt h.capacity_lt
  tail_lt := h.tail_lt.trans_eq hc.symm
  head_lt := (Nat.mod_lt _ (Nat.zero_lt_of_lt h.head_lt)).trans_eq hc.symm
  tail_idle := h.tail_idle
  head_idle := h.head_idle

theorem Ready.claim_tail (h : q.Ready) :
    q.tail.claim q.storage.capacity = (.ok q.tail.position,
      { q.tail with position := (q.tail.position + 1) % q.storage.capacity }) :=
  Index.claim_eq h.tail_idle h.tail_lt h.capacity_lt

theorem Ready.claim_head (h : q.Ready) :
    q.head.claim q.storage.capacity = (.ok q.head.position,
      { q.head with position := (q.head.position + 1) % q.storage.capacity }) :=
  Index.claim_eq h.head_idle h.head_lt h.capacity_lt

/-- The rest of a publication, by what the slot at the tail has let the producer do. -/
def publishAfter (q : Queue α) : Except Fault Unit × Storage α → Except Fault Unit × Queue α
  | (.error f, storage) => (.error f, q.tailMoved storage)
  | (.ok (), storage) =>
    (.ok (), ((q.tailMoved storage).setConsume q.gate.consume.release).finishProducer)

/-- The rest of a taking, by what the slot at the head has let the consumer do. -/
def takeAfter (q : Queue α) : Except Fault α × Storage α → Except Fault α × Queue α
  | (.error f, storage) => (.error f, q.headMoved storage)
  | (.ok v, storage) => (.ok v, (q.headMoved storage).setProduce q.gate.produce.release)

theorem Ready.publish_eq (h : q.Ready) (v : α) :
    q.publish v = q.publishAfter (q.storage.write q.tail.position v) := by
  rw [publish, h.claim_tail]
  dsimp only
  rcases q.storage.write q.tail.position v with ⟨_ | _, storage⟩ <;> rfl

theorem Ready.take_eq (h : q.Ready) :
    q.take = q.takeAfter (q.storage.take q.head.position) := by
  rw [Queue.take, h.claim_head]
  dsimp only
  rcases q.storage.take q.head.position with ⟨_ | _, storage⟩ <;> rfl

theorem neutral_publish (v : α) : Neutral (publish v) := by
  refine ⟨fun {q} hq d => ?_, fun {q} hq => ?_⟩
  · rw [hq.publish_eq, (hq.under d).publish_eq, storage_under, position_tail_under]
    rcases q.storage.write q.tail.position v with ⟨_ | _, storage⟩
    · rfl
    · exact congrArg (Prod.mk _)
        ((behindGate_under d).finishProducer
          ((q.tailMoved storage).setConsume q.gate.consume.release))
  · have hcap := Storage.capacity_onSlot (fun x => (x.write? v).map fun x => ((), x))
      q.tail.position q.storage
    rw [← Storage.write] at hcap
    rw [hq.publish_eq]
    rcases he : q.storage.write q.tail.position v with ⟨_ | _, storage⟩ <;> rw [he] at hcap
    · exact hq.tailMoved hcap
    · exact (hq.tailMoved hcap).of_alike
        ((alike_setConsume _ q.gate.consume.release).trans (alike_finishProducer _))

theorem neutral_take : Neutral (take (α := α)) := by
  refine ⟨fun {q} hq d => ?_, fun {q} hq => ?_⟩
  · rw [hq.take_eq, (hq.under d).take_eq, storage_under, position_head_under]
    rcases q.storage.take q.head.position with ⟨_ | _, storage⟩ <;> rfl
  · have hcap := Storage.capacity_onSlot Slot.take? q.head.position q.storage
    rw [← Storage.take] at hcap
    rw [hq.take_eq]
    rcases he : q.storage.take q.head.position with ⟨_ | _, storage⟩ <;> rw [he] at hcap
    · exact hq.headMoved hcap
    · exact (hq.headMoved hcap).of_alike (alike_setProduce _ q.gate.produce.release)

/-! ### Indistinguishable queues -/

/-- The queues are the same but for their discipline. -/
def Recast (d d' : Discipline) (q q' : Queue α) : Prop :=
  q.Orderly ∧ q.discipline = d ∧ q' = q.under d'

theorem Neutral.respects {op : Queue α → β × Queue α} (h : Neutral op) (d d' : Discipline) :
    Respects (Recast d d') op := by
  rintro q _ ⟨hq, hd, rfl⟩
  obtain ⟨horderly, hdisc⟩ := h.orderly hq
  rw [h.under hq.toReady d']
  exact ⟨rfl, horderly, hdisc.trans hd, rfl⟩

/-- **Queues that differ in their discipline cannot be told apart.** -/
theorem bisimulation_under (d d' : Discipline) : Bisimulation (Recast (α := α) d d') where
  admitProducer thread wait := (neutral_admitProducer thread wait).respects d d'
  readmitProducer thread limit := (neutral_readmitProducer thread limit).respects d d'
  admitConsumer thread wait := (neutral_admitConsumer thread wait).respects d d'
  readmitConsumer thread limit := (neutral_readmitConsumer thread limit).respects d d'
  publish v := (neutral_publish v).respects d d'
  take := neutral_take.respects d d'
  abandonProducer := neutral_abandonProducer.respects d d'
  expire thread := (neutral_expire thread).respects d d'
  close := neutral_close.respects d d'
  gate := by
    rintro q _ ⟨-, -, rfl⟩
    exact gate_under d' q
  view := by
    rintro q _ ⟨-, -, rfl⟩
    exact view_under d' q
  drop := by
    rintro q _ ⟨-, -, rfl⟩
    exact drop_under d' q

end Queue

end PermitRing
