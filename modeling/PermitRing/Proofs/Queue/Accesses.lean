import PermitRing.Proofs.Queue.Frames
import PermitRing.Proofs.Queue.Represents

/-!
# Accesses that are in order

The position that an index gives out, the phase of the slot there, and the permit that let the
thread come so far belong to three parts of a queue that never look at each other. That they agree
whenever a thread is about to claim a position is what keeps it from waiting at a slot that nobody
will change, and from every fault. A queue that stands for an abstract state is coherent in this
sense, and so is one between the taking of a permit and the access that follows.

## Main definitions

* `Queue.Access`, `Queue.Permitted` — what is done to a queue beside looking for a permit;
* `Queue.Coherent` — indices and slots agree on where the elements are;
* `Access.Safe` — what an access finds, and that it neither waits nor fails.

## Main results

* `Represents.coherent` — a queue that stands for an abstract state is coherent;
* `Represents.safe_enter`, `safe_publish`, `safe_take`, `safe_abandon` — whoever has a permit may go
  on;
* `Represents.eq_of_admitProducer` and others — what the queue is for whoever was let in.
-/

namespace PermitRing

/-- A wait that ends with a permit has taken one. -/
theorem Permits.eq_of_waited {thread : Nat} {limit : Patience} {last : Bool} {p p' : Permits}
    (h : p.waited thread limit last = (some .acquired, p')) : p' = p.taken ∧ 0 < p.count := by
  rw [waited] at h
  split at h
  · exact ⟨(Prod.mk.inj h).2.symm, ‹_›⟩
  · split at h
    · cases h
    · split at h <;> cases h

namespace Queue

variable {α : Type} {q q' : Queue α} {f : Fifo α} {v : α} {items : List α}

/-! ### Accesses -/

/-- What is about to be done to a queue, apart from looking for a permit. -/
inductive Access (α : Type)
  /-- A producer with a permit is counted as inside. -/
  | enter
  /-- A producer hands its permit back and leaves. -/
  | abandon
  /-- A producer claims the tail for its element. -/
  | publish (v : α)
  /-- A consumer with a permit claims the head. -/
  | take

/-- A producer has come by a permit, at once or at the end of a wait. -/
inductive Permitted (q : Queue α) : Queue α → Prop
  | atOnce {p : Permits} (ho : q.isOpen = true) (hp : q.gate.produce.take? = some p) :
    Permitted q (q.setProduce p)
  | waited {thread : Nat} {limit : Patience} (ho : q.isOpen = true)
    (hp : (q.gate.produce.acquire thread limit [] (!q.isOpen)).outcome = some .acquired) :
    Permitted q (q.setProduce (q.gate.produce.acquire thread limit [] (!q.isOpen)).permits)
  | roused {thread : Nat} {limit : Patience} {p : Permits}
    (hp : q.gate.produce.resume thread limit (!q.isOpen) = (some .acquired, p)) :
    Permitted q (q.setProduce p)

/-- The indices and the slots agree on where the elements are. -/
structure Coherent (q : Queue α) (items : List α) : Prop where
  head_lt : q.head.position < q.capacity
  tail_lt : q.tail.position < q.capacity
  tail_eq : q.tail.position = (q.head.position + items.length) % q.capacity
  full : ∀ i, q.storage.isFull i = .ok true ↔
    ∃ k < items.length, i = (q.head.position + k) % q.capacity
  vacant : ∀ i < q.capacity, (¬∃ k < items.length, i = (q.head.position + k) % q.capacity) →
    q.storage.slot i = .ok .vacant

/-- The access finds the slot as it needs it and goes through, so that it does not wait at the slot
and meets no fault. The permit that whoever comes in has taken was there, and no counter that is
changed comes to the end of its word. -/
def Access.Safe (q : Queue α) (items : List α) : Access α → Prop
  | .enter => q.free + 1 + items.length + q.pending = q.capacity ∧ q.pending + 1 < Word.size
  | .abandon => q.gate.produce.count + 1 < Word.size ∧ 0 < q.pending
  | .publish v => q.storage.slot q.tail.position = .ok .vacant ∧
    (∃ q', q.publish v = (.ok (), q')) ∧ q.gate.consume.count + 1 < Word.size ∧ 0 < q.pending
  | .take => ∃ v vs q', items = v :: vs ∧
    q.storage.slot q.head.position = .ok ⟨.full, some v⟩ ∧ q.take = (.ok v, q') ∧
    q.size + 1 = items.length ∧ q.gate.produce.count + 1 < Word.size

theorem Coherent.congr (h : q.Coherent items) (ha : Alike q q') : q'.Coherent items := by
  obtain ⟨discipline, storage, tail, head, gate, isOpen, pending, spinLimit, debugLogging⟩ := q'
  obtain rfl := ha.storage
  obtain rfl := ha.tail
  obtain rfl := ha.head
  exact ⟨h.head_lt, h.tail_lt, h.tail_eq, h.full, h.vacant⟩

/-- A producer that has come by a permit has taken one. -/
theorem Permitted.eq (h : q.Permitted q') (hp : q.gate.produce.parker.parked < Word.size) :
    q' = q.setProduce q.gate.produce.taken ∧ 0 < q.gate.produce.count := by
  cases h with
  | atOnce ho ht =>
    have hpos : 0 < q.gate.produce.count := by
      refine Nat.pos_of_ne_zero fun hz => ?_
      rw [Permits.take?_of_eq_zero hz] at ht
      cases ht
    rw [Permits.take?_eq_some hpos] at ht
    exact ⟨Option.some.inj ht ▸ rfl, hpos⟩
  | @waited thread limit ho hw =>
    have heq := Permits.acquire_eq hp thread limit (!q.isOpen)
    rw [hw] at heq
    obtain ⟨he, hpos⟩ := Permits.eq_of_waited heq.symm
    exact ⟨by rw [he], hpos⟩
  | roused hr =>
    rw [Permits.resume_eq hp] at hr
    obtain ⟨rfl, hpos⟩ := Permits.eq_of_waited hr
    exact ⟨rfl, hpos⟩

namespace Represents

/-- What a slot shows, by its distance from the head. -/
theorem slot_eq (h : q.Represents f) {k : Nat} (hk : k < q.capacity) :
    q.storage.slot ((q.head.position + k) % q.capacity) = .ok (Slot.holding f.items[k]?) := by
  have hslot := h.window.slot k hk
  rw [Storage.slot]
  change q.storage.slots[(q.head.position + k) % q.capacity]? = _ at hslot
  rw [hslot]

theorem coherent (h : q.Represents f) : q.Coherent f.items := by
  have hpos : 0 < q.capacity := Nat.zero_lt_of_lt h.window.first_lt
  have hlen : f.items.length ≤ q.capacity := h.window.length_le
  refine ⟨h.window.first_lt, h.tail ▸ Nat.mod_lt _ hpos, h.tail, fun i => ?_, fun i hi hn => ?_⟩
  · constructor
    · intro hfull
      rcases Nat.lt_or_ge i q.capacity with hi | hi
      · obtain ⟨k, hk, rfl⟩ := Storage.exists_add_mod h.window.first_lt hi
        refine ⟨k, ?_, rfl⟩
        by_contra hlt
        change (q.storage.slot ((q.head.position + k) % q.capacity)).map _ = _ at hfull
        rw [h.slot_eq hk, List.getElem?_eq_none (by omega)] at hfull
        cases hfull
      · have hnone : q.storage.slots[i]? = none := Array.getElem?_eq_none hi
        rw [Storage.isFull, Storage.slot, hnone] at hfull
        cases hfull
    · rintro ⟨k, hk, rfl⟩
      rw [Storage.isFull, h.slot_eq (hk.trans_le hlen), List.getElem?_eq_getElem hk]
      rfl
  · obtain ⟨k, hk, rfl⟩ := Storage.exists_add_mod h.window.first_lt hi
    have hle : f.items.length ≤ k := Nat.le_of_not_lt fun hlt => hn ⟨k, hlt, rfl⟩
    have hslot := h.slot_eq hk
    rwa [List.getElem?_eq_none hle] at hslot

/-! ### Producers -/

/-- Where there is room, one producer more can be counted. -/
theorem pending_lt (h : q.Represents f) (hr : f.items.length + f.running < f.capacity) :
    q.pending + 1 < Word.size := by
  have := h.capacity_lt
  rw [h.pending]
  omega

/-- **A producer with a permit may come in.** -/
theorem safe_enter (h : q.Represents f) (hr : f.items.length + f.running < f.capacity) :
    Access.enter.Safe (q.setProduce q.gate.produce.taken) f.items := by
  refine ⟨?_, h.pending_lt hr⟩
  show q.gate.produce.count - 1 + 1 + f.items.length + q.pending = q.capacity
  rw [h.produce, h.pending, h.capacity, Fifo.free]
  omega

/-- A producer that slept and is let in has come inside. -/
theorem eq_of_readmitProducer (h : q.Represents f)
    (hp : q.gate.produce.parker.parked < Word.size) {thread : Nat} {limit : Patience}
    (he : q.readmitProducer thread limit = (some (.ok ()), q')) :
    q' = q.reserved ∧ f.items.length + f.running < f.capacity := by
  rw [readmitProducer, Permits.resume_eq hp] at he
  rcases hw : q.gate.produce.waited thread limit (!q.isOpen) with ⟨_ | _ | _ | _, p⟩ <;>
    rw [hw] at he
  · cases he
  · obtain ⟨rfl, hpos⟩ := Permits.eq_of_waited hw
    have hroom := h.produce_pos_iff.mp hpos
    refine ⟨?_, hroom⟩
    cases hc : f.isClosed with
    | false =>
      simp only [enterAfter, h.enterProducer_of_open hc hroom] at he
      exact (Prod.mk.inj he).2.symm
    | true =>
      have hclosed : (q.setProduce q.gate.produce.taken).isOpen = false := by
        rw [(alike_setProduce q _).isOpen, h.isOpen, hc]
        rfl
      simp [enterAfter, enterProducer, hclosed] at he
  · cases he
  · cases he

theorem eq_of_admitProducer (h : q.Represents f) (hp : q.gate.produce.parker.parked < Word.size)
    {thread : Nat} {wait : Wait} (he : q.admitProducer thread wait = (some (.ok ()), q')) :
    q' = q.reserved ∧ f.items.length + f.running < f.capacity := by
  rw [h.admitProducer hp] at he
  split at he
  · cases he
  · cases he
  · exact ⟨(Prod.mk.inj he).2.symm, (Fifo.admission?_eq_ok ‹_›).2⟩

/-- **A producer that is inside may publish.** -/
theorem safe_publish (h : q.Represents f) (hr : 0 < f.running) (v : α) :
    (Access.publish v).Safe q f.items := by
  have hroom := h.room
  have hlt := h.capacity_lt
  have hlen : f.items.length < q.capacity := h.length_lt hr
  have hslot := h.slot_eq hlen
  obtain ⟨storage, tail, hpub, -⟩ := h.publish hr v
  refine ⟨?_, ⟨_, hpub⟩, ?_, ?_⟩
  · rw [h.tail]
    rwa [List.getElem?_eq_none (Nat.le_refl _)] at hslot
  · rw [h.consume]
    omega
  · rw [h.pending]
    exact hr

theorem safe_abandon (h : q.Represents f) (hr : 0 < f.running) :
    Access.abandon.Safe q f.items := by
  have hroom := h.room
  have hlt := h.capacity_lt
  refine ⟨?_, ?_⟩
  · rw [h.produce, Fifo.free]
    omega
  · rw [h.pending]
    exact hr

/-! ### Consumers -/

/-- A consumer that slept and is let in has taken a permit, and there is an element for it. -/
theorem eq_of_readmitConsumer (h : q.Represents f)
    (hp : q.gate.consume.parker.parked < Word.size) {thread : Nat} {limit : Patience}
    (he : q.readmitConsumer thread limit = (some (.ok ()), q')) :
    q' = q.setConsume q.gate.consume.taken ∧ f.items ≠ [] := by
  rw [readmitConsumer, Permits.resume_eq hp] at he
  rcases hw : q.gate.consume.waited thread limit q.isDrained with ⟨_ | _ | _ | _, p⟩ <;>
    rw [hw] at he <;> cases he
  obtain ⟨rfl, hpos⟩ := Permits.eq_of_waited hw
  exact ⟨rfl, h.consume_pos_iff.mp hpos⟩

theorem eq_of_admitConsumer (h : q.Represents f) (hp : q.gate.consume.parker.parked < Word.size)
    {thread : Nat} {wait : Wait} (he : q.admitConsumer thread wait = (some (.ok ()), q')) :
    q' = q.setConsume q.gate.consume.taken ∧ f.items ≠ [] := by
  rw [h.admitConsumer hp] at he
  split at he
  · exact ⟨(Prod.mk.inj he).2.symm, ‹_›⟩
  · split at he <;> cases he

/-- **A consumer with a permit may take.** -/
theorem safe_take (h : q.Represents f) (hi : f.items ≠ []) :
    Access.take.Safe (q.setConsume q.gate.consume.taken) f.items := by
  obtain ⟨v, vs, hv⟩ := List.exists_cons_of_ne_nil hi
  have hroom := h.room
  have hlt := h.capacity_lt
  have hslot := h.slot_eq (Nat.zero_lt_of_lt h.window.first_lt)
  have hhead : (q.head.position + 0) % q.capacity = q.head.position :=
    Nat.mod_eq_of_lt h.window.first_lt
  rw [hhead, hv] at hslot
  obtain ⟨storage, head, htake, -⟩ := h.take hv
  rw [hv, List.length_cons] at hroom
  refine ⟨v, vs, _, hv, hslot, htake, ?_, ?_⟩
  · show q.gate.consume.count - 1 + 1 = f.items.length
    rw [h.consume, hv, List.length_cons, Nat.add_sub_cancel]
  · show q.gate.produce.count + 1 < Word.size
    rw [h.produce, Fifo.free, hv, List.length_cons]
    omega

end Represents

/-! ### What the admission of a producer or a consumer leads to -/

/-- Where whoever is let in may publish, a push moves nothing or publishes. -/
theorem pushAfter_cases {r : Option (Except Refusal Unit) × Queue α}
    (hr : ∀ q, r = (some (.ok ()), q) → ∃ q', q.publish v = (.ok (), q')) :
    pushAfter v r = (none, r.2) ∨ (∃ e, pushAfter v r = (some (.rejected ⟨v, e⟩), r.2)) ∨
      ∃ q q', r = (some (.ok ()), q) ∧ q.publish v = (.ok (), q') ∧
        pushAfter v r = (some .accepted, q') := by
  obtain ⟨_ | e | u, q⟩ := r
  · exact .inl rfl
  · exact .inr (.inl ⟨e, rfl⟩)
  · obtain ⟨q', hq⟩ := hr q rfl
    exact .inr (.inr ⟨q, q', rfl, hq, by simp only [pushAfter, hq]⟩)

/-- Where whoever is let in may take, a pop moves nothing or takes. -/
theorem popAfter_cases {r : Option (Except Refusal Unit) × Queue α}
    (hr : ∀ q, r = (some (.ok ()), q) → ∃ v q', q.take = (.ok v, q')) :
    popAfter r = (none, r.2) ∨ (∃ e, popAfter r = (some (.refused e), r.2)) ∨
      ∃ q v q', r = (some (.ok ()), q) ∧ q.take = (.ok v, q') ∧
        popAfter r = (some (.popped v), q') := by
  obtain ⟨_ | e | u, q⟩ := r
  · exact .inl rfl
  · exact .inr (.inl ⟨e, rfl⟩)
  · obtain ⟨v, q', hq⟩ := hr q rfl
    exact .inr (.inr ⟨q, v, q', rfl, hq, by simp only [popAfter, hq]⟩)

end Queue

end PermitRing
