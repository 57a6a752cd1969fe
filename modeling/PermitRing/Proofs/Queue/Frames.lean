import PermitRing.Queue.Basic
import PermitRing.Ring

/-!
# What an operation leaves alone

Letting somebody in, turning him away and giving a place back are matters of the gate and of the
count of producers. They touch neither the slots nor the indices, and they neither close a queue nor
open it again. Only `publish` touches the slots at the tail, and only `take` those at the head. None
of this depends on the state that a queue is in.

## Main definitions

* `Queue.ring` — the part of a queue that holds its elements;
* `Queue.Alike` — two queues with the same ring, both open or both closed;
* `Queue.Leaves` — the tail stays where it is, and the queue closed if it is.

## Main results

* `alike_admitProducer`, `alike_admitConsumer`, `alike_abandonProducer` and others — what
  concerns the gate and the count alone;
* `slot_of_publish`, `tail_of_publish` — which slot an element is published in, and which is next;
* `leaves_pop`, `leaves_popMany`, `leaves_close` — what whole calls leave alone.
-/

namespace PermitRing

namespace Index

/-- A claim gives out the position at which the index stands. -/
theorem eq_of_claim {capacity i : Nat} {x y : Index} (h : x.claim capacity = (.ok i, y)) :
    i = x.position := by
  unfold claim at h
  split at h
  · split at h
    · cases h
    · split at h <;> cases h
      rfl
  · split at h <;> cases h
    rfl

theorem eq_of_next {old capacity p : Nat} (h : next old capacity = .ok p) :
    p = (old + 1) % capacity := by
  unfold next at h
  split at h
  · cases h
  · split at h <;> cases h
    rfl

/-- A claim moves on by one slot, round the ring. -/
theorem position_of_claim {capacity i : Nat} {x y : Index} (h : x.claim capacity = (.ok i, y)) :
    y.position = (x.position + 1) % capacity := by
  unfold claim at h
  split at h
  · split at h
    · cases h
    · split at h <;> cases h
      exact eq_of_next ‹_›
  · split at h <;> cases h
    exact eq_of_next ‹_›

end Index

namespace Storage

variable {α : Type}

theorem capacity_onSlot {β : Type} (op : Slot α → Option (β × Slot α)) (i : Nat) (s : Storage α) :
    (s.onSlot op i).2.capacity = s.capacity := by
  rw [onSlot]
  split
  · rfl
  · split
    · exact Array.size_setIfInBounds
    · rfl

/-- After an element was moved into a slot it stands there. -/
theorem slots_of_write {s t : Storage α} {i : Nat} {v : α}
    (h : s.write i v = (.ok (), t)) : t.slots[i]? = some ⟨.full, some v⟩ := by
  rw [write, onSlot] at h
  split at h
  · cases h
  · rename_i x hx
    have hi : i < s.slots.size := (Array.getElem?_eq_some_iff.mp hx).1
    split at h
    · rename_i y hy
      obtain ⟨y', hy', he⟩ := Option.map_eq_some_iff.mp hy
      obtain ⟨-, rfl⟩ := Prod.mk.inj he
      obtain ⟨-, rfl⟩ := Prod.mk.inj h
      obtain ⟨z, hz, rfl⟩ := Option.map_eq_some_iff.mp hy'
      exact Array.getElem?_setIfInBounds_self_of_lt hi
    · cases h

end Storage

namespace Queue

variable {α : Type} {q q' q'' : Queue α}

/-- The part of the queue that holds its elements. -/
def ring (q : Queue α) : Ring α :=
  ⟨q.storage, q.tail, q.head⟩

/-- Both queues have the same slots and indices, and both are open, or both are closed. -/
structure Alike (q q' : Queue α) : Prop where
  ring : q'.ring = q.ring
  isOpen : q'.isOpen = q.isOpen

namespace Alike

theorem refl (q : Queue α) : Alike q q :=
  ⟨rfl, rfl⟩

theorem trans (h : Alike q q') (h' : Alike q' q'') : Alike q q'' :=
  ⟨h'.ring.trans h.ring, h'.isOpen.trans h.isOpen⟩

theorem storage (h : Alike q q') : q'.storage = q.storage :=
  congrArg Ring.storage h.ring

theorem tail (h : Alike q q') : q'.tail = q.tail :=
  congrArg Ring.tail h.ring

theorem head (h : Alike q q') : q'.head = q.head :=
  congrArg Ring.head h.ring

theorem capacity (h : Alike q q') : q'.capacity = q.capacity :=
  congrArg Storage.capacity h.storage

end Alike

/-! ### The gate and the count -/

theorem alike_setProduce (q : Queue α) (p : Permits) : Alike q (q.setProduce p) :=
  ⟨rfl, rfl⟩

theorem alike_setConsume (q : Queue α) (p : Permits) : Alike q (q.setConsume p) :=
  ⟨rfl, rfl⟩

theorem alike_finishProducer (q : Queue α) : Alike q q.finishProducer := by
  rw [finishProducer]
  split <;> exact ⟨rfl, rfl⟩

theorem alike_abandonProducer (q : Queue α) : Alike q q.abandonProducer :=
  (alike_setProduce q _).trans (alike_finishProducer _)

theorem alike_expire (q : Queue α) (thread : Nat) : Alike q (q.expire thread) :=
  (alike_setProduce q _).trans (alike_setConsume _ _)

theorem alike_enterProducer (q : Queue α) : Alike q q.enterProducer.2 := by
  have hcounted : Alike q { q with pending := Word.succ q.pending } := ⟨rfl, rfl⟩
  rw [enterProducer]
  dsimp only
  split
  · exact hcounted
  · exact hcounted.trans (alike_abandonProducer _)

theorem alike_enterAfter (q : Queue α) (o : Option Permits.Outcome) :
    Alike q (q.enterAfter o).2 := by
  rcases o with _ | _ | _ | _
  · exact Alike.refl q
  · exact alike_enterProducer q
  · exact Alike.refl q
  · exact Alike.refl q

theorem alike_admitProducer (q : Queue α) (thread : Nat) (wait : Wait) :
    Alike q (q.admitProducer thread wait).2 := by
  unfold admitProducer
  split
  · exact Alike.refl q
  · cases wait with
    | never =>
      dsimp only
      split
      · exact Alike.refl q
      · exact (alike_setProduce q _).trans (alike_enterAfter _ _)
    | atMost limit => exact (alike_setProduce q _).trans (alike_enterAfter _ _)

theorem alike_of_admitProducer {thread : Nat} {wait : Wait} {r : Option (Except Refusal Unit)}
    (h : q.admitProducer thread wait = (r, q')) : Alike q q' := by
  have halike := q.alike_admitProducer thread wait
  rwa [h] at halike

theorem alike_readmitProducer (q : Queue α) (thread : Nat) (limit : Patience) :
    Alike q (q.readmitProducer thread limit).2 :=
  (alike_setProduce q _).trans (alike_enterAfter _ _)

theorem alike_of_readmitProducer {thread : Nat} {limit : Patience}
    {r : Option (Except Refusal Unit)} (h : q.readmitProducer thread limit = (r, q')) :
    Alike q q' := by
  have halike := q.alike_readmitProducer thread limit
  rwa [h] at halike

theorem alike_admitConsumer (q : Queue α) (thread : Nat) (wait : Wait) :
    Alike q (q.admitConsumer thread wait).2 := by
  unfold admitConsumer
  split
  · exact alike_setConsume q _
  · cases wait with
    | never =>
      dsimp only
      split
      · exact Alike.refl q
      · exact Alike.refl q
    | atMost limit => exact alike_setConsume q _

theorem alike_readmitConsumer (q : Queue α) (thread : Nat) (limit : Patience) :
    Alike q (q.readmitConsumer thread limit).2 :=
  alike_setConsume q _

/-! ### Elements move -/

/-- From `q` to `q'` the number of slots stays, and a closed queue stays closed. -/
structure Keeps (q q' : Queue α) : Prop where
  capacity : q'.capacity = q.capacity
  closed : q.isOpen = false → q'.isOpen = false

/-- From `q` to `q'` the tail stays where it is, too. -/
structure Leaves (q q' : Queue α) : Prop extends Keeps q q' where
  tail : q'.tail = q.tail

theorem Keeps.trans (h : Keeps q q') (h' : Keeps q' q'') : Keeps q q'' :=
  ⟨h'.capacity.trans h.capacity, fun ho => h'.closed (h.closed ho)⟩

theorem Leaves.trans (h : Leaves q q') (h' : Leaves q' q'') : Leaves q q'' :=
  ⟨h.toKeeps.trans h'.toKeeps, h'.tail.trans h.tail⟩

theorem Alike.leaves (h : Alike q q') : Leaves q q' :=
  ⟨⟨h.capacity, h.isOpen.trans⟩, h.tail⟩

theorem keeps_publish (q : Queue α) (v : α) : Keeps q (q.publish v).2 := by
  rw [publish]
  split
  · exact ⟨rfl, id⟩
  · rename_i i tail hclaim
    have hcap := Storage.capacity_onSlot (fun x => (x.write? v).map fun x => ((), x)) i q.storage
    rw [← Storage.write] at hcap
    split <;> rename_i hwrite <;> rw [hwrite] at hcap
    · exact ⟨hcap, id⟩
    · refine Keeps.trans ?_ (alike_finishProducer _).leaves.toKeeps
      exact ⟨hcap, id⟩

theorem leaves_take (q : Queue α) : Leaves q q.take.2 := by
  rw [take]
  split
  · exact ⟨⟨rfl, id⟩, rfl⟩
  · rename_i i head hclaim
    have hcap := Storage.capacity_onSlot Slot.take? i q.storage
    rw [← Storage.take] at hcap
    split <;> rename_i htake <;> rw [htake] at hcap <;> exact ⟨⟨hcap, id⟩, rfl⟩

/-- An element is published in the slot at the tail. -/
theorem slot_of_publish {v : α} (h : q.publish v = (.ok (), q')) :
    q'.storage.slots[q.tail.position]? = some ⟨.full, some v⟩ := by
  rw [publish] at h
  split at h
  · cases h
  · rename_i i tail hclaim
    split at h
    · cases h
    · rename_i storage hwrite
      obtain rfl := Index.eq_of_claim hclaim
      obtain ⟨-, rfl⟩ := Prod.mk.inj h
      rw [(alike_finishProducer _).storage]
      exact Storage.slots_of_write hwrite

/-- After an element was published the tail stands at the next slot. -/
theorem tail_of_publish {v : α} (h : q.publish v = (.ok (), q')) :
    q'.tail.position = (q.tail.position + 1) % q.capacity := by
  rw [publish] at h
  split at h
  · cases h
  · rename_i i tail hclaim
    split at h
    · cases h
    · obtain ⟨-, rfl⟩ := Prod.mk.inj h
      rw [(alike_finishProducer _).tail]
      exact Index.position_of_claim hclaim

/-! ### Whole calls -/

theorem leaves_popAfter (r : Option (Except Refusal Unit) × Queue α) :
    Leaves r.2 (popAfter r).2 := by
  obtain ⟨_ | r | u, q⟩ := r
  · exact (Alike.refl q).leaves
  · exact (Alike.refl q).leaves
  · have hleaves := q.leaves_take
    rw [popAfter]
    split <;> rename_i he <;> rw [he] at hleaves <;> exact hleaves

theorem leaves_pop (q : Queue α) (thread : Nat) (wait : Wait) : Leaves q (q.pop thread wait).2 :=
  (q.alike_admitConsumer thread wait).leaves.trans (leaves_popAfter _)

theorem leaves_resumePop (q : Queue α) (thread : Nat) (limit : Patience) :
    Leaves q (q.resumePop thread limit).2 :=
  (q.alike_readmitConsumer thread limit).leaves.trans (leaves_popAfter _)

theorem leaves_popMany (n : Nat) : ∀ q : Queue α, Leaves q (q.popMany n).2 := by
  induction n with
  | zero => exact fun q => (Alike.refl q).leaves
  | succ n ih =>
    intro q
    have hleaves := q.leaves_pop 0 .never
    rw [popMany]
    split <;> rename_i he <;> rw [he] at hleaves
    · exact hleaves.trans (ih _)
    · exact hleaves

theorem leaves_close (q : Queue α) : Leaves q q.close.2 := by
  rw [close]
  split
  · exact ⟨⟨rfl, fun _ => rfl⟩, rfl⟩
  · exact (Alike.refl q).leaves

end Queue

end PermitRing
