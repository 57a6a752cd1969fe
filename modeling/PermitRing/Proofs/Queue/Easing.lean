import PermitRing.Proofs.Parker.Rousing
import PermitRing.Proofs.Queue.Represents

/-!
# Whom an operation leaves asleep

Every operation on a queue that goes through rouses: it hands permits to the other side, or gives
its own permit back, or wakes everybody. `Queue.Passes` says this of an operation together with what
the queue stands for afterwards, so that runs can be followed by putting such steps together. A
thread that was roused and goes on does so by the same steps, or falls asleep again, which it does
only where there is no permit and waiting still makes sense.

## Main definitions

* `Queue.Sound` — who must not be asleep any more is not;
* `Queue.Passes` — an operation that goes through.

## Main results

* `Represents.publish_passes`, `abandon_passes`, `take_passes`, `close_passes`, `expire_passes` — the
  operations;
* `Represents.readmit_cases`, `resumePop_cases` — a roused thread goes on.
-/

namespace PermitRing.Queue

variable {α : Type} {x : Option Side} {q q₁ q₂ : Queue α} {f g : Fifo α}

/-! ### Queues in which nobody is forgotten -/

/-- Both parkers count their sleepers, no producer sleeps in a closed queue, and no consumer sleeps
in one that nothing will be added to. -/
structure Sound (q : Queue α) : Prop where
  produce : q.gate.produce.parker.Sound
  consume : q.gate.consume.parker.Sound
  closed : q.isOpen = false → q.gate.produce.parker.sleepers = []
  drained : q.isDrained = true → q.gate.consume.parker.sleepers = []

theorem sound_create {d : Discipline} {c : Config} {order : Side → Nat → Nat}
    (h : create d c order = .ok q) : q.Sound := by
  rw [eq_of_create h]
  exact ⟨⟨rfl, rfl, List.nodup_nil⟩, ⟨rfl, rfl, List.nodup_nil⟩, fun _ => rfl, fun _ => rfl⟩

/-- The threads that sleep on a side. -/
def sleepers (q : Queue α) (y : Side) : List Parker.Sleeper :=
  (q.gate.side y).parker.sleepers

theorem Sound.side (h : q.Sound) (y : Side) : (q.gate.side y).parker.Sound := by
  cases y with
  | produce => exact h.produce
  | consume => exact h.consume

/-- A thread sleeps on neither side after its time limit has passed, and the others do as before. -/
theorem sleepers_expire (q : Queue α) (thread : Nat) (y : Side) :
    (q.expire thread).sleepers y = (q.sleepers y).filter fun z => z.thread != thread := by
  cases y with
  | produce => exact Parker.sleepers_expire q.gate.produce.parker thread
  | consume => exact Parker.sleepers_expire q.gate.consume.parker thread

/-! ### Operations that go through -/

/-- An operation that takes a permit of the side `x`, if of any, leads from `q` to `q'`, which
stands for `g`. Nobody falls asleep by it, and either side is eased, the side `x` by one more. -/
structure Passes (x : Option Side) (q q' : Queue α) (g : Fifo α) : Prop where
  represents : q'.Represents g
  sound : q'.Sound
  eases : ∀ y, (q.gate.side y).Eases (if x = some y then 1 else 0) (q'.gate.side y)

namespace Passes

theorem refl (h : q.Represents f) (hs : q.Sound) : Passes none q q f :=
  ⟨h, hs, fun _ => Permits.Eases.refl _⟩

theorem trans (h : Passes x q q₁ f) (h' : Passes none q₁ q₂ g) : Passes x q q₂ g :=
  ⟨h'.represents, h'.sound, fun y => (h.eases y).trans (h'.eases y)⟩

/-- The permit that was taken may be left out of account. -/
theorem weaken (h : Passes x q q₁ f) : Passes none q q₁ f :=
  ⟨h.represents, h.sound, fun y => (h.eases y).mono (Nat.zero_le _)⟩

theorem sleepers_sublist (h : Passes x q q₁ f) (y : Side) :
    (q₁.sleepers y).Sublist (q.sleepers y) :=
  (h.eases y).sleepers

theorem parked_lt {y : Side} (h : Passes x q q₁ f) (hs : q.Sound)
    (hp : (q.gate.side y).parker.parked < Word.size) :
    (q₁.gate.side y).parker.parked < Word.size := by
  rw [(h.sound.side y).parked]
  rw [(hs.side y).parked] at hp
  exact Nat.lt_of_le_of_lt (h.sleepers_sublist y).length_le hp

end Passes

/-! ### A producer's stay -/

/-- Whoever leaves a closed queue last wakes the consumers. -/
theorem left_sound (hproduce : q.gate.produce.parker.Sound) (hconsume : q.gate.consume.parker.Sound)
    (hclosed : q.isOpen = false → q.gate.produce.parker.sleepers = []) (hp : 0 < q.pending) :
    q.left.Sound := by
  by_cases hl : q.pending = 1 ∧ q.isOpen = false
  · have hgate : q.left.gate = { q.gate with consume := q.gate.consume.releaseAll } := by
      simp only [left, if_pos hl]
    refine ⟨by rw [hgate]; exact hproduce, by rw [hgate]; exact hconsume.unparkAll,
      fun ho => by rw [hgate]; exact hclosed ho, fun _ => ?_⟩
    rw [hgate]
    exact Permits.sleepers_releaseAll hconsume
  · have hgate : q.left.gate = q.gate := by simp only [left, if_neg hl]
    refine ⟨by rw [hgate]; exact hproduce, by rw [hgate]; exact hconsume,
      fun ho => by rw [hgate]; exact hclosed ho, fun hd => absurd ?_ hl⟩
    simp only [isDrained, isOpen_left, pending_left, Bool.and_eq_true, Bool.not_eq_true',
      beq_iff_eq] at hd
    exact ⟨by omega, hd.1⟩

theorem eases_left (hconsume : q.gate.consume.parker.Sound) (y : Side) :
    (q.gate.side y).Eases 0 (q.left.gate.side y) := by
  cases y with
  | produce =>
    rw [Gate.side, Gate.side, produce_left]
    exact Permits.Eases.refl _
  | consume =>
    simp only [Gate.side, left]
    split
    · exact Permits.eases_releaseAll hconsume
    · exact Permits.Eases.refl _

namespace Represents

/-- A queue with a producer inside is not drained. -/
theorem not_drained (h : q.Represents f) (hr : 0 < f.running) : q.isDrained = false := by
  rw [h.isDrained, Fifo.isDrained]
  have : (f.running == 0) = false := by rw [beq_eq_false_iff_ne]; omega
  rw [this, Bool.and_false]

theorem reserved_passes (h : q.Represents f) (hs : q.Sound)
    (hr : f.items.length + f.running < f.capacity) :
    Passes (some .produce) q q.reserved f.reserve := by
  have hrep := h.reserved hr
  refine ⟨hrep, ⟨hs.produce, hs.consume, hs.closed, fun hd => ?_⟩, fun y => ?_⟩
  · rw [hrep.not_drained (Nat.succ_pos _)] at hd
    cases hd
  · cases y with
    | produce => exact Permits.eases_taken (h.produce_pos_iff.mpr hr)
    | consume => exact Permits.Eases.refl _

/-- **An element is published**, and a consumer roused for it. -/
theorem publish_passes (h : q.Represents f) (hs : q.Sound) (hr : 0 < f.running) (v : α) :
    ∃ q', q.publish v = (.ok (), q') ∧ Passes none q q' (f.unreserve.append v) := by
  obtain ⟨storage, tail, hpub, hrep⟩ := h.publish hr v
  have hcount : q.gate.consume.count + 1 < Word.size := by
    have := h.room
    have := h.capacity_lt
    rw [h.consume]
    omega
  refine ⟨_, hpub, hrep, left_sound hs.produce hs.consume.unparkOne hs.closed
    (by show 0 < q.pending; rw [h.pending]; exact hr), fun y => ?_⟩
  refine Permits.Eases.trans (n := 0) ?_ (eases_left hs.consume.unparkOne y)
  cases y with
  | produce => exact Permits.Eases.refl _
  | consume => exact Permits.eases_release hs.consume hcount

/-- **A reservation is given back**, and a producer roused for it. -/
theorem abandon_passes (h : q.Represents f) (hs : q.Sound) (hr : 0 < f.running) :
    Passes none q q.abandonProducer f.unreserve := by
  obtain ⟨habandon, hrep⟩ := h.abandonProducer hr
  have hcount : q.gate.produce.count + 1 < Word.size := by
    have := h.room
    have := h.capacity_lt
    rw [h.produce, Fifo.free]
    omega
  rw [habandon]
  refine ⟨hrep, left_sound hs.produce.unparkOne hs.consume (fun ho => ?_)
    (by show 0 < q.pending; rw [h.pending]; exact hr), fun y => ?_⟩
  · have hsub := Parker.sublist_unparkOne hs.produce.parked
    rw [hs.closed ho] at hsub
    exact List.sublist_nil.mp hsub
  · refine Permits.Eases.trans (n := 0) ?_
      (eases_left (q := q.setProduce q.gate.produce.release) hs.consume y)
    cases y with
    | produce => exact Permits.eases_release hs.produce hcount
    | consume => exact Permits.Eases.refl _

/-! ### A consumer's stay -/

/-- **An element is taken out**, and a producer roused for its room. -/
theorem take_passes {v : α} {vs : List α} (h : q.Represents f) (hs : q.Sound)
    (hi : f.items = v :: vs) :
    ∃ q', (q.setConsume q.gate.consume.taken).take = (.ok v, q') ∧
      Passes (some .consume) q q' { f with items := vs } := by
  obtain ⟨storage, head, htake, hrep⟩ := h.take hi
  have hcount : q.gate.produce.count + 1 < Word.size := by
    have hroom := h.room
    have := h.capacity_lt
    rw [hi, List.length_cons] at hroom
    rw [h.produce, Fifo.free, hi, List.length_cons]
    omega
  refine ⟨_, htake, hrep, ⟨hs.produce.unparkOne, hs.consume, fun ho => ?_, hs.drained⟩, fun y => ?_⟩
  · have hsub := Parker.sublist_unparkOne hs.produce.parked
    rw [hs.closed ho] at hsub
    exact List.sublist_nil.mp hsub
  · cases y with
    | produce => exact Permits.eases_release hs.produce hcount
    | consume =>
      refine Permits.eases_taken (h.consume_pos_iff.mpr ?_)
      rw [hi]
      exact List.cons_ne_nil _ _

/-! ### Whole calls -/

theorem pushAfter_passes (h : q.Represents f) (hs : q.Sound)
    (hr : f.items.length + f.running < f.capacity) (v : α) :
    ∃ q', pushAfter v (some (.ok ()), q.reserved) = (some .accepted, q') ∧
      Passes (some .produce) q q' (f.append v) := by
  have hres := h.reserved_passes hs hr
  obtain ⟨q', hpub, hpass⟩ := hres.represents.publish_passes hres.sound (Nat.succ_pos _) v
  exact ⟨q', by simp only [pushAfter, hpub], hres.trans hpass⟩

theorem popAfter_passes {v : α} {vs : List α} (h : q.Represents f) (hs : q.Sound)
    (hi : f.items = v :: vs) :
    ∃ q', popAfter (some (.ok ()), q.setConsume q.gate.consume.taken) = (some (.popped v), q') ∧
      Passes (some .consume) q q' { f with items := vs } := by
  obtain ⟨q', htake, hpass⟩ := h.take_passes hs hi
  exact ⟨q', by simp only [popAfter, htake], hpass⟩

/-- Popping without waiting takes the elements that are there, the oldest first. -/
theorem popMany_passes (n : Nat) : ∀ {q : Queue α} {f : Fifo α} (_ : q.Represents f) (_ : q.Sound)
    (_ : q.gate.consume.parker.parked < Word.size),
    ∃ q', q.popMany n = (f.items.take n, q') ∧
      Passes none q q' { f with items := f.items.drop n } := by
  induction n with
  | zero => exact fun h hs _ => ⟨_, rfl, Passes.refl h hs⟩
  | succ n ih =>
    intro q f h hs hp
    rw [popMany, h.pop hp]
    cases hi : f.items with
    | nil =>
      -- nothing is there, and a pop that does not wait is turned down
      rw [if_neg (by simp)]
      have hpass : Passes none q q { f with items := [] } := by
        rw [← hi]
        exact Passes.refl h hs
      cases hd : f.isDrained with
      | true => exact ⟨q, by simp [Fifo.refusal?, hd], hpass⟩
      | false => exact ⟨q, by simp [Fifo.refusal?, hd], hpass⟩
    | cons v vs =>
      obtain ⟨q₁, hpop, hpass⟩ := h.popAfter_passes hs hi
      have hp₁ : (q₁.gate.side .consume).parker.parked < Word.size :=
        hpass.parked_lt (y := .consume) hs hp
      obtain ⟨q₂, hmany, hpass₂⟩ := ih hpass.represents hpass.sound hp₁
      rw [if_pos (List.cons_ne_nil _ _), hpop]
      exact ⟨q₂, by simp only [hmany, List.take_succ_cons], hpass.weaken.trans hpass₂⟩

/-- **The queue is closed**, and everybody roused. -/
theorem close_passes (h : q.Represents f) (hs : q.Sound) (hc : f.isClosed = false) :
    ∃ q', q.close = (.ok (), q') ∧ Passes none q q' { f with isClosed := true } := by
  obtain ⟨hclose, hrep⟩ := h.close hc
  refine ⟨_, hclose, hrep, ⟨hs.produce.unparkAll, hs.consume.unparkAll, fun _ => ?_, fun _ => ?_⟩,
    fun y => ?_⟩
  · exact Parker.sleepers_unparkAll hs.produce
  · exact Parker.sleepers_unparkAll hs.consume
  · cases y with
    | produce => exact Permits.eases_releaseAll hs.produce
    | consume => exact Permits.eases_releaseAll hs.consume

/-- **The time limit of a thread passes**, and nobody else is roused. -/
theorem expire_passes (h : q.Represents f) (hs : q.Sound) (thread : Nat) :
    Passes none q (q.expire thread) f := by
  have hrep : (q.expire thread).Represents f :=
    Represents.setConsume (h.setProduce (p := q.gate.produce.expire thread) rfl) rfl
  refine ⟨hrep, ⟨hs.produce.expire thread, hs.consume.expire thread, fun ho => ?_, fun hd => ?_⟩,
    fun y => ?_⟩
  · have hsub := (Permits.eases_expire q.gate.produce thread).sleepers
    rw [hs.closed ho] at hsub
    exact List.sublist_nil.mp hsub
  · have hsub := (Permits.eases_expire q.gate.consume thread).sleepers
    rw [hs.drained hd] at hsub
    exact List.sublist_nil.mp hsub
  · cases y with
    | produce => exact Permits.eases_expire q.gate.produce thread
    | consume => exact Permits.eases_expire q.gate.consume thread

/-! ### Roused threads -/

/-- In a closed queue no producer sleeps, so a producer that is turned down passes as if it had
taken a permit. -/
theorem passes_of_closed (h : Passes none q q₁ g) (hc : q₁.isOpen = false) :
    Passes (some .produce) q q₁ g := by
  refine ⟨h.represents, h.sound, fun y => ?_⟩
  cases y with
  | produce => exact Permits.eases_of_nil (h.sound.closed hc)
  | consume => exact h.eases .consume

/-- The same for a consumer and a queue that nothing will be added to. -/
theorem passes_of_drained (h : Passes none q q₁ g) (hd : q₁.isDrained = true) :
    Passes (some .consume) q q₁ g := by
  refine ⟨h.represents, h.sound, fun y => ?_⟩
  cases y with
  | produce => exact h.eases .produce
  | consume => exact Permits.eases_of_nil (h.sound.drained hd)

/-- **A producer that was roused goes on.** In a closed queue it is turned down, even if it finds a
permit, which it gives back; otherwise it gets a permit if there is one. If not, it sleeps again, or
gives up when its time is up. -/
theorem readmit_cases (h : q.Represents f) (hs : q.Sound)
    (hp : q.gate.produce.parker.parked < Word.size) (thread : Nat) (limit : Patience) :
    (f.isClosed = true ∧ ∃ q', q.readmitProducer thread limit = (some (.error .closed), q') ∧
      Passes (some .produce) q q' f) ∨
    (f.isClosed = false ∧ f.items.length + f.running < f.capacity ∧
      q.readmitProducer thread limit = (some (.ok ()), q.reserved)) ∨
    (f.isClosed = false ∧ q.gate.produce.count = 0 ∧ limit.isLong = true ∧
      q.readmitProducer thread limit =
        (none, q.setProduce (q.gate.produce.withSleeper thread))) ∨
    (f.isClosed = false ∧ q.gate.produce.count = 0 ∧ limit.isLong = false ∧
      q.readmitProducer thread limit = (some (.error .timedOut), q)) := by
  have hopen : q.isOpen = !f.isClosed := h.isOpen
  rw [readmitProducer, Permits.resume_eq hp, Permits.waited]
  by_cases hr : f.items.length + f.running < f.capacity
  · rw [if_pos (h.produce_pos_iff.mpr hr)]
    cases hc : f.isClosed with
    | false =>
      refine .inr (.inl ⟨rfl, hr, ?_⟩)
      simp only [enterAfter, h.enterProducer_of_open hc hr]
    | true =>
      -- it comes inside, finds the queue closed and leaves again
      have hclosed : q.isOpen = false := by rw [hopen, hc]; rfl
      have hlt : q.pending + 1 < Word.size := by
        have := h.capacity_lt
        rw [h.pending]
        omega
      have hpass := h.reserved_passes hs hr
      refine .inl ⟨rfl, q.reserved.abandonProducer, ?_,
        hpass.trans (hpass.represents.abandon_passes hpass.sound (Nat.succ_pos _))⟩
      simp only [enterAfter, enterProducer, Queue.setProduce, hclosed, Word.succ_eq hlt,
        Bool.false_eq_true, if_false, Queue.reserved]
  · have hzero : q.gate.produce.count = 0 := by
      have := h.produce_pos_iff.not.mpr hr
      omega
    rw [if_neg (by omega)]
    cases hc : f.isClosed with
    | true =>
      have hclosed : q.isOpen = false := by rw [hopen, hc]; rfl
      have hlast : (!q.isOpen) = true := by rw [hclosed]; rfl
      refine .inl ⟨rfl, q, ?_, passes_of_closed (Passes.refl h hs) hclosed⟩
      simp only [hlast, if_true, enterAfter]
      rfl
    | false =>
      have hopen : q.isOpen = true := by rw [hopen, hc]; rfl
      cases hl : limit.isLong with
      | true => exact .inr (.inr (.inl ⟨rfl, hzero, rfl, by simp [hopen, enterAfter]⟩))
      | false =>
        refine .inr (.inr (.inr ⟨rfl, hzero, rfl, ?_⟩))
        simp only [hopen, Bool.not_true, Bool.false_eq_true, if_false, enterAfter]
        rfl

/-- **A consumer that was roused goes on.** It takes an element if there is one, and is turned down
if nothing will be added. Otherwise it sleeps again, or gives up when its time is up. -/
theorem resumePop_cases (h : q.Represents f) (hs : q.Sound)
    (hp : q.gate.consume.parker.parked < Word.size) (thread : Nat) (limit : Patience) :
    (∃ v vs q', f.items = v :: vs ∧ q.resumePop thread limit = (some (.popped v), q') ∧
      Passes (some .consume) q q' { f with items := vs }) ∨
    (q.resumePop thread limit = (some (.refused .closed), q) ∧
      Passes (some .consume) q q f) ∨
    (q.isDrained = false ∧ q.gate.consume.count = 0 ∧ limit.isLong = true ∧
      q.resumePop thread limit = (none, q.setConsume (q.gate.consume.withSleeper thread))) ∨
    (q.gate.consume.count = 0 ∧ limit.isLong = false ∧
      q.resumePop thread limit = (some (.refused .timedOut), q)) := by
  rw [resumePop, readmitConsumer, Permits.resume_eq hp, Permits.waited]
  cases hi : f.items with
  | cons v vs =>
    obtain ⟨q', hpop, hpass⟩ := h.popAfter_passes hs hi
    refine .inl ⟨v, vs, q', rfl, ?_, hpass⟩
    rw [if_pos (h.consume_pos_iff.mpr (by rw [hi]; exact List.cons_ne_nil _ _))]
    exact hpop
  | nil =>
    have hzero : q.gate.consume.count = 0 := by rw [h.consume, hi, List.length_nil]
    rw [if_neg (by omega)]
    cases hd : q.isDrained with
    | true => exact .inr (.inl ⟨rfl, passes_of_drained (Passes.refl h hs) hd⟩)
    | false =>
      cases hl : limit.isLong with
      | true => exact .inr (.inr (.inl ⟨rfl, hzero, rfl, rfl⟩))
      | false => exact .inr (.inr (.inr ⟨hzero, rfl, rfl⟩))

/-- A push that was roused goes on. -/
theorem resumePush_cases (h : q.Represents f) (hs : q.Sound)
    (hp : q.gate.produce.parker.parked < Word.size) (thread : Nat) (v : α) (limit : Patience) :
    (∃ q', q.resumePush thread v limit = (some (.rejected ⟨v, .closed⟩), q') ∧
      Passes (some .produce) q q' f) ∨
    (∃ q', q.resumePush thread v limit = (some .accepted, q') ∧
      Passes (some .produce) q q' (f.append v)) ∨
    (f.isClosed = false ∧ q.gate.produce.count = 0 ∧ limit.isLong = true ∧
      q.resumePush thread v limit =
        (none, q.setProduce (q.gate.produce.withSleeper thread))) ∨
    (q.gate.produce.count = 0 ∧ limit.isLong = false ∧
      q.resumePush thread v limit = (some (.rejected ⟨v, .timedOut⟩), q)) := by
  rw [resumePush]
  rcases h.readmit_cases hs hp thread limit with
    ⟨-, q', he, hpass⟩ | ⟨-, hr, he⟩ | ⟨hc, hzero, hl, he⟩ | ⟨-, hzero, hl, he⟩
  · exact .inl ⟨q', by rw [he]; rfl, hpass⟩
  · obtain ⟨q', hpush, hpass⟩ := h.pushAfter_passes hs hr v
    exact .inr (.inl ⟨q', by rw [he]; exact hpush, hpass⟩)
  · exact .inr (.inr (.inl ⟨hc, hzero, hl, by rw [he]; rfl⟩))
  · exact .inr (.inr (.inr ⟨hzero, hl, by rw [he]; rfl⟩))

end Represents

end PermitRing.Queue
