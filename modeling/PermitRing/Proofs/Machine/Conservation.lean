import PermitRing.Proofs.Machine.Finality

/-!
# No permit is lost or made

A permit leaves a counter in one way and comes back in many: an element is published, an element is
taken out, a constructor fails or gives up, a producer with a permit finds the queue closed. A wait
that times out or is cancelled takes none. Whatever the interleaving, the permits of the two
counters and those that threads have in hand make up the capacity at every moment, and not only when
nobody is under way, so one way out that forgot its permit, or gave it twice, would show here.

The same holds of the count of producers, which goes up and down by the hand of the producers alone.

## Main definitions

* `Stage.holding` — whether a thread has a permit of a side in hand;
* `Deed.takes`, `settles`, `raises`, `enters`, `leaves` — what a deed does to the counters;
* `Machine.Conserved`, `Machine.Counted` — what is to be said of the counters at a moment of a run.

## Main results

* `Machine.Run.countP_eq` — a ledger of deeds against what threads hold;
* `Machine.Run.conserved` — conservation at every moment of every run.
-/

namespace PermitRing.Queue

variable {α : Type}

/-! ### What deeds do to the counters -/

/-- One if the thread has taken a permit of the side, and has neither handed it back nor handed out
one of the other side for it. -/
def Stage.holding : Side → Stage α → Nat
  | .produce, .permitted | .produce, .counted | .produce, .building | .produce, .tail ..
  | .produce, .writing .. | .produce, .stored | .produce, .returning _ => 1
  | .consume, .head _ | .consume, .taking .. | .consume, .taken _ => 1
  | _, _ => 0

/-- A permit of the side is taken. -/
def Stage.takes : Side → Stage α → Progress (Stage α) (Answer α) → Bool
  | .produce, .outside, .more .permitted => true
  | .consume, s, r => s.obtains r
  | _, _, _ => false

/-- A thread of the side parts with the permit that it took: it hands it back, or hands out one of
the other side. -/
def Stage.settles : Side → Stage α → Bool
  | .produce, .stored | .produce, .returning _ | .consume, .taken _ => true
  | _, _ => false

/-- There is one permit of the side more to be taken. -/
def Stage.raises : Side → Stage α → Bool
  | .produce, .returning _ | .produce, .taken _ | .consume, .stored => true
  | _, _ => false

/-- A producer puts itself on the count. -/
def Stage.enters : Stage α → Bool
  | .permitted => true
  | _ => false

/-- A producer takes itself off the count. -/
def Stage.leaves : Stage α → Progress (Stage α) (Answer α) → Bool
  | .leaving _, .done _ | .leaving _, .more (.gone _) => true
  | _, _ => false

theorem Stage.holds_eq (s : Stage α) : s.holds = s.holding .produce + s.holding .consume := by
  cases s <;> rfl

namespace Deed

/-- The deed takes a permit of the side. -/
def takes (x : Side) (d : Deed α) : Bool :=
  d.stage.takes x d.next

/-- By the deed a thread of the side parts with its permit. -/
def settles (x : Side) (d : Deed α) : Bool :=
  d.stage.settles x

/-- By the deed there is one permit of the side more. -/
def raises (x : Side) (d : Deed α) : Bool :=
  d.stage.raises x

/-- The deed puts a producer on the count. -/
def enters (d : Deed α) : Bool :=
  d.stage.enters

/-- The deed takes a producer off the count. -/
def leaves (d : Deed α) : Bool :=
  d.stage.leaves d.next

end Deed

/-! ### Moves -/

section Moves

variable {call : Call α} {s : Stage α} {k k' : Core α} {r : Progress (Stage α) (Answer α)}

/-- **A permit that is taken is held until it is settled.** -/
theorem Move.takes (h : Move call s k r k') (ha : ¬s.Aborts r) (x : Side) :
    (s.takes x r).toNat + s.holding x = (s.settles x).toNat + (Stage.after r).holding x := by
  cases h with
  | faultTail h | faultWrite h | faultHead h | faultTake h => exact absurd trivial ha
  | _ => cases x <;> rfl

/-- **A producer that is counted stays so until it leaves.** -/
theorem Move.enters (h : Move call s k r k') (ha : ¬s.Aborts r) :
    s.enters.toNat + s.counts = (s.leaves r).toNat + (Stage.after r).counts := by
  cases h with
  | faultTail h | faultWrite h | faultHead h | faultTake h => exact absurd trivial ha
  | _ => rfl

/-- **The permits of producers** change by what is taken and what comes back, and by nothing
else. -/
theorem Move.free (h : Move call s k r k') (hb : k.free + k.ready + s.holds < Word.size) :
    k'.free + (s.takes .produce r).toNat = k.free + (s.raises .produce).toNat := by
  cases h with
  | reserve hc hk =>
    show k.free - 1 + 1 = k.free + 0
    omega
  | giveBack | release =>
    simp only [Stage.holds] at hb
    show Word.succ k.free + 0 = k.free + 1
    rw [Word.succ_eq (by omega)]
  | _ => rfl

/-- **The permits of consumers** change in the same way. -/
theorem Move.ready (h : Move call s k r k') (hb : k.free + k.ready + s.holds < Word.size) :
    k'.ready + (s.takes .consume r).toNat = k.ready + (s.raises .consume).toNat := by
  have hraises : s.raises .consume = s.gives := by cases s <;> rfl
  rw [hraises]
  exact h.gives hb

end Moves

/-! ### Ledgers -/

namespace Machine

variable {q : Queue α} {programs : List (List (Call α))} {ds : List (Deed α)} {m n : Machine α}
  {d : Deed α} {disc : Discipline} {config : Config} {order : Side → Nat → Nat}

/-- **A ledger of deeds.** If in each step what comes in goes out or is what the thread then holds,
then this holds of all that came in and went out, for all threads together and for each of them. -/
theorem Run.countP_eq {income outgo : Deed α → Bool} {f : Stage α → Nat} (hf : f .outside = 0)
    (hstep : ∀ ds m d n c, Run (launch q programs) ds m → m.act? c = some (d, n) →
      (income d).toNat + f d.stage = (outgo d).toNat + f (Stage.after d.next))
    (h : Run (launch q programs) ds m) :
    ds.countP income = ds.countP outgo + m.census f ∧
      ∀ t, (deedsOf t ds).countP income = (deedsOf t ds).countP outgo + f (m.stage t) := by
  induction h with
  | refl =>
    refine ⟨?_, fun t => ?_⟩
    · rw [census_launch hf]
      rfl
    · rw [stage_launch, hf]
      rfl
  | @step ds m n d c hr hs ih =>
    obtain ⟨hall, heach⟩ := ih
    have hl := hr.leads hs
    have hdeed := hstep _ _ _ _ _ hr hs
    refine ⟨?_, fun t => ?_⟩
    · have hcensus := hl.census f
      rw [countP_concat, countP_concat]
      omega
    · by_cases ht : d.thread = t
      · subst ht
        have hbefore := heach d.thread
        rw [hl.stage] at hbefore
        rw [deedsOf_concat_self, countP_concat, countP_concat, hl.after]
        omega
      · rw [deedsOf_concat_of_ne ds ht, hl.stage_other (Ne.symm ht)]
        exact heach t

/-- **Permits taken, settled and held.** -/
theorem Run.takes_eq (hq : create disc config order = .ok q) (hp : Respects disc programs)
    (h : Run (launch q programs) ds m) (x : Side) :
    ds.countP (Deed.takes x) = ds.countP (Deed.settles x) + m.census (Stage.holding x) ∧
      ∀ t, (deedsOf t ds).countP (Deed.takes x) =
        (deedsOf t ds).countP (Deed.settles x) + (m.stage t).holding x :=
  h.countP_eq (by cases x <;> rfl) fun _ _ _ _ _ hr hs =>
    (hr.leads hs).move.takes (hr.not_aborts hq hp hs) x

/-- The permits in hand are those of producers and those of consumers. -/
theorem census_holds (m : Machine α) :
    m.census Stage.holds =
      m.census (Stage.holding .produce) + m.census (Stage.holding .consume) := by
  simp only [census, ← Finset.sum_add_distrib, Stage.holds_eq]

/-! ### Conservation -/

/-- No thread is between taking a permit and parting with it. Threads may wait for one, or be about
to answer. -/
def Unheld (m : Machine α) : Prop :=
  ∀ t x, (m.stage t).holding x = 0

/-- What is to be said of the permits of a queue with `capacity` slots at a moment of a run. -/
structure Conserved (capacity : Nat) (ds : List (Deed α)) (m : Machine α) : Prop where
  /-- Permits in the counters and permits in hand make up the capacity. -/
  permits : m.queue.free + m.queue.size + m.census (Stage.holding .produce) +
    m.census (Stage.holding .consume) = capacity
  /-- A permit is in hand if it was taken and not settled. -/
  held : ∀ x t, (deedsOf t ds).countP (Deed.takes x) =
    (deedsOf t ds).countP (Deed.settles x) + (m.stage t).holding x
  /-- No step makes a counter wrap around: each changes by what the step takes and brings. -/
  step : ∀ c d n, m.act? c = some (d, n) →
    n.queue.free + (d.takes .produce).toNat = m.queue.free + (d.raises .produce).toNat ∧
    n.queue.size + (d.takes .consume).toNat = m.queue.size + (d.raises .consume).toNat
  /-- No more slots are free than there are. -/
  free_le : m.queue.free ≤ m.queue.capacity
  /-- No more elements are ready than there are slots. -/
  size_le : m.queue.size ≤ m.queue.capacity
  /-- When no thread has a permit in hand, each slot is free or its element ready. -/
  rest : Unheld m → m.queue.size + m.queue.free = m.queue.capacity

/-- What is to be said of the count of producers at a moment of a run. -/
structure Counted (ds : List (Deed α)) (m : Machine α) : Prop where
  /-- The count is the number of the producers that are inside. -/
  pending : m.queue.pending = m.census Stage.counts
  /-- A producer is inside if it has put itself on the count and not taken itself off. -/
  inside : ∀ t, (deedsOf t ds).countP Deed.enters =
    (deedsOf t ds).countP Deed.leaves + (m.stage t).counts
  /-- No step makes the count wrap around, and nobody leaves when it is zero. -/
  step : ∀ c d n, m.act? c = some (d, n) →
    n.queue.pending + d.leaves.toNat = m.queue.pending + d.enters.toNat

theorem Run.counted (hq : create disc config order = .ok q) (hp : Respects disc programs)
    (hlen : programs.length < Word.size) (h : Run (launch q programs) ds m) : Counted ds m := by
  have henters {ds : List (Deed α)} {m n : Machine α} {d : Deed α} {c : Choice}
      (hr : Run (launch q programs) ds m) (hs : m.act? c = some (d, n)) :
      d.enters.toNat + d.stage.counts = d.leaves.toNat + (Stage.after d.next).counts :=
    (hr.leads hs).move.enters (hr.not_aborts hq hp hs)
  have hpending := h.pending_eq hq hp hlen
  refine ⟨hpending, ?_, fun c d n hs => ?_⟩
  · exact (h.countP_eq (f := Stage.counts) rfl fun _ _ _ _ _ hr hs => henters hr hs).2
  · -- the count is that of the threads, before the step and after it
    have hafter := (Run.step c h hs).pending_eq hq hp hlen
    have hcensus := (h.leads hs).census Stage.counts
    have := henters h hs
    omega

/-- **Permits and producers are conserved** at every moment of every run, whatever the threads are
in the middle of. The count of producers is a word, so for that there have to be fewer threads than
it can count. -/
theorem Run.conserved (hq : create disc config order = .ok q) (hp : Respects disc programs)
    (h : Run (launch q programs) ds m) :
    Conserved config.capacity ds m ∧ (programs.length < Word.size → Counted ds m) := by
  refine ⟨?_, fun hlen => h.counted hq hp hlen⟩
  have hcapacity := h.capacity_eq hq
  have hpermits : m.queue.free + m.queue.size + m.census (Stage.holding .produce) +
      m.census (Stage.holding .consume) = config.capacity := by
    have := h.permits_eq hq hp
    rw [census_holds] at this
    omega
  refine
    { permits := hpermits
      held := fun x => (h.takes_eq hq hp x).2
      step := fun c d n hs => ?_
      free_le := by omega
      size_le := by omega
      rest := fun hrest => ?_ }
  · have hl := h.leads hs
    have hb := hl.stage ▸ h.permits_lt hq hp d.thread
    exact ⟨hl.move.free hb, hl.move.ready hb⟩
  · have hproduce : m.census (Stage.holding .produce) = 0 := census_eq_zero fun t => hrest t _
    have hconsume : m.census (Stage.holding .consume) = 0 := census_eq_zero fun t => hrest t _
    omega

/-- Five threads on a queue of three slots: the second one's constructors fail, and the fourth one
closes the queue. -/
def medley : List (List (Call Nat)) :=
  [[.push 1 (.atMost .endless), .push 2 (.atMost .brief)],
    [.emplace .never true (.failed "no"), .emplace (.atMost .endless) false (.raised "no")],
    [.pop .never], [.close], [.push 5 .never]]

/-- Turns in which the last thread takes a permit before the queue is closed, and is counted
after. -/
def lateTurns : List Choice :=
  [0, 0, 0, 0, 0, 0, 0, 0, 0, 0, 0, 0, 2, 2, 2, 1, 1, 1, 1, 1, 1, 4, 4, 4, 3, 3, 4, 4].map
    fun t => { thread := t }

/-- In the middle of a run all permits are in hand: a consumer has one, a producer whose constructor
has failed, and one that found the queue closed. A third producer is about to leave. -/
theorem conserved_medley :
    ∃ q : Queue Nat, create .mpmc { capacity := 3 } (fun _ _ => 0) = .ok q ∧
      Respects .mpmc medley ∧ medley.length < Word.size ∧
      (trace lateTurns (launch q medley)).2.queue.isOpen = false ∧
      (trace lateTurns (launch q medley)).2.census (Stage.holding .produce) = 2 ∧
      (trace lateTurns (launch q medley)).2.census (Stage.holding .consume) = 1 ∧
      (trace lateTurns (launch q medley)).2.queue.pending = 3 ∧
      Conserved 3 (trace lateTurns (launch q medley)).1 (trace lateTurns (launch q medley)).2 ∧
      Counted (trace lateTurns (launch q medley)).1 (trace lateTurns (launch q medley)).2 := by
  have hq : create (α := Nat) .mpmc { capacity := 3 } (fun _ _ => 0) = .ok _ := rfl
  obtain ⟨hpermits, hcount⟩ := Run.conserved hq (respects_mpmc medley) (run_trace lateTurns _)
  exact ⟨_, hq, respects_mpmc medley, by decide, by decide, by decide, by decide, by decide,
    hpermits, hcount (by decide)⟩

end Machine

end PermitRing.Queue
