import PermitRing.Proofs.Queue.Represents

/-!
# A queue is its abstract queue

In a run in which no call has to sleep, what the caller sees of a queue is what it would see of the
abstract one: a list with an end to append to, a number of reservations, and a flag. Constructors
may carry out runs of their own on the queue before they build, fail or give up, to any depth.

The proof is a simulation that follows the structure of the steps. `Session.Follows` relates a
session to an abstract state between two steps; a call takes related states to related states, and a
constructor's steps are an instance of the statement about all steps, with one more reservation.

## Main results

* `Session.Follows.act` — one call;
* `Session.runSteps_agree` — steps with constructors, by induction on their structure;
* `Session.run_eq_fifo` — whole runs of a new queue.
-/

namespace PermitRing

namespace Queue

variable {α : Type}

/-- Nobody sleeps in the gate. -/
structure Calm (q : Queue α) : Prop where
  produce : q.gate.produce.parker.Calm
  consume : q.gate.consume.parker.Calm

theorem calm_create {d : Discipline} {c : Config} {order : Side → Nat → Nat} {q : Queue α}
    (h : create d c order = .ok q) : q.Calm := by
  rw [eq_of_create h]
  exact ⟨⟨rfl, rfl⟩, ⟨rfl, rfl⟩⟩

theorem Calm.left {q : Queue α} (h : q.Calm) : q.left.Calm := by
  refine ⟨by rw [produce_left]; exact h.produce, ?_⟩
  unfold Queue.left
  dsimp only
  split
  · exact h.consume.unparkAll
  · exact h.consume

namespace Session

/-! ### Sessions that follow an abstract queue -/

/-- Between two steps the session's queue stands for the abstract state, and no thread is under
way. -/
structure Follows (s : Session α) (f : Fifo α) : Prop where
  represents : s.queue.Represents f
  calm : s.queue.Calm
  waiting : s.waiting = []
  returned : s.returned = []

/-- What a step of the session comes to agrees with what the abstract step comes to: either has an
outcome exactly if no call of the other sleeps, and the outcomes are the same. -/
def Agrees : Option (Fifo.Outcome α × Fifo α) → Report α × Session α → Prop
  | none, r => r.1.sleeps = true
  | some (o, f), r => r.1.sleeps = false ∧ r.1.outcome = o ∧ r.2.Follows f

/-- The same for a list of steps. -/
def AllAgree : Option (List (Fifo.Outcome α) × Fifo α) → List (Report α) × Session α → Prop
  | none, r => Report.anySleeps r.1 = true
  | some (os, f), r =>
    Report.anySleeps r.1 = false ∧ Report.outcomes r.1 = os ∧ r.2.Follows f

namespace Follows

variable {s : Session α} {f : Fifo α}

theorem view (h : s.Follows f) : s.queue.view = f.view := by
  rw [Queue.view, Fifo.view, h.represents.state, Queue.size, h.represents.consume, Queue.free,
    h.represents.produce, blockedProducers, Permits.waiters, h.calm.produce.parked,
    blockedConsumers, Permits.waiters, h.calm.consume.parked]

theorem setQueue {q : Queue α} {g : Fifo α} (h : s.Follows f) (hr : q.Represents g)
    (hc : q.Calm) : (s.setQueue q).Follows g :=
  ⟨hr, hc, h.waiting, h.returned⟩

theorem say (h : s.Follows f) (name : String) (ms : List Log.Message) :
    (s.say name ms).Follows f :=
  ⟨h.represents, h.calm, h.waiting, h.returned⟩

/-- Nobody has to be let run. -/
theorem runnable? (h : s.Follows f) : s.runnable? = none := by
  rw [Session.runnable?, h.waiting, List.find?_nil]

/-! ### One call -/

theorem outline (h : s.Follows f) : s.queue.outline = f.outline := by
  rw [Queue.outline, Fifo.outline, h.represents.state, h.represents.discipline,
    h.represents.capacity, Queue.size, h.represents.consume, blockedProducers, Permits.waiters,
    h.calm.produce.parked, blockedConsumers, Permits.waiters, h.calm.consume.parked]

end Follows

end Session

/-- A pop that finds an element. -/
theorem pop_cons {q : Queue α} {f : Fifo α} {v : α} {vs : List α} (h : q.Represents f)
    (hc : q.Calm) (hi : f.items = v :: vs) (thread : Nat) (wait : Wait) :
    ∃ q', q.pop thread wait = (some (.popped v), q') ∧ q'.Represents { f with items := vs } ∧
      q'.Calm := by
  obtain ⟨storage, head, htake, hrep⟩ := h.take hi
  refine ⟨_, ?_, hrep, ⟨hc.produce.unparkOne, hc.consume⟩⟩
  rw [h.pop hc.consume.parked_lt, if_pos (by simp [hi]), popAfter, htake]

/-- Popping without waiting takes the elements that are there, the oldest first. -/
theorem popMany_eq {q : Queue α} {f : Fifo α} (n : Nat) (h : q.Represents f) (hc : q.Calm) :
    ∃ q', q.popMany n = (f.items.take n, q') ∧
      q'.Represents { f with items := f.items.drop n } ∧ q'.Calm := by
  induction n generalizing q f with
  | zero => exact ⟨q, by rw [popMany, List.take_zero], h, hc⟩
  | succ n ih =>
    cases hi : f.items with
    | nil =>
      have hf : { f with items := List.drop (n + 1) [] } = f := by rw [List.drop_nil, ← hi]
      refine ⟨q, ?_, hf.symm ▸ h, hc⟩
      rw [popMany, h.pop hc.consume.parked_lt, if_neg (by simp [hi])]
      cases hr : f.refusal? .never with
      | none => simp [Fifo.refusal?] at hr; split at hr <;> cases hr
      | some r => rfl
    | cons v vs =>
      obtain ⟨q₁, hpop, hrep, hcalm⟩ := pop_cons h hc hi 0 .never
      obtain ⟨q₂, hmany, hrep', hcalm'⟩ := ih hrep hcalm
      exact ⟨q₂, by simp only [popMany, hpop, hmany, List.take_succ_cons], hrep', hcalm'⟩

/-- A queue that lets a producer in, publishes its element at once. -/
theorem publish_reserved {q : Queue α} {f : Fifo α} (h : q.Represents f) (hc : q.Calm)
    (hr : f.items.length + f.running < f.capacity) (v : α) :
    ∃ q', q.reserved.publish v = (.ok (), q') ∧ q'.Represents (f.append v) ∧ q'.Calm := by
  obtain ⟨storage, tail, hpub, hrep⟩ := (h.reserved hr).publish (Nat.succ_pos _) v
  exact ⟨_, hpub, hrep, Calm.left ⟨hc.produce, hc.consume.unparkOne⟩⟩

namespace Session

variable {s : Session α} {f : Fifo α}

/-- A thread that has just fallen asleep in the queue need not be let run. -/
theorem runnable?_start (h : s.waiting = []) {q : Queue α} {task : Task α}
    (ha : (q.gate.produce.parker.isAsleep s.nextThread ||
      q.gate.consume.parker.isAsleep s.nextThread) = true) :
    ((s.setQueue q).start task).runnable? = none := by
  rw [Session.runnable?, List.find?_eq_none]
  intro w hw
  simp only [start, setQueue, h, List.nil_append, List.mem_singleton] at hw
  rw [hw, isAsleep]
  simpa only [start, setQueue, nextThread, Bool.not_eq_true, Bool.not_eq_false'] using ha

theorem isAsleep_withSleeper (thread : Nat) (p : Permits) :
    (p.withSleeper thread).parker.isAsleep thread = true := by
  simp [Permits.withSleeper, Parker.doze, Parker.isAsleep]

/-- **One call.** The abstract call has an outcome exactly if the call does not sleep, and the same
one. A call that sleeps leaves a thread that need not be let run. -/
theorem Follows.act (h : s.Follows f) (name : String) {x : Step α} (hd : x.isDirect = true)
    (hx : ∀ wait fallible inner build, x ≠ .emplace wait fallible inner build) :
    match f.call? x with
    | none => ∃ task q, s.act name x = (.asleep s.nextThread, (s.setQueue q).start task) ∧
        ((s.setQueue q).start task).runnable? = none
    | some (a, g) =>
      ∃ s', s.act name x = (a, s') ∧ s'.Follows g ∧ sleepingAnswer a = false := by
  cases x with
  | push v wait =>
    rw [Session.act, h.represents.push h.calm.produce.parked_lt, Fifo.call?]
    cases ha : f.admission? wait with
    | none =>
      refine ⟨_, _, rfl, runnable?_start h.waiting ?_⟩
      rw [Bool.or_eq_true]
      exact .inl (isAsleep_withSleeper _ _)
    | some r =>
      cases r with
      | error r => exact ⟨_, rfl, h.setQueue h.represents h.calm, rfl⟩
      | ok u =>
        obtain ⟨hopen, hr⟩ := Fifo.admission?_eq_ok ha
        obtain ⟨q, hpub, hrep, hcalm⟩ := publish_reserved h.represents h.calm hr v
        exact ⟨s.setQueue q, by simp only [pushAfter, hpub, Answer.ofPushed],
          h.setQueue hrep hcalm, rfl⟩
  | pop wait =>
    rw [Session.act, Fifo.call?]
    cases hi : f.items with
    | cons v vs =>
      obtain ⟨q, hpop, hrep, hcalm⟩ := pop_cons h.represents h.calm hi s.nextThread wait
      exact ⟨s.setQueue q, by simp only [hpop, Answer.ofPopped], h.setQueue hrep hcalm, rfl⟩
    | nil =>
      rw [h.represents.pop h.calm.consume.parked_lt, if_neg (by simp [hi])]
      cases hr : f.refusal? wait with
      | none =>
        refine ⟨_, _, rfl, runnable?_start h.waiting ?_⟩
        rw [Bool.or_eq_true]
        exact .inr (isAsleep_withSleeper _ _)
      | some r => exact ⟨_, rfl, h.setQueue h.represents h.calm, rfl⟩
  | iter most => cases hd
  | tryIter most =>
    simp only [Session.act, Fifo.call?]
    have hsize : s.queue.size = f.items.length := h.represents.consume
    cases most with
    | none =>
      obtain ⟨q, hmany, hrep, hcalm⟩ := popMany_eq f.items.length h.represents h.calm
      exact ⟨s.setQueue q, by simp only [hsize, hmany, Option.getD_none],
        h.setQueue hrep hcalm, rfl⟩
    | some n =>
      obtain ⟨q, hmany, hrep, hcalm⟩ := popMany_eq (min n f.items.length) h.represents h.calm
      have htake : f.items.take (min n f.items.length) = f.items.take n := by
        rw [List.take_eq_take_iff, Nat.min_assoc, Nat.min_self]
      have hdrop : f.items.drop (min n f.items.length) = f.items.drop n := by
        rw [List.drop_eq_drop_iff, Nat.min_assoc, Nat.min_self]
      rw [htake] at hmany
      rw [hdrop] at hrep
      exact ⟨s.setQueue q, by simp only [hsize, hmany, Option.getD_some],
        h.setQueue hrep hcalm, rfl⟩
  | emplace wait fallible inner build => exact absurd rfl (hx wait fallible inner build)
  | close =>
    have hs := h.say name s.queue.closeMessages
    rw [Session.act, Fifo.call?]
    cases hcl : f.isClosed with
    | true =>
      rw [if_pos rfl]
      refine ⟨_, ?_, hs.setQueue hs.represents hs.calm, rfl⟩
      simp only [hs.represents.close_of_closed hcl]
    | false =>
      rw [if_neg Bool.false_ne_true]
      obtain ⟨hclose, hrep⟩ := hs.represents.close hcl
      refine ⟨_, by simp only [hclose], hs.setQueue hrep ?_, rfl⟩
      exact ⟨h.calm.produce.unparkAll, h.calm.consume.unparkAll⟩
  | info => exact ⟨s, by rw [Session.act, h.represents.info], h, rfl⟩
  | outline => exact ⟨s, by rw [Session.act, h.outline], h, rfl⟩
  | elapse t =>
    have hnone : s.elapse? t = none := by
      rw [elapse?, h.waiting]
      rfl
    exact ⟨s, by rw [Session.act, hnone], h, rfl⟩

/-! ### Constructors -/

/-- **The end of a constructor.** What it built is appended, closed or not; otherwise only its
reservation is gone. -/
theorem Follows.construct (h : s.Follows f) (hr : 0 < f.running) (name : String)
    (build : Build α) :
    ∃ s', s.construct name build = ((f.complete build).1, s') ∧ s'.Follows (f.complete build).2 ∧
      sleepingAnswer (f.complete build).1 = false := by
  obtain ⟨habandon, hrep⟩ := h.represents.abandonProducer hr
  have hcalm : (s.queue.setProduce s.queue.gate.produce.release).left.Calm :=
    Calm.left ⟨h.calm.produce.unparkOne, h.calm.consume⟩
  cases build with
  | built v =>
    obtain ⟨storage, tail, hpub, hrep'⟩ := h.represents.publish hr v
    refine ⟨_, by simp only [Session.construct, hpub, Fifo.complete], h.setQueue hrep' ?_, rfl⟩
    exact Calm.left ⟨h.calm.produce, h.calm.consume.unparkOne⟩
  | failed e =>
    refine ⟨_, rfl, ?_, rfl⟩
    rw [habandon]
    exact (h.setQueue hrep hcalm).say name rollbackMessages
  | raised text =>
    refine ⟨_, rfl, ?_, rfl⟩
    rw [habandon]
    exact h.setQueue hrep hcalm

/-! ### Runs

The steps may let threads run in any way that leaves a session alone in which there is nobody to be
let run. -/

section Runs

variable {settle : Session α → List (Report α) × Session α}

/-- What a report shows when no thread was under way. -/
theorem Follows.report (h : s.Follows f) (name : String) (answer : Answer α) (ran : Bool)
    (inner asides : List (Report α)) :
    (Session.report name answer ran inner (asides, s)).1.outcome =
        .mk answer ran (Report.outcomes inner) f.view ∧
      (Session.report name answer ran inner (asides, s)).2.Follows f := by
  refine ⟨?_, h.represents, h.calm, h.waiting, rfl⟩
  rw [Session.report, Report.outcome, h.view]

theorem sleeps_report (name : String) (answer : Answer α) (ran : Bool) (inner : List (Report α))
    (r : List (Report α) × Session α) :
    (Session.report name answer ran inner r).1.sleeps =
      (sleepingAnswer answer || Report.anySleeps inner) := by
  rw [Session.report, Report.sleeps]

theorem settled_of_not_sleeping {a : Answer α} (h : sleepingAnswer a = false) (s : Session α) :
    s.settled a = (a, s) := by
  cases a <;> first | rfl | cases h

/-- A step without a constructor. -/
theorem runStep_call_agrees (hsettle : ∀ s : Session α, s.runnable? = none → settle s = idle s)
    (h : s.Follows f) (name : String) {x : Step α} (hd : x.isDirect = true)
    (hx : ∀ wait fallible inner build, x ≠ .emplace wait fallible inner build) :
    Agrees (Fifo.runStep? x f) (runStep settle name x s) := by
  have hact := h.act name hd hx
  rw [runStep_of_ne hx, Fifo.runStep?_of_ne hx]
  cases hc : f.call? x with
  | none =>
    rw [hc] at hact
    obtain ⟨task, q, ha, hrun⟩ := hact
    have hreturned : ((s.setQueue q).start task).returned = [] := h.returned
    rw [ha, hsettle _ hrun, idle, settled, hreturned, List.find?_nil]
    exact sleeps_report _ _ _ _ _
  | some r =>
    rw [hc] at hact
    obtain ⟨s', ha, hf, hs⟩ := hact
    obtain ⟨hout, hf'⟩ := hf.report name r.1 false [] []
    rw [ha, hsettle _ hf.runnable?, idle, settled_of_not_sleeping hs]
    exact ⟨by rw [sleeps_report, hs]; rfl, hout, hf'⟩

/-- The session after a producer was let in. -/
theorem Follows.reserved (h : s.Follows f) (hr : f.items.length + f.running < f.capacity) :
    (s.setQueue s.queue.reserved).Follows f.reserve :=
  h.setQueue (h.represents.reserved hr) ⟨h.calm.produce, h.calm.consume⟩

mutual

/-- **Any step.** The induction is on the structure of the step: the steps of its constructor run in
a session that follows the same state with one more reservation. -/
theorem runStep_agrees (hsettle : ∀ s : Session α, s.runnable? = none → settle s = idle s)
    (name : String) : ∀ (x : Step α) (_ : x.isDirect = true) (s : Session α) (f : Fifo α)
    (_ : s.Follows f), Agrees (Fifo.runStep? x f) (runStep settle name x s)
  | .emplace wait fallible inner build, hd, s, f, h => by
    rw [runStep, Fifo.runStep?, h.represents.admitProducer h.calm.produce.parked_lt]
    cases ha : f.admission? wait with
    | none => exact sleeps_report _ _ _ _ _
    | some r =>
      cases r with
      | error r =>
        have hs : sleepingAnswer (Answer.ofRefusal (α := α) fallible r) = false := by
          cases fallible <;> rfl
        have hf : (s.setQueue s.queue).Follows f := h.setQueue h.represents h.calm
        obtain ⟨hout, hf'⟩ := hf.report name (.ofRefusal fallible r) false [] []
        simp only [hsettle _ hf.runnable?, idle]
        exact ⟨by rw [sleeps_report, hs]; rfl, hout, hf'⟩
      | ok u =>
        obtain ⟨-, hr⟩ := Fifo.admission?_eq_ok ha
        have hinner := runSteps_agree hsettle name inner hd _ _ (h.reserved hr)
        simp only
        cases hrun : Fifo.runSteps? inner f.reserve with
        | none =>
          rw [hrun] at hinner
          have hinner : Report.anySleeps _ = true := hinner
          simp only [Option.map_none, Agrees, sleeps_report, hinner, Bool.or_true]
        | some o =>
          rw [hrun] at hinner
          obtain ⟨hsleeps, hout, hf⟩ := hinner
          have hpos : 0 < o.2.running := by
            rw [Fifo.running_of_runSteps? inner hrun]
            exact Nat.succ_pos _
          obtain ⟨s₁, hcon, hf₁, hs⟩ := hf.construct hpos name build
          obtain ⟨hout₁, hf₂⟩ := hf₁.report name (o.2.complete build).1 true
            (runSteps settle name inner (s.setQueue s.queue.reserved)).1 []
          simp only [hcon, hsettle _ hf₁.runnable?, idle]
          exact ⟨by rw [sleeps_report, hs, hsleeps]; rfl, by rw [hout₁, hout], hf₂⟩
  | .push v wait, hd, s, f, h => runStep_call_agrees hsettle h name hd (by simp)
  | .pop wait, hd, s, f, h => runStep_call_agrees hsettle h name hd (by simp)
  | .iter most, hd, s, f, h => runStep_call_agrees hsettle h name hd (by simp)
  | .tryIter most, hd, s, f, h => runStep_call_agrees hsettle h name hd (by simp)
  | .close, hd, s, f, h => runStep_call_agrees hsettle h name hd (by simp)
  | .info, hd, s, f, h => runStep_call_agrees hsettle h name hd (by simp)
  | .outline, hd, s, f, h => runStep_call_agrees hsettle h name hd (by simp)
  | .elapse t, hd, s, f, h => runStep_call_agrees hsettle h name hd (by simp)

/-- **Any steps.** -/
theorem runSteps_agree (hsettle : ∀ s : Session α, s.runnable? = none → settle s = idle s)
    (name : String) : ∀ (xs : List (Step α)) (_ : Step.allDirect xs = true) (s : Session α)
    (f : Fifo α) (_ : s.Follows f), AllAgree (Fifo.runSteps? xs f) (runSteps settle name xs s)
  | [], _, s, f, h => by
    rw [runSteps, Fifo.runSteps?]
    exact ⟨rfl, rfl, h⟩
  | x :: xs, hd, s, f, h => by
    rw [Step.allDirect, Bool.and_eq_true] at hd
    have hstep := runStep_agrees hsettle name x hd.1 s f h
    rw [runSteps, Fifo.runSteps?]
    cases hrun : Fifo.runStep? x f with
    | none =>
      rw [hrun] at hstep
      simpa [AllAgree, Report.anySleeps] using .inl hstep
    | some o =>
      rw [hrun] at hstep
      obtain ⟨hsleeps, hout, hf⟩ := hstep
      have hrest := runSteps_agree hsettle name xs hd.2 _ _ hf
      simp only [Option.bind_some]
      cases hruns : Fifo.runSteps? xs o.2 with
      | none =>
        rw [hruns] at hrest
        simpa [AllAgree, Report.anySleeps] using .inr hrest
      | some os =>
        rw [hruns] at hrest
        obtain ⟨hsleeps', hout', hf'⟩ := hrest
        refine ⟨?_, ?_, hf'⟩
        · rw [Report.anySleeps, hsleeps, hsleeps']
          rfl
        · rw [Report.outcomes, hout, hout']

end

end Runs

/-! ### Runs of a new queue -/

theorem settle_of_runnable? {s : Session α} (h : s.runnable? = none) : settle s = idle s := by
  rw [settle]
  cases s.turns with
  | zero => rfl
  | succ n => rw [settleWithin, h]

/-- A session on a new queue follows the empty abstract queue. -/
theorem follows_create {d : Discipline} {c : Config} {order : Side → Nat → Nat} {q : Queue α}
    (h : create d c order = .ok q) (level : Log.Level) :
    Follows { queue := q, level } { discipline := d, capacity := c.capacity } :=
  ⟨represents_create h, calm_create h, rfl, rfl⟩

/-- **A queue is its abstract queue.** For every configuration that passes validation and every list
of steps, the abstract run has an outcome exactly if no call of the run on the queue sleeps, and
then both show the same, step for step and inside every constructor. -/
theorem run_eq_fifo {c : Config} (hc : c.validate = .ok ()) (order : Side → Nat → Nat) :
    ∃ q : Queue α, create c.discipline c order = .ok q ∧
      ∀ (level : Log.Level) (xs : List (Step α)), Step.allDirect xs = true →
        (Fifo.runSteps? xs { discipline := c.discipline, capacity := c.capacity }).map Prod.fst =
          if Report.anySleeps (run xs { queue := q, level }).1 then none
          else some (Report.outcomes (run xs { queue := q, level }).1) := by
  obtain ⟨q, hq⟩ := exists_create hc order
  refine ⟨q, hq, fun level xs hx => ?_⟩
  have h := runSteps_agree (fun s hs => settle_of_runnable? hs) mainName xs hx _ _
    (follows_create hq level)
  cases hrun : Fifo.runSteps? xs { discipline := c.discipline, capacity := c.capacity } with
  | none =>
    rw [hrun] at h
    exact (if_pos h).symm
  | some o =>
    rw [hrun] at h
    obtain ⟨hsleeps, hout, -⟩ := h
    rw [run, hsleeps, hout]
    rfl

/-- A constructor that fills the queue, fails to push once more, runs a constructor that closes the
queue and gives up, and still gets its own element in. -/
def nestedSteps : List (Step Nat) :=
  [.push 1 (.atMost .endless),
    .emplace (.atMost .endless) true
      [.push 2 .never, .push 3 (.atMost .brief),
        .emplace .never false [.close, .info] (.raised "no"), .tryIter none, .pop .never]
      (.built 4),
    .push 5 (.atMost .endless), .pop (.atMost .endless), .pop (.atMost .endless)]

theorem run_eq_fifo_nestedSteps :
    ({ capacity := 3, discipline := .spsc } : Config).validate = .ok () ∧
      Step.allDirect nestedSteps = true ∧
      (Fifo.runSteps? nestedSteps { discipline := .spsc, capacity := 3 }).isSome = true ∧
      ∃ q : Queue Nat, create .spsc { capacity := 3, discipline := .spsc } (fun _ _ => 0) = .ok q ∧
        (Fifo.runSteps? nestedSteps { discipline := .spsc, capacity := 3 }).map Prod.fst =
          if Report.anySleeps (run nestedSteps { queue := q, level := .off }).1 then none
          else some (Report.outcomes (run nestedSteps { queue := q, level := .off }).1) := by
  obtain ⟨q, hq, h⟩ := run_eq_fifo (α := Nat) (c := { capacity := 3, discipline := .spsc }) rfl
    fun _ _ => 0
  exact ⟨rfl, rfl, rfl, q, hq, h .off nestedSteps rfl⟩

end Session

end Queue

end PermitRing
