import PermitRing.Proofs.Machine.Stage
import PermitRing.Proofs.Permits.Waiting

/-!
# Every step is a move

A point that a call can stand at leads by a step to such a point, or to an answer, and what the step
does to the stage and to the core is a move. The steps that look for a permit, wait for one or wake
others are part of several operations, so what they come to is said first. No later proof has to
look at a step again.

## Main definitions

* `Point.Apt` — a point that a call can stand at;
* `Moves` — a step leads one move further, and to such a point.

## Main results

* `stepTaking_cases`, `stepWaking_cases`, `Awaiting.step_cases` — the parts of several operations;
* `Point.moves_of_step` — every step is a move.
-/

namespace PermitRing.Queue

variable {α : Type}

/-! ### Points that a call can stand at -/

/-- A thread that is about to take a permit has seen one. -/
def Sighted : Permits.Taking → Prop
  | .load => True
  | .swap n => 0 < n

/-- A waiting thread that is about to take a permit has seen one. -/
def Awaiting.Apt : Awaiting → Prop
  | .fast p | .look _ p | .lastLook p => Sighted p
  | _ => True

/-- A producer that is about to take a permit has seen one. -/
def Producing.Apt : Producing α → Prop
  | .look p => Sighted p
  | .wait a => a.Apt
  | _ => True

/-- A consumer that is about to take a permit has seen one, and an iteration waits. -/
def Consuming.Apt (call : Call α) : Consuming α → Prop
  | .look p | .lastLook p => Sighted p
  | .askOpen | .askPending => call ≠ .iter
  | .wait a => a.Apt
  | _ => True

/-- The call can stand at the point. -/
def Point.Apt (call : Call α) : Point α → Prop
  | .producing p => call.isProducing = true ∧ p.Apt
  | .consuming p => call.isConsuming = true ∧ p.Apt call
  | .closing _ | .observing _ => call.isProducing = false ∧ call.isConsuming = false

theorem Call.apt_first (call : Call α) : call.first.Apt call := by
  cases call <;> simp [first, Point.Apt, Producing.Apt, Consuming.Apt, Sighted, isProducing,
    isConsuming]

/-! ### Steps on the permits -/

/-- What a step of taking a permit comes to. -/
theorem stepTaking_cases {π ρ : Type} (x : Side) (c : Choice) {p : Permits.Taking} (hp : Sighted p)
    (q : Queue α) (here : Permits.Taking → π) (next : Bool → Progress π ρ) :
    (∃ n, Sighted (.swap n) ∧ stepTaking x c p q here next = (.more (here (.swap n)), q)) ∨
      0 < (q.permits x).count ∧
        stepTaking x c p q here next = (next true, q.setPermits x (q.permits x).taken) ∨
      (q.permits x).count = 0 ∧ stepTaking x c p q here next = (next false, q) := by
  have hq : q.setPermits x (q.permits x) = q := by cases x <;> rfl
  have hseeing : (∃ n, Sighted (.swap n) ∧
      Permits.Taking.seeing (q.permits x).count = .more (.swap n)) ∨
      (q.permits x).count = 0 ∧ Permits.Taking.seeing (q.permits x).count = .done false := by
    rcases Nat.eq_zero_or_pos (q.permits x).count with h0 | hpos
    · exact .inr ⟨h0, if_pos h0⟩
    · exact .inl ⟨_, hpos, if_neg (Nat.ne_of_gt hpos)⟩
  cases p with
  | load =>
    rcases hseeing with ⟨n, hn, hs⟩ | ⟨h0, hs⟩
    · exact .inl ⟨n, hn, by simp only [stepTaking, Permits.Taking.step, hs, hq]⟩
    · exact .inr (.inr ⟨h0, by simp only [stepTaking, Permits.Taking.step, hs, hq]⟩)
  | swap seen =>
    by_cases hc : (q.permits x).count = seen ∧ c.spurious = false
    · have hpos : 0 < (q.permits x).count := by rw [hc.1]; exact hp
      refine .inr (.inl ⟨hpos, ?_⟩)
      simp only [stepTaking, Permits.Taking.step, if_pos hc, Permits.taken, Word.pred_eq hpos]
    · rcases hseeing with ⟨n, hn, hs⟩ | ⟨h0, hs⟩
      · exact .inl ⟨n, hn, by simp only [stepTaking, Permits.Taking.step, if_neg hc, hs, hq]⟩
      · exact .inr (.inr ⟨h0, by simp only [stepTaking, Permits.Taking.step, if_neg hc, hs, hq]⟩)

/-- What a step of waking others comes to. -/
theorem stepWaking_cases {π ρ : Type} (x : Side) (every : Bool) (w : Permits.Waking) (q : Queue α)
    (here : Permits.Waking → π) (next : Progress π ρ) :
    ∃ k, (∃ w', stepWaking x every w q here next = (.more (here w'), q.setParker x k)) ∨
      stepWaking x every w q here next = (next, q.setParker x k) := by
  have hq : q.setPermits x (q.permits x) = q.setParker x (q.permits x).parker := rfl
  cases w with
  | bump => exact ⟨_, .inl ⟨.look, rfl⟩⟩
  | look =>
    refine ⟨(q.permits x).parker, ?_⟩
    by_cases h0 : (q.permits x).parker.parked = 0
    · exact .inr (by simp only [stepWaking, Permits.Waking.step, if_pos h0, hq])
    · exact .inl ⟨.rouse, by simp only [stepWaking, Permits.Waking.step, if_neg h0, hq]⟩
  | rouse =>
    cases every with
    | true => exact ⟨_, .inr rfl⟩
    | false =>
      cases hs : (q.permits x).parker.nextSleeper? with
      | none =>
        refine ⟨(q.permits x).parker, .inr ?_⟩
        simp only [stepWaking, Permits.Waking.step, hs, Bool.false_eq_true, if_false, hq]
      | some s => exact ⟨_, .inr (by simp only [stepWaking, Permits.Waking.step, hs,
          Bool.false_eq_true, if_false]; rfl)⟩

/-! ### Waiting -/

/-- What a step of a waiting thread comes to. -/
theorem Awaiting.step_cases {x : Side} {limit : Patience} {c : Choice} {a : Awaiting}
    {q q' : Queue α} {r : Progress Awaiting Permits.Outcome} (ha : a.Apt)
    (h : a.step x limit c q = some (r, q')) :
    (∃ a', r = .more a' ∧ a'.Apt ∧ q'.core = q.core ∧
        ∀ call, Move call (a.stage x) q.core (.more (a'.stage x)) q.core) ∨
      (r = .done .acquired ∧ 0 < (q.permits x).count ∧ q' = q.setPermits x (q.permits x).taken ∧
        (a.stage x = (.outside : Stage α) ∨ a.stage x = (.sawDrained : Stage α))) ∨
      (r = .done .cancelled ∧ q'.core = q.core ∧
        (x = .consume → a.stage x = (.sawDrained : Stage α) ∧ q.size = 0)) ∨
      (r = .done .timedOut ∧ q'.core = q.core ∧ a.stage x = (.outside : Stage α) ∧
        limit ≠ .endless) := by
  cases a with
  | fast p =>
    obtain ⟨n, hn, hs⟩ | ⟨hk, hs⟩ | ⟨-, hs⟩ := stepTaking_cases x c ha q Awaiting.fast
      fun b => if b then Progress.done Permits.Outcome.acquired else .more .prepare
    all_goals
      rw [Awaiting.step, hs] at h
      cases h
    · exact .inl ⟨_, rfl, hn, rfl, fun _ => by cases x <;> exact .look⟩
    · exact .inr (.inl ⟨rfl, hk, rfl, .inl (by cases x <;> rfl)⟩)
    · exact .inl ⟨_, rfl, trivial, rfl, fun _ => by cases x <;> exact .look⟩
  | look e p =>
    obtain ⟨n, hn, hs⟩ | ⟨hk, hs⟩ | ⟨-, hs⟩ := stepTaking_cases x c ha q (Awaiting.look e)
      fun b => if b then Progress.done Permits.Outcome.acquired else .more (.askOpen e)
    all_goals
      rw [Awaiting.step, hs] at h
      cases h
    · exact .inl ⟨_, rfl, hn, rfl, fun _ => by cases x <;> exact .look⟩
    · exact .inr (.inl ⟨rfl, hk, rfl, .inl (by cases x <;> rfl)⟩)
    · exact .inl ⟨_, rfl, trivial, rfl, fun _ => by cases x <;> exact .look⟩
  | lastLook p =>
    obtain ⟨n, hn, hs⟩ | ⟨hk, hs⟩ | ⟨h0, hs⟩ := stepTaking_cases x c ha q Awaiting.lastLook
      fun b => Progress.done (if b then Permits.Outcome.acquired else .cancelled)
    all_goals
      rw [Awaiting.step, hs] at h
      cases h
    · refine .inl ⟨_, rfl, hn, rfl, fun _ => ?_⟩
      cases x with
      | produce => exact .look
      | consume => exact .lookAgain
    · refine .inr (.inl ⟨rfl, hk, rfl, ?_⟩)
      cases x with
      | produce => exact .inl rfl
      | consume => exact .inr rfl
    · refine .inr (.inr (.inl ⟨rfl, rfl, ?_⟩))
      rintro rfl
      exact ⟨rfl, h0⟩
  | askOpen e =>
    simp only [Awaiting.step] at h
    split at h
    · cases h
      exact .inl ⟨_, rfl, trivial, rfl, fun _ => by cases x <;> exact .look⟩
    · have hk : q.core.isOpen = false := by simp_all [core]
      cases x with
      | produce =>
        cases h
        exact .inl ⟨_, rfl, trivial, rfl, fun _ => .look⟩
      | consume =>
        cases h
        exact .inl ⟨_, rfl, trivial, rfl, fun _ => .seeClosed hk⟩
  | askPending e =>
    cases h
    refine .inl ⟨_, rfl, by split <;> trivial, rfl, fun _ => ?_⟩
    by_cases hk : q.pending = 0
    · rw [if_pos hk]
      cases x with
      | produce => exact .look
      | consume => exact .seeDrained hk
    · rw [if_neg hk]
      cases x with
      | produce => exact .look
      | consume => exact .seePending hk
  | deadline e =>
    simp only [Awaiting.step] at h
    split at h
    · rename_i hlimit
      cases h
      exact .inr (.inr (.inr ⟨rfl, rfl, by cases x <;> rfl, by rintro rfl; simp at hlimit⟩))
    · cases h
      exact .inl ⟨_, rfl, trivial, rfl, fun _ => by cases x <;> exact .look⟩
  | prepare =>
    cases h
    exact .inl ⟨_, rfl, trivial, rfl, fun _ => by cases x <;> exact .look⟩
  | enlist e | leave =>
    cases h
    exact .inl ⟨_, rfl, trivial, core_setParker _ _ _, fun _ => by cases x <;> exact .look⟩
  | sleep e =>
    simp only [Awaiting.step] at h
    split at h <;> cases h
    · exact .inl ⟨_, rfl, trivial, core_setParker _ _ _, fun _ => by cases x <;> exact .look⟩
    · exact .inl ⟨_, rfl, trivial, rfl, fun _ => by cases x <;> exact .look⟩
  | asleep =>
    simp only [Awaiting.step] at h
    split at h
    · split at h <;> cases h
      exact .inl ⟨_, rfl, trivial, core_setParker _ _ _, fun _ => by cases x <;> exact .look⟩
    · cases h
      exact .inl ⟨_, rfl, trivial, rfl, fun _ => by cases x <;> exact .look⟩

/-! ### Every step is a move -/

/-- The element that a producer moves in if it gets that far. -/
def Job.value? : Job α → Option α
  | .value v => some v
  | .construction _ (.built v) => some v
  | .construction _ (.failed _) | .construction _ (.raised _) => none

theorem Job.value?_eq {call : Call α} {job : Job α} (hj : call.job? = some job) :
    call.value? = job.value? := by
  cases call with
  | push v wait => cases hj; rfl
  | emplace wait fallible build => cases hj; cases build <;> rfl
  | pop wait | iter | close | state => cases hj

theorem Job.declines_refused {call : Call α} {job : Job α} (hj : call.job? = some job)
    (r : Refusal) : call.Declines (job.refused r) := by
  cases call with
  | push v wait => cases hj; exact Call.declines_of_producing rfl rfl rfl
  | emplace wait fallible build =>
    cases hj
    cases fallible <;> exact Call.declines_of_producing rfl rfl rfl
  | pop wait | iter | close | state => cases hj

theorem Finishing.move_of_step (f : Finishing) (q : Queue α) (a : Answer α) (call : Call α) :
    Move call (Producing.finish a f).stage q.core
      (match (f.step q).1 with
        | .more f => .more (Producing.finish a f).stage
        | .done () => .done a) (f.step q).2.core := by
  cases f with
  | count =>
    by_cases hk : q.pending = 1
    · simp only [Finishing.step, if_pos hk]
      exact .leaveLast hk
    · simp only [Finishing.step, if_neg hk]
      exact .leave hk
  | check =>
    cases ho : q.isOpen with
    | true =>
      simp only [Finishing.step, ho, if_true]
      exact .part
    | false =>
      simp only [Finishing.step, ho, Bool.false_eq_true, if_false]
      exact .wakeLast
  | wake w =>
    obtain ⟨k, ⟨w', hs⟩ | hs⟩ := stepWaking_cases .consume true w q Finishing.wake (.done ())
    · simp only [Finishing.step, hs, core_setParker]
      exact .wakeLast
    · simp only [Finishing.step, hs, core_setParker]
      exact .part

/-- What a step leads to is one move away, and the call can stand there. -/
structure Moves (call : Call α) (p : Point α) (q : Queue α) (r : Progress (Point α) (Answer α))
    (q' : Queue α) : Prop where
  move : Move call p.stage q.core (stageOf r) q'.core
  apt : ∀ p', r = .more p' → p'.Apt call

theorem Moves.more {call : Call α} {p p' : Point α} {q q' : Queue α}
    (hm : Move call p.stage q.core (.more p'.stage) q'.core) (hp : p'.Apt call) :
    Moves call p q (.more p') q' :=
  ⟨hm, fun _ he => by cases he; exact hp⟩

theorem Moves.done {call : Call α} {p : Point α} {a : Answer α} {q q' : Queue α}
    (hm : Move call p.stage q.core (.done a) q'.core) : Moves call p q (.done a) q' :=
  ⟨hm, fun _ he => by cases he⟩

theorem Call.isProducing_of_job? {call : Call α} {job : Job α} (hj : call.job? = some job) :
    call.isProducing = true := by
  cases call <;> first | rfl | cases hj

section Producing

variable {call : Call α} {wait : Wait} {job : Job α} {c : Choice} {q q' : Queue α}
  {r : Progress (Producing α) (Answer α)}

/-- A producer waits for a permit. -/
theorem Producing.moves_of_wait {a : Awaiting} (hj : call.job? = some job) (hp : a.Apt)
    (h : Producing.step wait job c (.wait a) q = some (r, q')) :
    Moves call (.producing (.wait a)) q (liftProgress .producing (r, q')).1 q' := by
  have hc := Call.isProducing_of_job? hj
  simp only [Producing.step] at h
  split at h
  · cases h
  · obtain ⟨⟨r', q''⟩, hs, he⟩ := Option.map_eq_some_iff.mp h
    obtain ⟨a', rfl, ha', hcore, -⟩ | ⟨rfl, hk, rfl, -⟩ | ⟨rfl, hcore, -⟩ | ⟨rfl, hcore, -⟩ :=
      Awaiting.step_cases hp hs
    all_goals cases he
    · exact .more (by rw [hcore]; exact .look) ⟨hc, ha'⟩
    · exact .more (.reserve hc hk) ⟨hc, trivial⟩
    · exact .done (by rw [hcore]; exact .decline (Job.declines_refused hj .closed))
    · exact .done (by rw [hcore]; exact .decline (Job.declines_refused hj .timedOut))

/-- A producer that has a permit looks again whether the queue is open. -/
theorem Producing.moves_of_recheck (hj : call.job? = some job)
    (h : Producing.step wait job c .recheck q = some (r, q')) :
    Moves call (.producing .recheck) q (liftProgress .producing (r, q')).1 q' := by
  have hc := Call.isProducing_of_job? hj
  simp only [Producing.step] at h
  split at h
  · rename_i ho
    cases h
    refine .more (.turnBack ?_ (Job.declines_refused hj .closed)) ⟨hc, trivial⟩
    simpa [core] using ho
  · rename_i ho
    have hopen : q.core.isOpen = true := by simpa [core] using ho
    split at h
    · cases h
      refine .more (.pass hopen ?_) ⟨hc, trivial⟩
      cases call <;> cases hj
      rfl
    · cases h
      exact .more (.build hopen) ⟨hc, trivial⟩

/-- The constructor of a call runs. -/
theorem Producing.moves_of_construct (hj : call.job? = some job)
    (h : Producing.step wait job c .construct q = some (r, q')) :
    Moves call (.producing .construct) q (liftProgress .producing (r, q')).1 q' := by
  have hc := Call.isProducing_of_job? hj
  have declines {a : Answer α} (ha : call.accepted? a = none) (hpop : a.popped? = none) :
      call.Declines a := Call.declines_of_producing hc ha hpop
  have hvalue := Job.value?_eq hj
  cases job with
  | value v =>
    cases h
    exact .more (.built hvalue) ⟨hc, trivial⟩
  | construction fallible build =>
    cases build with
    | built v =>
      cases h
      exact .more (.built hvalue) ⟨hc, trivial⟩
    | failed e =>
      cases h
      exact .more (.unbuilt hvalue (declines rfl rfl)) ⟨hc, trivial⟩
    | raised text =>
      cases h
      exact .more (.unbuilt hvalue (declines rfl rfl)) ⟨hc, trivial⟩

theorem Producing.moves_of_step {p : Producing α} (hj : call.job? = some job) (hp : p.Apt)
    (h : p.step wait job c q = some (r, q')) :
    Moves call (.producing p) q (liftProgress .producing (r, q')).1 q' := by
  have hc := Call.isProducing_of_job? hj
  cases p with
  | checkOpen =>
    simp only [Producing.step] at h
    split at h
    · cases h
      exact .done (.decline (Job.declines_refused hj .closed))
    · split at h <;> cases h <;> exact .more .look ⟨hc, trivial⟩
  | look p =>
    obtain ⟨n, hn, hs⟩ | ⟨hk, hs⟩ | ⟨-, hs⟩ := stepTaking_cases .produce c hp q Producing.look
      fun b => if b then .more .enter else .done (job.refused .full)
    all_goals
      rw [Producing.step, hs] at h
      cases h
    · exact .more .look ⟨hc, hn⟩
    · exact .more (.reserve hc hk) ⟨hc, trivial⟩
    · exact .done (.decline (Job.declines_refused hj .full))
  | wait a => exact Producing.moves_of_wait hj hp h
  | enter =>
    cases h
    exact .more .enter ⟨hc, trivial⟩
  | recheck => exact Producing.moves_of_recheck hj h
  | construct => exact Producing.moves_of_construct hj h
  | claim v x =>
    simp only [Producing.step] at h
    split at h <;> rename_i hs <;> cases h
    · exact .more (.claimTail hs) ⟨hc, trivial⟩
    · exact .more (.gainTail hs) ⟨hc, trivial⟩
    · exact .done (.faultTail hs)
  | write v i w =>
    simp only [Producing.step] at h
    split at h
    · rename_i hs
      cases h
      exact .done (.faultWrite hs)
    · rename_i hs
      split at h <;> rename_i hw <;> cases h
      · exact .more (.write hs hw) ⟨hc, trivial⟩
      · exact .more (.store hs hw) ⟨hc, trivial⟩
  | give =>
    cases h
    exact .more .give ⟨hc, trivial⟩
  | wake w =>
    obtain ⟨k, ⟨w', hs⟩ | hs⟩ := stepWaking_cases .consume false w q Producing.wake
      (.more (.finish .done .count))
    all_goals
      rw [Producing.step, hs] at h
      cases h
      exact .more (by rw [core_setParker]; exact .wake) ⟨hc, trivial⟩
  | giveBack a =>
    cases h
    exact .more .giveBack ⟨hc, trivial⟩
  | wakeBack a w =>
    obtain ⟨k, ⟨w', hs⟩ | hs⟩ := stepWaking_cases .produce false w q (Producing.wakeBack a)
      (.more (.finish a .count))
    all_goals
      rw [Producing.step, hs] at h
      cases h
      exact .more (by rw [core_setParker]; exact .wake) ⟨hc, trivial⟩
  | finish a f =>
    have hm := Finishing.move_of_step f q a call
    simp only [Producing.step] at h
    split at h <;> rename_i hs <;> cases h <;> simp only [hs] at hm
    · exact .more hm ⟨hc, trivial⟩
    · exact .done hm

end Producing

section Consuming

variable {call : Call α} {c : Choice} {q q' : Queue α} {r : Progress (Consuming α) (Answer α)}

/-- A consumer that is turned down for another reason than the end of the queue. -/
theorem Call.declines_refused {r : Refusal} (hr : r ≠ .closed) (hi : call ≠ .iter) :
    call.Declines (.refused r) :=
  ⟨rfl, rfl, fun he => hr (by cases he.2; rfl), hi⟩

/-- A consumer looks for a permit. -/
theorem Consuming.moves_of_look {p : Permits.Taking} (hc : call.isConsuming = true)
    (hp : Sighted p) (h : Consuming.step call.wait c (.look p) q = some (r, q')) :
    Moves call (.consuming (.look p)) q (liftProgress .consuming (r, q')).1 q' := by
  -- where a consumer without a permit goes on depends on its patience only
  have key : ∀ next : Bool → Progress (Consuming α) (Answer α),
      next true = .more (.claim .start) →
      (∃ p', next false = .more p' ∧ p'.stage = .outside ∧ p'.Apt call) →
      some (stepTaking .consume c p q .look next) = some (r, q') →
      Moves call (.consuming (.look p)) q (liftProgress .consuming (r, q')).1 q' := by
    rintro next htrue ⟨p', hfalse, hstage, hapt⟩ h
    obtain ⟨n, hn, hs⟩ | ⟨hk, hs⟩ | ⟨-, hs⟩ :=
      stepTaking_cases .consume c hp q Consuming.look next
    · rw [hs] at h
      cases h
      exact .more .look ⟨hc, hn⟩
    · rw [hs, htrue] at h
      cases h
      exact .more (.obtain hk) ⟨hc, trivial⟩
    · rw [hs, hfalse] at h
      cases h
      refine .more ?_ ⟨hc, hapt⟩
      show Move call .outside q.core (.more p'.stage) q.core
      rw [hstage]
      exact .look
  refine key _ rfl ?_ h
  cases hw : call.wait with
  | never => exact ⟨_, rfl, rfl, by rintro rfl; cases hw⟩
  | atMost limit => exact ⟨_, rfl, rfl, trivial⟩

/-- A consumer waits for a permit. -/
theorem Consuming.moves_of_wait {a : Awaiting} (hc : call.isConsuming = true) (hp : a.Apt)
    (h : Consuming.step call.wait c (.wait a) q = some (r, q')) :
    Moves call (.consuming (.wait a)) q (liftProgress .consuming (r, q')).1 q' := by
  simp only [Consuming.step] at h
  split at h
  · cases h
  · rename_i limit hw
    obtain ⟨⟨r', q''⟩, hs, he⟩ := Option.map_eq_some_iff.mp h
    obtain ⟨a', rfl, ha', hcore, hm⟩ | ⟨rfl, hk, rfl, hst | hst⟩ | ⟨rfl, hcore, hst⟩ |
      ⟨rfl, hcore, hst, hlimit⟩ := Awaiting.step_cases hp hs
    all_goals cases he
    · exact .more (by rw [hcore]; exact hm call) ⟨hc, ha'⟩
    · refine .more ?_ ⟨hc, trivial⟩
      show Move call (a.stage .consume) _ _ _
      rw [hst]
      exact .obtain hk
    · refine .more ?_ ⟨hc, trivial⟩
      show Move call (a.stage .consume) _ _ _
      rw [hst]
      exact .obtainLate hk
    · refine .done ?_
      show Move call (a.stage .consume) _ _ _
      rw [hcore, (hst rfl).1]
      exact .finished (hst rfl).2
    · refine .done ?_
      show Move call (a.stage .consume) _ _ _
      rw [hcore, hst]
      refine .decline (Call.declines_refused (by simp) ?_)
      rintro rfl
      exact hlimit (Wait.atMost.inj hw).symm

theorem Consuming.moves_of_step {p : Consuming α} (hc : call.isConsuming = true) (hp : p.Apt call)
    (h : p.step call.wait c q = some (r, q')) :
    Moves call (.consuming p) q (liftProgress .consuming (r, q')).1 q' := by
  cases p with
  | look p => exact Consuming.moves_of_look hc hp h
  | askOpen =>
    cases h
    cases ho : q.isOpen with
    | true => exact .done (.decline (Call.declines_refused (by simp) hp))
    | false => exact .more (.seeClosed ho) ⟨hc, hp⟩
  | askPending =>
    cases h
    by_cases hk : q.pending = 0
    · rw [if_pos hk]
      exact .more (.seeDrained hk) ⟨hc, trivial⟩
    · rw [if_neg hk]
      exact .done (.giveUp hk hp)
  | lastLook p =>
    obtain ⟨n, hn, hs⟩ | ⟨hk, hs⟩ | ⟨h0, hs⟩ := stepTaking_cases .consume c hp q Consuming.lastLook
      fun b => if b then .more (.claim .start) else .done (Answer.refused .closed)
    all_goals
      rw [Consuming.step, hs] at h
      cases h
    · exact .more .lookAgain ⟨hc, hn⟩
    · exact .more (.obtainLate hk) ⟨hc, trivial⟩
    · exact .done (.finished h0)
  | wait a => exact Consuming.moves_of_wait hc hp h
  | claim x =>
    simp only [Consuming.step] at h
    split at h <;> rename_i hs <;> cases h
    · exact .more (.claimHead hs) ⟨hc, trivial⟩
    · exact .more (.gainHead hs) ⟨hc, trivial⟩
    · exact .done (.faultHead hs)
  | take i t =>
    simp only [Consuming.step] at h
    split at h
    · rename_i hs
      cases h
      exact .done (.faultTake hs)
    · rename_i hs
      split at h <;> rename_i ht <;> cases h
      · exact .more (.take hs ht) ⟨hc, trivial⟩
      · exact .more (.vacate hs ht) ⟨hc, trivial⟩
  | give v =>
    cases h
    exact .more .release ⟨hc, trivial⟩
  | wake v w =>
    obtain ⟨k, ⟨w', hs⟩ | hs⟩ := stepWaking_cases .produce false w q (Consuming.wake v)
      (.done (Answer.popped v))
    all_goals
      rw [Consuming.step, hs] at h
      cases h
    · exact .more (by rw [core_setParker]; exact .rouse) ⟨hc, trivial⟩
    · exact .done (by rw [core_setParker]; exact .hand)

end Consuming

theorem Closing.moves_of_step {call : Call α} {c : Choice} {p : Closing} {q q' : Queue α}
    {r : Progress (Point α) (Answer α)} (hp : Point.Apt call (.closing p))
    (h : (Point.closing p).step call c q = some (r, q')) : Moves call (.closing p) q r q' := by
  have declines (a : Answer α) (ha : a.popped? = none) : call.Declines a := by
    refine ⟨?_, ha, fun he => ?_, ?_⟩
    · rw [Call.accepted?_of_not_producing hp.1]
    · exact Bool.false_ne_true (hp.2.symm.trans he.1)
    · rintro rfl
      cases hp.2
  cases p with
  | swap =>
    cases ho : q.isOpen with
    | true =>
      simp only [Point.step, Closing.step, ho, if_true] at h
      cases h
      exact .more (.close ho) hp
    | false =>
      simp only [Point.step, Closing.step, ho, Bool.false_eq_true, if_false] at h
      cases h
      exact .done (.decline (declines _ rfl))
  | wakeConsumers w =>
    obtain ⟨k, ⟨w', hs⟩ | hs⟩ := stepWaking_cases .consume true w q Closing.wakeConsumers
      (.more (.wakeProducers .bump) : Progress Closing (Answer α))
    all_goals
      simp only [Point.step, Closing.step, hs] at h
      cases h
      exact .more (by rw [core_setParker]; exact .look) hp
  | wakeProducers w =>
    obtain ⟨k, ⟨w', hs⟩ | hs⟩ := stepWaking_cases .produce true w q Closing.wakeProducers
      (.done .done : Progress Closing (Answer α))
    all_goals
      simp only [Point.step, Closing.step, hs] at h
      cases h
    · exact .more (by rw [core_setParker]; exact .look) hp
    · exact .done (by rw [core_setParker]; exact .decline (declines _ rfl))

theorem Observing.moves_of_step {call : Call α} {c : Choice} {p : Observing} {q q' : Queue α}
    {r : Progress (Point α) (Answer α)} (hp : Point.Apt call (.observing p))
    (h : (Point.observing p).step call c q = some (r, q')) : Moves call (.observing p) q r q' := by
  have declines (s : Lifecycle) : call.Declines (.state s) := by
    refine ⟨rfl, rfl, fun he => ?_, ?_⟩
    · cases he.2
    · rintro rfl
      cases hp.2
  cases p with
  | openFirst | openAgain | pending =>
    simp only [Point.step, Observing.step] at h
    split at h <;> cases h <;> first | exact .more .look hp | exact .done (.decline (declines _))
  | count =>
    cases h
    exact .done (.decline (declines _))

/-- **Every step is a move.** -/
theorem Point.moves_of_step {call : Call α} {c : Choice} {p : Point α} {q q' : Queue α}
    {r : Progress (Point α) (Answer α)} (hp : p.Apt call) (h : p.step call c q = some (r, q')) :
    Moves call p q r q' := by
  cases p with
  | producing p =>
    obtain ⟨job, hj, hs⟩ := Option.bind_eq_some_iff.mp h
    obtain ⟨⟨r', q''⟩, hs, he⟩ := Option.map_eq_some_iff.mp hs
    have hm := Producing.moves_of_step hj hp.2 hs
    cases r' <;> cases he <;> exact hm
  | consuming p =>
    obtain ⟨⟨r', q''⟩, hs, he⟩ := Option.map_eq_some_iff.mp h
    have hm := Consuming.moves_of_step hp.1 hp.2 hs
    cases r' <;> cases he <;> exact hm
  | closing p => exact Closing.moves_of_step hp h
  | observing p => exact Observing.moves_of_step hp h

end PermitRing.Queue
