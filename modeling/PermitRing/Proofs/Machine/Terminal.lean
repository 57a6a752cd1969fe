import PermitRing.Proofs.Machine.Finality

/-!
# After the end of a queue

A queue ends when it is closed, no element is ready and no producer that may still bring one is
inside. From then on it stays closed, and no consumer gets an element. It is not always told so: a
producer that took its permit while the queue was open comes on the count of producers later, finds
the queue closed and goes off the count again. Meanwhile the stage of the queue's life is said to be
draining, even if it was said to be closed before, and a consumer that does not wait is told that
the queue is empty.

## Main definitions

* `Deed.TellsEnd` — a call is told that the queue is finished;
* `Deserted` — the queue is closed, and neither an element nor a producer is there;
* `Machine.Terminal` — what is to be said of a run after the end.

## Main results

* `Machine.Run.final_of_tellsEnd` — who is told that the queue is finished is told so when it is;
* `Machine.Run.terminal_of_tellsEnd` — and it stays so;
* `Machine.straggler_moves_back` — the answers do not.
-/

namespace PermitRing.Queue

variable {α : Type}

/-- A call is told that the queue is finished: a pop, or one that asks for the stage of the queue's
life. -/
def Deed.TellsEnd (d : Deed α) : Prop :=
  d.IsEnd ∨ d.call = .state ∧ d.result = .done (.state .closed)

/-- The queue is closed, no element is ready, and no producer is counted as inside. -/
structure Deserted (q : Queue α) : Prop where
  closed : q.isOpen = false
  size : q.size = 0
  pending : q.pending = 0

/-! ### Consumers at a deserted queue -/

/-- The thread has not found that waiting makes sense. -/
def Awaiting.Looks : Awaiting → Prop
  | .fast _ | .prepare | .look .. | .askOpen _ | .askPending _ | .lastLook _ => True
  | _ => False

/-- The consumer has no permit, and has not found that waiting makes sense. -/
def Consuming.Looks : Consuming α → Prop
  | .look _ | .askOpen | .askPending | .lastLook _ => True
  | .wait a => a.Looks
  | _ => False

/-- If the thread is a consumer, it has no permit and has not found that waiting makes sense. -/
def Point.Looks : Point α → Prop
  | .consuming p => p.Looks
  | _ => True

theorem Call.looks_first (call : Call α) : call.first.Looks := by
  cases call <;> trivial

section Steps

variable {call : Call α} {c : Choice} {q q' : Queue α}

/-- Where no permit is left, a step of taking one does not find any. -/
theorem stepTaking_of_none {π ρ : Type} {p : Permits.Taking} (hp : Sighted p)
    (h0 : (q.permits .consume).count = 0) (here : Permits.Taking → π)
    (next : Bool → Progress π ρ) :
    (∃ n, stepTaking .consume c p q here next = (.more (here (.swap n)), q)) ∨
      stepTaking .consume c p q here next = (next false, q) := by
  obtain ⟨n, -, hs⟩ | ⟨hk, -⟩ | ⟨-, hs⟩ := stepTaking_cases .consume c hp q here next
  · exact .inl ⟨n, hs⟩
  · omega
  · exact .inr hs

theorem Awaiting.looks_of_step {limit : Patience} {a : Awaiting} (ha : a.Apt) (hl : a.Looks)
    (hd : q.Deserted) {r : Progress Awaiting Permits.Outcome}
    (h : a.step .consume limit c q = some (r, q')) :
    (∃ a', r = .more a' ∧ a'.Looks) ∨ r = .done .cancelled := by
  cases a with
  | fast p =>
    obtain ⟨n, hs⟩ | hs := stepTaking_of_none (c := c) ha hd.size Awaiting.fast
      fun b => if b then Progress.done Permits.Outcome.acquired else .more .prepare
    all_goals
      rw [Awaiting.step, hs] at h
      cases h
      exact .inl ⟨_, rfl, trivial⟩
  | look e p =>
    obtain ⟨n, hs⟩ | hs := stepTaking_of_none (c := c) ha hd.size (Awaiting.look e)
      fun b => if b then Progress.done Permits.Outcome.acquired else .more (.askOpen e)
    all_goals
      rw [Awaiting.step, hs] at h
      cases h
      exact .inl ⟨_, rfl, trivial⟩
  | lastLook p =>
    obtain ⟨n, hs⟩ | hs := stepTaking_of_none (c := c) ha hd.size Awaiting.lastLook
      fun b => Progress.done (if b then Permits.Outcome.acquired else .cancelled)
    all_goals
      rw [Awaiting.step, hs] at h
      cases h
    · exact .inl ⟨_, rfl, trivial⟩
    · exact .inr rfl
  | prepare =>
    cases h
    exact .inl ⟨_, rfl, trivial⟩
  | askOpen e =>
    simp only [Awaiting.step, hd.closed, Bool.false_eq_true, if_false] at h
    cases h
    exact .inl ⟨_, rfl, trivial⟩
  | askPending e =>
    simp only [Awaiting.step, hd.pending, if_true] at h
    cases h
    exact .inl ⟨_, rfl, trivial⟩
  | deadline e | enlist e | sleep e | asleep | leave => exact hl.elim

/-- **A consumer that comes to a deserted queue is told that it is closed.** -/
theorem Consuming.looks_of_step {p : Consuming α} (hp : p.Apt call) (hl : p.Looks)
    (hd : q.Deserted) {r : Progress (Consuming α) (Answer α)}
    (h : p.step call.wait c q = some (r, q')) :
    (∃ p', r = .more p' ∧ p'.Looks) ∨ r = .done (.refused .closed) := by
  cases p with
  | look p =>
    have key : ∀ next : Bool → Progress (Consuming α) (Answer α),
        some (stepTaking .consume c p q .look next) = some (r, q') →
        (∃ n, r = .more (.look (.swap n))) ∨ r = next false := by
      intro next h
      obtain ⟨n, hs⟩ | hs := stepTaking_of_none (c := c) hp hd.size Consuming.look next
      all_goals
        rw [hs] at h
        cases h
      · exact .inl ⟨n, rfl⟩
      · exact .inr rfl
    obtain ⟨n, rfl⟩ | rfl := key _ h
    · exact .inl ⟨_, rfl, trivial⟩
    · cases call.wait <;> exact .inl ⟨_, rfl, trivial⟩
  | lastLook p =>
    rw [Consuming.step] at h
    obtain ⟨n, hs⟩ | hs := stepTaking_of_none (c := c) hp hd.size Consuming.lastLook
      fun b => if b then .more (.claim .start) else .done (Answer.refused .closed)
    all_goals
      rw [hs] at h
      cases h
    · exact .inl ⟨_, rfl, trivial⟩
    · exact .inr rfl
  | askOpen =>
    simp only [Consuming.step, hd.closed, Bool.false_eq_true, if_false] at h
    cases h
    exact .inl ⟨_, rfl, trivial⟩
  | askPending =>
    simp only [Consuming.step, hd.pending, if_true] at h
    cases h
    exact .inl ⟨_, rfl, trivial⟩
  | wait a =>
    simp only [Consuming.step] at h
    split at h
    · cases h
    · obtain ⟨⟨r', q''⟩, hs, he⟩ := Option.map_eq_some_iff.mp h
      obtain ⟨a', rfl, ha'⟩ | rfl := Awaiting.looks_of_step hp hl hd hs
      · cases he
        exact .inl ⟨_, rfl, ha'⟩
      · cases he
        exact .inr rfl
  | claim x | take i t | give v | wake v w => exact hl.elim

theorem Point.looks_of_step {p : Point α} (hp : p.Apt call) (hl : p.Looks) (hd : q.Deserted)
    {r : Progress (Point α) (Answer α)} (h : p.step call c q = some (r, q')) :
    (∀ p', r = .more p' → p'.Looks) ∧
      ∀ a, r = .done a → call.isConsuming = true → a = .refused .closed := by
  cases p with
  | producing p =>
    obtain ⟨job, hj, hs⟩ := Option.bind_eq_some_iff.mp h
    obtain ⟨⟨r', q''⟩, hs, he⟩ := Option.map_eq_some_iff.mp hs
    refine ⟨fun p' hr => ?_, fun a _ hc => ?_⟩
    · rw [hr] at he
      cases r' <;> cases he
      trivial
    · cases call <;> cases hj <;> cases hc
  | consuming p =>
    obtain ⟨⟨r', q''⟩, hs, he⟩ := Option.map_eq_some_iff.mp h
    obtain ⟨p', rfl, hp'⟩ | rfl := Consuming.looks_of_step hp.2 hl hd hs
    · cases he
      exact ⟨fun _ hr => by cases hr; exact hp', by simp⟩
    · cases he
      exact ⟨by simp, fun _ hr _ => by cases hr; rfl⟩
  | closing p =>
    refine ⟨fun p' hr => ?_, fun a _ hc => absurd hc (by rw [hp.2]; exact Bool.false_ne_true)⟩
    simp only [Point.step, hr, Option.some.injEq] at h
    cases hs : p.step q with
    | mk r' q'' =>
      rw [hs] at h
      cases r' <;> cases h
      trivial
  | observing p =>
    refine ⟨fun p' hr => ?_, fun a _ hc => absurd hc (by rw [hp.2]; exact Bool.false_ne_true)⟩
    simp only [Point.step, hr, Option.some.injEq] at h
    cases hs : p.step q with
    | mk r' q'' =>
      rw [hs] at h
      cases r' <;> cases h
      trivial

end Steps

/-- Where no permit is left, no consumer takes one. -/
theorem Move.obtains_of_ready {call : Call α} {s : Stage α} {k k' : Core α}
    {r : Progress (Stage α) (Answer α)} (h : Move call s k r k') (hk : k.ready = 0) :
    s.obtains r = false := by
  cases h with
  | obtain h | obtainLate h => omega
  | _ => rfl

/-! ### Asking for the stage -/

namespace Machine

variable {q : Queue α} {programs : List (List (Call α))} {ds es : List (Deed α)}
  {m n : Machine α} {d : Deed α} {c : Choice} {disc : Discipline} {config : Config}
  {order : Side → Nat → Nat}

/-- What a thread that asks for the stage of the queue's life has seen is so. -/
def Saw (m : Machine α) : Observing → Prop
  | .openFirst => True
  | .openAgain | .pending => m.queue.isOpen = false
  | .count => Drained m

theorem Leads.saw (h : Leads programs d m n) {o : Observing} (ho : m.Saw o) : n.Saw o := by
  cases o with
  | openFirst => trivial
  | openAgain | pending => exact h.move.closed ho
  | count => exact h.drained ho

/-- **What a call has seen that asks for the stage.** -/
theorem Run.saw_of_state (hq : create disc config order = .ok q) (hp : Respects disc programs)
    (hlen : programs.length < Word.size) (h : Run (launch q programs) ds m)
    (hs : m.act? c = some (d, n)) (hcall : d.call = .state) :
    ∃ o, d.point = .observing o ∧ m.Saw o := by
  refine h.at_deed (P := fun m call p => call = .state → ∃ o, p = .observing o ∧ m.Saw o)
    ?_ ?_ ?_ hs hcall
  · rintro m call rfl
    exact ⟨.openFirst, rfl, trivial⟩
  · intro ds m n d c call p hr hs hsaw hcall
    obtain ⟨o, rfl, ho⟩ := hsaw hcall
    exact ⟨o, rfl, (hr.leads hs).saw ho⟩
  · intro ds m n d c p hr hs hsaw hresult hcall
    obtain ⟨o, hpoint, ho⟩ := hsaw hcall
    have hl := hr.leads hs
    have hstep := act?_step hs
    rw [hpoint, hresult, Point.step, Option.some.injEq] at hstep
    cases o with
    | openFirst | openAgain =>
      cases hopen : m.queue.isOpen with
      | true => simp [Observing.step, hopen, liftProgress] at hstep
      | false =>
        simp only [Observing.step, hopen, Bool.false_eq_true, if_false, liftProgress,
          Prod.mk.injEq, Progress.more.injEq] at hstep
        exact ⟨_, hstep.1.symm, hl.move.closed hopen⟩
    | pending =>
      by_cases hpending : m.queue.pending = 0
      · simp only [Observing.step, if_pos hpending, liftProgress, Prod.mk.injEq,
          Progress.more.injEq] at hstep
        exact ⟨_, hstep.1.symm, hl.drained (hr.drained_of_pending hq hp hlen ho hpending)⟩
      · simp [Observing.step, if_neg hpending, liftProgress] at hstep
    | count => simp [Observing.step, liftProgress] at hstep

/-- What a call that asks for the stage answers at a closed queue. -/
theorem Run.state_of_closed (hq : create disc config order = .ok q) (hp : Respects disc programs)
    (hlen : programs.length < Word.size) (h : Run (launch q programs) ds m)
    (hs : m.act? c = some (d, n)) (hcall : d.call = .state) {a : Answer α}
    (hd : d.result = .done a) :
    a = .state .opened ∧ m.queue.isOpen = true ∨
      a = .state .draining ∧ (m.queue.isOpen = true ∨ m.queue.pending ≠ 0 ∨ m.queue.size ≠ 0) ∨
      a = .state .closed ∧ Final m := by
  obtain ⟨o, hpoint, ho⟩ := h.saw_of_state hq hp hlen hs hcall
  have hstep := act?_step hs
  rw [hpoint, hd, Point.step, Option.some.injEq] at hstep
  cases o with
  | openFirst | openAgain =>
    cases hopen : m.queue.isOpen with
    | true =>
      simp only [Observing.step, hopen, if_true, liftProgress, Prod.mk.injEq,
        Progress.done.injEq] at hstep
      simp [← hstep.1]
    | false => simp [Observing.step, hopen, liftProgress] at hstep
  | pending =>
    by_cases hpending : m.queue.pending = 0
    · simp [Observing.step, if_pos hpending, liftProgress] at hstep
    · simp only [Observing.step, if_neg hpending, liftProgress, Prod.mk.injEq,
        Progress.done.injEq] at hstep
      exact .inr (.inl ⟨hstep.1.symm, .inr (.inl hpending)⟩)
  | count =>
    simp only [Observing.step, liftProgress, Prod.mk.injEq, Progress.done.injEq] at hstep
    by_cases hsize : m.queue.size = 0
    · rw [if_pos hsize] at hstep
      exact .inr (.inr ⟨hstep.1.symm, ho, hsize⟩)
    · rw [if_neg hsize] at hstep
      exact .inr (.inl ⟨hstep.1.symm, .inr (.inr hsize)⟩)

/-! ### The end -/

/-- **Whoever is told that the queue is finished is told so when it is.** -/
theorem Run.final_of_tellsEnd (hq : create disc config order = .ok q)
    (hp : Respects disc programs) (hlen : programs.length < Word.size)
    (h : Run (launch q programs) ds m) (hd : d ∈ ds) (hend : d.TellsEnd) : Final m := by
  induction h with
  | refl => cases hd
  | @step ds m n d' c hr hs ih =>
    refine (hr.leads hs).final ?_
    rcases List.mem_append.mp hd with hd | hd
    · exact ih hd
    · cases List.mem_singleton.mp hd
      rcases hend with hpop | ⟨hcall, hresult⟩
      · exact hr.final_of_isEnd hq hp hlen hs hpop
      · obtain ⟨ha, -⟩ | ⟨ha, -⟩ | ⟨-, hfinal⟩ := hr.state_of_closed hq hp hlen hs hcall hresult
        · cases ha
        · cases ha
        · exact hfinal

/-- What is to be said of a run from `m` on, with the deeds `es` and to `n`, if before it somebody
was told that the queue is finished. -/
structure Terminal (m : Machine α) (es : List (Deed α)) (n : Machine α) : Prop where
  /-- It stays closed and drained, and no element is ready. -/
  final : Final n
  /-- No consumer gets a permit any more. -/
  obtains : ∀ e ∈ es, e.obtains = false
  /-- Who asks for the stage is told that it is closed, or finds a producer on the count. -/
  state : ∀ e ∈ es, e.call = .state → ∀ a, e.result = .done a →
    a = .state .closed ∨ a = .state .draining ∧ e.queue.pending ≠ 0
  /-- A thread that was between two calls, and finds no producer on the count, is told that the
  queue is closed by all calls that it makes to pop elements or to ask for the stage. -/
  told : ∀ t, (∀ thread, m.threads[t]? = some thread → thread.point = none) →
    (∀ e ∈ es, e.thread = t → e.queue.pending = 0) →
    ∀ e ∈ es, e.thread = t → ∀ a, e.result = .done a →
      (e.call.isConsuming = true → a = .refused .closed) ∧ (e.call = .state → a = .state .closed)

/-- A thread that makes its calls at a deserted queue has not found that waiting makes sense. -/
theorem Final.looks (hstart : Run (launch q programs) ds m) (hm : Final m) (h : Run m es n)
    {t : Nat} (ht : ∀ thread, m.threads[t]? = some thread → thread.point = none)
    (hpending : ∀ e ∈ es, e.thread = t → e.queue.pending = 0) :
    (∀ thread p, n.threads[t]? = some thread → thread.point = some p → p.Looks) ∧
      ∀ e ∈ es, e.thread = t → ∀ a, e.result = .done a → e.call.isConsuming = true →
        a = .refused .closed := by
  induction h with
  | refl =>
    refine ⟨fun thread p hthread hp => ?_, fun e he => absurd he List.not_mem_nil⟩
    rw [ht thread hthread] at hp
    cases hp
  | @step es m' n' d c hr hs ih =>
    obtain ⟨hlooks, htold⟩ := ih fun e he => hpending e (List.mem_append_left _ he)
    have hfinal := (hm.run hstart hr).1
    have hqueue := ((hstart.trans hr).leads hs).queue
    have hsane := (hstart.trans hr).sane
    obtain ⟨thread₀, call, calls, ht₀, hcs, r, q', hstep, rfl, rfl⟩ := act?_cases hs
    by_cases hd : c.thread = t
    · subst hd
      have hdeserted : m'.queue.Deserted :=
        ⟨hfinal.closed, hfinal.ready, hpending _ (List.mem_append_right _ List.mem_cons_self) rfl⟩
      have hpoint : (thread₀.point.getD call.first).Looks := by
        cases hp : thread₀.point with
        | none => exact call.looks_first
        | some p => exact hlooks thread₀ p ht₀ hp
      obtain ⟨hmore, hdone⟩ := Point.looks_of_step (hsane.apt ht₀ hcs) hpoint hdeserted hstep
      refine ⟨fun thread p hthread hp => ?_, fun e he hte a ha hc => ?_⟩
      · rw [List.getElem?_set_self (List.getElem?_eq_some_iff.mp ht₀).1] at hthread
        cases hthread
        cases r with
        | more p' =>
          cases hp
          exact hmore p rfl
        | done a => cases hp
      · rcases List.mem_append.mp he with he | he
        · exact htold e he hte a ha hc
        · cases List.mem_singleton.mp he
          exact hdone a ha hc
    · refine ⟨fun thread p hthread hp => ?_, fun e he hte a ha hc => ?_⟩
      · rw [List.getElem?_set_ne hd] at hthread
        exact hlooks thread p hthread hp
      · rcases List.mem_append.mp he with he | he
        · exact htold e he hte a ha hc
        · cases List.mem_singleton.mp he
          exact absurd hte hd

/-- **The end of a queue is final**, but a producer that took its permit before the queue was closed
may still come on the count, find the queue closed, and leave again. -/
theorem Run.terminal_of_tellsEnd (hq : create disc config order = .ok q)
    (hp : Respects disc programs) (hlen : programs.length < Word.size)
    (h : Run (launch q programs) ds m) (hd : d ∈ ds) (hend : d.TellsEnd) (hes : Run m es n) :
    Terminal m es n := by
  have hm := h.final_of_tellsEnd hq hp hlen hd hend
  have hstate : ∀ e ∈ es, e.call = .state → ∀ a, e.result = .done a →
      a = .state .closed ∨ a = .state .draining ∧ e.queue.pending ≠ 0 := by
    intro e he hcall a ha
    obtain ⟨fs, m', c, n', hr, hs⟩ := hes.exists_of_mem he
    have hfinal := (hm.run h hr).1
    rw [((h.trans hr).leads hs).queue]
    obtain ⟨-, hopen⟩ | ⟨ha, hopen | hpending | hsize⟩ | ⟨ha, -⟩ :=
      (h.trans hr).state_of_closed hq hp hlen hs hcall ha
    · rw [hfinal.closed] at hopen
      cases hopen
    · rw [hfinal.closed] at hopen
      cases hopen
    · exact .inr ⟨ha, hpending⟩
    · exact absurd hfinal.ready hsize
    · exact .inl ha
  refine
    { final := (hm.run h hes).1
      obtains := fun e he => ?_
      state := hstate
      told := fun t ht hpending e he hte a ha => ⟨?_, fun hcall => ?_⟩ }
  · obtain ⟨fs, m', c, n', hr, hs⟩ := hes.exists_of_mem he
    exact ((h.trans hr).leads hs).move.obtains_of_ready (hm.run h hr).1.ready
  · exact (hm.looks h hes ht hpending).2 e he hte a ha
  · exact (hstate e he hcall a ha).resolve_right fun hdraining =>
      hdraining.2 (hpending e he hte)

/-- Four threads: a producer that does not wait, one that closes the queue, one that asks twice for
the stage, and a consumer that does not wait. -/
def straggler : List (List (Call Nat)) :=
  [[.push 1 .never], [.close], [.state, .state], [.pop .never, .pop .never]]

/-- Turns in which the producer takes its permit, the queue is closed, and the two other threads
finish a call each. -/
def untilEnd : List Choice :=
  [0, 0, 0, 1, 1, 1, 1, 1, 2, 2, 2, 2, 3, 3, 3, 3].map fun t => { thread := t }

/-- Turns in which the producer comes on the count, and the two other threads make their second
calls. -/
def afterEnd : List Choice :=
  [0, 2, 2, 2, 3, 3, 3].map fun t => { thread := t }

/-- The queue ends as the third call is told so. The producer is on the count at the second one. -/
theorem terminal_straggler :
    ∃ (q : Queue Nat) (d : Deed Nat), create .mpmc { capacity := 1 } (fun _ _ => 0) = .ok q ∧
      Respects .mpmc straggler ∧ straggler.length < Word.size ∧
      d ∈ (trace untilEnd (launch q straggler)).1 ∧ d.TellsEnd ∧
      Terminal (trace untilEnd (launch q straggler)).2
        (trace afterEnd (trace untilEnd (launch q straggler)).2).1
        (trace afterEnd (trace untilEnd (launch q straggler)).2).2 := by
  have hq : create (α := Nat) .mpmc { capacity := 1 } (fun _ _ => 0) = .ok _ := rfl
  refine ⟨_, _, hq, respects_mpmc straggler, by decide, List.mem_of_getElem? (i := 11) rfl,
    .inr ⟨rfl, rfl⟩, ?_⟩
  exact Run.terminal_of_tellsEnd hq (respects_mpmc straggler) (by decide) (run_trace untilEnd _)
    (List.mem_of_getElem? (i := 11) rfl) (.inr ⟨rfl, rfl⟩) (run_trace afterEnd _)

/-- **A queue that was said to be closed may be said to be draining again**, and empty: the answers
of the third thread and of the fourth one, the latest first. -/
theorem straggler_moves_back :
    ∃ q : Queue Nat, create .mpmc { capacity := 1 } (fun _ _ => 0) = .ok q ∧
      Respects .mpmc straggler ∧
      ((trace (untilEnd ++ afterEnd) (launch q straggler)).2.threads.map Thread.answers) =
        [[], [.done], [.state .draining, .state .closed], [.refused .empty, .refused .closed]] :=
  ⟨_, rfl, respects_mpmc straggler, rfl⟩

end Machine

end PermitRing.Queue
