import PermitRing.Proofs.Machine.Admission

/-!
# Closing splits the producers

A queue is closed by one swap, whoever calls `close` how often. Every step of every thread falls
before that swap or after it, and for a producer only one step counts: the one in which it asks
again whether the queue is open. A producer that asks before the swap is let in, and nothing that
happens later turns it down; all others are turned down and have left no trace. So nobody is told
that the queue is closed whose element is in it, and nobody is told the opposite whose element is
not.

## Main definitions

* `Deed.closes` — the swap that closes the queue;
* `PastCall.Won`, `PastCall.Lost` — what comes of a call of `close`;
* `Machine.Parted` — what is to be said of a run with calls of `close`.

## Main results

* `Machine.Run.isOpen_iff` — the queue is open until it is closed, and then never again;
* `Machine.Run.parted` — the producers are split.
-/

namespace PermitRing.Queue

variable {α : Type}

/-! ### Who closes the queue -/

/-- The deed closes the queue. -/
def Deed.closes (d : Deed α) : Bool :=
  match d.point with
  | .closing .swap => d.queue.isOpen
  | _ => false

/-- The thread is about to swap the queue's state. -/
def Point.swaps : Point α → Bool
  | .closing .swap => true
  | _ => false

theorem Deed.closes_eq (d : Deed α) : d.closes = (d.point.swaps && d.queue.isOpen) := by
  obtain ⟨t, call, p, q, r⟩ := d
  cases p with
  | closing p => cases p <;> rfl
  | producing p | consuming p | observing p => rfl

section Steps

variable {x : Side} {c : Choice} {q q' : Queue α}

theorem isOpen_stepTaking {π ρ : Type} (p : Permits.Taking) (here : Permits.Taking → π)
    (next : Bool → Progress π ρ) : (stepTaking x c p q here next).2.isOpen = q.isOpen := by
  rw [stepTaking]
  split <;> rfl

theorem isOpen_stepWaking {π ρ : Type} (every : Bool) (w : Permits.Waking)
    (here : Permits.Waking → π) (next : Progress π ρ) :
    (stepWaking x every w q here next).2.isOpen = q.isOpen := by
  rw [stepWaking]
  split <;> rfl

theorem Awaiting.isOpen_of_step {limit : Patience} {a : Awaiting}
    {r : Progress Awaiting Permits.Outcome} (h : a.step x limit c q = some (r, q')) :
    q'.isOpen = q.isOpen := by
  cases a with
  | fast p | look e p | lastLook p =>
    exact (congrArg (·.2.isOpen) (Option.some.inj h)).symm.trans (isOpen_stepTaking _ _ _)
  | prepare | askPending e | enlist e | leave =>
    cases h
    rfl
  | askOpen e =>
    simp only [Awaiting.step] at h
    split at h
    · cases h
      rfl
    · cases x <;> cases h <;> rfl
  | deadline e | sleep e =>
    simp only [Awaiting.step] at h
    split at h <;> cases h <;> rfl
  | asleep =>
    simp only [Awaiting.step] at h
    split at h
    · split at h <;> cases h
      rfl
    · cases h
      rfl

theorem Producing.isOpen_of_step {wait : Wait} {job : Job α} {p : Producing α}
    {r : Progress (Producing α) (Answer α)} (h : p.step wait job c q = some (r, q')) :
    q'.isOpen = q.isOpen := by
  cases p with
  | look p =>
    exact (congrArg (·.2.isOpen) (Option.some.inj h)).symm.trans (isOpen_stepTaking _ _ _)
  | wake w | wakeBack a w =>
    exact (congrArg (·.2.isOpen) (Option.some.inj h)).symm.trans (isOpen_stepWaking _ _ _ _)
  | wait a =>
    simp only [Producing.step] at h
    split at h
    · cases h
    · obtain ⟨⟨r', q''⟩, hs, he⟩ := Option.map_eq_some_iff.mp h
      cases he
      exact Awaiting.isOpen_of_step hs
  | enter | give | giveBack a =>
    cases h
    rfl
  | checkOpen | recheck | construct | claim v x =>
    simp only [Producing.step] at h
    repeat' split at h
    all_goals
      cases h
      rfl
  | write v i w =>
    simp only [Producing.step] at h
    repeat' split at h
    all_goals
      cases h
      rfl
  | finish a f =>
    have hf : (f.step q).2.isOpen = q.isOpen := by
      cases f with
      | count => rfl
      | check => rfl
      | wake w => exact isOpen_stepWaking _ _ _ _
    simp only [Producing.step] at h
    split at h <;> rename_i hs <;> cases h <;> rw [hs] at hf <;> exact hf

theorem Consuming.isOpen_of_step {wait : Wait} {p : Consuming α}
    {r : Progress (Consuming α) (Answer α)} (h : p.step wait c q = some (r, q')) :
    q'.isOpen = q.isOpen := by
  cases p with
  | look p | lastLook p =>
    exact (congrArg (·.2.isOpen) (Option.some.inj h)).symm.trans (isOpen_stepTaking _ _ _)
  | wake v w =>
    exact (congrArg (·.2.isOpen) (Option.some.inj h)).symm.trans (isOpen_stepWaking _ _ _ _)
  | wait a =>
    simp only [Consuming.step] at h
    split at h
    · cases h
    · obtain ⟨⟨r', q''⟩, hs, he⟩ := Option.map_eq_some_iff.mp h
      cases he
      exact Awaiting.isOpen_of_step hs
  | askOpen | askPending | give v =>
    cases h
    rfl
  | claim x | take i t =>
    simp only [Consuming.step] at h
    repeat' split at h
    all_goals
      cases h
      rfl

/-- What a step of closing the queue comes to. -/
theorem Closing.isOpen_of_step (p : Closing) (q : Queue α) :
    (p.step q).2.isOpen = (q.isOpen && !(Point.closing (α := α) p).swaps) := by
  cases p with
  | swap => cases ho : q.isOpen <;> simp [Closing.step, Point.swaps, ho]
  | wakeConsumers w | wakeProducers w =>
    rw [Closing.step, isOpen_stepWaking]
    exact (Bool.and_true _).symm

/-- A thread that has swapped the state of the queue wakes others, and then says that it has. -/
theorem Closing.step_cases {p : Closing} (hp : p ≠ .swap) (q : Queue α) :
    (∃ p', p' ≠ .swap ∧ (liftProgress .closing (p.step q)).1 = .more (.closing p' : Point α)) ∨
      (liftProgress (.closing : Closing → Point α) (p.step q)).1 = .done .done := by
  cases p with
  | swap => exact absurd rfl hp
  | wakeConsumers w =>
    obtain ⟨k, ⟨w', hs⟩ | hs⟩ := stepWaking_cases .consume true w q Closing.wakeConsumers
      (.more (.wakeProducers .bump) : Progress Closing (Answer α))
    all_goals rw [Closing.step, hs]
    · exact .inl ⟨.wakeConsumers w', by simp, rfl⟩
    · exact .inl ⟨.wakeProducers .bump, by simp, rfl⟩
  | wakeProducers w =>
    obtain ⟨k, ⟨w', hs⟩ | hs⟩ := stepWaking_cases .produce true w q Closing.wakeProducers
      (.done .done : Progress Closing (Answer α))
    all_goals rw [Closing.step, hs]
    · exact .inl ⟨.wakeProducers w', by simp, rfl⟩
    · exact .inr rfl

/-- **A queue stays as it is until somebody swaps its state**, and then it is closed. -/
theorem Point.isOpen_of_step {call : Call α} {p : Point α} {r : Progress (Point α) (Answer α)}
    (h : p.step call c q = some (r, q')) : q'.isOpen = (q.isOpen && !p.swaps) := by
  have hlift {π : Type} {f : π → Point α} {s : Progress π (Answer α) × Queue α}
      (he : liftProgress f s = (r, q')) : q' = s.2 := by
    obtain ⟨_ | _, q''⟩ := s <;> cases he <;> rfl
  cases p with
  | producing p =>
    obtain ⟨job, -, h⟩ := Option.bind_eq_some_iff.mp h
    obtain ⟨s, hs, he⟩ := Option.map_eq_some_iff.mp h
    rw [hlift he, Producing.isOpen_of_step hs]
    exact (Bool.and_true _).symm
  | consuming p =>
    obtain ⟨s, hs, he⟩ := Option.map_eq_some_iff.mp h
    rw [hlift he, Consuming.isOpen_of_step hs]
    exact (Bool.and_true _).symm
  | closing p =>
    rw [hlift (Option.some.inj h)]
    exact p.isOpen_of_step q
  | observing p =>
    rw [hlift (Option.some.inj h)]
    cases p <;> exact (Bool.and_true _).symm

end Steps

/-! ### What comes of a call of `close` -/

/-- What comes of the call that closes the queue. -/
structure PastCall.Won (past : PastCall α) : Prop where
  answer : past.answer = .done
  closes : past.deeds.countP Deed.closes = 1

/-- What comes of a call that finds the queue closed already: it says so at once, and nothing
happens to the queue. -/
structure PastCall.Lost (past : PastCall α) : Prop where
  answer : past.answer = .refused .alreadyClosed
  closes : past.deeds.countP Deed.closes = 0
  unchanged : ∃ d, past.deeds = [d] ∧ ∀ q', d.Brings q' → q' = d.queue

/-- The call was one of `close`, and it answers that it has closed the queue. -/
def PastCall.wins (past : PastCall α) : Bool :=
  match past.call, past.answer with
  | .close, .done => true
  | _, _ => false

namespace Machine

variable {q : Queue α} {programs : List (List (Call α))} {ds : List (Deed α)} {m n : Machine α}
  {d : Deed α} {disc : Discipline} {config : Config} {order : Side → Nat → Nat} {t : Nat}

/-- **The queue is open until it is closed**, and it is closed once. -/
theorem Run.isOpen_iff (hq : create disc config order = .ok q) (h : Run (launch q programs) ds m) :
    (m.queue.isOpen = true ↔ ds.countP Deed.closes = 0) ∧ ds.countP Deed.closes ≤ 1 := by
  induction h with
  | refl =>
    rw [launch, eq_of_create hq]
    exact ⟨⟨fun _ => rfl, fun _ => rfl⟩, Nat.zero_le _⟩
  | @step ds m n d c hr hs ih =>
    obtain ⟨hiff, hle⟩ := ih
    have hnext := Point.isOpen_of_step (act?_step hs)
    rw [countP_concat, Deed.closes_eq, (hr.leads hs).queue, hnext]
    cases hopen : m.queue.isOpen with
    | true =>
      rw [hiff.mp hopen]
      cases d.point.swaps <;> decide
    | false =>
      have hpos : ds.countP Deed.closes ≠ 0 := fun h0 => by
        rw [hiff.mpr h0] at hopen
        cases hopen
      rw [Bool.and_false, Bool.false_and]
      exact ⟨⟨fun ho => absurd ho Bool.false_ne_true, fun h0 => absurd h0 hpos⟩, hle⟩

/-- What each deed of a run finds. -/
theorem Run.found (hq : create disc config order = .ok q) (h : Run (launch q programs) ds m)
    {before rest : List (Deed α)} (hds : ds = before ++ d :: rest) :
    d.queue.isOpen = true ↔ before.countP Deed.closes = 0 := by
  rw [List.append_cons] at hds
  subst hds
  obtain ⟨m', hm', -⟩ := h.of_append
  obtain ⟨m₀, c, hm₀, hs⟩ := hm'.of_concat
  rw [(hm₀.leads hs).queue]
  exact (hm₀.isOpen_iff hq).1

/-- A deed of closing the queue is a step of closing it. -/
theorem Run.closing (h : Run (launch q programs) ds m) {c : Choice}
    (hs : m.act? c = some (d, n)) {p : Closing} (hp : d.point = .closing p) :
    d.result = (liftProgress .closing (p.step d.queue)).1 := by
  have hstep := act?_step hs
  rw [hp, ← (h.leads hs).queue] at hstep
  exact (congrArg Prod.fst (Option.some.inj hstep)).symm

/-- The swap closes the queue if it is open. Otherwise the call is over, and nothing has
happened. -/
theorem Run.of_swap (h : Run (launch q programs) ds m) {c : Choice} (hs : m.act? c = some (d, n))
    (hp : d.point = .closing .swap) :
    d.closes = true ∧ d.result = .more (.closing (.wakeConsumers .bump)) ∨
      d.closes = false ∧ d.result = .done (.refused .alreadyClosed) ∧
        ∀ q', d.Brings q' → q' = d.queue := by
  have hres := h.closing hs hp
  rw [Deed.closes_eq, hp]
  cases ho : d.queue.isOpen with
  | true =>
    refine .inl ⟨rfl, ?_⟩
    simpa only [Closing.step, ho, if_true, liftProgress] using hres
  | false =>
    refine .inr ⟨rfl, ?_, ?_⟩
    · simpa only [Closing.step, ho, Bool.false_eq_true, if_false, liftProgress] using hres
    · rintro q' ⟨c, hstep⟩
      rw [hp] at hstep
      simp only [Point.step, Closing.step, ho, Bool.false_eq_true, if_false, liftProgress,
        Option.some.injEq, Prod.mk.injEq] at hstep
      exact hstep.2.symm

/-- After the swap a call of `close` wakes the threads, and then it is over. -/
theorem Run.of_wake (h : Run (launch q programs) ds m) {c : Choice} (hs : m.act? c = some (d, n))
    {w : Closing} (hp : d.point = .closing w) (hw : w ≠ .swap) :
    d.closes = false ∧
      ((∃ w', w' ≠ .swap ∧ d.result = .more (.closing w')) ∨ d.result = .done .done) := by
  have hres := h.closing hs hp
  constructor
  · rw [Deed.closes_eq, hp]
    cases w <;> first | rfl | exact absurd rfl hw
  · obtain ⟨w', hw', hnext⟩ | hnext := Closing.step_cases hw d.queue
    · exact .inl ⟨w', hw', hres.trans hnext⟩
    · exact .inr (hres.trans hnext)

/-- **A call of `close` closes the queue or finds it closed.** -/
theorem Run.won_or_lost (h : Run (launch q programs) ds m) {past : PastCall α}
    (hpast : past ∈ pastCalls t ds) (hc : past.call = .close) : past.Won ∨ past.Lost := by
  refine (h.calls (P := fun call es p => call = .close →
      es = [] ∧ p = .closing .swap ∨
        es.countP Deed.closes = 1 ∧ ∃ w, p = .closing w ∧ w ≠ .swap)
    (F := fun past => past.call = .close → past.Won ∨ past.Lost) ?_ ?_ ?_ t).1 past hpast hc
  · rintro call rfl
    exact .inl ⟨rfl, rfl⟩
  · intro ds m n d c es p hr hs hes hresult hc
    refine .inr ?_
    obtain ⟨rfl, hp⟩ | ⟨hcount, w, hp, hw⟩ := hes hc
    · obtain ⟨hcloses, hnext⟩ | ⟨-, hnext, -⟩ := hr.of_swap hs hp
      · cases hresult.symm.trans hnext
        exact ⟨by rw [countP_concat, hcloses]; rfl, _, rfl, by simp⟩
      · cases hresult.symm.trans hnext
    · obtain ⟨hcloses, ⟨w', hw', hnext⟩ | hnext⟩ := hr.of_wake hs hp hw
      · cases hresult.symm.trans hnext
        exact ⟨by rw [countP_concat, hcount, hcloses]; rfl, w', rfl, hw'⟩
      · cases hresult.symm.trans hnext
  · intro ds m n d c es a hr hs hes hresult hc
    obtain ⟨rfl, hp⟩ | ⟨hcount, w, hp, hw⟩ := hes hc
    · obtain ⟨-, hnext⟩ | ⟨hcloses, hnext, hsame⟩ := hr.of_swap hs hp
      · cases hresult.symm.trans hnext
      · cases hresult.symm.trans hnext
        exact .inr ⟨rfl, by rw [countP_concat, hcloses]; rfl, d, rfl, hsame⟩
    · obtain ⟨hcloses, ⟨w', -, hnext⟩ | hnext⟩ := hr.of_wake hs hp hw
      · cases hresult.symm.trans hnext
      · cases hresult.symm.trans hnext
        exact .inl ⟨rfl, by rw [countP_concat, hcount, hcloses]; rfl⟩

/-- Once a call of `close` has taken a step, one call of `close` has closed the queue. -/
theorem Run.closes_eq_one (hq : create disc config order = .ok q)
    (h : Run (launch q programs) ds m) (hd : d ∈ ds) (hc : d.call = .close) :
    ds.countP Deed.closes = 1 := by
  obtain ⟨hiff, hle⟩ := h.isOpen_iff hq
  have hclosed := h.closed_of_mem hd hc
  have hpos : ds.countP Deed.closes ≠ 0 := fun h0 => by
    rw [hiff.mpr h0] at hclosed
    cases hclosed
  omega

/-- Each call of a thread that answers that it has closed the queue has a deed that closes it. -/
theorem Run.wins_le_closes (h : Run (launch q programs) ds m) (t : Nat) :
    (pastCalls t ds).countP PastCall.wins ≤ (deedsOf t ds).countP Deed.closes := by
  have hcalls : ∀ past ∈ pastCalls t ds, past.wins = true → 1 ≤ past.deeds.countP Deed.closes := by
    intro past hpast hwins
    have hc : past.call = .close ∧ past.answer = .done := by
      rw [PastCall.wins] at hwins
      split at hwins
      · exact ⟨‹_›, ‹_›⟩
      · cases hwins
    rcases h.won_or_lost hpast hc.1 with hwon | hlost
    · exact hwon.closes.ge
    · cases hc.2.symm.trans hlost.answer
  rw [← flatten_pastCalls t ds, List.countP_append, List.countP_flatten]
  refine le_trans ?_ (Nat.le_add_right _ _)
  generalize pastCalls t ds = pasts at hcalls
  induction pasts with
  | nil => exact Nat.le_refl 0
  | cons past pasts ih =>
    have hrest := ih fun past' hmem => hcalls past' (List.mem_cons_of_mem _ hmem)
    have hfirst := hcalls past List.mem_cons_self
    rw [List.countP_cons, List.map_cons, List.map_cons, List.sum_cons]
    split
    · have := hfirst ‹_›
      omega
    · omega

/-- **At most one call answers that it has closed the queue**, of all calls of all threads. -/
theorem Run.sum_wins_le (hq : create disc config order = .ok q)
    (h : Run (launch q programs) ds m) :
    ∑ t ∈ Finset.range programs.length, (pastCalls t ds).countP PastCall.wins ≤ 1 := by
  have hsum : ∑ t ∈ Finset.range programs.length, (deedsOf t ds).countP Deed.closes =
      ds.countP Deed.closes := by
    have hdeeds := congrArg Multiset.card
      (h.sum_deedsOf fun d => if d.closes = true then some d else none)
    have hcount : ∀ es : List (Deed α), (es.filterMap fun d =>
        if d.closes = true then some d else none).length = es.countP Deed.closes := by
      intro es
      rw [List.length_filterMap_eq_countP]
      refine List.countP_congr fun d _ => ?_
      cases d.closes <;> simp
    rw [Multiset.card_sum, Multiset.coe_card, hcount] at hdeeds
    rw [← hdeeds]
    exact Finset.sum_congr rfl fun t _ => by rw [Multiset.coe_card, hcount]
  calc ∑ t ∈ Finset.range programs.length, (pastCalls t ds).countP PastCall.wins
      ≤ ∑ t ∈ Finset.range programs.length, (deedsOf t ds).countP Deed.closes :=
        Finset.sum_le_sum fun t _ => h.wins_le_closes t
    _ = ds.countP Deed.closes := hsum
    _ ≤ 1 := (h.isOpen_iff hq).2

/-! ### The split -/

/-- What is to be said of a run with calls of `close` and of producers. -/
structure Parted (programs : List (List (Call α))) (ds : List (Deed α)) (m : Machine α) : Prop where
  /-- A deed finds the queue open if none before it has closed it. -/
  found : ∀ before d rest, ds = before ++ d :: rest →
    (d.queue.isOpen = true ↔ before.countP Deed.closes = 0)
  /-- Once a call of `close` has taken a step, exactly one has closed the queue. -/
  once : (∃ d ∈ ds, d.call = .close) → ds.countP Deed.closes = 1
  /-- A call of `close` answers that it has closed the queue if it has. Otherwise it answers that
  the queue was closed already, and leaves the queue as it is. -/
  closers : ∀ t, ∀ past ∈ pastCalls t ds, past.call = .close → past.Won ∨ past.Lost
  /-- Of all calls at most one answers that it has closed the queue. -/
  winner : ∑ t ∈ Finset.range programs.length, (pastCalls t ds).countP PastCall.wins ≤ 1
  /-- A producer that comes when the queue was closed is told so at once. It gets back what it
  brought, runs no constructor, and leaves the queue as it is. -/
  late : ∀ t, ∀ past ∈ pastCalls t ds, ∀ job, past.call.job? = some job → ∀ d es,
    past.deeds = d :: es → d.queue.isOpen = false → past.TurnedAway job d ∧ past.TurnedDown job
  /-- So while the call of a producer is under way, it came before the queue was closed. -/
  early : ∀ t d es, presentCall t ds = d :: es → d.call.isProducing = true → d.queue.isOpen = true
  /-- A producer that asks again before the queue is closed is let in. All others are turned
  down. -/
  split : ∀ t, ∀ past ∈ pastCalls t ds, ∀ job, past.call.job? = some job →
    past.Admitted job ∨ past.TurnedDown job
  /-- A producer that was let in can go on as long as its call is not over. -/
  going : ∀ t, ∀ d ∈ presentCall t ds, d.passes = true → ∀ c : Choice, c.thread = t →
    ∃ r, m.act? c = some r
  /-- As long as a producer was not let in, it leaves the slots and the tail alone. -/
  spares : ∀ t, (presentCall t ds).countP Deed.passes = 0 → ∀ d ∈ presentCall t ds,
    d.call.isProducing = true → d.Spares
  /-- What was moved in was claimed by a consumer, or lies in a full slot. -/
  stored : (ds.filterMap Deed.stored? : Multiset α) =
    (ds.filterMap Deed.claimed? : Multiset α) + m.queue.storage.contents
  /-- There is a permit for every element that was moved in and for which a permit was handed out,
  unless a consumer has taken it. -/
  gives : ds.countP Deed.gives = ds.countP Deed.obtains + m.queue.size
  /-- The permits of producers change by those that a step takes and brings back. -/
  free : ∀ c d n, m.act? c = some (d, n) →
    n.queue.free + (d.takes .produce).toNat = m.queue.free + (d.raises .produce).toNat

/-- **Closing splits the producers cleanly**, in every interleaving of any number of calls of
`close` and of producers. -/
theorem Run.parted (hq : create disc config order = .ok q) (hp : Respects disc programs)
    (h : Run (launch q programs) ds m) : Parted programs ds m := by
  refine
    { found := fun before d rest hds => h.found hq hds
      once := ?_
      closers := fun t past hpast hc => h.won_or_lost hpast hc
      winner := h.sum_wins_le hq
      late := ?_
      early := ?_
      split := fun t past hpast job hj => h.admitted_or_turnedDown hq hp hpast hj
      going := fun t d hd hpasses c hc => h.acts_of_passes hq hp hd hpasses hc
      spares := ?_
      stored := h.stored_eq hq
      gives := h.gives_eq hq hp
      free := ?_ }
  · rintro ⟨d, hd, hc⟩
    exact h.closes_eq_one hq hd hc
  · intro t past hpast job hj d es hdeeds hclosed
    rcases (h.turnedAway t).1 past hpast job hj with ⟨e, es', he, ho⟩ | ⟨e, he, haway⟩
    · cases hdeeds.symm.trans he
      rw [hclosed] at ho
      cases ho
    · cases hdeeds.symm.trans haway.deeds
      refine ⟨haway, (h.admitted_or_turnedDown hq hp hpast hj).resolve_left fun hadmitted => ?_⟩
      exact hadmitted.accepted _ haway.answer
  · intro t d es hdeeds hproducing
    obtain ⟨thread, call, calls, ht, hcs, hcall⟩ :=
      h.of_presentCall (t := t) (hdeeds ▸ List.cons_ne_nil d es)
    obtain ⟨job, hj⟩ := Call.isProducing_iff.mp hproducing
    rw [hcall d (by rw [hdeeds]; exact List.mem_cons_self)] at hj
    rcases (h.turnedAway t).2 thread call calls ht hcs job hj with ⟨hnil, -⟩ | ⟨e, es', he, ho⟩
    · cases hdeeds.symm.trans hnil
    · cases hdeeds.symm.trans he
      exact ho
  · intro t hnone d hd hproducing
    obtain ⟨thread, call, calls, ht, hcs, hcall⟩ := h.of_presentCall (List.ne_nil_of_mem hd)
    obtain ⟨job, hj⟩ := Call.isProducing_iff.mp hproducing
    rw [hcall d hd] at hj
    obtain ⟨p, -, hstory⟩ := (h.stories hq hp t).2 thread call calls ht hcs job hj
    cases hstory with
    | fore passes here constructs stored spares => exact spares d hd
    | past passes here constructs stored =>
      rw [hnone] at passes
      cases passes
  · intro c d n hs
    have hl := h.leads hs
    exact hl.move.free (hl.stage ▸ h.permits_lt hq hp d.thread)

/-- Two threads that close the queue, and two that put elements in. -/
def rivals : List (List (Call Nat)) :=
  [[.push 1 .never, .push 5 .never], [.close], [.close],
    [.emplace (.atMost .endless) false (.built 3)]]

/-- Turns in which both producers have a permit when the queue is closed, and one of them was let
in. -/
def rivalTurns : List Choice :=
  (List.replicate 5 0 ++ List.replicate 4 3 ++ List.replicate 10 1 ++ List.replicate 10 2 ++
    List.replicate 10 3 ++ List.replicate 20 0).map fun t => { thread := t }

/-- The first thread is let in with one element and turned away with the other. The last thread has
taken a permit and hands it back, and only the second thread has closed the queue. -/
theorem parted_rivals :
    ∃ q : Queue Nat, create .mpmc { capacity := 2 } (fun _ _ => 0) = .ok q ∧
      Respects .mpmc rivals ∧
      Run (launch q rivals) (trace rivalTurns (launch q rivals)).1
        (trace rivalTurns (launch q rivals)).2 ∧
      (pastCalls 0 (trace rivalTurns (launch q rivals)).1).map
        (fun past => past.deeds.countP Deed.passes) = [1, 0] ∧
      (pastCalls 3 (trace rivalTurns (launch q rivals)).1).map
        (fun past => past.deeds.countP (Deed.takes .produce)) = [1] ∧
      (pastCalls 1 (trace rivalTurns (launch q rivals)).1).map PastCall.wins = [true] ∧
      (pastCalls 2 (trace rivalTurns (launch q rivals)).1).map PastCall.wins = [false] ∧
      Parted rivals (trace rivalTurns (launch q rivals)).1
        (trace rivalTurns (launch q rivals)).2 := by
  have hq : create (α := Nat) .mpmc { capacity := 2 } (fun _ _ => 0) = .ok _ := rfl
  exact ⟨_, hq, respects_mpmc rivals, run_trace _ _, by decide, by decide, by decide, by decide,
    Run.parted hq (respects_mpmc rivals) (run_trace _ _)⟩

end Machine

end PermitRing.Queue
