import PermitRing.Proofs.Machine.Delivery

/-!
# The end of a queue

A consumer that is told that the queue is closed has looked four times: the queue was closed, no
producer was counted as inside, and there was no permit, neither before nor after that. Between any
two of these looks others may act. What makes the answer final is their order. A producer is
counted before it looks whether the queue is open, and is taken off the count after it has given out
the permit for its element; so once the queue is closed and the count has been seen at zero, nobody
who passed the second look at the flag is still on the way, and nobody will pass it again. Then the
permits only become fewer, and the last look finds none.

## Main definitions

* `Deed.IsEnd`, `Deed.EndsIteration` — a pop is told that the queue is closed, or an iteration ends;
* `Machine.Drained`, `Machine.Final` — nobody will add an element, and there is none;
* `Deed.entered?`, `Deed.gives`, `Deed.obtains` — admitted elements, and permits for consumers.

## Main results

* `Machine.Run.pending_eq` — the count of producers is the number of those that are inside;
* `Machine.Run.closed_is_final` — an answer that the queue is closed proves it finished.
-/

namespace PermitRing.Queue

variable {α : Type}

/-! ### Stages of producers -/

/-- One if the thread is counted as a producer inside. -/
def Stage.counts : Stage α → Nat
  | .counted | .building | .tail .. | .writing .. | .stored | .returning _ | .leaving _ => 1
  | _ => 0

/-- One if the thread found the queue open when it was counted, and has neither given out a permit
for its element nor failed to construct it. -/
def Stage.admitted : Stage α → Nat
  | .building | .tail .. | .writing .. | .stored => 1
  | _ => 0

theorem Stage.admitted_le_counts (s : Stage α) : s.admitted ≤ s.counts := by
  cases s <;> simp [admitted, counts]

theorem Stage.counts_le_one (s : Stage α) : s.counts ≤ 1 := by
  cases s <;> simp [counts]

/-! ### Deeds of producers and consumers -/

/-- The element with which a producer is admitted for good: it was counted, found the queue open,
and its constructor does not fail. -/
def Stage.entered? (call : Call α) : Stage α → Progress (Stage α) (Answer α) → Option α
  | .counted, .more (.tail v _) => some v
  | .counted, .more .building => call.value?
  | _, _ => none

/-- The element that an admitted producer has not moved in. -/
def Stage.inEntry (call : Call α) : Stage α → List α
  | .building => call.value?.toList
  | .tail v _ | .writing v _ _ => [v]
  | _ => []

/-- A producer gives out a permit for its element. -/
def Stage.gives : Stage α → Bool
  | .stored => true
  | _ => false

/-- A consumer takes a permit. -/
def Stage.obtains : Stage α → Progress (Stage α) (Answer α) → Bool
  | .outside, .more (.head _) | .sawDrained, .more (.head _) => true
  | _, _ => false

namespace Deed

/-- The element with which the deed admits its producer for good. -/
def entered? (d : Deed α) : Option α :=
  d.stage.entered? d.call d.next

/-- The deed gives out a permit for an element that was moved in. -/
def gives (d : Deed α) : Bool :=
  d.stage.gives

/-- The deed takes a permit for an element. -/
def obtains (d : Deed α) : Bool :=
  d.stage.obtains d.next

/-- A pop is told that the queue is closed. -/
def IsEnd (d : Deed α) : Prop :=
  ∃ a, d.next = .done a ∧ d.call.IsEnd a

/-- An iteration ends: its pop has no element to hand out. -/
def EndsIteration (d : Deed α) : Prop :=
  d.call = .iter ∧ ∃ a, d.next = .done a ∧ a.popped? = none

end Deed

/-! ### Moves -/

section Moves

variable {n : Nat} {call : Call α} {s : Stage α} {k k' : Core α}
  {r : Progress (Stage α) (Answer α)}

/-- **A move keeps the count of producers**, unless it ends its call in the middle. -/
theorem Move.pending (h : Move call s k r k') (ha : ¬s.Aborts r) (hpos : s.counts ≤ k.pending)
    (hlt : k.pending + (Stage.after r).counts < Word.size + s.counts) :
    k'.pending + s.counts = k.pending + (Stage.after r).counts := by
  cases h with
  | faultTail h | faultWrite h | faultHead h | faultTake h => exact absurd trivial ha
  | enter =>
    have hsucc : Word.succ k.pending = k.pending + 1 := Word.succ_eq hlt
    exact hsucc
  | leave hk | leaveLast hk =>
    have hpred : Word.pred k.pending = k.pending - 1 := Word.pred_eq hpos
    have hpos : 1 ≤ k.pending := hpos
    show Word.pred k.pending + 1 = k.pending + 0
    omega
  | _ => rfl

/-- Closed is for good. -/
theorem Move.closed (h : Move call s k r k') (hk : k.isOpen = false) : k'.isOpen = false := by
  cases h with
  | close ho => rfl
  | _ => exact hk

/-- A closed queue admits nobody. -/
theorem Move.admitted_of_closed (h : Move call s k r k') (hk : k.isOpen = false)
    (hs : s.admitted = 0) : (Stage.after r).admitted = 0 := by
  cases h with
  | pass ho hv | build ho =>
    rw [hk] at ho
    cases ho
  | built hv | claimTail h | gainTail h | write hs' h | store hs' h => cases hs
  | _ => rfl

/-- In a closed queue that nobody is admitted to, permits only become fewer. -/
theorem Move.ready_of_admitted (h : Move call s k r k') (hs : s.admitted = 0)
    (hk : k.ready = 0) : k'.ready = 0 := by
  cases h with
  | give => cases hs
  | obtain h | obtainLate h =>
    rw [hk] at h
    cases h
  | _ => exact hk

/-- A thread that is not admitted adds nothing. -/
theorem Move.adds_nothing (h : Move call s k r k') (hk : k.isOpen = false) (hs : s.admitted = 0) :
    s.stored? r = none ∧ s.gives = false ∧ s.entered? call r = none := by
  cases h with
  | pass ho hv | build ho =>
    rw [hk] at ho
    cases ho
  | store hs' h | give => cases hs
  | _ => exact ⟨rfl, rfl, rfl⟩

/-- A consumer has seen that the queue is closed when it comes to ask for producers. -/
theorem Move.sawClosed (h : Move call s k r k') (hr : Stage.after r = .sawClosed) :
    k.isOpen = false := by
  cases h with
  | seeClosed hk => exact hk
  | _ => cases hr

/-- A consumer has seen that no producer is inside when it comes to look for the last time. -/
theorem Move.sawDrained (h : Move call s k r k') (hr : Stage.after r = .sawDrained) :
    s = .sawClosed ∧ k.pending = 0 ∨ s = .sawDrained := by
  cases h with
  | seeDrained hk => exact .inl ⟨rfl, hk⟩
  | lookAgain => exact .inr rfl
  | _ => cases hr

/-- A pop is told that the queue is closed only when it finds no permit at its last look. -/
theorem Move.of_isEnd (h : Move call s k r k') (hs : s.Sound n call) {a : Answer α}
    (hr : r = .done a) (he : call.IsEnd a) : s = .sawDrained ∧ k.ready = 0 := by
  have hproducing : call.isProducing = false := by
    have := he.1
    cases call <;> simp_all [Call.isProducing, Call.isConsuming]
  cases h with
  | decline hd =>
    cases hr
    exact absurd he hd.notEnd
  | finished hk => exact ⟨rfl, hk⟩
  | leave hk | part =>
    have := hs.1
    rw [hproducing] at this
    cases this
  | giveUp hk hi =>
    cases hr
    cases he.2
  | faultTail h | faultWrite h | faultHead h | faultTake h | hand =>
    cases hr
    cases he.2
  | _ => cases hr

/-- An iteration ends only because the queue is closed. -/
theorem Move.isEnd_of_iter (h : Move .iter s k r k') (ha : ¬s.Aborts r) (hs : s.Sound n .iter)
    {a : Answer α} (hr : r = .done a) (hp : a.popped? = none) : Call.iter.IsEnd a := by
  cases h with
  | decline hd => exact absurd rfl hd.ne_iter
  | finished hk =>
    cases hr
    exact ⟨rfl, rfl⟩
  | giveUp hk hi => exact absurd rfl hi
  | leave hk | part => cases hs.1
  | hand =>
    cases hr
    cases hp
  | faultTail h | faultWrite h | faultHead h | faultTake h => exact absurd trivial ha
  | _ => cases hr

/-- What is admitted for good is moved in. -/
theorem Move.inEntry (h : Move call s k r k') (ha : ¬s.Aborts r) :
    s.inEntry call ++ (s.entered? call r).toList =
      (s.stored? r).toList ++ (Stage.after r).inEntry call := by
  cases h with
  | faultTail h | faultWrite h | faultHead h | faultTake h => exact absurd trivial ha
  | built hv =>
    show call.value?.toList ++ [] = [] ++ [_]
    rw [hv]
    rfl
  | unbuilt hv hd =>
    show call.value?.toList ++ [] = [] ++ []
    rw [hv]
    rfl
  | _ => rfl

/-- Permits for consumers are given out and taken one by one. -/
theorem Move.gives (h : Move call s k r k') (hb : k.free + k.ready + s.holds < Word.size) :
    k'.ready + (s.obtains r).toNat = k.ready + s.gives.toNat := by
  cases h with
  | give =>
    simp only [Stage.holds] at hb
    show Word.succ k.ready + 0 = k.ready + 1
    rw [Word.succ_eq (by omega)]
  | obtain hk | obtainLate hk =>
    show k.ready - 1 + 1 = k.ready + 0
    omega
  | _ => rfl

/-- A permit is given out for each element that was moved in, by the next step of its thread. -/
theorem Move.stored_length (h : Move call s k r k') :
    (s.stored? r).toList.length = (Stage.after r).gives.toNat := by
  cases h <;> rfl

end Moves

/-! ### The count of producers -/

namespace Machine

variable {q : Queue α} {programs : List (List (Call α))} {ds es : List (Deed α)}
  {start m n : Machine α} {d : Deed α} {disc : Discipline} {config : Config}
  {order : Side → Nat → Nat}

theorem census_le_length {f : Stage α → Nat} (hf : ∀ s, f s ≤ 1) :
    m.census f ≤ m.threads.length :=
  sum_range_le (fun _ => hf _) _

/-- **The count of producers is the number of those that are inside**, as long as there are fewer
threads than a word can count. -/
theorem Run.pending_eq (hq : create disc config order = .ok q) (hp : Respects disc programs)
    (hlen : programs.length < Word.size) (h : Run (launch q programs) ds m) :
    m.queue.pending = m.census Stage.counts := by
  induction h with
  | refl =>
    rw [census_launch rfl, launch, eq_of_create hq]
  | @step ds m n d c hr hs ih =>
    have hl := hr.leads hs
    have hcensus := hl.census Stage.counts
    have hle : d.stage.counts ≤ m.census Stage.counts := hl.stage ▸ le_census rfl d.thread
    have hmany : n.census Stage.counts < Word.size := by
      have := census_le_length (m := n) Stage.counts_le_one
      have := hl.length
      have := hr.sane.length
      omega
    have hmove : n.queue.pending + d.stage.counts =
        m.queue.pending + (Stage.after d.next).counts := by
      refine hl.move.pending (hr.not_aborts hq hp hs) ?_ ?_
      · show d.stage.counts ≤ m.queue.pending
        omega
      · show m.queue.pending + (Stage.after d.next).counts < Word.size + d.stage.counts
        omega
    omega

/-! ### Drained queues -/

/-- The queue is closed and no producer is admitted to it. -/
structure Drained (m : Machine α) : Prop where
  closed : m.queue.isOpen = false
  empty : ∀ t, (m.stage t).admitted = 0

/-- The queue is drained, and there is no permit for an element. -/
structure Final (m : Machine α) : Prop extends Drained m where
  ready : m.queue.size = 0

/-- Drained is for good. -/
theorem Leads.drained (h : Leads programs d m n) (hm : Drained m) : Drained n := by
  refine ⟨h.move.closed hm.closed, fun t => ?_⟩
  by_cases ht : t = d.thread
  · rw [ht, h.after]
    exact h.move.admitted_of_closed hm.closed (h.stage ▸ hm.empty d.thread)
  · rw [h.stage_other ht]
    exact hm.empty t

/-- Final is for good. -/
theorem Leads.final (h : Leads programs d m n) (hm : Final m) : Final n :=
  ⟨h.drained hm.toDrained,
    h.move.ready_of_admitted (h.stage ▸ hm.empty d.thread) hm.ready⟩

/-- When nobody is counted at a closed queue, nobody is admitted to it. -/
theorem Run.drained_of_pending (hq : create disc config order = .ok q)
    (hp : Respects disc programs) (hlen : programs.length < Word.size)
    (h : Run (launch q programs) ds m) (hclosed : m.queue.isOpen = false)
    (hpending : m.queue.pending = 0) : Drained m := by
  refine ⟨hclosed, fun t => ?_⟩
  have hcount : m.census Stage.counts = 0 := (h.pending_eq hq hp hlen).symm.trans hpending
  have hle : (m.stage t).counts ≤ m.census Stage.counts := le_census rfl t
  have := (m.stage t).admitted_le_counts
  omega

/-- **What a consumer has seen is so.** Before it asks for producers the queue is closed, and before
its last look it is drained. -/
theorem Run.saw (hq : create disc config order = .ok q) (hp : Respects disc programs)
    (hlen : programs.length < Word.size) (h : Run (launch q programs) ds m) (t : Nat) :
    (m.stage t = .sawClosed → m.queue.isOpen = false) ∧ (m.stage t = .sawDrained → Drained m) := by
  induction h with
  | refl =>
    rw [stage_launch]
    exact ⟨nofun, nofun⟩
  | @step ds m n d c hr hs ih =>
    have hl := hr.leads hs
    obtain ⟨hsawClosed, hsawDrained⟩ := ih
    by_cases ht : t = d.thread
    · subst ht
      rw [hl.stage] at hsawClosed hsawDrained
      rw [hl.after]
      refine ⟨fun hst => hl.move.closed (hl.move.sawClosed hst), fun hst => hl.drained ?_⟩
      rcases hl.move.sawDrained hst with ⟨hs', hpending⟩ | hs'
      · exact hr.drained_of_pending hq hp hlen (hsawClosed hs') hpending
      · exact hsawDrained hs'
    · rw [hl.stage_other ht]
      exact ⟨fun hst => hl.move.closed (hsawClosed hst), fun hst => hl.drained (hsawDrained hst)⟩

/-- **A pop that is told that the queue is closed finds it final.** -/
theorem Run.final_of_isEnd (hq : create disc config order = .ok q) (hp : Respects disc programs)
    (hlen : programs.length < Word.size) (h : Run (launch q programs) ds m) {c : Choice}
    (hs : m.act? c = some (d, n)) (hd : d.IsEnd) : Final m := by
  obtain ⟨a, ha, he⟩ := hd
  have hl := h.leads hs
  have hg := h.grounded hq
  obtain ⟨hstage, hready⟩ := hl.move.of_isEnd (hl.stage ▸ hg.stage _ _ hl.call) ha he
  exact ⟨(h.saw hq hp hlen d.thread).2 (hl.stage.trans hstage), hready⟩

/-- An iteration ends only with the answer that the queue is closed. -/
theorem Run.isEnd_of_endsIteration (hq : create disc config order = .ok q)
    (hp : Respects disc programs) (h : Run (launch q programs) ds m) {c : Choice}
    (hs : m.act? c = some (d, n)) (hd : d.EndsIteration) : d.IsEnd := by
  obtain ⟨hcall, a, ha, hpopped⟩ := hd
  have hl := h.leads hs
  have hg := h.grounded hq
  refine ⟨a, ha, ?_⟩
  have hmove := hl.move
  have hsound := hl.stage ▸ hg.stage _ _ hl.call
  rw [hcall] at hmove hsound ⊢
  exact hmove.isEnd_of_iter (h.not_aborts hq hp hs) hsound ha hpopped

/-! ### What comes after the end -/

/-- **Nothing is added to a final queue**, whatever its threads do. -/
theorem Final.run (hstart : Run (launch q programs) ds m) (hm : Final m) (h : Run m es n) :
    Final n ∧ ∀ e ∈ es, e.stored? = none ∧ e.gives = false ∧ e.entered? = none := by
  induction h with
  | refl => exact ⟨hm, fun e he => absurd he List.not_mem_nil⟩
  | @step es n n' d c hr hs ih =>
    obtain ⟨hfinal, hes⟩ := ih
    have hl := (hstart.trans hr).leads hs
    refine ⟨hl.final hfinal, fun e he => ?_⟩
    rcases List.mem_append.mp he with he | he
    · exact hes e he
    · rw [List.mem_singleton.mp he]
      exact hl.move.adds_nothing hfinal.closed (hl.stage ▸ hfinal.empty d.thread)

/-! ### Before the end -/

/-- What a thread was admitted for and has not moved in. -/
def inEntry (m : Machine α) (t : Nat) : List α :=
  m.inCall Stage.inEntry t

/-- **What a thread was admitted with for good** is what it has moved in and what it has still to
move in. -/
theorem Run.entered_eq (hq : create disc config order = .ok q) (hp : Respects disc programs)
    (h : Run (launch q programs) ds m) (t : Nat) :
    (deedsOf t ds).filterMap Deed.entered? =
      (deedsOf t ds).filterMap Deed.stored? ++ m.inEntry t :=
  h.inCall_eq (fun _ => rfl)
    (fun _ _ _ _ _ hr hs => (hr.leads hs).move.inEntry (hr.not_aborts hq hp hs)) t

/-- **Permits for consumers** are given out, ready, or taken. -/
theorem Run.gives_eq (hq : create disc config order = .ok q) (hp : Respects disc programs)
    (h : Run (launch q programs) ds m) :
    ds.countP Deed.gives = ds.countP Deed.obtains + m.queue.size := by
  induction h with
  | refl =>
    rw [launch, eq_of_create hq]
    rfl
  | @step ds m n d c hr hs ih =>
    have hl := hr.leads hs
    have hmove : n.queue.size + d.obtains.toNat = m.queue.size + d.gives.toNat :=
      hl.move.gives (hl.stage ▸ hr.permits_lt hq hp d.thread)
    have hone : ∀ p : Deed α → Bool, [d].countP p = (p d).toNat := by
      intro p
      cases hpd : p d <;> simp [hpd]
    rw [List.countP_append, List.countP_append, hone, hone]
    omega

/-- A permit is given out for every element that was moved in, but for those whose threads are about
to give it. -/
theorem Run.stored_length_eq (h : Run (launch q programs) ds m) :
    (ds.filterMap Deed.stored?).length =
      ds.countP Deed.gives + m.census fun s => s.gives.toNat := by
  induction h with
  | refl =>
    rw [census_launch rfl]
    rfl
  | @step ds m n d c hr hs ih =>
    have hl := hr.leads hs
    have hcensus := hl.census fun s => s.gives.toNat
    have hmove : d.stored?.toList.length = (Stage.after d.next).gives.toNat :=
      hl.move.stored_length
    have hone : [d].countP Deed.gives = d.stage.gives.toNat := by
      rw [List.countP_cons, List.countP_nil]
      show 0 + (if d.stage.gives = true then 1 else 0) = _
      cases d.stage.gives <;> rfl
    rw [filterMap_concat, List.length_append, List.countP_append, hone]
    omega

/-! ### Runs with an end -/

theorem Run.eq_of_nil (h : Run start [] m) : m = start := by
  generalize hds : ([] : List (Deed α)) = ds at h
  cases h with
  | refl => rfl
  | step c h hs => simp at hds

theorem Run.of_concat (h : Run start (ds ++ [d]) n) :
    ∃ m c, Run start ds m ∧ m.act? c = some (d, n) := by
  generalize hes : ds ++ [d] = es at h
  cases h with
  | refl => simp at hes
  | step c h hs =>
    obtain ⟨rfl, he⟩ := List.append_inj' hes rfl
    cases he
    exact ⟨_, c, h, hs⟩

theorem Run.of_append (h : Run start (ds ++ es) n) : ∃ m, Run start ds m ∧ Run m es n := by
  induction es using List.reverseRecOn generalizing n with
  | nil => exact ⟨n, List.append_nil ds ▸ h, .refl⟩
  | append_singleton es e ih =>
    rw [← List.append_assoc] at h
    obtain ⟨m', c, hr, hs⟩ := h.of_concat
    obtain ⟨m, hm, hes⟩ := ih hr
    exact ⟨m, hm, hes.step c hs⟩

/-- No call that puts an element in or takes one out is under way. -/
def Still (m : Machine α) : Prop :=
  ∀ thread ∈ m.threads, ∀ p, thread.point = some p →
    match p with
    | .producing _ | .consuming _ => False
    | .closing _ | .observing _ => True

theorem Still.outside (h : Still m) (t : Nat) : m.stage t = .outside := by
  rw [stage]
  cases ht : m.threads[t]? with
  | none => rfl
  | some thread =>
    rw [Option.elim_some, Thread.stage]
    cases hp : thread.point with
    | none => rfl
    | some p =>
      have hstill := h thread (List.mem_of_getElem? ht) p hp
      cases p with
      | producing p | consuming p => exact hstill.elim
      | closing p | observing p => rfl

/-- A storage without full slots holds no elements. -/
theorem contents_eq_zero {s : Storage α}
    (h : ∀ (i : Nat) (x : Slot α), s.slots[i]? = some x → x.isFull = false) : s.contents = 0 := by
  have hnil : s.slots.toList.filterMap (fun x => x.clear.1) = [] := by
    rw [List.filterMap_eq_nil_iff]
    intro x hx
    obtain ⟨i, hi⟩ := List.getElem?_of_mem hx
    have hfull := h i x (by rw [← hi, Array.getElem?_toList])
    have hphase : x.phase ≠ .full := by simpa [Slot.isFull] using hfull
    rw [Slot.clear, if_neg hphase]
  rw [Storage.contents, Storage.clear, hnil]
  rfl

/-- **Received is what was accepted**, when the queue is final and nobody is under way. -/
theorem Run.popped_eq_accepted (hq : create disc config order = .ok q)
    (hp : Respects disc programs) (h : Run (launch q programs) ds m) (hm : Final m)
    (hout : ∀ t, m.stage t = .outside) :
    (ds.filterMap Deed.popped? : Multiset α) = ds.filterMap Deed.accepted? := by
  have haccount := h.accepted_eq hq hp
  obtain ⟨-, hfull, -⟩ := h.window_of_outside hq hp hout
  have hcontents : m.queue.storage.contents = 0 := by
    refine contents_eq_zero fun i x hx => ?_
    cases hx' : x.isFull with
    | false => rfl
    | true =>
      obtain ⟨k, hk, -⟩ := (hfull i x hx).mp hx'
      rw [hm.ready] at hk
      cases hk
  have hstore : ∀ t, m.inStore t = [] := fun t => by
    rw [inStore, inCall, hout t]
    cases m.call? t <;> rfl
  have hhand : ∀ t, m.inHand t = [] := fun t => by
    rw [inHand, hout t]
    rfl
  simp only [hstore, hhand, hcontents, Multiset.coe_nil, Finset.sum_const_zero,
    Multiset.add_zero] at haccount
  exact haccount.symm

/-- What is to be said of a run with a deed at which the queue is finished. -/
structure Finished (before : List (Deed α)) (d : Deed α) (rest : List (Deed α))
    (m : Machine α) : Prop where
  /-- A pop was told that the queue is closed. -/
  isEnd : d.IsEnd
  /-- The queue had been closed. -/
  closed : d.queue.isOpen = false
  /-- Each thread had moved in all elements with which it had been admitted for good. -/
  published : ∀ t, (deedsOf t before).filterMap Deed.entered? =
    (deedsOf t before).filterMap Deed.stored?
  /-- For each of them a permit had been given out. -/
  given : before.countP Deed.gives = (before.filterMap Deed.stored?).length
  /-- Consumers had taken all these permits. -/
  obtained : before.countP Deed.obtains = before.countP Deed.gives
  /-- Nobody is admitted, nothing is moved in, and no permit is given out at any later point. -/
  later : ∀ e ∈ rest, e.stored? = none ∧ e.gives = false ∧ e.entered? = none
  /-- When no call that puts elements in or takes them out is under way any more, the elements that
  were received are those that were accepted. -/
  received : Still m → ((before ++ d :: rest).filterMap Deed.popped? : Multiset α) =
    (before ++ d :: rest).filterMap Deed.accepted?

/-- **A pop that is told that the queue is closed proves it finished**, and so does an iteration
that ends. The count of producers is a word, so there have to be fewer threads than it can count. -/
theorem Run.closed_is_final (hq : create disc config order = .ok q) (hp : Respects disc programs)
    (hlen : programs.length < Word.size) {before rest : List (Deed α)}
    (h : Run (launch q programs) (before ++ d :: rest) m) (hd : d.IsEnd ∨ d.EndsIteration) :
    Finished before d rest m := by
  obtain ⟨m₀, hbefore, hrest⟩ := h.of_append
  rw [← List.singleton_append] at hrest
  obtain ⟨m₁, hone, hlater⟩ := hrest.of_append
  rw [← List.nil_append [d]] at hone
  obtain ⟨m', c, hnil, hs⟩ := hone.of_concat
  cases hnil.eq_of_nil
  have hend : d.IsEnd := hd.elim id (hbefore.isEnd_of_endsIteration hq hp hs)
  have hl := hbefore.leads hs
  have hfinal := hbefore.final_of_isEnd hq hp hlen hs hend
  obtain ⟨hfinal', hnothing⟩ := (hl.final hfinal).run (hbefore.step c hs) hlater
  have hentry : ∀ t, m₀.inEntry t = [] := by
    intro t
    rw [inEntry, inCall]
    cases m₀.call? t with
    | none => rfl
    | some call =>
      have hempty := hfinal.empty t
      show (m₀.stage t).inEntry call = []
      cases hst : m₀.stage t <;> rw [hst] at hempty <;> first | rfl | cases hempty
  have hgives : m₀.census (fun s => s.gives.toNat) = 0 := by
    refine census_eq_zero fun t => ?_
    have hempty := hfinal.empty t
    cases hst : m₀.stage t <;> rw [hst] at hempty <;> first | rfl | cases hempty
  exact
    { isEnd := hend
      closed := by rw [hl.queue]; exact hfinal.closed
      published := fun t => by rw [hbefore.entered_eq hq hp, hentry, List.append_nil]
      given := by rw [hbefore.stored_length_eq, hgives, Nat.add_zero]
      obtained := by rw [hbefore.gives_eq hq hp, hfinal.ready, Nat.add_zero]
      later := hnothing
      received := fun hstill => h.popped_eq_accepted hq hp hfinal' hstill.outside }

/-- A run around one of its deeds. -/
theorem Run.around (h : Run start ds m) {i : Nat} (hd : ds[i]? = some d) :
    Run start (ds.take i ++ d :: ds.drop (i + 1)) m := by
  obtain ⟨hlt, rfl⟩ := List.getElem?_eq_some_iff.mp hd
  rwa [List.getElem_cons_drop, List.take_append_drop]

/-- Four threads on a queue of one slot, the second of which closes it. -/
def farewell : List (List (Call Nat)) :=
  [[.push 1 (.atMost .endless), .push 2 (.atMost .endless), .push 3 .never],
    [.emplace (.atMost .endless) true (.built 4), .emplace .never false (.raised "no"), .close],
    [.iter],
    [.pop .never, .pop (.atMost .endless), .pop .never]]

/-- Turns of four threads, of which two are faster than the others. -/
def hastyTurns (rounds : Nat) : List Choice :=
  (List.replicate rounds [0, 1, 2, 3, 1, 1, 3]).flatten.map fun t => { thread := t }

/-- The iteration of the third thread ends while the first thread still waits in its first push. -/
theorem closed_is_final_farewell :
    ∃ (q : Queue Nat) (d : Deed Nat), create .mpmc { capacity := 1 } (fun _ _ => 0) = .ok q ∧
      Respects .mpmc farewell ∧ farewell.length < Word.size ∧
      (trace (hastyTurns 30) (launch q farewell)).1[78]? = some d ∧ d.EndsIteration ∧
      Finished ((trace (hastyTurns 30) (launch q farewell)).1.take 78) d
        ((trace (hastyTurns 30) (launch q farewell)).1.drop 79)
        (trace (hastyTurns 30) (launch q farewell)).2 := by
  have hq : create (α := Nat) .mpmc { capacity := 1 } (fun _ _ => 0) = .ok _ := rfl
  refine ⟨_, _, hq, respects_mpmc farewell, by decide, rfl, ⟨rfl, _, rfl, rfl⟩, ?_⟩
  exact Run.closed_is_final hq (respects_mpmc farewell) (by decide)
    ((run_trace _ _).around rfl) (.inr ⟨rfl, _, rfl, rfl⟩)

end Machine

end PermitRing.Queue
