import PermitRing.Proofs.Index.Claims
import PermitRing.Proofs.Machine.Slots

/-!
# Positions are handed out in turn

Each side of a queue claims positions from an index of its own. A *ticket* is a position that an
index hands out, at the moment at which the index moves on. However the claims of several threads
interleave, the tickets of a side are `0, 1, …, N - 1` and then `0` again, and the index stands at
the next one. For an index that one thread at a time may claim this rests on its flag: it is set
exactly while one thread is inside a claim, so the position that this thread has read is the one
that it moves on from.

In a run that respects the discipline the flag is never found set by a second thread, and no call
ends in the middle.

## Main definitions

* `Stage.Sound`, `Core.Bounded` — positions are places of slots, and elements those of the call;
* `Deed.ticket?` — the position that a deed makes an index hand out;
* `Machine.Guarded` — who is inside the claims of a side.

## Main results

* `Machine.Run.turning` — the tickets of a side, and what comes next;
* `Machine.Run.not_aborts` — no call ends in the middle.
-/

namespace PermitRing

namespace Queue

variable {α : Type}

/-! ### Bounds -/

/-- The index of a side. -/
def Core.index (k : Core α) : Side → Index
  | .produce => k.tail
  | .consume => k.head

/-- There are `n` slots, and both indices stand at the place of one. -/
structure Core.Bounded (n : Nat) (k : Core α) : Prop where
  capacity : k.storage.capacity = n
  tail : k.tail.position < n
  head : k.head.position < n

/-- A thread holds the place of a slot and the element of its call. -/
def Stage.Sound (n : Nat) (call : Call α) : Stage α → Prop
  | .permitted | .counted | .building | .stored => call.isProducing = true
  | .tail v x => call.value? = some v ∧ x.Below n
  | .writing v i _ => call.value? = some v ∧ i < n
  | .returning a | .leaving a | .gone a => call.isProducing = true ∧ a.popped? = none
  | .head x => x.Below n
  | .taking i _ => i < n
  | _ => True

/-- A move keeps to the slots that there are. -/
theorem Move.sound {n : Nat} (hn : n < Word.size) {call : Call α} {s : Stage α} {k k' : Core α}
    {r : Progress (Stage α) (Answer α)} (h : Move call s k r k') (hk : k.Bounded n)
    (hs : s.Sound n call) : k'.Bounded n ∧ (Stage.after r).Sound n call := by
  have hcap := hk.capacity
  cases h with
  | claimTail h =>
    rw [hcap] at h
    obtain ⟨hx, hy, -⟩ := (Index.claims_of_step hn hs.2 h).below hs.2 hk.tail
    exact ⟨⟨hcap, hx, hk.head⟩, hs.1, hy _ rfl⟩
  | gainTail h =>
    rw [hcap] at h
    obtain ⟨hx, -, hi⟩ := (Index.claims_of_step hn hs.2 h).below hs.2 hk.tail
    exact ⟨⟨hcap, hx, hk.head⟩, hs.1, hi _ rfl⟩
  | faultTail h =>
    rw [hcap] at h
    exact ⟨⟨hcap, ((Index.claims_of_step hn hs.2 h).below hs.2 hk.tail).1, hk.head⟩, trivial⟩
  | claimHead h =>
    rw [hcap] at h
    obtain ⟨hx, hy, -⟩ := (Index.claims_of_step hn hs h).below hs hk.head
    exact ⟨⟨hcap, hk.tail, hx⟩, hy _ rfl⟩
  | gainHead h =>
    rw [hcap] at h
    obtain ⟨hx, -, hi⟩ := (Index.claims_of_step hn hs h).below hs hk.head
    exact ⟨⟨hcap, hk.tail, hx⟩, hi _ rfl⟩
  | faultHead h =>
    rw [hcap] at h
    exact ⟨⟨hcap, hk.tail, ((Index.claims_of_step hn hs h).below hs hk.head).1⟩, trivial⟩
  | write hs' h | take hs' h =>
    exact ⟨⟨(Storage.capacity_put _ _ _).trans hcap, hk.tail, hk.head⟩, hs⟩
  | store hs' h =>
    exact ⟨⟨(Storage.capacity_put _ _ _).trans hcap, hk.tail, hk.head⟩,
      Call.isProducing_of_value? hs.1⟩
  | vacate hs' h =>
    exact ⟨⟨(Storage.capacity_put _ _ _).trans hcap, hk.tail, hk.head⟩, trivial⟩
  | pass ho hv | built hv => exact ⟨hk, hv, trivial⟩
  | turnBack ho ha | unbuilt hv ha => exact ⟨hk, hs, ha.popped⟩
  | reserve hc h => exact ⟨⟨hcap, hk.tail, hk.head⟩, hc⟩
  | give => exact ⟨⟨hcap, hk.tail, hk.head⟩, hs, rfl⟩
  | enter | giveBack | leaveLast h => exact ⟨⟨hcap, hk.tail, hk.head⟩, hs⟩
  | build h | wake | wakeLast => exact ⟨hk, hs⟩
  | close h | leave h | obtain h | obtainLate h | release =>
    exact ⟨⟨hcap, hk.tail, hk.head⟩, trivial⟩
  | look | decline ha | faultWrite h | part | seeClosed h | seePending h | giveUp h
  | seeDrained h | lookAgain | finished h | faultTake h | rouse | hand => exact ⟨hk, trivial⟩

/-! ### Claims of a side -/

/-- Where the thread stands in a claim of the side, if it is in one. -/
def Stage.claiming? : Side → Stage α → Option Index.Claiming
  | .produce, .tail _ c => some c
  | .consume, .head c => some c
  | _, _ => none

/-- The position that a move makes the index of a side hand out. -/
def Stage.ticket? (x : Side) (s : Stage α) (r : Progress (Stage α) (Answer α)) : Option Nat :=
  match s.claiming? x, r with
  | some (.store old), .more _ => some old
  | some (.swap old), .more s' => if s'.claiming? x = none then some old else none
  | _, _ => none

/-- The position that a deed makes the index of a side hand out. -/
def Deed.ticket? (x : Side) (d : Deed α) : Option Nat :=
  d.stage.ticket? x d.next

/-- **What a move does to the index of a side.** It leaves the index alone, and its thread is in no
claim or comes to begin one; or it is a step of a claim. -/
theorem Move.index {n : Nat} (hn : n < Word.size) {call : Call α} {s : Stage α} {k k' : Core α}
    {r : Progress (Stage α) (Answer α)} (h : Move call s k r k') (hk : k.Bounded n)
    (hs : s.Sound n call) (x : Side) :
    (s.claiming? x = none ∧ k'.index x = k.index x ∧ s.ticket? x r = none ∧
        ∀ c, (Stage.after r).claiming? x = some c → c = .start) ∨
      ∃ c y, s.claiming? x = some c ∧ Index.Claims n c (k.index x) y (k'.index x) ∧
        s.ticket? x r = c.ticket? y ∧ (Stage.after r).claiming? x = Index.claimingAfter y := by
  have hcap := hk.capacity
  cases h with
  | claimTail h =>
    rw [hcap] at h
    cases x with
    | produce =>
      refine .inr ⟨_, _, rfl, Index.claims_of_step hn hs.2 h, ?_, rfl⟩
      cases Index.claims_of_step hn hs.2 h <;> rfl
    | consume => exact .inl ⟨rfl, rfl, rfl, nofun⟩
  | gainTail h =>
    rw [hcap] at h
    cases x with
    | produce =>
      refine .inr ⟨_, _, rfl, Index.claims_of_step hn hs.2 h, ?_, rfl⟩
      cases Index.claims_of_step hn hs.2 h <;> rfl
    | consume => exact .inl ⟨rfl, rfl, rfl, nofun⟩
  | faultTail h =>
    rw [hcap] at h
    cases x with
    | produce =>
      refine .inr ⟨_, _, rfl, Index.claims_of_step hn hs.2 h, ?_, rfl⟩
      cases Index.claims_of_step hn hs.2 h
      rfl
    | consume => exact .inl ⟨rfl, rfl, rfl, nofun⟩
  | claimHead h =>
    rw [hcap] at h
    cases x with
    | produce => exact .inl ⟨rfl, rfl, rfl, nofun⟩
    | consume =>
      refine .inr ⟨_, _, rfl, Index.claims_of_step hn hs h, ?_, rfl⟩
      cases Index.claims_of_step hn hs h <;> rfl
  | gainHead h =>
    rw [hcap] at h
    cases x with
    | produce => exact .inl ⟨rfl, rfl, rfl, nofun⟩
    | consume =>
      refine .inr ⟨_, _, rfl, Index.claims_of_step hn hs h, ?_, rfl⟩
      cases Index.claims_of_step hn hs h <;> rfl
  | faultHead h =>
    rw [hcap] at h
    cases x with
    | produce => exact .inl ⟨rfl, rfl, rfl, nofun⟩
    | consume =>
      refine .inr ⟨_, _, rfl, Index.claims_of_step hn hs h, ?_, rfl⟩
      cases Index.claims_of_step hn hs h
      rfl
  | pass | built | obtain | obtainLate =>
    refine .inl ?_
    cases x
    all_goals
      refine ⟨rfl, rfl, rfl, fun c hc => ?_⟩
      cases hc <;> rfl
  | _ => cases x <;> exact .inl ⟨rfl, rfl, rfl, nofun⟩

/-- The call takes part in the work of a side. -/
def Call.uses : Side → Call α → Bool
  | .produce, call => call.isProducing
  | .consume, call => call.isConsuming

theorem Point.Apt.uses {call : Call α} {p : Point α} (hp : p.Apt call) {x : Side}
    (hc : p.stage.claiming? x ≠ none) : call.uses x = true := by
  cases p with
  | producing p =>
    cases x with
    | produce => exact hp.1
    | consume =>
      refine absurd ?_ hc
      rcases p with _ | _ | _ | _ | _ | _ | _ | _ | _ | _ | _ | _ | ⟨_, _ | _ | _⟩ <;> rfl
  | consuming p =>
    cases x with
    | produce =>
      refine absurd ?_ hc
      rcases p with _ | _ | _ | _ | a | _ | _ | _ | _
      case wait => cases a <;> rfl
      all_goals rfl
    | consume => exact hp.1
  | closing p | observing p => cases x <;> exact absurd rfl hc

/-- A side with an index for one thread at a time is used by one thread. -/
theorem Machine.Respects.alone {disc : Discipline} {programs : List (List (Call α))}
    {config : Config} {order : Side → Nat → Nat} {q : Queue α} (h : Respects disc programs)
    (hq : create disc config order = .ok q) {x : Side} (hk : (q.core.index x).kind = .single)
    {s t : Nat} (hs : Makes (Call.uses x) programs s) (ht : Makes (Call.uses x) programs t) :
    s = t := by
  rw [eq_of_create hq] at hk
  cases x with
  | produce =>
    refine h.produce ?_ s t hs ht
    cases hm : disc.manyProducers with
    | false => rfl
    | true =>
      simp only [core, Core.index, indexKind, hm] at hk
      cases hk
  | consume =>
    refine h.consume ?_ s t hs ht
    cases hm : disc.manyConsumers with
    | false => rfl
    | true =>
      simp only [core, Core.index, indexKind, hm] at hk
      cases hk

/-- The move ends its call in the middle. -/
def Stage.Aborts : Stage α → Progress (Stage α) (Answer α) → Prop
  | .tail .., .done _ | .writing .., .done _ | .head .., .done _ | .taking .., .done _ => True
  | _, _ => False

/-- A call ends in the middle only if it finds another thread inside its claim. -/
theorem Move.of_aborts {n : Nat} (hn : n < Word.size) {call : Call α} {s : Stage α} {k k' : Core α}
    {r : Progress (Stage α) (Answer α)} (h : Move call s k r k') (hk : k.Bounded n)
    (hs : s.Sound n call) (ha : s.Aborts r) :
    ∃ x, s.claiming? x = some .start ∧ (k.index x).kind = .single ∧ (k.index x).busy = true := by
  have hcap := hk.capacity
  have hslot : ∀ i f, i < n → k.storage.slot i ≠ .error f := by
    intro i f hi he
    have hnone := Storage.slots_of_slot_error he
    rw [Array.getElem?_eq_none_iff] at hnone
    have : n ≤ i := hcap ▸ hnone
    omega
  cases h with
  | faultTail h =>
    rw [hcap] at h
    cases Index.claims_of_step hn hs.2 h with
    | busy hkind hb => exact ⟨.produce, rfl, hkind, hb⟩
  | faultHead h =>
    rw [hcap] at h
    cases Index.claims_of_step hn hs h with
    | busy hkind hb => exact ⟨.consume, rfl, hkind, hb⟩
  | faultWrite h => exact absurd h (hslot _ _ hs.2)
  | faultTake h => exact absurd h (hslot _ _ hs)
  | _ => exact ha.elim

/-- One if the thread is inside a claim of the side's single-writer index. -/
def Stage.inside (x : Side) (s : Stage α) : Nat :=
  Index.insideOf (s.claiming? x)

theorem Stage.inside_outside (x : Side) : (Stage.outside : Stage α).inside x = 0 := by
  cases x <;> rfl

namespace Machine

variable {q : Queue α} {programs : List (List (Call α))} {ds : List (Deed α)} {m n : Machine α}
  {d : Deed α} {size : Nat} {x : Side}

/-! ### Bounds in a run -/

/-- All positions are places of slots, and every thread brings the element of its call. -/
structure Grounded (size : Nat) (m : Machine α) : Prop where
  core : m.queue.core.Bounded size
  stage : ∀ t call, m.call? t = some call → (m.stage t).Sound size call

theorem Leads.grounded (hn : size < Word.size) (h : Leads programs d m n) (hg : Grounded size m) :
    Grounded size n := by
  obtain ⟨hcore, hsound⟩ := h.move.sound hn hg.core (h.stage ▸ hg.stage _ _ h.call)
  refine ⟨hcore, fun t call hc => ?_⟩
  by_cases ht : t = d.thread
  · subst ht
    rw [h.after]
    cases hnext : d.next with
    | done a => trivial
    | more s =>
      rw [h.call_more s hnext] at hc
      cases hc
      rwa [hnext] at hsound
  · rw [h.stage_other ht]
    rw [h.call_other ht] at hc
    exact hg.stage t call hc

/-! ### Who is inside the claims of a side -/

/-- The flag of an index is set exactly while a thread is inside its claim; that thread has read the
position at which the index stands. -/
structure Guarded (x : Side) (m : Machine α) : Prop where
  flag : m.census (Stage.inside x) = if (m.queue.core.index x).busy then 1 else 0
  single : (m.queue.core.index x).busy = true → (m.queue.core.index x).kind = .single
  swap : ∀ t old, (m.stage t).claiming? x = some (.swap old) →
    (m.queue.core.index x).kind = .shared
  store : ∀ t old, (m.stage t).claiming? x = some (.store old) →
    (m.queue.core.index x).position = old

theorem Guarded.census_le (h : Guarded x m) : m.census (Stage.inside x) ≤ 1 := by
  rw [h.flag]
  split <;> omega

/-- Two threads are never inside claims of one side. -/
theorem Guarded.alone (h : Guarded x m) {s t : Nat} (hs : (m.stage s).inside x = 1)
    (ht : (m.stage t).inside x = 1) : s = t := by
  by_contra hne
  have hle := add_le_census (f := Stage.inside x) (m := m) (Stage.inside_outside x) hne
  have := h.census_le
  omega

/-- A thread that is inside has set the flag. -/
theorem Guarded.busy (h : Guarded x m) {t : Nat} (ht : (m.stage t).inside x = 1) :
    (m.queue.core.index x).busy = true := by
  have hle := le_census (f := Stage.inside x) (m := m) (Stage.inside_outside x) t
  have hflag := h.flag
  cases hb : (m.queue.core.index x).busy with
  | true => rfl
  | false =>
    rw [hb, if_neg Bool.false_ne_true] at hflag
    omega

/-- The index is left alone, and the thread comes to be in no claim or at its start. -/
theorem Leads.guarded_of_idle (h : Leads programs d m n) (hx : Guarded x m)
    (hc : d.stage.claiming? x = none) (hindex : n.queue.core.index x = m.queue.core.index x)
    (hstart : ∀ c, (Stage.after d.next).claiming? x = some c → c = .start) : Guarded x n := by
  have hcensus := h.census (Stage.inside x)
  have hinside : (Stage.after d.next).inside x = 0 := by
    cases ha : (Stage.after d.next).claiming? x with
    | none => rw [Stage.inside, ha]; rfl
    | some c => cases hstart c ha; rw [Stage.inside, ha]; rfl
  have hkeep : ∀ t c, c ≠ .start → (n.stage t).claiming? x = some c →
      (m.stage t).claiming? x = some c := by
    intro t c hne ht
    by_cases htd : t = d.thread
    · subst htd
      rw [h.after] at ht
      exact absurd (hstart c ht) hne
    · rwa [h.stage_other htd] at ht
  rw [Stage.inside, hc, hinside] at hcensus
  refine ⟨?_, ?_, fun t old ht => ?_, fun t old ht => ?_⟩
  · rw [hindex, ← hx.flag]
    exact hcensus
  · rw [hindex]
    exact hx.single
  · rw [hindex]
    exact hx.swap t old (hkeep t _ nofun ht)
  · rw [hindex]
    exact hx.store t old (hkeep t _ nofun ht)

/-- The thread takes a step of its claim. -/
theorem Leads.guarded_of_claims {c : Index.Claiming}
    {y : Progress Index.Claiming (Except Fault Nat)}
    (h : Leads programs d m n) (hx : Guarded x m) (hc : d.stage.claiming? x = some c)
    (hclaims : Index.Claims size c (m.queue.core.index x) y (n.queue.core.index x))
    (hafter : (Stage.after d.next).claiming? x = Index.claimingAfter y) : Guarded x n := by
  have hcensus := h.census (Stage.inside x)
  rw [← h.after] at hafter hcensus
  rw [← h.stage] at hc hcensus
  have hstages : ∀ t c', (n.stage t).claiming? x = some c' →
      Index.claimingAfter y = some c' ∨ t ≠ d.thread ∧ (m.stage t).claiming? x = some c' := by
    intro t c' ht
    by_cases htd : t = d.thread
    · subst htd
      exact .inl (hafter ▸ ht)
    · exact .inr ⟨htd, h.stage_other htd ▸ ht⟩
  have hbusy : Index.insideOf (some c) = 1 → (m.queue.core.index x).busy = true := fun hin =>
    hx.busy (by rw [Stage.inside, hc]; exact hin)
  have hshared : ∀ old, c = .swap old → (m.queue.core.index x).kind = .shared := fun old he =>
    hx.swap d.thread old (he ▸ hc)
  refine ⟨?_, hclaims.single hx.single, fun t old ht => ?_, fun t old ht => ?_⟩
  · have hflag := hclaims.flag hbusy
    rw [Stage.inside, Stage.inside, hc, hafter, hx.flag] at hcensus
    omega
  · rcases hstages t _ ht with ha | ⟨-, ht⟩
    · exact hclaims.shared hshared ha
    · rw [hclaims.kind_eq]
      exact hx.swap t old ht
  · rcases hstages t _ ht with ha | ⟨htd, ht⟩
    · exact hclaims.position_read ha
    · -- while that thread is inside, nobody moves the index on
      have htin : (m.stage t).inside x = 1 := by rw [Stage.inside, ht]; rfl
      rw [hclaims.position_eq, hx.store t old ht]
      · by_contra hin
        have hone : (m.stage d.thread).inside x = 1 := by
          have := le_census (f := Stage.inside x) (m := m) (Stage.inside_outside x) d.thread
          have := hx.census_le
          rw [Stage.inside, hc] at *
          omega
        exact htd (hx.alone htin hone)
      · intro old' he
        have hsingle := hx.single (hx.busy htin)
        rw [hshared old' he] at hsingle
        cases hsingle

/-- **A deed keeps the claims of a side guarded.** -/
theorem Leads.guarded (hn : size < Word.size) (h : Leads programs d m n) (hg : Grounded size m)
    (hx : Guarded x m) : Guarded x n := by
  rcases h.move.index hn hg.core (h.stage ▸ hg.stage _ _ h.call) x with
    ⟨hc, hindex, -, hstart⟩ | ⟨c, y, hc, hclaims, -, hafter⟩
  · exact h.guarded_of_idle hx hc hindex hstart
  · exact h.guarded_of_claims hx hc hclaims hafter

/-! ### Runs -/

/-- The positions that the index of a side has handed out, in this order. -/
def tickets (x : Side) (ds : List (Deed α)) : List Nat :=
  ds.filterMap (Deed.ticket? x)

section Runs

variable {disc : Discipline} {config : Config} {order : Side → Nat → Nat}

theorem grounded_launch (hq : create disc config order = .ok q)
    (programs : List (List (Call α))) : Grounded config.capacity (launch q programs) := by
  obtain ⟨hpos, -⟩ := capacity_of_create hq
  refine ⟨?_, fun t call _ => by rw [stage_launch]; trivial⟩
  rw [launch, eq_of_create hq]
  exact ⟨Array.size_replicate, hpos, hpos⟩

theorem Run.grounded (hq : create disc config order = .ok q) (h : Run (launch q programs) ds m) :
    Grounded config.capacity m := by
  induction h with
  | refl => exact grounded_launch hq programs
  | step c hr hs ih => exact (hr.leads hs).grounded (capacity_of_create hq).2 ih

theorem guarded_launch (hq : create disc config order = .ok q) (programs : List (List (Call α)))
    (x : Side) : Guarded x (launch q programs) := by
  have hidle : ((launch q programs).queue.core.index x).busy = false := by
    rw [launch, eq_of_create hq]
    cases x <;> rfl
  have hout : ∀ t, ((launch q programs).stage t).claiming? x = none := fun t => by
    rw [stage_launch]
    cases x <;> rfl
  refine ⟨?_, fun hb => ?_, fun t old ht => ?_, fun t old ht => ?_⟩
  · rw [hidle, census_launch (Stage.inside_outside x)]
    rfl
  · rw [hidle] at hb
    cases hb
  · rw [hout t] at ht
    cases ht
  · rw [hout t] at ht
    cases ht

theorem Run.guarded (hq : create disc config order = .ok q) (h : Run (launch q programs) ds m)
    (x : Side) : Guarded x m := by
  induction h with
  | refl => exact guarded_launch hq programs x
  | step c hr hs ih =>
    exact (hr.leads hs).guarded (capacity_of_create hq).2 (hr.grounded hq) ih

/-- **The positions that a side hands out go round and round, and its index stands at the next
one.** -/
theorem Run.turning (hq : create disc config order = .ok q) (h : Run (launch q programs) ds m)
    (x : Side) :
    tickets x ds = (List.range (tickets x ds).length).map (· % config.capacity) ∧
      (m.queue.core.index x).position = (tickets x ds).length % config.capacity := by
  induction h with
  | refl =>
    refine ⟨rfl, ?_⟩
    rw [launch, eq_of_create hq]
    cases x <;> exact (Nat.zero_mod _).symm
  | @step ds m n d c hr hs ih =>
    obtain ⟨hturn, hpos⟩ := ih
    have hl := hr.leads hs
    have hg := hr.grounded hq
    have hsound := hl.stage ▸ hg.stage _ _ hl.call
    have htickets : tickets x (ds ++ [d]) = tickets x ds ++ (d.ticket? x).toList :=
      filterMap_concat _ _ _
    have key : d.ticket? x = none ∧
          (n.queue.core.index x).position = (m.queue.core.index x).position ∨
        d.ticket? x = some (m.queue.core.index x).position ∧ (n.queue.core.index x).position =
          ((m.queue.core.index x).position + 1) % config.capacity := by
      rcases hl.move.index (capacity_of_create hq).2 hg.core hsound x with
        ⟨-, hindex, hticket, -⟩ | ⟨c, y, hc, hclaims, hticket, -⟩
      · exact .inl ⟨hticket, by rw [hindex]⟩
      · rw [Deed.ticket?, hticket]
        refine hclaims.ticket fun old he => (hr.guarded hq x).store d.thread old ?_
        rw [hl.stage, hc, he]
    rcases key with ⟨hnone, hsame⟩ | ⟨hsome, hnext⟩
    · rw [htickets, hnone, hsame]
      simpa using ⟨hturn, hpos⟩
    · rw [htickets, hsome, hnext, hpos, Option.toList_some, List.length_append,
        List.length_singleton, List.range_succ, List.map_append, ← hturn]
      exact ⟨rfl, Nat.mod_add_mod _ _ _⟩

/-! ### Respected disciplines -/

theorem Run.kind_eq (hq : create disc config order = .ok q) (h : Run (launch q programs) ds m)
    (x : Side) : (m.queue.core.index x).kind = (q.core.index x).kind := by
  induction h with
  | refl => rfl
  | @step ds m n d c hr hs ih =>
    have hl := hr.leads hs
    have hg := hr.grounded hq
    have hsound := hl.stage ▸ hg.stage _ _ hl.call
    rw [← ih]
    rcases hl.move.index (capacity_of_create hq).2 hg.core hsound x with
      ⟨-, hindex, -, -⟩ | ⟨c, y, -, hclaims, -, -⟩
    · rw [hindex]
    · exact hclaims.kind_eq

/-- What a thread holds only inside calls that use a side, it holds only if it makes such calls. -/
theorem Run.makes_of_apt (h : Run (launch q programs) ds m) {x : Side} {P : Stage α → Prop}
    (hout : ¬P .outside) (hapt : ∀ call p, Point.Apt call p → P p.stage → call.uses x = true)
    {t : Nat} (ht : P (m.stage t)) : Makes (Call.uses x) programs t := by
  have hsane := h.sane
  cases hget : m.threads[t]? with
  | none =>
    rw [stage, hget] at ht
    exact absurd ht hout
  | some thread =>
    rw [stage, hget] at ht
    cases hp : thread.point with
    | none =>
      simp only [Option.elim, Thread.stage, hp] at ht
      exact absurd ht hout
    | some p =>
      simp only [Option.elim, Thread.stage, hp] at ht
      obtain ⟨call, calls, hcalls, hpoint⟩ := hsane.point t thread p hget hp
      obtain ⟨program, hprogram, hsub⟩ := hsane.calls t thread hget
      exact ⟨program, hprogram, call, hsub call (hcalls ▸ List.mem_cons_self), hapt _ _ hpoint ht⟩

/-- A thread that claims positions of a side makes calls that use the side. -/
theorem Run.makes (h : Run (launch q programs) ds m) {x : Side} {t : Nat}
    (ht : (m.stage t).claiming? x ≠ none) : Makes (Call.uses x) programs t :=
  h.makes_of_apt (P := fun s => s.claiming? x ≠ none) (by cases x <;> exact fun hn => hn rfl)
    (fun _ _ hapt hc => hapt.uses hc) ht

/-- **In a run that respects its discipline no call ends in the middle.** The thread that such a
call would have to find inside its claim would be a second one on a side that only one may use. -/
theorem Run.not_aborts (hq : create disc config order = .ok q) (hp : Respects disc programs)
    (h : Run (launch q programs) ds m) {c : Choice} (hs : m.act? c = some (d, n)) :
    ¬d.stage.Aborts d.next := by
  intro ha
  have hl := h.leads hs
  have hg := h.grounded hq
  obtain ⟨x, hstart, hkind, hbusy⟩ := hl.move.of_aborts (capacity_of_create hq).2 hg.core
    (hl.stage ▸ hg.stage _ _ hl.call) ha
  have hflag := (h.guarded hq x).flag
  rw [hbusy, if_pos rfl] at hflag
  obtain ⟨t, ht⟩ : ∃ t, (m.stage t).inside x ≠ 0 :=
    exists_of_census_ne_zero (hflag ▸ Nat.one_ne_zero)
  rw [← hl.stage] at hstart
  have hne : t ≠ d.thread := by
    rintro rfl
    rw [Stage.inside, hstart] at ht
    exact ht rfl
  have hinside : (m.stage t).claiming? x ≠ none := by
    intro hnone
    rw [Stage.inside, hnone] at ht
    exact ht rfl
  rw [h.kind_eq hq x] at hkind
  exact hne (hp.alone hq hkind (h.makes hinside) (h.makes (by rw [hstart]; nofun)))

end Runs

end Machine

end Queue

end PermitRing
