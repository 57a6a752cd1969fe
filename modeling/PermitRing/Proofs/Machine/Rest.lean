import PermitRing.Proofs.Machine.Order
import PermitRing.Proofs.Machine.Vigil

/-!
# When no thread can get on

A thread cannot get on if it sleeps and nobody has roused it, or if it tries to claim a slot that is
not as it needs it; that its time limit may pass, or that it may try in vain once more, is no way of
getting on. When this holds of all threads that have not finished, the queue is at rest, unless it
is in a deadlock.

There is none. Nobody waits at a slot: a producer would be two rounds ahead of the consumers there,
and a consumer ahead of the producers. So all sleep, and those on watch for the permits and the
sleepers of a side are the sleepers themselves. This leaves no permit for which one of them could
have been woken, and since nobody is about to rouse all, their waiting makes sense.

## Main definitions

* `Machine.isEnabled`, `Stuck` — whether a thread can get on, and whether none can;
* `Machine.AtRest` — what is to be said of a state in which none can.

## Main results

* `Machine.Run.not_stalls` — when no thread can get on, nobody waits at a slot;
* `Machine.Run.waits_of_stuck` — and nobody sleeps in vain;
* `Machine.Run.atRest_of_stuck` — no deadlock, and no lost wake.
-/

namespace PermitRing.Queue

variable {α : Type}

/-! ### Steps that are taken -/

/-- The thread tries to claim a slot, and cannot. -/
def Deed.waits (d : Deed α) : Bool :=
  match d.point, d.result with
  | .producing (.write _ _ (.claim _)), .more (.producing (.write _ _ (.claim _))) => true
  | .consuming (.take _ (.claim _)), .more (.consuming (.take _ (.claim _))) => true
  | _, _ => false

theorem Deed.waits_cases {d : Deed α} (h : d.waits = true) :
    (∃ v i b v' i' b', d.point = .producing (.write v i (.claim b)) ∧
      d.result = .more (.producing (.write v' i' (.claim b')))) ∨
    ∃ i b i' b', d.point = .consuming (.take i (.claim b)) ∧
      d.result = .more (.consuming (.take i' (.claim b'))) := by
  obtain ⟨t, call, point, q, r⟩ := d
  simp only [Deed.waits] at h
  split at h
  · exact .inl ⟨_, _, _, _, _, _, rfl, rfl⟩
  · exact .inr ⟨_, _, _, _, rfl, rfl⟩
  · cases h

/-- The point at which a thread sleeps in the parker of a side. -/
def Point.asleep : Side → Point α
  | .produce => .producing (.wait .asleep)
  | .consume => .consuming (.wait .asleep)

theorem Point.post_asleep (x y : Side) :
    (Point.asleep x : Point α).post y = if x = y then .asleep else .aside := by
  cases x <;> cases y <;> rfl

theorem Point.stage_asleep (x : Side) : (Point.asleep x : Point α).stage = .outside := by
  cases x <;> rfl

theorem Call.first_ne_asleep (call : Call α) (x : Side) : call.first ≠ .asleep x := by
  cases call <;> cases x <;> nofun

/-- The thread waits at a slot that is not as it needs it. -/
def Stage.Stalls (s : Storage α) : Stage α → Prop
  | .writing _ i (.claim _) => ∃ x, s.slots[i]? = some x ∧ x.phase ≠ .empty
  | .taking i (.claim _) => ∃ x, s.slots[i]? = some x ∧ x.phase ≠ .full
  | _ => False

section Steps

variable {call : Call α} {c : Choice} {p : Point α} {q q' : Queue α}
  {r : Progress (Point α) (Answer α)}

namespace Stage.Stalls

variable {s : Stage α} {st : Storage α} {i : Nat} {x : Slot α}

theorem cases (h : s.Stalls st) :
    (∃ v i b x, s = .writing v i (.claim b) ∧ st.slots[i]? = some x ∧ x.phase ≠ .empty) ∨
      ∃ i b x, s = .taking i (.claim b) ∧ st.slots[i]? = some x ∧ x.phase ≠ .full := by
  rcases s with _ | _ | _ | _ | _ | _ | _ | ⟨v, i, b | _ | _⟩ | _ | _ | _ | _ | _ |
    ⟨i, b | _ | _⟩ | _ | _
  all_goals first | exact h.elim | obtain ⟨x, hx, hphase⟩ := h
  · exact .inl ⟨v, i, b, x, rfl, hx, hphase⟩
  · exact .inr ⟨i, b, x, rfl, hx, hphase⟩

theorem tenancy (h : s.Stalls st) (i : Nat) : s.tenancy i = 0 := by
  obtain ⟨v, j, b, y, rfl, -⟩ | ⟨j, b, y, rfl, -⟩ := h.cases <;> rfl

/-- Nobody waits at an empty slot to fill it. -/
theorem filling (h : s.Stalls st) (hx : st.slots[i]? = some x) (he : x.phase = .empty) :
    s.filling i = 0 := by
  obtain ⟨v, j, b, y, rfl, hy, hphase⟩ | ⟨j, b, y, rfl, -⟩ := h.cases
  · refine if_neg fun hj => hphase ?_
    rw [hj, hx] at hy
    cases hy
    exact he
  · rfl

/-- Nobody waits at a full slot to fetch what is in it. -/
theorem fetching (h : s.Stalls st) (hx : st.slots[i]? = some x) (he : x.phase = .full) :
    s.fetching i = 0 := by
  obtain ⟨v, j, b, y, rfl, -⟩ | ⟨j, b, y, rfl, hy, hphase⟩ := h.cases
  · rfl
  · refine if_neg fun hj => hphase ?_
    rw [hj, hx] at hy
    cases hy
    exact he

end Stage.Stalls

/-- A claim of a slot fails only where the slot is not as it has to be, unless it fails without
cause. -/
theorem Deed.stalls {d : Deed α} (hw : d.waits = true) (hc : c.spurious = false)
    (h : d.point.step d.call c d.queue = some (d.result, q')) :
    d.stage.Stalls d.queue.storage := by
  obtain ⟨v, i, b, v', i', b', hpoint, hresult⟩ | ⟨i, b, i', b', hpoint, hresult⟩ :=
    Deed.waits_cases hw
  all_goals rw [hpoint, hresult] at h
  · obtain ⟨job, -, h⟩ := Option.bind_eq_some_iff.mp h
    obtain ⟨⟨r, q''⟩, hs, he⟩ := Option.map_eq_some_iff.mp h
    rw [Deed.stage, hpoint]
    simp only [Producing.step] at hs
    split at hs
    · cases hs
      cases he
    · rename_i x hx
      refine ⟨x, Storage.slots_of_slot hx, fun hphase => ?_⟩
      simp only [Slot.Writing.step, Slot.claimWrite?, hphase, hc, Bool.false_eq_true, if_false,
        if_true] at hs
      cases hs
      cases he
  · obtain ⟨⟨r, q''⟩, hs, he⟩ := Option.map_eq_some_iff.mp h
    rw [Deed.stage, hpoint]
    simp only [Consuming.step] at hs
    split at hs
    · cases hs
      cases he
    · rename_i x hx
      refine ⟨x, Storage.slots_of_slot hx, fun hphase => ?_⟩
      simp only [Slot.Taking.step, Slot.claimRead?, hphase, hc, Bool.false_eq_true, if_false,
        if_true] at hs
      cases hs
      cases he

theorem Awaiting.asleep_of_step {x : Side} {limit : Patience} {a : Awaiting}
    (h : a.step x limit c q = none) :
    a = .asleep ∧ (q.permits x).parker.isAsleep c.thread = true := by
  cases a with
  | asleep =>
    refine ⟨rfl, ?_⟩
    by_contra hn
    simp only [Awaiting.step, if_neg hn] at h
    cases h
  | askOpen e =>
    simp only [Awaiting.step] at h
    split at h
    · cases h
    · cases x <;> cases h
  | deadline e | sleep e =>
    simp only [Awaiting.step] at h
    split at h <;> cases h
  | _ => cases h

theorem Producing.asleep_of_step {job : Job α} {p : Producing α}
    (hproper : (Point.producing p).Proper call) (h : p.step call.wait job c q = none) :
    p = .wait .asleep ∧ (q.permits .produce).parker.isAsleep c.thread = true := by
  cases p with
  | wait a =>
    simp only [Producing.step] at h
    split at h
    · rename_i hw
      exact absurd hw (hproper a rfl).1
    · obtain ⟨rfl, hs⟩ := Awaiting.asleep_of_step (Option.map_eq_none_iff.mp h)
      exact ⟨rfl, hs⟩
  | checkOpen | recheck =>
    simp only [Producing.step] at h
    split at h
    · cases h
    · split at h <;> cases h
  | construct | claim v x | finish a f =>
    simp only [Producing.step] at h
    split at h <;> cases h
  | write v i w =>
    simp only [Producing.step] at h
    split at h
    · cases h
    · split at h <;> cases h
  | _ => cases h

theorem Consuming.asleep_of_step {p : Consuming α} (hproper : (Point.consuming p).Proper call)
    (h : p.step call.wait c q = none) :
    p = .wait .asleep ∧ (q.permits .consume).parker.isAsleep c.thread = true := by
  cases p with
  | wait a =>
    simp only [Consuming.step] at h
    split at h
    · rename_i hw
      exact absurd hw (hproper a rfl)
    · obtain ⟨rfl, hs⟩ := Awaiting.asleep_of_step (Option.map_eq_none_iff.mp h)
      exact ⟨rfl, hs⟩
  | claim x =>
    simp only [Consuming.step] at h
    split at h <;> cases h
  | take i t =>
    simp only [Consuming.step] at h
    split at h
    · cases h
    · split at h <;> cases h
  | _ => cases h

/-- **A thread that can take no step sleeps.** -/
theorem Point.asleep_of_step (hp : p.Apt call) (hproper : p.Proper call)
    (h : p.step call c q = none) :
    ∃ x, p = .asleep x ∧ (q.permits x).parker.isAsleep c.thread = true := by
  cases p with
  | producing p =>
    have hjob : ∃ job, call.job? = some job := by
      have hc := hp.1
      cases call <;> first | exact ⟨_, rfl⟩ | cases hc
    obtain ⟨job, hjob⟩ := hjob
    simp only [Point.step, hjob, Option.bind_some] at h
    obtain ⟨rfl, hs⟩ := Producing.asleep_of_step hproper (Option.map_eq_none_iff.mp h)
    exact ⟨.produce, rfl, hs⟩
  | consuming p =>
    obtain ⟨rfl, hs⟩ := Consuming.asleep_of_step hproper (Option.map_eq_none_iff.mp h)
    exact ⟨.consume, rfl, hs⟩
  | closing p | observing p => cases h

/-- After each step of closing the queue it is closed. -/
theorem Closing.closed_of_step {p : Closing} (h : p ≠ .swap → q.isOpen = false) :
    (p.step q).2.isOpen = false := by
  cases p with
  | swap =>
    cases ho : q.isOpen with
    | true => simp only [Closing.step, ho, if_true]
    | false => simp only [Closing.step, ho, Bool.false_eq_true, if_false]
  | wakeConsumers w =>
    obtain ⟨k, ⟨w', hs⟩ | hs⟩ := stepWaking_cases .consume true w q Closing.wakeConsumers
      (.more (.wakeProducers .bump) : Progress Closing (Answer α))
    all_goals
      rw [Closing.step, hs]
      exact h (by simp)
  | wakeProducers w =>
    obtain ⟨k, ⟨w', hs⟩ | hs⟩ := stepWaking_cases .produce true w q Closing.wakeProducers
      (.done .done : Progress Closing (Answer α))
    all_goals
      rw [Closing.step, hs]
      exact h (by simp)

theorem Point.closed_of_step {p : Closing} (hp : p ≠ .swap → q.isOpen = false)
    (h : (Point.closing p).step call c q = some (r, q')) : q'.isOpen = false := by
  have hq' : (p.step q).2 = q' := by
    simp only [Point.step, Option.some.injEq] at h
    cases hs : p.step q with
    | mk r' q'' =>
      rw [hs] at h
      cases r' <;> cases h <;> rfl
  rw [← hq']
  exact p.closed_of_step hp

theorem Point.closing_of_step {p' : Closing}
    (h : p.step call c q = some (.more (.closing p'), q')) : ∃ p₀, p = .closing p₀ := by
  cases p with
  | producing p =>
    obtain ⟨job, -, h⟩ := Option.bind_eq_some_iff.mp h
    obtain ⟨⟨_ | _, q''⟩, -, he⟩ := Option.map_eq_some_iff.mp h <;> cases he
  | consuming p =>
    obtain ⟨⟨_ | _, q''⟩, -, he⟩ := Option.map_eq_some_iff.mp h <;> cases he
  | closing p => exact ⟨p, rfl⟩
  | observing p =>
    simp only [Point.step, Option.some.injEq] at h
    cases hs : p.step q with
    | mk r q'' =>
      rw [hs] at h
      cases r <;> cases h

end Steps

namespace Machine

variable {q : Queue α} {programs : List (List (Call α))} {ds : List (Deed α)} {m n : Machine α}
  {d : Deed α} {disc : Discipline} {config : Config} {order : Side → Nat → Nat}

/-! ### Threads that cannot get on -/

/-- The thread with a number can get on: it can take a step for which no time limit has to pass, and
which is no failing attempt on a slot. -/
def isEnabled (m : Machine α) (t : Nat) : Bool :=
  (m.act? { thread := t }).any fun r => !r.1.waits

/-- No thread can get on. -/
def Stuck (m : Machine α) : Prop :=
  ∀ t, m.isEnabled t = false

theorem stuck_iff : m.Stuck ↔ ∀ t < m.threads.length, m.isEnabled t = false := by
  refine ⟨fun h t _ => h t, fun h t => ?_⟩
  by_cases ht : t < m.threads.length
  · exact h t ht
  · rw [isEnabled, act?, List.getElem?_eq_none (Nat.le_of_not_lt ht)]
    rfl

instance : Decidable m.Stuck :=
  decidable_of_iff _ stuck_iff.symm

/-- The thread with a number fell asleep in the parker of the side, and nobody has roused it. -/
def Sleeps (x : Side) (m : Machine α) (t : Nat) : Prop :=
  (∃ thread, m.threads[t]? = some thread ∧ thread.point = some (.asleep x)) ∧
    (m.queue.permits x).parker.isAsleep t = true

/-- The thread with a number has finished its calls, if there is such a thread at all. -/
def Ended (m : Machine α) (t : Nat) : Prop :=
  ∀ thread, m.threads[t]? = some thread → thread.isFinished = true

/-- **A thread that cannot get on** has finished, sleeps, or waits at a slot. -/
theorem Run.cases_of_isEnabled (h : Run (launch q programs) ds m) {t : Nat}
    (henabled : m.isEnabled t = false) :
    m.Ended t ∨ (∃ x, m.Sleeps x t) ∨ (m.stage t).Stalls m.queue.storage := by
  cases ht : m.threads[t]? with
  | none => exact .inl fun thread hthread => by cases ht.symm.trans hthread
  | some thread =>
    cases hcs : thread.calls with
    | nil =>
      refine .inl fun thread' hthread => ?_
      cases ht.symm.trans hthread
      rw [Thread.isFinished, hcs]
      rfl
    | cons call calls =>
      have hapt := h.sane.apt ht hcs
      have hproper := h.proper ht hcs
      cases hs : (thread.point.getD call.first).step call { thread := t } m.queue with
      | none =>
        obtain ⟨x, hpoint, hasleep⟩ := Point.asleep_of_step hapt hproper hs
        refine .inr (.inl ⟨x, ⟨thread, ht, ?_⟩, hasleep⟩)
        cases hp : thread.point with
        | none =>
          rw [hp] at hpoint
          exact absurd hpoint (call.first_ne_asleep x)
        | some p =>
          rw [hp] at hpoint
          exact congrArg some hpoint
      | some r =>
        obtain ⟨r, q'⟩ := r
        have hact : m.act? { thread := t } = some (⟨t, call, thread.point.getD call.first, m.queue,
            r⟩, ⟨q', m.threads.set t (thread.after call calls r)⟩) := by
          simp only [Machine.act?, ht, hcs, hs, Option.bind_some, Option.map_some]
        rw [isEnabled, hact, Option.any_some, Bool.not_eq_false'] at henabled
        have hstalls := Deed.stalls henabled rfl hs
        rw [← (h.leads hact).stage] at hstalls
        exact .inr (.inr hstalls)

/-- A thread that has finished stands nowhere. -/
theorem Run.point_of_ended (h : Run (launch q programs) ds m) {t : Nat} (ht : m.Ended t)
    {thread : Thread α} (hthread : m.threads[t]? = some thread) : thread.point = none := by
  cases hp : thread.point with
  | none => rfl
  | some p =>
    obtain ⟨call, calls, hcs, -⟩ := h.sane.point t thread p hthread hp
    have hfinished := ht thread hthread
    rw [Thread.isFinished, hcs] at hfinished
    cases hfinished

/-- A thread that cannot get on holds nothing, unless it waits at a slot. -/
theorem Run.stage_of_isEnabled (h : Run (launch q programs) ds m) {t : Nat}
    (henabled : m.isEnabled t = false) :
    m.stage t = .outside ∨ (m.stage t).Stalls m.queue.storage := by
  rcases h.cases_of_isEnabled henabled with hended | ⟨x, ⟨thread, ht, hpoint⟩, -⟩ | hstalls
  · refine .inl ?_
    rw [stage]
    cases hthread : m.threads[t]? with
    | none => rfl
    | some thread =>
      rw [Option.elim_some, Thread.stage, h.point_of_ended hended hthread]
      rfl
  · refine .inl ?_
    rw [stage, ht, Option.elim_some, Thread.stage, hpoint, Option.elim_some, Point.stage_asleep]
  · exact .inr hstalls

/-! ### Nobody waits at a slot -/

theorem count_turns_le {j k : Nat} (h : j ≤ k) (n i : Nat) :
    ((List.range j).map (· % n)).count i ≤ ((List.range k).map (· % n)).count i :=
  ((List.range_sublist.mpr h).map _).count_le i

theorem count_turns_add_le (k n i : Nat) :
    ((List.range (k + n)).map (· % n)).count i ≤ ((List.range k).map (· % n)).count i + 1 := by
  have hnodup : ((List.range n).map ((· % n) ∘ (k + ·))).Nodup := by
    refine (List.pairwise_map.mpr ?_)
    refine List.pairwise_lt_range.imp_of_mem fun ha hb hlt => ?_
    exact Storage.add_mod_ne hlt (List.mem_range.mp hb)
  rw [List.range_add, List.map_append, List.count_append, List.map_map]
  exact Nat.add_le_add_left (List.nodup_iff_count_le_one.mp hnodup i) _

/-- **At one slot the producers are ahead of the consumers**, but not by more than one. -/
theorem Run.count_tickets (hq : create disc config order = .ok q) (hp : Respects disc programs)
    (h : Run (launch q programs) ds m) (i : Nat) :
    (tickets .consume ds).count i ≤ (tickets .produce ds).count i ∧
      (tickets .produce ds).count i ≤ (tickets .consume ds).count i + 1 := by
  obtain ⟨hlower, hupper⟩ := h.claimants_le hq hp
  rw [length_placed, length_claimants, length_claimants] at hlower hupper
  rw [(h.turning hq .produce).1, (h.turning hq .consume).1]
  refine ⟨count_turns_le (by omega) _ _, ?_⟩
  exact (count_turns_le (by omega) _ _).trans (count_turns_add_le _ _ _)

/-- Where a producer waits for a full slot a consumer is on its way there. -/
theorem Run.fetching_pos (hq : create disc config order = .ok q) (hp : Respects disc programs)
    (h : Run (launch q programs) ds m) {t i : Nat} {x : Slot α}
    (hx : m.queue.storage.slots[i]? = some x) (hfull : x.phase = .full)
    (ht : (m.stage t).filling i = 1) : 0 < m.census (Stage.fetching i) := by
  have hvisits := h.visits_eq hq hp hx
  obtain ⟨-, hupper⟩ := h.count_tickets hq hp i
  have hfullness : fullness x = 1 := by rw [fullness, hfull]; rfl
  have hle : (m.stage t).filling i ≤ m.census (Stage.filling i) := le_census rfl t
  omega

/-- Where a consumer waits for an empty slot a producer is on its way there. -/
theorem Run.filling_pos (hq : create disc config order = .ok q) (hp : Respects disc programs)
    (h : Run (launch q programs) ds m) {t i : Nat} {x : Slot α}
    (hx : m.queue.storage.slots[i]? = some x) (hempty : x.phase = .empty)
    (ht : (m.stage t).fetching i = 1) : 0 < m.census (Stage.filling i) := by
  have hvisits := h.visits_eq hq hp hx
  obtain ⟨hlower, -⟩ := h.count_tickets hq hp i
  have hfullness : fullness x = 0 := by rw [fullness, hempty]; rfl
  have hle : (m.stage t).fetching i ≤ m.census (Stage.fetching i) := le_census rfl t
  omega

/-- When no thread can get on, a count of threads is one of those that wait at slots. -/
theorem Run.census_of_stuck {M : Type} [AddCommMonoid M] {f : Stage α → M}
    (h : Run (launch q programs) ds m) (hstuck : m.Stuck) (hout : f .outside = 0)
    (hf : ∀ s : Stage α, s.Stalls m.queue.storage → f s = 0) : m.census f = 0 :=
  census_eq_zero fun t => by
    rcases h.stage_of_isEnabled (hstuck t) with hs | hs
    · rw [hs, hout]
    · exact hf _ hs

/-- When no thread can get on, nobody is inside a slot. -/
theorem Run.phase_of_stuck (hq : create disc config order = .ok q)
    (h : Run (launch q programs) ds m) (hstuck : m.Stuck) {i : Nat} {x : Slot α}
    (hx : m.queue.storage.slots[i]? = some x) : x.phase = .empty ∨ x.phase = .full := by
  have hnone : m.census (Stage.tenancy i) = 0 :=
    h.census_of_stuck hstuck rfl fun s hs => hs.tenancy i
  exact Slot.phase_of_tenants ((h.tenanted hq i x hx).1.symm.trans hnone)

/-- **When no thread can get on, nobody waits at a slot.** A producer there would be two rounds
ahead of the consumers, and a consumer there would be ahead of the producers. -/
theorem Run.not_stalls (hq : create disc config order = .ok q) (hp : Respects disc programs)
    (h : Run (launch q programs) ds m) (hstuck : m.Stuck) (t : Nat) :
    ¬(m.stage t).Stalls m.queue.storage := by
  intro hstalls
  obtain ⟨v, i, b, x, hst, hx, hphase⟩ | ⟨i, b, x, hst, hx, hphase⟩ := hstalls.cases
  · have hfull := (h.phase_of_stuck hq hstuck hx).resolve_left hphase
    have hpos := h.fetching_pos (t := t) hq hp hx hfull (by rw [hst]; exact if_pos rfl)
    rw [h.census_of_stuck hstuck rfl fun s hs => hs.fetching hx hfull] at hpos
    exact Nat.lt_irrefl 0 hpos
  · have hempty := (h.phase_of_stuck hq hstuck hx).resolve_right hphase
    have hpos := h.filling_pos (t := t) hq hp hx hempty (by rw [hst]; exact if_pos rfl)
    rw [h.census_of_stuck hstuck rfl fun s hs => hs.filling hx hempty] at hpos
    exact Nat.lt_irrefl 0 hpos

/-- **A thread that cannot get on has finished or sleeps.** -/
theorem Run.still_of_stuck (hq : create disc config order = .ok q) (hp : Respects disc programs)
    (h : Run (launch q programs) ds m) (hstuck : m.Stuck) (t : Nat) :
    m.Ended t ∨ ∃ x, m.Sleeps x t := by
  rcases h.cases_of_isEnabled (hstuck t) with hended | hsleeps | hstalls
  · exact .inl hended
  · exact .inr hsleeps
  · exact absurd hstalls (h.not_stalls hq hp hstuck t)

theorem Run.outside_of_stuck (hq : create disc config order = .ok q)
    (hp : Respects disc programs) (h : Run (launch q programs) ds m) (hstuck : m.Stuck) (t : Nat) :
    m.stage t = .outside :=
  (h.stage_of_isEnabled (hstuck t)).resolve_right (h.not_stalls hq hp hstuck t)

/-! ### Who sleeps, and why -/

theorem Run.post_of_stuck (hq : create disc config order = .ok q) (hp : Respects disc programs)
    (h : Run (launch q programs) ds m) (hstuck : m.Stuck) (x : Side) (t : Nat) :
    m.post x t = .aside ∨
      m.post x t = .asleep ∧ (m.queue.permits x).parker.isAsleep t = true := by
  rcases h.still_of_stuck hq hp hstuck t with hended | ⟨y, ⟨thread, ht, hpoint⟩, hasleep⟩
  · refine .inl ?_
    rw [post]
    cases hthread : m.threads[t]? with
    | none => rfl
    | some thread =>
      rw [Option.elim_some, h.point_of_ended hended hthread]
      rfl
  · rw [post, ht, Option.elim_some, hpoint, Option.elim_some, Point.post_asleep]
    by_cases hy : y = x
    · subst hy
      exact .inr ⟨if_pos rfl, hasleep⟩
    · exact .inl (if_neg hy)

/-- When no thread can get on, those on watch are those on the list of sleepers. -/
theorem Run.alert_le (hq : create disc config order = .ok q) (hp : Respects disc programs)
    (h : Run (launch q programs) ds m) (hstuck : m.Stuck) (x : Side) :
    m.tally x Post.alert ≤ (m.queue.permits x).parker.sleepers.length := by
  have hposts := h.post_of_stuck hq hp hstuck x
  calc m.tally x Post.alert
      = ((Finset.range m.threads.length).filter fun t => m.post x t = .asleep).card := by
        rw [Finset.card_filter]
        refine Finset.sum_congr rfl fun t _ => ?_
        rcases hposts t with hpost | ⟨hpost, -⟩ <;> rw [hpost] <;> rfl
    _ ≤ ((m.queue.permits x).parker.sleepers.map Parker.Sleeper.thread).toFinset.card := by
        refine Finset.card_le_card fun t ht => List.mem_toFinset.mpr (List.mem_map.mpr ?_)
        have hpost := (Finset.mem_filter.mp ht).2
        rcases hposts t with hnone | ⟨-, hasleep⟩
        · rw [hnone] at hpost
          cases hpost
        · simpa [Parker.isAsleep] using hasleep
    _ ≤ (m.queue.permits x).parker.sleepers.length :=
        (List.toFinset_card_le _).trans_eq (List.length_map _)

/-- **Nobody sleeps in vain.** When no thread can get on and somebody sleeps, there is no permit,
and waiting makes sense. -/
theorem Run.waits_of_stuck (hq : create disc config order = .ok q) (hp : Respects disc programs)
    (hlen : programs.length < Word.size) (h : Run (launch q programs) ds m) (ht : Timely ds)
    (hstuck : m.Stuck) {x : Side} (hs : (m.queue.permits x).parker.sleepers ≠ []) :
    (m.queue.permits x).count = 0 ∧ m.queue.isOver x = false := by
  have hattended := h.attended hq hp hlen ht x
  constructor
  · have henough := hattended.enough hs
    have halert := h.alert_le hq hp hstuck x
    omega
  · rw [← Bool.not_eq_true]
    intro hover
    have hcalling : m.tally x Post.calling = 0 := Finset.sum_eq_zero fun t _ => by
      rcases h.post_of_stuck hq hp hstuck x t with hpost | ⟨hpost, -⟩ <;> rw [hpost] <;> rfl
    have hpos := hattended.calling hs hover
    omega

/-! ### After the queue was closed -/

/-- **After each step of closing the queue it is closed.** -/
theorem Run.closed_of_closing (h : Run (launch q programs) ds m) {c : Choice}
    (hs : m.act? c = some (d, n)) {p : Closing} (hd : d.point = .closing p) :
    n.queue.isOpen = false := by
  have hkeep {ds : List (Deed α)} {m n : Machine α} {d : Deed α} {c : Choice}
      (h : Run (launch q programs) ds m) (hs : m.act? c = some (d, n)) :
      m.queue.isOpen = false → n.queue.isOpen = false := (h.leads hs).move.closed
  have hstep {m n : Machine α} {d : Deed α} {c : Choice} (hs : m.act? c = some (d, n))
      {p : Closing} (hd : d.point = .closing p) (hp : p ≠ .swap → m.queue.isOpen = false) :
      n.queue.isOpen = false := by
    have h := act?_step hs
    rw [hd] at h
    exact Point.closed_of_step hp h
  refine hstep hs hd ?_
  have hpoint := h.at_deed (P := fun m _ p => ∀ p', p = .closing p' → p' ≠ .swap →
      m.queue.isOpen = false) ?_ ?_ ?_ hs
  · exact hpoint p hd
  · intro m call p' hp' hswap
    cases call <;> cases hp'
    exact absurd rfl hswap
  · intro ds m n d c call p hr hs hpoint p' hp' hswap
    exact hkeep hr hs (hpoint p' hp' hswap)
  · rintro ds m n d c p hr hs hpoint hr' p' rfl -
    obtain ⟨p₀, hp₀⟩ := Point.closing_of_step (hr' ▸ act?_step hs)
    exact hstep hs hp₀ (hpoint p₀ hp₀)

/-- After a deed of a call to close the queue it is closed. -/
theorem Run.closed_of_mem (h : Run (launch q programs) ds m) (hd : d ∈ ds)
    (hcall : d.call = .close) : m.queue.isOpen = false := by
  induction h with
  | refl => cases hd
  | @step ds m n d' c hr hs ih =>
    rcases List.mem_append.mp hd with hd | hd
    · exact (hr.leads hs).move.closed (ih hd)
    · cases List.mem_singleton.mp hd
      have hclosing : ∃ p, d.point = .closing p := by
        obtain ⟨thread, call, calls, ht, hcs, r, q', -, rfl, rfl⟩ := act?_cases hs
        cases hcall
        exact (hr.proper ht hcs).closing (hr.sane.apt ht hcs)
      obtain ⟨p, hp⟩ := hclosing
      exact hr.closed_of_closing hs hp

/-! ### Rest -/

/-- What is to be said of a state in which no thread can get on. -/
structure AtRest (ds : List (Deed α)) (m : Machine α) : Prop where
  /-- Every thread has finished or sleeps. -/
  still : ∀ t, m.Ended t ∨ ∃ x, m.Sleeps x t
  /-- A producer sleeps only while the queue is open and there is no permit for it. -/
  produce : (m.queue.permits .produce).parker.sleepers ≠ [] →
    m.queue.isOpen = true ∧ m.queue.free = 0
  /-- A consumer sleeps only while the queue is open and there is no element for it. -/
  consume : (m.queue.permits .consume).parker.sleepers ≠ [] →
    m.queue.isOpen = true ∧ m.queue.size = 0
  /-- Producers and consumers do not sleep at the same time. -/
  apart : (m.queue.permits .produce).parker.sleepers = [] ∨
    (m.queue.permits .consume).parker.sleepers = []
  /-- Nobody sleeps after a call to close the queue has returned. -/
  closed : (∃ d ∈ ds, d.call = .close ∧ ∃ a, d.result = .done a) →
    ∀ x, (m.queue.permits x).parker.sleepers = []

/-- **No wake is lost.** When no thread can get on, those that have not finished sleep, and they
sleep for a reason. The count of producers and those of threads that are parked are words, so there
have to be fewer threads than they can count. -/
theorem Run.atRest_of_stuck (hq : create disc config order = .ok q) (hp : Respects disc programs)
    (hlen : programs.length < Word.size) (h : Run (launch q programs) ds m) (ht : Timely ds)
    (hstuck : m.Stuck) : AtRest ds m := by
  have hout := h.outside_of_stuck hq hp hstuck
  have hproduce : (m.queue.permits .produce).parker.sleepers ≠ [] →
      m.queue.isOpen = true ∧ m.queue.free = 0 := by
    intro hs
    obtain ⟨hcount, hover⟩ := h.waits_of_stuck hq hp hlen ht hstuck hs
    exact ⟨by simpa [isOver, isClosed] using hover, hcount⟩
  have hconsume : (m.queue.permits .consume).parker.sleepers ≠ [] →
      m.queue.isOpen = true ∧ m.queue.size = 0 := by
    intro hs
    obtain ⟨hcount, hover⟩ := h.waits_of_stuck hq hp hlen ht hstuck hs
    have hpending : m.queue.pending = 0 := by
      rw [h.pending_eq hq hp hlen]
      exact census_eq_zero fun t => by rw [hout]; rfl
    exact ⟨by simpa [isOver, isDrained, hpending] using hover, hcount⟩
  refine
    { still := h.still_of_stuck hq hp hstuck
      produce := hproduce
      consume := hconsume
      apart := ?_
      closed := ?_ }
  · by_contra hboth
    obtain ⟨hnp, hnc⟩ := not_or.mp hboth
    have hpermits := h.permits_eq hq hp
    have hholds : m.census Stage.holds = 0 := census_eq_zero fun t => by rw [hout]; rfl
    have hpos := (capacity_of_create hq).1
    have hfree := (hproduce hnp).2
    have hsize := (hconsume hnc).2
    omega
  · rintro ⟨d, hd, hcall, -⟩ x
    have hclosed := h.closed_of_mem hd hcall
    by_contra hs
    have hopen : m.queue.isOpen = true := by
      cases x with
      | produce => exact (hproduce hs).1
      | consume => exact (hconsume hs).1
    rw [hclosed] at hopen
    cases hopen

/-- A consumer and a producer on a queue of one slot. -/
def siesta : List (List (Call Nat)) :=
  [[.pop (.atMost .endless)],
    [.push 1 (.atMost .endless), .push 2 (.atMost .endless), .push 3 (.atMost .endless)]]

/-- Turns of two threads, one after the other. -/
def evenTurns (rounds : Nat) : List Choice :=
  (List.replicate rounds [0, 1]).flatten.map fun t => { thread := t }

/-- After some rounds the consumer sleeps. The producer wakes it, and sleeps itself at the end,
because the queue is open and full. -/
theorem atRest_siesta :
    ∃ q : Queue Nat, create .mpmc { capacity := 1 } (fun _ _ => 0) = .ok q ∧
      Respects .mpmc siesta ∧ siesta.length < Word.size ∧
      (trace (evenTurns 8) (launch q siesta)).2.Sleeps .consume 0 ∧
      Timely (trace (evenTurns 52) (launch q siesta)).1 ∧
      (trace (evenTurns 52) (launch q siesta)).2.Stuck ∧
      (trace (evenTurns 52) (launch q siesta)).2.Ended 0 ∧
      (trace (evenTurns 52) (launch q siesta)).2.Sleeps .produce 1 ∧
      AtRest (trace (evenTurns 52) (launch q siesta)).1
        (trace (evenTurns 52) (launch q siesta)).2 := by
  have hq : create (α := Nat) .mpmc { capacity := 1 } (fun _ _ => 0) = .ok _ := rfl
  have hrest := Run.atRest_of_stuck hq (respects_mpmc siesta) (by decide)
    (run_trace (evenTurns 52) _) (timely_of_length_le (by decide)) (by decide)
  exact ⟨_, hq, respects_mpmc siesta, by decide, ⟨⟨_, rfl, rfl⟩, by decide⟩,
    timely_of_length_le (by decide), by decide, fun thread h => by cases h; rfl,
    ⟨⟨_, rfl, rfl⟩, by decide⟩, hrest⟩

end Machine

end PermitRing.Queue
