import PermitRing.Proofs.Machine.Rest

/-!
# Waiting at slots

A producer that has claimed a position may find its slot not empty yet, and a consumer may find its
slot not full. Both then try again and again, and since threads may stand still after a claim while
the others go once around the ring, several threads of both sides may be at one slot at a time. The
permits say that each of them will get its turn, but not which thread it waits for.

That thread is at the same slot. If nobody is inside a full slot and a producer waits there, then
more producers than consumers were sent to the slot in vain, so a consumer is on its way to it; and
it has even left its claim of the position. For a consumer that is alone in its claim has handed
back all permits but the one that it holds, so no producer is sent to its slot once more. The same
holds of a consumer that waits for an empty slot. So wherever threads are at a slot, one of them can
get on.

## Main definitions

* `Stage.slot?` — the slot that a thread is at;
* `Machine.Unjammed` — what is to be said of the threads at slots.

## Main results

* `Machine.Run.taking_of_full`, `writing_of_empty` — whom a thread at a slot waits for;
* `Machine.unjammed` — the threads at one slot never wait only for each other.
-/

namespace PermitRing.Queue

variable {α : Type}

/-- The slot that the thread is at: it has claimed the position, and it is about to claim the slot
or is inside it. -/
def Stage.slot? : Stage α → Option Nat
  | .writing _ i _ | .taking i _ => some i
  | _ => none

section Stages

variable {s : Stage α} {i : Nat}

/-- A thread that is about to fill a slot is at it, unless it is still in its claim. -/
theorem Stage.cases_of_filling (h : s.filling i ≠ 0) :
    (∃ v w, s = .writing v i w) ∨ ∃ v, s = .tail v (.leave i) := by
  cases s with
  | tail v x =>
    cases x with
    | leave j => exact .inr ⟨v, by rw [of_not_not fun hj => h (if_neg hj)]⟩
    | _ => exact absurd rfl h
  | writing v j w => exact .inl ⟨v, w, by rw [of_not_not fun hj => h (if_neg hj)]⟩
  | _ => exact absurd rfl h

/-- A thread that is about to fetch what is in a slot is at it, unless it is still in its claim. -/
theorem Stage.cases_of_fetching (h : s.fetching i ≠ 0) :
    (∃ b, s = .taking i (.claim b)) ∨ s = .head (.leave i) := by
  cases s with
  | head x =>
    cases x with
    | leave j => exact .inr (by rw [of_not_not fun hj => h (if_neg hj)])
    | _ => exact absurd rfl h
  | taking j t =>
    cases t with
    | claim b => exact .inl ⟨b, by rw [of_not_not fun hj => h (if_neg hj)]⟩
    | _ => exact absurd rfl h
  | _ => exact absurd rfl h

theorem Stage.slot?_of_tenancy (h : s.tenancy i ≠ 0) : s.slot? = some i := by
  cases s with
  | writing v j w =>
    by_contra hj
    exact h (tenancy_writing_of_ne (fun he => hj (congrArg some he)) v w)
  | taking j t =>
    by_contra hj
    exact h (tenancy_taking_of_ne (fun he => hj (congrArg some he)) t)
  | _ => exact absurd rfl h

theorem Stage.filling_le (s : Stage α) (i : Nat) : s.filling i ≤ s.holding .produce := by
  by_cases h : s.filling i = 0
  · exact h ▸ Nat.zero_le _
  · obtain ⟨v, w, rfl⟩ | ⟨v, rfl⟩ := cases_of_filling h
    all_goals exact (if_pos rfl).le

theorem Stage.fetching_le (s : Stage α) (i : Nat) : s.fetching i ≤ s.holding .consume := by
  by_cases h : s.fetching i = 0
  · exact h ▸ Nat.zero_le _
  · obtain ⟨b, rfl⟩ | rfl := cases_of_fetching h
    all_goals exact (if_pos rfl).le

end Stages

namespace Machine

variable {q : Queue α} {programs : List (List (Call α))} {ds : List (Deed α)} {m : Machine α}
  {disc : Discipline} {config : Config} {order : Side → Nat → Nat}

/-! ### Threads inside a slot -/

/-- A slot that is neither empty nor full shows the thread that is inside it. -/
theorem Tenanted.exists_tenant (h : Tenanted m) {i : Nat} {x : Slot α}
    (hx : m.queue.storage.slots[i]? = some x) (hempty : x.phase ≠ .empty)
    (hfull : x.phase ≠ .full) : ∃ s, (m.stage s).tenancy i ≠ 0 := by
  refine exists_of_census_ne_zero fun hnone => ?_
  have htenants : x.tenants = 0 := (h i x hx).1.symm.trans hnone
  exact (Slot.phase_of_tenants htenants).elim hempty hfull

/-- Nobody is inside an empty slot. -/
theorem Tenanted.tenancy_of_empty (h : Tenanted m) {i : Nat} {x : Slot α}
    (hx : m.queue.storage.slots[i]? = some x) (hempty : x.phase = .empty) (t : Nat) :
    (m.stage t).tenancy i = 0 := by
  have htenants : x.tenants = 0 := by
    obtain ⟨phase, cell⟩ := x
    cases hempty
    rfl
  exact nonpos_iff_eq_zero.mp (htenants ▸ (h.fits t hx).tenancy)

/-! ### Threads that are still in a claim -/

/-- A thread with a position that is still in its claim is alone on its side, and its position is
the last one that was handed out there. -/
theorem Run.last_of_leave (hq : create disc config order = .ok q) (hp : Respects disc programs)
    (h : Run (launch q programs) ds m) {x : Side} {t i : Nat}
    (ht : (m.stage t).claiming? x = some (.leave i)) (hb : (m.stage t).bound? x = some i) :
    m.census (Stage.holding x) ≤ 1 ∧
      ∃ k, k + 1 = (claimants x ds).length ∧ k % config.capacity = i := by
  have hguarded := h.guarded hq x
  have hbusy := hguarded.busy (t := t) (by rw [Stage.inside, ht]; rfl)
  have hkind := hguarded.single hbusy
  rw [h.kind_eq hq x] at hkind
  have hsolo : Solo x ds := h.solo hq hp fun s hs =>
    hp.alone hq hkind hs (h.makes (ht ▸ Option.some_ne_none _))
  obtain ⟨k, hk, hki⟩ := (h.ranked hq hp).bound x t i hb
  exact ⟨h.census_holding_le hq hp hsolo, k,
    h.pledged_last hq hp hsolo ⟨t, hb ▸ Option.some_ne_none _, hk⟩, hki⟩

theorem count_turns_succ (k n : Nat) :
    ((List.range (k + 1)).map (· % n)).count (k % n) =
      ((List.range k).map (· % n)).count (k % n) + 1 := by
  rw [List.range_succ, List.map_append, List.count_append, List.map_singleton,
    List.count_singleton_self]

/-- **A producer that waits for a full slot waits for a consumer that is at it.** -/
theorem Run.taking_of_full (hq : create disc config order = .ok q) (hp : Respects disc programs)
    (h : Run (launch q programs) ds m) {t i : Nat} {x : Slot α}
    (hx : m.queue.storage.slots[i]? = some x) (hfull : x.phase = .full)
    (ht : (m.stage t).filling i = 1) : ∃ s b, m.stage s = .taking i (.claim b) := by
  have hpos := h.fetching_pos hq hp hx hfull ht
  obtain ⟨s, hs⟩ := exists_of_census_ne_zero hpos.ne'
  obtain ⟨b, hs⟩ | hs := Stage.cases_of_fetching hs
  · exact ⟨s, b, hs⟩
  · -- it would be the only consumer, and no producer gets its position before it is done
    exfalso
    obtain ⟨hone, k, hk, hki⟩ := h.last_of_leave (x := .consume) (t := s) (i := i) hq hp
      (by rw [hs]; rfl) (by rw [hs]; rfl)
    obtain ⟨-, hupper⟩ := h.claimants_le hq hp
    rw [length_placed, length_claimants, length_claimants] at hupper
    rw [length_claimants] at hk
    have hbound : 1 ≤ m.census (Stage.bound .consume) :=
      (Stage.one_le_bound (by rw [hs]; exact Option.some_ne_none _)).trans (le_census rfl s)
    have hfetching : m.census (Stage.fetching i) ≤ 1 :=
      (Finset.sum_le_sum fun t _ => (m.stage t).fetching_le i).trans hone
    have hfilling : (m.stage t).filling i ≤ m.census (Stage.filling i) := le_census rfl t
    have hfullness : fullness x = 1 := by rw [fullness, hfull]; rfl
    have hvisits := h.visits_eq hq hp hx
    have hproduce : (tickets .produce ds).count i ≤ (tickets .consume ds).count i := by
      rw [(h.turning hq .produce).1, (h.turning hq .consume).1, ← hk, ← hki, count_turns_succ]
      exact (count_turns_le (by omega) _ _).trans (count_turns_add_le k _ _)
    omega

/-- **A consumer that waits for an empty slot waits for a producer that is at it.** -/
theorem Run.writing_of_empty (hq : create disc config order = .ok q) (hp : Respects disc programs)
    (h : Run (launch q programs) ds m) {t i : Nat} {x : Slot α}
    (hx : m.queue.storage.slots[i]? = some x) (hempty : x.phase = .empty)
    (ht : (m.stage t).fetching i = 1) : ∃ s v b, m.stage s = .writing v i (.claim b) := by
  have hpos := h.filling_pos hq hp hx hempty ht
  obtain ⟨s, hs⟩ := exists_of_census_ne_zero hpos.ne'
  obtain ⟨v, w, hs⟩ | ⟨v, hs⟩ := Stage.cases_of_filling hs
  · have hnone := (h.tenanted hq).tenancy_of_empty hx hempty s
    rw [hs] at hnone
    cases w with
    | claim b => exact ⟨s, v, b, hs⟩
    | place | publish => simp [Stage.tenancy] at hnone
  · -- it would be the only producer, and no consumer gets its position before it is done
    exfalso
    obtain ⟨hone, k, hk, hki⟩ := h.last_of_leave (x := .produce) (t := s) (i := i) hq hp
      (by rw [hs]; rfl) (by rw [hs]; rfl)
    obtain ⟨hlower, -⟩ := h.claimants_le hq hp
    rw [length_placed, length_claimants, length_claimants] at hlower
    rw [length_claimants] at hk
    have hbound : 1 ≤ m.census (Stage.bound .produce) :=
      (Stage.one_le_bound (by rw [hs]; exact Option.some_ne_none _)).trans (le_census rfl s)
    have hfilling : m.census (Stage.filling i) ≤ 1 :=
      (Finset.sum_le_sum fun t _ => (m.stage t).filling_le i).trans hone
    have hfetching : (m.stage t).fetching i ≤ m.census (Stage.fetching i) := le_census rfl t
    have hfullness : fullness x = 0 := by rw [fullness, hempty]; rfl
    have hvisits := h.visits_eq hq hp hx
    have hproduce : (tickets .consume ds).count i + 1 ≤ (tickets .produce ds).count i := by
      rw [(h.turning hq .produce).1, (h.turning hq .consume).1, ← hk, ← hki, count_turns_succ]
      exact Nat.add_le_add_right (count_turns_le (by omega) _ _) 1
    omega

/-! ### Threads at one slot -/

/-- The slot of a thread that is at one is there. -/
theorem Run.exists_slot (hq : create disc config order = .ok q) (h : Run (launch q programs) ds m)
    {t i : Nat} (ht : (m.stage t).slot? = some i) :
    ∃ x, m.queue.storage.slots[i]? = some x := by
  have hg := h.grounded hq
  have hcall : ∃ call, m.call? t = some call := by
    cases hget : m.threads[t]? with
    | none =>
      rw [stage, hget] at ht
      cases ht
    | some thread =>
      rw [stage, hget, Option.elim_some, Thread.stage] at ht
      cases hpoint : thread.point with
      | none =>
        rw [hpoint] at ht
        cases ht
      | some p =>
        obtain ⟨call, calls, hcs, -⟩ := h.sane.point t thread p hget hpoint
        exact ⟨call, by rw [call?, hget, Option.bind_some, hcs, List.head?_cons]⟩
  obtain ⟨call, hcall⟩ := hcall
  have hsound := hg.stage t call hcall
  refine hg.exists_slot ?_
  cases hs : m.stage t with
  | writing v j w =>
    rw [hs] at ht hsound
    cases ht
    exact hsound.2
  | taking j w =>
    rw [hs] at ht hsound
    cases ht
    exact hsound
  | _ =>
    rw [hs] at ht
    cases ht

/-- **What a producer at a slot waits for.** -/
theorem Run.cases_of_writing (hq : create disc config order = .ok q) (hp : Respects disc programs)
    (h : Run (launch q programs) ds m) {t i : Nat} {v : α} {b : Backoff}
    (ht : m.stage t = .writing v i (.claim b)) :
    ∃ x, m.queue.storage.slots[i]? = some x ∧
      (x.phase = .empty ∨ (∃ s, (m.stage s).tenancy i ≠ 0) ∨
        x.phase = .full ∧ ∃ s b', m.stage s = .taking i (.claim b')) := by
  obtain ⟨x, hx⟩ := h.exists_slot (t := t) (i := i) hq (by rw [ht]; rfl)
  refine ⟨x, hx, ?_⟩
  by_cases hempty : x.phase = .empty
  · exact .inl hempty
  by_cases hfull : x.phase = .full
  · refine .inr (.inr ⟨hfull, h.taking_of_full (t := t) hq hp hx hfull ?_⟩)
    rw [ht]
    exact if_pos rfl
  · exact .inr (.inl ((h.tenanted hq).exists_tenant hx hempty hfull))

/-- **What a consumer at a slot waits for.** -/
theorem Run.cases_of_taking (hq : create disc config order = .ok q) (hp : Respects disc programs)
    (h : Run (launch q programs) ds m) {t i : Nat} {b : Backoff}
    (ht : m.stage t = .taking i (.claim b)) :
    ∃ x, m.queue.storage.slots[i]? = some x ∧
      (x.phase = .full ∨ (∃ s, (m.stage s).tenancy i ≠ 0) ∨
        x.phase = .empty ∧ ∃ s v b', m.stage s = .writing v i (.claim b')) := by
  obtain ⟨x, hx⟩ := h.exists_slot (t := t) (i := i) hq (by rw [ht]; rfl)
  refine ⟨x, hx, ?_⟩
  by_cases hfull : x.phase = .full
  · exact .inl hfull
  by_cases hempty : x.phase = .empty
  · refine .inr (.inr ⟨hempty, h.writing_of_empty (t := t) hq hp hx hempty ?_⟩)
    rw [ht]
    exact if_pos rfl
  · exact .inr (.inl ((h.tenanted hq).exists_tenant hx hempty hfull))

/-- **Of the threads at one slot there is one that does not wait.** -/
theorem Run.exists_not_stalls (hq : create disc config order = .ok q) (hp : Respects disc programs)
    (h : Run (launch q programs) ds m) {t i : Nat} (ht : (m.stage t).slot? = some i) :
    ∃ s, (m.stage s).slot? = some i ∧ ¬(m.stage s).Stalls m.queue.storage := by
  have htenant {s : Nat} (hs : (m.stage s).tenancy i ≠ 0) :
      ∃ s, (m.stage s).slot? = some i ∧ ¬(m.stage s).Stalls m.queue.storage :=
    ⟨s, Stage.slot?_of_tenancy hs, fun hn => hs (hn.tenancy i)⟩
  by_cases hstalls : (m.stage t).Stalls m.queue.storage
  · obtain ⟨v, j, b, x, hst, hx, hphase⟩ | ⟨j, b, x, hst, hx, hphase⟩ := hstalls.cases
    all_goals
      rw [hst] at ht
      cases ht
    · obtain ⟨y, hy, hempty | ⟨s, hs⟩ | ⟨hfull, s, b', hs⟩⟩ := h.cases_of_writing hq hp hst
      all_goals cases hx.symm.trans hy
      · exact absurd hempty hphase
      · exact htenant hs
      · refine ⟨s, by rw [hs]; rfl, ?_⟩
        rw [hs]
        rintro ⟨z, hz, hne⟩
        cases hx.symm.trans hz
        exact hne hfull
    · obtain ⟨y, hy, hfull | ⟨s, hs⟩ | ⟨hempty, s, v, b', hs⟩⟩ := h.cases_of_taking hq hp hst
      all_goals cases hx.symm.trans hy
      · exact absurd hfull hphase
      · exact htenant hs
      · refine ⟨s, by rw [hs]; rfl, ?_⟩
        rw [hs]
        rintro ⟨z, hz, hne⟩
        cases hx.symm.trans hz
        exact hne hempty
  · exact ⟨t, ht, hstalls⟩

/-- A thread at a slot can get on, unless it waits there. -/
theorem Run.isEnabled_of_slot (h : Run (launch q programs) ds m) {t i : Nat}
    (ht : (m.stage t).slot? = some i) (hs : ¬(m.stage t).Stalls m.queue.storage) :
    m.isEnabled t = true := by
  by_contra hn
  rcases h.stage_of_isEnabled (Bool.eq_false_iff.mpr hn) with hout | hstalls
  · rw [hout] at ht
    cases ht
  · exact hs hstalls

/-- What is to be said of the threads at slots. -/
structure Unjammed (m : Machine α) : Prop where
  /-- Where a producer waits for its slot to become empty, it is empty, or some thread is inside it,
  or some consumer has claimed the position and has yet to claim the slot. -/
  writer : ∀ t v i b, m.stage t = .writing v i (.claim b) →
    ∃ x, m.queue.storage.slots[i]? = some x ∧
      (x.phase = .empty ∨ (∃ s, (m.stage s).tenancy i ≠ 0) ∨
        ∃ s b', m.stage s = .taking i (.claim b'))
  /-- Where a consumer waits for its slot to become full, it is full, or some thread is inside it,
  or some producer has claimed the position and has yet to claim the slot. -/
  taker : ∀ t i b, m.stage t = .taking i (.claim b) →
    ∃ x, m.queue.storage.slots[i]? = some x ∧
      (x.phase = .full ∨ (∃ s, (m.stage s).tenancy i ≠ 0) ∨
        ∃ s v b', m.stage s = .writing v i (.claim b'))
  /-- If threads are at a slot, one of them can get on. -/
  enabled : ∀ i, (∃ t, (m.stage t).slot? = some i) →
    ∃ t, (m.stage t).slot? = some i ∧ m.isEnabled t = true

/-- **The waits at slots can always end.** In every reachable state, for every capacity and
discipline, whoever waits at a slot waits for a thread at the same slot, and wherever threads are at
a slot one of them can get on. -/
theorem unjammed (hq : create disc config order = .ok q) (hp : Respects disc programs)
    (h : Reachable (launch q programs) m) : Unjammed m := by
  obtain ⟨ds, h⟩ := reachable_iff.mp h
  refine
    { writer := fun t v i b ht => ?_
      taker := fun t i b ht => ?_
      enabled := ?_ }
  · obtain ⟨x, hx, hempty | hinside | ⟨-, hcomes⟩⟩ := h.cases_of_writing hq hp ht
    · exact ⟨x, hx, .inl hempty⟩
    · exact ⟨x, hx, .inr (.inl hinside)⟩
    · exact ⟨x, hx, .inr (.inr hcomes)⟩
  · obtain ⟨x, hx, hfull | hinside | ⟨-, hcomes⟩⟩ := h.cases_of_taking hq hp ht
    · exact ⟨x, hx, .inl hfull⟩
    · exact ⟨x, hx, .inr (.inl hinside)⟩
    · exact ⟨x, hx, .inr (.inr hcomes)⟩
  · rintro i ⟨t, ht⟩
    obtain ⟨s, hs, hstalls⟩ := h.exists_not_stalls hq hp ht
    exact ⟨s, hs, h.isEnabled_of_slot hs hstalls⟩

/-- Two producers and two consumers on a queue of two slots. -/
def overtaking : List (List (Call Nat)) :=
  [[.push 1 .never, .push 2 .never], [.push 3 .never], [.pop .never], [.pop .never]]

/-- Turns in which the first consumer stands still with its position, while the second one and a
producer go past it. -/
def overtakingTurns : List Choice :=
  (List.replicate 30 0 ++ List.replicate 4 2 ++ List.replicate 10 3 ++ List.replicate 9 1).map
    fun t => { thread := t }

/-- The producer waits for the first slot, which is full, and the consumer that was overtaken is the
one that can get on there. -/
theorem unjammed_overtaking :
    ∃ q : Queue Nat, create .mpmc { capacity := 2 } (fun _ _ => 0) = .ok q ∧
      Respects .mpmc overtaking ∧
      Reachable (launch q overtaking) (trace overtakingTurns (launch q overtaking)).2 ∧
      (∃ b, (trace overtakingTurns (launch q overtaking)).2.stage 1 = .writing 3 0 (.claim b)) ∧
      (∃ b, (trace overtakingTurns (launch q overtaking)).2.stage 2 = .taking 0 (.claim b)) ∧
      (trace overtakingTurns (launch q overtaking)).2.isEnabled 1 = false ∧
      (trace overtakingTurns (launch q overtaking)).2.isEnabled 2 = true ∧
      Unjammed (trace overtakingTurns (launch q overtaking)).2 := by
  have hq : create (α := Nat) .mpmc { capacity := 2 } (fun _ _ => 0) = .ok _ := rfl
  have hreachable {q : Queue Nat} : Reachable (launch q overtaking)
      (trace overtakingTurns (launch q overtaking)).2 := reachable_iff.mpr ⟨_, run_trace _ _⟩
  exact ⟨_, hq, respects_mpmc overtaking, hreachable, ⟨_, rfl⟩, ⟨_, rfl⟩, by decide, by decide,
    unjammed hq (respects_mpmc overtaking) hreachable⟩

end Machine

end PermitRing.Queue
