import PermitRing.Proofs.Machine.Indices

/-!
# Permits, positions and slots in balance

Every permit is either in one of the two counters or in the hands of a thread. Every position that
was handed out to a producer either leads to a permit of a consumer that was given out, and then to
a position that was handed out to a consumer, or is still on its way. And at each single slot, as
often as a producer was sent there a consumer was, but for those who are still on their way to it
and for the element that lies in it.

None of the three needs the others while threads are under way, and a slot may then be visited in
another order than its positions were handed out. They meet when nobody is under way: the slots that
are full are those from the head on, as many as there are permits.

## Main results

* `Machine.Run.permits_eq` — permits are conserved;
* `Machine.Run.tickets_length_eq` — positions of producers against those of consumers;
* `Machine.Run.visits_eq` — the same for one slot;
* `Machine.Run.window_of_outside` — the full slots when nobody is under way.
-/

namespace PermitRing.Queue

variable {α : Type}

/-! ### What threads hold -/

/-- One if the thread has a permit of either side. -/
def Stage.holds : Stage α → Nat
  | .permitted | .counted | .building | .tail .. | .writing .. | .stored | .returning _ => 1
  | .head _ | .taking .. | .taken _ => 1
  | _ => 0

/-- One if the thread has a permit of a consumer and has not moved the head on. -/
def Stage.unplaced : Stage α → Nat
  | .head (.leave _) => 0
  | .head _ => 1
  | _ => 0

/-- One if the thread has moved the tail on and has not given out a permit for it. -/
def Stage.ungiven : Stage α → Nat
  | .tail _ (.leave _) | .writing .. | .stored => 1
  | _ => 0

/-- One if the thread has the position `i` of the tail and has not filled the slot. -/
def Stage.filling (i : Nat) : Stage α → Nat
  | .tail _ (.leave j) | .writing _ j _ => if j = i then 1 else 0
  | _ => 0

/-- One if the thread has the position `i` of the head and has not claimed the slot. -/
def Stage.fetching (i : Nat) : Stage α → Nat
  | .head (.leave j) | .taking j (.claim _) => if j = i then 1 else 0
  | _ => 0

/-- One if the slot is full. -/
def fullness (x : Slot α) : Nat :=
  if x.phase = .full then 1 else 0

/-! ### Moves -/

section Moves

variable {n : Nat} {call : Call α} {s : Stage α} {k k' : Core α}
  {r : Progress (Stage α) (Answer α)}

/-- **A move keeps the permits**, unless it ends its call in the middle. -/
theorem Move.permits (h : Move call s k r k') (ha : ¬s.Aborts r)
    (hb : k.free + k.ready + s.holds < Word.size) :
    k'.free + k'.ready + (Stage.after r).holds = k.free + k.ready + s.holds := by
  cases h with
  | faultTail h | faultWrite h | faultHead h | faultTake h => exact absurd trivial ha
  | reserve hc hk | obtain hk | obtainLate hk =>
    simp only [Stage.holds, Stage.after]
    omega
  | give | giveBack | release =>
    simp only [Stage.holds, Stage.after] at hb ⊢
    rw [Word.succ_eq (by omega)]
    omega
  | _ => rfl

/-- **A move keeps the balance of positions**, unless it ends its call in the middle. -/
theorem Move.positions (hn : n < Word.size) (h : Move call s k r k') (ha : ¬s.Aborts r)
    (hk : k.Bounded n) (hs : s.Sound n call) (hb : k.free + k.ready + s.holds < Word.size) :
    (s.ticket? .produce r).toList.length + (k.ready + s.unplaced + s.ungiven) =
      (s.ticket? .consume r).toList.length +
        (k'.ready + (Stage.after r).unplaced + (Stage.after r).ungiven) := by
  have hcap := hk.capacity
  cases h with
  | faultTail h | faultWrite h | faultHead h | faultTake h => exact absurd trivial ha
  | claimTail h =>
    rw [hcap] at h
    cases Index.claims_of_step hn hs.2 h with
    | store =>
      show 1 + (k.ready + 0 + 0) = 0 + (k.ready + 0 + 1)
      omega
    | enter | load | read | retry => rfl
  | gainTail h =>
    rw [hcap] at h
    cases Index.claims_of_step hn hs.2 h with
    | leave => rfl
    | swap =>
      show 1 + (k.ready + 0 + 0) = 0 + (k.ready + 0 + 1)
      omega
  | claimHead h =>
    rw [hcap] at h
    cases Index.claims_of_step hn hs h with
    | store =>
      show 0 + (k.ready + 1 + 0) = 1 + (k.ready + 0 + 0)
      omega
    | enter | load | read | retry => rfl
  | gainHead h =>
    rw [hcap] at h
    cases Index.claims_of_step hn hs h with
    | leave => rfl
    | swap =>
      show 0 + (k.ready + 1 + 0) = 1 + (k.ready + 0 + 0)
      omega
  | obtain hk | obtainLate hk =>
    show 0 + (k.ready + 0 + 0) = 0 + (k.ready - 1 + 1 + 0)
    omega
  | give =>
    simp only [Stage.holds] at hb
    rw [Word.succ_eq (by omega)]
    rfl
  | _ => rfl

/-- **A move keeps the balance of a slot**, unless it ends its call in the middle. -/
theorem Move.visits (hn : n < Word.size) (h : Move call s k r k') (ha : ¬s.Aborts r)
    (hk : k.Bounded n) (hs : s.Sound n call)
    (hf : ∀ i x, k.storage.slots[i]? = some x → s.Fits i x) {i : Nat} {x x' : Slot α}
    (hx : k.storage.slots[i]? = some x) (hx' : k'.storage.slots[i]? = some x') :
    (s.ticket? .produce r).toList.count i + (Stage.after r).fetching i +
        (s.filling i + fullness x) =
      (s.ticket? .consume r).toList.count i + s.fetching i +
        ((Stage.after r).filling i + fullness x') := by
  have hcap := hk.capacity
  have hsame : k'.storage = k.storage → x' = x := by
    intro he
    rw [he, hx] at hx'
    exact (Option.some.inj hx').symm
  cases h with
  | faultTail h | faultWrite h | faultHead h | faultTake h => exact absurd trivial ha
  | claimTail h =>
    rw [hcap] at h
    cases hsame rfl
    cases Index.claims_of_step hn hs.2 h with
    | @store _ old =>
      show [old].count i + 0 + (0 + fullness x) = 0 + 0 + ((if old = i then 1 else 0) + fullness x)
      rw [List.count_singleton']
      omega
    | enter | load | read | retry => rfl
  | @gainTail _ _ _ _ old _ _ h =>
    rw [hcap] at h
    cases hsame rfl
    cases Index.claims_of_step hn hs.2 h with
    | leave => rfl
    | swap =>
      show [old].count i + 0 + (0 + fullness x) = 0 + 0 + ((if old = i then 1 else 0) + fullness x)
      rw [List.count_singleton']
      omega
  | claimHead h =>
    rw [hcap] at h
    cases hsame rfl
    cases Index.claims_of_step hn hs h with
    | @store _ old =>
      show 0 + (if old = i then 1 else 0) + (0 + fullness x) = [old].count i + 0 + (0 + fullness x)
      rw [List.count_singleton']
      omega
    | enter | load | read | retry => rfl
  | @gainHead _ _ _ old _ _ h =>
    rw [hcap] at h
    cases hsame rfl
    cases Index.claims_of_step hn hs h with
    | leave => rfl
    | swap =>
      show 0 + (if old = i then 1 else 0) + (0 + fullness x) = [old].count i + 0 + (0 + fullness x)
      rw [List.count_singleton']
      omega
  | write hs' h =>
    have hslot := Storage.slots_of_slot hs'
    obtain ⟨rfl, rfl⟩ | ⟨hi, hx'⟩ := Storage.slots_put_cases hslot hx'
    · cases hslot.symm.trans hx
      cases (hf _ _ hslot).writes h <;> rfl
    · cases hx'.symm.trans hx
      rfl
  | @store _ v j w y y' b hs' h =>
    have hslot := Storage.slots_of_slot hs'
    obtain ⟨rfl, rfl⟩ | ⟨hi, hx'⟩ := Storage.slots_put_cases hslot hx'
    · cases hslot.symm.trans hx
      cases (hf _ _ hslot).writes h with
      | publish =>
        show 0 + 0 + ((if i = i then 1 else 0) + 0) = 0 + 0 + (0 + 1)
        rw [if_pos rfl]
    · cases hx'.symm.trans hx
      show 0 + 0 + ((if j = i then 1 else 0) + fullness x) = 0 + 0 + (0 + fullness x)
      rw [if_neg (Ne.symm hi)]
  | @take _ j t t' y y' b hs' h =>
    have hslot := Storage.slots_of_slot hs'
    obtain ⟨rfl, rfl⟩ | ⟨hi, hx'⟩ := Storage.slots_put_cases hslot hx'
    · cases hslot.symm.trans hx
      cases (hf _ _ hslot).takes h with
      | claim =>
        show 0 + 0 + (0 + 1) = 0 + (if i = i then 1 else 0) + (0 + 0)
        rw [if_pos rfl]
      | wait | remove => rfl
    · cases hx'.symm.trans hx
      cases (hf _ _ hslot).takes h with
      | claim =>
        show 0 + 0 + (0 + fullness x) = 0 + (if j = i then 1 else 0) + (0 + fullness x)
        rw [if_neg (Ne.symm hi)]
      | wait | remove => rfl
  | @vacate _ v j t y y' b hs' h =>
    have hslot := Storage.slots_of_slot hs'
    obtain ⟨rfl, rfl⟩ | ⟨hi, hx'⟩ := Storage.slots_put_cases hslot hx'
    · cases hslot.symm.trans hx
      cases (hf _ _ hslot).takes h
      rfl
    · cases hx'.symm.trans hx
      cases (hf _ _ hslot).takes h
      rfl
  | _ => cases hsame rfl; rfl

end Moves

/-! ### Runs -/

namespace Machine

variable {q : Queue α} {programs : List (List (Call α))} {ds : List (Deed α)} {m n : Machine α}
  {d : Deed α} {disc : Discipline} {config : Config} {order : Side → Nat → Nat}

/-- **Permits are conserved.** -/
theorem Run.permits_eq (hq : create disc config order = .ok q) (hp : Respects disc programs)
    (h : Run (launch q programs) ds m) :
    m.queue.free + m.queue.size + m.census Stage.holds = config.capacity := by
  induction h with
  | refl =>
    rw [census_launch rfl, launch, eq_of_create hq]
    rfl
  | @step ds m n d c hr hs ih =>
    have hl := hr.leads hs
    have hcensus := hl.census Stage.holds
    have hle : d.stage.holds ≤ m.census Stage.holds := hl.stage ▸ le_census rfl d.thread
    have hsize := (capacity_of_create hq).2
    have hmove : n.queue.free + n.queue.size + (Stage.after d.next).holds =
        m.queue.free + m.queue.size + d.stage.holds := by
      refine hl.move.permits (hr.not_aborts hq hp hs) ?_
      show m.queue.free + m.queue.size + d.stage.holds < Word.size
      omega
    omega

theorem Run.permits_lt (hq : create disc config order = .ok q) (hp : Respects disc programs)
    (h : Run (launch q programs) ds m) (t : Nat) :
    m.queue.core.free + m.queue.core.ready + (m.stage t).holds < Word.size := by
  have hpermits := h.permits_eq hq hp
  have hle : (m.stage t).holds ≤ m.census Stage.holds := le_census rfl t
  have hsize := (capacity_of_create hq).2
  show m.queue.free + m.queue.size + (m.stage t).holds < Word.size
  omega

theorem tickets_concat (x : Side) (ds : List (Deed α)) (d : Deed α) :
    tickets x (ds ++ [d]) = tickets x ds ++ (d.ticket? x).toList :=
  filterMap_concat _ _ _

/-- **Positions of producers against those of consumers.** -/
theorem Run.tickets_length_eq (hq : create disc config order = .ok q) (hp : Respects disc programs)
    (h : Run (launch q programs) ds m) :
    (tickets .produce ds).length =
      (tickets .consume ds).length + m.queue.size + m.census Stage.unplaced +
        m.census Stage.ungiven := by
  induction h with
  | refl =>
    rw [census_launch rfl, census_launch rfl, launch, eq_of_create hq]
    rfl
  | @step ds m n d c hr hs ih =>
    have hl := hr.leads hs
    have hg := hr.grounded hq
    have hunplaced := hl.census Stage.unplaced
    have hungiven := hl.census Stage.ungiven
    have hmove : (d.ticket? .produce).toList.length +
          (m.queue.size + d.stage.unplaced + d.stage.ungiven) =
        (d.ticket? .consume).toList.length + (n.queue.size + (Stage.after d.next).unplaced +
          (Stage.after d.next).ungiven) :=
      hl.move.positions (capacity_of_create hq).2 (hr.not_aborts hq hp hs) hg.core
        (hl.stage ▸ hg.stage _ _ hl.call) (hl.stage ▸ hr.permits_lt hq hp d.thread)
    rw [tickets_concat, tickets_concat, List.length_append, List.length_append]
    omega

/-- The slot at a place never goes away. -/
theorem Grounded.exists_slot {size : Nat} (h : Grounded size m) {i : Nat} (hi : i < size) :
    ∃ x, m.queue.storage.slots[i]? = some x := by
  have hcap : m.queue.storage.slots.size = size := h.core.capacity
  exact ⟨_, Array.getElem?_eq_getElem (hcap ▸ hi)⟩

/-- **Visits to one slot.** -/
theorem Run.visits_eq (hq : create disc config order = .ok q) (hp : Respects disc programs)
    (h : Run (launch q programs) ds m) {i : Nat} {x : Slot α}
    (hx : m.queue.storage.slots[i]? = some x) :
    (tickets .produce ds).count i + m.census (Stage.fetching i) =
      (tickets .consume ds).count i + m.census (Stage.filling i) + fullness x := by
  induction h generalizing x with
  | refl =>
    have hshow := tenanted_launch hq programs i x hx
    rw [census_launch rfl, census_launch rfl]
    rw [launch, eq_of_create hq] at hx
    simp only [Storage.vacant, Array.getElem?_replicate] at hx
    split at hx
    · cases hx
      rfl
    · cases hx
  | @step ds m n d c hr hs ih =>
    have hl := hr.leads hs
    have hg := hr.grounded hq
    have hi : i < config.capacity := by
      have hcap : n.queue.storage.slots.size = config.capacity :=
        (Run.step c hr hs).grounded hq |>.core.capacity
      exact hcap ▸ (Array.getElem?_eq_some_iff.mp hx).1
    obtain ⟨y, hy⟩ := hg.exists_slot hi
    have hbefore := ih hy
    have hfetching := hl.census (Stage.fetching i)
    have hfilling := hl.census (Stage.filling i)
    have hmove : (d.ticket? .produce).toList.count i + (Stage.after d.next).fetching i +
          (d.stage.filling i + fullness y) =
        (d.ticket? .consume).toList.count i + d.stage.fetching i +
          ((Stage.after d.next).filling i + fullness x) :=
      hl.move.visits (capacity_of_create hq).2 (hr.not_aborts hq hp hs) hg.core
        (hl.stage ▸ hg.stage _ _ hl.call)
        (fun i x hx => hl.stage ▸ (hr.tenanted hq).fits d.thread hx) hy hx
    rw [tickets_concat, tickets_concat, List.count_append, List.count_append]
    omega

/-! ### When nobody is under way -/

/-- The places from the head on, as many as there are permits of consumers. -/
def window (m : Machine α) : List Nat :=
  (List.range m.queue.size).map fun k => (m.queue.head.position + k) % m.queue.capacity

theorem Run.capacity_eq (hq : create disc config order = .ok q)
    (h : Run (launch q programs) ds m) : m.queue.capacity = config.capacity :=
  (h.grounded hq).core.capacity

/-- The positions handed out to producers are those handed out to consumers, and the window. -/
theorem Run.tickets_eq_append (hq : create disc config order = .ok q)
    (hp : Respects disc programs) (h : Run (launch q programs) ds m)
    (hout : ∀ t, m.stage t = .outside) :
    tickets .produce ds = tickets .consume ds ++ m.window := by
  have hlength := h.tickets_length_eq hq hp
  rw [census_eq_zero (fun t => by rw [hout t]; rfl), census_eq_zero (fun t => by rw [hout t]; rfl),
    Nat.add_zero, Nat.add_zero] at hlength
  obtain ⟨hproduce, -⟩ := h.turning hq .produce
  obtain ⟨hconsume, hhead⟩ := h.turning hq .consume
  have hhead : m.queue.head.position = (tickets .consume ds).length % config.capacity := hhead
  rw [hlength, List.range_add, List.map_append, ← hconsume, List.map_map] at hproduce
  rw [hproduce, window, h.capacity_eq hq, hhead]
  refine congrArg _ (List.map_congr_left fun k _ => ?_)
  exact (Nat.mod_add_mod _ _ _).symm

/-- A slot is full as often as its place is in the window. -/
theorem Run.fullness_eq (hq : create disc config order = .ok q) (hp : Respects disc programs)
    (h : Run (launch q programs) ds m) (hout : ∀ t, m.stage t = .outside) {i : Nat} {x : Slot α}
    (hx : m.queue.storage.slots[i]? = some x) : fullness x = m.window.count i := by
  have hvisits := h.visits_eq hq hp hx
  rw [census_eq_zero (fun t => by rw [hout t]; rfl), census_eq_zero (fun t => by rw [hout t]; rfl),
    h.tickets_eq_append hq hp hout, List.count_append] at hvisits
  omega

end Machine

/-- The number of full slots, slot by slot. -/
theorem fullCount_eq_sum (s : Storage α) :
    s.fullCount = ∑ i ∈ Finset.range s.capacity, s.slots[i]?.elim 0 fullness := by
  have hlist : ∀ l : List (Slot α), (l.map Slot.isFull).count true =
      ∑ i ∈ Finset.range l.length, l[i]?.elim 0 fullness := by
    intro l
    induction l with
    | nil => rfl
    | cons x l ih =>
      rw [List.map_cons, List.count_cons, ih, List.length_cons, Finset.sum_range_succ']
      simp only [List.getElem?_cons_succ, List.getElem?_cons_zero, Option.elim_some, fullness,
        Slot.isFull, beq_true, decide_eq_true_eq]
  have h := hlist s.slots.toList
  rw [Array.length_toList] at h
  simp only [Array.getElem?_toList] at h
  exact h

namespace Machine

variable {q : Queue α} {programs : List (List (Call α))} {ds : List (Deed α)} {m : Machine α}
  {disc : Discipline} {config : Config} {order : Side → Nat → Nat}

/-- **The full slots when nobody is under way.** They are as many as there are permits of consumers,
they are the slots from the head on, and the tail stands behind them. -/
theorem Run.window_of_outside (hq : create disc config order = .ok q)
    (hp : Respects disc programs) (h : Run (launch q programs) ds m)
    (hout : ∀ t, m.stage t = .outside) :
    m.queue.storage.fullCount = m.queue.size ∧
      (∀ i x, m.queue.storage.slots[i]? = some x →
        (x.isFull = true ↔
          ∃ k < m.queue.size, i = (m.queue.head.position + k) % m.queue.capacity)) ∧
      m.queue.tail.position = (m.queue.head.position + m.queue.size) % m.queue.capacity := by
  have hcap := h.capacity_eq hq
  have hpos : 0 < m.queue.capacity := hcap ▸ (capacity_of_create hq).1
  refine ⟨?_, fun i x hx => ?_, ?_⟩
  · have hslot : ∀ i ∈ Finset.range m.queue.storage.capacity,
        m.queue.storage.slots[i]?.elim 0 fullness = (m.window : Multiset Nat).count i := by
      intro i hi
      have hi : i < m.queue.capacity := Finset.mem_range.mp hi
      obtain ⟨x, hx⟩ := (h.grounded hq).exists_slot (hcap ▸ hi)
      rw [hx, Option.elim_some, h.fullness_eq hq hp hout hx, Multiset.coe_count]
    have hmem : ∀ i ∈ (m.window : Multiset Nat), i ∈ Finset.range m.queue.storage.capacity := by
      intro i hi
      obtain ⟨k, -, rfl⟩ := List.mem_map.mp (Multiset.mem_coe.mp hi)
      exact Finset.mem_range.mpr (Nat.mod_lt _ hpos)
    rw [fullCount_eq_sum, Finset.sum_congr rfl hslot, Multiset.sum_count_eq_card hmem,
      Multiset.coe_card, window, List.length_map, List.length_range]
  · have hfull : x.isFull = true ↔ 0 < fullness x := by
      rw [Slot.isFull, fullness, decide_eq_true_eq]
      split <;> simp_all
    rw [hfull, h.fullness_eq hq hp hout hx, List.count_pos_iff, window, List.mem_map]
    constructor
    · rintro ⟨k, hk, rfl⟩
      exact ⟨k, List.mem_range.mp hk, rfl⟩
    · rintro ⟨k, hk, rfl⟩
      exact ⟨k, List.mem_range.mpr hk, rfl⟩
  · obtain ⟨-, htail⟩ := h.turning hq .produce
    obtain ⟨-, hhead⟩ := h.turning hq .consume
    have htail : m.queue.tail.position = (tickets .produce ds).length % config.capacity := htail
    have hhead : m.queue.head.position = (tickets .consume ds).length % config.capacity := hhead
    rw [htail, hhead, h.tickets_eq_append hq hp hout, List.length_append, window, List.length_map,
      List.length_range, hcap, Nat.mod_add_mod]

end Machine

end PermitRing.Queue
