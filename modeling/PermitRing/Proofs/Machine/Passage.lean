import PermitRing.Proofs.Machine.Conservation

/-!
# The way of an element through the ring

An element gets a position of the tail, is moved into the slot there, is claimed by a consumer that
got the position of the slot from the head, and is handed out. `Conveys` says which of these steps a
move is, and that all else about the elements stays as it was: a move that is none of them changes
neither who has got a position nor what the full slots show.

Positions are counted round and round, so several threads may be on their way to one slot. The
*rank* of a position is its place among all that its side has handed out, and tells them apart. A
rank is *pledged* as long as the thread that got it has still to use its position. In these terms a
run is a small machine of its own, `Machine.Advances`, in which threads have no stages.

## Main definitions

* `Traffic`, `Conveys` — the steps of an element's way;
* `placed`, `claimants`, `ranks`, `Pledged` — which elements got positions, who got them, and which
  of them are still to be used;
* `Machine.Advances` — the steps of an element's way in a run.

## Main results

* `Move.conveys` — every move is such a step or none;
* `Machine.Run.ranked` — a rank leads to its position, and to its element;
* `Machine.Run.advances` — every deed of a run is such a step or none.
-/

namespace PermitRing.Queue

variable {α : Type}

/-! ### Positions that are still to be used -/

/-- The position of the side that the thread has got and has not used: its element is not moved in,
or none is claimed. -/
def Stage.bound? : Side → Stage α → Option Nat
  | .produce, .tail _ (.leave j) | .produce, .writing _ j _ => some j
  | .consume, .head (.leave j) | .consume, .taking j (.claim _) => some j
  | _, _ => none

/-- The element for which the thread has got a position and that it has not moved in. -/
def Stage.carried? : Stage α → Option α
  | .tail v (.leave _) | .writing v _ _ => some v
  | _ => none

theorem Stage.holding_of_bound? {s : Stage α} {x : Side} (h : (s.bound? x).isSome) :
    s.holding x = 1 := by
  cases x <;> cases s <;> first | rfl | simp [bound?] at h

theorem Stage.exists_bound? {s : Stage α} {v : α} (h : s.carried? = some v) :
    (s.bound? .produce).isSome := by
  cases s with
  | tail v x => cases x <;> simp_all [carried?, bound?]
  | writing v j w => rfl
  | _ => cases h

/-! ### What moves -/

/-- What a step does to the elements on their way. -/
structure Traffic (α : Type) where
  /-- An element gets a position. -/
  placed : Option (α × Nat) := none
  /-- A consumer gets a position. -/
  called : Option Nat := none
  /-- An element is moved in. -/
  stored : Option α := none
  /-- An element is claimed. -/
  claimed : Option α := none

/-- The element that gets a position by a move, and the position. -/
def Stage.placed? (s : Stage α) (r : Progress (Stage α) (Answer α)) : Option (α × Nat) :=
  match s with
  | .tail v _ => (s.ticket? .produce r).map fun j => (v, j)
  | _ => none

/-- What a move does to the elements on their way. -/
def Stage.traffic (s : Stage α) (k : Storage α) (r : Progress (Stage α) (Answer α)) :
    Traffic α where
  placed := s.placed? r
  called := s.ticket? .consume r
  stored := s.stored? r
  claimed := s.claimed? k r

/-- The slot at place `i` shows an element that may be taken. -/
def Core.Shows (k : Core α) (i : Nat) (v : α) : Prop :=
  k.storage.slots[i]? = some ⟨.full, some v⟩

theorem Core.Shows.unique {k : Core α} {i : Nat} {v w : α} (hv : k.Shows i v) (hw : k.Shows i w) :
    v = w := by
  rw [Shows, hv] at hw
  simpa using hw

/-- Which step of an element's way a move is. -/
inductive Conveys (s : Stage α) (k : Core α) (r : Progress (Stage α) (Answer α)) (k' : Core α) :
    Prop
  /-- None. -/
  | still (traffic : s.traffic k.storage r = {})
    (bound : ∀ x, (Stage.after r).bound? x = s.bound? x)
    (carried : (Stage.after r).carried? = s.carried?)
    (shows_iff : ∀ i v, k'.Shows i v ↔ k.Shows i v)
  /-- An element gets a position. -/
  | place {v : α} {j : Nat} (traffic : s.traffic k.storage r = { placed := some (v, j) })
    (before : ∀ x, s.bound? x = none) (bound : (Stage.after r).bound? .produce = some j)
    (other : (Stage.after r).bound? .consume = none) (carried : (Stage.after r).carried? = some v)
    (shows_iff : ∀ i v, k'.Shows i v ↔ k.Shows i v)
  /-- A consumer gets a position. -/
  | call {j : Nat} (traffic : s.traffic k.storage r = { called := some j })
    (before : ∀ x, s.bound? x = none) (bound : (Stage.after r).bound? .consume = some j)
    (other : (Stage.after r).bound? .produce = none) (carried : (Stage.after r).carried? = none)
    (shows_iff : ∀ i v, k'.Shows i v ↔ k.Shows i v)
  /-- An element is moved in. -/
  | store {v : α} {j : Nat} (traffic : s.traffic k.storage r = { stored := some v })
    (bound : s.bound? .produce = some j) (other : s.bound? .consume = none)
    (carried : s.carried? = some v) (after : ∀ x, (Stage.after r).bound? x = none)
    (hidden : ∀ w, ¬k.Shows j w) (shown : k'.Shows j v)
    (shows_iff : ∀ i, i ≠ j → ∀ w, k'.Shows i w ↔ k.Shows i w)
  /-- An element is claimed. -/
  | claim {v : α} {j : Nat} (traffic : s.traffic k.storage r = { claimed := some v })
    (bound : s.bound? .consume = some j) (other : s.bound? .produce = none)
    (after : ∀ x, (Stage.after r).bound? x = none)
    (shown : k.Shows j v) (hidden : ∀ w, ¬k'.Shows j w)
    (shows_iff : ∀ i, i ≠ j → ∀ w, k'.Shows i w ↔ k.Shows i w)

section Shows

variable {k : Core α} {j : Nat} {x x' : Slot α}

theorem Core.shows_put_of_ne {i : Nat} (h : i ≠ j) (x' : Slot α) (v : α) :
    ({ k with storage := k.storage.put j x' } : Core α).Shows i v ↔ k.Shows i v := by
  simp only [Shows, Storage.slots_put_of_ne _ (Ne.symm h)]

theorem Core.shows_put_self (hx : k.storage.slots[j]? = some x) (x' : Slot α) (v : α) :
    ({ k with storage := k.storage.put j x' } : Core α).Shows j v ↔ x' = ⟨.full, some v⟩ := by
  have hlt : j < k.storage.capacity := (Array.getElem?_eq_some_iff.mp hx).1
  simp only [Shows, Storage.slots_put_self hlt, Option.some.injEq]

/-- A slot that shows the same as before changes nothing. -/
theorem Core.shows_put (hx : k.storage.slots[j]? = some x)
    (h : ∀ v, x' = ⟨.full, some v⟩ ↔ x = ⟨.full, some v⟩) (i : Nat) (v : α) :
    ({ k with storage := k.storage.put j x' } : Core α).Shows i v ↔ k.Shows i v := by
  by_cases hi : i = j
  · subst hi
    rw [Core.shows_put_self hx, h, Core.Shows, hx, Option.some.injEq]
  · exact Core.shows_put_of_ne hi x' v

end Shows

/-- **Every move is a step of an element's way, or none**, unless it ends its call in the middle. -/
theorem Move.conveys {n : Nat} (hn : n < Word.size) {call : Call α} {s : Stage α} {k k' : Core α}
    {r : Progress (Stage α) (Answer α)} (h : Move call s k r k') (ha : ¬s.Aborts r)
    (hk : k.Bounded n) (hs : s.Sound n call)
    (hf : ∀ i x, k.storage.slots[i]? = some x → s.Fits i x) : Conveys s k r k' := by
  have hcap := hk.capacity
  have hx : ∀ {f : Side → Option Nat}, f .produce = none → f .consume = none → ∀ x, f x = none :=
    fun hp hc x => by cases x <;> assumption
  cases h with
  | faultTail h | faultWrite h | faultHead h | faultTake h => exact absurd trivial ha
  | claimTail h =>
    rw [hcap] at h
    cases Index.claims_of_step hn hs.2 h with
    | store => exact .place rfl (hx rfl rfl) rfl rfl rfl fun _ _ => .rfl
    | enter | load | read | retry =>
      exact .still rfl (fun x => by cases x <;> rfl) rfl fun _ _ => .rfl
  | gainTail h =>
    rw [hcap] at h
    cases Index.claims_of_step hn hs.2 h with
    | leave => exact .still rfl (fun x => by cases x <;> rfl) rfl fun _ _ => .rfl
    | swap => exact .place rfl (hx rfl rfl) rfl rfl rfl fun _ _ => .rfl
  | claimHead h =>
    rw [hcap] at h
    cases Index.claims_of_step hn hs h with
    | store => exact .call rfl (hx rfl rfl) rfl rfl rfl fun _ _ => .rfl
    | enter | load | read | retry =>
      exact .still rfl (fun x => by cases x <;> rfl) rfl fun _ _ => .rfl
  | gainHead h =>
    rw [hcap] at h
    cases Index.claims_of_step hn hs h with
    | leave => exact .still rfl (fun x => by cases x <;> rfl) rfl fun _ _ => .rfl
    | swap => exact .call rfl (hx rfl rfl) rfl rfl rfl fun _ _ => .rfl
  | write hs' h =>
    have hslot := Storage.slots_of_slot hs'
    refine .still rfl (fun x => by cases x <;> rfl) rfl (Core.shows_put hslot fun v => ?_)
    cases (hf _ _ hslot).writes h with
    | wait => rfl
    | claim | place => simp
  | store hs' h =>
    have hslot := Storage.slots_of_slot hs'
    cases (hf _ _ hslot).writes h with
    | publish =>
      refine .store rfl rfl rfl rfl (hx rfl rfl) (fun w hw => ?_)
        ((Core.shows_put_self hslot _ _).mpr rfl) fun i hi w => Core.shows_put_of_ne hi _ w
      rw [Core.Shows, hslot] at hw
      cases hw
  | take hs' h =>
    have hslot := Storage.slots_of_slot hs'
    cases (hf _ _ hslot).takes h with
    | wait =>
      exact .still rfl (fun x => by cases x <;> rfl) rfl (Core.shows_put hslot fun _ => .rfl)
    | claim =>
      refine .claim ?_ rfl rfl (hx rfl rfl) hslot (fun w hw => ?_) fun i hi w =>
        Core.shows_put_of_ne hi _ w
      · simp only [Stage.traffic, Stage.claimed?, hslot]
        rfl
      · rw [Core.shows_put_self hslot] at hw
        cases hw
    | remove =>
      exact .still rfl (fun x => by cases x <;> rfl) rfl (Core.shows_put hslot fun _ => by simp)
  | vacate hs' h =>
    have hslot := Storage.slots_of_slot hs'
    cases (hf _ _ hslot).takes h with
    | vacate =>
      exact .still rfl (fun x => by cases x <;> rfl) rfl (Core.shows_put hslot fun _ => by simp)
  | _ => exact .still rfl (fun x => by cases x <;> rfl) rfl fun _ _ => .rfl

/-- A position of the tail is handed out for an element. -/
theorem Stage.ticket?_produce (s : Stage α) (r : Progress (Stage α) (Answer α)) :
    s.ticket? .produce r = (s.placed? r).map Prod.snd := by
  cases s with
  | tail v c =>
    rw [placed?, Option.map_map]
    exact Option.map_id'.symm
  | _ => rfl

section Conveys

variable {s : Stage α} {k k' : Core α} {r : Progress (Stage α) (Answer α)}

/-- What happens to the position that a thread has still to use. -/
theorem Conveys.bound (h : Conveys s k r k') (x : Side) :
    s.ticket? x r = none ∧
        ((Stage.after r).bound? x = s.bound? x ∨ (Stage.after r).bound? x = none) ∨
      ∃ j, s.ticket? x r = some j ∧ (Stage.after r).bound? x = some j := by
  have hproduce := s.ticket?_produce r
  cases h with
  | still traffic bound =>
    refine .inl ⟨?_, .inl (bound x)⟩
    cases x with
    | produce => exact hproduce.trans (congrArg (Option.map Prod.snd ∘ Traffic.placed) traffic)
    | consume => exact congrArg Traffic.called traffic
  | @place v j traffic before bound other =>
    cases x with
    | produce =>
      exact .inr
        ⟨j, hproduce.trans (congrArg (Option.map Prod.snd ∘ Traffic.placed) traffic), bound⟩
    | consume => exact .inl ⟨congrArg Traffic.called traffic, .inr other⟩
  | @call j traffic before bound other =>
    cases x with
    | produce =>
      exact .inl ⟨hproduce.trans (congrArg (Option.map Prod.snd ∘ Traffic.placed) traffic),
        .inr other⟩
    | consume => exact .inr ⟨j, congrArg Traffic.called traffic, bound⟩
  | store traffic _ _ _ after | claim traffic _ _ after =>
    refine .inl ⟨?_, .inr (after x)⟩
    cases x with
    | produce => exact hproduce.trans (congrArg (Option.map Prod.snd ∘ Traffic.placed) traffic)
    | consume => exact congrArg Traffic.called traffic

/-- What happens to the element that a thread has a position for. -/
theorem Conveys.carried (h : Conveys s k r k') {v : α} (hv : (Stage.after r).carried? = some v) :
    s.placed? r = none ∧ s.carried? = some v ∨ ∃ j, s.placed? r = some (v, j) := by
  have hbound := Stage.exists_bound? hv
  cases h with
  | still traffic _ carried => exact .inl ⟨congrArg Traffic.placed traffic, carried ▸ hv⟩
  | @place w j traffic _ _ _ carried =>
    cases carried.symm.trans hv
    exact .inr ⟨j, congrArg Traffic.placed traffic⟩
  | call _ _ _ other =>
    rw [other] at hbound
    cases hbound
  | store _ _ _ _ after | claim _ _ _ after =>
    rw [after] at hbound
    cases hbound

end Conveys

/-! ### Ranks -/

/-- The element that gets a position by a deed. -/
def Deed.placed? (d : Deed α) : Option α :=
  (d.stage.placed? d.next).map Prod.fst

namespace Machine

/-- The elements that got positions of the tail, in this order, each with the thread that puts it
in. -/
def placed (ds : List (Deed α)) : List (Nat × α) :=
  ds.filterMap fun d => d.placed?.map fun v => (d.thread, v)

/-- The threads that got positions of the side, in this order. -/
def claimants (x : Side) (ds : List (Deed α)) : List Nat :=
  ds.filterMap fun d => (d.ticket? x).map fun _ => d.thread

/-- The ranks of the positions that a thread got, among all that the side handed out. -/
def ranks (x : Side) (t : Nat) (ds : List (Deed α)) : List Nat :=
  (claimants x ds).idxsOf t

/-- The position of the side with a rank is still to be used by the thread that got it. -/
def Pledged (x : Side) (ds : List (Deed α)) (m : Machine α) (k : Nat) : Prop :=
  ∃ t, (m.stage t).bound? x ≠ none ∧ (ranks x t ds).getLast? = some k

section Ranks

variable {programs : List (List (Call α))} {x : Side} {ds : List (Deed α)} {m n : Machine α}
  {d : Deed α} {s t k : Nat}

theorem claimants_concat (x : Side) (ds : List (Deed α)) (d : Deed α) :
    claimants x (ds ++ [d]) = claimants x ds ++ ((d.ticket? x).map fun _ => d.thread).toList :=
  filterMap_concat _ _ _

theorem placed_concat (ds : List (Deed α)) (d : Deed α) :
    placed (ds ++ [d]) = placed ds ++ (d.placed?.map fun v => (d.thread, v)).toList :=
  filterMap_concat _ _ _

theorem length_claimants (x : Side) (ds : List (Deed α)) :
    (claimants x ds).length = (tickets x ds).length := by
  rw [claimants, tickets, List.length_filterMap_eq_countP, List.length_filterMap_eq_countP]
  simp only [Option.isSome_map]

/-- The threads that got positions of the tail are those that put the elements in. -/
theorem map_fst_placed (ds : List (Deed α)) :
    (placed ds).map Prod.fst = claimants .produce ds := by
  rw [placed, claimants, List.map_filterMap]
  refine congrArg (List.filterMap · ds) (funext fun d => ?_)
  simp only [Deed.placed?, Deed.ticket?, Stage.ticket?_produce, Option.map_map]
  rfl

theorem length_placed (ds : List (Deed α)) :
    (placed ds).length = (claimants .produce ds).length := by
  rw [← map_fst_placed, List.length_map]

theorem mem_ranks : k ∈ ranks x t ds ↔ (claimants x ds)[k]? = some t := by
  rw [ranks, List.mem_idxsOf_iff_exists_getElem_pos, List.getElem?_eq_some_iff]
  simp only [beq_iff_eq]

/-- A rank is one thread's. -/
theorem eq_of_ranks (hs : (ranks x s ds).getLast? = some k)
    (ht : (ranks x t ds).getLast? = some k) :
    s = t := by
  have hs := mem_ranks.mp (List.mem_of_getLast? hs)
  rw [mem_ranks.mp (List.mem_of_getLast? ht)] at hs
  exact (Option.some.inj hs).symm

theorem Pledged.lt (h : Pledged x ds m k) : k < (claimants x ds).length := by
  obtain ⟨t, -, ht⟩ := h
  exact (List.getElem?_eq_some_iff.mp (mem_ranks.mp (List.mem_of_getLast? ht))).1

theorem ranks_concat_of_none (hd : d.ticket? x = none) (t : Nat) :
    ranks x t (ds ++ [d]) = ranks x t ds := by
  rw [ranks, claimants_concat, hd]
  exact congrArg (List.idxsOf t) (List.append_nil _)

theorem ranks_concat_self {j : Nat} (hd : d.ticket? x = some j) :
    ranks x d.thread (ds ++ [d]) = ranks x d.thread ds ++ [(claimants x ds).length] := by
  simp [ranks, claimants_concat, hd, List.idxsOf_append]

theorem ranks_concat_of_ne (ht : t ≠ d.thread) : ranks x t (ds ++ [d]) = ranks x t ds := by
  cases hd : d.ticket? x with
  | none => exact ranks_concat_of_none hd t
  | some j => simp [ranks, claimants_concat, hd, List.idxsOf_append, Ne.symm ht]

/-- A deed that has to do with no position of the side leaves all pledges alone. -/
theorem Leads.pledged_keep (h : Leads programs d m n) (hd : d.ticket? x = none)
    (hb : (Stage.after d.next).bound? x = d.stage.bound? x) (k : Nat) :
    Pledged x (ds ++ [d]) n k ↔ Pledged x ds m k := by
  have hbound (t : Nat) : (n.stage t).bound? x = (m.stage t).bound? x := by
    by_cases ht : t = d.thread
    · rw [ht, h.after, h.stage, hb]
    · rw [h.stage_other ht]
  simp only [Pledged, hbound, ranks_concat_of_none hd]

/-- A deed that gets a position of the side pledges its rank. -/
theorem Leads.pledged_get {j : Nat} (h : Leads programs d m n) (hd : d.ticket? x = some j)
    (hbefore : d.stage.bound? x = none) (hafter : (Stage.after d.next).bound? x ≠ none) (k : Nat) :
    Pledged x (ds ++ [d]) n k ↔ Pledged x ds m k ∨ k = (claimants x ds).length := by
  constructor
  · rintro ⟨t, hb, ht⟩
    by_cases htd : t = d.thread
    · rw [htd, ranks_concat_self hd, List.getLast?_concat] at ht
      exact .inr (Option.some.inj ht).symm
    · rw [h.stage_other htd] at hb
      rw [ranks_concat_of_ne htd] at ht
      exact .inl ⟨t, hb, ht⟩
  · rintro (⟨t, hb, ht⟩ | rfl)
    · have htd : t ≠ d.thread := by
        rintro rfl
        exact hb (h.stage ▸ hbefore)
      exact ⟨t, by rwa [h.stage_other htd], by rwa [ranks_concat_of_ne htd]⟩
    · exact ⟨d.thread, by rwa [h.after], by rw [ranks_concat_self hd, List.getLast?_concat]⟩

/-- A deed that uses a position of the side redeems its rank. -/
theorem Leads.pledged_use (h : Leads programs d m n) (hd : d.ticket? x = none)
    (hafter : (Stage.after d.next).bound? x = none)
    (hrank : (ranks x d.thread ds).getLast? = some k) (l : Nat) :
    Pledged x (ds ++ [d]) n l ↔ Pledged x ds m l ∧ l ≠ k := by
  constructor
  · rintro ⟨t, hb, ht⟩
    rw [ranks_concat_of_none hd] at ht
    have htd : t ≠ d.thread := by
      rintro rfl
      exact hb (h.after ▸ hafter)
    refine ⟨⟨t, by rwa [h.stage_other htd] at hb, ht⟩, ?_⟩
    rintro rfl
    exact htd (eq_of_ranks ht hrank)
  · rintro ⟨⟨t, hb, ht⟩, hne⟩
    have htd : t ≠ d.thread := by
      rintro rfl
      exact hne (Option.some.inj (ht.symm.trans hrank))
    exact ⟨t, by rwa [h.stage_other htd], by rwa [ranks_concat_of_none hd]⟩

end Ranks

/-! ### Runs -/

variable {q : Queue α} {programs : List (List (Call α))} {ds : List (Deed α)} {m n : Machine α}
  {d : Deed α} {disc : Discipline} {config : Config} {order : Side → Nat → Nat}

theorem Run.conveys (hq : create disc config order = .ok q) (hp : Respects disc programs)
    (h : Run (launch q programs) ds m) {c : Choice} (hs : m.act? c = some (d, n)) :
    Conveys d.stage m.queue.core d.next n.queue.core := by
  have hl := h.leads hs
  have hg := h.grounded hq
  exact hl.move.conveys (capacity_of_create hq).2 (h.not_aborts hq hp hs) hg.core
    (hl.stage ▸ hg.stage _ _ hl.call) fun i x hx => hl.stage ▸ (h.tenanted hq).fits d.thread hx

/-- Ranks lead to positions and to elements. -/
structure Ranked (size : Nat) (ds : List (Deed α)) (m : Machine α) : Prop where
  /-- The position that a thread has still to use is that of its last rank. -/
  bound : ∀ x t j, (m.stage t).bound? x = some j →
    ∃ k, (ranks x t ds).getLast? = some k ∧ k % size = j
  /-- The element that a thread has a position for is that of its last rank. -/
  carried : ∀ t v, (m.stage t).carried? = some v →
    ∃ k, (ranks .produce t ds).getLast? = some k ∧ (placed ds)[k]? = some (t, v)

/-- A position that a side hands out is the next one, counted round and round. -/
theorem Run.ticket_eq (hq : create disc config order = .ok q) (h : Run (launch q programs) ds m)
    {c : Choice} (hs : m.act? c = some (d, n)) {x : Side} {j : Nat} (hd : d.ticket? x = some j) :
    (claimants x ds).length % config.capacity = j := by
  obtain ⟨hbefore, -⟩ := h.turning hq x
  obtain ⟨hafter, -⟩ := (Run.step c h hs).turning hq x
  rw [tickets_concat, hd, Option.toList_some, List.length_append, List.length_singleton,
    List.range_succ, List.map_append, ← hbefore] at hafter
  rw [length_claimants]
  simpa using (List.append_cancel_left hafter).symm

/-- **Ranks lead to positions and to elements**, in every run. -/
theorem Run.ranked (hq : create disc config order = .ok q) (hp : Respects disc programs)
    (h : Run (launch q programs) ds m) : Ranked config.capacity ds m := by
  induction h with
  | refl =>
    refine ⟨fun x t j hj => ?_, fun t v hv => ?_⟩
    · rw [stage_launch] at hj
      cases x <;> cases hj
    · rw [stage_launch] at hv
      cases hv
  | @step ds m n d c hr hs ih =>
    have hl := hr.leads hs
    have hconveys := hr.conveys hq hp hs
    refine ⟨fun x t j hj => ?_, fun t v hv => ?_⟩
    · by_cases ht : t = d.thread
      · subst ht
        rw [hl.after] at hj
        rcases hconveys.bound x with ⟨hticket, hsame | hnone⟩ | ⟨i, hticket, hi⟩
        · rw [ranks_concat_of_none hticket]
          exact ih.bound x _ j (by rw [hl.stage, ← hsame, hj])
        · rw [hnone] at hj
          cases hj
        · cases hi.symm.trans hj
          exact ⟨_, by rw [ranks_concat_self hticket, List.getLast?_concat],
            hr.ticket_eq hq hs hticket⟩
      · rw [hl.stage_other ht] at hj
        rw [ranks_concat_of_ne ht]
        exact ih.bound x t j hj
    · have hgrow {k : Nat} {a : Nat × α} (ha : (placed ds)[k]? = some a) :
          (placed (ds ++ [d]))[k]? = some a := by
        rw [placed_concat, List.getElem?_append_left (List.getElem?_eq_some_iff.mp ha).1, ha]
      by_cases ht : t = d.thread
      · subst ht
        rw [hl.after] at hv
        rcases hconveys.carried hv with ⟨hplaced, hsame⟩ | ⟨j, hplaced⟩
        · obtain ⟨k, hk, hkv⟩ := ih.carried _ v (by rw [hl.stage, hsame])
          have hticket : d.ticket? .produce = none := by
            rw [Deed.ticket?, Stage.ticket?_produce, hplaced]
            rfl
          exact ⟨k, by rwa [ranks_concat_of_none hticket], hgrow hkv⟩
        · have hticket : d.ticket? .produce = some j := by
            rw [Deed.ticket?, Stage.ticket?_produce, hplaced]
            rfl
          refine ⟨_, by rw [ranks_concat_self hticket, List.getLast?_concat], ?_⟩
          rw [placed_concat, Deed.placed?, hplaced, ← length_placed]
          simp
      · rw [hl.stage_other ht] at hv
        obtain ⟨k, hk, hkv⟩ := ih.carried t v hv
        exact ⟨k, by rwa [ranks_concat_of_ne ht], hgrow hkv⟩

/-- What a deed of a run does to the elements on their way. -/
inductive Advances (size : Nat) (ds : List (Deed α)) (m : Machine α) (d : Deed α) (n : Machine α) :
    Prop
  /-- Nothing. -/
  | still (placed : placed (ds ++ [d]) = placed ds)
    (called : claimants .consume (ds ++ [d]) = claimants .consume ds) (claimed : d.claimed? = none)
    (produce : ∀ k, Pledged .produce (ds ++ [d]) n k ↔ Pledged .produce ds m k)
    (consume : ∀ k, Pledged .consume (ds ++ [d]) n k ↔ Pledged .consume ds m k)
    (shows_iff : ∀ i w, n.queue.core.Shows i w ↔ m.queue.core.Shows i w)
  /-- An element gets a position. -/
  | place {v : α} (placed : placed (ds ++ [d]) = placed ds ++ [(d.thread, v)])
    (called : claimants .consume (ds ++ [d]) = claimants .consume ds) (claimed : d.claimed? = none)
    (produce : ∀ k, Pledged .produce (ds ++ [d]) n k ↔
      Pledged .produce ds m k ∨ k = (Machine.placed ds).length)
    (consume : ∀ k, Pledged .consume (ds ++ [d]) n k ↔ Pledged .consume ds m k)
    (shows_iff : ∀ i w, n.queue.core.Shows i w ↔ m.queue.core.Shows i w)
  /-- A consumer gets a position. -/
  | call (placed : placed (ds ++ [d]) = placed ds)
    (called : claimants .consume (ds ++ [d]) = claimants .consume ds ++ [d.thread])
    (claimed : d.claimed? = none)
    (produce : ∀ k, Pledged .produce (ds ++ [d]) n k ↔ Pledged .produce ds m k)
    (consume : ∀ k, Pledged .consume (ds ++ [d]) n k ↔
      Pledged .consume ds m k ∨ k = (claimants .consume ds).length)
    (shows_iff : ∀ i w, n.queue.core.Shows i w ↔ m.queue.core.Shows i w)
  /-- An element is moved in. -/
  | store {k : Nat} {v : α} (placed : placed (ds ++ [d]) = placed ds)
    (called : claimants .consume (ds ++ [d]) = claimants .consume ds) (claimed : d.claimed? = none)
    (pledged : Pledged .produce ds m k) (element : (Machine.placed ds)[k]? = some (d.thread, v))
    (produce : ∀ l, Pledged .produce (ds ++ [d]) n l ↔ Pledged .produce ds m l ∧ l ≠ k)
    (consume : ∀ l, Pledged .consume (ds ++ [d]) n l ↔ Pledged .consume ds m l)
    (hidden : ∀ w, ¬m.queue.core.Shows (k % size) w) (shown : n.queue.core.Shows (k % size) v)
    (shows_iff : ∀ i, i ≠ k % size → ∀ w, n.queue.core.Shows i w ↔ m.queue.core.Shows i w)
  /-- An element is claimed. -/
  | claim {k : Nat} {v : α} (placed : placed (ds ++ [d]) = placed ds)
    (called : claimants .consume (ds ++ [d]) = claimants .consume ds)
    (claimed : d.claimed? = some v) (rank : (ranks .consume d.thread ds).getLast? = some k)
    (pledged : Pledged .consume ds m k)
    (produce : ∀ l, Pledged .produce (ds ++ [d]) n l ↔ Pledged .produce ds m l)
    (consume : ∀ l, Pledged .consume (ds ++ [d]) n l ↔ Pledged .consume ds m l ∧ l ≠ k)
    (shown : m.queue.core.Shows (k % size) v) (hidden : ∀ w, ¬n.queue.core.Shows (k % size) w)
    (shows_iff : ∀ i, i ≠ k % size → ∀ w, n.queue.core.Shows i w ↔ m.queue.core.Shows i w)

/-- **Every deed of a run is a step of an element's way, or none.** -/
theorem Run.advances (hq : create disc config order = .ok q) (hp : Respects disc programs)
    (h : Run (launch q programs) ds m) {c : Choice} (hs : m.act? c = some (d, n)) :
    Advances config.capacity ds m d n := by
  have hl := h.leads hs
  have hranked := h.ranked hq hp
  have hclaimed : d.claimed? = d.stage.claimed? m.queue.core.storage d.next := by
    rw [Deed.claimed?, hl.queue]
    rfl
  have htickets : d.ticket? .produce = (d.stage.placed? d.next).map Prod.snd :=
    d.stage.ticket?_produce d.next
  have hplaced : placed (ds ++ [d]) = placed ds ++
      ((d.stage.placed? d.next).map fun p => (d.thread, p.1)).toList := by
    rw [placed_concat, Deed.placed?, Option.map_map]
    rfl
  -- which deed it is says what it adds to the history
  have hhistory : ∀ f : Traffic α, d.stage.traffic m.queue.core.storage d.next = f →
      placed (ds ++ [d]) = placed ds ++ (f.placed.map fun p => (d.thread, p.1)).toList ∧
      claimants .consume (ds ++ [d]) =
        claimants .consume ds ++ (f.called.map fun _ => d.thread).toList ∧
      d.claimed? = f.claimed ∧ d.ticket? .produce = f.placed.map Prod.snd ∧
      d.ticket? .consume = f.called := by
    rintro _ rfl
    exact ⟨hplaced, claimants_concat .consume ds d, hclaimed, htickets, rfl⟩
  cases h.conveys hq hp hs with
  | still traffic bound carried shows_iff =>
    obtain ⟨hp', hc', hclaim, htail, hhead⟩ := hhistory _ traffic
    exact .still (hp'.trans (List.append_nil _)) (hc'.trans (List.append_nil _)) hclaim
      (hl.pledged_keep htail (bound _)) (hl.pledged_keep hhead (bound _)) shows_iff
  | place traffic before bound other carried shows_iff =>
    obtain ⟨hp', hc', hclaim, htail, hhead⟩ := hhistory _ traffic
    refine .place hp' (hc'.trans (List.append_nil _)) hclaim (fun k => ?_)
      (hl.pledged_keep hhead (other.trans (before _).symm)) shows_iff
    rw [length_placed]
    exact hl.pledged_get htail (before _) (by simp [bound]) k
  | call traffic before bound other carried shows_iff =>
    obtain ⟨hp', hc', hclaim, htail, hhead⟩ := hhistory _ traffic
    exact .call (hp'.trans (List.append_nil _)) hc' hclaim
      (hl.pledged_keep htail (other.trans (before _).symm))
      (hl.pledged_get hhead (before _) (by simp [bound])) shows_iff
  | @store v j traffic bound other carried after hidden shown shows_iff =>
    obtain ⟨hp', hc', hclaim, htail, hhead⟩ := hhistory _ traffic
    rw [← hl.stage] at bound carried
    obtain ⟨k, hk, rfl⟩ := hranked.bound _ _ _ bound
    obtain ⟨l, hl', helement⟩ := hranked.carried _ _ carried
    cases hk.symm.trans hl'
    exact .store (hp'.trans (List.append_nil _)) (hc'.trans (List.append_nil _)) hclaim
      ⟨_, by simp [bound], hk⟩ helement (hl.pledged_use htail (after _) hk)
      (hl.pledged_keep hhead ((after _).trans other.symm)) hidden shown shows_iff
  | @claim v j traffic bound other after shown hidden shows_iff =>
    obtain ⟨hp', hc', hclaim, htail, hhead⟩ := hhistory _ traffic
    rw [← hl.stage] at bound
    obtain ⟨k, hk, rfl⟩ := hranked.bound _ _ _ bound
    exact .claim (hp'.trans (List.append_nil _)) (hc'.trans (List.append_nil _)) hclaim hk
      ⟨_, by simp [bound], hk⟩ (hl.pledged_keep htail ((after _).trans other.symm))
      (hl.pledged_use hhead (after _) hk) shown hidden shows_iff

end Machine

end PermitRing.Queue
