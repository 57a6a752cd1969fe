import PermitRing.Proofs.Machine.Balance

/-!
# Every element is delivered once

What a thread has claimed is what its calls have handed out, in this order, and what it has in its
hands; what it has moved in is what its calls have accepted, in this order, and what it has not
answered for. Together with the account of the slots nothing is lost, nothing is handed out twice,
and an element that was turned down is not in the queue.

## Main definitions

* `Deed.popped?`, `Deed.accepted?` — the elements that an answer hands out, or takes over;
* `Machine.inHand`, `Machine.inStore` — what a thread has claimed, or moved in, in its present call;
* `Machine.Idle` — no call is under way.

## Main results

* `Machine.Run.claimed_eq`, `Machine.Run.stored_eq_accepted` — the account of one thread;
* `Machine.Run.exactly_once` — delivery in every interleaving.
-/

namespace PermitRing.Queue

variable {α : Type}

/-! ### Answers -/

/-- The element that a call hands out if it is over. -/
def poppedOf : Progress (Stage α) (Answer α) → Option α
  | .more _ => none
  | .done a => a.popped?

/-- The element that a call has taken over if it is over. -/
def acceptedOf (call : Call α) : Progress (Stage α) (Answer α) → Option α
  | .more _ => none
  | .done a => call.accepted? a

/-- The element that a deed hands out to the caller. -/
def Deed.popped? (d : Deed α) : Option α :=
  poppedOf d.next

/-- The element of a call that a deed ends with success. A call that is turned down, and hands its
element back, has accepted none. -/
def Deed.accepted? (d : Deed α) : Option α :=
  acceptedOf d.call d.next

/-- The element that a thread has claimed and not yet handed out. It lies in the slot until the
thread moves it out. -/
def Stage.inHand (s : Storage α) : Stage α → List α
  | .taking i .remove => (s.slots[i]?.bind Slot.cell).toList
  | .taking _ (.vacate v) | .taken v | .handing v => [v]
  | _ => []

/-- The element that a thread has moved in and not yet answered for. -/
def Stage.inStore (call : Call α) : Stage α → List α
  | .stored => call.value?.toList
  | .returning a | .leaving a | .gone a => (call.accepted? a).toList
  | _ => []

/-! ### Moves -/

section Moves

variable {n : Nat} {call : Call α} {s : Stage α} {k k' : Core α}
  {r : Progress (Stage α) (Answer α)}

/-- What is claimed is handed out in the end. -/
theorem Move.inHand (h : Move call s k r k') (ha : ¬s.Aborts r) (hs : s.Sound n call)
    (hf : ∀ i x, k.storage.slots[i]? = some x → s.Fits i x) :
    s.inHand k.storage ++ (s.claimed? k.storage r).toList =
      (poppedOf r).toList ++ (Stage.after r).inHand k'.storage := by
  cases h with
  | faultTail h | faultWrite h | faultHead h | faultTake h => exact absurd trivial ha
  | @take _ j t t' x x' b hs' h =>
    have hslot := Storage.slots_of_slot hs'
    have hlt : j < k.storage.capacity := (Array.getElem?_eq_some_iff.mp hslot).1
    cases (hf _ _ hslot).takes h with
    | wait => rfl
    | @claim v =>
      simp only [Stage.inHand, Stage.claimed?, Stage.after, poppedOf, hslot,
        Storage.slots_put_self hlt]
      rfl
    | remove =>
      simp only [Stage.inHand, Stage.claimed?, Stage.after, poppedOf, hslot]
      rfl
  | @vacate _ v j t x x' b hs' h =>
    have hslot := Storage.slots_of_slot hs'
    cases (hf _ _ hslot).takes h with
    | vacate => rfl
  | decline hd =>
    show [] = (Answer.popped? _).toList ++ []
    rw [hd.popped]
    rfl
  | @leave _ a hk | @part _ a =>
    have hpopped : a.popped? = none := hs.2
    show [] = a.popped?.toList ++ []
    rw [hpopped]
    rfl
  | _ => rfl

/-- What is moved in is answered for in the end. -/
theorem Move.inStore (h : Move call s k r k') (hs : s.Sound n call) :
    s.inStore call ++ (s.stored? r).toList =
      (acceptedOf call r).toList ++ (Stage.after r).inStore call := by
  cases h with
  | @store _ v j w x x' b hs' h =>
    show [v] = call.value?.toList
    rw [hs.1]
    rfl
  | decline ha =>
    show [] = (call.accepted? _).toList ++ []
    rw [ha.accepted]
    rfl
  | turnBack hk ha | unbuilt hv ha =>
    show [] = (call.accepted? _).toList
    rw [ha.accepted]
    rfl
  | leave hk | part =>
    show (call.accepted? _).toList ++ [] = (call.accepted? _).toList ++ []
    rfl
  | _ => exact List.append_nil _

/-- A cell is touched only by the thread that has claimed its slot. -/
theorem Move.cell_eq (h : Move call s k r k')
    (hf : ∀ i x, k.storage.slots[i]? = some x → s.Fits i x) {i : Nat} (hi : s.tenancy i = 0) :
    k'.storage.slots[i]?.bind Slot.cell = k.storage.slots[i]?.bind Slot.cell := by
  have hput : ∀ {j : Nat} {x x' : Slot α}, k.storage.slots[j]? = some x →
      (j = i → x'.cell = x.cell) →
      (k.storage.put j x').slots[i]?.bind Slot.cell = k.storage.slots[i]?.bind Slot.cell := by
    intro j x x' hx hcell
    by_cases hj : j = i
    · have hlt : j < k.storage.capacity := (Array.getElem?_eq_some_iff.mp hx).1
      rw [← hj, Storage.slots_put_self hlt, hx, Option.bind_some, Option.bind_some, hcell hj]
    · rw [Storage.slots_put_of_ne _ hj]
  cases h with
  | write hs' h =>
    have hslot := Storage.slots_of_slot hs'
    refine hput hslot ?_
    rintro rfl
    cases (hf _ _ hslot).writes h with
    | wait | claim => rfl
    | place => exact absurd hi (by simp [Stage.tenancy])
  | store hs' h =>
    have hslot := Storage.slots_of_slot hs'
    refine hput hslot fun _ => ?_
    cases (hf _ _ hslot).writes h with
    | publish => rfl
  | take hs' h =>
    have hslot := Storage.slots_of_slot hs'
    refine hput hslot ?_
    rintro rfl
    cases (hf _ _ hslot).takes h with
    | wait | claim => rfl
    | remove => exact absurd hi (by simp [Stage.tenancy])
  | vacate hs' h =>
    have hslot := Storage.slots_of_slot hs'
    refine hput hslot fun _ => ?_
    cases (hf _ _ hslot).takes h with
    | vacate => rfl
  | _ => rfl

end Moves

/-! ### The account of one thread -/

namespace Machine

variable {q : Queue α} {programs : List (List (Call α))} {ds : List (Deed α)} {m n : Machine α}
  {d : Deed α} {disc : Discipline} {config : Config} {order : Side → Nat → Nat}

/-- The deeds of one thread. -/
def deedsOf (t : Nat) (ds : List (Deed α)) : List (Deed α) :=
  ds.filter fun d => d.thread == t

theorem deedsOf_concat_self (ds : List (Deed α)) (d : Deed α) :
    deedsOf d.thread (ds ++ [d]) = deedsOf d.thread ds ++ [d] := by
  simp [deedsOf]

theorem deedsOf_concat_of_ne {t : Nat} (ds : List (Deed α)) {d : Deed α} (h : d.thread ≠ t) :
    deedsOf t (ds ++ [d]) = deedsOf t ds := by
  simp [deedsOf, h]

/-- What a thread has claimed and not yet handed out. -/
def inHand (m : Machine α) (t : Nat) : List α :=
  (m.stage t).inHand m.queue.storage

/-- What a thread has in the course of its present call. -/
def inCall {β : Type} (f : Call α → Stage α → List β) (m : Machine α) (t : Nat) : List β :=
  (m.call? t).elim [] fun call => f call (m.stage t)

/-- What a thread has moved in and not yet answered for. -/
def inStore (m : Machine α) (t : Nat) : List α :=
  m.inCall Stage.inStore t

/-- At most one thread has claimed a slot. -/
theorem Tenanted.alone (h : Tenanted m) {i s t : Nat} {x : Slot α}
    (hx : m.queue.storage.slots[i]? = some x) (hs : (m.stage s).tenancy i ≠ 0)
    (ht : (m.stage t).tenancy i ≠ 0) : s = t := by
  by_contra hne
  have hle := add_le_census (f := fun s => (Stage.tenancy i s).card) (m := m) rfl hne
  have hcard : m.census (fun s => (Stage.tenancy i s).card) = x.tenants.card := by
    rw [← (h i x hx).1]
    exact (map_sum Multiset.cardHom _ _).symm
  have hone : x.tenants.card ≤ 1 := by
    rcases x with ⟨_ | _ | _ | _, _ | v⟩ <;> simp [Slot.tenants]
  have := Multiset.card_pos.mpr hs
  have := Multiset.card_pos.mpr ht
  omega

/-- A deed leaves alone what other threads have in their hands. -/
theorem Leads.inHand_other {size : Nat} (h : Leads programs d m n) (ht : Tenanted m)
    (hm : Grounded size m) (hn : Grounded size n) {t : Nat} (hne : t ≠ d.thread) :
    n.inHand t = m.inHand t := by
  rw [inHand, inHand, h.stage_other hne]
  cases hs : m.stage t with
  | taking i a =>
    cases a with
    | remove =>
      refine congrArg Option.toList ?_
      cases hx : m.queue.storage.slots[i]? with
      | none =>
        have hcap : n.queue.storage.slots.size = m.queue.storage.slots.size :=
          hn.core.capacity.trans hm.core.capacity.symm
        have hnone : n.queue.storage.slots[i]? = none := by
          rw [Array.getElem?_eq_none_iff] at hx ⊢
          omega
        rw [hnone]
      | some x =>
        -- the thread has claimed the slot, so the deed is none at its cell
        have htenant : (m.stage t).tenancy i ≠ 0 := by simp [hs, Stage.tenancy]
        have hother : d.stage.tenancy i = 0 := by
          by_contra hd
          exact hne (ht.alone hx htenant (h.stage ▸ hd))
        rw [← hx]
        exact h.move.cell_eq (fun i x hx => h.stage ▸ ht.fits d.thread hx) hother
    | claim w | vacate v => rfl
  | _ => rfl

/-- **What a thread has claimed** is what its calls have handed out and what it has in its hands. -/
theorem Run.claimed_eq (hq : create disc config order = .ok q) (hp : Respects disc programs)
    (h : Run (launch q programs) ds m) (t : Nat) :
    (deedsOf t ds).filterMap Deed.claimed? =
      (deedsOf t ds).filterMap Deed.popped? ++ m.inHand t := by
  induction h with
  | refl =>
    rw [inHand, stage_launch]
    rfl
  | @step ds m n d c hr hs ih =>
    have hl := hr.leads hs
    have hg := hr.grounded hq
    by_cases ht : d.thread = t
    · subst ht
      have hmove := hl.move.inHand (hr.not_aborts hq hp hs) (hl.stage ▸ hg.stage _ _ hl.call)
        fun i x hx => hl.stage ▸ (hr.tenanted hq).fits d.thread hx
      have hclaimed : d.claimed? = d.stage.claimed? m.queue.core.storage d.next := by
        rw [Deed.claimed?, hl.queue]
        rfl
      rw [deedsOf_concat_self, filterMap_concat, filterMap_concat, ih, List.append_assoc,
        List.append_assoc, inHand, hl.stage, hclaimed]
      refine congrArg _ (hmove.trans ?_)
      rw [← hl.after]
      rfl
    · rw [deedsOf_concat_of_ne ds ht, ih, hl.inHand_other (hr.tenanted hq) hg
        ((Run.step c hr hs).grounded hq) (Ne.symm ht)]

/-- **The account of one thread.** If in each step what comes in goes out or is what the thread then
has in its call, then this holds of all that came in and went out. -/
theorem Run.inCall_eq {β : Type} {income outgo : Deed α → Option β}
    {f : Call α → Stage α → List β} (hout : ∀ call, f call .outside = [])
    (hstep : ∀ ds m d n c, Run (launch q programs) ds m → m.act? c = some (d, n) →
      f d.call d.stage ++ (income d).toList =
        (outgo d).toList ++ f d.call (Stage.after d.next))
    (h : Run (launch q programs) ds m) (t : Nat) :
    (deedsOf t ds).filterMap income = (deedsOf t ds).filterMap outgo ++ m.inCall f t := by
  have hnone : ∀ call : Option (Call α), (call.elim [] fun call => f call .outside) = [] := by
    intro call
    cases call with
    | none => rfl
    | some call => exact hout call
  induction h with
  | refl =>
    rw [inCall, stage_launch, hnone]
    rfl
  | @step ds m n d c hr hs ih =>
    have hl := hr.leads hs
    by_cases ht : d.thread = t
    · subst ht
      have hafter : n.inCall f d.thread = f d.call (Stage.after d.next) := by
        rw [inCall, hl.after]
        cases hnext : d.next with
        | more s =>
          rw [hl.call_more s hnext]
          rfl
        | done a => exact (hnone _).trans (hout _).symm
      have hbefore : m.inCall f d.thread = f d.call d.stage := by
        rw [inCall, hl.call, hl.stage]
        rfl
      rw [deedsOf_concat_self, filterMap_concat, filterMap_concat, ih, List.append_assoc,
        List.append_assoc, hafter, hbefore]
      exact congrArg _ (hstep _ _ _ _ _ hr hs)
    · have hother : n.inCall f t = m.inCall f t := by
        rw [inCall, inCall, hl.stage_other (Ne.symm ht), hl.call_other (Ne.symm ht)]
      rw [deedsOf_concat_of_ne ds ht, ih, hother]

/-- **What a thread has moved in** is what its calls have accepted and what it has not answered
for. -/
theorem Run.stored_eq_accepted (hq : create disc config order = .ok q)
    (h : Run (launch q programs) ds m) (t : Nat) :
    (deedsOf t ds).filterMap Deed.stored? =
      (deedsOf t ds).filterMap Deed.accepted? ++ m.inStore t := by
  refine h.inCall_eq (fun _ => rfl) (fun ds m d n c hr hs => ?_) t
  have hl := hr.leads hs
  exact hl.move.inStore (hl.stage ▸ (hr.grounded hq).stage _ _ hl.call)

/-! ### The account of all threads -/

/-- What all threads did is what each of them did. -/
theorem Run.sum_deedsOf {β : Type} (h : Run (launch q programs) ds m) (f : Deed α → Option β) :
    ∑ t ∈ Finset.range programs.length, ((deedsOf t ds).filterMap f : Multiset β) =
      ds.filterMap f := by
  induction h with
  | refl => exact Finset.sum_eq_zero fun t _ => rfl
  | @step ds m n d c hr hs ih =>
    have hl := hr.leads hs
    have hmem : d.thread ∈ Finset.range programs.length :=
      Finset.mem_range.mpr (hr.sane.length ▸ hl.lt)
    have hrest : ∀ t ∈ (Finset.range programs.length).erase d.thread,
        ((deedsOf t (ds ++ [d])).filterMap f : Multiset β) = (deedsOf t ds).filterMap f :=
      fun t ht => by rw [deedsOf_concat_of_ne ds (Finset.ne_of_mem_erase ht).symm]
    rw [← Finset.add_sum_erase _ _ hmem, Finset.sum_congr rfl hrest, deedsOf_concat_self,
      filterMap_concat, filterMap_concat, ← Multiset.coe_add, ← Multiset.coe_add, ← ih,
      ← Finset.add_sum_erase _ _ hmem]
    abel

/-- **The account of all threads.** What was accepted, and what is not answered for, is what was
handed out, what threads have in their hands, and what lies in full slots. -/
theorem Run.accepted_eq (hq : create disc config order = .ok q) (hp : Respects disc programs)
    (h : Run (launch q programs) ds m) :
    (ds.filterMap Deed.accepted? : Multiset α) +
        ∑ t ∈ Finset.range programs.length, (m.inStore t : Multiset α) =
      ds.filterMap Deed.popped? + ∑ t ∈ Finset.range programs.length, (m.inHand t : Multiset α) +
        m.queue.storage.contents := by
  have hstored : (ds.filterMap Deed.stored? : Multiset α) = (ds.filterMap Deed.accepted? :
      Multiset α) + ∑ t ∈ Finset.range programs.length, (m.inStore t : Multiset α) := by
    rw [← h.sum_deedsOf, ← h.sum_deedsOf, ← Finset.sum_add_distrib]
    exact Finset.sum_congr rfl fun t _ => by rw [h.stored_eq_accepted hq, Multiset.coe_add]
  have hclaimed : (ds.filterMap Deed.claimed? : Multiset α) = (ds.filterMap Deed.popped? :
      Multiset α) + ∑ t ∈ Finset.range programs.length, (m.inHand t : Multiset α) := by
    rw [← h.sum_deedsOf, ← h.sum_deedsOf, ← Finset.sum_add_distrib]
    exact Finset.sum_congr rfl fun t _ => by rw [h.claimed_eq hq hp, Multiset.coe_add]
  rw [← hstored, ← hclaimed]
  exact h.stored_eq hq

/-- No call is under way. -/
def Idle (m : Machine α) : Prop :=
  ∀ thread ∈ m.threads, thread.point = none

theorem Idle.outside (h : Idle m) (t : Nat) : m.stage t = .outside := by
  rw [stage]
  cases ht : m.threads[t]? with
  | none => rfl
  | some thread =>
    rw [Option.elim_some, Thread.stage, h thread (List.mem_of_getElem? ht)]
    rfl

/-- What is to be said of the elements at any moment of a run. -/
structure Delivers (programs : List (List (Call α))) (ds : List (Deed α)) (m : Machine α) :
    Prop where
  /-- What was moved in is what was claimed for moving out, and what lies in full slots. -/
  stored : (ds.filterMap Deed.stored? : Multiset α) =
    ds.filterMap Deed.claimed? + m.queue.storage.contents
  /-- What a thread has claimed is what its calls have handed out, in this order, and what it has in
  its hands. -/
  claimed : ∀ t, (deedsOf t ds).filterMap Deed.claimed? =
    (deedsOf t ds).filterMap Deed.popped? ++ m.inHand t
  /-- What a thread has moved in is what its calls have accepted, in this order, and what it has not
  answered for. An element that was handed back is none of them. -/
  accepted : ∀ t, (deedsOf t ds).filterMap Deed.stored? =
    (deedsOf t ds).filterMap Deed.accepted? ++ m.inStore t
  /-- What was accepted, and what is not answered for, is what was handed out, what threads have in
  their hands, and what lies in full slots. -/
  balance : (ds.filterMap Deed.accepted? : Multiset α) +
      ∑ t ∈ Finset.range programs.length, (m.inStore t : Multiset α) =
    ds.filterMap Deed.popped? + ∑ t ∈ Finset.range programs.length, (m.inHand t : Multiset α) +
      m.queue.storage.contents
  /-- Whenever no call is under way, as many slots are full as elements are ready, they are the
  slots from the head on, and the tail stands behind them. -/
  idle : Idle m → m.queue.storage.fullCount = m.queue.size ∧
    (∀ i x, m.queue.storage.slots[i]? = some x →
      (x.isFull = true ↔
        ∃ k < m.queue.size, i = (m.queue.head.position + k) % m.queue.capacity)) ∧
    m.queue.tail.position = (m.queue.head.position + m.queue.size) % m.queue.capacity

/-- **Every element is delivered once**, in every interleaving of the steps of any number of threads
that respect the discipline. -/
theorem Run.exactly_once (hq : create disc config order = .ok q) (hp : Respects disc programs)
    (h : Run (launch q programs) ds m) : Delivers programs ds m where
  stored := h.stored_eq hq
  claimed := h.claimed_eq hq hp
  accepted := h.stored_eq_accepted hq
  balance := h.accepted_eq hq hp
  idle hidle := h.window_of_outside hq hp hidle.outside

/-- Four threads on a queue of two slots: two of them put elements in, one of them with a
constructor that fails, and two take elements out. -/
def crowd : List (List (Call Nat)) :=
  [[.push 1 (.atMost .endless), .push 2 (.atMost .endless)],
    [.push 3 .never, .emplace .never true (.failed "no"), .emplace .never true (.built 4)],
    [.pop (.atMost .endless), .iter],
    [.pop .never, .pop (.atMost .brief), .close]]

/-- Uneven turns of four threads. -/
def unevenTurns (rounds : Nat) : List Choice :=
  (List.replicate rounds [3, 0, 1, 1, 0, 1, 2, 3]).flatten.map fun t => { thread := t }

/-- In the middle of a run: two elements were moved in, one of them is in the hands of the third
thread, which has not answered yet, and the other is in its slot. -/
theorem exactly_once_crowd :
    ∃ q : Queue Nat, create .mpmc { capacity := 2 } (fun _ _ => 0) = .ok q ∧
      Respects .mpmc crowd ∧
      (trace (unevenTurns 8) (launch q crowd)).1.filterMap Deed.stored? = [3, 1] ∧
      (trace (unevenTurns 8) (launch q crowd)).1.filterMap Deed.claimed? = [3] ∧
      (trace (unevenTurns 8) (launch q crowd)).1.filterMap Deed.accepted? = [3, 1] ∧
      (trace (unevenTurns 8) (launch q crowd)).2.inHand 2 = [3] ∧
      Delivers crowd (trace (unevenTurns 8) (launch q crowd)).1
        (trace (unevenTurns 8) (launch q crowd)).2 := by
  have hq : create (α := Nat) .mpmc { capacity := 2 } (fun _ _ => 0) = .ok _ := rfl
  exact ⟨_, hq, respects_mpmc crowd, by decide, by decide, by decide, by decide,
    Run.exactly_once hq (respects_mpmc crowd) (run_trace _ _)⟩

end Machine

end PermitRing.Queue
