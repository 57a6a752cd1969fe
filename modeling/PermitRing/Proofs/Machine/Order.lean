import PermitRing.Proofs.Machine.Passage

/-!
# First in, first out

Slots are matched by positions only, and positions are counted round and round. So it takes the
permits to see that the consumer that got the `k`-th position of the head receives the element that
got the `k`-th position of the tail, and it is true only as long as one side has never more than one
permit in hand: if two producers and two consumers are under way, a thread that stands still while
the others go once around the ring finds another element in its slot than the one it came for.

An element is *live* from when it is moved in until it is claimed. The full slots are those of the
live elements (`Laid`), and this stays so as long as a consumer that finds its slot full finds there
the element of its own rank (`Advances.laid`). A consumer that is alone does, because all elements
that are not claimed have ranks within one round of its own. A producer that is alone lets it do so,
because it moves its elements in by the order of their ranks.

## Main definitions

* `Solo` — at most one permit of the side is in hand at a time;
* `Live`, `Laid` — which elements lie in which slots;
* `Matched`, `InOrder` — what threads receive.

## Main results

* `Machine.Run.laid` — where the elements lie, if one side is single;
* `Machine.Run.fifo_of_solo` — the consumer of the `k`-th position receives the `k`-th element, and
  a single consumer receives what each producer pushed, in this order.
-/

namespace PermitRing.Queue

variable {α : Type}

/-! ### Threads that have a position -/

/-- One if the thread has got a position of the side and has not used it. -/
def Stage.bound (x : Side) (s : Stage α) : Nat :=
  (s.bound? x).isSome.toNat

/-- One if the thread has got a position of the head and has not handed an element out. -/
def Stage.due : Stage α → Nat
  | .head (.leave _) | .taking .. | .taken _ | .handing _ => 1
  | _ => 0

/-- The element that a thread has got a position for and that its call has not answered for. -/
def Stage.inPush (call : Call α) (s : Stage α) : List α :=
  s.carried?.toList ++ s.inStore call

/-- A permit of a consumer is in hand before and after the position is got, and a permit of a
producer for every position of the tail. -/
theorem Stage.unplaced_add_le (s : Stage α) :
    s.unplaced + s.bound .consume + s.ungiven ≤ s.holds := by
  cases s with
  | tail v x | head x => cases x <;> simp [unplaced, bound, bound?, ungiven, holds]
  | taking j t => cases t <;> simp [unplaced, bound, bound?, ungiven, holds]
  | _ => simp [unplaced, bound, bound?, ungiven, holds]

theorem Stage.bound_produce_le (s : Stage α) : s.bound .produce ≤ s.ungiven := by
  cases s with
  | tail v x => cases x <;> simp [bound, bound?, ungiven]
  | _ => simp [bound, bound?, ungiven]

theorem Stage.one_le_bound {x : Side} {s : Stage α} (h : s.bound? x ≠ none) : 1 ≤ s.bound x := by
  obtain ⟨j, hj⟩ := Option.ne_none_iff_exists'.mp h
  rw [bound, hj]
  rfl

/-! ### Moves -/

section Moves

variable {n : Nat} {call : Call α} {s : Stage α} {k k' : Core α}
  {r : Progress (Stage α) (Answer α)}

/-- A consumer that has got a position hands an element out in the end. -/
theorem Conveys.bound_consume (h : Conveys s k r k') :
    (s.ticket? .consume r).isSome.toNat + s.bound .consume =
      (s.claimed? k.storage r).isSome.toNat + (Stage.after r).bound .consume := by
  have hview : ∀ f, s.traffic k.storage r = f →
      s.ticket? .consume r = f.called ∧ s.claimed? k.storage r = f.claimed := by
    rintro _ rfl
    exact ⟨rfl, rfl⟩
  cases h with
  | still traffic bound => simp [hview _ traffic, Stage.bound, bound]
  | place traffic before _ other => simp [hview _ traffic, Stage.bound, before, other]
  | call traffic before bound => simp [hview _ traffic, Stage.bound, before, bound]
  | store traffic _ other _ after => simp [hview _ traffic, Stage.bound, other, after]
  | claim traffic bound _ after => simp [hview _ traffic, Stage.bound, bound, after]

/-- A consumer that has got a position hands out an element in the end. -/
theorem Move.due (hn : n < Word.size) (h : Move call s k r k') (ha : ¬s.Aborts r)
    (hk : k.Bounded n) (hs : s.Sound n call) :
    (s.ticket? .consume r).isSome.toNat + s.due =
      (poppedOf r).isSome.toNat + (Stage.after r).due := by
  have hcap := hk.capacity
  cases h with
  | faultTail h | faultWrite h | faultHead h | faultTake h => exact absurd trivial ha
  | claimHead h | gainHead h =>
    rw [hcap] at h
    cases Index.claims_of_step hn hs h <;> rfl
  | decline hd =>
    show 0 = (Answer.popped? _).isSome.toNat
    rw [hd.popped]
    rfl
  | leave hk | part =>
    show 0 = (Answer.popped? _).isSome.toNat
    rw [hs.2]
    rfl
  | _ => rfl

/-- An element that got a position is answered for in the end. -/
theorem Move.inPush (hn : n < Word.size) (h : Move call s k r k') (ha : ¬s.Aborts r)
    (hk : k.Bounded n) (hs : s.Sound n call) :
    s.inPush call ++ ((s.placed? r).map Prod.fst).toList =
      (acceptedOf call r).toList ++ (Stage.after r).inPush call := by
  have hcap := hk.capacity
  cases h with
  | faultTail h | faultWrite h | faultHead h | faultTake h => exact absurd trivial ha
  | claimTail h | gainTail h =>
    rw [hcap] at h
    cases Index.claims_of_step hn hs.2 h <;> rfl
  | store hs' h =>
    show [_] = call.value?.toList
    rw [hs.1]
    rfl
  | decline hd =>
    show [] = (call.accepted? _).toList ++ []
    rw [hd.accepted]
    rfl
  | turnBack hk hd | unbuilt hv hd =>
    show [] = (call.accepted? _).toList
    rw [hd.accepted]
    rfl
  | leave hk | part =>
    show (call.accepted? _).toList ++ [] = (call.accepted? _).toList ++ []
    rfl
  | _ => exact List.append_nil _

end Moves

/-- What is in the hands of a thread of a side that makes no call for it is nothing. -/
theorem Point.Apt.uses_of_holding {call : Call α} {p : Point α} (hp : p.Apt call) {x : Side}
    (hx : p.stage.holding x ≠ 0) : call.uses x = true := by
  cases p with
  | producing p =>
    cases x with
    | produce => exact hp.1
    | consume =>
      refine absurd ?_ hx
      rcases p with _ | _ | _ | _ | _ | _ | _ | _ | _ | _ | _ | _ | ⟨_, _ | _ | _⟩ <;> rfl
  | consuming p =>
    cases x with
    | produce =>
      refine absurd ?_ hx
      rcases p with _ | _ | _ | _ | a | _ | _ | _ | _
      case wait => cases a <;> rfl
      all_goals rfl
    | consume => exact hp.1
  | closing p | observing p => cases x <;> exact absurd rfl hx

namespace Machine

variable {q : Queue α} {programs : List (List (Call α))} {ds : List (Deed α)} {m n : Machine α}
  {d : Deed α} {disc : Discipline} {config : Config} {order : Side → Nat → Nat} {x : Side}

/-! ### A single side -/

/-- At most one permit of the side is in hand at a time: until a thread that has taken one hands it
back, or hands one of the other side out for it, no other thread takes one. -/
def Solo (x : Side) (ds : List (Deed α)) : Prop :=
  ∀ es, es <+: ds → es.countP (Deed.takes x) ≤ es.countP (Deed.settles x) + 1

theorem Solo.mono {es : List (Deed α)} (h : Solo x ds) (he : es <+: ds) : Solo x es :=
  fun fs hf => h fs (hf.trans he)

theorem Run.census_holding_le (hq : create disc config order = .ok q) (hp : Respects disc programs)
    (h : Run (launch q programs) ds m) (hsolo : Solo x ds) : m.census (Stage.holding x) ≤ 1 := by
  have htakes := (h.takes_eq hq hp x).1
  have hle := hsolo ds (List.prefix_refl ds)
  omega

/-- A side that one thread uses is single. -/
theorem Run.solo (hq : create disc config order = .ok q) (hp : Respects disc programs)
    (h : Run (launch q programs) ds m) {t : Nat}
    (ht : ∀ s, Makes (Call.uses x) programs s → s = t) : Solo x ds := by
  intro es hes
  obtain ⟨fs, rfl⟩ := hes
  obtain ⟨m', hm', -⟩ := h.of_append
  have htakes := (hm'.takes_eq hq hp x).1
  have hcensus : m'.census (Stage.holding x) ≤ 1 := by
    have hother : ∀ s ∈ Finset.range m'.threads.length, s ≠ t → (m'.stage s).holding x = 0 := by
      intro s _ hs
      by_contra hne
      refine hs (ht s ?_)
      exact hm'.makes_of_apt (P := fun s => s.holding x ≠ 0) (by cases x <;> exact fun hn => hn rfl)
        (fun _ _ hapt hx => hapt.uses_of_holding hx) hne
    rw [census, Finset.sum_eq_single t hother fun hnot => ?_]
    · generalize m'.stage t = s
      cases x <;> cases s <;> simp [Stage.holding]
    · rw [stage_of_length_le (by simpa using hnot)]
      cases x <;> rfl
  omega

/-- Of a single side at most one position is still to be used. -/
theorem Run.pledged_unique (hq : create disc config order = .ok q) (hp : Respects disc programs)
    (h : Run (launch q programs) ds m) (hsolo : Solo x ds) {k l : Nat} (hk : Pledged x ds m k)
    (hl : Pledged x ds m l) : k = l := by
  obtain ⟨s, hs, hsk⟩ := hk
  obtain ⟨t, ht, htl⟩ := hl
  have hst : s = t := by
    by_contra hne
    have hle := add_le_census (f := Stage.holding x) (m := m) (by cases x <;> rfl) hne
    have hone := h.census_holding_le hq hp hsolo
    rw [Stage.holding_of_bound? (Option.isSome_iff_ne_none.mpr hs),
      Stage.holding_of_bound? (Option.isSome_iff_ne_none.mpr ht)] at hle
    omega
  subst hst
  exact Option.some.inj (hsk.symm.trans htl)

/-- **On a single side the position that is still to be used is the last one.** -/
theorem Run.pledged_last (hq : create disc config order = .ok q) (hp : Respects disc programs)
    (h : Run (launch q programs) ds m) (hsolo : Solo x ds) {k : Nat} (hk : Pledged x ds m k) :
    k + 1 = (claimants x ds).length := by
  induction h generalizing k with
  | refl =>
    obtain ⟨t, hb, -⟩ := hk
    rw [stage_launch] at hb
    cases x <;> exact absurd rfl hb
  | @step ds m n d c hr hs ih =>
    have hunique {l : Nat} (hl : Pledged x (ds ++ [d]) n l) : k = l :=
      (Run.step c hr hs).pledged_unique hq hp hsolo hk hl
    have hbefore {l : Nat} (hl : Pledged x ds m l) : l + 1 = (claimants x ds).length :=
      ih (hsolo.mono (List.prefix_append ds [d])) hl
    have hadv := hr.advances hq hp hs
    cases x with
    | produce =>
      rw [← length_placed] at hbefore ⊢
      cases hadv with
      | still placed _ _ produce | call placed _ _ produce | claim placed _ _ _ _ produce =>
        rw [placed]
        exact hbefore ((produce k).mp hk)
      | place placed _ _ produce =>
        rw [placed, hunique ((produce _).mpr (.inr rfl)), List.length_append]
        rfl
      | store placed _ _ _ _ produce =>
        rw [placed]
        exact hbefore ((produce k).mp hk).1
    | consume =>
      cases hadv with
      | still _ called _ _ consume | place _ called _ _ consume | store _ called _ _ _ _ consume =>
        rw [called]
        exact hbefore ((consume k).mp hk)
      | call _ called _ _ consume =>
        rw [called, hunique ((consume _).mpr (.inr rfl)), List.length_append]
        rfl
      | claim _ called _ _ _ _ consume =>
        rw [called]
        exact hbefore ((consume k).mp hk).1

/-! ### Counting positions -/

/-- **Neither side is a round ahead of the other.** No consumer gets a position before its element
is moved in, and no producer gets one before its slot is given back. -/
theorem Run.claimants_le (hq : create disc config order = .ok q) (hp : Respects disc programs)
    (h : Run (launch q programs) ds m) :
    (claimants .consume ds).length + m.census (Stage.bound .produce) ≤ (placed ds).length ∧
      (placed ds).length + m.census (Stage.bound .consume) ≤
        (claimants .consume ds).length + config.capacity := by
  have htickets := h.tickets_length_eq hq hp
  have hpermits := h.permits_eq hq hp
  have hproduce : m.census (Stage.bound .produce) ≤ m.census Stage.ungiven :=
    Finset.sum_le_sum fun t _ => (m.stage t).bound_produce_le
  have hconsume : m.census Stage.unplaced + m.census (Stage.bound .consume) +
      m.census Stage.ungiven ≤ m.census Stage.holds := by
    simp only [census, ← Finset.sum_add_distrib]
    exact Finset.sum_le_sum fun t _ => (m.stage t).unplaced_add_le
  rw [length_placed, length_claimants, length_claimants]
  omega

theorem Pledged.one_le_census {k : Nat} (h : Pledged x ds m k) : 1 ≤ m.census (Stage.bound x) := by
  obtain ⟨t, ht, -⟩ := h
  exact (Stage.one_le_bound ht).trans (le_census (by cases x <;> rfl) t)

/-! ### Live elements -/

/-- The element with a rank has not been claimed by the consumer with this rank. -/
def Unclaimed (ds : List (Deed α)) (m : Machine α) (k : Nat) : Prop :=
  (claimants .consume ds).length ≤ k ∨ Pledged .consume ds m k

/-- The element with a rank is moved in and not claimed. -/
structure Live (ds : List (Deed α)) (m : Machine α) (k : Nat) : Prop where
  lt : k < (placed ds).length
  stored : ¬Pledged .produce ds m k
  unclaimed : Unclaimed ds m k

/-- The full slots are those of the live elements. -/
structure Laid (size : Nat) (ds : List (Deed α)) (m : Machine α) : Prop where
  apart : ∀ k l, Live ds m k → Live ds m l → k % size = l % size → k = l
  shown : ∀ k, Live ds m k → ∃ a, (placed ds)[k]? = some a ∧ m.queue.core.Shows (k % size) a.2
  live : ∀ i v, m.queue.core.Shows i v → ∃ k, Live ds m k ∧ k % size = i
  unclaimed : ∀ k, Pledged .produce ds m k → Unclaimed ds m k

/-- Each consumer that finds its slot full finds the element of its own rank there. -/
def Meets (size : Nat) (ds : List (Deed α)) (m : Machine α) : Prop :=
  ∀ k v, Pledged .consume ds m k → m.queue.core.Shows (k % size) v → Live ds m k

section Laid

variable {size : Nat}

/-- What the slot of a consumer shows is the element of its rank. -/
theorem Laid.element (h : Laid size ds m) (hm : Meets size ds m) {k : Nat} {v : α}
    (hk : Pledged .consume ds m k) (hv : m.queue.core.Shows (k % size) v) :
    ∃ t, (placed ds)[k]? = some (t, v) := by
  obtain ⟨⟨t, w⟩, ha, hw⟩ := h.shown k (hm k v hk hv)
  cases hv.unique hw
  exact ⟨t, ha⟩

theorem live_congr (hplaced : placed (ds ++ [d]) = placed ds)
    (hproduce : ∀ k, Pledged .produce (ds ++ [d]) n k ↔ Pledged .produce ds m k)
    (hunclaimed : ∀ k, Unclaimed (ds ++ [d]) n k ↔ Unclaimed ds m k) (k : Nat) :
    Live (ds ++ [d]) n k ↔ Live ds m k := by
  constructor <;> rintro ⟨hlt, hstored, hun⟩
  · exact ⟨hplaced ▸ hlt, (hproduce k).not.mp hstored, (hunclaimed k).mp hun⟩
  · exact ⟨hplaced.symm ▸ hlt, (hproduce k).not.mpr hstored, (hunclaimed k).mpr hun⟩

/-- A deed that moves no element in and claims none leaves all live elements where they are. -/
theorem Laid.congr (h : Laid size ds m)
    (hplaced : ∀ (k : Nat) (a : Nat × α), (placed ds)[k]? = some a →
      (placed (ds ++ [d]))[k]? = some a)
    (hlive : ∀ k, Live (ds ++ [d]) n k ↔ Live ds m k)
    (hshows : ∀ i w, n.queue.core.Shows i w ↔ m.queue.core.Shows i w)
    (hunclaimed : ∀ k, Pledged .produce (ds ++ [d]) n k → Unclaimed (ds ++ [d]) n k) :
    Laid size (ds ++ [d]) n := by
  refine ⟨fun k l hk hl => h.apart k l ((hlive k).mp hk) ((hlive l).mp hl), fun k hk => ?_,
    fun i v hv => ?_, hunclaimed⟩
  · obtain ⟨a, ha, hv⟩ := h.shown k ((hlive k).mp hk)
    exact ⟨a, hplaced k a ha, (hshows _ _).mpr hv⟩
  · obtain ⟨k, hk, hi⟩ := h.live i v ((hshows i v).mp hv)
    exact ⟨k, (hlive k).mpr hk, hi⟩

/-- An element is moved into a slot that was empty. -/
theorem Laid.store (h : Laid size ds m) {k : Nat} {a : Nat × α}
    (hplaced : placed (ds ++ [d]) = placed ds) (ha : (placed ds)[k]? = some a)
    (hlive : ∀ l, Live (ds ++ [d]) n l ↔ Live ds m l ∨ l = k)
    (hidden : ∀ w, ¬m.queue.core.Shows (k % size) w)
    (hshown : n.queue.core.Shows (k % size) a.2)
    (hshows : ∀ i, i ≠ k % size → ∀ w, n.queue.core.Shows i w ↔ m.queue.core.Shows i w)
    (hunclaimed : ∀ k, Pledged .produce (ds ++ [d]) n k → Unclaimed (ds ++ [d]) n k) :
    Laid size (ds ++ [d]) n := by
  have hne : ∀ l, Live ds m l → l % size ≠ k % size := by
    intro l hl he
    obtain ⟨b, -, hb⟩ := h.shown l hl
    exact hidden _ (he ▸ hb)
  refine ⟨fun l l' hl hl' he => ?_, fun l hl => ?_, fun i v hv => ?_, hunclaimed⟩
  · rcases (hlive l).mp hl with hl | rfl <;> rcases (hlive l').mp hl' with hl' | rfl
    · exact h.apart l l' hl hl' he
    · exact absurd he (hne l hl)
    · exact absurd he.symm (hne l' hl')
    · rfl
  · rw [hplaced]
    rcases (hlive l).mp hl with hl | rfl
    · obtain ⟨b, hb, hv⟩ := h.shown l hl
      exact ⟨b, hb, (hshows _ (hne l hl) _).mpr hv⟩
    · exact ⟨a, ha, hshown⟩
  · by_cases hi : i = k % size
    · exact ⟨k, (hlive k).mpr (.inr rfl), hi.symm⟩
    · obtain ⟨l, hl, hli⟩ := h.live i v ((hshows i hi v).mp hv)
      exact ⟨l, (hlive l).mpr (.inl hl), hli⟩

/-- An element is claimed by the consumer of its rank. -/
theorem Laid.claim (h : Laid size ds m) {k : Nat} (hplaced : placed (ds ++ [d]) = placed ds)
    (hk : Live ds m k) (hlive : ∀ l, Live (ds ++ [d]) n l ↔ Live ds m l ∧ l ≠ k)
    (hidden : ∀ w, ¬n.queue.core.Shows (k % size) w)
    (hshows : ∀ i, i ≠ k % size → ∀ w, n.queue.core.Shows i w ↔ m.queue.core.Shows i w)
    (hunclaimed : ∀ k, Pledged .produce (ds ++ [d]) n k → Unclaimed (ds ++ [d]) n k) :
    Laid size (ds ++ [d]) n := by
  refine ⟨fun l l' hl hl' => h.apart l l' ((hlive l).mp hl).1 ((hlive l').mp hl').1,
    fun l hl => ?_, fun i v hv => ?_, hunclaimed⟩
  · obtain ⟨hl, hne⟩ := (hlive l).mp hl
    obtain ⟨b, hb, hv⟩ := h.shown l hl
    rw [hplaced]
    exact ⟨b, hb, (hshows _ (fun he => hne (h.apart l k hl hk he)) _).mpr hv⟩
  · have hi : i ≠ k % size := by
      rintro rfl
      exact hidden v hv
    obtain ⟨l, hl, rfl⟩ := h.live i v ((hshows i hi v).mp hv)
    refine ⟨l, (hlive l).mpr ⟨hl, ?_⟩, rfl⟩
    rintro rfl
    exact hi rfl

/-- **The live elements stay where they are laid**, as long as consumers meet their own. -/
theorem Advances.laid (hadv : Advances size ds m d n) (h : Laid size ds m) (hm : Meets size ds m)
    (hle : (claimants .consume ds).length ≤ (placed ds).length) : Laid size (ds ++ [d]) n := by
  cases hadv with
  | still placed called claimed produce consume shows_iff =>
    have hunclaimed (k : Nat) : Unclaimed (ds ++ [d]) n k ↔ Unclaimed ds m k := by
      rw [Unclaimed, Unclaimed, called, consume]
    exact h.congr (fun k a ha => placed ▸ ha) (live_congr placed produce hunclaimed) shows_iff
      fun k hk => (hunclaimed k).mpr (h.unclaimed k ((produce k).mp hk))
  | @place v placed called claimed produce consume shows_iff =>
    have hunclaimed (k : Nat) : Unclaimed (ds ++ [d]) n k ↔ Unclaimed ds m k := by
      rw [Unclaimed, Unclaimed, called, consume]
    refine h.congr (fun k a ha => ?_) (fun k => ?_) shows_iff fun k hk => ?_
    · rw [placed, List.getElem?_append_left (List.getElem?_eq_some_iff.mp ha).1, ha]
    · constructor <;> rintro ⟨hlt, hstored, hun⟩
      · rw [produce, not_or] at hstored
        rw [placed, List.length_append, List.length_singleton] at hlt
        exact ⟨by omega, hstored.1, (hunclaimed k).mp hun⟩
      · refine ⟨?_, ?_, (hunclaimed k).mpr hun⟩
        · rw [placed, List.length_append]
          omega
        · rw [produce, not_or]
          exact ⟨hstored, by omega⟩
    · rw [hunclaimed]
      rcases (produce k).mp hk with hk | rfl
      · exact h.unclaimed k hk
      · exact .inl hle
  | call placed called claimed produce consume shows_iff =>
    have hunclaimed (k : Nat) : Unclaimed (ds ++ [d]) n k ↔ Unclaimed ds m k := by
      rw [Unclaimed, Unclaimed, called, consume, List.length_append, List.length_singleton]
      constructor
      · rintro (hk | hk | hk)
        · exact .inl (by omega)
        · exact .inr hk
        · exact .inl hk.ge
      · rintro (hk | hk)
        · rcases hk.eq_or_lt with hk | hk
          · exact .inr (.inr hk.symm)
          · exact .inl hk
        · exact .inr (.inl hk)
    exact h.congr (fun k a ha => placed ▸ ha) (live_congr placed produce hunclaimed) shows_iff
      fun k hk => (hunclaimed k).mpr (h.unclaimed k ((produce k).mp hk))
  | @store k v placed called claimed pledged element produce consume hidden shown shows_iff =>
    have hunclaimed (k : Nat) : Unclaimed (ds ++ [d]) n k ↔ Unclaimed ds m k := by
      rw [Unclaimed, Unclaimed, called, consume]
    refine h.store placed element (fun l => ?_) hidden shown shows_iff fun l hl => ?_
    · constructor
      · rintro ⟨hlt, hstored, hun⟩
        rw [produce, not_and_not_right] at hstored
        by_cases hl : Pledged .produce ds m l
        · exact .inr (hstored hl)
        · exact .inl ⟨placed ▸ hlt, hl, (hunclaimed l).mp hun⟩
      · rintro (⟨hlt, hstored, hun⟩ | rfl)
        · exact ⟨placed.symm ▸ hlt, fun hl => hstored ((produce l).mp hl).1, (hunclaimed l).mpr hun⟩
        · have hun := (hunclaimed l).mpr (h.unclaimed l pledged)
          refine ⟨?_, fun hl => ((produce l).mp hl).2 rfl, hun⟩
          rw [placed, length_placed]
          exact pledged.lt
    · exact (hunclaimed l).mpr (h.unclaimed l ((produce l).mp hl).1)
  | @claim k v placed called claimed rank pledged produce consume shown hidden shows_iff =>
    have hlive := hm k v pledged shown
    have hlt := pledged.lt
    have hunclaimed (l : Nat) : Unclaimed (ds ++ [d]) n l ↔ Unclaimed ds m l ∧ l ≠ k := by
      rw [Unclaimed, Unclaimed, called, consume]
      constructor
      · rintro (hl | ⟨hl, hne⟩)
        · exact ⟨.inl hl, by omega⟩
        · exact ⟨.inr hl, hne⟩
      · rintro ⟨hl | hl, hne⟩
        · exact .inl hl
        · exact .inr ⟨hl, hne⟩
    refine h.claim placed hlive (fun l => ?_) hidden shows_iff fun l hl => ?_
    · constructor
      · rintro ⟨hlt, hstored, hun⟩
        obtain ⟨hun, hne⟩ := (hunclaimed l).mp hun
        exact ⟨⟨placed ▸ hlt, (produce l).not.mp hstored, hun⟩, hne⟩
      · rintro ⟨⟨hlt, hstored, hun⟩, hne⟩
        exact ⟨placed.symm ▸ hlt, (produce l).not.mpr hstored, (hunclaimed l).mpr ⟨hun, hne⟩⟩
    · have hl := (produce l).mp hl
      refine (hunclaimed l).mpr ⟨h.unclaimed l hl, ?_⟩
      rintro rfl
      exact hlive.stored hl

end Laid

theorem laid_launch (hq : create disc config order = .ok q) (programs : List (List (Call α)))
    (size : Nat) : Laid size [] (launch q programs) := by
  have hlive (k : Nat) : ¬Live ([] : List (Deed α)) (launch q programs) k :=
    fun h => absurd h.lt (Nat.not_lt_zero k)
  refine ⟨fun k l hk => absurd hk (hlive k), fun k hk => absurd hk (hlive k), fun i v hv => ?_,
    fun k hk => ?_⟩
  · rw [Core.Shows, launch, eq_of_create hq] at hv
    simp only [core, Storage.vacant, Array.getElem?_replicate] at hv
    split at hv <;> cases hv
  · exact absurd hk.lt (Nat.not_lt_zero k)

/-- A consumer that is alone: what is not claimed has ranks within one round of its own. -/
theorem Run.meets_of_consume (hq : create disc config order = .ok q) (hp : Respects disc programs)
    (h : Run (launch q programs) ds m) (hsolo : Solo .consume ds)
    (hlaid : Laid config.capacity ds m) : Meets config.capacity ds m := by
  intro k v hk hv
  obtain ⟨l, hl, hslot⟩ := hlaid.live _ v hv
  have hlast := h.pledged_last hq hp hsolo hk
  have hcount := (h.claimants_le hq hp).2
  have hone := hk.one_le_census
  have hlt := hl.lt
  have hge : k ≤ l := by
    rcases hl.unclaimed with hcalled | hpledged
    · omega
    · exact (h.pledged_unique hq hp hsolo hk hpledged).le
  obtain ⟨e, rfl⟩ := Nat.exists_eq_add_of_le hge
  cases e with
  | zero => exact hl
  | succ e => exact absurd hslot.symm (Storage.add_mod_ne (i := 0) (by omega) (by omega))

/-- A producer that is alone: it moves elements in by the order of their ranks, before consumers get
their positions. -/
theorem Run.meets_of_produce (hq : create disc config order = .ok q) (hp : Respects disc programs)
    (h : Run (launch q programs) ds m) (hsolo : Solo .produce ds) : Meets config.capacity ds m := by
  intro k v hk _
  have hlt := hk.lt
  have hcount := (h.claimants_le hq hp).1
  refine ⟨by omega, fun hstored => ?_, .inr hk⟩
  have hlast := h.pledged_last hq hp hsolo hstored
  have hone := hstored.one_le_census
  rw [← length_placed] at hlast
  omega

/-- **Where the elements lie** in a run in which one side is single. -/
theorem Run.laid (hq : create disc config order = .ok q) (hp : Respects disc programs)
    (h : Run (launch q programs) ds m) (hsolo : Solo .produce ds ∨ Solo .consume ds) :
    Laid config.capacity ds m ∧ Meets config.capacity ds m := by
  have hmeets {ds : List (Deed α)} {m : Machine α} (h : Run (launch q programs) ds m)
      (hsolo : Solo .produce ds ∨ Solo .consume ds) (hlaid : Laid config.capacity ds m) :
      Meets config.capacity ds m :=
    hsolo.elim (h.meets_of_produce hq hp) fun hc => h.meets_of_consume hq hp hc hlaid
  suffices hlaid : Laid config.capacity ds m from ⟨hlaid, hmeets h hsolo hlaid⟩
  induction h with
  | refl => exact laid_launch hq programs _
  | @step ds m n d c hr hs ih =>
    have hbefore : Solo .produce ds ∨ Solo .consume ds :=
      hsolo.imp (·.mono (List.prefix_append ds [d])) (·.mono (List.prefix_append ds [d]))
    have hlaid := ih hbefore
    have hle := (hr.claimants_le hq hp).1
    exact (hr.advances hq hp hs).laid hlaid (hmeets hr hbefore hlaid) (by omega)

/-! ### What consumers receive -/

/-- The element that got the position of the tail with a rank. -/
def element? (ds : List (Deed α)) (k : Nat) : Option α :=
  ((placed ds)[k]?).map Prod.snd

theorem element?_congr {es : List (Deed α)} (h : placed es = placed ds) :
    element? es = element? ds := by
  funext k
  rw [element?, element?, h]

theorem ranks_congr {es : List (Deed α)} (h : claimants x es = claimants x ds) (t : Nat) :
    ranks x t es = ranks x t ds := by
  rw [ranks, ranks, h]

theorem length_ranks (x : Side) (t : Nat) (ds : List (Deed α)) :
    (ranks x t ds).length = (deedsOf t ds).countP fun d => (d.ticket? x).isSome := by
  induction ds using List.reverseRecOn with
  | nil => rfl
  | append_singleton ds d ih =>
    by_cases ht : d.thread = t
    · subst ht
      rw [deedsOf_concat_self, countP_concat, ← ih]
      cases hd : d.ticket? x with
      | none =>
        rw [ranks_concat_of_none hd]
        rfl
      | some j =>
        rw [ranks_concat_self hd, List.length_append]
        rfl
    · rw [ranks_concat_of_ne (Ne.symm ht), deedsOf_concat_of_ne ds ht, ih]

/-- What a thread has claimed are the elements of its ranks, but for the last if it has still to
claim that. -/
theorem Run.length_ranks_eq (hq : create disc config order = .ok q) (hp : Respects disc programs)
    (h : Run (launch q programs) ds m) (t : Nat) :
    (ranks .consume t ds).length =
      ((deedsOf t ds).filterMap Deed.claimed?).length + (m.stage t).bound .consume := by
  rw [length_ranks, List.length_filterMap_eq_countP]
  refine (h.countP_eq (f := Stage.bound .consume) rfl ?_).2 t
  intro ds m d n c hr hs
  have hclaimed : d.claimed? = d.stage.claimed? m.queue.core.storage d.next := by
    rw [Deed.claimed?, (hr.leads hs).queue]
    rfl
  rw [hclaimed]
  exact (hr.conveys hq hp hs).bound_consume

theorem filterMap_deedsOf_of_none {β : Type} {f : Deed α → Option β} (hd : f d = none) (t : Nat) :
    (deedsOf t (ds ++ [d])).filterMap f = (deedsOf t ds).filterMap f := by
  by_cases ht : d.thread = t
  · subst ht
    rw [deedsOf_concat_self, filterMap_concat, hd]
    exact List.append_nil _
  · rw [deedsOf_concat_of_ne ds ht]

/-- **A thread claims the elements of its ranks**, in a run in which one side is single. -/
theorem Run.claimed_ranks (hq : create disc config order = .ok q) (hp : Respects disc programs)
    (h : Run (launch q programs) ds m) (hsolo : Solo .produce ds ∨ Solo .consume ds) (t : Nat) :
    ((deedsOf t ds).filterMap Deed.claimed?).map some <+:
      (ranks .consume t ds).map (element? ds) := by
  induction h with
  | refl => exact List.nil_prefix
  | @step ds m n d c hr hs ih =>
    have hbefore : Solo .produce ds ∨ Solo .consume ds :=
      hsolo.imp (·.mono (List.prefix_append ds [d])) (·.mono (List.prefix_append ds [d]))
    have hold := ih hbefore
    obtain ⟨hlaid, hmeets⟩ := hr.laid hq hp hbefore
    cases hr.advances hq hp hs with
    | still placed called claimed | store placed called claimed =>
      rwa [filterMap_deedsOf_of_none claimed, ranks_congr called, element?_congr placed]
    | place placed called claimed =>
      -- ranks of the head are behind the end of the list that grows
      have helement : ∀ k ∈ ranks .consume t ds, element? (ds ++ [d]) k = element? ds k := by
        intro k hk
        have hlt := (List.getElem?_eq_some_iff.mp (mem_ranks.mp hk)).1
        have hle := (hr.claimants_le hq hp).1
        rw [element?, element?, placed, List.getElem?_append_left (by omega)]
      rwa [filterMap_deedsOf_of_none claimed, ranks_congr called, List.map_congr_left helement]
    | call placed called claimed =>
      rw [filterMap_deedsOf_of_none claimed, element?_congr placed, ranks, called,
        List.idxsOf_append, List.map_append]
      exact hold.trans (List.prefix_append _ _)
    | @claim k v placed called claimed rank pledged _ _ shown =>
      rw [ranks_congr called, element?_congr placed]
      by_cases ht : d.thread = t
      · subst ht
        -- one rank is left to be claimed, and the slot shows its element
        obtain ⟨s, helement⟩ := hlaid.element hmeets pledged shown
        obtain ⟨rest, hrest⟩ := hold
        have hlength := (Run.step c hr hs).length_ranks_eq hq hp d.thread
        have hbound := hr.length_ranks_eq hq hp d.thread
        have hone : (m.stage d.thread).bound .consume ≤ 1 := Bool.toNat_le _
        have hcount := congrArg List.length hrest
        rw [ranks_congr called, deedsOf_concat_self, filterMap_concat, claimed] at hlength
        simp only [List.length_append, List.length_map, Option.toList_some,
          List.length_singleton] at hlength hcount
        obtain ⟨a, rfl⟩ : ∃ a, rest = [a] := List.length_eq_one_iff.mp (by omega)
        have hlast := congrArg List.getLast? hrest
        rw [List.getLast?_concat, List.getLast?_map, rank, Option.map_some, element?, helement]
          at hlast
        rw [deedsOf_concat_self, filterMap_concat, claimed, List.map_append, ← hrest,
          Option.some.inj hlast]
        exact List.prefix_refl _
      · rwa [deedsOf_concat_of_ne ds ht]

/-- What threads have received are the elements that got the positions of the tail with the ranks of
their positions of the head. -/
structure Matched (ds : List (Deed α)) (m : Machine α) : Prop where
  /-- The thread that got the `k`-th position of the head receives the element that got the `k`-th
  position of the tail. -/
  received : ∀ t, ((deedsOf t ds).filterMap Deed.popped?).map some <+:
    (ranks .consume t ds).map (element? ds)
  /-- It has received one for each of them, but for the last if it is still under way. -/
  due : ∀ t, (ranks .consume t ds).length =
    ((deedsOf t ds).filterMap Deed.popped?).length + (m.stage t).due

theorem Run.matched (hq : create disc config order = .ok q) (hp : Respects disc programs)
    (h : Run (launch q programs) ds m) (hsolo : Solo .produce ds ∨ Solo .consume ds) :
    Matched ds m := by
  refine ⟨fun t => ?_, fun t => ?_⟩
  · have hclaimed := h.claimed_ranks hq hp hsolo t
    rw [h.claimed_eq hq hp t, List.map_append] at hclaimed
    exact (List.prefix_append _ _).trans hclaimed
  · rw [length_ranks, List.length_filterMap_eq_countP]
    refine (h.countP_eq (f := Stage.due) rfl ?_).2 t
    intro ds m d n c hr hs
    have hl := hr.leads hs
    have hg := hr.grounded hq
    exact hl.move.due (capacity_of_create hq).2 (hr.not_aborts hq hp hs) hg.core
      (hl.stage ▸ hg.stage _ _ hl.call)

/-! ### A single consumer -/

/-- A thread that gets positions of a side makes calls that use the side. -/
theorem Run.makes_of_claimant (h : Run (launch q programs) ds m) {t : Nat}
    (ht : t ∈ claimants x ds) : Makes (Call.uses x) programs t := by
  induction h with
  | refl => cases ht
  | @step ds m n d c hr hs ih =>
    rw [claimants_concat, List.mem_append] at ht
    rcases ht with ht | ht
    · exact ih ht
    · cases hd : d.ticket? x with
      | none =>
        rw [hd] at ht
        cases ht
      | some j =>
        rw [hd, Option.map_some, Option.toList_some, List.mem_singleton] at ht
        subst ht
        refine hr.makes fun hnone => ?_
        rw [(hr.leads hs).stage] at hnone
        simp [Deed.ticket?, Stage.ticket?, hnone] at hd

theorem ranks_of_sole {t : Nat} (h : ∀ s ∈ claimants x ds, s = t) :
    ranks x t ds = List.range (claimants x ds).length := by
  have key : ∀ l : List Nat, (∀ s ∈ l, s = t) → l.idxsOf t = List.range l.length := by
    intro l hl
    induction l using List.reverseRecOn with
    | nil => rfl
    | append_singleton l s ih =>
      have hs := hl s (by simp)
      subst hs
      rw [List.idxsOf_append, ih fun s' hs' => hl s' (by simp [hs'])]
      simp [List.range_succ]
  exact key _ h

theorem map_element?_range {k : Nat} (hk : k ≤ (placed ds).length) :
    (List.range k).map (element? ds) = (((placed ds).take k).map Prod.snd).map some := by
  refine List.ext_getElem (by simp [hk]) fun i hi _ => ?_
  have hlt : i < (placed ds).length := by
    rw [List.length_map, List.length_range] at hi
    omega
  simp [element?, hlt]

/-- The elements of one thread are those that it puts in. -/
theorem map_snd_filter_placed (t : Nat) (ds : List (Deed α)) :
    ((placed ds).filter fun a => a.1 == t).map Prod.snd =
      (deedsOf t ds).filterMap Deed.placed? := by
  induction ds using List.reverseRecOn with
  | nil => rfl
  | append_singleton ds d ih =>
    rw [placed_concat, List.filter_append, List.map_append, ih]
    by_cases ht : d.thread = t
    · subst ht
      rw [deedsOf_concat_self, filterMap_concat]
      cases d.placed? <;> simp
    · rw [deedsOf_concat_of_ne ds ht]
      cases d.placed? <;> simp [ht]

/-- What a thread has got positions for is what its calls have accepted and what they have not
answered for. -/
theorem Run.placed_eq_accepted (hq : create disc config order = .ok q)
    (hp : Respects disc programs) (h : Run (launch q programs) ds m) (t : Nat) :
    (deedsOf t ds).filterMap Deed.placed? =
      (deedsOf t ds).filterMap Deed.accepted? ++ m.inCall Stage.inPush t := by
  refine h.inCall_eq (fun _ => rfl) (fun ds m d n c hr hs => ?_) t
  have hl := hr.leads hs
  have hg := hr.grounded hq
  exact hl.move.inPush (capacity_of_create hq).2 (hr.not_aborts hq hp hs) hg.core
    (hl.stage ▸ hg.stage _ _ hl.call)

/-- What a single consumer has received. -/
structure InOrder (c : Nat) (ds : List (Deed α)) (m : Machine α) : Prop where
  /-- It is the elements that got positions of the tail, in this order. -/
  received : (deedsOf c ds).filterMap Deed.popped? <+: (placed ds).map Prod.snd
  /-- Those of one thread among them are what this thread has pushed, in this order. The last of
  them may be in a call that has not answered yet. -/
  pushed : ∀ t, (((placed ds).take ((deedsOf c ds).filterMap Deed.popped?).length).filter
      fun a => a.1 == t).map Prod.snd <+:
    (deedsOf t ds).filterMap Deed.accepted? ++ m.inCall Stage.inPush t

theorem Run.inOrder (hq : create disc config order = .ok q) (hp : Respects disc programs)
    (h : Run (launch q programs) ds m) {c : Nat}
    (hc : ∀ t, Makes Call.isConsuming programs t → t = c) : InOrder c ds m := by
  refine ⟨?_, fun t => ?_⟩
  · have hreceived := (h.matched hq hp (.inr (h.solo (x := .consume) hq hp hc))).received c
    have hle := (h.claimants_le hq hp).1
    rw [ranks_of_sole fun s hs => hc s (h.makes_of_claimant (x := .consume) hs),
      map_element?_range (by omega),
      List.prefix_map_iff_of_injective (Option.some_injective α), List.map_take] at hreceived
    exact hreceived.trans (List.take_prefix _ _)
  · rw [← h.placed_eq_accepted hq hp, ← map_snd_filter_placed]
    exact ((List.take_prefix _ _).filter _).map _

/-- **First in, first out.** In a run in which one side is single, the thread that gets the `k`-th
position of the head receives the element that got the `k`-th position of the tail. So if only one
thread consumes, it receives what each producer pushed in the order in which this producer pushed
it; and if moreover only one thread produces, it receives what that thread pushed, in this order. -/
theorem Run.fifo_of_solo (hq : create disc config order = .ok q) (hp : Respects disc programs)
    (h : Run (launch q programs) ds m) :
    (Solo .produce ds ∨ Solo .consume ds → Matched ds m) ∧
      ∀ c, (∀ t, Makes Call.isConsuming programs t → t = c) →
        InOrder c ds m ∧ ∀ p, (∀ t, Makes Call.isProducing programs t → t = p) →
          (deedsOf c ds).filterMap Deed.popped? <+:
            (deedsOf p ds).filterMap Deed.accepted? ++ m.inCall Stage.inPush p := by
  refine ⟨h.matched hq hp, fun c hc => ?_⟩
  have horder := h.inOrder hq hp hc
  refine ⟨horder, fun p hsole => ?_⟩
  have hall : (placed ds).filter (fun a => a.1 == p) = placed ds := by
    rw [List.filter_eq_self]
    intro a ha
    have hmem : a.1 ∈ claimants .produce ds := by
      rw [← map_fst_placed]
      exact List.mem_map_of_mem ha
    exact beq_iff_eq.mpr (hsole _ (h.makes_of_claimant (x := .produce) hmem))
  rw [← h.placed_eq_accepted hq hp, ← map_snd_filter_placed, hall]
  exact horder.received

/-- Three threads on a queue of two slots: two push, and the third one takes all out. -/
def convoy : List (List (Call Nat)) :=
  [[.push 1 (.atMost .endless), .push 2 (.atMost .endless), .push 3 (.atMost .endless)],
    [.push 10 (.atMost .endless), .push 11 (.atMost .endless)], [.iter]]

/-- Turns in which the producers come between each other and the consumer. -/
def convoyTurns (rounds : Nat) : List Choice :=
  (List.replicate rounds [0, 1, 0, 1, 2, 0, 2, 2]).flatten.map fun t => { thread := t }

/-- Two threads on a queue of one slot. -/
def couple : List (List (Call Nat)) :=
  [[.push 1 (.atMost .endless), .push 2 (.atMost .endless)], [.iter]]

/-- In the middle of a run the positions have gone around once: the consumer has received two
elements, the third one is its due, and the fourth one is in a call that has not answered. On a
queue of one slot the only producer and the only consumer agree as well. -/
theorem fifo_of_solo_convoy :
    (∃ q : Queue Nat, create .mpsc { capacity := 2, discipline := .mpsc } (fun _ _ => 0) = .ok q ∧
      Respects .mpsc convoy ∧
      placed (trace (convoyTurns 17) (launch q convoy)).1 = [(0, 1), (1, 10), (1, 11), (0, 2)] ∧
      claimants .consume (trace (convoyTurns 17) (launch q convoy)).1 = [2, 2, 2] ∧
      (deedsOf 2 (trace (convoyTurns 17) (launch q convoy)).1).filterMap Deed.popped? = [1, 10] ∧
      (trace (convoyTurns 17) (launch q convoy)).2.inCall Stage.inPush 0 = [2] ∧
      Solo .consume (trace (convoyTurns 17) (launch q convoy)).1 ∧
      Matched (trace (convoyTurns 17) (launch q convoy)).1
        (trace (convoyTurns 17) (launch q convoy)).2 ∧
      InOrder 2 (trace (convoyTurns 17) (launch q convoy)).1
        (trace (convoyTurns 17) (launch q convoy)).2) ∧
    ∃ q : Queue Nat, create .spsc { capacity := 1, discipline := .spsc } (fun _ _ => 0) = .ok q ∧
      Respects .spsc couple ∧
      (deedsOf 1 (trace (convoyTurns 16) (launch q couple)).1).filterMap Deed.popped? = [1] ∧
      (deedsOf 1 (trace (convoyTurns 16) (launch q couple)).1).filterMap Deed.popped? <+:
        (deedsOf 0 (trace (convoyTurns 16) (launch q couple)).1).filterMap Deed.accepted? ++
          (trace (convoyTurns 16) (launch q couple)).2.inCall Stage.inPush 0 := by
  have hsole {programs : List (List (Call Nat))} {kind : Call Nat → Bool} {c : Nat}
      (hall : ∀ t < programs.length, (∃ call ∈ programs.getD t [], kind call = true) → t = c)
      (t : Nat) (ht : Makes kind programs t) : t = c := by
    obtain ⟨calls, hget, hcalls⟩ := ht
    obtain ⟨hlt, rfl⟩ := List.getElem?_eq_some_iff.mp hget
    exact hall t hlt (by simpa [hlt] using hcalls)
  constructor
  · have hq : create (α := Nat) .mpsc { capacity := 2, discipline := .mpsc } (fun _ _ => 0) =
      .ok _ := rfl
    have hc : ∀ t, Makes Call.isConsuming convoy t → t = 2 := hsole (by decide)
    have hp : Respects .mpsc convoy :=
      ⟨fun h => absurd h (by decide), fun _ s t hs ht => (hc s hs).trans (hc t ht).symm⟩
    have hsingle := Run.solo (x := .consume) hq hp (run_trace (convoyTurns 17) _) hc
    obtain ⟨hmatched, horder⟩ := Run.fifo_of_solo hq hp (run_trace (convoyTurns 17) _)
    exact ⟨_, hq, hp, by decide, by decide, by decide, by decide, hsingle,
      hmatched (.inr hsingle), (horder 2 hc).1⟩
  · have hq : create (α := Nat) .spsc { capacity := 1, discipline := .spsc } (fun _ _ => 0) =
      .ok _ := rfl
    have hproduce : ∀ t, Makes Call.isProducing couple t → t = 0 := hsole (by decide)
    have hconsume : ∀ t, Makes Call.isConsuming couple t → t = 1 := hsole (by decide)
    have hp : Respects .spsc couple :=
      ⟨fun _ s t hs ht => (hproduce s hs).trans (hproduce t ht).symm,
        fun _ s t hs ht => (hconsume s hs).trans (hconsume t ht).symm⟩
    obtain ⟨-, horder⟩ := Run.fifo_of_solo hq hp (run_trace (convoyTurns 16) _)
    exact ⟨_, hq, hp, by decide, (horder 1 hconsume).2 0 hproduce⟩

end Machine

end PermitRing.Queue
