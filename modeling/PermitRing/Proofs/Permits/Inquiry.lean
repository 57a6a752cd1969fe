import Mathlib.Algebra.GroupWithZero.Nat
import PermitRing.Proofs.Permits.Waiting

/-!
# Waiting with a predicate that uses the counter

A cancel predicate may hand permits back, wake threads and take permits itself, on the very counter
that it is asked about. What the call that asks it comes to is told here by a relation with one rule
for each way in which a look at the counter or an evaluation can end, and the call as it is carried
out is shown to be this relation.

The epoch carries the argument. It is read before the predicate is asked, so if an evaluation wakes
anybody, the epoch has moved on by the time the call parks, and the call looks again instead of
sleeping. This needs fewer wakes in one evaluation than there are epochs, since otherwise the epoch
may have come round to where it was.

## Main definitions

* `Permits.Inquiry` — what a call comes to that asks its predicate so often;
* `Permits.asked` — the first evaluations of a predicate.

## Main results

* `Permits.inquiry_await`, `Inquiry.await_eq` — the rounds of a call are an inquiry, and only one;
* `Inquiry.count_eq` — the permits afterwards;
* `Permits.acquire_iff_inquiry` — the whole call.
-/

namespace PermitRing

namespace Permits

/-! ### Evaluations -/

/-- The operation wakes threads. -/
def Action.wakes : Action → Bool
  | .release | .releaseAll => true
  | .take => false

/-- How often an evaluation wakes threads. -/
def Evaluation.wakes (e : Evaluation) : Nat :=
  e.actions.countP Action.wakes

/-- The permits that an evaluation hands back. -/
def Evaluation.releases (e : Evaluation) : Nat :=
  e.actions.count .release

/-- The counter after an evaluation. -/
def after (e : Evaluation) (p : Permits) : Permits :=
  e.actions.foldl perform p

/-- The permits that operations take when they are carried out one after the other. -/
def takenBy : List Action → Permits → Nat
  | [], _ => 0
  | x :: xs, p => (if x = .take ∧ p.take?.isSome then 1 else 0) + takenBy xs (p.perform x)

/-- The permits that evaluations take when they are carried out one after the other. -/
def takenIn : List Evaluation → Permits → Nat
  | [], _ => 0
  | e :: es, p => takenBy e.actions p + takenIn es (p.after e)

/-- The permits that evaluations hand back. -/
def releasedIn (es : List Evaluation) : Nat :=
  (es.map Evaluation.releases).sum

/-- The first `n` evaluations of a predicate that makes those of a list and then always gives one
answer. -/
def asked (last : Bool) (es : List Evaluation) (n : Nat) : List Evaluation :=
  (List.range n).map fun k => es.getD k ⟨[], last⟩

/-! ### Inquiries -/

/-- What a call comes to that has found the counter `p`, goes by the evaluations listed, and leaves
the counter `q`. The flag says whether its time has passed. -/
inductive Inquiry (thread : Nat) (limit : Patience) :
    Bool → Permits → List Evaluation → Option Outcome → Permits → Prop
  /-- There is a permit, and nothing is asked. -/
  | found {expired : Bool} {p : Permits} (h : 0 < p.count) :
    Inquiry thread limit expired p [] (some .acquired) p.taken
  /-- There is none; the predicate gives the wait up, but now there is one. -/
  | granted {expired : Bool} {p : Permits} {e : Evaluation} (h : p.count = 0)
    (ha : e.answer = true) (hp : 0 < (p.after e).count) :
    Inquiry thread limit expired p [e] (some .acquired) (p.after e).taken
  /-- The predicate gives the wait up, and there still is none. -/
  | cancelled {expired : Bool} {p : Permits} {e : Evaluation} (h : p.count = 0)
    (ha : e.answer = true) (hp : (p.after e).count = 0) :
    Inquiry thread limit expired p [e] (some .cancelled) (p.after e)
  /-- The predicate goes on waiting, but the time has passed. -/
  | late {expired : Bool} {p : Permits} {e : Evaluation} (h : p.count = 0)
    (ha : e.answer = false) (hl : expired = true ∨ limit = .instant) :
    Inquiry thread limit expired p [e] (some .timedOut) (p.after e)
  /-- It goes on waiting and has woken somebody: the call does not sleep, but looks again. -/
  | again {p q : Permits} {e : Evaluation} {es : List Evaluation} {o : Option Outcome}
    (h : p.count = 0) (ha : e.answer = false) (hl : limit ≠ .instant) (hw : 0 < e.wakes)
    (hi : Inquiry thread limit false (p.after e) es o q) :
    Inquiry thread limit false p (e :: es) o q
  /-- It goes on waiting and has woken nobody: the call sleeps until its time has passed. -/
  | elapsed {p q : Permits} {e : Evaluation} {es : List Evaluation} {o : Option Outcome}
    (h : p.count = 0) (ha : e.answer = false) (hl : limit = .brief) (hw : e.wakes = 0)
    (hi : Inquiry thread limit true (p.after e) es o q) :
    Inquiry thread limit false p (e :: es) o q
  /-- It goes on waiting and has woken nobody: the call sleeps for good. -/
  | asleep {p : Permits} {e : Evaluation} (h : p.count = 0) (ha : e.answer = false)
    (hl : limit.isLong = true) (hw : e.wakes = 0) :
    Inquiry thread limit false p [e] none ((p.after e).withSleeper thread)

variable {thread n : Nat} {limit : Patience} {last expired : Bool} {p q : Permits} {e : Evaluation}
  {es l : List Evaluation} {o : Option Outcome}

theorem asked_succ (last : Bool) (es : List Evaluation) (n : Nat) :
    asked last es (n + 1) = es.headD ⟨[], last⟩ :: asked last es.tail n := by
  rw [asked, List.range_succ_eq_map, List.map_cons, List.map_map, asked]
  cases es with
  | nil => rfl
  | cons e es => rfl

theorem eq_zero_of_asked (h : asked last es n = []) : n = 0 := by
  cases n with
  | zero => rfl
  | succ n =>
    rw [asked_succ] at h
    cases h

theorem exists_of_asked (h : asked last es n = e :: l) :
    ∃ m, n = m + 1 ∧ es.headD ⟨[], last⟩ = e ∧ asked last es.tail m = l := by
  cases n with
  | zero => cases h
  | succ m =>
    rw [asked_succ, List.cons.injEq] at h
    exact ⟨m, rfl, h.1, h.2⟩

/-! ### What operations do to a counter at which nobody sleeps -/

theorem calm_perform (h : p.parker.Calm) (x : Action) : (p.perform x).parker.Calm := by
  cases x with
  | release => exact Parker.Calm.unparkOne (p := p.give.parker) h
  | releaseAll => exact h.unparkAll
  | take =>
    rw [perform, take?]
    split <;> exact h

theorem calm_after (h : p.parker.Calm) (e : Evaluation) : (p.after e).parker.Calm := by
  rw [after]
  induction e.actions generalizing p with
  | nil => exact h
  | cons x xs ih => exact ih (calm_perform h x)

/-- The epoch counts the wakes. -/
theorem epoch_perform (p : Permits) (x : Action) :
    (p.perform x).parker.epoch =
      if x.wakes then (p.parker.epoch + 1) % Parker.epochs else p.parker.epoch := by
  cases x with
  | release => exact Parker.epoch_unparkOne p.give.parker
  | releaseAll => exact Parker.epoch_unparkAll p.parker
  | take =>
    rw [perform, take?]
    split <;> rfl

theorem epoch_foldl_perform (xs : List Action) (p : Permits) :
    (xs.foldl perform p).parker.epoch =
      if xs.countP Action.wakes = 0 then p.parker.epoch
      else (p.parker.epoch + xs.countP Action.wakes) % Parker.epochs := by
  induction xs generalizing p with
  | nil => rfl
  | cons x xs ih =>
    rw [List.foldl_cons, ih, epoch_perform, List.countP_cons]
    cases x.wakes with
    | false => rfl
    | true =>
      simp only [if_true, Nat.succ_ne_zero, if_false]
      split
      · rename_i hn
        rw [hn]
      · rw [Nat.mod_add_mod, Nat.add_assoc, Nat.add_comm 1]

/-- An evaluation moves the epoch on by its wakes. -/
theorem epoch_after (e : Evaluation) (p : Permits) :
    (p.after e).parker.epoch =
      if e.wakes = 0 then p.parker.epoch else (p.parker.epoch + e.wakes) % Parker.epochs :=
  epoch_foldl_perform e.actions p

/-- The epoch is another one after somebody was woken, unless it has gone once round. -/
theorem epoch_after_ne (hw : 0 < e.wakes) (hlt : e.wakes < Parker.epochs) :
    (p.after e).parker.epoch ≠ p.parker.epoch := by
  rw [epoch_after, if_neg (Nat.ne_of_gt hw)]
  unfold Parker.epochs at *
  omega

/-! ### One round -/

theorem round_found (h : 0 < p.count) (e : Evaluation) :
    p.round thread limit expired e = (.ended .acquired, 0, p.taken) := by
  simp only [round, take?_eq_some h]

theorem round_granted (h : p.count = 0) (ha : e.answer = true) (hp : 0 < (p.after e).count) :
    p.round thread limit expired e = (.ended .acquired, 1, (p.after e).taken) := by
  simp only [round, take?_of_eq_zero h, ha, if_true]
  rw [← after, take?_eq_some hp]

theorem round_cancelled (h : p.count = 0) (ha : e.answer = true) (hp : (p.after e).count = 0) :
    p.round thread limit expired e = (.ended .cancelled, 1, p.after e) := by
  simp only [round, take?_of_eq_zero h, ha, if_true]
  rw [← after, take?_of_eq_zero hp]

theorem round_late (h : p.count = 0) (ha : e.answer = false)
    (hl : expired = true ∨ limit = .instant) :
    p.round thread limit expired e = (.ended .timedOut, 1, p.after e) := by
  simp only [round, take?_of_eq_zero h, ha, Bool.false_eq_true, if_false, if_pos hl]
  rfl

/-- A call whose predicate goes on waiting parks with the epoch of before. -/
theorem round_parks (h : p.count = 0) (ha : e.answer = false)
    (hl : ¬(expired = true ∨ limit = .instant)) :
    p.round thread limit expired e =
      match (p.after e).parker.park thread p.parker.epoch limit with
      | (.woken, k) => (.again expired, 1, { p.after e with parker := k })
      | (.timedOut, k) => (.again true, 1, { p.after e with parker := k })
      | (.asleep, k) => (.asleep, 1, { p.after e with parker := k }) := by
  simp only [round, take?_of_eq_zero h, ha, Bool.false_eq_true, if_false, if_neg hl]
  rfl

theorem round_again (hq : p.parker.Calm) (h : p.count = 0) (ha : e.answer = false)
    (hl : limit ≠ .instant) (hw : 0 < e.wakes) (hlt : e.wakes < Parker.epochs) :
    p.round thread limit false e = (.again false, 1, p.after e) := by
  rw [round_parks h ha (by simp [hl]), Parker.park_of_ne (epoch_after_ne hw hlt)]
  dsimp only
  rw [Parker.leave_enlist (calm_after hq e).parked_lt]

theorem round_elapsed (hq : p.parker.Calm) (h : p.count = 0) (ha : e.answer = false)
    (hl : limit = .brief) (hw : e.wakes = 0) :
    p.round thread limit false e = (.again true, 1, p.after e) := by
  subst hl
  have hepoch : (p.after e).parker.epoch = p.parker.epoch := (epoch_after e p).trans (if_pos hw)
  rw [round_parks h ha (by simp), ← hepoch,
    Parker.park_of_short (calm_after hq e).parked_lt thread rfl]

theorem round_asleep (h : p.count = 0) (ha : e.answer = false) (hl : limit.isLong = true)
    (hw : e.wakes = 0) :
    p.round thread limit false e = (.asleep, 1, (p.after e).withSleeper thread) := by
  have hne : limit ≠ .instant := by
    rintro rfl
    cases hl
  have hepoch : (p.after e).parker.epoch = p.parker.epoch := (epoch_after e p).trans (if_pos hw)
  rw [round_parks h ha (by simp [hne]), ← hepoch, Parker.park_of_long _ _ hl]
  rfl

/-- The end of a round that ends the call, or its rest. -/
def Round.ofOutcome : Option Outcome → Round
  | some o => .ended o
  | none => .asleep

/-- **How a round ends.** A permit is found at once; or the predicate is asked, and either this ends
the call, or the call goes on from what the predicate has left. The latter takes a predicate that
has woken somebody, or a time that has passed only now. -/
theorem round_cases (hq : p.parker.Calm) (hlt : e.wakes < Parker.epochs) (thread : Nat)
    (limit : Patience) (expired : Bool) :
    (0 < p.count ∧ p.round thread limit expired e = (.ended .acquired, 0, p.taken)) ∨
      (∃ o q, p.round thread limit expired e = (.ofOutcome o, 1, q) ∧
        Inquiry thread limit expired p [e] o q) ∨
      ∃ expired', p.round thread limit expired e = (.again expired', 1, p.after e) ∧
        expired = false ∧ (0 < e.wakes ∨ expired' = true) ∧
        ∀ es o q, Inquiry thread limit expired' (p.after e) es o q →
          Inquiry thread limit expired p (e :: es) o q := by
  rcases Nat.eq_zero_or_pos p.count with h | h
  · right
    cases ha : e.answer with
    | true =>
      left
      rcases Nat.eq_zero_or_pos (p.after e).count with hp | hp
      · exact ⟨some .cancelled, _, round_cancelled h ha hp, .cancelled h ha hp⟩
      · exact ⟨some .acquired, _, round_granted h ha hp, .granted h ha hp⟩
    | false =>
      by_cases hl : expired = true ∨ limit = .instant
      · exact .inl ⟨some .timedOut, _, round_late h ha hl, .late h ha hl⟩
      · obtain ⟨hx, hi⟩ := not_or.mp hl
        obtain rfl := Bool.not_eq_true _ ▸ hx
        rcases Nat.eq_zero_or_pos e.wakes with hw | hw
        · cases limit with
          | instant => exact absurd rfl hi
          | brief =>
            exact .inr ⟨true, round_elapsed hq h ha rfl hw, rfl, .inr rfl, fun _ _ _ hr =>
              .elapsed h ha rfl hw hr⟩
          | lasting | endless =>
            exact .inl ⟨none, _, round_asleep h ha rfl hw, .asleep h ha rfl hw⟩
        · exact .inr ⟨false, round_again hq h ha hi hw hlt, rfl, .inl hw, fun _ _ _ hr =>
            .again h ha hi hw hr⟩
  · exact .inl ⟨h, round_found h e⟩

/-! ### All rounds -/

theorem wakes_head_lt (hw : ∀ e ∈ es, e.wakes < Parker.epochs) (last : Bool) :
    (es.headD ⟨[], last⟩).wakes < Parker.epochs := by
  cases es with
  | nil => exact (by decide : 0 < Parker.epochs)
  | cons e es => exact hw e List.mem_cons_self

/-- A round that ends the call is the last one. -/
theorem await_ended {k : Nat}
    (h : p.round thread limit expired (es.headD ⟨[], last⟩) = (.ofOutcome o, k, q)) (n : Nat) :
    p.await thread limit last expired n es = ⟨o, n + k, q⟩ := by
  cases es with
  | nil =>
    rw [await, show p.round thread limit expired ⟨[], last⟩ = _ from h]
    cases o <;> rfl
  | cons e es =>
    rw [await, show p.round thread limit expired e = _ from h]
    cases o <;> rfl

/-- The call goes on with the rest of the evaluations. -/
theorem await_again {expired' : Bool} (hq : q.parker.Calm)
    (h : p.round thread limit expired (es.headD ⟨[], last⟩) = (.again expired', 1, q))
    (hx : 0 < (es.headD ⟨[], last⟩).wakes ∨ expired' = true) (n : Nat) :
    p.await thread limit last expired n es =
      q.await thread limit last expired' (n + 1) es.tail := by
  cases es with
  | nil =>
    -- such an evaluation wakes nobody, so the time has passed, and the next round is the last
    obtain rfl : expired' = true := hx.resolve_left (Nat.lt_irrefl 0)
    have hend : ∃ o l q', q.round thread limit true (([] : List Evaluation).headD ⟨[], last⟩) =
        (.ofOutcome o, l, q') := by
      rcases round_cases hq (wakes_head_lt (List.forall_mem_nil _) last) thread limit true with
        ⟨-, hr⟩ | ⟨o, q', hr, -⟩ | ⟨_, -, hfalse, -⟩
      · exact ⟨some .acquired, 0, _, hr⟩
      · exact ⟨o, 1, q', hr⟩
      · cases hfalse
    obtain ⟨o, l, q', hr⟩ := hend
    rw [List.tail_nil, await_ended hr, await,
      show p.round thread limit expired ⟨[], last⟩ = _ from h]
    dsimp only
    rw [show q.round thread limit true ⟨[], last⟩ = _ from hr]
    cases o <;> rfl
  | cons e es =>
    rw [await, show p.round thread limit expired e = _ from h]
    rfl

/-- Once its time has passed a call asks at most once more. -/
theorem inquiry_await_expired (hq : p.parker.Calm) (hw : ∀ e ∈ es, e.wakes < Parker.epochs)
    (thread : Nat) (limit : Patience) (last : Bool) (n : Nat) :
    ∃ k o q, p.await thread limit last true n es = ⟨o, n + k, q⟩ ∧
      Inquiry thread limit true p (asked last es k) o q := by
  rcases round_cases hq (wakes_head_lt hw last) thread limit true with
    ⟨h, hr⟩ | ⟨o, q, hr, hi⟩ | ⟨_, -, hfalse, -⟩
  · exact ⟨0, _, _, await_ended (o := some .acquired) hr n, .found h⟩
  · exact ⟨1, o, q, await_ended hr n, asked_succ last es 0 ▸ hi⟩
  · cases hfalse

/-- **The rounds of a call are an inquiry.** The induction is on the evaluations listed. -/
theorem inquiry_await (thread : Nat) (limit : Patience) (last : Bool) :
    ∀ (es : List Evaluation) (expired : Bool) (p : Permits) (n : Nat), p.parker.Calm →
      (∀ e ∈ es, e.wakes < Parker.epochs) →
      ∃ k o q, p.await thread limit last expired n es = ⟨o, n + k, q⟩ ∧
        Inquiry thread limit expired p (asked last es k) o q := by
  intro es
  induction es with
  | nil =>
    intro expired p n hq hw
    rcases round_cases hq (wakes_head_lt hw last) thread limit expired with
      ⟨h, hr⟩ | ⟨o, q, hr, hi⟩ | ⟨expired', hr, -, hx, hi⟩
    · exact ⟨0, _, _, await_ended (o := some .acquired) hr n, .found h⟩
    · exact ⟨1, o, q, await_ended hr n, hi⟩
    · obtain rfl : expired' = true := hx.resolve_left (Nat.lt_irrefl 0)
      obtain ⟨k, o, q, ha, hrest⟩ :=
        inquiry_await_expired (calm_after hq _) hw thread limit last (n + 1)
      refine ⟨k + 1, o, q, ?_, ?_⟩
      · rw [await_again (calm_after hq _) hr hx, List.tail_nil, ha, Nat.add_right_comm,
          Nat.add_assoc]
      · rw [asked_succ]
        exact hi _ _ _ hrest
  | cons e es ih =>
    intro expired p n hq hw
    rcases round_cases hq (wakes_head_lt hw last) thread limit expired with
      ⟨h, hr⟩ | ⟨o, q, hr, hi⟩ | ⟨expired', hr, -, hx, hi⟩
    · exact ⟨0, _, _, await_ended (o := some .acquired) hr n, .found h⟩
    · exact ⟨1, o, q, await_ended hr n, asked_succ last (e :: es) 0 ▸ hi⟩
    · obtain ⟨k, o, q, ha, hrest⟩ :=
        ih expired' (p.after e) (n + 1) (calm_after hq e) fun e' he' =>
          hw e' (List.mem_cons_of_mem e he')
      refine ⟨k + 1, o, q, ?_, ?_⟩
      · rw [await_again (calm_after hq e) hr hx, List.tail_cons, ha,
          Nat.add_right_comm, Nat.add_assoc]
      · rw [asked_succ]
        exact hi _ _ _ hrest

/-- **Only one inquiry is the rounds of a call.** The induction is on the inquiry. -/
theorem Inquiry.await_eq (hi : Inquiry thread limit expired p l o q) :
    ∀ (es : List Evaluation) (n k : Nat), p.parker.Calm → (∀ e ∈ es, e.wakes < Parker.epochs) →
      asked last es n = l → p.await thread limit last expired k es = ⟨o, k + n, q⟩ := by
  induction hi with
  | found h =>
    intro es n k _ _ hl
    obtain rfl := eq_zero_of_asked hl
    exact await_ended (o := some .acquired) (round_found h _) k
  | granted h ha hp =>
    intro es n k _ _ hl
    obtain ⟨m, rfl, rfl, hm⟩ := exists_of_asked hl
    obtain rfl := eq_zero_of_asked hm
    exact await_ended (o := some .acquired) (round_granted h ha hp) k
  | cancelled h ha hp =>
    intro es n k _ _ hl
    obtain ⟨m, rfl, rfl, hm⟩ := exists_of_asked hl
    obtain rfl := eq_zero_of_asked hm
    exact await_ended (o := some .cancelled) (round_cancelled h ha hp) k
  | late h ha hlim =>
    intro es n k _ _ hl
    obtain ⟨m, rfl, rfl, hm⟩ := exists_of_asked hl
    obtain rfl := eq_zero_of_asked hm
    exact await_ended (o := some .timedOut) (round_late h ha hlim) k
  | asleep h ha hlim hw =>
    intro es n k _ _ hl
    obtain ⟨m, rfl, rfl, hm⟩ := exists_of_asked hl
    obtain rfl := eq_zero_of_asked hm
    exact await_ended (o := none) (round_asleep h ha hlim hw) k
  | again h ha hlim hw _ ih =>
    intro es n k hq hes hl
    obtain ⟨m, rfl, rfl, hm⟩ := exists_of_asked hl
    have hlt := wakes_head_lt hes last
    rw [await_again (calm_after hq _) (round_again hq h ha hlim hw hlt) (.inl hw),
      ih _ m _ (calm_after hq _) (fun e he => hes e (List.mem_of_mem_tail he)) hm,
      Nat.add_right_comm, Nat.add_assoc]
  | elapsed h ha hlim hw _ ih =>
    intro es n k hq hes hl
    obtain ⟨m, rfl, rfl, hm⟩ := exists_of_asked hl
    rw [await_again (calm_after hq _) (round_elapsed hq h ha hlim hw) (.inr rfl),
      ih _ m _ (calm_after hq _) (fun e he => hes e (List.mem_of_mem_tail he)) hm,
      Nat.add_right_comm, Nat.add_assoc]

/-! ### The permits and the parker afterwards -/

/-- Operations raise the count by what they hand back and lower it by what they take, as long as it
does not reach the end of its word. -/
theorem count_foldl_perform (xs : List Action) :
    ∀ p : Permits, p.count + xs.count .release < Word.size →
      (xs.foldl perform p).count + takenBy xs p = p.count + xs.count .release := by
  induction xs with
  | nil => exact fun _ _ => rfl
  | cons x xs ih =>
    intro p hc
    rw [List.foldl_cons, takenBy]
    cases x with
    | release =>
      rw [List.count_cons_self] at hc ⊢
      have hsucc : (p.perform .release).count = p.count + 1 := Word.succ_eq (by omega)
      have := ih (p.perform .release) (by omega)
      rw [if_neg (by simp)]
      omega
    | releaseAll =>
      rw [List.count_cons_of_ne (by decide)] at hc ⊢
      have := ih (p.perform .releaseAll) hc
      rw [show (p.perform .releaseAll).count = p.count from rfl] at this
      rw [if_neg (by simp)]
      omega
    | take =>
      rw [List.count_cons_of_ne (by decide)] at hc ⊢
      rcases Nat.eq_zero_or_pos p.count with h | h
      · have hstay : p.perform .take = p := by rw [perform, take?_of_eq_zero h, Option.getD_none]
        rw [if_neg (by simp [take?_of_eq_zero h]), hstay, Nat.zero_add]
        exact ih p hc
      · have htaken : p.perform .take = p.taken := by
          rw [perform, take?_eq_some h, Option.getD_some]
        have := ih p.taken (by rw [count_taken]; omega)
        rw [count_taken] at this
        rw [if_pos ⟨rfl, by rw [take?_eq_some h]; rfl⟩, htaken]
        omega

/-- Whatever hands a permit back wakes a thread. -/
theorem releases_le_wakes (e : Evaluation) : e.releases ≤ e.wakes := by
  rw [Evaluation.releases, Evaluation.wakes, List.count]
  refine List.countP_mono_left fun x _ hx => ?_
  rw [beq_iff_eq] at hx
  rw [hx]
  rfl

/-- The count after an evaluation that began without permits. -/
theorem count_after (h : p.count = 0) (hlt : e.wakes < Parker.epochs) :
    (p.after e).count + takenBy e.actions p = e.releases := by
  have hsize : Parker.epochs < Word.size := by decide
  have hr := releases_le_wakes e
  rw [Evaluation.releases] at hr
  rw [after, count_foldl_perform e.actions p (by omega), h, Nat.zero_add, Evaluation.releases]

/-- **The permits afterwards.** A call takes a permit of its own if it says so, and otherwise none:
all other changes are those that its predicate made. -/
theorem Inquiry.count_eq (hi : Inquiry thread limit expired p l o q) :
    (∀ e ∈ l, e.wakes < Parker.epochs) →
      q.count + takenIn l p + (if o = some .acquired then 1 else 0) = p.count + releasedIn l := by
  induction hi with
  | found h =>
    intro _
    simp only [count_taken, takenIn, releasedIn, List.map_nil, List.sum_nil, if_true]
    omega
  | granted h ha hp =>
    intro hl
    have := count_after h (hl _ List.mem_cons_self)
    simp only [count_taken, takenIn, releasedIn, List.map_cons, List.map_nil, List.sum_cons,
      List.sum_nil, if_true]
    omega
  | cancelled h ha hp =>
    intro hl
    have := count_after h (hl _ List.mem_cons_self)
    simp only [takenIn, releasedIn, List.map_cons, List.map_nil, List.sum_cons, List.sum_nil,
      Option.some.injEq, reduceCtorEq, if_false]
    omega
  | late h ha hlim =>
    intro hl
    have := count_after h (hl _ List.mem_cons_self)
    simp only [takenIn, releasedIn, List.map_cons, List.map_nil, List.sum_cons, List.sum_nil,
      Option.some.injEq, reduceCtorEq, if_false]
    omega
  | asleep h ha hlim hw =>
    intro hl
    have := count_after h (hl _ List.mem_cons_self)
    simp only [count_withSleeper, takenIn, releasedIn, List.map_cons, List.map_nil, List.sum_cons,
      List.sum_nil, reduceCtorEq, if_false]
    omega
  | again h ha hlim hw _ ih =>
    intro hl
    have := count_after h (hl _ List.mem_cons_self)
    have := ih fun e he => hl e (List.mem_cons_of_mem _ he)
    simp only [takenIn, releasedIn, List.map_cons, List.sum_cons] at this ⊢
    omega
  | elapsed h ha hlim hw _ ih =>
    intro hl
    have := count_after h (hl _ List.mem_cons_self)
    have := ih fun e he => hl e (List.mem_cons_of_mem _ he)
    simp only [takenIn, releasedIn, List.map_cons, List.sum_cons] at this ⊢
    omega

/-- Afterwards the call is inside the parker if it has not ended, and nobody else ever is. -/
theorem Inquiry.waiters_eq (hi : Inquiry thread limit expired p l o q) :
    p.parker.Calm → q.waiters = if o = none then 1 else 0 := by
  induction hi with
  | found h => exact fun hq => hq.parked
  | granted h ha hp => exact fun hq => (calm_after hq _).parked
  | cancelled h ha hp => exact fun hq => (calm_after hq _).parked
  | late h ha hlim => exact fun hq => (calm_after hq _).parked
  | asleep h ha hlim hw =>
    intro hq
    rw [if_pos rfl]
    exact (congrArg Word.succ (calm_after hq _).parked).trans (by decide)
  | again h ha hlim hw _ ih => exact fun hq => ih (calm_after hq _)
  | elapsed h ha hlim hw _ ih => exact fun hq => ih (calm_after hq _)

/-! ### The whole call -/

/-- The first look at the counter is the same as that of the first round. -/
theorem acquire_eq_await (p : Permits) (thread : Nat) (limit : Patience) (es : List Evaluation)
    (last : Bool) : p.acquire thread limit es last = p.await thread limit last false 0 es := by
  rcases Nat.eq_zero_or_pos p.count with h | h
  · rw [acquire, take?_of_eq_zero h]
  · rw [acquire, take?_eq_some h]
    exact (await_ended (o := some .acquired) (round_found h _) 0).symm

theorem wakes_asked_lt (hw : ∀ e ∈ es, e.wakes < Parker.epochs) (n : Nat) :
    ∀ e ∈ asked last es n, e.wakes < Parker.epochs := by
  induction n generalizing es with
  | zero => exact fun _ he => nomatch he
  | succ n ih =>
    rw [asked_succ, List.forall_mem_cons]
    exact ⟨wakes_head_lt hw last, ih fun e he => hw e (List.mem_of_mem_tail he)⟩

/-- **A call whose predicate uses the counter.** With nobody else about, a call comes to an outcome,
a number of evaluations and a counter exactly if these are an inquiry: the predicate is asked when
there is no permit, and only then; an answer that gives up takes a permit that has come meanwhile,
and otherwise cancels; an answer that goes on is too late for a limit of zero, is followed by
another look if the evaluation woke anybody, and by sleep only if not. The permits afterwards are
those of before and those that the predicate handed back, less those that it took and less one if
the call took one itself, and nobody but a call that sleeps is counted as waiting.

Evaluations that the call does not come to make no difference. So this holds of every predicate, if
the list goes on until the call has ended or sleeps. -/
theorem acquire_iff_inquiry (hq : p.parker.Calm) (hw : ∀ e ∈ es, e.wakes < Parker.epochs)
    (thread : Nat) (limit : Patience) (last : Bool) :
    let a := p.acquire thread limit es last
    (∀ o n q, a = ⟨o, n, q⟩ ↔ Inquiry thread limit false p (asked last es n) o q) ∧
      a.permits.count + takenIn (asked last es a.evaluations) p +
          (if a.outcome = some .acquired then 1 else 0) =
        p.count + releasedIn (asked last es a.evaluations) ∧
      a.permits.waiters = if a.outcome = none then 1 else 0 := by
  have hiff : ∀ o n q, p.acquire thread limit es last = ⟨o, n, q⟩ ↔
      Inquiry thread limit false p (asked last es n) o q := by
    intro o n q
    rw [acquire_eq_await]
    constructor
    · intro ha
      obtain ⟨k, o', q', ha', hi⟩ := inquiry_await thread limit last es false p 0 hq hw
      rw [ha', Nat.zero_add, Acquisition.mk.injEq] at ha
      obtain ⟨rfl, rfl, rfl⟩ := ha
      exact hi
    · intro hi
      rw [hi.await_eq es n 0 hq hw rfl, Nat.zero_add]
  intro a
  have hi := (hiff a.outcome a.evaluations a.permits).mp rfl
  exact ⟨hiff, hi.count_eq (wakes_asked_lt hw _), hi.waiters_eq hq⟩

/-- A predicate that hands back a permit and takes it again, which wakes the call in vain, and then
hands back two and gives up. The call takes one of the two. -/
theorem acquire_iff_inquiry_second :
    ∃ (p : Permits) (es : List Evaluation), p.parker.Calm ∧
      (∀ e ∈ es, e.wakes < Parker.epochs) ∧
      es = [⟨[.release, .take, .releaseAll], false⟩, ⟨[.release, .release], true⟩] ∧
      Inquiry 0 .endless false p es (some .acquired) (p.acquire 0 .endless es false).permits ∧
      (p.acquire 0 .endless es false).permits.count = 1 ∧
      (p.acquire 0 .endless es false).permits.waiters = 0 ∧
      takenIn es p = 1 ∧ releasedIn es = 3 := by
  have hq : (⟨0, { kind := .condvar }⟩ : Permits).parker.Calm := ⟨rfl, rfl⟩
  have hw : ∀ e ∈ [(⟨[.release, .take, .releaseAll], false⟩ : Evaluation),
      ⟨[.release, .release], true⟩], e.wakes < Parker.epochs := by decide
  obtain ⟨hiff, hcount, hwaiters⟩ := acquire_iff_inquiry hq hw 0 .endless false
  have hcount : _ + 1 + 1 = 0 + 3 := hcount
  exact ⟨_, _, hq, hw, rfl, (hiff (some .acquired) 2 _).mp rfl,
    Nat.add_right_cancel (Nat.add_right_cancel hcount), hwaiters, rfl, rfl⟩

end Permits

end PermitRing
