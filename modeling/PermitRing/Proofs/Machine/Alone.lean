import PermitRing.Proofs.Machine.Lobby
import PermitRing.Proofs.Parker.Rousing

/-!
# Steps that nobody disturbs

Calls on a queue are described twice. In a settled run a call is one function, and in a machine it
is a sequence of atomic steps, between which other threads may act. If none of them does, both come
to the same. This file says so of the parts that calls consist of.

Each part acts on one component of the queue: an index, a slot, the permits of a side. So every part
is followed on its own component, and `Comes.call` puts what it comes to into a whole call, whatever
the rest of the queue looks like.

In one respect the functions are ahead of the steps. A roused thread leaves the parker by a step of
its own, which belongs to its call and not to the one that roused it. `Queue.settled` is the queue
once all of them have left, and in its terms the statements are equations.

## Main definitions

* `Comes` — what the steps from a point come to if nobody else acts;
* `Inside` — the steps of an operation inside another one;
* `Queue.settled`, `Queue.Loose` — the queue once everybody who was roused has left, and what holds
  until then.

## Main results

* `Comes.call`, `Comes.whole` — an operation inside another one, and as all of it;
* `Index.comes_claim`, `Slot.comes_write`, `Slot.comes_take` — moving an element;
* `Permits.comes_taking`, `Permits.comes_waking` — taking a permit, and waking others;
* `Queue.waits_of_comes`, `waits_asleep` — waiting for a permit.

## Implementation notes

No compare-and-swap fails without cause here. A thread whose limit passes before anybody else acts
finds it passed as soon as it looks, and no other limit passes.
-/

namespace PermitRing

/-! ### Steps that nobody disturbs -/

section Comes

variable {π π' ρ ρ' σ σ' : Type}

/-- An operation inside another one: at its points the other one is `here`, and `next` says how that
goes on after its result. -/
def Progress.lead (here : π → π') (next : ρ → Progress π' ρ') : Progress π ρ → Progress π' ρ'
  | .more p => .more (here p)
  | .done r => next r

/-- What the steps of an operation come to if nobody else acts: a result, or none where the thread
falls asleep. -/
inductive Comes (step : π → σ → Option (Progress π ρ × σ)) :
    Progress π ρ → σ → Option ρ → σ → Prop
  /-- The operation is over. -/
  | done (r : ρ) (s : σ) : Comes step (.done r) s (some r) s
  /-- There is no step to take. -/
  | asleep {p : π} {s : σ} (h : step p s = none) : Comes step (.more p) s none s
  /-- A step is taken, and the operation goes on. -/
  | step {p : π} {s s' t : σ} {x : Progress π ρ} {o : Option ρ} (h : step p s = some (x, s'))
    (hc : Comes step x s' o t) : Comes step (.more p) s o t

/-- The steps are those of an operation on a component of the state, inside another one. -/
def Inside (f : π → σ → Option (Progress π ρ × σ)) (g : π' → σ' → Option (Progress π' ρ' × σ'))
    (here : π → π') (next : ρ → Progress π' ρ') (put : σ → σ') : Prop :=
  ∀ p s, g (here p) (put s) = (f p s).map fun y => (y.1.lead here next, put y.2)

variable {f : π → σ → Option (Progress π ρ × σ)} {g : π' → σ' → Option (Progress π' ρ' × σ')}
  {here : π → π'} {next : ρ → Progress π' ρ'} {put : σ → σ'} {s s' : σ} {r? : Option ρ}
  {o : Option ρ'} {t : σ'}

theorem Comes.lead (hi : Inside f g here next put) {x : Progress π ρ} (h : Comes f x s r? s')
    (hn : r? = none → o = none ∧ t = put s') (hr : ∀ r ∈ r?, Comes g (next r) (put s') o t) :
    Comes g (x.lead here next) (put s) o t := by
  induction h with
  | done r s => exact hr r rfl
  | asleep h =>
    obtain ⟨rfl, rfl⟩ := hn rfl
    exact .asleep (by rw [hi, h]; rfl)
  | step h hc ih => exact .step (by rw [hi, h]; rfl) (ih hn hr)

/-- **An operation inside another one.** What it comes to on its component decides how the other one
goes on. -/
theorem Comes.call (hi : Inside f g here next put) {p : π} {r : ρ}
    (h : Comes f (.more p) s (some r) s') (hr : Comes g (next r) (put s') o t) :
    Comes g (.more (here p)) (put s) o t :=
  h.lead hi nofun fun _ he => Option.some.inj he ▸ hr

/-- Where the thread falls asleep in the inner operation, it sleeps in the outer one. -/
theorem Comes.call_asleep (hi : Inside f g here next put) {p : π}
    (h : Comes f (.more p) s none s') : Comes g (.more (here p)) (put s) none (put s') :=
  h.lead hi (fun _ => ⟨rfl, rfl⟩) nofun

/-- An operation that is all there is to do comes to its own result. -/
theorem Comes.whole {g : π' → σ' → Option (Progress π' ρ × σ')} (hi : Inside f g here .done put)
    {p : π} (h : Comes f (.more p) s r? s') : Comes g (.more (here p)) (put s) r? (put s') :=
  h.lead hi (fun hn => ⟨hn, rfl⟩) fun r he => by rw [show r? = some r from he]; exact .done _ _

end Comes

/-! ### Indices and slots -/

/-- A claim of a position. -/
theorem Index.comes_claim (capacity : Nat) (x : Index) :
    Comes (fun (t : Claiming) x => some (t.step capacity false x)) (.more .start) x
      (some (x.claim capacity).1) (x.claim capacity).2 := by
  obtain ⟨kind, old, busy⟩ := x
  cases kind with
  | single =>
    cases busy with
    | true => exact .step rfl (.done _ _)
    | false =>
      simp only [claim, Bool.false_eq_true, if_false]
      refine .step rfl (.step rfl ?_)
      cases hn : next old capacity with
      | error f => exact .step (by simp only [Claiming.step, hn]) (.done _ _)
      | ok new =>
        exact .step (by simp only [Claiming.step, hn]; rfl) (.step rfl (.done _ _))
  | shared =>
    simp only [claim]
    refine .step rfl ?_
    cases hn : next old capacity with
    | error f => exact .step (by simp only [Claiming.step, hn]) (.done _ _)
    | ok new => exact .step (by simp [Claiming.step, hn]) (.done _ _)

namespace Storage

variable {α : Type} {s : Storage α} {i : Nat} {x : Slot α}

theorem slot_put (h : s.slots[i]? = some x) (y : Slot α) : (s.put i y).slot i = .ok y := by
  have hlt : i < s.slots.size := (Array.getElem?_eq_some_iff.mp h).1
  rw [slot, put, Array.getElem?_setIfInBounds_self_of_lt hlt]

theorem put_put (s : Storage α) (i : Nat) (y z : Slot α) : (s.put i y).put i z = s.put i z :=
  congrArg Storage.mk (Array.setIfInBounds_setIfInBounds y)

theorem put_self (h : s.slots[i]? = some x) : s.put i x = s := by
  obtain ⟨hlt, rfl⟩ := Array.getElem?_eq_some_iff.mp h
  rw [put, Array.setIfInBounds_def, dif_pos hlt, Array.set_getElem_self]

end Storage

namespace Slot

variable {α : Type} {s s' : Slot α} {v : α}

/-- An element is moved into a slot where it does not have to wait. -/
theorem comes_write (h : s.write? v = some s') (wait : Backoff) :
    Comes (fun (w : Writing) s => some (w.step v false s)) (.more (.claim wait)) s (some ())
      s' := by
  obtain ⟨s₁, hclaim, rfl⟩ := Option.map_eq_some_iff.mp h
  have hfirst : (Writing.claim wait).step v false s = (.more .place, s₁) := by
    simp [Writing.step, hclaim]
  exact .step (congrArg some hfirst) (.step rfl (.step rfl (.done _ _)))

/-- An element is moved out of a slot that holds one. -/
theorem comes_take (h : s.take? = some (v, s')) (wait : Backoff) :
    Comes (fun (t : Taking α) s => some (t.step false s)) (.more (.claim wait)) s (some v) s' := by
  obtain ⟨s₁, hclaim, hcell⟩ := Option.bind_eq_some_iff.mp h
  obtain ⟨v', hv, he⟩ := Option.map_eq_some_iff.mp hcell
  obtain ⟨rfl, rfl⟩ := Prod.mk.inj he
  have hfirst : (Taking.claim wait).step false s = (.more .remove, s₁) := by
    simp [Taking.step, hclaim]
  have hremove : Taking.remove.step false s₁ = (.more (.vacate v'), s₁.remove) := by
    simp only [Taking.step, hv]
  exact .step (congrArg some hfirst) (.step (congrArg some hremove) (.step rfl (.done _ _)))

end Slot

/-! ### Parkers -/

namespace Parker

variable {p : Parker}

/-- The parker once everybody who was roused has left. -/
def settled (p : Parker) : Parker :=
  { p with parked := p.sleepers.length }

/-- The sleepers are different threads and all of them are counted, perhaps together with others who
were roused and have not left yet. There is room for one more. -/
structure Loose (p : Parker) : Prop where
  kind : p.kind = .futex
  length_le : p.sleepers.length ≤ p.parked
  length_lt : p.sleepers.length + 1 < Word.size
  nodup : (p.sleepers.map Sleeper.thread).Nodup

theorem Sound.loose (h : p.Sound) (hp : p.parked + 1 < Word.size) : p.Loose :=
  ⟨h.kind, Nat.le_of_eq h.parked.symm, h.parked ▸ hp, h.nodup⟩

/-- Nobody has been roused who has not left. -/
theorem Sound.settled (h : p.Sound) : p.settled = p := by
  rw [Parker.settled, ← h.parked]

/-- Where nobody sleeps there is nobody to rouse, whether it is looked up or not. -/
theorem unparkOne_settled (p : Parker) : p.settled.unparkOne = p.bump.settled.rouseOne := by
  refine ite_eq_right_iff.mpr fun hn => ?_
  have hnone : p.settled.bump.nextSleeper? = none :=
    List.getElem?_eq_none (Nat.le_trans (Nat.le_of_eq hn) (Nat.zero_le _))
  rw [rouseOne, hnone]

theorem unparkAll_settled (p : Parker) : p.settled.unparkAll = p.bump.settled.rouseAll := by
  refine ite_eq_right_iff.mpr fun hn => ?_
  have hnil : p.sleepers = [] := List.length_eq_zero_iff.mp hn
  simp [rouseAll, settled, bump, hnil, Nat.repeat]

namespace Loose

theorem bump (h : p.Loose) : p.bump.Loose :=
  ⟨h.kind, h.length_le, h.length_lt, h.nodup⟩

/-- Nobody sleeps on, so where all are roused nobody is left. -/
theorem rouseAll_settled (h : p.Loose) :
    p.settled.rouseAll = { p.settled with parked := 0, sleepers := [] } := by
  have hsleeps : p.settled.sleepsOn = fun _ => false := by
    funext z
    simp only [sleepsOn, Parker.settled, h.kind]
  rw [rouseAll, repeat_leave, hsleeps, List.filter_false]
  simp only [Bool.not_false, List.filter_true]
  rw [show p.settled.parked = p.settled.sleepers.length from rfl,
    repeat_pred (Nat.le_refl _), Nat.sub_self]

/-- Who is roused gets up and leaves. -/
theorem rouseOne_settled (h : p.Loose) {z : Sleeper} (hz : p.nextSleeper? = some z) :
    p.settled.rouseOne = { p.getUp z.thread with rouses := p.rouses + 1 }.settled := by
  have hsleeps : { p.settled with rouses := p.rouses + 1 }.sleepsOn z = false := by
    simp only [sleepsOn, Parker.settled, h.kind]
  have hmem : z ∈ p.sleepers := List.mem_of_getElem? hz
  have hleave : Word.pred p.sleepers.length =
      (p.sleepers.filter fun y => y.thread != z.thread).length := by
    rw [Word.pred_eq (List.length_pos_of_mem hmem), (perm_cons_filter_ne h.nodup hmem).length_eq,
      List.length_cons, Nat.add_sub_cancel]
  rw [rouseOne, show p.settled.nextSleeper? = p.nextSleeper? from rfl, hz]
  dsimp only
  rw [if_neg (by rw [show p.settled.rouses = p.rouses from rfl, hsleeps]; exact Bool.false_ne_true)]
  simp only [leave, getUp, Parker.settled, hleave]

theorem getUp (h : p.Loose) (thread n : Nat) :
    { p.getUp thread with rouses := n }.Loose :=
  have hlen := List.length_filter_le (fun z => z.thread != thread) p.sleepers
  ⟨h.kind, Nat.le_trans hlen h.length_le, Nat.lt_of_le_of_lt (Nat.succ_le_succ hlen) h.length_lt,
    h.nodup.sublist (List.filter_sublist.map _)⟩

end Loose

end Parker

/-! ### Permits of one side -/

namespace Permits

variable {p : Permits}

/-- The counter once everybody who was roused has left. -/
def settled (p : Permits) : Permits :=
  { p with parker := p.parker.settled }

/-- One sleeper is woken, or all. -/
def wake (every : Bool) (p : Permits) : Permits :=
  { p with parker := if every then p.parker.unparkAll else p.parker.unparkOne }

/-- A permit is taken if there is one. -/
theorem comes_taking (p : Permits) :
    Comes (fun (t : Taking) p => some (t.step false p)) (.more .load) p
      (some p.take?.isSome) (p.take?.getD p) := by
  by_cases h : p.count = 0
  · have hload : Taking.load.step false p = (.done false, p) := by
      rw [Taking.step, Taking.seeing, if_pos h]
    rw [take?_of_eq_zero h]
    exact .step (congrArg some hload) (.done _ _)
  · have hload : Taking.load.step false p = (.more (.swap p.count), p) := by
      rw [Taking.step, Taking.seeing, if_neg h]
    have hswap : (Taking.swap p.count).step false p =
        (.done true, { p with count := Word.pred p.count }) := if_pos ⟨rfl, rfl⟩
    rw [take?_of_pos (Nat.pos_of_ne_zero h)]
    exact .step (congrArg some hload) (.step (congrArg some hswap) (.done _ _))

/-- Whom the last step of a wake rouses, the functions rouse and let leave. -/
theorem exists_rouse (every : Bool) (h : p.parker.Loose) :
    ∃ k : Parker, Waking.rouse.step every p = (.done (), { p with parker := k }) ∧
      k.settled = (if every then p.parker.settled.rouseAll else p.parker.settled.rouseOne) ∧
      k.Loose := by
  cases every with
  | true =>
    exact ⟨{ p.parker with sleepers := [] }, rfl, h.rouseAll_settled.symm,
      ⟨h.kind, Nat.zero_le _, (by decide : 0 + 1 < Word.size), List.nodup_nil⟩⟩
  | false =>
    simp only [Waking.step, Bool.false_eq_true, if_false]
    cases hz : p.parker.nextSleeper? with
    | none =>
      refine ⟨p.parker, rfl, ?_, h⟩
      rw [Parker.rouseOne, show p.parker.settled.nextSleeper? = p.parker.nextSleeper? from rfl, hz]
    | some z => exact ⟨_, rfl, (h.rouseOne_settled hz).symm, h.getUp _ _⟩

/-- **A wake.** The steps rouse whom the function rouses. -/
theorem comes_waking (every : Bool) (h : p.parker.Loose) :
    ∃ k : Permits, Comes (fun (w : Waking) p => some (w.step every p)) (.more .bump) p (some ()) k ∧
      k.settled = p.settled.wake every ∧ k.parker.Loose := by
  let bumped : Permits := { p with parker := p.parker.bump }
  by_cases hn : p.parker.parked = 0
  · -- nobody is counted, so nobody sleeps
    have hnil : p.parker.sleepers.length = 0 := Nat.le_zero.mp (hn ▸ h.length_le)
    have hlook : Waking.look.step every bumped = (.done (), bumped) := by
      rw [Waking.step, if_pos (show bumped.parker.parked = 0 from hn)]
    refine ⟨bumped, .step rfl (.step (congrArg some hlook) (.done _ _)), ?_, h.bump⟩
    have hnone : p.settled.parker.bump.parked = 0 := hnil
    simp only [wake, Parker.unparkAll, Parker.unparkOne, if_pos hnone, ite_self]
    rfl
  · have hlook : Waking.look.step every bumped = (.more .rouse, bumped) := by
      rw [Waking.step, if_neg (show ¬bumped.parker.parked = 0 from hn)]
    obtain ⟨k, hrouse, hk, hloose⟩ := exists_rouse (p := bumped) every h.bump
    refine ⟨_, .step rfl (.step (congrArg some hlook) (.step (congrArg some hrouse) (.done _ _))),
      ?_, hloose⟩
    rw [wake, show p.settled.parker = p.parker.settled from rfl, Parker.unparkOne_settled,
      Parker.unparkAll_settled, ← hk]
    rfl

/-- A wait disturbs none of the others, and it does not matter whether they have left already. -/
theorem settled_waited (hp : p.parker.sleepers.length + 1 < Word.size) (thread : Nat)
    (limit : Patience) (last : Bool) :
    p.settled.waited thread limit last =
      ((p.waited thread limit last).1, (p.waited thread limit last).2.settled) := by
  have hsleeper : p.settled.withSleeper thread = (p.withSleeper thread).settled := by
    simp only [settled, withSleeper, Parker.settled, Parker.enlist, Parker.doze, Word.succ_eq hp,
      List.length_append, List.length_singleton]
  rw [waited, waited, hsleeper]
  cases last <;> cases limit.isLong <;> by_cases hc : 0 < p.count <;> simp [hc, settled, taken]

/-- A wait that ends leaves the parker as it was. -/
theorem parker_waited {thread : Nat} {limit : Patience} {last : Bool}
    (h : (p.waited thread limit last).1 ≠ none) :
    (p.waited thread limit last).2.parker = p.parker := by
  unfold waited at h ⊢
  split
  · rfl
  · rename_i hc
    rw [if_neg hc] at h
    cases last <;> cases hl : limit.isLong <;> first | rfl | exact absurd (by rw [hl]; rfl) h

end Permits

namespace Queue

variable {α ρ π : Type} {q : Queue α} {x : Side} {c : Choice} {limit : Patience}

/-! ### The permits of a queue -/

@[simp] theorem permits_setPermits (x : Side) (p : Permits) (q : Queue α) :
    (q.setPermits x p).permits x = p := by
  cases x <;> rfl

@[simp] theorem setPermits_setPermits (x : Side) (p p' : Permits) (q : Queue α) :
    (q.setPermits x p).setPermits x p' = q.setPermits x p' := by
  cases x <;> rfl

@[simp] theorem setPermits_permits (x : Side) (q : Queue α) : q.setPermits x (q.permits x) = q := by
  cases x <;> rfl

/-- The queue once everybody who was roused has left. -/
def settled (q : Queue α) : Queue α :=
  (q.setProduce q.gate.produce.settled).setConsume q.gate.consume.settled

@[simp] theorem permits_settled (x : Side) (q : Queue α) :
    q.settled.permits x = (q.permits x).settled := by
  cases x <;> rfl

@[simp] theorem settled_setPermits (x : Side) (p : Permits) (q : Queue α) :
    (q.setPermits x p).settled = q.settled.setPermits x p.settled := by
  cases x <;> rfl

/-- Nobody is counted wrongly at the parkers, apart from those who were roused and have not left. -/
def Loose (q : Queue α) : Prop :=
  ∀ x, (q.permits x).parker.Loose

/-- The parkers' counts are far from the end of their word. -/
theorem Loose.parked_lt (h : q.Loose) (x : Side) :
    (q.settled.permits x).parker.parked < Word.size := by
  rw [permits_settled]
  exact Nat.lt_of_succ_lt (h x).length_lt

theorem Loose.setPermits (h : q.Loose) {p : Permits} (hp : p.parker.Loose) (x : Side) :
    (q.setPermits x p).Loose := by
  intro y
  cases x with
  | produce => cases y with
    | produce => exact hp
    | consume => exact h .consume
  | consume => cases y with
    | produce => exact h .produce
    | consume => exact hp

/-- Nobody else acts: no swap fails without cause, and the only limit that passes is one that passes
before anybody else could act. -/
structure Choice.Alone (c : Choice) (wait : Wait) : Prop where
  spurious : c.spurious = false
  expired : c.expired = true ↔ wait = .atMost .brief

theorem Choice.Alone.expired_iff (h : c.Alone (.atMost limit)) :
    c.expired = true ↔ limit = .brief := by
  rw [h.expired, Wait.atMost.injEq]

/-! ### Taking a permit, and waking -/

section Parts

variable {g : π → Queue α → Option (Progress π ρ × Queue α)} {o : Option ρ} {t : Queue α}

theorem inside_taking {here : Permits.Taking → π} {next : Bool → Progress π ρ}
    (hg : ∀ p q, g (here p) q = some (stepTaking x c p q here next)) (hc : c.spurious = false) :
    Inside (fun (p : Permits.Taking) k => some (p.step false k)) g here next
      (fun k => q.setPermits x k) := by
  intro p k
  rw [hg, stepTaking, permits_setPermits, hc, Option.map_some]
  rcases p.step false k with ⟨r | b, k'⟩ <;>
    simp only [setPermits_setPermits, Progress.lead]

theorem inside_waking {every : Bool} {here : Permits.Waking → π} {next : Progress π ρ}
    (hg : ∀ w q, g (here w) q = some (stepWaking x every w q here next)) :
    Inside (fun (w : Permits.Waking) k => some (w.step every k)) g here (fun _ => next)
      (fun k => q.setPermits x k) := by
  intro w k
  rw [hg, stepWaking, permits_setPermits, Option.map_some]
  rcases w.step every k with ⟨r | b, k'⟩ <;>
    simp only [setPermits_setPermits, Progress.lead]

/-- A permit is taken. -/
theorem comes_taken {here : Permits.Taking → π} {next : Bool → Progress π ρ}
    (hg : ∀ p q, g (here p) q = some (stepTaking x c p q here next)) (hc : c.spurious = false)
    (hpos : 0 < (q.permits x).count)
    (hr : Comes g (next true) (q.setPermits x (q.permits x).taken) o t) :
    Comes g (.more (here .load)) q o t := by
  have htaking := Permits.comes_taking (q.permits x)
  rw [Permits.take?_eq_some hpos] at htaking
  have := Comes.call (inside_taking (q := q) hg hc) htaking hr
  rwa [setPermits_permits] at this

/-- There is no permit to take. -/
theorem comes_untaken {here : Permits.Taking → π} {next : Bool → Progress π ρ}
    (hg : ∀ p q, g (here p) q = some (stepTaking x c p q here next)) (hc : c.spurious = false)
    (hn : (q.permits x).count = 0) (hr : Comes g (next false) q o t) :
    Comes g (.more (here .load)) q o t := by
  have htaking := Permits.comes_taking (q.permits x)
  rw [Permits.take?_of_eq_zero hn] at htaking
  have := Comes.call (inside_taking (q := q) hg hc) htaking
    (by rwa [Option.getD_none, setPermits_permits])
  rwa [setPermits_permits] at this

/-- Threads are woken, and the operation goes on. -/
theorem comes_woken {every : Bool} {here : Permits.Waking → π} {next : Progress π ρ}
    (hg : ∀ w q, g (here w) q = some (stepWaking x every w q here next)) (h : q.Loose) :
    ∃ q₁, q₁.settled = q.settled.setPermits x ((q.settled.permits x).wake every) ∧ q₁.Loose ∧
      ∀ {o t}, Comes g next q₁ o t → Comes g (.more (here .bump)) q o t := by
  obtain ⟨k, hwaking, hk, hloose⟩ := Permits.comes_waking every (h x)
  refine ⟨q.setPermits x k, by rw [settled_setPermits, permits_settled, hk],
    h.setPermits hloose x, fun hr => ?_⟩
  have := Comes.call (inside_waking (q := q) hg) hwaking hr
  rwa [setPermits_permits] at this

end Parts

/-! ### Waiting for a permit -/

/-- A thread that finds no permit asks whether waiting makes sense. -/
theorem comes_askOpen {e : Nat} {o : Option Permits.Outcome} {t : Queue α}
    (h : Comes (Awaiting.step x limit c)
      (.more (if q.isOver x then .lastLook .load else .deadline e)) q o t) :
    Comes (Awaiting.step x limit c) (.more (.askOpen e)) q o t := by
  by_cases ho : q.isOpen = true
  · have hstep : (Awaiting.askOpen e).step x limit c q = some (.more (.deadline e), q) := if_pos ho
    have hover : q.isOver x = false := by cases x <;> simp [isOver, isClosed, isDrained, ho]
    rw [hover] at h
    exact .step hstep h
  · cases x with
    | produce =>
      have hstep : (Awaiting.askOpen e).step .produce limit c q =
          some (.more (.lastLook .load), q) := if_neg ho
      have hover : q.isOver .produce = true := by simp [isOver, isClosed, ho]
      rw [hover] at h
      exact .step hstep h
    | consume =>
      have hstep : (Awaiting.askOpen e).step .consume limit c q =
          some (.more (.askPending e), q) := if_neg ho
      have hover : (q.isOver .consume = true) = (q.pending = 0) := by
        simp [isOver, isDrained, ho]
      simp only [hover] at h
      exact .step hstep (.step rfl h)

/-- A thread for which waiting makes sense waits as long as it may. -/
theorem comes_deadline (hc : c.Alone (.atMost limit)) :
    let w := if limit.isLong then (none, (q.permits x).withSleeper c.thread)
      else (some Permits.Outcome.timedOut, q.permits x)
    Comes (Awaiting.step x limit c) (.more (.deadline (q.permits x).parker.epoch)) q w.1
      (q.setPermits x w.2) := by
  by_cases hl : limit.isLong = true
  · -- a limit that does not pass before somebody else acts
    have hpass : ¬(limit ≠ .endless ∧ c.expired = true) := by
      rintro ⟨-, hx⟩
      rw [hc.expired_iff.mp hx] at hl
      cases hl
    have hlooks : (Awaiting.deadline (q.permits x).parker.epoch).step x limit c q =
        some (.more (.enlist (q.permits x).parker.epoch), q) := by
      refine if_neg ?_
      rintro (rfl | hx)
      · cases hl
      · exact hpass hx
    have hsleeps : (Awaiting.sleep (q.permits x).parker.epoch).step x limit c
        (q.setParker x (q.permits x).parker.enlist) =
          some (.more .asleep, q.setPermits x ((q.permits x).withSleeper c.thread)) := by
      simp [Awaiting.step, setParker, Permits.withSleeper, Parker.enlist]
    have hasleep : Awaiting.asleep.step x limit c
        (q.setPermits x ((q.permits x).withSleeper c.thread)) = none := by
      simp only [Awaiting.step, permits_setPermits, Permits.isAsleep_withSleeper_eq,
        beq_self_eq_true, Bool.or_true, if_true, if_neg hpass]
    simp only [if_pos hl]
    exact .step hlooks (.step rfl (.step hsleeps (.asleep hasleep)))
  · have hstep : (Awaiting.deadline (q.permits x).parker.epoch).step x limit c q =
        some (.done .timedOut, q) := by
      refine if_pos ?_
      cases limit with
      | instant => exact .inl rfl
      | brief => exact .inr ⟨by decide, hc.expired_iff.mpr rfl⟩
      | lasting | endless => exact absurd rfl hl
    simp only [if_neg hl, setPermits_permits]
    exact .step hstep (.done _ _)

/-- **A wait for a permit.** It ends, or falls asleep, as the wait that is one operation. -/
theorem comes_prepare (hc : c.Alone (.atMost limit)) :
    Comes (Awaiting.step x limit c) (.more .prepare) q
      ((q.permits x).waited c.thread limit (q.isOver x)).1
      (q.setPermits x ((q.permits x).waited c.thread limit (q.isOver x)).2) := by
  refine .step rfl ?_
  by_cases hpos : 0 < (q.permits x).count
  · rw [Permits.waited, if_pos hpos]
    exact comes_taken (fun _ _ => rfl) hc.spurious hpos (.done _ _)
  · have hn : (q.permits x).count = 0 := Nat.eq_zero_of_not_pos hpos
    rw [Permits.waited, if_neg hpos]
    refine comes_untaken (fun _ _ => rfl) hc.spurious hn (comes_askOpen ?_)
    cases q.isOver x with
    | true =>
      simp only [if_true, setPermits_permits]
      exact comes_untaken (fun _ _ => rfl) hc.spurious hn (.done _ _)
    | false => exact comes_deadline hc

/-- So does a wait that begins with a look for a permit. -/
theorem comes_fast (hc : c.Alone (.atMost limit)) :
    Comes (Awaiting.step x limit c) (.more (.fast .load)) q
      ((q.permits x).waited c.thread limit (q.isOver x)).1
      (q.setPermits x ((q.permits x).waited c.thread limit (q.isOver x)).2) := by
  by_cases hpos : 0 < (q.permits x).count
  · rw [Permits.waited, if_pos hpos]
    exact comes_taken (fun _ _ => rfl) hc.spurious hpos (.done _ _)
  · have hn : (q.permits x).count = 0 := Nat.eq_zero_of_not_pos hpos
    exact comes_untaken (fun _ _ => rfl) hc.spurious hn (comes_prepare hc)

/-- From a point on, a thread waits at a queue as in one operation. -/
def Waits (x : Side) (limit : Patience) (c : Choice) (a : Awaiting) (q : Queue α) : Prop :=
  let w := (q.settled.permits x).waited c.thread limit (q.isOver x)
  ∃ q₁, Comes (Awaiting.step x limit c) (.more a) q w.1 q₁ ∧
    q₁.settled = q.settled.setPermits x w.2 ∧ (w.1 ≠ none → q₁.Loose)

theorem waits_of_comes (h : q.Loose) {a : Awaiting}
    (ha : Comes (Awaiting.step x limit c) (.more a) q
      ((q.permits x).waited c.thread limit (q.isOver x)).1
      (q.setPermits x ((q.permits x).waited c.thread limit (q.isOver x)).2)) :
    q.Waits x limit c a := by
  rw [Waits, permits_settled, Permits.settled_waited (h x).length_lt]
  exact ⟨_, ha, settled_setPermits .., fun hne =>
    h.setPermits (Permits.parker_waited hne ▸ h x) x⟩

/-- The function that waits in a settled run. -/
theorem Loose.acquire (h : q.Loose) (x : Side) (thread : Nat) (limit : Patience) (last : Bool) :
    ((q.settled.permits x).acquire thread limit [] last).outcome =
        ((q.settled.permits x).waited thread limit last).1 ∧
      ((q.settled.permits x).acquire thread limit [] last).permits =
        ((q.settled.permits x).waited thread limit last).2 :=
  Prod.mk.inj (Permits.acquire_eq (h.parked_lt x) thread limit last)

/-- A thread that was roused leaves the parker and goes on waiting. -/
theorem waits_asleep (h : q.Loose) (hc : c.Alone (.atMost limit))
    (hup : (q.permits x).parker.isAsleep c.thread = false)
    (hin : (q.permits x).parker.sleepers.length < (q.permits x).parker.parked) :
    q.Waits x limit c .asleep := by
  -- the first step leaves the parker, which the settled queue has done already
  let k : Permits := { q.permits x with parker := (q.permits x).parker.leave }
  have hparked : k.parker.parked = (q.permits x).parker.parked - 1 :=
    Word.pred_eq (Nat.zero_lt_of_lt hin)
  have hk : k.parker.Loose :=
    ⟨(h x).kind, Nat.le_trans (Nat.le_sub_one_of_lt hin) (Nat.le_of_eq hparked.symm),
      (h x).length_lt, (h x).nodup⟩
  have hsettled : (q.setPermits x k).settled = q.settled := by
    rw [settled_setPermits, show k.settled = q.settled.permits x by rw [permits_settled]; rfl,
      setPermits_permits]
  have hgone : Awaiting.asleep.step x limit c q = some (.more .leave, q) := by
    simp [Awaiting.step, hup]
  obtain ⟨q₁, hprepare, hq₁, hl⟩ := waits_of_comes (h.setPermits hk x) (comes_prepare hc)
  rw [hsettled, isOver_setPermits] at hprepare hq₁ hl
  exact ⟨q₁, .step hgone (.step rfl hprepare), hq₁, hl⟩

end Queue

end PermitRing
