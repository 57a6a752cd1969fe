import PermitRing.Proofs.Machine.Step
import PermitRing.Proofs.Parker.Rousing

/-!
# Who waits and who wakes

A thread that waits for a permit reads the epoch of the parker, looks for a permit, asks whether
waiting makes sense, is counted as parked and falls asleep if the epoch is still the same. A thread
that brings a permit moves the epoch on, looks whether anybody is parked, and rouses one sleeper;
one that makes waiting senseless does so for all sleepers. These are steps of many operations, and
all else that operations do is of no account to those who sleep.

A *post* says where a thread stands with regard to the sleepers of one side, and the *lobby* of a
side is what it stands at: the permits, the parker and whether waiting makes no sense any more.
`Shift` lists what a step can do to a post and to the lobby. As `Move` does for the elements, it is
the only place where the steps of the sleepers' side are looked at.

## Main definitions

* `Post`, `Lobby`, `Shift` — where threads stand, what they stand at, and how that changes;
* `Point.Proper` — a point of the operation that the call asks for.

## Main results

* `Point.shift_of_step` — every step is a shift on each side.
-/

namespace PermitRing.Queue

variable {α : Type}

/-! ### Posts -/

/-- Where a thread stands with regard to the sleepers of one side. -/
inductive Post
  /-- It has nothing to do with them. -/
  | aside
  /-- It is about to read the epoch. -/
  | seeking
  /-- It has read the epoch and looks for a permit. -/
  | looking (epoch : Nat)
  /-- It has found none and asks whether waiting makes sense. -/
  | asking (epoch : Nat)
  /-- It has found that waiting makes sense. -/
  | settling (epoch : Nat)
  /-- It is counted as parked and about to fall asleep. -/
  | dozing (epoch : Nat)
  /-- It fell asleep. It may have been roused since. -/
  | asleep
  /-- It is about to take itself off the count. -/
  | leaving
  /-- It wakes one of them, or all. -/
  | waking (every : Bool) (w : Permits.Waking)
  /-- It is going to wake all of them. -/
  | minding
  deriving DecidableEq

/-- The post of a thread that waits for a permit of the side. -/
def Awaiting.post : Awaiting → Post
  | .fast _ | .lastLook _ => .aside
  | .prepare => .seeking
  | .look e _ => .looking e
  | .askOpen e | .askPending e => .asking e
  | .deadline e | .enlist e => .settling e
  | .sleep e => .dozing e
  | .asleep => .asleep
  | .leave => .leaving

/-- The post of a producer. -/
def Producing.post : Side → Producing α → Post
  | .produce, .wait a => a.post
  | .produce, .wakeBack _ w | .consume, .wake w => .waking false w
  | .consume, .finish _ .check => .minding
  | .consume, .finish _ (.wake w) => .waking true w
  | _, _ => .aside

/-- The post of a consumer. -/
def Consuming.post : Side → Consuming α → Post
  | .consume, .wait a => a.post
  | .produce, .wake _ w => .waking false w
  | _, _ => .aside

/-- The post of a thread that closes the queue: it wakes the consumers first. -/
def Closing.post : Side → Closing → Post
  | .consume, .wakeConsumers w | .produce, .wakeProducers w => .waking true w
  | .produce, .wakeConsumers _ => .minding
  | _, _ => .aside

/-- The post of a thread inside a call. -/
def Point.post (x : Side) : Point α → Post
  | .producing p => p.post x
  | .consuming p => p.post x
  | .closing p => p.post x
  | .observing _ => .aside

/-- The post of a thread after a step. A call that is over has none. -/
def postAfter (x : Side) : Progress (Point α) (Answer α) → Post
  | .more p => p.post x
  | .done _ => .aside

theorem Call.post_first (x : Side) (call : Call α) : call.first.post x = .aside := by
  cases call <;> cases x <;> rfl

/-! ### Lobbies -/

/-- Waiting for a permit of the side makes no sense any more. -/
def isOver (x : Side) (q : Queue α) : Bool :=
  match x with
  | .produce => q.isClosed
  | .consume => q.isDrained

/-- What the threads that wait for a permit of a side stand at. -/
structure Lobby where
  /-- The permits, with the parker. -/
  permits : Permits
  /-- Waiting makes no sense any more. -/
  vain : Bool

/-- The lobby of a side. -/
def lobby (x : Side) (q : Queue α) : Lobby :=
  ⟨q.permits x, q.isOver x⟩

/-- The lobby with another parker. -/
def Lobby.setParker (l : Lobby) (k : Parker) : Lobby :=
  { l with permits := { l.permits with parker := k } }

section Lobby

variable {x y : Side} {q : Queue α}

@[simp] theorem isOver_setPermits (y : Side) (p : Permits) : (q.setPermits y p).isOver x =
    q.isOver x := by
  cases x <;> cases y <;> rfl

@[simp] theorem lobby_setPermits (p : Permits) :
    (q.setPermits x p).lobby x = ⟨p, q.isOver x⟩ := by
  cases x <;> rfl

theorem lobby_setPermits_of_ne (h : x ≠ y) (p : Permits) :
    (q.setPermits y p).lobby x = q.lobby x := by
  cases x <;> cases y <;> first | rfl | exact absurd rfl h

@[simp] theorem lobby_setParker (k : Parker) :
    (q.setParker x k).lobby x = (q.lobby x).setParker k := by
  cases x <;> rfl

theorem lobby_setParker_of_ne (h : x ≠ y) (k : Parker) : (q.setParker y k).lobby x = q.lobby x :=
  lobby_setPermits_of_ne h _

end Lobby

/-! ### Shifts -/

/-- What a step of a thread can do to its post and to the lobby. -/
inductive Shift (t : Nat) : Post → Lobby → Post → Lobby → Prop
  /-- The thread does something else. It may take a permit on the way. -/
  | pass {l l' : Lobby} (parker : l'.permits.parker = l.permits.parker)
    (count : l'.permits.count ≤ l.permits.count) (vain : l'.vain = true → l.vain = true) :
    Shift t .aside l .aside l'
  /-- It brings a permit, and is going to wake one for it. -/
  | give {l l' : Lobby} (parker : l'.permits.parker = l.permits.parker)
    (count : l'.permits.count ≤ l.permits.count + 1) (vain : l'.vain = l.vain) :
    Shift t .aside l (.waking false .bump) l'
  /-- It makes waiting senseless, and is going to wake all. -/
  | alarm {l l' : Lobby} {p : Post} (permits : l'.permits = l.permits)
    (post : p = .minding ∨ p = .waking true .bump) : Shift t .aside l p l'
  /-- It has found no permit, and begins to wait. -/
  | wait {l : Lobby} : Shift t .aside l .seeking l
  /-- It reads the epoch. -/
  | prepare {l : Lobby} : Shift t .seeking l (.looking l.permits.parker.epoch) l
  /-- It sees a permit. -/
  | see {l : Lobby} {e : Nat} : Shift t (.looking e) l (.looking e) l
  /-- It takes a permit. -/
  | gain {l : Lobby} {e : Nat} (count : 0 < l.permits.count) :
    Shift t (.looking e) l .aside { l with permits := l.permits.taken }
  /-- There is no permit. -/
  | miss {l : Lobby} {e : Nat} (count : l.permits.count = 0) :
    Shift t (.looking e) l (.asking e) l
  /-- It has still to ask on. -/
  | ask {l : Lobby} {e : Nat} : Shift t (.asking e) l (.asking e) l
  /-- Waiting makes no sense. -/
  | desist {l : Lobby} {e : Nat} : Shift t (.asking e) l .aside l
  /-- Waiting makes sense. -/
  | settle {l : Lobby} {e : Nat} (vain : l.vain = false) : Shift t (.asking e) l (.settling e) l
  /-- Its time limit has not passed. -/
  | linger {l : Lobby} {e : Nat} : Shift t (.settling e) l (.settling e) l
  /-- Its time limit has passed. -/
  | expire {l : Lobby} {e : Nat} : Shift t (.settling e) l .aside l
  /-- It puts itself on the count of those who are parked. -/
  | enlist {l : Lobby} {e : Nat} :
    Shift t (.settling e) l (.dozing e) (l.setParker l.permits.parker.enlist)
  /-- It falls asleep. -/
  | doze {l : Lobby} {e : Nat} (epoch : l.permits.parker.epoch = e) :
    Shift t (.dozing e) l .asleep (l.setParker (l.permits.parker.doze t e))
  /-- The epoch has moved on. -/
  | stale {l : Lobby} {e : Nat} : Shift t (.dozing e) l .leaving l
  /-- Its time limit passes while it sleeps. -/
  | getUp {l : Lobby} : Shift t .asleep l .leaving (l.setParker (l.permits.parker.getUp t))
  /-- It was roused. -/
  | rise {l : Lobby} (awake : l.permits.parker.isAsleep t = false) : Shift t .asleep l .leaving l
  /-- It takes itself off the count of those who are parked. -/
  | leave {l : Lobby} : Shift t .leaving l .seeking (l.setParker l.permits.parker.leave)
  /-- It moves the epoch on. -/
  | bump {l : Lobby} {every : Bool} :
    Shift t (.waking every .bump) l (.waking every .look) (l.setParker l.permits.parker.bump)
  /-- Somebody is parked. -/
  | find {l : Lobby} {every : Bool} : Shift t (.waking every .look) l (.waking every .rouse) l
  /-- Nobody is parked. -/
  | findNone {l : Lobby} {every : Bool} (parked : l.permits.parker.parked = 0) :
    Shift t (.waking every .look) l .aside l
  /-- It rouses one sleeper. -/
  | rouseOne {l : Lobby} {s : Parker.Sleeper} {n : Nat} (mem : s ∈ l.permits.parker.sleepers) :
    Shift t (.waking false .rouse) l .aside
      (l.setParker { l.permits.parker.getUp s.thread with rouses := n })
  /-- Nobody sleeps. -/
  | rouseNone {l : Lobby} (sleepers : l.permits.parker.sleepers = []) :
    Shift t (.waking false .rouse) l .aside l
  /-- It rouses every sleeper. -/
  | rouseAll {l : Lobby} :
    Shift t (.waking true .rouse) l .aside (l.setParker { l.permits.parker with sleepers := [] })
  /-- It has something else to do before it wakes all. -/
  | mind {l : Lobby} : Shift t .minding l .minding l
  /-- It begins to wake all. -/
  | call {l : Lobby} : Shift t .minding l (.waking true .bump) l
  /-- Waiting makes sense after all. -/
  | dismiss {l : Lobby} (vain : l.vain = false) : Shift t .minding l .aside l

theorem Shift.keep (t : Nat) (l : Lobby) : Shift t .aside l .aside l :=
  .pass rfl (Nat.le_refl _) id

/-! ### Parts of several operations -/

section Parts

variable {x : Side} {c : Choice} {q : Queue α}

/-- A thread that does not wait looks for a permit. -/
theorem shift_taken (t : Nat) :
    Shift t .aside (q.lobby x) .aside ((q.setPermits x (q.permits x).taken).lobby x) := by
  rw [lobby_setPermits]
  exact .pass rfl (Nat.sub_le _ _) id

/-- What a step of waking others does to the lobby of the side. -/
theorem stepWaking_shift {π ρ : Type} (t : Nat) (x : Side) (every : Bool) (w : Permits.Waking)
    (q : Queue α) (here : Permits.Waking → π) (next : Progress π ρ) :
    ∃ k, (∃ w', stepWaking x every w q here next = (.more (here w'), q.setParker x k) ∧
        Shift t (.waking every w) (q.lobby x) (.waking every w') ((q.setParker x k).lobby x)) ∨
      stepWaking x every w q here next = (next, q.setParker x k) ∧
        Shift t (.waking every w) (q.lobby x) .aside ((q.setParker x k).lobby x) := by
  have hq : q.setPermits x (q.permits x) = q.setParker x (q.permits x).parker := rfl
  have hkeep : (q.setParker x (q.permits x).parker).lobby x = q.lobby x := by cases x <;> rfl
  cases w with
  | bump =>
    refine ⟨(q.permits x).parker.bump, .inl ⟨.look, rfl, ?_⟩⟩
    rw [lobby_setParker]
    exact .bump
  | look =>
    refine ⟨(q.permits x).parker, ?_⟩
    by_cases h0 : (q.permits x).parker.parked = 0
    · refine .inr ⟨by simp only [stepWaking, Permits.Waking.step, if_pos h0, hq], ?_⟩
      rw [hkeep]
      exact .findNone h0
    · refine .inl ⟨.rouse, by simp only [stepWaking, Permits.Waking.step, if_neg h0, hq], ?_⟩
      rw [hkeep]
      exact .find
  | rouse =>
    cases every with
    | true =>
      refine ⟨{ (q.permits x).parker with sleepers := [] }, .inr ⟨rfl, ?_⟩⟩
      rw [lobby_setParker]
      exact .rouseAll
    | false =>
      cases hs : (q.permits x).parker.nextSleeper? with
      | none =>
        have hnone : (q.permits x).parker.sleepers = [] := by
          by_contra hne
          obtain ⟨s, -, hsome⟩ := Parker.exists_nextSleeper? hne
          simp [hs] at hsome
        refine ⟨(q.permits x).parker, .inr ⟨?_, ?_⟩⟩
        · simp only [stepWaking, Permits.Waking.step, hs, Bool.false_eq_true, if_false, hq]
        · rw [hkeep]
          exact .rouseNone hnone
      | some s =>
        refine ⟨{ (q.permits x).parker.getUp s.thread with
          rouses := (q.permits x).parker.rouses + 1 }, .inr ⟨?_, ?_⟩⟩
        · simp only [stepWaking, Permits.Waking.step, hs, Bool.false_eq_true, if_false]
          rfl
        · rw [lobby_setParker]
          exact .rouseOne (List.mem_of_getElem? hs)

/-- The post of a thread after a step of waiting. -/
def Awaiting.postAfter : Progress Awaiting Permits.Outcome → Post
  | .more a => a.post
  | .done _ => .aside

/-- What a step of waiting does to the lobby of the side, and not to the other one. -/
theorem Awaiting.shift_of_step {limit : Patience} {a : Awaiting} {q' : Queue α}
    {r : Progress Awaiting Permits.Outcome} (ha : a.Apt)
    (hx : x = .produce → ∀ e, a ≠ .askPending e) (h : a.step x limit c q = some (r, q')) :
    Shift c.thread a.post (q.lobby x) (Awaiting.postAfter r) (q'.lobby x) ∧
      ∀ y, y ≠ x → q'.lobby y = q.lobby y := by
  have hsame {p p' : Post} (hs : Shift c.thread p (q.lobby x) p' (q.lobby x)) :
      Shift c.thread p (q.lobby x) p' (q.lobby x) ∧ ∀ y, y ≠ x → q.lobby y = q.lobby y :=
    ⟨hs, fun _ _ => rfl⟩
  cases a with
  | fast p =>
    obtain ⟨n, -, hs⟩ | ⟨-, hs⟩ | ⟨-, hs⟩ := stepTaking_cases x c ha q Awaiting.fast
      fun b => if b then Progress.done Permits.Outcome.acquired else .more .prepare
    all_goals
      rw [Awaiting.step, hs] at h
      cases h
    · exact hsame (.keep _ _)
    · exact ⟨shift_taken _, fun y hy => lobby_setPermits_of_ne hy _⟩
    · exact hsame .wait
  | prepare =>
    cases h
    exact hsame .prepare
  | look e p =>
    obtain ⟨n, -, hs⟩ | ⟨hk, hs⟩ | ⟨h0, hs⟩ := stepTaking_cases x c ha q (Awaiting.look e)
      fun b => if b then Progress.done Permits.Outcome.acquired else .more (.askOpen e)
    all_goals
      rw [Awaiting.step, hs] at h
      cases h
    · exact hsame .see
    · refine ⟨?_, fun y hy => lobby_setPermits_of_ne hy _⟩
      rw [lobby_setPermits]
      exact .gain hk
    · exact hsame (.miss h0)
  | askOpen e =>
    simp only [Awaiting.step] at h
    split at h
    · rename_i ho
      cases h
      exact hsame (.settle (by cases x <;> simp [lobby, isOver, isClosed, isDrained, ho]))
    · cases x with
      | produce =>
        cases h
        exact hsame .desist
      | consume =>
        cases h
        exact hsame .ask
  | askPending e =>
    cases x with
    | produce => exact absurd rfl (hx rfl e)
    | consume =>
      cases h
      by_cases hk : q.pending = 0
      · rw [if_pos hk]
        exact hsame .desist
      · rw [if_neg hk]
        exact hsame (.settle (by simp [lobby, isOver, isDrained, hk]))
  | lastLook p =>
    obtain ⟨n, -, hs⟩ | ⟨-, hs⟩ | ⟨-, hs⟩ := stepTaking_cases x c ha q Awaiting.lastLook
      fun b => Progress.done (if b then Permits.Outcome.acquired else .cancelled)
    all_goals
      rw [Awaiting.step, hs] at h
      cases h
    · exact hsame (.keep _ _)
    · exact ⟨shift_taken _, fun y hy => lobby_setPermits_of_ne hy _⟩
    · exact hsame (.keep _ _)
  | deadline e =>
    simp only [Awaiting.step] at h
    split at h <;> cases h
    · exact hsame .expire
    · exact hsame .linger
  | enlist e =>
    cases h
    refine ⟨?_, fun y hy => lobby_setParker_of_ne hy _⟩
    rw [lobby_setParker]
    exact .enlist
  | sleep e =>
    simp only [Awaiting.step] at h
    split at h <;> rename_i he <;> cases h
    · refine ⟨?_, fun y hy => lobby_setParker_of_ne hy _⟩
      rw [lobby_setParker]
      exact .doze he
    · exact hsame .stale
  | asleep =>
    simp only [Awaiting.step] at h
    split at h
    · split at h <;> cases h
      refine ⟨?_, fun y hy => lobby_setParker_of_ne hy _⟩
      rw [lobby_setParker]
      exact .getUp
    · rename_i hawake
      cases h
      exact hsame (.rise (Bool.eq_false_iff.mpr hawake))
  | leave =>
    cases h
    refine ⟨?_, fun y hy => lobby_setParker_of_ne hy _⟩
    rw [lobby_setParker]
    exact .leave

/-- A producer that waits does not ask for other producers. -/
theorem Awaiting.ne_askPending_of_step {limit : Patience} {a a' : Awaiting} {q' : Queue α}
    (h : a.step .produce limit c q = some (.more a', q')) (hx : ∀ e, a ≠ .askPending e) (e : Nat) :
    a' ≠ .askPending e := by
  rintro rfl
  cases a with
  | askPending e' => exact hx e' rfl
  | fast p | look e' p | lastLook p =>
    simp only [Awaiting.step, stepTaking] at h
    cases hs : p.step c.spurious (q.permits .produce) with
    | mk r k =>
      rw [hs] at h
      rcases r with _ | _ | _ <;> cases h
  | askOpen e' | deadline e' | sleep e' =>
    simp only [Awaiting.step] at h
    split at h <;> cases h
  | asleep =>
    simp only [Awaiting.step] at h
    split at h
    · split at h <;> cases h
    · cases h
  | prepare | enlist e' | leave => cases h

end Parts

/-! ### Points of the operation that the call asks for -/

/-- The call asks for the operation, and waits only if it may. A producer that waits does not ask
for other producers. -/
def Point.Proper (call : Call α) : Point α → Prop
  | .producing p => ∀ a, p = .wait a → call.wait ≠ .never ∧ ∀ e, a ≠ .askPending e
  | .consuming p => ∀ a, p = .wait a → call.wait ≠ .never
  | .closing _ => call = .close
  | .observing _ => call = .state

theorem Call.proper_first (call : Call α) : call.first.Proper call := by
  cases call <;> simp [first, Point.Proper]

/-- A call to close the queue stands at a point of closing. -/
theorem Point.Proper.closing {p : Point α} (h : p.Proper .close) (ha : p.Apt .close) :
    ∃ p', p = .closing p' := by
  cases p with
  | producing p => cases ha.1
  | consuming p => cases ha.1
  | closing p => exact ⟨p, rfl⟩
  | observing p => cases h

/-! ### Every step is a shift -/

section Producing

variable {call : Call α} {job : Job α} {c : Choice} {q q' : Queue α}
  {r : Progress (Producing α) (Answer α)}

/-- A producer leaves. -/
theorem Finishing.shift_of_step (t : Nat) (f : Finishing) (a : Answer α) (x : Side) :
    Shift t ((Producing.finish a f).post x) (q.lobby x)
      (match (f.step q).1 with
        | .more f => (Producing.finish a f).post x
        | .done () => .aside) ((f.step q).2.lobby x) := by
  cases f with
  | count =>
    by_cases hk : q.pending = 1
    · simp only [Finishing.step, if_pos hk]
      cases x with
      | produce => exact .keep _ _
      | consume => exact .alarm rfl (.inl rfl)
    · simp only [Finishing.step, if_neg hk]
      cases x with
      | produce => exact .keep _ _
      | consume =>
        -- the count is not zero afterwards, so waiting makes sense
        have hpred : Word.pred q.pending ≠ 0 := by
          rw [Word.pred]
          split
          · decide
          · omega
        exact .pass rfl (Nat.le_refl _) fun h => by simp [lobby, isOver, isDrained, hpred] at h
  | check =>
    cases ho : q.isOpen with
    | true =>
      simp only [Finishing.step, ho, if_true]
      cases x with
      | produce => exact .keep _ _
      | consume => exact .dismiss (by simp [lobby, isOver, isDrained, ho])
    | false =>
      simp only [Finishing.step, ho, Bool.false_eq_true, if_false]
      cases x with
      | produce => exact .keep _ _
      | consume => exact .call
  | wake w =>
    obtain ⟨k, ⟨w', hs, hshift⟩ | ⟨hs, hshift⟩⟩ :=
      stepWaking_shift t .consume true w q Finishing.wake (.done ())
    all_goals
      simp only [Finishing.step, hs]
      cases x with
      | produce => exact .keep _ _
      | consume => exact hshift

/-- A producer waits for a permit. -/
theorem Producing.shift_of_wait {a : Awaiting} (hp : a.Apt)
    (hproper : (Point.producing (α := α) (.wait a)).Proper call)
    (h : Producing.step call.wait job c (.wait a) q = some (r, q')) (x : Side) :
    Shift c.thread ((Producing.wait (α := α) a).post x) (q.lobby x)
      (postAfter x (liftProgress .producing (r, q')).1) (q'.lobby x) := by
  simp only [Producing.step] at h
  split at h
  · cases h
  · obtain ⟨⟨r', q''⟩, hs, he⟩ := Option.map_eq_some_iff.mp h
    obtain ⟨hshift, hother⟩ := Awaiting.shift_of_step hp (fun _ => (hproper a rfl).2) hs
    cases x with
    | produce => rcases r' with a' | _ | _ | _ <;> cases he <;> exact hshift
    | consume =>
      have hlobby := hother .consume (by decide)
      rcases r' with a' | _ | _ | _ <;> cases he <;> rw [hlobby] <;> exact .keep _ _

theorem Producing.shift_of_step {p : Producing α} (hp : p.Apt)
    (hproper : (Point.producing p).Proper call)
    (hpending : p.stage = .permitted → q.pending + 1 < Word.size)
    (h : p.step call.wait job c q = some (r, q')) (x : Side) :
    Shift c.thread (p.post x) (q.lobby x) (postAfter x (liftProgress .producing (r, q')).1)
      (q'.lobby x) := by
  cases p with
  | checkOpen =>
    simp only [Producing.step] at h
    split at h
    · cases h
      cases x <;> exact .keep _ _
    · split at h <;> cases h <;> cases x <;> exact .keep _ _
  | look p =>
    obtain ⟨n, -, hs⟩ | ⟨-, hs⟩ | ⟨-, hs⟩ := stepTaking_cases .produce c hp q Producing.look
      fun b => if b then .more .enter else .done (job.refused .full)
    all_goals
      rw [Producing.step, hs] at h
      cases h
    · cases x <;> exact .keep _ _
    · cases x with
      | produce => exact shift_taken _
      | consume => exact .keep _ _
    · cases x <;> exact .keep _ _
  | wait a => exact Producing.shift_of_wait hp hproper h x
  | enter =>
    cases h
    cases x with
    | produce => exact .keep _ _
    | consume =>
      refine .pass rfl (Nat.le_refl _) fun h => ?_
      simp [lobby, isOver, isDrained, Word.succ_eq (hpending rfl)] at h
  | recheck =>
    simp only [Producing.step] at h
    split at h
    · cases h
      cases x <;> exact .keep _ _
    · split at h <;> cases h <;> cases x <;> exact .keep _ _
  | construct =>
    simp only [Producing.step] at h
    split at h <;> cases h <;> cases x <;> exact .keep _ _
  | claim v i =>
    simp only [Producing.step] at h
    split at h <;> cases h <;> cases x <;> exact .keep _ _
  | write v i w =>
    simp only [Producing.step] at h
    split at h
    · cases h
      cases x <;> exact .keep _ _
    · split at h <;> cases h <;> cases x <;> exact .keep _ _
  | give =>
    cases h
    cases x with
    | produce => exact .keep _ _
    | consume => exact .give rfl (Nat.mod_le _ _) rfl
  | wake w =>
    obtain ⟨k, ⟨w', hs, hshift⟩ | ⟨hs, hshift⟩⟩ := stepWaking_shift c.thread .consume false w q
      Producing.wake (.more (.finish .done .count))
    all_goals
      rw [Producing.step, hs] at h
      cases h
      cases x with
      | produce => exact .keep _ _
      | consume => exact hshift
  | giveBack a =>
    cases h
    cases x with
    | produce => exact .give rfl (Nat.mod_le _ _) rfl
    | consume => exact .keep _ _
  | wakeBack a w =>
    obtain ⟨k, ⟨w', hs, hshift⟩ | ⟨hs, hshift⟩⟩ := stepWaking_shift c.thread .produce false w q
      (Producing.wakeBack a) (.more (.finish a .count))
    all_goals
      rw [Producing.step, hs] at h
      cases h
      cases x with
      | produce => exact hshift
      | consume => exact .keep _ _
  | finish a f =>
    have hshift := Finishing.shift_of_step (q := q) c.thread f a x
    simp only [Producing.step] at h
    split at h <;> rename_i hs <;> cases h <;> rw [hs] at hshift <;> exact hshift

/-- A producer comes to wait only if its call may. -/
theorem Producing.proper_of_step {p p' : Producing α} (hproper : (Point.producing p).Proper call)
    (h : p.step call.wait job c q = some (.more p', q')) : (Point.producing p').Proper call := by
  rintro a rfl
  cases p with
  | checkOpen =>
    simp only [Producing.step] at h
    split at h
    · cases h
    · split at h
      · cases h
      · rename_i hw
        cases h
        exact ⟨by simp [hw], by simp⟩
  | wait a' =>
    refine ⟨(hproper a' rfl).1, ?_⟩
    simp only [Producing.step] at h
    split at h
    · cases h
    · obtain ⟨⟨r', q''⟩, hs, he⟩ := Option.map_eq_some_iff.mp h
      rcases r' with a'' | _ | _ | _ <;> cases he
      exact Awaiting.ne_askPending_of_step hs (hproper a' rfl).2
  | look p =>
    simp only [Producing.step, stepTaking] at h
    split at h
    · cases h
    · rename_i b _ _
      cases b <;> cases h
  | recheck =>
    simp only [Producing.step] at h
    split at h
    · cases h
    · split at h <;> cases h
  | construct | claim v x | finish a' f =>
    simp only [Producing.step] at h
    split at h <;> cases h
  | write v i w =>
    simp only [Producing.step] at h
    split at h
    · cases h
    · split at h <;> cases h
  | wake w | wakeBack a' w =>
    simp only [Producing.step, stepWaking] at h
    split at h <;> cases h
  | enter | give | giveBack a' => cases h

end Producing

section Consuming

variable {call : Call α} {c : Choice} {q q' : Queue α} {r : Progress (Consuming α) (Answer α)}

/-- A consumer waits for a permit. -/
theorem Consuming.shift_of_wait {a : Awaiting} (hp : a.Apt)
    (h : Consuming.step call.wait c (.wait a) q = some (r, q')) (x : Side) :
    Shift c.thread ((Consuming.wait (α := α) a).post x) (q.lobby x)
      (postAfter x (liftProgress .consuming (r, q')).1) (q'.lobby x) := by
  simp only [Consuming.step] at h
  split at h
  · cases h
  · obtain ⟨⟨r', q''⟩, hs, he⟩ := Option.map_eq_some_iff.mp h
    obtain ⟨hshift, hother⟩ := Awaiting.shift_of_step (x := .consume) hp (by simp) hs
    cases x with
    | consume => rcases r' with a' | _ | _ | _ <;> cases he <;> exact hshift
    | produce =>
      have hlobby := hother .produce (by decide)
      rcases r' with a' | _ | _ | _ <;> cases he <;> rw [hlobby] <;> exact .keep _ _

theorem Consuming.shift_of_step {p : Consuming α} (hp : p.Apt call)
    (h : p.step call.wait c q = some (r, q')) (x : Side) :
    Shift c.thread (p.post x) (q.lobby x) (postAfter x (liftProgress .consuming (r, q')).1)
      (q'.lobby x) := by
  cases p with
  | look p =>
    -- where a consumer without a permit goes on, it has nothing to do with sleepers yet
    have key : ∀ next : Bool → Progress (Consuming α) (Answer α),
        (∀ b y, postAfter y (liftProgress .consuming (next b, q')).1 = .aside) →
        some (stepTaking .consume c p q .look next) = some (r, q') →
        Shift c.thread ((Consuming.look (α := α) p).post x) (q.lobby x)
          (postAfter x (liftProgress .consuming (r, q')).1) (q'.lobby x) := by
      intro next hnext h
      obtain ⟨n, -, hs⟩ | ⟨-, hs⟩ | ⟨-, hs⟩ := stepTaking_cases .consume c hp q Consuming.look next
      all_goals
        rw [hs] at h
        cases h
      · cases x <;> exact .keep _ _
      · rw [hnext]
        cases x with
        | produce => exact .keep _ _
        | consume => exact shift_taken _
      · rw [hnext]
        cases x <;> exact .keep _ _
    refine key _ (fun b y => ?_) h
    cases b with
    | true => cases y <;> rfl
    | false => cases call.wait <;> cases y <;> rfl
  | askOpen =>
    cases h
    cases q.isOpen <;> cases x <;> exact .keep _ _
  | askPending =>
    cases h
    by_cases hk : q.pending = 0
    · rw [if_pos hk]
      cases x <;> exact .keep _ _
    · rw [if_neg hk]
      cases x <;> exact .keep _ _
  | lastLook p =>
    obtain ⟨n, -, hs⟩ | ⟨-, hs⟩ | ⟨-, hs⟩ := stepTaking_cases .consume c hp q Consuming.lastLook
      fun b => if b then .more (.claim .start) else .done (Answer.refused .closed)
    all_goals
      rw [Consuming.step, hs] at h
      cases h
    · cases x <;> exact .keep _ _
    · cases x with
      | produce => exact .keep _ _
      | consume => exact shift_taken _
    · cases x <;> exact .keep _ _
  | wait a => exact Consuming.shift_of_wait hp h x
  | claim i =>
    simp only [Consuming.step] at h
    split at h <;> cases h <;> cases x <;> exact .keep _ _
  | take i t =>
    simp only [Consuming.step] at h
    split at h
    · cases h
      cases x <;> exact .keep _ _
    · split at h <;> cases h <;> cases x <;> exact .keep _ _
  | give v =>
    cases h
    cases x with
    | produce => exact .give rfl (Nat.mod_le _ _) rfl
    | consume => exact .keep _ _
  | wake v w =>
    obtain ⟨k, ⟨w', hs, hshift⟩ | ⟨hs, hshift⟩⟩ := stepWaking_shift c.thread .produce false w q
      (Consuming.wake v) (.done (Answer.popped v))
    all_goals
      rw [Consuming.step, hs] at h
      cases h
      cases x with
      | produce => exact hshift
      | consume => exact .keep _ _

/-- A consumer comes to wait only if its call may. -/
theorem Consuming.proper_of_step {p p' : Consuming α} (hproper : (Point.consuming p).Proper call)
    (h : p.step call.wait c q = some (.more p', q')) : (Point.consuming p').Proper call := by
  rintro a rfl
  cases p with
  | look p =>
    simp only [Consuming.step, stepTaking] at h
    split at h
    · cases h
    · rename_i b _ _
      cases b with
      | true => cases h
      | false =>
        cases hw : call.wait with
        | never =>
          rw [hw] at h
          cases h
        | atMost limit => simp
  | wait a' => exact hproper a' rfl
  | askOpen | askPending =>
    simp only [Consuming.step] at h
    split at h <;> cases h
  | lastLook p =>
    simp only [Consuming.step, stepTaking] at h
    split at h
    · cases h
    · rename_i b _ _
      cases b <;> cases h
  | claim x =>
    simp only [Consuming.step] at h
    split at h <;> cases h
  | take i t =>
    simp only [Consuming.step] at h
    split at h
    · cases h
    · split at h <;> cases h
  | wake v w =>
    simp only [Consuming.step, stepWaking] at h
    split at h <;> cases h
  | give v => cases h

end Consuming

/-- A thread that closes the queue wakes the consumers and then the producers. -/
theorem Closing.shift_of_step (t : Nat) (p : Closing) (q : Queue α) (x : Side) :
    Shift t (p.post x) (q.lobby x)
      (postAfter x (liftProgress (α := α) .closing (p.step q)).1) ((p.step q).2.lobby x) := by
  cases p with
  | swap =>
    cases ho : q.isOpen with
    | true =>
      simp only [Closing.step, ho, if_true]
      cases x with
      | produce => exact .alarm rfl (.inl rfl)
      | consume => exact .alarm rfl (.inr rfl)
    | false =>
      simp only [Closing.step, ho, Bool.false_eq_true, if_false]
      cases x <;> exact .keep _ _
  | wakeConsumers w =>
    obtain ⟨k, ⟨w', hs, hshift⟩ | ⟨hs, hshift⟩⟩ := stepWaking_shift t .consume true w q
      Closing.wakeConsumers (.more (.wakeProducers .bump) : Progress Closing (Answer α))
    · simp only [Closing.step, hs]
      cases x with
      | produce => exact .mind
      | consume => exact hshift
    · simp only [Closing.step, hs]
      cases x with
      | produce => exact .call
      | consume => exact hshift
  | wakeProducers w =>
    obtain ⟨k, ⟨w', hs, hshift⟩ | ⟨hs, hshift⟩⟩ := stepWaking_shift t .produce true w q
      Closing.wakeProducers (.done .done : Progress Closing (Answer α))
    all_goals
      simp only [Closing.step, hs]
      cases x with
      | produce => exact hshift
      | consume => exact .keep _ _

/-- **Every step is a shift on each side.** -/
theorem Point.shift_of_step {call : Call α} {c : Choice} {p : Point α} {q q' : Queue α}
    {r : Progress (Point α) (Answer α)} (hp : p.Apt call) (hproper : p.Proper call)
    (hpending : p.stage = .permitted → q.pending + 1 < Word.size)
    (h : p.step call c q = some (r, q')) (x : Side) :
    Shift c.thread (p.post x) (q.lobby x) (postAfter x r) (q'.lobby x) := by
  cases p with
  | producing p =>
    obtain ⟨job, hj, hs⟩ := Option.bind_eq_some_iff.mp h
    obtain ⟨⟨r', q''⟩, hs, he⟩ := Option.map_eq_some_iff.mp hs
    have hshift := Producing.shift_of_step hp.2 hproper hpending hs x
    cases r' <;> cases he <;> exact hshift
  | consuming p =>
    obtain ⟨⟨r', q''⟩, hs, he⟩ := Option.map_eq_some_iff.mp h
    have hshift := Consuming.shift_of_step hp.2 hs x
    cases r' <;> cases he <;> exact hshift
  | closing p =>
    have hshift := Closing.shift_of_step c.thread p q x
    simp only [Point.step, Option.some.injEq] at h
    cases hs : p.step q with
    | mk r' q'' =>
      rw [hs] at h hshift
      cases r' <;> cases h <;> exact hshift
  | observing p =>
    cases p with
    | openFirst | openAgain | pending =>
      simp only [Point.step, Observing.step] at h
      split at h <;> cases h <;> exact .keep _ _
    | count =>
      cases h
      exact .keep _ _

/-- **A step leads to a point of the operation that the call asks for.** -/
theorem Point.proper_of_step {call : Call α} {c : Choice} {p p' : Point α} {q q' : Queue α}
    (hproper : p.Proper call) (h : p.step call c q = some (.more p', q')) : p'.Proper call := by
  cases p with
  | producing p =>
    obtain ⟨job, hj, hs⟩ := Option.bind_eq_some_iff.mp h
    obtain ⟨⟨r', q''⟩, hs, he⟩ := Option.map_eq_some_iff.mp hs
    cases r' <;> cases he
    exact Producing.proper_of_step hproper hs
  | consuming p =>
    obtain ⟨⟨r', q''⟩, hs, he⟩ := Option.map_eq_some_iff.mp h
    cases r' <;> cases he
    exact Consuming.proper_of_step hproper hs
  | closing p =>
    simp only [Point.step, Option.some.injEq] at h
    cases hs : p.step q with
    | mk r' q'' =>
      rw [hs] at h
      cases r' <;> cases h
      exact hproper
  | observing p =>
    simp only [Point.step, Option.some.injEq] at h
    cases hs : p.step q with
    | mk r' q'' =>
      rw [hs] at h
      cases r' <;> cases h
      exact hproper

end PermitRing.Queue
