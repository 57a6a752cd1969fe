import Mathlib.Data.Nat.ModEq
import PermitRing.Proofs.Permits.Sweep

/-!
# The counter as a semaphore

What the steps of a caller and the settlings between them come to, over whole runs of any length
and whichever sleepers the wakes reach. Two laws hold without any condition: permits are neither
made nor lost, up to whole rounds of their word, and the counter says how many of the threads that
were started have not returned. The others rest on one fact: while anybody waits, there is no
permit. A permit that is handed back then goes to the one thread that the wake reaches, and a wake
of all finds nothing to hand out, so that the flag alone decides.

This fact is kept by every step that rouses whom it reaches. With a futex every step does. With a
condition variable a thread compares its epoch once more when it is roused, and sleeps on if the
epochs, which are words of 32 bits, have meanwhile come round to it; then a permit lies there while
the thread waits, as `semaphore_overslept` shows. So in a run with that many wakes the laws are
about the steps before such an accident. No shorter run has one.

## Main definitions

* `Session.run` — a whole run;
* `Session.Rouses`, `AllRouse` — a step rouses whom it reaches, and all steps of a run do;
* `Session.Serves` — what the next step does to the threads that wait;
* `Session.overslept` — a run in which a thread sleeps until its epoch comes round.

## Main results

* `Settled.step` — the invariant and the books, for one step;
* `Settled.release`, `Settled.releaseAll` — the threads that return;
* `semaphore` — the laws of whole runs.
-/

namespace PermitRing.Permits.Session

variable {s s' : Session} {x : Step} {xs : List Step}

/-! ### Steps and answers -/

/-- The caller itself waits. -/
def Step.waitsItself : Step → Bool
  | .acquire .. => true
  | _ => false

/-- The step wakes threads. -/
def Step.wakes : Step → Bool
  | .release | .releaseAll => true
  | _ => false

/-- The permits that a step hands back. -/
def Step.hands : Step → Nat
  | .release => 1
  | _ => 0

/-- The threads that a step starts. -/
def Step.starts : Step → Nat
  | .start _ => 1
  | _ => 0

/-- The permits that were taken according to an answer. -/
def Answer.takes : Answer → Nat
  | .taken true | .returned .acquired => 1
  | _ => 0

/-- The threads that returned according to an answer. -/
def Answer.returns : Answer → Nat
  | .returned _ => 1
  | _ => 0

/-- What a step answers, and the outcomes of the threads that returned after it. -/
abbrev Report :=
  Answer × List (Nat × Outcome)

/-- The permits that were taken in a step. -/
def Report.acquired (r : Report) : Nat :=
  r.1.takes + acquiredIn r.2

/-- The threads that returned in a step. -/
def Report.returned (r : Report) : Nat :=
  r.1.returns + r.2.length

/-- Carries out steps one after the other. -/
def run : List Step → Session → List Report × Session
  | [], s => ([], s)
  | x :: xs, s =>
    let r := s.step x
    let t := run xs r.2.2
    ((r.1, r.2.1) :: t.1, t.2)

/-- The permits that were handed back in a run. -/
def handedIn (xs : List Step) : Nat :=
  (xs.map Step.hands).sum

/-- The threads that were started in a run. -/
def startedIn (xs : List Step) : Nat :=
  (xs.map Step.starts).sum

/-- The permits that were taken in a run. -/
def takenIn (rs : List Report) : Nat :=
  (rs.map Report.acquired).sum

/-- The threads that returned in a run. -/
def returnedIn (rs : List Report) : Nat :=
  (rs.map Report.returned).sum

/-! ### Steps of the caller -/

namespace Settled

theorem stirred (h : s.Settled) : s.Stirred := by
  have hlist : ([] : List Waiter) ++ s.waiting = s.waiting ++ [] := (List.append_nil _).symm
  exact
    { parked := h.parked
      apart := h.apart
      waits := fun z hz => hlist ▸ h.waits z hz
      sleeps := fun _ hw => nomatch hw
      nodup := hlist ▸ h.nodup
      known := fun w hw => h.known w (hlist ▸ hw)
      few := hlist ▸ h.few
      long := fun w hw => h.long w (hlist ▸ hw) }

/-- Neither the permits nor the flag nor more threads disturb those who wait. -/
theorem congr (h : s.Settled) (hp : s'.permits.parker = s.permits.parker)
    (hw : s'.waiting = s.waiting) (ht : s.threads ≤ s'.threads) : s'.Settled where
  parked := hp ▸ h.parked
  apart := hp ▸ h.apart
  waits := hp ▸ hw ▸ h.waits
  sleeps := hp ▸ hw ▸ h.sleeps
  nodup := hw ▸ h.nodup
  known w hm := Nat.le_trans (h.known w (hw ▸ hm)) ht
  few := Nat.le_trans (hw ▸ h.few) ht
  long := hw ▸ h.long

/-- A wake may rouse threads, and no others fall asleep. -/
theorem stir (h : s.Settled) {p : Permits}
    (hp : p.parker.parked = p.parker.sleepers.length)
    (hsub : p.parker.sleepers.Sublist s.permits.parker.sleepers) :
    Stirred { s with permits := p } := by
  have hs : Sweeps s.waiting { s with waiting := [] } := h.stirred
  exact
    { parked := hp
      apart := hs.apart.sublist (hsub.map _)
      waits := fun z hz => hs.waits z (hsub.subset hz)
      sleeps := fun _ hw => nomatch hw
      nodup := hs.nodup
      known := hs.known
      few := hs.few
      long := hs.long }

/-- A thread that is started is none of those who sleep. -/
theorem start (h : s.Settled) {limit : Patience} (hl : limit.isLong = true) :
    Sweeps [⟨s.threads + 1, limit⟩] { s with threads := s.threads + 1 } ∧
      s.permits.parker.isAsleep (s.threads + 1) = false := by
  have hknown : ∀ w ∈ s.waiting, w.thread ≤ s.threads := fun w hw => h.known w (by simpa using hw)
  have hnodup : (s.waiting.map Waiter.thread).Nodup := by simpa using h.nodup
  have hfew : s.waiting.length ≤ s.threads := by simpa using h.few
  refine ⟨?_, ?_⟩
  · refine
      { parked := h.parked
        apart := h.apart
        waits := ?_
        sleeps := h.sleeps
        nodup := ?_
        known := ?_
        few := ?_
        long := ?_ }
    · intro z hz
      obtain ⟨w, hw, hwz⟩ := h.waits z hz
      rw [List.append_nil] at hw
      exact ⟨w, List.mem_append_left _ hw, hwz⟩
    · rw [List.map_append, List.map_singleton]
      refine List.nodup_append'.mpr ⟨hnodup, List.nodup_singleton _, ?_⟩
      rw [List.disjoint_singleton, List.mem_map]
      rintro ⟨w, hw, hwt⟩
      exact absurd (hknown w hw) (hwt ▸ Nat.not_succ_le_self _)
    · intro w hw
      rcases List.mem_append.mp hw with hw | hw
      · exact Nat.le_succ_of_le (hknown w hw)
      · rw [List.mem_singleton.mp hw]
    · rw [List.length_append, List.length_singleton]
      exact Nat.succ_le_succ hfew
    · intro w hw
      rcases List.mem_append.mp hw with hw | hw
      · exact h.long w (List.mem_append_left _ hw)
      · rw [List.mem_singleton.mp hw]
        exact hl
  · rw [← Bool.not_eq_true, ← Parker.mem_threads_iff, List.mem_map]
    rintro ⟨z, hz, hzt⟩
    obtain ⟨w, hw, hwz⟩ := h.waits z hz
    rw [List.append_nil] at hw
    exact absurd (hknown w hw) (by rw [hwz, hzt]; exact Nat.not_succ_le_self _)

end Settled

/-! ### The books of a step -/

/-- What a step with a report does to the counts of a run. -/
structure Balances (x : Step) (r : Report) (s s' : Session) : Prop where
  threads : s'.threads = s.threads + x.starts
  kind : s'.permits.parker.kind = s.permits.parker.kind
  epoch : s'.permits.parker.epoch =
    if x.wakes then (s.permits.parker.epoch + 1) % Parker.epochs else s.permits.parker.epoch
  /-- Whoever has fallen asleep has done so with the epoch after the step. -/
  sleepers : ∀ z ∈ s'.permits.parker.sleepers,
    z ∈ s.permits.parker.sleepers ∨ z.epoch = s'.permits.parker.epoch
  permits : s'.permits.count + r.acquired ≡ s.permits.count + x.hands [MOD Word.size]
  below : s.permits.count < Word.size → s'.permits.count < Word.size
  waiting : s'.waiting.length + r.returned = s.waiting.length + x.starts

/-- The settling after a step goes to the same books. -/
theorem Balances.settle {a : Answer} {s₁ : Session} {out : List (Nat × Outcome)}
    (h : Balances x (a, []) s s₁) (h' : Accounts 0 out s₁ s') : Balances x (a, out) s s' where
  threads := h'.threads.trans h.threads
  kind := h'.kind.trans h.kind
  epoch := h'.epoch.trans h.epoch
  sleepers z hz := by
    rw [h'.epoch]
    rcases h'.sleepers z hz with hz | hz
    · exact h.sleepers z hz
    · exact .inr hz
  permits := by
    have hsum : s'.permits.count + Report.acquired (a, out) =
        s₁.permits.count + Report.acquired (a, []) := by
      have := h'.permits
      simp only [Report.acquired, acquiredIn, List.countP_nil] at this ⊢
      omega
    exact hsum ▸ h.permits
  below hc := Nat.lt_of_le_of_lt (h'.permits ▸ Nat.le_add_right _ _) (h.below hc)
  waiting := by
    have hwaiting := h.waiting
    have := h'.waiting
    simp only [Report.returned, List.length_nil] at hwaiting ⊢
    omega

/-- What a start comes to. -/
theorem act_start (hp : s.permits.parker.parked < Word.size) (limit : Patience) :
    s.act (.start limit) =
      match s.permits.waited (s.threads + 1) limit s.flag with
      | (some o, p) => (.returned o, { s with permits := p, threads := s.threads + 1 })
      | (none, p) => (.asleep (s.threads + 1),
          { s with
            permits := p, threads := s.threads + 1
            waiting := s.waiting ++ [⟨s.threads + 1, limit⟩] }) := by
  rw [← acquire_eq hp, act]
  rcases s.permits.acquire (s.threads + 1) limit [] s.flag with ⟨_ | o, n, p⟩ <;> rfl

namespace Settled

/-- A start that returns leaves no thread behind. -/
theorem act_start_returned (h : s.Settled) {limit : Patience} {o : Outcome} {p : Permits}
    (he : s.act (.start limit) =
      (.returned o, { s with permits := p, threads := s.threads + 1 }))
    (hp : p.parker = s.permits.parker)
    (hc : p.count + (Answer.returned o).takes = s.permits.count) :
    (s.act (.start limit)).2.Stirred ∧
      Balances (.start limit) ((s.act (.start limit)).1, []) s (s.act (.start limit)).2 := by
  have hsettled : Settled { s with permits := p, threads := s.threads + 1 } :=
    h.congr hp rfl (Nat.le_succ _)
  rw [he]
  refine ⟨hsettled.stirred, rfl, congrArg Parker.kind hp, congrArg Parker.epoch hp,
    fun z hz => .inl (hp ▸ hz), ?_, fun hlt => ?_, rfl⟩
  · exact congrArg (· % Word.size) hc
  · exact Nat.lt_of_le_of_lt (hc ▸ Nat.le_add_right _ _) hlt

/-- **The caller's part of a step.** -/
theorem act (h : s.Settled) (hlt : s.threads + x.starts < Word.size)
    (hx : x.waitsItself = false) :
    (s.act x).2.Stirred ∧ Balances x ((s.act x).1, []) s (s.act x).2 := by
  have hthreads : s.threads < Word.size := Nat.lt_of_le_of_lt (Nat.le_add_right _ _) hlt
  cases x with
  | acquire limit es last => cases hx
  | take =>
    rcases Nat.eq_zero_or_pos s.permits.count with hc | hc
    · have he : s.act .take = (.taken false, s) := by
        rw [Session.act, take?_of_eq_zero hc]
      rw [he]
      exact ⟨h.stirred, rfl, rfl, rfl, fun z hz => .inl hz, rfl, id, rfl⟩
    · have he : s.act .take = (.taken true, { s with permits := s.permits.taken }) := by
        rw [Session.act, take?_eq_some hc]
      have hsettled : Settled { s with permits := s.permits.taken } :=
        h.congr rfl rfl (Nat.le_refl _)
      rw [he]
      refine ⟨hsettled.stirred, rfl, rfl, rfl, fun z hz => .inl hz, ?_, fun hlt => ?_, rfl⟩
      · exact congrArg (· % Word.size) (Nat.sub_add_cancel hc)
      · exact Nat.lt_of_le_of_lt (Nat.sub_le _ _) hlt
  | release =>
    have hsub := Parker.sublist_unparkOne h.parked
    refine ⟨h.stir (Parker.parked_unparkOne h.parked h.apart) hsub, rfl,
      Parker.kind_unparkOne h.parked, Parker.epoch_unparkOne _,
      fun z hz => .inl (hsub.subset hz), ?_, fun _ => Nat.mod_lt _ (by decide), rfl⟩
    exact Nat.mod_modEq (s.permits.count + 1) Word.size
  | releaseAll =>
    have he := Parker.unparkAll_of_parked h.parked
    have hsub : (s.permits.parker.unparkAll).sleepers.Sublist s.permits.parker.sleepers := by
      rw [he]
      exact List.filter_sublist
    refine ⟨h.stir (p := s.permits.releaseAll) ?_ hsub, rfl, ?_, Parker.epoch_unparkAll _,
      fun z hz => .inl (hsub.subset hz), rfl, id, rfl⟩
    · rw [show s.permits.releaseAll.parker = _ from he]
    · change s.permits.parker.unparkAll.kind = s.permits.parker.kind
      rw [he]
      rfl
  | start limit =>
    have hp : s.permits.parker.parked < Word.size := Nat.lt_of_le_of_lt h.parked_le hthreads
    have he := act_start hp limit
    by_cases hc : 0 < s.permits.count
    · simp only [waited, if_pos hc] at he
      exact h.act_start_returned he rfl (Nat.sub_add_cancel hc)
    · cases hf : s.flag with
      | true =>
        simp only [waited, if_neg hc, hf, if_true] at he
        exact h.act_start_returned (o := .cancelled) (hf ▸ he) rfl rfl
      | false =>
        cases hl : limit.isLong with
        | true =>
          simp only [waited, if_neg hc, hf, hl, Bool.false_eq_true, if_false, if_true] at he
          obtain ⟨hstart, hawake⟩ := h.start hl
          rw [he]
          refine ⟨Settled.stirred (hf ▸ hstart.doze hlt hawake), rfl, rfl, rfl, fun z hz => ?_, rfl,
            id, ?_⟩
          · refine (List.mem_append.mp hz).imp_right fun hz => ?_
            rw [List.mem_singleton.mp hz]
            rfl
          · exact List.length_append
        | false =>
          simp only [waited, if_neg hc, hf, hl, Bool.false_eq_true, if_false] at he
          exact h.act_start_returned (o := .timedOut) (hf ▸ he) rfl rfl
  | setFlag on =>
    have hsettled : Settled { s with flag := on } := h.congr rfl rfl (Nat.le_refl _)
    exact ⟨hsettled.stirred, rfl, rfl, rfl, fun z hz => .inl hz, rfl, id, rfl⟩

/-- **A step.** -/
theorem step (h : s.Settled) (hlt : s.threads + x.starts < Word.size)
    (hx : x.waitsItself = false) :
    (s.step x).2.2.Settled ∧ Balances x ((s.step x).1, (s.step x).2.1) s (s.step x).2.2 := by
  obtain ⟨hstirred, hact⟩ := h.act hlt hx
  obtain ⟨hsettled, hacc⟩ := hstirred.settle (hact.threads ▸ hlt)
  exact ⟨hsettled, hact.settle hacc⟩

/-- The flag wakes nobody. -/
theorem setFlag (h : s.Settled) (on : Bool) :
    s.step (.setFlag on) = (.done, [], { s with flag := on }) := by
  have hsettle := Settled.settle (s := { s with flag := on }) (h.congr rfl rfl (Nat.le_refl _))
  exact congrArg (Prod.mk Answer.done) hsettle

end Settled

/-! ### Steps that rouse whom they reach -/

/-- The sleepers whom the wake of a step reaches. -/
def Step.reaches (x : Step) (p : Parker) : List Parker.Sleeper :=
  match x with
  | .release => p.nextSleeper?.toList
  | .releaseAll => p.sleepers
  | .take | .acquire .. | .start _ | .setFlag _ => []

/-- Whoever the step wakes gets up. -/
def Rouses (x : Step) (s : Session) : Prop :=
  ∀ z ∈ x.reaches s.permits.parker, s.permits.parker.bump.sleepsOn z = false

/-- All steps of a run rouse whom they reach. -/
def AllRouse : List Step → Session → Prop
  | [], _ => True
  | x :: xs, s => s.Rouses x ∧ AllRouse xs (s.step x).2.2

/-- Only a step that wakes somebody reaches a sleeper. -/
theorem Step.wakes_of_reaches {z : Parker.Sleeper} {p : Parker} (hz : z ∈ x.reaches p) :
    x.wakes = true ∧ z ∈ p.sleepers := by
  cases x with
  | release => exact ⟨rfl, List.mem_of_getElem? (Option.mem_toList.mp hz)⟩
  | releaseAll => exact ⟨rfl, hz⟩
  | take | acquire | start | setFlag => cases hz

theorem rouses_of_futex (h : s.permits.parker.kind = .futex) (x : Step) : s.Rouses x := by
  intro z _
  simp only [Parker.sleepsOn, Parker.bump, h]

/-- With a condition variable it is the epochs that have to be told apart. -/
theorem rouses_of_epoch_ne
    (h : ∀ z ∈ s.permits.parker.sleepers, z.epoch ≠ (s.permits.parker.epoch + 1) % Parker.epochs)
    (x : Step) : s.Rouses x := by
  intro z hz
  rw [Parker.sleepsOn]
  cases s.permits.parker.bump.kind with
  | futex => rfl
  | condvar => exact beq_eq_false_iff_ne.mpr (h z (Step.wakes_of_reaches hz).2)

/-- The epochs of the sleepers, told by the wakes since the run began: each is one that was. -/
structure Dated (e n : Nat) (s : Session) : Prop where
  epoch : s.permits.parker.epoch ≡ e + n [MOD Parker.epochs]
  sleepers : ∀ z ∈ s.permits.parker.sleepers, ∃ m ≤ n, z.epoch ≡ e + m [MOD Parker.epochs]

theorem Dated.step {e n : Nat} {r : Report} (h : s.Dated e n) (hb : Balances x r s s') :
    s'.Dated e (n + if x.wakes then 1 else 0) := by
  have hepoch : s'.permits.parker.epoch ≡ e + (n + if x.wakes then 1 else 0)
      [MOD Parker.epochs] := by
    rw [hb.epoch]
    cases x.wakes with
    | false => exact h.epoch
    | true => exact (Nat.mod_modEq _ _).trans (h.epoch.add_right 1)
  refine ⟨hepoch, fun z hz => ?_⟩
  rcases hb.sleepers z hz with hz | hz
  · obtain ⟨m, hm, hzm⟩ := h.sleepers z hz
    exact ⟨m, Nat.le_trans hm (Nat.le_add_right _ _), hzm⟩
  · exact ⟨_, Nat.le_refl _, hz ▸ hepoch⟩

theorem Dated.rouses {e n : Nat} (h : s.Dated e n) (hn : x.wakes = true → n + 1 < Parker.epochs) :
    s.Rouses x := by
  intro z hz
  obtain ⟨hx, -⟩ := Step.wakes_of_reaches hz
  refine rouses_of_epoch_ne (fun z hz heq => ?_) x z hz
  obtain ⟨m, hm, hzm⟩ := h.sleepers z hz
  have hlt := hn hx
  -- the epoch of the sleeper and the next one differ by fewer wakes than there are epochs
  have hmeet : e + (n + 1) ≡ e + m [MOD Parker.epochs] :=
    (h.epoch.add_right 1).symm.trans ((Nat.mod_modEq _ _).symm.trans (heq ▸ hzm))
  have hmod := Nat.ModEq.add_left_cancel' e hmeet
  rw [Nat.ModEq, Nat.mod_eq_of_lt hlt, Nat.mod_eq_of_lt (by omega)] at hmod
  omega

/-- If a property that the steps hand on makes the next of them rouse whom it reaches, all do. -/
theorem Settled.allRouse {P : List Step → Session → Prop}
    (hP : ∀ x xs r s s', P (x :: xs) s → Balances x r s s' → s.Rouses x ∧ P xs s')
    (xs : List Step) :
    ∀ s : Session, s.Settled → (∀ x ∈ xs, x.waitsItself = false) →
      s.threads + startedIn xs < Word.size → P xs s → AllRouse xs s := by
  induction xs with
  | nil => exact fun _ _ _ _ _ => trivial
  | cons x xs ih =>
    intro s hs hx hlt h
    rw [List.forall_mem_cons] at hx
    rw [startedIn, List.map_cons, List.sum_cons] at hlt
    obtain ⟨hsettled, hb⟩ := hs.step (x := x) (by omega) hx.1
    obtain ⟨hrouse, hrest⟩ := hP x xs _ _ _ h hb
    exact ⟨hrouse, ih _ hsettled hx.2 (by rw [hb.threads, startedIn]; omega) hrest⟩

/-- Nobody sleeps through as many wakes as there are epochs if there are not as many. -/
theorem Dated.allRouse {e n : Nat} (hd : s.Dated e n) (hs : s.Settled) {xs : List Step}
    (hx : ∀ x ∈ xs, x.waitsItself = false) (hlt : s.threads + startedIn xs < Word.size)
    (hn : n + xs.countP Step.wakes < Parker.epochs) : AllRouse xs s := by
  refine Settled.allRouse
    (P := fun xs s => ∃ n, s.Dated e n ∧ n + xs.countP Step.wakes < Parker.epochs) ?_ xs s hs hx hlt
    ⟨n, hd, hn⟩
  rintro x xs r s s' ⟨n, hd, hn⟩ hb
  rw [List.countP_cons] at hn
  refine ⟨hd.rouses fun hw => ?_, _, hd.step hb, by omega⟩
  rw [if_pos hw] at hn
  omega

theorem allRouse_of_futex (hk : s.permits.parker.kind = .futex) (hs : s.Settled) {xs : List Step}
    (hx : ∀ x ∈ xs, x.waitsItself = false) (hlt : s.threads + startedIn xs < Word.size) :
    AllRouse xs s :=
  Settled.allRouse (P := fun _ s => s.permits.parker.kind = .futex)
    (fun x _ _ _ _ hk hb => ⟨rouses_of_futex hk x, hb.kind.trans hk⟩) xs s hs hx hlt hk

/-! ### The threads that return -/

/-- While anybody waits there is no permit. -/
def Dry (s : Session) : Prop :=
  s.waiting ≠ [] → s.permits.count = 0

namespace Settled

/-- **A permit that is handed back** goes to one of those who wait. -/
theorem release (h : s.Settled) (hlt : s.threads < Word.size) (hc : s.permits.count = 0)
    (hw : s.waiting ≠ []) (hr : s.Rouses .release) :
    ∃ as w bs, s.waiting = as ++ w :: bs ∧ (s.step .release).1 = .done ∧
      (s.step .release).2.1 = [(w.thread, .acquired)] ∧
      (s.step .release).2.2.waiting = as ++ bs ∧ (s.step .release).2.2.permits.count = 0 := by
  obtain ⟨v, hv⟩ := List.exists_mem_of_ne_nil _ hw
  have hv' := h.sleeps v hv
  rw [← Parker.mem_threads_iff] at hv'
  have hsleepers : s.permits.parker.sleepers ≠ [] := fun he => by simp [he] at hv'
  -- the wake reaches a sleeper, and this one gets up
  obtain ⟨z, hz, hnext⟩ := Parker.exists_nextSleeper? hsleepers
  have he := Parker.unparkOne_of_next h.parked hnext
  rw [if_neg (by rw [hr z (Option.mem_toList.mpr hnext)]; exact Bool.false_ne_true)] at he
  obtain ⟨w, hwm, hwz⟩ := h.waits z hz
  rw [List.append_nil] at hwm
  obtain ⟨as, bs, hsplit⟩ := List.append_of_mem hwm
  have hstirred := (h.act (x := .release) hlt rfl).1
  have hsweeps : Sweeps (as ++ w :: bs) { (s.act .release).2 with waiting := [] } :=
    hsplit ▸ hstirred
  have hparker : (s.act .release).2.permits.parker = s.permits.parker.bump.roused z := he
  have hcount : (s.act .release).2.permits.count = 1 := by
    change Word.succ s.permits.count = 1
    rw [hc]
    rfl
  have hasleep : ∀ t, (s.act .release).2.permits.parker.isAsleep t = true ↔
      s.permits.parker.isAsleep t = true ∧ t ≠ w.thread := by
    intro t
    rw [hparker, hwz]
    simp only [Parker.isAsleep, Parker.sleepers_roused, List.any_eq_true, List.mem_filter,
      beq_iff_eq, bne_iff_ne]
    constructor
    · rintro ⟨y, ⟨hy, hne⟩, rfl⟩
      exact ⟨⟨y, hy, rfl⟩, hne⟩
    · rintro ⟨⟨y, hy, rfl⟩, hne⟩
      exact ⟨y, ⟨hy, hne⟩, rfl⟩
  have hsweep := hsweeps.sweep_roused hlt (hcount ▸ Nat.one_pos)
    (by rw [← Bool.not_eq_true, hasleep]; exact fun h => h.2 rfl) (by
      intro u hu
      refine (hasleep u.thread).mpr ⟨h.sleeps u ?_, ?_⟩
      · rw [hsplit]
        rcases List.mem_append.mp hu with hu | hu
        · exact List.mem_append_left _ hu
        · exact List.mem_append_right _ (List.mem_cons_of_mem _ hu)
      · have hnodup := h.nodup
        rw [List.append_nil, hsplit, List.map_append, List.map_cons, List.nodup_middle,
          List.nodup_cons, ← List.map_append] at hnodup
        intro heq
        exact hnodup.1 (heq ▸ List.mem_map_of_mem hu))
  have hsettle : (s.act .release).2.settle =
      ([(w.thread, .acquired)],
        { (s.act .release).2 with
          permits := (s.act .release).2.permits.taken, waiting := as ++ bs }) := by
    rw [settle_eq_sweep, show (s.act .release).2.waiting = as ++ w :: bs from hsplit, hsweep]
    rfl
  refine ⟨as, w, bs, hsplit, rfl, ?_⟩
  rw [Session.step, hsettle]
  exact ⟨rfl, rfl, by rw [count_taken, hcount]⟩

/-- **A wake of all** hands out nothing: it is the flag that decides. -/
theorem releaseAll (h : s.Settled) (hlt : s.threads < Word.size) (hdry : s.Dry)
    (hr : s.Rouses .releaseAll) :
    (s.step .releaseAll).1 = .done ∧
      (s.step .releaseAll).2.1 =
        (if s.flag then s.waiting.map fun w => (w.thread, .cancelled) else []) ∧
      (s.step .releaseAll).2.2.waiting = (if s.flag then [] else s.waiting) ∧
      (s.step .releaseAll).2.2.permits.count = s.permits.count := by
  obtain ⟨hstirred, hb⟩ := h.act (x := .releaseAll) hlt rfl
  have hsweeps : Sweeps s.waiting { (s.act .releaseAll).2 with waiting := [] } := hstirred
  have hawake : ∀ t, (s.act .releaseAll).2.permits.parker.isAsleep t = false := by
    intro t
    have hnone : s.permits.parker.sleepers.filter s.permits.parker.bump.sleepsOn = [] := by
      rw [List.filter_eq_nil_iff]
      intro z hz
      rw [hr z hz]
      exact Bool.false_ne_true
    have he := Parker.unparkAll_of_parked h.parked
    rw [hnone] at he
    change s.permits.parker.unparkAll.isAsleep t = false
    rw [he]
    rfl
  have hsettle : (s.step .releaseAll).2 = (s.act .releaseAll).2.settle := rfl
  have hwaiting : (s.act .releaseAll).2.waiting = s.waiting := rfl
  rw [hsettle, settle_eq_sweep, hwaiting]
  by_cases hw : s.waiting = []
  · rw [hw]
    refine ⟨rfl, ?_, ?_, rfl⟩ <;> cases s.flag <;> rfl
  · have hc : (s.act .releaseAll).2.permits.count = 0 := hdry hw
    cases hf : s.flag with
    | true =>
      rw [hsweeps.sweep_cancelled hlt hc hf fun w _ => hawake w.thread]
      exact ⟨rfl, rfl, rfl, rfl⟩
    | false =>
      obtain ⟨hout, hrest⟩ := hsweeps.sweep_dozed hlt hc hf fun w _ => hawake w.thread
      obtain ⟨-, hacc⟩ := hsweeps.sweep hlt
      refine ⟨rfl, hout, hrest, ?_⟩
      have hpermits := hacc.permits
      rw [hout] at hpermits
      exact hpermits

/-- **While anybody waits there is no permit**, after a step as before it. -/
theorem dry_step (h : s.Settled) (hlt : s.threads + x.starts < Word.size)
    (hx : x.waitsItself = false) (hdry : s.Dry) (hr : s.Rouses x) : (s.step x).2.2.Dry := by
  have hthreads : s.threads < Word.size := Nat.lt_of_le_of_lt (Nat.le_add_right _ _) hlt
  have hwaiting := (h.step hlt hx).2.waiting
  -- nobody waits afterwards if nobody did before and whoever was started has returned
  have hnil : s.waiting = [] → x.starts ≤ (s.step x).1.returns → (s.step x).2.2.waiting = [] := by
    intro hw hle
    rw [hw, Report.returned, List.length_nil] at hwaiting
    dsimp only at hwaiting
    exact List.length_eq_zero_iff.mp (by omega)
  -- and there is no permit afterwards if the caller's part leaves none
  have hzero : (s.act x).2.permits.count = 0 → (s.step x).2.2.permits.count = 0 := by
    intro hc
    have hacc := ((h.act hlt hx).1.settle ((h.act hlt hx).2.threads ▸ hlt)).2
    exact Nat.eq_zero_of_add_eq_zero_right (hacc.permits.trans hc)
  intro hw
  cases x with
  | acquire limit es last => cases hx
  | take =>
    rcases Nat.eq_zero_or_pos s.permits.count with hc | hc
    · refine hzero ?_
      rw [Session.act, take?_of_eq_zero hc]
      exact hc
    · have hnone : s.waiting = [] := by
        by_contra hs
        exact absurd (hdry hs) (Nat.ne_of_gt hc)
      exact absurd (hnil hnone (Nat.zero_le _)) hw
  | release =>
    by_cases hs : s.waiting = []
    · exact absurd (hnil hs (Nat.zero_le _)) hw
    · obtain ⟨-, -, -, -, -, -, -, hcount⟩ := h.release hthreads (hdry hs) hs hr
      exact hcount
  | releaseAll =>
    by_cases hs : s.waiting = []
    · exact absurd (hnil hs (Nat.zero_le _)) hw
    · exact (h.releaseAll hthreads hdry hr).2.2.2.trans (hdry hs)
  | start limit =>
    have he := act_start (Nat.lt_of_le_of_lt h.parked_le hthreads) limit
    rcases Nat.eq_zero_or_pos s.permits.count with hc | hc
    · refine hzero ?_
      have hwaited : (s.permits.waited (s.threads + 1) limit s.flag).2.count = 0 := by
        rw [waited, if_neg (by omega)]
        split
        · exact hc
        · split <;> exact hc
      rw [he]
      rcases hp : s.permits.waited (s.threads + 1) limit s.flag with ⟨_ | o, p⟩ <;>
      · rw [hp] at hwaited
        exact hwaited
    · have hnone : s.waiting = [] := by
        by_contra hs
        exact absurd (hdry hs) (Nat.ne_of_gt hc)
      have hret : (s.act (.start limit)).1 = .returned .acquired := by
        rw [he, waited, if_pos hc]
      refine absurd (hnil hnone ?_) hw
      change 1 ≤ (s.act (.start limit)).1.returns
      rw [hret]
      exact Nat.le_refl 1
  | setFlag on =>
    rw [h.setFlag on] at hw ⊢
    exact hdry hw

end Settled

/-! ### Whole runs -/

/-- What happens to the counts of a run while permits are handed back, threads started, permits
taken, and threads return. -/
structure Books (handed started taken returned : Nat) (s s' : Session) : Prop where
  threads : s'.threads = s.threads + started
  permits : s'.permits.count + taken ≡ s.permits.count + handed [MOD Word.size]
  below : s.permits.count < Word.size → s'.permits.count < Word.size
  waiting : s'.waiting.length + returned = s.waiting.length + started

theorem Balances.books {r : Report} (h : Balances x r s s') :
    Books x.hands x.starts r.acquired r.returned s s' :=
  ⟨h.threads, h.permits, h.below, h.waiting⟩

theorem Books.trans {a b c d a' b' c' d' : Nat} {s s' s'' : Session} (h : Books a b c d s s')
    (h' : Books a' b' c' d' s' s'') : Books (a + a') (b + b') (c + c') (d + d') s s'' where
  threads := by rw [h'.threads, h.threads, Nat.add_assoc]
  permits := by
    have hleft := h'.permits.add_right c
    have hright := h.permits.add_right a'
    rw [Nat.add_right_comm] at hright
    rw [Nat.add_comm c c', ← Nat.add_assoc, ← Nat.add_assoc]
    exact hleft.trans hright
  below := h'.below ∘ h.below
  waiting := by
    have := h.waiting
    have := h'.waiting
    omega

namespace Settled

/-- **A run.** The induction is on the steps. -/
theorem run (xs : List Step) :
    ∀ s : Session, s.Settled → (∀ x ∈ xs, x.waitsItself = false) →
      s.threads + startedIn xs < Word.size →
      (Session.run xs s).2.Settled ∧
        Books (handedIn xs) (startedIn xs) (takenIn (Session.run xs s).1)
          (returnedIn (Session.run xs s).1) s (Session.run xs s).2 := by
  induction xs with
  | nil => exact fun s h _ _ => ⟨h, rfl, rfl, id, rfl⟩
  | cons x xs ih =>
    intro s h hx hlt
    rw [List.forall_mem_cons] at hx
    rw [startedIn, List.map_cons, List.sum_cons] at hlt
    obtain ⟨hstep, hb⟩ := h.step (x := x) (by omega) hx.1
    obtain ⟨hrest, hbooks⟩ := ih _ hstep hx.2 (by rw [hb.threads, startedIn]; omega)
    exact ⟨hrest, hb.books.trans hbooks⟩

theorem dry_run (xs : List Step) :
    ∀ s : Session, s.Settled → (∀ x ∈ xs, x.waitsItself = false) →
      s.threads + startedIn xs < Word.size → s.Dry → AllRouse xs s →
      (Session.run xs s).2.Dry := by
  induction xs with
  | nil => exact fun _ _ _ _ hdry _ => hdry
  | cons x xs ih =>
    intro s h hx hlt hdry hr
    rw [List.forall_mem_cons] at hx
    rw [startedIn, List.map_cons, List.sum_cons] at hlt
    obtain ⟨hstep, hb⟩ := h.step (x := x) (by omega) hx.1
    exact ih _ hstep hx.2 (by rw [hb.threads, startedIn]; omega)
      (h.dry_step (by omega) hx.1 hdry hr.1) hr.2

/-- The parker says how many wait. -/
theorem waiters_eq (h : s.Settled) : s.permits.waiters = s.waiting.length := by
  refine Nat.le_antisymm ?_ ?_
  · have hle := h.parked_le_of_waits h.waits
    rwa [List.append_nil] at hle
  · have hsub : s.waiting.map Waiter.thread ⊆
        s.permits.parker.sleepers.map Parker.Sleeper.thread := by
      intro t ht
      obtain ⟨w, hw, rfl⟩ := List.mem_map.mp ht
      exact Parker.mem_threads_iff.mpr (h.sleeps w hw)
    have hnodup : (s.waiting.map Waiter.thread).Nodup := by simpa using h.nodup
    have hle := (List.subperm_of_subset hnodup hsub).length_le
    rw [List.length_map, List.length_map, ← h.parked] at hle
    exact hle

end Settled

/-- What the next step does to the threads that wait. -/
structure Serves (s : Session) : Prop where
  /-- While anybody waits there is no permit. -/
  dry : 0 < s.permits.waiters → s.permits.count = 0
  /-- A permit that is handed back makes one of them return, who takes it; the flag does not
  matter. -/
  release : s.Rouses .release → 0 < s.permits.waiters →
    ∃ w, s.waiting.Perm (w :: (s.step .release).2.2.waiting) ∧
      (s.step .release).2.1 = [(w.thread, .acquired)] ∧
      (s.step .release).2.2.permits.count = 0
  /-- A wake of all makes everybody give up if the flag is set, and otherwise nobody return. -/
  releaseAll : s.Rouses .releaseAll →
    (s.step .releaseAll).2.1 =
        (if s.flag then s.waiting.map fun w => (w.thread, .cancelled) else []) ∧
      (s.step .releaseAll).2.2.waiting = (if s.flag then [] else s.waiting) ∧
      (s.step .releaseAll).2.2.permits.count = s.permits.count

theorem Settled.serves (h : s.Settled) (hlt : s.threads < Word.size) (hdry : s.Dry) :
    s.Serves where
  dry hw := hdry (List.length_pos_iff.mp (h.waiters_eq ▸ hw))
  release hr hw := by
    have hne := List.length_pos_iff.mp (h.waiters_eq ▸ hw)
    obtain ⟨as, w, bs, hsplit, -, hout, hwaiting, hcount⟩ := h.release hlt (hdry hne) hne hr
    refine ⟨w, ?_, hout, hcount⟩
    rw [hwaiting, hsplit]
    exact List.perm_middle
  releaseAll hr := (h.releaseAll hlt hdry hr).2

/-- **The counter is a semaphore.** Take any run of steps on a counter at which nobody slept, with
threads that wait without a limit or with one, and with any choice of the sleepers whom the wakes
reach. The permits afterwards are those of before and those handed back, less those that were
taken, as a word; the threads counted as waiting are those that were started and have not returned,
and all of them sleep; and setting the flag makes nobody return. As long as the steps rouse whom
they reach, which they all do with a futex, and with a condition variable if there are fewer wakes
than epochs, the threads that wait are served as they should be. -/
theorem semaphore {p : Permits} (hq : p.parker.Calm) (hc : p.count < Word.size) (flag : Bool)
    (hx : ∀ x ∈ xs, x.waitsItself = false) (hlt : startedIn xs < Word.size) :
    let s := { permits := p, flag }
    let rs := (run xs s).1
    let s' := (run xs s).2
    (s'.permits.count < Word.size ∧
        s'.permits.count + takenIn rs ≡ p.count + handedIn xs [MOD Word.size]) ∧
      (s'.permits.waiters = s'.waiting.length ∧
        s'.waiting.length + returnedIn rs = startedIn xs ∧
        ∀ w ∈ s'.waiting, s'.permits.parker.isAsleep w.thread = true) ∧
      (∀ on, s'.step (.setFlag on) = (.done, [], { s' with flag := on })) ∧
      (p.parker.kind = .futex ∨ xs.countP Step.wakes < Parker.epochs → AllRouse xs s) ∧
      (AllRouse xs s → s'.Serves) := by
  intro s rs s'
  have hstart : s.Settled := settled_start hq flag
  have hthreads : s.threads + startedIn xs < Word.size := by
    rw [show s.threads = 0 from rfl, Nat.zero_add]
    exact hlt
  obtain ⟨hsettled, hbooks⟩ := Settled.run xs s hstart hx hthreads
  refine ⟨⟨hbooks.below hc, hbooks.permits⟩,
    ⟨hsettled.waiters_eq, hbooks.waiting.trans (Nat.zero_add _), hsettled.sleeps⟩,
    hsettled.setFlag, ?_, fun hr => ?_⟩
  · rintro (hk | hn)
    · exact allRouse_of_futex hk hstart hx hthreads
    · have hdated : s.Dated s.permits.parker.epoch 0 := by
        refine ⟨rfl, fun z hz => ?_⟩
        rw [show s.permits.parker.sleepers = [] from hq.sleepers] at hz
        cases hz
      exact hdated.allRouse hstart hx hthreads (by rwa [Nat.zero_add])
  · refine hsettled.serves (hbooks.threads ▸ hthreads) ?_
    exact Settled.dry_run xs s hstart hx hthreads (fun hw => absurd rfl hw) hr

/-- One thread takes the only permit, and three fall asleep. A wake of all finds nothing for them.
Then the flag is set, and still the one whom the next wake reaches takes the permit that comes with
it. -/
def rush : List Step :=
  [.start .endless, .start .endless, .start .endless, .start .endless, .releaseAll, .setFlag true,
    .take, .release]

/-- Two threads are left, and the next wake of all makes both give up. -/
theorem semaphore_rush :
    ∃ p : Permits, p.parker.Calm ∧ p.count < Word.size ∧ p.parker.kind = .condvar ∧
      (∀ x ∈ rush, x.waitsItself = false) ∧ startedIn rush < Word.size ∧
      AllRouse rush { permits := p } ∧
      (run rush { permits := p }).2.permits.waiters = 2 ∧
      (run rush { permits := p }).2.permits.count = 0 ∧
      ((run rush { permits := p }).2.step .releaseAll).2.1 =
        [(2, .cancelled), (4, .cancelled)] := by
  have hq : (⟨1, { kind := .condvar, order := fun _ => 1 }⟩ : Permits).parker.Calm := ⟨rfl, rfl⟩
  have hx : ∀ x ∈ rush, x.waitsItself = false := by decide
  obtain ⟨-, ⟨hwaiters, hbooks, -⟩, -, hrouse, hserves⟩ :=
    semaphore hq (by decide) false hx (by decide)
  have hrouse := hrouse (.inr (by decide))
  have hserves := hserves hrouse
  have htwo : _ = 2 := hwaiters.trans (Nat.add_right_cancel (m := 2) hbooks)
  refine ⟨_, hq, by decide, rfl, hx, by decide, hrouse, htwo,
    hserves.dry (htwo ▸ Nat.two_pos), ?_⟩
  exact (hserves.releaseAll (rouses_of_epoch_ne (by decide) _)).1

/-! ### A wake that is slept through -/

/-- A counter with a condition variable, at which thread `1` has slept since the epoch was `0`. The
`n` wakes since then have reached others, who took the permits and are gone. -/
def overslept (n : Nat) : Session where
  permits :=
    { count := 0
      parker :=
        { kind := .condvar, epoch := n, parked := 1, sleepers := [⟨1, 0⟩], order := fun _ => 1
          rouses := n } }
  waiting := [⟨1, .endless⟩]
  threads := n + 1

/-- The same with one thread more, which has fallen asleep with the present epoch. -/
def beside (n : Nat) : Session where
  permits :=
    { count := 0
      parker :=
        { kind := .condvar, epoch := n, parked := 2, sleepers := [⟨1, 0⟩, ⟨n + 2, n⟩]
          order := fun _ => 1, rouses := n } }
  waiting := [⟨1, .endless⟩, ⟨n + 2, .endless⟩]
  threads := n + 2

theorem step_start_overslept (n : Nat) :
    (overslept n).step (.start .endless) = (.asleep (n + 2), [], beside n) := by
  have hparked : Word.succ 1 = 2 := rfl
  simp [step, act, acquire, await, round, take?, overslept, Parker.park, Parker.enlist, hparked,
    Parker.doze, settle, Parker.isAsleep, beside]

/-- The wake reaches the thread that came last, and the other one sleeps on. -/
theorem step_release_beside {n : Nat} (hn : n + 1 < Parker.epochs) :
    (beside n).step .release = (.done, [(n + 2, .acquired)], overslept (n + 1)) := by
  have hepoch : (n + 1) % Parker.epochs = n + 1 := Nat.mod_eq_of_lt hn
  have hgiven : Word.succ 0 = 1 := rfl
  have htaken : Word.pred 1 = 0 := rfl
  have hparked : Word.pred 2 = 1 := rfl
  simp [step, act, beside, release, give, hgiven, Parker.unparkOne, Parker.bump, hepoch,
    Parker.rouseOne, Parker.nextSleeper?, Parker.sleepsOn, Parker.getUp, Parker.leave, hparked,
    settle, Parker.isAsleep, resume, await, round, take?, htaken, overslept]

/-- Threads come one at a time, and a permit is handed back for each. -/
def rounds (n : Nat) : List Step :=
  (List.replicate n [.start .endless, .release]).flatten

theorem rounds_succ (n : Nat) : rounds (n + 1) = .start .endless :: .release :: rounds n :=
  rfl

theorem run_rounds (k n : Nat) (hn : n + k < Parker.epochs) :
    (run (rounds k) (overslept n)).2 = overslept (n + k) := by
  induction k generalizing n with
  | zero => rfl
  | succ k ih =>
    rw [rounds_succ, run, run, step_start_overslept]
    dsimp only
    rw [step_release_beside (by omega), ih (n + 1) (by omega), Nat.add_assoc, Nat.add_comm 1]

theorem waitsItself_of_mem_rounds {n : Nat} {x : Step} (hx : x ∈ rounds n) :
    x.waitsItself = false := by
  induction n with
  | zero => cases hx
  | succ n ih =>
    rw [rounds_succ, List.mem_cons, List.mem_cons] at hx
    rcases hx with rfl | rfl | hx
    · rfl
    · rfl
    · exact ih hx

theorem startedIn_rounds (n : Nat) : startedIn (rounds n) = n := by
  induction n with
  | zero => rfl
  | succ n ih =>
    rw [startedIn, rounds_succ, List.map_cons, List.map_cons, List.sum_cons, List.sum_cons,
      ← startedIn, ih]
    exact (Nat.zero_add n).symm ▸ Nat.add_comm 1 n

/-- A thread falls asleep on a new counter, and then wakes reach others. -/
def longNight (n : Nat) : List Step :=
  .start .endless :: rounds n

theorem run_longNight {n : Nat} (hn : n < Parker.epochs) :
    (run (longNight n) { permits := ⟨0, { kind := .condvar, order := fun _ => 1 }⟩ }).2 =
      overslept n := by
  have hfirst : Session.step (.start .endless)
      { permits := ⟨0, { kind := .condvar, order := fun _ => 1 }⟩ } =
        (.asleep 1, [], overslept 0) := rfl
  have hnight := run_rounds n 0 (by rwa [Nat.zero_add])
  rw [longNight, run, hfirst, hnight, Nat.zero_add]

/-- With a condition variable the laws may fail after as many wakes as there are epochs. The thread
that is still waiting sleeps through the wake of the permit that is handed back, so nobody returns,
and the permit lies there while the thread waits. A wake of all, with the flag not set, then makes
the thread return with it. -/
theorem semaphore_overslept :
    let xs := longNight (Parker.epochs - 1)
    let s := (run xs { permits := ⟨0, { kind := .condvar, order := fun _ => 1 }⟩ }).2
    let r := s.step .release
    (∀ x ∈ xs, x.waitsItself = false) ∧ startedIn xs < Word.size ∧
      s.permits.waiters = 1 ∧ s.permits.count = 0 ∧ s.flag = false ∧
      r.2.1 = [] ∧ r.2.2.permits.waiters = 1 ∧ r.2.2.permits.count = 1 ∧
      (r.2.2.step .releaseAll).2.1 = [(1, .acquired)] ∧
      (r.2.2.step .releaseAll).2.2.permits.count = 0 := by
  dsimp only
  rw [run_longNight (by decide)]
  refine ⟨fun x hx => ?_, ?_, ?_⟩
  · rcases List.mem_cons.mp hx with rfl | hx
    · rfl
    · exact waitsItself_of_mem_rounds hx
  · rw [longNight, startedIn, List.map_cons, List.sum_cons, ← startedIn, startedIn_rounds]
    decide
  · decide

end PermitRing.Permits.Session
