import Mathlib.Data.List.Perm.Subperm
import Mathlib.Order.Basic
import PermitRing.Permits.Session
import PermitRing.Proofs.Parker.Rousing

/-!
# How a counter's run settles

After each step of the caller, the threads that wait have their turns one after the other: one that
is asleep stays so, and one that was roused takes a permit, gives up, or falls asleep again. The
invariant is about a settling that is under way, with the threads that have had their turn and those
that have not: whoever sleeps is one of them, those who have had their turn and still wait sleep,
and the parker counts exactly the sleepers. Before the first turn and after the last one this is
what a run is between two steps.

With a condition variable a roused thread may sleep on, and a permit may lie there while somebody
sleeps. So nothing is said here of how permits and sleepers go together.

## Main definitions

* `Session.turn`, `sweep` — one turn, and all of them;
* `Session.Sweeps` — the invariant; `Settled`, between two steps.

## Main results

* `settle_eq_sweep` — settling is a sweep;
* `Sweeps.turn_cases` — what a turn can be;
* `Sweeps.sweep` — the invariant is kept, and whom and what a sweep accounts for.
-/

namespace PermitRing.Permits.Session

variable {s : Session} {w : Waiter} {ws vs : List Waiter}

/-! ### Turns -/

/-- The thread goes on waiting. -/
def keep (w : Waiter) (s : Session) : Session :=
  { s with waiting := s.waiting ++ [w] }

/-- A thread has its turn: how it returns, if it does. -/
def turn (w : Waiter) (s : Session) : Option Outcome × Session :=
  if s.permits.parker.isAsleep w.thread then (none, s.keep w)
  else match s.permits.resume w.thread w.limit s.flag with
    | (some o, p) => (some o, { s with permits := p })
    | (none, p) => (none, { s with permits := p }.keep w)

/-- Threads have their turns one after the other: the outcomes of those that returned. -/
def sweep : List Waiter → Session → List (Nat × Outcome) × Session
  | [], s => ([], s)
  | w :: ws, s =>
    let r := s.turn w
    let t := sweep ws r.2
    ((r.1.map (Prod.mk w.thread)).toList ++ t.1, t.2)

/-- Settling goes through the threads, and lengthens the list of outcomes at its end. -/
theorem exists_settle_eq :
    ∃ f : List (Nat × Outcome) × Session → Waiter → List (Nat × Outcome) × Session,
      (∀ s : Session, s.settle = s.waiting.foldl f ([], { s with waiting := [] })) ∧
      ∀ out s w, f (out, s) w =
        (out ++ ((s.turn w).1.map (Prod.mk w.thread)).toList, (s.turn w).2) := by
  refine ⟨_, fun _ => rfl, fun out s w => ?_⟩
  dsimp only
  rw [turn]
  by_cases ha : s.permits.parker.isAsleep w.thread = true
  · rw [if_pos ha, if_pos ha, Option.map_none, Option.toList_none, List.append_nil]
    rfl
  · rw [if_neg ha, if_neg ha]
    rcases s.permits.resume w.thread w.limit s.flag with ⟨_ | o, p⟩
    · exact congrArg (Prod.mk · _) (List.append_nil out).symm
    · rfl

theorem settle_eq_sweep (s : Session) : s.settle = sweep s.waiting { s with waiting := [] } := by
  obtain ⟨f, hsettle, hf⟩ := exists_settle_eq
  rw [hsettle]
  suffices ∀ (ws : List Waiter) (out : List (Nat × Outcome)) (s : Session),
      ws.foldl f (out, s) = (out ++ (sweep ws s).1, (sweep ws s).2) from this s.waiting [] _
  intro ws
  induction ws with
  | nil =>
    intro out s
    rw [List.foldl_nil, sweep, List.append_nil]
  | cons w ws ih =>
    intro out s
    rw [List.foldl_cons, hf, ih, sweep, List.append_assoc]

theorem turn_of_asleep (h : s.permits.parker.isAsleep w.thread = true) :
    s.turn w = (none, s.keep w) :=
  if_pos h

/-- Those who sleep go on waiting. -/
theorem sweep_of_asleep (h : ∀ w ∈ ws, s.permits.parker.isAsleep w.thread = true) :
    sweep ws s = ([], { s with waiting := s.waiting ++ ws }) := by
  induction ws generalizing s with
  | nil => rw [sweep, List.append_nil]
  | cons w ws ih =>
    rw [List.forall_mem_cons] at h
    rw [sweep, turn_of_asleep h.1]
    have hrest := ih (s := s.keep w) h.2
    dsimp only
    rw [hrest]
    simp only [keep, List.append_assoc, List.singleton_append, Option.map_none,
      Option.toList_none, List.nil_append]

/-! ### The invariant -/

/-- A settling under way, with the threads that have not had their turn yet. -/
structure Sweeps (ws : List Waiter) (s : Session) : Prop where
  /-- The parker counts the sleepers. -/
  parked : s.permits.parker.parked = s.permits.parker.sleepers.length
  /-- They are different threads. -/
  apart : (s.permits.parker.sleepers.map Parker.Sleeper.thread).Nodup
  /-- Whoever sleeps waits for a permit. -/
  waits : ∀ z ∈ s.permits.parker.sleepers, ∃ w ∈ s.waiting ++ ws, w.thread = z.thread
  /-- Whoever still waits after a turn sleeps. -/
  sleeps : ∀ w ∈ s.waiting, s.permits.parker.isAsleep w.thread = true
  /-- Those who wait are different threads. -/
  nodup : ((s.waiting ++ ws).map Waiter.thread).Nodup
  /-- They have been started. -/
  known : ∀ w ∈ s.waiting ++ ws, w.thread ≤ s.threads
  /-- They are not more than have been started. -/
  few : (s.waiting ++ ws).length ≤ s.threads
  /-- Their limits do not pass meanwhile. -/
  long : ∀ w ∈ s.waiting ++ ws, w.limit.isLong = true

/-- A run between two steps. -/
def Settled (s : Session) : Prop :=
  s.Sweeps []

theorem settled_start {p : Permits} (h : p.parker.Calm) (flag : Bool) :
    Settled { permits := p, flag } where
  parked := by rw [h.parked, h.sleepers, List.length_nil]
  apart := by
    rw [h.sleepers]
    exact List.nodup_nil
  waits z hz := by
    rw [h.sleepers] at hz
    cases hz
  sleeps _ hw := nomatch hw
  nodup := List.nodup_nil
  known _ hw := nomatch hw
  few := Nat.zero_le _
  long _ hw := nomatch hw

namespace Sweeps

/-- Whoever sleeps is among those who wait, and not the one who is awake. -/
theorem waits_rest (h : s.Sweeps (w :: ws)) (ha : s.permits.parker.isAsleep w.thread = false) :
    ∀ z ∈ s.permits.parker.sleepers, ∃ v ∈ s.waiting ++ ws, v.thread = z.thread := by
  intro z hz
  obtain ⟨v, hv, hvz⟩ := h.waits z hz
  rw [List.mem_append, List.mem_cons] at hv
  refine ⟨v, List.mem_append.mpr (hv.imp_right ?_), hvz⟩
  rintro (rfl | hv)
  · rw [hvz, ← Bool.not_eq_true, ← Parker.mem_threads_iff] at ha
    exact absurd (List.mem_map_of_mem hz) ha
  · exact hv

theorem parked_le_of_waits (h : s.Sweeps ws)
    (hw : ∀ z ∈ s.permits.parker.sleepers, ∃ v ∈ vs, v.thread = z.thread) :
    s.permits.parker.parked ≤ vs.length := by
  have hsub : s.permits.parker.sleepers.map Parker.Sleeper.thread ⊆ vs.map Waiter.thread := by
    intro t ht
    obtain ⟨z, hz, rfl⟩ := List.mem_map.mp ht
    obtain ⟨v, hv, hvz⟩ := hw z hz
    exact hvz ▸ List.mem_map_of_mem hv
  rw [h.parked]
  simpa only [List.length_map] using (List.subperm_of_subset h.apart hsub).length_le

theorem parked_le (h : s.Sweeps ws) : s.permits.parker.parked ≤ s.threads :=
  Nat.le_trans (h.parked_le_of_waits h.waits) h.few

/-- Where somebody who waits is awake, fewer sleep than were started. -/
theorem parked_lt (h : s.Sweeps (w :: ws)) (ha : s.permits.parker.isAsleep w.thread = false) :
    s.permits.parker.parked < s.threads := by
  have hle := h.parked_le_of_waits (h.waits_rest ha)
  have hfew := h.few
  rw [List.length_append] at hle
  rw [List.length_append, List.length_cons] at hfew
  omega

/-- Whoever is awake has not had a turn, and nobody else has its number. -/
theorem thread_ne (h : s.Sweeps (w :: ws)) {v : Waiter} (hv : v ∈ s.waiting ++ ws) :
    v.thread ≠ w.thread := by
  have hnodup := h.nodup
  rw [List.map_append, List.map_cons, List.nodup_middle, List.nodup_cons,
    ← List.map_append] at hnodup
  intro he
  exact hnodup.1 (he ▸ List.mem_map_of_mem hv)

/-! ### What a turn can be -/

/-- **What a turn can be.** A sleeper sleeps on. Otherwise a thread takes a permit if there is one;
if there is none, it gives up if the flag says so, and else falls asleep. -/
theorem turn_cases (h : s.Sweeps (w :: ws)) (hlt : s.threads < Word.size) :
    (s.permits.parker.isAsleep w.thread = true ∧ s.turn w = (none, s.keep w)) ∨
      s.permits.parker.isAsleep w.thread = false ∧
        ((0 < s.permits.count ∧
            s.turn w = (some .acquired, { s with permits := s.permits.taken })) ∨
          s.permits.count = 0 ∧
            ((s.flag = true ∧ s.turn w = (some .cancelled, s)) ∨
              (s.flag = false ∧ s.turn w =
                (none, { s with permits := s.permits.withSleeper w.thread }.keep w)))) := by
  rw [turn]
  by_cases ha : s.permits.parker.isAsleep w.thread = true
  · exact .inl ⟨ha, if_pos ha⟩
  · refine .inr ⟨Bool.eq_false_iff.mpr ha, ?_⟩
    have hl : w.limit.isLong = true := h.long w (by simp)
    rw [if_neg ha, resume_eq (Nat.lt_of_le_of_lt h.parked_le hlt), waited]
    by_cases hc : 0 < s.permits.count
    · exact .inl ⟨hc, by rw [if_pos hc]⟩
    · refine .inr ⟨Nat.eq_zero_of_not_pos hc, ?_⟩
      rw [if_neg hc]
      cases hf : s.flag with
      | true => exact .inl ⟨rfl, by rw [if_pos rfl, ← hf]⟩
      | false => exact .inr ⟨rfl, by rw [if_neg Bool.false_ne_true, if_pos hl]⟩

/-! ### The invariant is kept -/

/-- The thread has had its turn and goes on waiting. -/
theorem keep (h : s.Sweeps (w :: ws)) (ha : s.permits.parker.isAsleep w.thread = true) :
    (s.keep w).Sweeps ws := by
  have hlist : (s.waiting ++ [w]) ++ ws = s.waiting ++ w :: ws := by simp
  exact
    { parked := h.parked
      apart := h.apart
      waits := fun z hz => hlist ▸ h.waits z hz
      sleeps := by
        intro v hv
        rcases List.mem_append.mp hv with hv | hv
        · exact h.sleeps v hv
        · rw [List.mem_singleton.mp hv]
          exact ha
      nodup := hlist ▸ h.nodup
      known := fun v hv => h.known v (hlist ▸ hv)
      few := hlist ▸ h.few
      long := fun v hv => h.long v (hlist ▸ hv) }

/-- The thread has had its turn and returned, having left the parker as it was. -/
theorem leave (h : s.Sweeps (w :: ws)) (ha : s.permits.parker.isAsleep w.thread = false)
    {p : Permits} (hp : p.parker = s.permits.parker) : { s with permits := p }.Sweeps ws := by
  have hsub : (s.waiting ++ ws).Sublist (s.waiting ++ w :: ws) :=
    (List.Sublist.refl _).append (List.sublist_cons_self w ws)
  exact
    { parked := hp ▸ h.parked
      apart := hp ▸ h.apart
      waits := hp ▸ h.waits_rest ha
      sleeps := hp ▸ h.sleeps
      nodup := h.nodup.sublist (hsub.map _)
      known := fun v hv => h.known v (hsub.subset hv)
      few := Nat.le_trans hsub.length_le h.few
      long := fun v hv => h.long v (hsub.subset hv) }

/-- The thread has had its turn and fallen asleep. -/
theorem doze (h : s.Sweeps (w :: ws)) (hlt : s.threads < Word.size)
    (ha : s.permits.parker.isAsleep w.thread = false) :
    ({ s with permits := s.permits.withSleeper w.thread }.keep w).Sweeps ws := by
  have hlist : (s.waiting ++ [w]) ++ ws = s.waiting ++ w :: ws := by simp
  refine
    { parked := Parker.parked_doze h.parked (Nat.lt_of_le_of_lt (h.parked_lt ha) hlt) _ _
      apart := Parker.nodup_doze h.apart ha _
      waits := ?_
      sleeps := ?_
      nodup := hlist ▸ h.nodup
      known := fun v hv => h.known v (hlist ▸ hv)
      few := hlist ▸ h.few
      long := fun v hv => h.long v (hlist ▸ hv) }
  · intro z hz
    refine hlist ▸ ?_
    rcases List.mem_append.mp hz with hz | hz
    · exact h.waits z hz
    · rw [List.mem_singleton.mp hz]
      exact ⟨w, by simp, rfl⟩
  · intro v hv
    change Parker.isAsleep _ (withSleeper w.thread s.permits).parker = true
    rw [isAsleep_withSleeper_eq, Bool.or_eq_true]
    rcases List.mem_append.mp hv with hv | hv
    · exact .inl (h.sleeps v hv)
    · rw [List.mem_singleton.mp hv]
      exact .inr (beq_self_eq_true _)

end Sweeps

/-! ### What a sweep accounts for -/

/-- The permits that threads took which returned. -/
def acquiredIn (out : List (Nat × Outcome)) : Nat :=
  out.countP fun r => r.2 == .acquired

/-- What turns of `n` threads leave as it was, and what the outcomes account for. -/
structure Accounts (n : Nat) (out : List (Nat × Outcome)) (s s' : Session) : Prop where
  flag : s'.flag = s.flag
  threads : s'.threads = s.threads
  kind : s'.permits.parker.kind = s.permits.parker.kind
  epoch : s'.permits.parker.epoch = s.permits.parker.epoch
  /-- Whoever has fallen asleep has done so with the present epoch. -/
  sleepers : ∀ z ∈ s'.permits.parker.sleepers,
    z ∈ s.permits.parker.sleepers ∨ z.epoch = s.permits.parker.epoch
  /-- The permits that are gone were taken by threads that returned. -/
  permits : s'.permits.count + acquiredIn out = s.permits.count
  /-- Whoever does not go on waiting has returned. -/
  waiting : s'.waiting.length + out.length = s.waiting.length + n

theorem Accounts.trans {m n : Nat} {out out' : List (Nat × Outcome)} {s s' s'' : Session}
    (h : Accounts m out s s') (h' : Accounts n out' s' s'') :
    Accounts (m + n) (out ++ out') s s'' where
  flag := h'.flag.trans h.flag
  threads := h'.threads.trans h.threads
  kind := h'.kind.trans h.kind
  epoch := h'.epoch.trans h.epoch
  sleepers z hz := by
    rcases h'.sleepers z hz with hz | hz
    · exact h.sleepers z hz
    · exact .inr (hz.trans h.epoch)
  permits := by
    have := h.permits
    have := h'.permits
    simp only [acquiredIn, List.countP_append] at *
    omega
  waiting := by
    have := h.waiting
    have := h'.waiting
    rw [List.length_append]
    omega

namespace Sweeps

/-- One turn. -/
theorem turn (h : s.Sweeps (w :: ws)) (hlt : s.threads < Word.size) :
    (s.turn w).2.Sweeps ws ∧
      Accounts 1 ((s.turn w).1.map (Prod.mk w.thread)).toList s (s.turn w).2 := by
  rcases h.turn_cases hlt with ⟨ha, he⟩ | ⟨ha, ⟨hc, he⟩ | ⟨hc, ⟨-, he⟩ | ⟨-, he⟩⟩⟩
  · rw [he]
    exact ⟨h.keep ha, rfl, rfl, rfl, rfl, fun z hz => .inl hz, rfl, by simp [Session.keep]⟩
  · rw [he]
    refine ⟨h.leave ha rfl, rfl, rfl, rfl, rfl, fun z hz => .inl hz, ?_, rfl⟩
    exact Nat.sub_add_cancel hc
  · rw [he]
    exact ⟨h.leave ha rfl, rfl, rfl, rfl, rfl, fun z hz => .inl hz, rfl, rfl⟩
  · rw [he]
    refine ⟨h.doze hlt ha, rfl, rfl, rfl, rfl, fun z hz => ?_, rfl, by simp [Session.keep]⟩
    refine (List.mem_append.mp hz).imp_right fun hz => ?_
    rw [List.mem_singleton.mp hz]

/-- **All turns.** The induction is on the threads that have not had theirs. -/
theorem sweep (h : s.Sweeps ws) (hlt : s.threads < Word.size) :
    Settled (Session.sweep ws s).2 ∧
      Accounts ws.length (Session.sweep ws s).1 s (Session.sweep ws s).2 := by
  induction ws generalizing s with
  | nil => exact ⟨h, rfl, rfl, rfl, rfl, fun z hz => .inl hz, rfl, rfl⟩
  | cons w ws ih =>
    obtain ⟨hturn, hacc⟩ := h.turn hlt
    obtain ⟨hrest, hacc'⟩ := ih hturn (hacc.threads ▸ hlt)
    rw [Session.sweep, List.length_cons, Nat.add_comm]
    exact ⟨hrest, hacc.trans hacc'⟩

/-! ### Sweeps that are known in full -/

/-- Where one thread is awake and there is a permit, this thread takes it. -/
theorem sweep_roused {as bs : List Waiter} (h : s.Sweeps (as ++ w :: bs))
    (hlt : s.threads < Word.size) (hc : 0 < s.permits.count)
    (ha : s.permits.parker.isAsleep w.thread = false)
    (hab : ∀ v ∈ as ++ bs, s.permits.parker.isAsleep v.thread = true) :
    Session.sweep (as ++ w :: bs) s =
      ([(w.thread, .acquired)],
        { s with permits := s.permits.taken, waiting := s.waiting ++ (as ++ bs) }) := by
  induction as generalizing s with
  | nil =>
    rw [List.nil_append] at h
    have hturn : s.turn w = (some .acquired, { s with permits := s.permits.taken }) := by
      rcases h.turn_cases hlt with ⟨ha', -⟩ | ⟨-, ⟨-, he⟩ | ⟨hc', -⟩⟩
      · rw [ha] at ha'
        cases ha'
      · exact he
      · exact absurd hc' (Nat.ne_of_gt hc)
    have hrest : Session.sweep bs { s with permits := s.permits.taken } = _ := sweep_of_asleep hab
    rw [List.nil_append, Session.sweep, hturn]
    dsimp only
    rw [hrest]
    rfl
  | cons v as ih =>
    have hv := hab v (by simp)
    have hrest := ih (h.keep hv) hlt hc ha fun u hu => hab u (List.mem_cons_of_mem v hu)
    rw [List.cons_append, Session.sweep, turn_of_asleep hv]
    dsimp only
    rw [hrest]
    simp only [Session.keep, Option.map_none, Option.toList_none, List.nil_append,
      List.append_assoc, List.cons_append]

/-- Where all are awake, there is no permit, and the flag is set, everybody gives up. -/
theorem sweep_cancelled (h : s.Sweeps ws) (hlt : s.threads < Word.size)
    (hc : s.permits.count = 0) (hf : s.flag = true)
    (ha : ∀ w ∈ ws, s.permits.parker.isAsleep w.thread = false) :
    Session.sweep ws s = (ws.map fun w => (w.thread, .cancelled), s) := by
  induction ws with
  | nil => rfl
  | cons w ws ih =>
    rw [List.forall_mem_cons] at ha
    have hturn : s.turn w = (some .cancelled, s) := by
      rcases h.turn_cases hlt with ⟨ha', -⟩ | ⟨-, ⟨hc', -⟩ | ⟨-, ⟨-, he⟩ | ⟨hf', -⟩⟩⟩
      · rw [ha.1] at ha'
        cases ha'
      · exact absurd hc (Nat.ne_of_gt hc')
      · exact he
      · rw [hf] at hf'
        cases hf'
    rw [Session.sweep, hturn]
    dsimp only
    rw [ih (h.leave ha.1 rfl) ha.2]
    rfl

/-- Where all are awake, there is no permit, and the flag is not set, everybody falls asleep
again. -/
theorem sweep_dozed (h : s.Sweeps ws) (hlt : s.threads < Word.size)
    (hc : s.permits.count = 0) (hf : s.flag = false)
    (ha : ∀ w ∈ ws, s.permits.parker.isAsleep w.thread = false) :
    (Session.sweep ws s).1 = [] ∧ (Session.sweep ws s).2.waiting = s.waiting ++ ws := by
  induction ws generalizing s with
  | nil => exact ⟨rfl, (List.append_nil _).symm⟩
  | cons w ws ih =>
    rw [List.forall_mem_cons] at ha
    have hturn :
        s.turn w = (none, { s with permits := s.permits.withSleeper w.thread }.keep w) := by
      rcases h.turn_cases hlt with ⟨ha', -⟩ | ⟨-, ⟨hc', -⟩ | ⟨-, ⟨hf', -⟩ | ⟨-, he⟩⟩⟩
      · rw [ha.1] at ha'
        cases ha'
      · exact absurd hc (Nat.ne_of_gt hc')
      · rw [hf] at hf'
        cases hf'
      · exact he
    obtain ⟨hout, hwaiting⟩ := ih (h.doze hlt ha.1) hlt hc hf (by
      intro v hv
      change Parker.isAsleep _ (withSleeper w.thread s.permits).parker = false
      rw [isAsleep_withSleeper_eq, ha.2 v hv, Bool.false_or, beq_eq_false_iff_ne]
      exact (h.thread_ne (List.mem_append_right _ hv)).symm)
    rw [Session.sweep, hturn]
    refine ⟨hout, hwaiting.trans ?_⟩
    simp only [Session.keep, List.append_assoc, List.singleton_append]

end Sweeps

/-! ### Settling -/

/-- A run in which threads may have been roused. -/
def Stirred (s : Session) : Prop :=
  Sweeps s.waiting { s with waiting := [] }

theorem Stirred.settle (h : s.Stirred) (hlt : s.threads < Word.size) :
    Settled s.settle.2 ∧ Accounts 0 s.settle.1 s s.settle.2 := by
  obtain ⟨hs, hacc⟩ := Sweeps.sweep h hlt
  rw [settle_eq_sweep]
  refine ⟨hs, hacc.flag, hacc.threads, hacc.kind, hacc.epoch, hacc.sleepers, hacc.permits, ?_⟩
  exact hacc.waiting.trans (Nat.add_comm _ _)

/-- Where nobody was roused, nothing happens. -/
theorem Settled.settle (h : s.Settled) : s.settle = ([], s) := by
  rw [settle_eq_sweep]
  exact sweep_of_asleep (s := { s with waiting := [] }) h.sleeps

end PermitRing.Permits.Session
