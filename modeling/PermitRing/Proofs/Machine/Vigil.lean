import Mathlib.Data.List.DropRight
import PermitRing.Proofs.Machine.Conservation
import PermitRing.Proofs.Machine.Lobby

/-!
# Who is on watch while somebody sleeps

A wake is lost if a thread falls asleep just after the permit that it waits for was handed out, and
nobody wakes it. What keeps this from happening is said here as an invariant of one side. As long as
somebody sleeps, there are as many threads *on watch* as there are permits and sleepers: threads
that are about to look for a permit, that were roused, or that are about to rouse another one. And
as soon as waiting makes no sense any more, somebody is about to rouse all.

While nobody sleeps, nobody need be on watch, and a permit may lie about. The invariant begins to
hold when the first thread falls asleep, and it is the epoch that brings it about: had a permit been
handed out and the epoch moved on since the thread read it, the thread would not fall asleep. So
those who handed out the permits that it did not see have still to move the epoch on, and are on
watch. This takes it for granted that the epoch, a word of 32 bits, does not come round meanwhile.

## Main definitions

* `Post.alert`, `bringing`, `calling`, `alarming` — who is on watch, and for what;
* `Timely` — no epoch comes round while a thread is on its way to fall asleep with it;
* `Machine.tally` — the sum of a weight of posts over all threads;
* `Machine.Attended` — the invariant of one side.

## Main results

* `Machine.Run.shifts` — every deed of a run is a shift on each side;
* `Machine.Run.attended` — the invariant holds at every moment of every timely run.
-/

namespace PermitRing.Queue

variable {α : Type}

/-! ### Weights of posts -/

namespace Post

/-- One if the thread is counted as parked. -/
def parked : Post → Nat
  | .dozing _ | .asleep | .leaving => 1
  | _ => 0

/-- One if the thread will look for a permit, or sleeps, or wakes one sleeper. -/
def alert : Post → Nat
  | .seeking | .looking _ | .asleep | .leaving | .waking false _ => 1
  | _ => 0

/-- One if the thread has brought a permit and not moved the epoch on for it. -/
def bringing : Post → Nat
  | .waking false .bump => 1
  | _ => 0

/-- One if the thread will wake all sleepers. -/
def calling : Post → Nat
  | .waking true _ | .minding => 1
  | _ => 0

/-- One if the thread will wake all sleepers and has not moved the epoch on for it. -/
def alarming : Post → Nat
  | .waking true .bump | .minding => 1
  | _ => 0

/-- One if the thread sleeps, or was roused and has not noticed. -/
def sleeping : Post → Nat
  | .asleep => 1
  | _ => 0

/-- The epoch that the thread has read. -/
def epoch? : Post → Option Nat
  | .looking e | .asking e | .settling e | .dozing e => some e
  | _ => none

/-- The thread has found no permit. -/
def hasMissed : Post → Bool
  | .asking _ | .settling _ | .dozing _ => true
  | _ => false

/-- The thread has found that waiting makes sense. -/
def hasSettled : Post → Bool
  | .settling _ | .dozing _ => true
  | _ => false

/-- The thread is about to move the epoch on. -/
def unparks : Post → Bool
  | .waking _ .bump => true
  | _ => false

theorem sleeping_le_alert (p : Post) : p.sleeping ≤ p.alert := by
  cases p <;> simp [sleeping, alert]

theorem sleeping_le_parked (p : Post) : p.sleeping ≤ p.parked := by
  cases p <;> simp [sleeping, parked]

theorem bringing_le_alert (p : Post) : p.bringing ≤ p.alert := by
  cases p with
  | waking every w => cases every <;> cases w <;> simp [bringing, alert]
  | _ => simp [bringing]

theorem alarming_le_calling (p : Post) : p.alarming ≤ p.calling := by
  cases p with
  | waking every w => cases every <;> cases w <;> simp [alarming, calling]
  | _ => simp [alarming, calling]

theorem parked_le_one (p : Post) : p.parked ≤ 1 := by
  cases p <;> simp [parked]

theorem hasMissed_of_hasSettled {p : Post} (h : p.hasSettled = true) : p.hasMissed = true := by
  cases p <;> first | rfl | cases h

theorem exists_epoch_of_hasMissed {p : Post} (h : p.hasMissed = true) : ∃ e, p.epoch? = some e := by
  cases p <;> first | exact ⟨_, rfl⟩ | cases h

end Post

/-! ### What shifts do -/

section Shift

variable {t : Nat} {p p' : Post} {l l' : Lobby}

/-- **The count of those who are parked** goes up and down with them. -/
theorem Shift.parked (h : Shift t p l p' l') (hp : p.parked ≤ l.permits.parker.parked)
    (hl : l.permits.parker.parked + p'.parked < Word.size + p.parked) :
    l'.permits.parker.parked + p.parked = l.permits.parker.parked + p'.parked := by
  cases h with
  | pass parker | give parker => simp [parker, Post.parked]
  | alarm permits post => rcases post with rfl | rfl <;> simp [permits, Post.parked]
  | enlist =>
    simp only [Post.parked] at hl ⊢
    exact Word.succ_eq (by omega)
  | leave =>
    simp only [Post.parked] at hp ⊢
    simp only [Lobby.setParker, Parker.leave]
    rw [Word.pred_eq (by omega)]
    omega
  | _ => rfl

/-- The epoch moves on when a thread wakes others. -/
theorem Shift.epoch (h : Shift t p l p' l') : l'.permits.parker.epoch =
    if p.unparks then (l.permits.parker.epoch + 1) % Parker.epochs
    else l.permits.parker.epoch := by
  cases h with
  | pass parker | give parker => rw [parker]; rfl
  | alarm permits => rw [permits]; rfl
  | _ => rfl

/-- A thread has read the epoch just now, or before. -/
theorem Shift.epoch? (h : Shift t p l p' l') {e : Nat} (he : p'.epoch? = some e) :
    p.unparks = false ∧ (p = .seeking ∧ e = l.permits.parker.epoch ∨ p.epoch? = some e) := by
  cases h with
  | alarm permits post => rcases post with rfl | rfl <;> cases he
  | prepare => exact ⟨rfl, .inl ⟨rfl, (Option.some.inj he).symm⟩⟩
  | see | miss | ask | settle | linger | enlist => exact ⟨rfl, .inr he⟩
  | _ => cases he

/-- Who sleeps fell asleep just now, or slept before and does not act. -/
theorem Shift.mem_sleepers (h : Shift t p l p' l') {s : Parker.Sleeper}
    (hs : s ∈ l'.permits.parker.sleepers) :
    s.thread = t ∧ p' = .asleep ∨
      s ∈ l.permits.parker.sleepers ∧ (s.thread = t → p ≠ .asleep) := by
  cases h with
  | pass parker | give parker => exact .inr ⟨parker ▸ hs, by simp⟩
  | alarm permits => exact .inr ⟨permits ▸ hs, by simp⟩
  | doze =>
    simp only [Lobby.setParker, Parker.doze, List.mem_append, List.mem_singleton] at hs
    rcases hs with hs | rfl
    · exact .inr ⟨hs, by simp⟩
    · exact .inl ⟨rfl, rfl⟩
  | getUp =>
    simp only [Lobby.setParker, Parker.getUp, List.mem_filter, bne_iff_ne] at hs
    exact .inr ⟨hs.1, fun he => absurd he hs.2⟩
  | rise awake =>
    refine .inr ⟨hs, fun he => ?_⟩
    simp only [Parker.isAsleep, List.any_eq_false, beq_iff_eq] at awake
    exact absurd he (awake s hs)
  | rouseOne mem =>
    simp only [Lobby.setParker, Parker.getUp, List.mem_filter] at hs
    exact .inr ⟨hs.1, by simp⟩
  | rouseAll => cases hs
  | _ => exact .inr ⟨hs, by simp⟩

/-- No thread sleeps twice. -/
theorem Shift.nodup (h : Shift t p l p' l')
    (hl : (l.permits.parker.sleepers.map Parker.Sleeper.thread).Nodup)
    (ht : ∀ s ∈ l.permits.parker.sleepers, s.thread = t → p = .asleep) :
    (l'.permits.parker.sleepers.map Parker.Sleeper.thread).Nodup := by
  cases h with
  | pass parker | give parker => rwa [parker]
  | alarm permits => rwa [permits]
  | @doze _ e =>
    simp only [Lobby.setParker, Parker.doze, List.map_append, List.map_cons, List.map_nil]
    refine List.nodup_append'.mpr ⟨hl, List.nodup_singleton _, ?_⟩
    rw [List.disjoint_singleton, List.mem_map]
    rintro ⟨s, hs, he⟩
    cases ht s hs he
  | getUp | rouseOne => exact hl.sublist (List.filter_sublist.map _)
  | rouseAll => exact List.nodup_nil
  | _ => exact hl

/-- Where nobody slept, a thread falls asleep with the epoch that it read. -/
theorem Shift.dozed (h : Shift t p l p' l') (hl : l.permits.parker.sleepers = [])
    (hl' : l'.permits.parker.sleepers ≠ []) :
    p = .dozing l.permits.parker.epoch ∧ p' = .asleep ∧
      l' = l.setParker (l.permits.parker.doze t l.permits.parker.epoch) := by
  cases h with
  | pass parker | give parker => exact absurd (parker ▸ hl) hl'
  | alarm permits => exact absurd (permits ▸ hl) hl'
  | doze epoch =>
    subst epoch
    exact ⟨rfl, rfl, rfl⟩
  | getUp | rouseOne => exact absurd (by simp [Lobby.setParker, Parker.getUp, hl]) hl'
  | rouseAll => exact absurd rfl hl'
  | _ => exact absurd hl hl'

/-- **As long as somebody sleeps**, a permit that is brought brings one who will wake for it, and
whoever falls asleep, or is roused, is on watch. Only one who finds no permit goes off. -/
theorem Shift.enough (h : Shift t p l p' l') (hl : l.permits.parker.parked ≠ 0)
    (hl' : l'.permits.parker.sleepers ≠ []) :
    l'.permits.count = 0 ∨
      l'.permits.count + l'.permits.parker.sleepers.length + p.alert ≤
        l.permits.count + l.permits.parker.sleepers.length + p'.alert := by
  cases h with
  | pass parker count =>
    rw [parker]
    exact .inr (by omega)
  | give parker count =>
    rw [parker]
    simp only [Post.alert]
    exact .inr (by omega)
  | alarm permits post =>
    rw [permits]
    rcases post with rfl | rfl <;> exact .inr (Nat.le_refl _)
  | gain count =>
    simp only [Post.alert, Permits.taken]
    exact .inr (by omega)
  | miss count => exact .inl count
  | doze =>
    simp only [Post.alert, Lobby.setParker, Parker.doze, List.length_append, List.length_singleton]
    exact .inr (by omega)
  | getUp =>
    have hle := List.length_filter_le (fun s => s.thread != t) l.permits.parker.sleepers
    simp only [Post.alert, Lobby.setParker, Parker.getUp]
    exact .inr (by omega)
  | stale =>
    simp only [Post.alert]
    exact .inr (by omega)
  | @bump _ every | @find _ every => cases every <;> exact .inr (Nat.le_refl _)
  | findNone parked => exact absurd parked hl
  | @rouseOne _ s n mem =>
    have hlt : (l.permits.parker.sleepers.filter fun z => z.thread != s.thread).length <
        l.permits.parker.sleepers.length :=
      List.length_filter_lt_length_iff_exists.mpr ⟨s, mem, by simp⟩
    simp only [Post.alert, Lobby.setParker, Parker.getUp]
    exact .inr (by omega)
  | rouseNone sleepers => exact absurd sleepers hl'
  | rouseAll => exact absurd rfl hl'
  | enlist | leave => exact .inr (Nat.le_refl _)
  | _ => exact .inr (by simp [Post.alert])

/-- Until the epoch moves on, a permit that is brought has one behind it who will move it on. -/
theorem Shift.bringing (h : Shift t p l p' l') (hp : p.unparks = false) :
    l'.permits.count + p.bringing ≤ l.permits.count + p'.bringing := by
  cases h with
  | pass parker count => exact count
  | give parker count => exact count
  | alarm permits post =>
    rw [permits]
    rcases post with rfl | rfl <;> exact Nat.le_refl _
  | gain count => exact Nat.sub_le _ _
  | bump => cases hp
  | @find _ every | @findNone _ every => cases every <;> exact Nat.le_refl _
  | _ => exact Nat.le_refl _

/-- A thread that has found no permit did so just now, or before. -/
theorem Shift.hasMissed (h : Shift t p l p' l') (hp : p'.hasMissed = true) :
    p.hasMissed = true ∨ l'.permits.count = 0 := by
  cases h with
  | alarm permits post => rcases post with rfl | rfl <;> cases hp
  | miss count => exact .inr count
  | ask | settle | linger | enlist => exact .inl rfl
  | _ => cases hp

/-- Until the epoch moves on, waiting becomes senseless only by one who will move it on. -/
theorem Shift.alarming (h : Shift t p l p' l') (hp : p.unparks = false) (ho : l'.vain = true) :
    0 < p'.alarming ∨ l.vain = true ∧ p.alarming ≤ p'.alarming := by
  cases h with
  | pass parker count vain => exact .inr ⟨vain ho, Nat.le_refl _⟩
  | give parker count vain => exact .inr ⟨vain ▸ ho, Nat.le_refl _⟩
  | alarm permits post => rcases post with rfl | rfl <;> exact .inl Nat.one_pos
  | mind | call => exact .inl Nat.one_pos
  | dismiss vain => exact absurd ho (by rw [vain]; exact Bool.false_ne_true)
  | bump => cases hp
  | @find _ every | @findNone _ every =>
    cases every <;> exact .inr ⟨ho, Nat.le_refl _⟩
  | _ => exact .inr ⟨ho, Nat.le_refl _⟩

/-- A thread that has found that waiting makes sense did so just now, or before. -/
theorem Shift.hasSettled (h : Shift t p l p' l') (hp : p'.hasSettled = true) :
    p.hasSettled = true ∨ l'.vain = false := by
  cases h with
  | alarm permits post => rcases post with rfl | rfl <;> cases hp
  | settle vain => exact .inr vain
  | linger | enlist => exact .inl rfl
  | _ => cases hp

/-- As long as somebody sleeps, waiting becomes senseless only by one who will wake all, and that
one stays. -/
theorem Shift.calling (h : Shift t p l p' l') (hl : l.permits.parker.parked ≠ 0)
    (hl' : l'.permits.parker.sleepers ≠ []) (ho : l'.vain = true) :
    0 < p'.calling ∨ l.vain = true ∧ p.calling ≤ p'.calling := by
  cases h with
  | pass parker count vain => exact .inr ⟨vain ho, Nat.le_refl _⟩
  | give parker count vain => exact .inr ⟨vain ▸ ho, Nat.le_refl _⟩
  | alarm permits post => rcases post with rfl | rfl <;> exact .inl Nat.one_pos
  | mind | call => exact .inl Nat.one_pos
  | dismiss vain => exact absurd ho (by rw [vain]; exact Bool.false_ne_true)
  | @bump _ every | @find _ every => cases every <;> exact .inr ⟨ho, Nat.le_refl _⟩
  | findNone parked => exact absurd parked hl
  | rouseAll => exact absurd rfl hl'
  | _ => exact .inr ⟨ho, Nat.le_refl _⟩

end Shift

/-! ### What deeds do -/

namespace Post

/-- The thread is about to read the epoch. -/
def prepares : Post → Bool
  | .seeking => true
  | _ => false

/-- The thread is about to fall asleep, if the epoch is still the one that it read. -/
def parks : Post → Bool
  | .dozing _ => true
  | _ => false

theorem prepares_of_epoch? {p : Post} {e : Nat} (h : p.epoch? = some e) : p.prepares = false := by
  cases p <;> first | rfl | cases h

end Post

namespace Deed

/-- The thread reads the epoch of the side. -/
def prepares (x : Side) (d : Deed α) : Bool :=
  (d.point.post x).prepares

/-- The thread falls asleep, if the epoch of the side is still the one that it read. -/
def parks (x : Side) (d : Deed α) : Bool :=
  (d.point.post x).parks

/-- The thread moves the epoch of the side on. -/
def unparks (x : Side) (d : Deed α) : Bool :=
  (d.point.post x).unparks

end Deed

/-- How often the epoch of the side was moved on since the thread last read it. -/
def unparksSince (x : Side) (t : Nat) (ds : List (Deed α)) : Nat :=
  (ds.rtakeWhile fun d => !(d.thread == t && d.prepares x)).countP (Deed.unparks x)

/-- Whenever a thread is about to fall asleep, the epoch that it read has been moved on less often
than it has values. -/
def Timely (ds : List (Deed α)) : Prop :=
  ∀ x es d, es ++ [d] <+: ds → d.parks x = true → unparksSince x d.thread es < Parker.epochs

theorem Timely.mono {ds es : List (Deed α)} (h : Timely ds) (he : es <+: ds) : Timely es :=
  fun x fs d hf => h x fs d (hf.trans he)

theorem unparksSince_le_length (x : Side) (t : Nat) (ds : List (Deed α)) :
    unparksSince x t ds ≤ ds.length :=
  List.countP_le_length.trans (List.rtakeWhile_suffix _ _).length_le

theorem timely_of_length_le {ds : List (Deed α)} (h : ds.length ≤ Parker.epochs) : Timely ds := by
  intro x es d he _
  have hle := unparksSince_le_length x d.thread es
  have hlength := he.length_le
  rw [List.length_append, List.length_singleton] at hlength
  omega

section Since

variable {x : Side} {t : Nat} {d : Deed α}

theorem unparksSince_concat_of_prepares (ds : List (Deed α)) (ht : d.thread = t)
    (hd : d.prepares x = true) : unparksSince x t (ds ++ [d]) = 0 := by
  rw [unparksSince, List.rtakeWhile_concat, if_neg (by simp [ht, hd])]
  rfl

theorem unparksSince_concat (ds : List (Deed α)) (h : d.thread = t → d.prepares x = false) :
    unparksSince x t (ds ++ [d]) = unparksSince x t ds + (d.unparks x).toNat := by
  have hp : (!(d.thread == t && d.prepares x)) = true := by
    by_cases ht : d.thread = t
    · simp [h ht]
    · simp [ht]
  rw [unparksSince, List.rtakeWhile_concat, if_pos hp, List.countP_append]
  cases hu : d.unparks x <;> simp [unparksSince, hu]

end Since

/-! ### Where threads stand -/

namespace Machine

/-- Where the thread with a number stands with regard to the sleepers of a side. -/
def post (x : Side) (m : Machine α) (t : Nat) : Post :=
  m.threads[t]?.elim .aside fun thread => thread.point.elim .aside (Point.post x)

/-- The sum of a weight of posts over all threads. -/
def tally (x : Side) (f : Post → Nat) (m : Machine α) : Nat :=
  ∑ t ∈ Finset.range m.threads.length, f (m.post x t)

/-- What a deed does to the posts of threads and to the lobby of a side. -/
structure Shifts (x : Side) (d : Deed α) (m n : Machine α) : Prop where
  lt : d.thread < m.threads.length
  length : n.threads.length = m.threads.length
  post : d.point.post x = m.post x d.thread
  others : ∀ t, t ≠ d.thread → n.post x t = m.post x t
  shift : Shift d.thread (m.post x d.thread) (m.queue.lobby x) (n.post x d.thread)
    (n.queue.lobby x)

section

variable {q : Queue α} {programs : List (List (Call α))} {ds : List (Deed α)} {m n : Machine α}
  {d : Deed α} {c : Choice} {x : Side} {t : Nat} {disc : Discipline} {config : Config}
  {order : Side → Nat → Nat}

theorem post_launch (x : Side) (q : Queue α) (programs : List (List (Call α))) (t : Nat) :
    (launch q programs).post x t = .aside := by
  rw [post, launch, List.getElem?_map]
  cases programs[t]? <;> rfl

theorem post_of_length_le (h : m.threads.length ≤ t) : m.post x t = .aside := by
  rw [post, List.getElem?_eq_none h]
  rfl

/-- One thread weighs at most as much as all. -/
theorem le_tally {f : Post → Nat} (hf : f .aside = 0) (t : Nat) :
    f (m.post x t) ≤ m.tally x f :=
  le_sum_range (f := fun t => f (m.post x t)) (fun t ht => by rw [post_of_length_le ht, hf]) t

theorem tally_le_length {f : Post → Nat} (hf : ∀ p, f p ≤ 1) : m.tally x f ≤ m.threads.length :=
  sum_range_le (fun _ => hf _) _

theorem tally_le_tally {f g : Post → Nat} (h : ∀ p, f p ≤ g p) : m.tally x f ≤ m.tally x g :=
  Finset.sum_le_sum fun _ _ => h _

theorem Shifts.prepares (h : Shifts x d m n) : d.prepares x = (m.post x d.thread).prepares :=
  congrArg Post.prepares h.post

theorem Shifts.unparks (h : Shifts x d m n) : d.unparks x = (m.post x d.thread).unparks :=
  congrArg Post.unparks h.post

theorem Shifts.epoch (h : Shifts x d m n) : (n.queue.permits x).parker.epoch =
    if d.unparks x then ((m.queue.permits x).parker.epoch + 1) % Parker.epochs
    else (m.queue.permits x).parker.epoch := by
  rw [h.unparks]
  exact h.shift.epoch

theorem Shifts.tally (h : Shifts x d m n) (f : Post → Nat) :
    n.tally x f + f (m.post x d.thread) = m.tally x f + f (n.post x d.thread) := by
  rw [Machine.tally, Machine.tally, h.length]
  exact sum_range_of_others f h.lt h.others

/-! ### Runs -/

/-- Each thread stands at a point of the operation that its call asks for. -/
theorem Run.proper (h : Run (launch q programs) ds m) {thread : Thread α} {call : Call α}
    {calls : List (Call α)} (ht : m.threads[t]? = some thread)
    (hcs : thread.calls = call :: calls) : (thread.point.getD call.first).Proper call := by
  refine h.at_point (P := fun _ call p => p.Proper call) (fun _ => Call.proper_first)
    (fun _ _ _ _ _ _ _ _ _ hproper => hproper) (fun ds m n d c p _ hs hproper hr => ?_) ht hcs
  exact Point.proper_of_step hproper (hr ▸ act?_step hs)

/-- A producer that is about to be counted finds room on the count. -/
theorem Run.pending_lt (hq : create disc config order = .ok q) (hp : Respects disc programs)
    (hlen : programs.length < Word.size) (h : Run (launch q programs) ds m)
    (hs : m.act? c = some (d, n)) (hd : d.stage = .permitted) :
    m.queue.pending + 1 < Word.size := by
  have hl := h.leads hs
  have hcensus := hl.census Stage.counts
  have hmany := census_le_length (m := n) Stage.counts_le_one
  have hlength := hl.length.trans h.sane.length
  have hafter : (Stage.after d.next).counts = 1 := by
    have henters := hl.move.enters (h.not_aborts hq hp hs)
    rw [hd] at henters
    exact (henters.trans (Nat.zero_add _)).symm
  have hbefore : d.stage.counts = 0 := by rw [hd]; rfl
  rw [h.pending_eq hq hp hlen]
  omega

/-- **Every deed of a run is a shift on each side.** -/
theorem Run.shifts (hq : create disc config order = .ok q) (hp : Respects disc programs)
    (hlen : programs.length < Word.size) (h : Run (launch q programs) ds m)
    (hs : m.act? c = some (d, n)) (x : Side) : Shifts x d m n := by
  have hpending := h.pending_lt hq hp hlen hs
  obtain ⟨thread, call, calls, ht, hcs, r, q', hstep, rfl, rfl⟩ := act?_cases hs
  have hlt : c.thread < m.threads.length := (List.getElem?_eq_some_iff.mp ht).1
  have hbefore : (thread.point.getD call.first).post x = m.post x c.thread := by
    rw [Machine.post, ht]
    cases hpoint : thread.point with
    | none =>
      simp only [Option.elim, hpoint]
      exact call.post_first x
    | some p => simp only [Option.elim, hpoint, Option.getD_some]
  have hafter : postAfter x r =
      (⟨q', m.threads.set c.thread (thread.after call calls r)⟩ : Machine α).post x c.thread := by
    rw [Machine.post, List.getElem?_set_self hlt]
    cases r <;> rfl
  refine ⟨hlt, List.length_set, hbefore, fun t ht' => ?_, ?_⟩
  · rw [Machine.post, Machine.post, List.getElem?_set_ne (Ne.symm ht')]
  · rw [← hbefore, ← hafter]
    exact Point.shift_of_step (h.sane.apt ht hcs) (h.proper ht hcs) hpending hstep x

/-! ### Nobody sleeps in vain -/

/-- What holds of a side at every moment of a run. -/
structure Attended (x : Side) (ds : List (Deed α)) (m : Machine α) : Prop where
  /-- Whoever is on the list of sleepers fell asleep. -/
  asleep : ∀ s ∈ (m.queue.permits x).parker.sleepers, m.post x s.thread = .asleep
  /-- Nobody is on the list twice. -/
  nodup : ((m.queue.permits x).parker.sleepers.map Parker.Sleeper.thread).Nodup
  /-- The count of those who are parked is right. -/
  parked : (m.queue.permits x).parker.parked = m.tally x Post.parked
  /-- The epoch is one. -/
  epoch_lt : (m.queue.permits x).parker.epoch < Parker.epochs
  /-- The epoch has moved on from what a thread read as often as it was moved on. -/
  epoch : ∀ t e, (m.post x t).epoch? = some e →
    (m.queue.permits x).parker.epoch = (e + unparksSince x t ds) % Parker.epochs
  /-- As long as somebody sleeps, there is one on watch for each permit and each sleeper. -/
  enough : (m.queue.permits x).parker.sleepers ≠ [] →
    (m.queue.permits x).count + (m.queue.permits x).parker.sleepers.length ≤
      m.tally x Post.alert
  /-- As long as somebody sleeps in vain, there is one who will wake all. -/
  calling : (m.queue.permits x).parker.sleepers ≠ [] → m.queue.isOver x = true →
    0 < m.tally x Post.calling
  /-- After a thread has found no permit, each permit has one who will move the epoch on. -/
  missed : ∀ t, (m.post x t).hasMissed = true → unparksSince x t ds = 0 →
    (m.queue.permits x).count ≤ m.tally x Post.bringing
  /-- After a thread has found that waiting makes sense, whoever makes it senseless will move the
  epoch on. -/
  settled : ∀ t, (m.post x t).hasSettled = true → unparksSince x t ds = 0 →
    m.queue.isOver x = true → 0 < m.tally x Post.alarming

theorem attended_launch (hq : create disc config order = .ok q)
    (programs : List (List (Call α))) (x : Side) : Attended x [] (launch q programs) := by
  have hparker : (q.permits x).parker.sleepers = [] ∧ (q.permits x).parker.parked = 0 ∧
      (q.permits x).parker.epoch = 0 := by
    rw [eq_of_create hq]
    cases x <;> exact ⟨rfl, rfl, rfl⟩
  obtain ⟨hsleepers, hparked, hepoch⟩ := hparker
  have hpost := post_launch x q programs
  refine
    { asleep := fun s hs => ?_
      nodup := ?_
      parked := ?_
      epoch_lt := ?_
      epoch := fun t e he => ?_
      enough := fun h => absurd hsleepers h
      calling := fun h => absurd hsleepers h
      missed := fun t ht => ?_
      settled := fun t ht => ?_ }
  · rw [launch, hsleepers] at hs
    cases hs
  · rw [launch, hsleepers]
    exact List.nodup_nil
  · rw [launch, hparked]
    exact (Finset.sum_eq_zero fun t _ => by rw [← launch, hpost]; rfl).symm
  · rw [launch, hepoch]
    decide
  · rw [hpost] at he
    cases he
  · rw [hpost] at ht
    cases ht
  · rw [hpost] at ht
    cases ht

/-- No more threads are on the list than have fallen asleep. -/
theorem length_le_tally {l : List Parker.Sleeper} (ha : ∀ s ∈ l, m.post x s.thread = .asleep)
    (hn : (l.map Parker.Sleeper.thread).Nodup) : l.length ≤ m.tally x Post.sleeping := by
  have hone : ∀ t ∈ (l.map Parker.Sleeper.thread).toFinset, m.post x t = .asleep := by
    intro t ht
    obtain ⟨s, hs, rfl⟩ := List.mem_map.mp (List.mem_toFinset.mp ht)
    exact ha s hs
  calc l.length = (l.map Parker.Sleeper.thread).toFinset.card := by
        rw [List.toFinset_card_of_nodup hn, List.length_map]
    _ = ∑ t ∈ (l.map Parker.Sleeper.thread).toFinset, (m.post x t).sleeping := by
        rw [Finset.card_eq_sum_ones]
        exact Finset.sum_congr rfl fun t ht => by rw [hone t ht]; rfl
    _ ≤ m.tally x Post.sleeping := by
        refine Finset.sum_le_sum_of_subset fun t ht => Finset.mem_range.mpr ?_
        by_contra hlt
        have hpost := hone t ht
        rw [post_of_length_le (Nat.le_of_not_lt hlt)] at hpost
        cases hpost

theorem Attended.length_le (h : Attended x ds m) {f : Post → Nat}
    (hf : ∀ p : Post, p.sleeping ≤ f p) :
    (m.queue.permits x).parker.sleepers.length ≤ m.tally x f :=
  (length_le_tally h.asleep h.nodup).trans (tally_le_tally hf)

/-- As long as somebody sleeps, somebody is counted as parked. -/
theorem Attended.parked_ne_zero (h : Attended x ds m)
    (hs : (m.queue.permits x).parker.sleepers ≠ []) : (m.queue.permits x).parker.parked ≠ 0 := by
  have hle := h.length_le Post.sleeping_le_parked
  have hpos := List.length_pos_iff.mpr hs
  rw [h.parked]
  omega

/-- What a thread has found since the epoch was last moved on, it has found by this deed, or it was
found before. -/
theorem Shifts.found {f : Post → Bool} {P : Prop} (hs : Shifts x d m n)
    (hf : ∀ p, f p = true → p.hasMissed = true)
    (hkeep : f (n.post x d.thread) = true → f (m.post x d.thread) = true ∨ P) {t : Nat}
    (ht : f (n.post x t) = true) (hsince : unparksSince x t (ds ++ [d]) = 0) :
    P ∨ f (m.post x t) = true ∧ unparksSince x t ds = 0 ∧ (m.post x d.thread).unparks = false := by
  have key : f (m.post x t) = true →
      unparksSince x t ds = 0 ∧ (m.post x d.thread).unparks = false := by
    intro hbefore
    obtain ⟨e, he⟩ := Post.exists_epoch_of_hasMissed (hf _ hbefore)
    rw [unparksSince_concat ds fun hd => by
      rw [hs.prepares, hd, Post.prepares_of_epoch? he], hs.unparks] at hsince
    cases hu : (m.post x d.thread).unparks
    · rw [hu] at hsince
      exact ⟨hsince, rfl⟩
    · rw [hu] at hsince
      cases hsince
  by_cases hd : t = d.thread
  · subst hd
    rcases hkeep ht with hbefore | hnow
    · exact .inr ⟨hbefore, key hbefore⟩
    · exact .inl hnow
  · rw [hs.others t hd] at ht
    exact .inr ⟨ht, key ht⟩

section Step

variable (hs : Shifts x d m n) (h : Attended x ds m)
include hs h

theorem Attended.asleep_step :
    ∀ s ∈ (n.queue.permits x).parker.sleepers, n.post x s.thread = .asleep := by
  intro s hmem
  obtain ⟨ht, hp⟩ | ⟨hmem, hp⟩ := hs.shift.mem_sleepers hmem
  · rw [ht, hp]
  · have hasleep := h.asleep s hmem
    have hne : s.thread ≠ d.thread := by
      intro ht
      exact hp ht (ht ▸ hasleep)
    rw [hs.others s.thread hne, hasleep]

theorem Attended.nodup_step :
    ((n.queue.permits x).parker.sleepers.map Parker.Sleeper.thread).Nodup :=
  hs.shift.nodup h.nodup fun s hmem ht => ht ▸ h.asleep s hmem

theorem Attended.parked_step (hlen : m.threads.length < Word.size) :
    (n.queue.permits x).parker.parked = n.tally x Post.parked := by
  have hparked := h.parked
  have htally := hs.tally Post.parked
  have hle : (m.post x d.thread).parked ≤ m.tally x Post.parked := le_tally rfl d.thread
  have hmany : n.tally x Post.parked ≤ n.threads.length := tally_le_length Post.parked_le_one
  rw [hs.length] at hmany
  have hshift : (n.queue.permits x).parker.parked + (m.post x d.thread).parked =
      (m.queue.permits x).parker.parked + (n.post x d.thread).parked := by
    refine hs.shift.parked ?_ ?_
    · show (m.post x d.thread).parked ≤ (m.queue.permits x).parker.parked
      omega
    · show (m.queue.permits x).parker.parked + (n.post x d.thread).parked <
        Word.size + (m.post x d.thread).parked
      omega
  omega

theorem Attended.epoch_step {t e : Nat} (he : (n.post x t).epoch? = some e) :
    (n.queue.permits x).parker.epoch = (e + unparksSince x t (ds ++ [d])) % Parker.epochs := by
  by_cases ht : d.thread = t
  · subst ht
    obtain ⟨hunparks, hread⟩ := hs.shift.epoch? he
    rw [← hs.unparks] at hunparks
    rw [hs.epoch, hunparks]
    rcases hread with ⟨hseeks, he⟩ | hold
    · -- the thread has read the epoch just now
      rw [unparksSince_concat_of_prepares ds rfl (by rw [hs.prepares, hseeks]; rfl), he]
      exact (Nat.mod_eq_of_lt h.epoch_lt).symm
    · rw [unparksSince_concat ds fun _ => by rw [hs.prepares, Post.prepares_of_epoch? hold],
        hunparks]
      exact h.epoch _ _ hold
  · rw [hs.others t (Ne.symm ht)] at he
    rw [unparksSince_concat ds fun hd => absurd hd ht, hs.epoch, h.epoch t e he]
    cases d.unparks x
    · rfl
    · exact Nat.mod_add_mod _ _ _

theorem Attended.missed_step {t : Nat} (ht : (n.post x t).hasMissed = true)
    (hsince : unparksSince x t (ds ++ [d]) = 0) :
    (n.queue.permits x).count ≤ n.tally x Post.bringing := by
  rcases hs.found (fun _ => id) hs.shift.hasMissed ht hsince with hzero | ⟨ht, hsince, hunparks⟩
  · have hzero : (n.queue.permits x).count = 0 := hzero
    omega
  · have hshift : (n.queue.permits x).count + (m.post x d.thread).bringing ≤
        (m.queue.permits x).count + (n.post x d.thread).bringing := hs.shift.bringing hunparks
    have hbefore := h.missed t ht hsince
    have htally := hs.tally Post.bringing
    omega

theorem Attended.settled_step {t : Nat} (ht : (n.post x t).hasSettled = true)
    (hsince : unparksSince x t (ds ++ [d]) = 0) (ho : n.queue.isOver x = true) :
    0 < n.tally x Post.alarming := by
  rcases hs.found (fun _ => Post.hasMissed_of_hasSettled) hs.shift.hasSettled ht hsince with
    hopen | ⟨ht, hsince, hunparks⟩
  · have hopen : n.queue.isOver x = false := hopen
    rw [hopen] at ho
    cases ho
  · rcases hs.shift.alarming hunparks ho with hnow | ⟨hover, hle⟩
    · exact hnow.trans_le (le_tally rfl d.thread)
    · have hbefore := h.settled t ht hsince hover
      have htally := hs.tally Post.alarming
      omega

/-- A thread falls asleep where nobody sleeps. The epoch that it read is still the epoch, and it was
not moved on in the meantime, so what the thread has found holds. -/
theorem Attended.dozed (hl : (m.queue.permits x).parker.sleepers = [])
    (hl' : (n.queue.permits x).parker.sleepers ≠ [])
    (htimely : d.parks x = true → unparksSince x d.thread ds < Parker.epochs) :
    ∃ e, m.post x d.thread = .dozing e ∧ n.post x d.thread = .asleep ∧
      n.queue.lobby x =
        (m.queue.lobby x).setParker ((m.queue.permits x).parker.doze d.thread e) ∧
      unparksSince x d.thread ds = 0 := by
  obtain ⟨hbefore, hafter, hlobby⟩ := hs.shift.dozed hl hl'
  refine ⟨_, hbefore, hafter, hlobby, ?_⟩
  have hlt := htimely (by rw [Deed.parks, hs.post, hbefore]; rfl)
  have hepoch := h.epoch d.thread _ (by rw [hbefore]; rfl)
  have hepoch_lt := h.epoch_lt
  by_contra hne
  exact Storage.add_mod_ne (k := (m.queue.permits x).parker.epoch) (Nat.pos_of_ne_zero hne) hlt
    (by rw [Nat.add_zero, Nat.mod_eq_of_lt hepoch_lt]; exact hepoch)

theorem Attended.enough_step (hl' : (n.queue.permits x).parker.sleepers ≠ [])
    (htimely : d.parks x = true → unparksSince x d.thread ds < Parker.epochs) :
    (n.queue.permits x).count + (n.queue.permits x).parker.sleepers.length ≤
      n.tally x Post.alert := by
  have htally := hs.tally Post.alert
  by_cases hl : (m.queue.permits x).parker.sleepers = []
  · obtain ⟨e, hbefore, hafter, hlobby, hsince⟩ := h.dozed hs hl hl' htimely
    have hpermits : n.queue.permits x = _ := congrArg Lobby.permits hlobby
    have hmissed := h.missed d.thread (by rw [hbefore]; rfl) hsince
    have hbringing : m.tally x Post.bringing ≤ m.tally x Post.alert :=
      tally_le_tally Post.bringing_le_alert
    rw [hbefore, hafter] at htally
    rw [hpermits]
    simp only [Lobby.setParker, Parker.doze, hl, List.nil_append, List.length_singleton]
    show (m.queue.permits x).count + 1 ≤ _
    simp only [Post.alert] at htally
    omega
  · have henough := h.enough hl
    rcases hs.shift.enough (h.parked_ne_zero hl) hl' with hzero | hle
    · have hzero : (n.queue.permits x).count = 0 := hzero
      have hle := (length_le_tally (h.asleep_step hs) (h.nodup_step hs)).trans
        (tally_le_tally Post.sleeping_le_alert)
      omega
    · change (n.queue.permits x).count + (n.queue.permits x).parker.sleepers.length + _ ≤
        (m.queue.permits x).count + (m.queue.permits x).parker.sleepers.length + _ at hle
      omega

theorem Attended.calling_step (hl' : (n.queue.permits x).parker.sleepers ≠ [])
    (ho : n.queue.isOver x = true)
    (htimely : d.parks x = true → unparksSince x d.thread ds < Parker.epochs) :
    0 < n.tally x Post.calling := by
  have htally := hs.tally Post.calling
  by_cases hl : (m.queue.permits x).parker.sleepers = []
  · obtain ⟨e, hbefore, hafter, hlobby, hsince⟩ := h.dozed hs hl hl' htimely
    have hover : n.queue.isOver x = m.queue.isOver x := congrArg Lobby.vain hlobby
    have hsettled := h.settled d.thread (by rw [hbefore]; rfl) hsince (hover ▸ ho)
    have halarming : m.tally x Post.alarming ≤ m.tally x Post.calling :=
      tally_le_tally Post.alarming_le_calling
    rw [hbefore, hafter] at htally
    simp only [Post.calling] at htally
    omega
  · rcases hs.shift.calling (h.parked_ne_zero hl) hl' ho with hnow | ⟨hover, hle⟩
    · exact hnow.trans_le (le_tally rfl d.thread)
    · have hcalling := h.calling hl hover
      omega

/-- **A deed keeps a side attended.** -/
theorem Attended.step (hlen : m.threads.length < Word.size)
    (htimely : d.parks x = true → unparksSince x d.thread ds < Parker.epochs) :
    Attended x (ds ++ [d]) n where
  asleep := h.asleep_step hs
  nodup := h.nodup_step hs
  parked := h.parked_step hs hlen
  epoch_lt := by
    rw [hs.epoch]
    split
    · exact Nat.mod_lt _ (by decide)
    · exact h.epoch_lt
  epoch _ _ := h.epoch_step hs
  enough hl := h.enough_step hs hl htimely
  calling hl ho := h.calling_step hs hl ho htimely
  missed _ := h.missed_step hs
  settled _ := h.settled_step hs

end Step

/-- **Every side is attended at every moment of every run**, as long as no epoch comes round while a
thread is on its way to fall asleep with it. -/
theorem Run.attended (hq : create disc config order = .ok q) (hp : Respects disc programs)
    (hlen : programs.length < Word.size) (h : Run (launch q programs) ds m) (ht : Timely ds)
    (x : Side) : Attended x ds m := by
  induction h with
  | refl => exact attended_launch hq programs x
  | @step ds m n d c hr hs ih =>
    refine (ih (ht.mono (List.prefix_append ds [d]))).step (hr.shifts hq hp hlen hs x) ?_ ?_
    · rwa [hr.sane.length]
    · exact ht x ds d (List.prefix_refl _)

end

end Machine

end PermitRing.Queue
