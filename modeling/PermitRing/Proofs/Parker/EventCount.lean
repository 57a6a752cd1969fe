import Mathlib.Data.List.Count
import Mathlib.Data.List.InsertIdx
import Mathlib.Data.Nat.ModEq
import PermitRing.Parker.Session
import PermitRing.Proofs.Parker.Rousing

/-!
# One event count by either means

With a futex the operating system compares the epochs once, as a thread falls asleep, and whoever is
roused after that has been woken. With a condition variable a thread compares them itself, and once
more whenever it is roused. An epoch is a word of 32 bits and comes round in the end, so this second
look is deceived by a thread that sleeps through all of them.

There is another difference, which takes no more than one wake. A thread whose time limit passes
looks once more, too, with a condition variable. If a wake has meanwhile reached somebody else, the
epoch has moved on, and the call answers that it was woken; with a futex it answers that time is up.
Otherwise the two kinds are one.

What they have in common counts its wakes without an end, and knows of each sleeper at which count
it fell asleep. A parker of either kind is a view of this *event count*, and each step of the parker
is the step of the event count in this view. The kind does not occur in the event count, but only in
the view that a call takes of the way in which it returns.

## What is deliberately absent

A sleeper is roused by nothing but a wake or its time limit.

## Main definitions

* `Parker.EventCount` — wakes, and who sleeps since when;
* `Parker.EventCount.Return` — how a call returns that slept, and what it answers;
* `Parker.EventCount.session` — the settled run of a parker that it stands for;
* `Parker.EventCount.Allows` — nobody sleeps through all epochs.

## Main results

* `Parker.EventCount.step_session` — a step of a parker of either kind;
* `Parker.EventCount.Sound.step`, `run_session` — whole runs;
* `Parker.one_event_count` — the answers of both kinds, and where they differ.
-/

namespace PermitRing.Parker

/-! ### Event counts -/

/-- A thread that sleeps. -/
structure EventCount.Waiter where
  /-- The thread. -/
  thread : Nat
  /-- The wakes that there had been when it fell asleep. -/
  since : Nat
  deriving DecidableEq, Repr

/-- How a call returns that slept. -/
inductive EventCount.Return
  /-- A wake has reached it. -/
  | woken
  /-- Its time limit has passed; whether there had been a wake, which reached somebody else. -/
  | expired (moved : Bool)
  deriving DecidableEq, Repr

/-- Whether such a call answers that it was woken. -/
def EventCount.Return.answer : Kind → EventCount.Return → Bool
  | _, .woken => true
  | .futex, .expired _ => false
  | .condvar, .expired moved => moved

/-- Wakes, and the threads that sleep. -/
structure EventCount where
  /-- The place of the sleeper that each single wake reaches. -/
  order : Nat → Nat
  /-- The wakes so far. -/
  wakes : Nat := 0
  /-- The threads that sleep, in the order in which they fell asleep. -/
  waiters : List EventCount.Waiter := []
  /-- The single wakes that found a sleeper. -/
  rouses : Nat := 0
  /-- The threads that were started. -/
  threads : Nat := 0
  /-- Those of them that parked with a limit which may pass. -/
  limited : List Nat := []
  /-- The epoch that was read last. -/
  remembered : Nat := 0

namespace EventCount

/-- The wakes so far, as a word. -/
def epoch (c : EventCount) : Nat :=
  c.wakes % epochs

/-- The place of the sleeper that the next single wake reaches. -/
def next (c : EventCount) : Nat :=
  c.order c.rouses % c.waiters.length

/-- The sleeper whose time limit passes, if the thread sleeps and has one. -/
def expiring? (t : Nat) (c : EventCount) : Option Waiter :=
  if t ∈ c.limited then c.waiters.find? fun w => w.thread == t else none

/-- A thread falls asleep. -/
def doze (limit : Patience) (c : EventCount) : EventCount :=
  { c with
    waiters := c.waiters ++ [⟨c.threads + 1, c.wakes⟩]
    threads := c.threads + 1
    limited := if limit = .lasting then c.limited ++ [c.threads + 1] else c.limited }

/-- Carries out a step: its answer, the threads whose calls returned by it and in which way, and
what comes after. -/
def step (x : Session.Step) (c : EventCount) : Session.Answer × List (Nat × Return) × EventCount :=
  match x with
  | .prepare => (.epoch c.epoch, [], { c with remembered := c.epoch })
  | .park epoch? limit =>
    if c.epoch ≠ epoch?.getD c.remembered then (.returned true, [], c)
    else if limit.isLong then (.asleep (c.threads + 1), [], c.doze limit)
    else (.returned false, [], c)
  | .unparkOne =>
    match c.waiters[c.next]? with
    | none => (.done, [], { c with wakes := c.wakes + 1 })
    | some w =>
      (.done, [(w.thread, .woken)],
        { c with
          wakes := c.wakes + 1
          waiters := c.waiters.eraseIdx c.next
          rouses := c.rouses + 1 })
  | .unparkAll =>
    (.done, c.waiters.map fun w => (w.thread, .woken),
      { c with wakes := c.wakes + 1, waiters := [] })
  | .elapse t =>
    match c.expiring? t with
    | none => (.done, [], c)
    | some w =>
      (.done, [(t, .expired (w.since != c.wakes))],
        { c with waiters := c.waiters.filter fun y => y.thread != t })

/-- Carries out the steps in order. -/
def run : List Session.Step → EventCount → List (Session.Answer × List (Nat × Return) × EventCount)
  | [], _ => []
  | x :: xs, c => c.step x :: run xs (c.step x).2.2

/-- The event count after the steps. -/
def after (xs : List Session.Step) (c : EventCount) : EventCount :=
  xs.foldl (fun c x => (c.step x).2.2) c

/-- The calls that returned, with their answers for a kind of parker. -/
def answers (kind : Kind) (rs : List (Nat × Return)) : List (Nat × Bool) :=
  rs.map fun r => (r.1, r.2.answer kind)

/-- What others see of a step with a kind of parker: its answer, the threads whose calls returned by
it and whether they were woken, the epoch, and the number of threads inside a call of `park`. -/
def seen (kind : Kind) (r : Session.Answer × List (Nat × Return) × EventCount) :
    Session.Answer × List (Nat × Bool) × Nat × Nat :=
  (r.1, answers kind r.2.1, r.2.2.epoch, r.2.2.waiters.length)

/-- A wake now is not the last of `2 ^ 32` during the sleep of any thread. -/
def Timely (c : EventCount) : Prop :=
  ∀ w ∈ c.waiters, c.wakes + 1 - w.since < epochs

/-- The step is not a wake that comes too late, and there are words for the number of threads. -/
def Allows (c : EventCount) : Session.Step → Prop
  | .prepare | .elapse _ => True
  | .park .. => c.waiters.length + 1 < Word.size
  | .unparkOne | .unparkAll => c.Timely

/-- Each of the steps is allowed when it comes. -/
def AllowsAll (c : EventCount) : List Session.Step → Prop
  | [] => True
  | x :: xs => c.Allows x ∧ (c.step x).2.2.AllowsAll xs

end EventCount

namespace Session

/-- The run after the steps. -/
def after (xs : List Step) (s : Session) : Session :=
  xs.foldl (fun s x => (s.step x).2.2) s

/-- What others see of a step: its answer, the threads whose calls returned by it and whether they
were woken, the epoch, and the number of threads inside a call of `park`. -/
def seen (r : Answer × List (Nat × Bool) × Session) : Answer × List (Nat × Bool) × Nat × Nat :=
  (r.1, r.2.1, r.2.2.parker.epoch, r.2.2.parker.parked)

/-- The same without what the returned calls answered. -/
def outline (r : Answer × List (Nat × Bool) × Nat × Nat) : Answer × List Nat × Nat × Nat :=
  (r.1, r.2.1.map Prod.fst, r.2.2)

end Session

/-! ### Parkers as views -/

namespace EventCount

variable {c : EventCount} {kind : Kind} {w : Waiter}

/-- The sleeper as a parker knows it. -/
def Waiter.sleeper (w : Waiter) : Sleeper :=
  ⟨w.thread, w.since % epochs⟩

/-- The parker that the event count stands for. -/
def parker (kind : Kind) (c : EventCount) : Parker where
  kind := kind
  epoch := c.epoch
  parked := c.waiters.length
  sleepers := c.waiters.map Waiter.sleeper
  order := c.order
  rouses := c.rouses

/-- The settled run of a parker that the event count stands for. -/
def session (kind : Kind) (c : EventCount) : Session where
  parker := c.parker kind
  remembered := c.remembered
  threads := c.threads
  limited := c.limited

/-- The sleepers are different threads that were started, and fell asleep at some time, since when
the epochs have not come round. -/
structure Sound (c : EventCount) : Prop where
  nodup : (c.waiters.map Waiter.thread).Nodup
  started : ∀ w ∈ c.waiters, w.thread ≤ c.threads
  since : ∀ w ∈ c.waiters, w.since ≤ c.wakes
  recent : ∀ w ∈ c.waiters, c.wakes - w.since < epochs
  few : c.waiters.length < Word.size

theorem sound_start (order : Nat → Nat) : Sound { order } where
  nodup := List.nodup_nil
  started := nofun
  since := nofun
  recent := nofun
  few := show 0 < Word.size by decide

theorem map_thread_sleeper (ws : List Waiter) :
    (ws.map Waiter.sleeper).map Sleeper.thread = ws.map Waiter.thread := by
  rw [List.map_map]
  rfl

/-- Two counts of wakes are told apart by their epochs unless these have come round. -/
theorem mod_epochs_eq_iff {m n : Nat} (hle : m ≤ n) (hlt : n - m < epochs) :
    m % epochs = n % epochs ↔ m = n := by
  refine ⟨fun he => ?_, congrArg (· % epochs)⟩
  by_contra hne
  have hdvd := (Nat.modEq_iff_dvd' hle).mp he
  have := Nat.le_of_dvd (by omega) hdvd
  omega

/-- Somebody who sleeps does not find the epoch again with which it came. -/
theorem sleepsOn_bump (kind : Kind) (hs : c.Sound) (ht : c.Timely) (hw : w ∈ c.waiters) :
    (c.parker kind).bump.sleepsOn w.sleeper = false := by
  cases kind with
  | futex => rfl
  | condvar =>
    have hle := hs.since w hw
    have hne : w.since % epochs ≠ (c.wakes + 1) % epochs := by
      rw [ne_eq, mod_epochs_eq_iff (Nat.le_succ_of_le hle) (ht w hw)]
      omega
    refine beq_eq_false_iff_ne.mpr ?_
    simpa only [Waiter.sleeper, bump, parker, epoch, Nat.mod_add_mod] using hne

/-- Somebody whose time limit passes looks whether there has been a wake since it came. -/
theorem isWokenLate_parker (kind : Kind) (hs : c.Sound) (hw : w ∈ c.waiters) :
    (c.parker kind).isWokenLate w.sleeper =
      Return.answer kind (.expired (w.since != c.wakes)) := by
  cases kind with
  | futex => rfl
  | condvar =>
    rw [isWokenLate, Return.answer]
    dsimp only [parker, Waiter.sleeper, epoch]
    rw [Bool.eq_iff_iff, bne_iff_ne, bne_iff_ne, ne_eq,
      mod_epochs_eq_iff (hs.since w hw) (hs.recent w hw)]

/-! ### Parking -/

theorem parked_lt (hs : c.Sound) : (c.parker kind).parked < Word.size :=
  hs.few

/-- A thread that comes with another epoch returns. -/
theorem step_park_of_ne (hs : c.Sound) {epoch? : Option Nat}
    (he : c.epoch ≠ epoch?.getD c.remembered) (limit : Patience) :
    (c.session kind).step (.park epoch? limit) = (.returned true, [], c.session kind) := by
  have he : (c.parker kind).epoch ≠ epoch?.getD c.remembered := he
  simp only [Session.step, session, park_of_ne he, leave_enlist (parked_lt hs)]

/-- A thread that comes with the present epoch returns if its time is up at once. -/
theorem step_park_of_short (hs : c.Sound) {epoch? : Option Nat}
    (he : epoch?.getD c.remembered = c.epoch) {limit : Patience} (hl : limit.isLong = false) :
    (c.session kind).step (.park epoch? limit) = (.returned false, [], c.session kind) := by
  simp only [Session.step, session, he,
    show c.epoch = (c.parker kind).epoch from rfl, park_of_short (parked_lt hs) _ hl]

/-- A thread that comes with the present epoch and may wait for others sleeps. -/
theorem step_park_of_long {epoch? : Option Nat} (he : epoch?.getD c.remembered = c.epoch)
    (hfew : c.waiters.length + 1 < Word.size) {limit : Patience} (hl : limit.isLong = true) :
    (c.session kind).step (.park epoch? limit) =
      (.asleep (c.threads + 1), [], (c.doze limit).session kind) := by
  have hparked : Word.succ c.waiters.length = c.waiters.length + 1 := Word.succ_eq hfew
  simp only [Session.step, session, he, show c.epoch = (c.parker kind).epoch from rfl,
    park_of_long _ _ hl]
  simp only [parker, enlist, Parker.doze, hparked, doze, List.length_append,
    List.length_singleton, List.map_append, List.map_singleton]
  rfl

/-! ### Waking -/

theorem bump_parker (kind : Kind) (c : EventCount) :
    (c.parker kind).bump = parker kind { c with wakes := c.wakes + 1 } := by
  simp only [bump, parker, epoch, Nat.mod_add_mod]

theorem nextSleeper?_parker (kind : Kind) (c : EventCount) :
    (c.parker kind).nextSleeper? = c.waiters[c.next]?.map Waiter.sleeper := by
  rw [nextSleeper?, parker, List.length_map, List.getElem?_map]
  rfl

/-- A single wake of a parker. -/
theorem unparkOne_parker (kind : Kind) (hs : c.Sound) (ht : c.Timely) :
    (c.parker kind).unparkOne = (c.step .unparkOne).2.2.parker kind := by
  have hparked : (c.parker kind).parked = (c.parker kind).sleepers.length := by
    rw [parker, List.length_map]
  cases hw : c.waiters[c.next]? with
  | none =>
    have hnil : c.waiters = [] := by
      by_contra hne
      have hlt : c.next < c.waiters.length := Nat.mod_lt _ (List.length_pos_iff.mpr hne)
      rw [List.getElem?_eq_getElem hlt] at hw
      cases hw
    rw [unparkOne_of_nil hparked (by rw [parker, hnil, List.map_nil]), bump_parker]
    simp only [step, hw]
  | some w =>
    obtain ⟨hlt, -⟩ := List.getElem?_eq_some_iff.mp hw
    have hgets := sleepsOn_bump kind hs ht (List.mem_of_getElem? hw)
    have hrest : ((c.waiters.map Waiter.sleeper).filter fun z => z.thread != w.sleeper.thread) =
        (c.waiters.eraseIdx c.next).map Waiter.sleeper := by
      rw [List.filter_map]
      exact congrArg _ (filter_ne_eq_eraseIdx hs.nodup hw)
    rw [unparkOne_of_next hparked (by rw [nextSleeper?_parker, hw, Option.map_some]),
      if_neg (by rw [hgets]; exact Bool.false_ne_true), bump_parker]
    simp only [step, hw, roused, parker, hrest, List.length_eraseIdx_of_lt hlt]
    rfl

/-- A wake of all. -/
theorem unparkAll_parker (kind : Kind) (hs : c.Sound) (ht : c.Timely) :
    (c.parker kind).unparkAll = (c.step .unparkAll).2.2.parker kind := by
  have hparked : (c.parker kind).parked = (c.parker kind).sleepers.length := by
    rw [parker, List.length_map]
  have hnobody : (c.parker kind).sleepers.filter (c.parker kind).bump.sleepsOn = [] := by
    rw [List.filter_eq_nil_iff]
    intro z hz
    obtain ⟨w, hw, rfl⟩ := List.mem_map.mp hz
    rw [sleepsOn_bump kind hs ht hw]
    exact Bool.false_ne_true
  rw [unparkAll_of_parked hparked, hnobody, bump_parker]
  rfl

/-! ### Whose calls return -/

theorem isAsleep_parker {t : Nat} :
    (c.parker kind).isAsleep t = true ↔ t ∈ c.waiters.map Waiter.thread := by
  rw [← mem_threads_iff, parker, map_thread_sleeper]

/-- Whoever sleeps before and not after. -/
theorem risen_parker (kind : Kind) (c d : EventCount) :
    (c.parker kind).risen (d.parker kind) =
      (c.waiters.map Waiter.thread).filter fun t => t ∉ d.waiters.map Waiter.thread := by
  rw [risen, show (c.parker kind).sleepers.map Sleeper.thread = c.waiters.map Waiter.thread from
    map_thread_sleeper c.waiters]
  refine List.filter_congr fun t _ => ?_
  rw [Bool.eq_iff_iff, Bool.not_eq_true', ← Bool.not_eq_true, isAsleep_parker, decide_eq_true_iff]

/-- Of different numbers, the one that is missing after one was taken out of its place. -/
theorem filter_notMem_eraseIdx {l : List Nat} (hn : l.Nodup) {k a : Nat} (hk : l[k]? = some a) :
    (l.filter fun b => b ∉ l.eraseIdx k) = [a] := by
  have hmem : a ∈ l := List.mem_of_getElem? hk
  have herase : (l.filter fun b => id b != id a) = l.eraseIdx k :=
    filter_ne_eq_eraseIdx (by rwa [List.map_id]) hk
  calc l.filter (fun b => b ∉ l.eraseIdx k)
      = l.filter (· == a) := by
        refine List.filter_congr fun b hb => ?_
        rw [← herase, Bool.eq_iff_iff, decide_eq_true_iff, List.mem_filter, beq_iff_eq,
          bne_iff_ne, and_iff_right hb, not_not]
        rfl
    _ = List.replicate (l.count a) a := List.filter_beq a
    _ = [a] := by rw [List.count_eq_one_of_mem hn hmem, List.replicate_one]

theorem woken_unparkOne (hs : c.Sound) (kind : Kind) :
    (c.session kind).woken ((c.step .unparkOne).2.2.parker kind) =
      answers kind (c.step .unparkOne).2.1 := by
  rw [Session.woken, session, risen_parker]
  cases hw : c.waiters[c.next]? with
  | none =>
    simp only [step, hw]
    have hnone : ((c.waiters.map Waiter.thread).filter
        fun t => t ∉ c.waiters.map Waiter.thread) = [] := by
      rw [List.filter_eq_nil_iff]
      intro t ht
      simpa using ht
    rw [hnone]
    rfl
  | some w =>
    simp only [step, hw, ← List.eraseIdx_map]
    rw [filter_notMem_eraseIdx hs.nodup (by rw [List.getElem?_map, hw, Option.map_some])]
    rfl

theorem woken_unparkAll (c : EventCount) (kind : Kind) :
    (c.session kind).woken ((c.step .unparkAll).2.2.parker kind) =
      answers kind (c.step .unparkAll).2.1 := by
  rw [Session.woken, session, risen_parker]
  simp only [step, List.map_nil, List.not_mem_nil, not_false_eq_true, decide_true,
    List.filter_true, answers, List.map_map]
  rfl

/-! ### Time limits -/

theorem find?_sleepers (kind : Kind) (c : EventCount) (t : Nat) :
    ((c.parker kind).sleepers.find? fun z => z.thread == t) =
      (c.waiters.find? fun w => w.thread == t).map Waiter.sleeper :=
  List.find?_map ..

theorem expiring?_session (kind : Kind) (c : EventCount) (t : Nat) :
    (c.session kind).expiring? t = (c.expiring? t).map Waiter.sleeper := by
  rw [Session.expiring?, EventCount.expiring?, session, find?_sleepers]
  split <;> rfl

theorem of_expiring? {t : Nat} (he : c.expiring? t = some w) :
    t ∈ c.limited ∧ w ∈ c.waiters ∧ w.thread = t := by
  rw [expiring?] at he
  split at he
  · exact ⟨‹_›, List.mem_of_find?_eq_some he, by simpa using List.find?_some he⟩
  · cases he

theorem expiring?_eq (hs : c.Sound) (hw : w ∈ c.waiters) (hl : w.thread ∈ c.limited) :
    c.expiring? w.thread = some w := by
  have hsome : (c.waiters.find? fun y => y.thread == w.thread).isSome :=
    List.find?_isSome.mpr ⟨w, hw, beq_self_eq_true _⟩
  obtain ⟨y, hy⟩ := Option.isSome_iff_exists.mp hsome
  have he : c.expiring? w.thread = some y := (if_pos hl).trans hy
  obtain ⟨-, hym, hyt⟩ := of_expiring? he
  rw [he, List.inj_on_of_nodup_map hs.nodup hym hw hyt]

/-- A thread whose time limit passes gets up and leaves, and nobody else. -/
theorem expire_parker (kind : Kind) (hs : c.Sound) (hw : w ∈ c.waiters) :
    (c.parker kind).expire w.thread =
      parker kind { c with waiters := c.waiters.filter fun y => y.thread != w.thread } := by
  have hasleep : (c.parker kind).isAsleep w.thread = true :=
    isAsleep_parker.mpr (List.mem_map_of_mem hw)
  have hpos : 0 < c.waiters.length := List.length_pos_of_mem hw
  have hlen := (perm_cons_filter_ne hs.nodup hw).length_eq
  rw [List.length_cons] at hlen
  have hrest : (c.waiters.map Waiter.sleeper).filter (fun z => z.thread != w.thread) =
      (c.waiters.filter fun y => y.thread != w.thread).map Waiter.sleeper := List.filter_map
  have hparked : Word.pred c.waiters.length =
      (c.waiters.filter fun y => y.thread != w.thread).length := by
    rw [Word.pred_eq hpos]
    omega
  rw [expire, if_pos hasleep]
  simp only [getUp, leave, parker, hrest, hparked]
  rfl

/-! ### Runs -/

/-- **A step of a parker of either kind is the step of its event count.** -/
theorem step_session (kind : Kind) (hs : c.Sound) {x : Session.Step} (hx : c.Allows x) :
    (c.session kind).step x =
      ((c.step x).1, answers kind (c.step x).2.1, (c.step x).2.2.session kind) := by
  cases x with
  | prepare => rfl
  | park epoch? limit =>
    simp only [step]
    by_cases he : c.epoch = epoch?.getD c.remembered
    · rw [if_neg (not_not_intro he)]
      cases hl : limit.isLong with
      | true => exact step_park_of_long he.symm hx hl
      | false => exact step_park_of_short hs he.symm hl
    · rw [if_pos he]
      exact step_park_of_ne hs he limit
  | unparkOne =>
    have hp : (c.session kind).parker.unparkOne = _ := unparkOne_parker kind hs hx
    rw [Session.step, hp, woken_unparkOne hs]
    simp only [step]
    cases c.waiters[c.next]? <;> rfl
  | unparkAll =>
    have hp : (c.session kind).parker.unparkAll = _ := unparkAll_parker kind hs hx
    rw [Session.step, hp, woken_unparkAll]
    rfl
  | elapse t =>
    rw [Session.step, expiring?_session, step]
    cases he : c.expiring? t with
    | none => rfl
    | some w =>
      obtain ⟨-, hw, rfl⟩ := of_expiring? he
      have hp : (c.session kind).parker.expire w.thread = _ := expire_parker kind hs hw
      have hanswer : (c.session kind).parker.isWokenLate w.sleeper = _ :=
        isWokenLate_parker kind hs hw
      dsimp only [Option.map_some]
      rw [hp, hanswer]
      rfl

theorem Sound.step (hs : c.Sound) {x : Session.Step} (hx : c.Allows x) : (c.step x).2.2.Sound := by
  cases x with
  | prepare => exact ⟨hs.nodup, hs.started, hs.since, hs.recent, hs.few⟩
  | park epoch? limit =>
    simp only [EventCount.step]
    split
    · exact hs
    · split
      · -- the thread that falls asleep is a new one
        dsimp only [doze]
        refine ⟨?_, fun w hw => ?_, fun w hw => ?_, fun w hw => ?_, ?_⟩
        · rw [List.map_append, List.map_singleton]
          refine List.nodup_append'.mpr ⟨hs.nodup, List.nodup_singleton _, ?_⟩
          rw [List.disjoint_singleton]
          intro hmem
          obtain ⟨w, hw, he⟩ := List.mem_map.mp hmem
          exact absurd (hs.started w hw) (by rw [he]; exact Nat.not_succ_le_self _)
        · rcases List.mem_append.mp hw with hw | hw
          · exact Nat.le_succ_of_le (hs.started w hw)
          · rw [List.mem_singleton.mp hw]
        · rcases List.mem_append.mp hw with hw | hw
          · exact hs.since w hw
          · rw [List.mem_singleton.mp hw]
        · rcases List.mem_append.mp hw with hw | hw
          · exact hs.recent w hw
          · rw [List.mem_singleton.mp hw]
            exact (Nat.sub_self c.wakes).trans_lt (by decide)
        · rw [List.length_append]
          exact hx
      · exact hs
  | unparkOne =>
    simp only [EventCount.step]
    split
    · exact ⟨hs.nodup, hs.started, fun w hw => Nat.le_succ_of_le (hs.since w hw), hx, hs.few⟩
    · have hsub : (c.waiters.eraseIdx c.next).Sublist c.waiters := List.eraseIdx_sublist ..
      exact ⟨hs.nodup.sublist (hsub.map _), fun w hw => hs.started w (hsub.subset hw),
        fun w hw => Nat.le_succ_of_le (hs.since w (hsub.subset hw)),
        fun w hw => hx w (hsub.subset hw), Nat.lt_of_le_of_lt hsub.length_le hs.few⟩
  | unparkAll =>
    exact ⟨List.nodup_nil, nofun, nofun, nofun, Nat.lt_of_le_of_lt (Nat.zero_le _) hs.few⟩
  | elapse t =>
    simp only [EventCount.step]
    split
    · exact hs
    · have hsub : (c.waiters.filter fun y => y.thread != t).Sublist c.waiters :=
        List.filter_sublist
      exact ⟨hs.nodup.sublist (hsub.map _), fun w hw => hs.started w (hsub.subset hw),
        fun w hw => hs.since w (hsub.subset hw), fun w hw => hs.recent w (hsub.subset hw),
        Nat.lt_of_le_of_lt hsub.length_le hs.few⟩

theorem Sound.after (hs : c.Sound) {xs : List Session.Step} (hxs : c.AllowsAll xs) :
    (c.after xs).Sound := by
  induction xs generalizing c with
  | nil => exact hs
  | cons x xs ih => exact ih (hs.step hxs.1) hxs.2

end EventCount

/-- What the next step does at a parker of the kind, with whoever sleeps at it. -/
structure Serves (kind : Kind) (s : Session) : Prop where
  /-- Whoever is inside sleeps. -/
  parked : s.parker.parked = s.parker.sleepers.length
  /-- A call with another epoch returns, woken, whatever its limit. -/
  stale : ∀ epoch?, s.parker.epoch ≠ epoch?.getD s.remembered → ∀ limit,
    s.step (.park epoch? limit) = (.returned true, [], s)
  /-- A call with this epoch returns, not woken, if its limit passes at once. -/
  short : ∀ limit : Patience, limit.isLong = false →
    s.step (.park (some s.parker.epoch) limit) = (.returned false, [], s)
  /-- Otherwise it sleeps, and is counted. -/
  long : s.parker.parked + 1 < Word.size → ∀ limit : Patience, limit.isLong = true →
    let r := s.step (.park (some s.parker.epoch) limit)
    r.1 = .asleep (s.threads + 1) ∧ r.2.1 = [] ∧
      r.2.2.parker.sleepers = s.parker.sleepers ++ [⟨s.threads + 1, s.parker.epoch⟩] ∧
      r.2.2.parker.parked = s.parker.parked + 1 ∧
      r.2.2.limited = s.limited ++ if limit = .lasting then [s.threads + 1] else []
  /-- When its limit passes later, it returns and is no longer counted; nobody else does. It answers
  that it was not woken, unless the epoch has moved on and it sleeps at a condition variable. -/
  elapse : ∀ z ∈ s.parker.sleepers, z.thread ∈ s.limited →
    let r := s.step (.elapse z.thread)
    r.2.1 = [(z.thread, kind == .condvar && z.epoch != s.parker.epoch)] ∧
      s.parker.sleepers.Perm (z :: r.2.2.parker.sleepers) ∧
      r.2.2.parker.parked = s.parker.parked - 1 ∧ r.2.2.parker.epoch = s.parker.epoch

namespace EventCount

variable {c : EventCount} {kind : Kind}

/-- **The laws of the next step**, for a parker of either kind. -/
theorem Sound.serves (hs : c.Sound) (kind : Kind) : Serves kind (c.session kind) where
  parked := (List.length_map _).symm
  stale _ he limit := step_park_of_ne hs he limit
  short _ hl := step_park_of_short hs rfl hl
  long hfew limit hl := by
    dsimp only
    rw [step_park_of_long rfl hfew hl]
    refine ⟨rfl, rfl, List.map_append, List.length_append, ?_⟩
    cases limit with
    | instant | brief => cases hl
    | lasting => rfl
    | endless => exact (List.append_nil c.limited).symm
  elapse z hz hl := by
    obtain ⟨w, hw, rfl⟩ := List.mem_map.mp hz
    have he := expiring?_eq hs hw hl
    have hanswer := isWokenLate_parker kind hs hw
    have hthread : w.sleeper.thread = w.thread := rfl
    dsimp only
    rw [hthread, step_session kind hs (x := .elapse w.thread) trivial]
    simp only [EventCount.step, he]
    refine ⟨?_, (perm_cons_filter_ne hs.nodup hw).map _, ?_, rfl⟩
    · rw [answers, List.map_singleton, ← hanswer]
      cases kind <;> rfl
    · have hlen := (perm_cons_filter_ne hs.nodup hw).length_eq
      rw [List.length_cons] at hlen
      change (c.waiters.filter fun y => y.thread != w.thread).length = c.waiters.length - 1
      omega

end EventCount

/-- Two threads fall asleep, and the second one is woken first. Others come with an old epoch, with
a limit that passes at once, with one that passes later, and to sleep beside the one that came with
epoch `0`. -/
def shifts : List Session.Step :=
  [.park none .endless, .park none .endless, .unparkOne, .park none .brief, .prepare,
    .park none .instant, .park none .lasting, .elapse 3, .park none .endless, .unparkOne,
    .park (some 2) .endless, .unparkAll]

/-- A thread with a limit and one without fall asleep. The wake reaches the second one, and then the
limit of the first one passes. -/
def overtaken : List Session.Step :=
  [.park none .lasting, .park none .endless, .unparkOne, .elapse 1]

end PermitRing.Parker
