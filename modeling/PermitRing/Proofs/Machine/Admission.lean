import PermitRing.Proofs.Machine.Calls
import PermitRing.Proofs.Machine.Rest

/-!
# How producers are let in

A producer asks twice whether the queue is open: when it comes, and again when it has a permit and
is on the count. The second time decides. If the queue is open then, the producer is let in, and
what comes of its call lies with its job alone: it moves its element in and hands out a permit for
it, or its constructor fails. If it is not let in, it is turned down, and it has touched no slot,
has claimed no position and has handed back the permit that it may have had.

## Main definitions

* `Producing.Goes` — the steps of a producer, with its answers;
* `Deed.passes`, `Deed.constructs` — a producer is let in, and runs its constructor;
* `Deed.Spares` — a deed leaves the slots and the tail alone;
* `Job.outcome` — the answer of a producer that was let in;
* `PastCall.Admitted`, `PastCall.TurnedDown` — what comes of a producer that was let in, or not.

## Main results

* `Producing.goes_of_step` — every step of a producer is one of these;
* `Machine.Run.admitted_or_turnedDown` — every call of a producer that is over is one of the two.
-/

namespace PermitRing.Queue

variable {α : Type}

/-! ### Answers -/

/-- The answer of a producer that was let in. -/
def Job.outcome : Job α → Answer α
  | .value _ | .construction _ (.built _) => .done
  | .construction _ (.failed e) => .unbuilt (.failed e)
  | .construction _ (.raised text) => .faulted (.raised text)

/-- A producer that was let in is not turned down. -/
theorem Job.outcome_ne_refused (job : Job α) (r : Refusal) : job.outcome ≠ job.refused r := by
  cases job with
  | value v => nofun
  | construction fallible build => cases fallible <;> cases build <;> nofun

theorem Job.outcome_of_value? {job : Job α} {v : α} (h : job.value? = some v) :
    job.outcome = .done := by
  cases job with
  | value w => rfl
  | construction fallible build =>
    cases build with
    | built w => rfl
    | failed e | raised text => cases h

/-- The queue turns a producer down only because it is closed or full, or because the time is up. -/
inductive TurnsDown : Refusal → Prop
  | closed : TurnsDown .closed
  | full : TurnsDown .full
  | timedOut : TurnsDown .timedOut

/-! ### Steps of a producer -/

/-- The producer looks for a permit. -/
def Producing.Seeks : Producing α → Prop
  | .look _ | .wait _ => True
  | _ => False

/-- The steps of a producer, and what they come to. -/
inductive Producing.Goes (job : Job α) (q : Queue α) :
    Producing α → Progress (Producing α) (Answer α) → Prop
  /-- The queue is closed when it comes. -/
  | turnAway (ho : q.isOpen = false) : Goes job q .checkOpen (.done (job.refused .closed))
  /-- It begins to look for a permit. -/
  | start {p : Producing α} (ho : q.isOpen = true) (hp : p.Seeks) : Goes job q .checkOpen (.more p)
  /-- It looks for a permit. -/
  | seek {p p' : Producing α} (hp : p.Seeks) (hp' : p'.Seeks) : Goes job q p (.more p')
  /-- There is none for it. -/
  | giveUp {p : Producing α} {r : Refusal} (hp : p.Seeks) (hr : TurnsDown r) :
    Goes job q p (.done (job.refused r))
  /-- It takes a permit. -/
  | reserve {p : Producing α} (hp : p.Seeks) : Goes job q p (.more .enter)
  /-- It is counted. -/
  | enter : Goes job q .enter (.more .recheck)
  /-- The queue is closed when it asks again. -/
  | turnBack (ho : q.isOpen = false) :
    Goes job q .recheck (.more (.giveBack (job.refused .closed)))
  /-- It is let in with its element. -/
  | pass {v : α} (ho : q.isOpen = true) (hj : job = .value v) :
    Goes job q .recheck (.more (.claim v .start))
  /-- It is let in, and is to construct its element. -/
  | build {fallible : Bool} {build : Build α} (ho : q.isOpen = true)
    (hj : job = .construction fallible build) : Goes job q .recheck (.more .construct)
  /-- Its constructor has built the element. -/
  | built {v : α} (hv : job.value? = some v) : Goes job q .construct (.more (.claim v .start))
  /-- Its constructor has built none. -/
  | unbuilt (hv : job.value? = none) : Goes job q .construct (.more (.giveBack job.outcome))
  /-- It claims a position. -/
  | claim {v : α} {x y : Index.Claiming} : Goes job q (.claim v x) (.more (.claim v y))
  /-- It has a position. -/
  | gain {v : α} {x : Index.Claiming} {i : Nat} {w : Slot.Writing} :
    Goes job q (.claim v x) (.more (.write v i w))
  /-- It is at its slot. -/
  | write {v : α} {i : Nat} {w w' : Slot.Writing} :
    Goes job q (.write v i w) (.more (.write v i w'))
  /-- Its element is in the slot. -/
  | store {v : α} {i : Nat} {w : Slot.Writing} : Goes job q (.write v i w) (.more .give)
  /-- There is no position for it. -/
  | faultClaim {v : α} {x : Index.Claiming} {f : Fault} :
    Goes job q (.claim v x) (.done (.faulted f))
  /-- There is no slot for it. -/
  | faultWrite {v : α} {i : Nat} {w : Slot.Writing} {f : Fault} :
    Goes job q (.write v i w) (.done (.faulted f))
  /-- It hands out a permit for its element. -/
  | give {w : Permits.Waking} : Goes job q .give (.more (.wake w))
  /-- It wakes consumers. -/
  | wake {w w' : Permits.Waking} : Goes job q (.wake w) (.more (.wake w'))
  /-- It has woken consumers. -/
  | woken {w : Permits.Waking} : Goes job q (.wake w) (.more (.finish .done .count))
  /-- It hands its permit back. -/
  | giveBack {a : Answer α} {w : Permits.Waking} : Goes job q (.giveBack a) (.more (.wakeBack a w))
  /-- It wakes producers. -/
  | wakeBack {a : Answer α} {w w' : Permits.Waking} :
    Goes job q (.wakeBack a w) (.more (.wakeBack a w'))
  /-- It has woken producers. -/
  | wokenBack {a : Answer α} {w : Permits.Waking} :
    Goes job q (.wakeBack a w) (.more (.finish a .count))
  /-- It leaves. -/
  | finish {a : Answer α} {f f' : Finishing} : Goes job q (.finish a f) (.more (.finish a f'))
  /-- It has left. -/
  | finished {a : Answer α} {f : Finishing} : Goes job q (.finish a f) (.done a)

section Steps

variable {wait : Wait} {job : Job α} {c : Choice} {q q' : Queue α}
  {r : Progress (Producing α) (Answer α)}

theorem Producing.goes_of_wait {a : Awaiting} (hp : a.Apt)
    (h : Producing.step wait job c (.wait a) q = some (r, q')) : Goes job q (.wait a) r := by
  simp only [Producing.step] at h
  split at h
  · cases h
  · obtain ⟨⟨r', q''⟩, hs, he⟩ := Option.map_eq_some_iff.mp h
    obtain ⟨a', rfl, -⟩ | ⟨rfl, -⟩ | ⟨rfl, -⟩ | ⟨rfl, -⟩ := Awaiting.step_cases hp hs
    all_goals cases he
    · exact .seek trivial trivial
    · exact .reserve trivial
    · exact .giveUp trivial .closed
    · exact .giveUp trivial .timedOut

theorem Producing.goes_of_recheck (h : Producing.step wait job c .recheck q = some (r, q')) :
    Goes job q .recheck r := by
  simp only [Producing.step] at h
  split at h <;> rename_i ho
  · cases h
    exact .turnBack (by simpa using ho)
  · have ho : q.isOpen = true := by simpa using ho
    split at h <;> cases h
    · exact .pass ho rfl
    · exact .build ho rfl

theorem Producing.goes_of_construct (h : Producing.step wait job c .construct q = some (r, q')) :
    Goes job q .construct r := by
  cases job with
  | value v =>
    cases h
    exact .built rfl
  | construction fallible build =>
    cases build with
    | built v =>
      cases h
      exact .built rfl
    | failed e | raised text =>
      cases h
      exact .unbuilt rfl

/-- **Every step of a producer is one of these.** -/
theorem Producing.goes_of_step {p : Producing α} (hp : p.Apt)
    (h : p.step wait job c q = some (r, q')) : p.Goes job q r := by
  cases p with
  | checkOpen =>
    simp only [Producing.step] at h
    split at h <;> rename_i ho
    · cases h
      exact .turnAway (by simpa using ho)
    · have ho : q.isOpen = true := by simpa using ho
      split at h <;> cases h <;> exact .start ho trivial
  | look p =>
    obtain ⟨n, hn, hs⟩ | ⟨hk, hs⟩ | ⟨-, hs⟩ := stepTaking_cases .produce c hp q Producing.look
      fun b => if b then .more .enter else .done (job.refused .full)
    all_goals
      rw [Producing.step, hs] at h
      cases h
    · exact .seek trivial trivial
    · exact .reserve trivial
    · exact .giveUp trivial .full
  | wait a => exact goes_of_wait hp h
  | enter =>
    cases h
    exact .enter
  | recheck => exact goes_of_recheck h
  | construct => exact goes_of_construct h
  | claim v x =>
    simp only [Producing.step] at h
    split at h <;> cases h
    · exact .claim
    · exact .gain
    · exact .faultClaim
  | write v i w =>
    simp only [Producing.step] at h
    split at h
    · cases h
      exact .faultWrite
    · split at h <;> cases h
      · exact .write
      · exact .store
  | give =>
    cases h
    exact .give
  | wake w =>
    obtain ⟨k, ⟨w', hs⟩ | hs⟩ := stepWaking_cases .consume false w q Producing.wake
      (.more (.finish .done .count))
    all_goals
      rw [Producing.step, hs] at h
      cases h
    · exact .wake
    · exact .woken
  | giveBack a =>
    cases h
    exact .giveBack
  | wakeBack a w =>
    obtain ⟨k, ⟨w', hs⟩ | hs⟩ := stepWaking_cases .produce false w q (Producing.wakeBack a)
      (.more (.finish a .count))
    all_goals
      rw [Producing.step, hs] at h
      cases h
    · exact .wakeBack
    · exact .wokenBack
  | finish a f =>
    simp only [Producing.step] at h
    split at h <;> cases h
    · exact .finish
    · exact .finished

end Steps

/-! ### Let in, or not -/

/-- The producer was let in; its answer, where it has one, is that of its job. -/
def Job.Past (job : Job α) : Progress (Producing α) (Answer α) → Prop
  | .more .construct => True
  | .more (.claim ..) | .more (.write ..) | .more .give | .more (.wake _) => job.outcome = .done
  | .more (.giveBack a) | .more (.wakeBack a _) | .more (.finish a _) | .done a => a = job.outcome
  | _ => False

/-- The producer has not been let in; its answer, where it has one, is that it is turned down, and
that the queue is closed if it had a permit. -/
def Job.Fore (job : Job α) : Progress (Producing α) (Answer α) → Prop
  | .more .construct | .more (.claim ..) | .more (.write ..) | .more .give | .more (.wake _) =>
    False
  | .more (.giveBack a) | .more (.wakeBack a _) | .more (.finish a _) => a = job.refused .closed
  | .done a => ∃ r, TurnsDown r ∧ a = job.refused r
  | _ => True

/-- The element that the producer was let in with and has still to move in. -/
def Job.owed (job : Job α) : Progress (Producing α) (Answer α) → List α
  | .more .construct | .more (.claim ..) | .more (.write ..) => job.value?.toList
  | _ => []

/-- The element is constructed in place. -/
def Job.isConstruction : Job α → Bool
  | .value _ => false
  | .construction .. => true

/-- The constructor is to run next. -/
def toConstruct : Progress (Producing α) (Answer α) → Bool
  | .more .construct => true
  | _ => false

namespace Producing

variable {job : Job α} {q : Queue α} {p : Producing α} {r : Progress (Producing α) (Answer α)}

theorem Seeks.fore (h : p.Seeks) : job.Fore (.more p) := by
  cases p <;> trivial

theorem Seeks.not_past (h : p.Seeks) : ¬job.Past (.more p) := by
  cases p <;> first | exact id | exact h.elim

/-- **A producer that was let in stays so**, and its constructor has run. -/
theorem Goes.past (h : Goes job q p r) (hp : job.Past (.more p))
    (ha : ∀ f, r = .done (.faulted f) → ¬p.stage.Aborts (.done (.faulted f))) :
    job.Past r ∧ toConstruct r = false := by
  cases h with
  | seek hs hp' | reserve hs | giveUp hs hr => exact absurd hp hs.not_past
  | turnAway ho | start ho hs | enter | turnBack ho | pass ho hj | build ho hj => exact hp.elim
  | built hv => exact ⟨Job.outcome_of_value? hv, rfl⟩
  | unbuilt hv => exact ⟨rfl, rfl⟩
  | woken => exact ⟨hp.symm, rfl⟩
  | faultClaim | faultWrite => exact absurd trivial (ha _ rfl)
  | _ => exact ⟨hp, rfl⟩

/-- A producer that finds the queue open when it asks again is let in. -/
theorem Goes.past_of_open (h : Goes job q .recheck r) (ho : q.isOpen = true) :
    job.Past r ∧ toConstruct r = job.isConstruction ∧ job.owed r = job.value?.toList := by
  cases h with
  | seek hs hp' | reserve hs | giveUp hs hr => exact hs.elim
  | turnBack hc => exact absurd (ho.symm.trans hc) (by decide)
  | pass ho hj => exact hj ▸ ⟨rfl, rfl, rfl⟩
  | build ho hj => exact hj ▸ ⟨trivial, rfl, rfl⟩

/-- **A producer that was not let in stays so**, unless it asks again and finds the queue open. -/
theorem Goes.fore (h : Goes job q p r) (hp : job.Fore (.more p))
    (hn : ¬(p = .recheck ∧ q.isOpen = true)) : job.Fore r := by
  cases h with
  | turnAway ho => exact ⟨_, .closed, rfl⟩
  | start ho hs => exact hs.fore
  | seek hs hp' => exact hp'.fore
  | giveUp hs hr => exact ⟨_, hr, rfl⟩
  | reserve hs | enter => trivial
  | turnBack ho => rfl
  | pass ho hj | build ho hj => exact absurd ⟨rfl, ho⟩ hn
  | built hv | unbuilt hv | claim | gain | write | store | faultClaim | faultWrite | give | wake
  | woken => exact hp.elim
  | finished => exact ⟨_, .closed, hp⟩
  | giveBack | wakeBack | wokenBack | finish => exact hp

end Producing

/-! ### Deeds of producers -/

namespace Deed

/-- The producer finds the queue open when it asks again, and is let in. -/
def passes (d : Deed α) : Bool :=
  match d.point with
  | .producing .recheck => d.queue.isOpen
  | _ => false

/-- The constructor runs. -/
def constructs (d : Deed α) : Bool :=
  match d.point with
  | .producing .construct => true
  | _ => false

/-- The deed may leave this queue behind. -/
def Brings (d : Deed α) (q' : Queue α) : Prop :=
  ∃ c, d.point.step d.call c d.queue = some (d.result, q')

/-- The deed leaves the slots and the tail alone. -/
def Spares (d : Deed α) : Prop :=
  ∀ q', d.Brings q' → q'.tail = d.queue.tail ∧ q'.storage = d.queue.storage

end Deed

/-- A move leaves the slots and the tail alone, unless its thread claims a position or is at a
slot. -/
theorem Move.spares {call : Call α} {s : Stage α} {k k' : Core α}
    {r : Progress (Stage α) (Answer α)} (h : Move call s k r k')
    (htail : s.claiming? .produce = none) (hbound : s.bound? .produce = none)
    (hconsume : s.holding .consume = 0) :
    k'.tail = k.tail ∧ k'.storage = k.storage := by
  cases h with
  | claimTail h | gainTail h | faultTail h => cases htail
  | write hs h | store hs h => cases hbound
  | take hs h | vacate hs h => cases hconsume
  | _ => exact ⟨rfl, rfl⟩

/-- A call that puts an element in stands at a point of doing so. -/
theorem Point.Apt.producing {p : Point α} {call : Call α} (h : p.Apt call)
    (hc : call.isProducing = true) : ∃ p', p = .producing p' := by
  cases p with
  | producing p => exact ⟨p, rfl⟩
  | consuming p =>
    have hconsuming : call.isConsuming = true := h.1
    cases call <;>
      first | exact absurd hc Bool.false_ne_true | exact absurd hconsuming Bool.false_ne_true
  | closing p | observing p => exact absurd (hc.symm.trans h.1) (by decide)

section Deeds

variable {job : Job α} {d : Deed α} {p : Producing α}

theorem Deed.passes_of_ne (hd : d.point = .producing p) (hp : p ≠ .recheck) : d.passes = false := by
  rw [passes, hd]
  cases p <;> first | rfl | exact absurd rfl hp

theorem Deed.constructs_eq (hd : d.point = .producing p) :
    d.constructs = toConstruct (.more p) := by
  rw [constructs, hd]
  cases p <;> rfl

theorem Job.Past.ne_recheck (hp : job.Past (.more p)) : p ≠ .recheck := by
  rintro rfl
  exact hp

theorem Job.Fore.not_constructing (hp : job.Fore (.more p)) : toConstruct (.more p) = false := by
  cases p <;> first | rfl | exact hp.elim

/-- A producer that has not been let in leaves the slots and the tail alone. -/
theorem Job.Fore.spares (hp : job.Fore (.more p)) (hd : d.point = .producing p)
    (hapt : d.point.Apt d.call) : d.Spares := by
  rintro q' ⟨c, h⟩
  have hmove := (Point.moves_of_step hapt h).move
  rw [hd] at hmove
  refine hmove.spares ?_ ?_ ?_
  all_goals cases p <;> first | rfl | exact hp.elim | (rename_i f; cases f <;> rfl)

theorem Job.Fore.stored_eq_none (hp : job.Fore (.more p)) (hd : d.point = .producing p) :
    d.stored? = none := by
  rw [Deed.stored?, Deed.stage, hd]
  cases p <;> first | rfl | exact hp.elim | (rename_i f; cases f <;> rfl)

end Deeds

/-! ### The story of a call -/

/-- What a producer has done since its call began, and where it stands or what it has answered. -/
inductive Story (job : Job α) (es : List (Deed α)) (r : Progress (Producing α) (Answer α)) : Prop
  /-- It has not been let in. -/
  | fore (passes : es.countP Deed.passes = 0) (here : job.Fore r)
    (constructs : es.countP Deed.constructs = 0) (stored : es.filterMap Deed.stored? = [])
    (spares : ∀ e ∈ es, e.Spares)
  /-- It was let in. -/
  | past (passes : es.countP Deed.passes = 1) (here : job.Past r)
    (constructs : es.countP Deed.constructs + (toConstruct r).toNat = job.isConstruction.toNat)
    (stored : es.filterMap Deed.stored? ++ job.owed r = job.value?.toList)

namespace Machine

variable {q : Queue α} {programs : List (List (Call α))} {ds es : List (Deed α)} {m n : Machine α}
  {d : Deed α} {c : Choice} {disc : Discipline} {config : Config} {order : Side → Nat → Nat}
  {job : Job α}

theorem Run.apt (h : Run (launch q programs) ds m) (hs : m.act? c = some (d, n)) :
    d.point.Apt d.call := by
  obtain ⟨t, call, calls, ht, hcs, r, q', -, rfl, -⟩ := act?_cases hs
  exact h.sane.apt ht hcs

/-- A deed of a producer is a step of a producer. -/
theorem Run.goes (h : Run (launch q programs) ds m) (hs : m.act? c = some (d, n))
    (hj : d.call.job? = some job) {p : Producing α} (hp : d.point = .producing p) :
    ∃ r, d.result = (liftProgress .producing (r, n.queue)).1 ∧ p.Goes job d.queue r := by
  have hapt := h.apt hs
  have hqueue := (h.leads hs).queue
  have hstep := act?_step hs
  rw [hp] at hapt hstep
  simp only [Point.step, hj, Option.bind_some] at hstep
  obtain ⟨⟨r, q'⟩, hr, he⟩ := Option.map_eq_some_iff.mp hstep
  have hgoes := Producing.goes_of_step hapt.2 hr
  refine ⟨r, ?_, hqueue ▸ hgoes⟩
  cases r <;> exact (congrArg Prod.fst he).symm

/-- What a step of a producer that was let in does to its element. -/
theorem Run.owed_of_goes (hq : create disc config order = .ok q)
    (h : Run (launch q programs) ds m) (hs : m.act? c = some (d, n)) (hj : d.call.job? = some job)
    {p : Producing α} {r : Progress (Producing α) (Answer α)} (hp : d.point = .producing p)
    (hr : d.result = (liftProgress .producing (r, n.queue)).1) (hg : p.Goes job d.queue r)
    (hpast : job.Past (.more p)) (ha : ¬d.stage.Aborts d.next) :
    d.stored?.toList ++ job.owed r = job.owed (.more p) := by
  have hl := h.leads hs
  have hsound := hl.stage ▸ (h.grounded hq).stage _ _ hl.call
  rw [Deed.stage, Deed.next, hp, hr] at ha
  rw [Deed.stage, hp] at hsound
  rw [Deed.stored?, Deed.stage, Deed.next, hp, hr]
  cases hg with
  | seek hs hp' | reserve hs | giveUp hs hr => exact absurd hpast hs.not_past
  | turnAway ho | start ho hs | enter | turnBack ho | pass ho hj | build ho hj => exact hpast.elim
  | faultClaim | faultWrite => exact absurd trivial ha
  | unbuilt hv =>
    show [] = job.value?.toList
    rw [hv]
    rfl
  | store =>
    show [_] = job.value?.toList
    rw [← Job.value?_eq hj, hsound.1]
    rfl
  | @finish a f f' | @finished a f => cases f <;> rfl
  | _ => rfl

/-- **A deed of a producer goes on with its story.** -/
theorem Run.story (hq : create disc config order = .ok q) (hp : Respects disc programs)
    (h : Run (launch q programs) ds m) (hs : m.act? c = some (d, n)) (hj : d.call.job? = some job)
    {p : Producing α} {r : Progress (Producing α) (Answer α)} (hd : d.point = .producing p)
    (hr : d.result = (liftProgress .producing (r, n.queue)).1) (hg : p.Goes job d.queue r)
    (hstory : Story job es (.more p)) : Story job (es ++ [d]) r := by
  have hone (f : Deed α → Bool) : (es ++ [d]).countP f = es.countP f + (f d).toNat :=
    countP_concat f es d
  cases hstory with
  | fore passes here constructs stored spares =>
    by_cases ho : p = .recheck ∧ d.queue.isOpen = true
    · obtain ⟨rfl, ho⟩ := ho
      obtain ⟨hpast, hconstructing, howed⟩ := hg.past_of_open ho
      have hpasses : d.passes = true := by rw [Deed.passes, hd]; exact ho
      refine .past ?_ hpast ?_ ?_
      · rw [hone, passes, hpasses]
        rfl
      · rw [hone, constructs, Deed.constructs_eq hd, hconstructing]
        exact Nat.zero_add _
      · rw [filterMap_concat, stored, here.stored_eq_none hd, howed]
        rfl
    · have hpasses : d.passes = false := by
        rw [Deed.passes, hd]
        cases p <;> first | rfl | exact Bool.eq_false_iff.mpr fun hopen => ho ⟨rfl, hopen⟩
      refine .fore ?_ (hg.fore here ho) ?_ ?_ fun e he => ?_
      · rw [hone, passes, hpasses]
        rfl
      · rw [hone, constructs, Deed.constructs_eq hd, here.not_constructing]
        rfl
      · rw [filterMap_concat, stored, here.stored_eq_none hd]
        rfl
      · rcases List.mem_append.mp he with he | he
        · exact spares e he
        · rw [List.mem_singleton.mp he]
          exact here.spares hd (h.apt hs)
  | past passes here constructs stored =>
    have haborts := h.not_aborts hq hp hs
    have howed := h.owed_of_goes hq hs hj hd hr hg here haborts
    have ha : ∀ f, r = .done (.faulted f) → ¬p.stage.Aborts (.done (.faulted f)) := by
      rintro f rfl
      rwa [Deed.stage, Deed.next, hd, hr] at haborts
    obtain ⟨hpast, hconstructing⟩ := hg.past here ha
    refine .past ?_ hpast ?_ ?_
    · rw [hone, passes, Deed.passes_of_ne hd here.ne_recheck]
      rfl
    · rw [hone, Deed.constructs_eq hd, hconstructing]
      exact constructs
    · rw [filterMap_concat, List.append_assoc, howed, stored]

theorem Call.first_of_job? {call : Call α} (hj : call.job? = some job) :
    call.first = .producing .checkOpen := by
  cases call <;> first | rfl | cases hj

/-- **The stories of a thread's calls**: of those that are over, and of the one under way. -/
theorem Run.stories (hq : create disc config order = .ok q) (hp : Respects disc programs)
    (h : Run (launch q programs) ds m) (t : Nat) :
    (∀ past ∈ pastCalls t ds, ∀ job, past.call.job? = some job →
        Story job past.deeds (.done past.answer)) ∧
      ∀ thread call calls, m.threads[t]? = some thread → thread.calls = call :: calls →
        ∀ job, call.job? = some job → ∃ p, thread.point.getD call.first = .producing p ∧
          Story job (presentCall t ds) (.more p) := by
  refine h.calls (P := fun call es point => ∀ job, call.job? = some job →
      ∃ p, point = .producing p ∧ Story job es (.more p))
    (F := fun past => ∀ job, past.call.job? = some job → Story job past.deeds (.done past.answer))
    ?_ ?_ ?_ t
  · intro call job hj
    exact ⟨_, Call.first_of_job? hj,
      .fore rfl trivial rfl rfl fun _ he => absurd he List.not_mem_nil⟩
  · intro ds m n d c es point hr hs hstory hresult job hj
    obtain ⟨p, hd, hstory⟩ := hstory job hj
    obtain ⟨r, hres, hg⟩ := hr.goes hs hj hd
    have hnext := hr.story hq hp hs hj hd hres hg hstory
    rw [hresult] at hres
    cases r with
    | more p' =>
      cases hres
      exact ⟨p', rfl, hnext⟩
    | done a => cases hres
  · intro ds m n d c es a hr hs hstory hresult job hj
    obtain ⟨p, hd, hstory⟩ := hstory job hj
    obtain ⟨r, hres, hg⟩ := hr.goes hs hj hd
    have hnext := hr.story hq hp hs hj hd hres hg hstory
    rw [hresult] at hres
    cases r with
    | more p' => cases hres
    | done a' =>
      cases hres
      exact hnext

/-! ### The permits of a call -/

/-- A call hands out a permit for each element that it has moved in. -/
theorem Run.gives_of_pastCall (h : Run (launch q programs) ds m) {t : Nat} {past : PastCall α}
    (hpast : past ∈ pastCalls t ds) :
    past.deeds.countP Deed.gives = (past.deeds.filterMap Deed.stored?).length := by
  rw [List.length_filterMap_eq_countP]
  refine (h.call_countP (f := fun s => s.gives.toNat) rfl ?_ hpast).symm
  intro ds m n d c hr hs
  have hmove : d.stored?.toList.length = (Stage.after d.next).gives.toNat :=
    (hr.leads hs).move.stored_length
  have hlength : d.stored?.isSome.toNat = d.stored?.toList.length := by cases d.stored? <;> rfl
  rw [hlength, hmove]
  exact Nat.add_comm _ _

/-- A call parts with each permit that it takes. -/
theorem Run.settles_of_pastCall (hq : create disc config order = .ok q)
    (hp : Respects disc programs) (h : Run (launch q programs) ds m) {t : Nat} {past : PastCall α}
    (hpast : past ∈ pastCalls t ds) (x : Side) :
    past.deeds.countP (Deed.takes x) = past.deeds.countP (Deed.settles x) :=
  h.call_countP (f := Stage.holding x) (by cases x <;> rfl)
    (fun _ _ _ _ _ hr hs => (hr.leads hs).move.takes (hr.not_aborts hq hp hs) x) hpast

/-- A producer parts with its permit for an element or hands it back. -/
theorem Run.takes_of_pastCall (hq : create disc config order = .ok q)
    (hp : Respects disc programs) (h : Run (launch q programs) ds m) {t : Nat} {past : PastCall α}
    (hpast : past ∈ pastCalls t ds) (hc : past.call.isProducing = true) :
    past.deeds.countP (Deed.takes .produce) =
      past.deeds.countP Deed.gives + past.deeds.countP (Deed.raises .produce) := by
  rw [h.settles_of_pastCall hq hp hpast]
  have hdeed : ∀ e ∈ past.deeds,
      (e.settles .produce).toNat = e.gives.toNat + (e.raises .produce).toNat := by
    intro e he
    have hmem := List.mem_of_mem_filter (mem_of_pastCalls hpast he)
    obtain ⟨es, m', c, n, hr, hs⟩ := h.exists_of_mem hmem
    rw [← h.call_eq hpast e he] at hc
    obtain ⟨p, hpoint⟩ := (hr.apt hs).producing hc
    rw [Deed.settles, Deed.gives, Deed.raises, Deed.stage, hpoint]
    cases p <;> first | rfl | (rename_i f; cases f <;> rfl)
  generalize past.deeds = es at hdeed
  induction es using List.reverseRecOn with
  | nil => rfl
  | append_singleton es e ih =>
    have hlast := hdeed e List.mem_concat_self
    have hinit := ih fun e' he' => hdeed e' (List.mem_append_left _ he')
    simp only [countP_concat]
    omega

end Machine

/-! ### What comes of a producer -/

/-- What comes of a producer that was let in: its answer is that of its job, its constructor has run
once, its element was moved in and a permit was handed out for it, or it has handed its permit
back. -/
structure PastCall.Admitted (past : PastCall α) (job : Job α) : Prop where
  passes : past.deeds.countP Deed.passes = 1
  answer : past.answer = job.outcome
  accepted : ∀ r, past.answer ≠ job.refused r
  constructs : past.deeds.countP Deed.constructs = job.isConstruction.toNat
  stored : past.deeds.filterMap Deed.stored? = job.value?.toList
  gives : past.deeds.countP Deed.gives = job.value?.toList.length
  permits : past.deeds.countP (Deed.takes .produce) =
    job.value?.toList.length + past.deeds.countP (Deed.raises .produce)

/-- What comes of a producer that is turned down: its constructor has not run, it has left the slots
and the tail alone, and it has handed back the permit that it may have taken. -/
structure PastCall.TurnedDown (past : PastCall α) (job : Job α) : Prop where
  passes : past.deeds.countP Deed.passes = 0
  answer : ∃ r, TurnsDown r ∧ past.answer = job.refused r
  constructs : past.deeds.countP Deed.constructs = 0
  stored : past.deeds.filterMap Deed.stored? = []
  returned : past.deeds.countP (Deed.takes .produce) = past.deeds.countP (Deed.raises .produce)
  spares : ∀ e ∈ past.deeds, e.Spares

/-- What comes of a producer that finds the queue closed when it comes: it is told so at once, and
nothing happens to the queue. -/
structure PastCall.TurnedAway (past : PastCall α) (job : Job α) (d : Deed α) : Prop where
  deeds : past.deeds = [d]
  answer : past.answer = job.refused .closed
  unchanged : ∀ q', d.Brings q' → q' = d.queue

namespace Machine

variable {q : Queue α} {programs : List (List (Call α))} {ds : List (Deed α)} {m : Machine α}
  {disc : Discipline} {config : Config} {order : Side → Nat → Nat} {job : Job α} {t : Nat}
  {past : PastCall α}

theorem Call.isProducing_iff {call : Call α} :
    call.isProducing = true ↔ ∃ job, call.job? = some job := by
  cases call <;> simp [Call.isProducing, Call.job?]

/-- **A producer is let in, or it is turned down**; it is let in by finding the queue open when it
has a permit and is on the count. -/
theorem Run.admitted_or_turnedDown (hq : create disc config order = .ok q)
    (hp : Respects disc programs) (h : Run (launch q programs) ds m) (hpast : past ∈ pastCalls t ds)
    (hj : past.call.job? = some job) : past.Admitted job ∨ past.TurnedDown job := by
  have hgives := h.gives_of_pastCall hpast
  have htakes := h.takes_of_pastCall hq hp hpast (Call.isProducing_of_job? hj)
  cases (h.stories hq hp t).1 past hpast job hj with
  | fore passes here constructs stored spares =>
    rw [stored] at hgives
    rw [hgives, List.length_nil, Nat.zero_add] at htakes
    exact .inr ⟨passes, here, constructs, stored, htakes, spares⟩
  | past passes here constructs stored =>
    have hstored : past.deeds.filterMap Deed.stored? = job.value?.toList := by
      rw [← stored]
      exact (List.append_nil _).symm
    rw [hstored] at hgives
    rw [hgives] at htakes
    exact .inl ⟨passes, here, fun r => here ▸ job.outcome_ne_refused r, constructs, hstored, hgives,
      htakes⟩

/-- **A producer that comes to a closed queue is turned away**, and while a call of a producer is
under way the queue was open when it came. -/
theorem Run.turnedAway (h : Run (launch q programs) ds m) (t : Nat) :
    (∀ past ∈ pastCalls t ds, ∀ job, past.call.job? = some job →
        (∃ e es, past.deeds = e :: es ∧ e.queue.isOpen = true) ∨
          ∃ e, e.queue.isOpen = false ∧ past.TurnedAway job e) ∧
      ∀ thread call calls, m.threads[t]? = some thread → thread.calls = call :: calls →
        ∀ job, call.job? = some job →
          presentCall t ds = [] ∧ thread.point.getD call.first = .producing .checkOpen ∨
            ∃ e es, presentCall t ds = e :: es ∧ e.queue.isOpen = true := by
  refine h.calls (P := fun call es point => ∀ job, call.job? = some job →
      es = [] ∧ point = .producing .checkOpen ∨ ∃ e es', es = e :: es' ∧ e.queue.isOpen = true)
    (F := fun past => ∀ job, past.call.job? = some job →
      (∃ e es, past.deeds = e :: es ∧ e.queue.isOpen = true) ∨
        ∃ e, e.queue.isOpen = false ∧ past.TurnedAway job e) ?_ ?_ ?_ t
  · exact fun call job hj => .inl ⟨rfl, Call.first_of_job? hj⟩
  · intro ds m n d c es p hr hs hes hresult job hj
    refine .inr ?_
    obtain ⟨rfl, hpoint⟩ | ⟨e, es', rfl, ho⟩ := hes job hj
    · refine ⟨d, [], rfl, ?_⟩
      obtain ⟨r, hres, hg⟩ := hr.goes hs hj hpoint
      rw [hresult] at hres
      cases hg with
      | turnAway ho => cases hres
      | start ho hp => exact ho
      | seek hs hp' | giveUp hs hr | reserve hs => exact hs.elim
    · exact ⟨e, es' ++ [d], rfl, ho⟩
  · intro ds m n d c es a hr hs hes hresult job hj
    obtain ⟨rfl, hpoint⟩ | ⟨e, es', rfl, ho⟩ := hes job hj
    · obtain ⟨r, hres, hg⟩ := hr.goes hs hj hpoint
      rw [hresult] at hres
      cases hg with
      | turnAway ho =>
        refine .inr ⟨d, ho, rfl, Progress.done.inj hres, ?_⟩
        rintro q' ⟨c, hstep⟩
        rw [hpoint] at hstep
        simp only [Point.step, hj, Option.bind_some, Producing.step, ho, Bool.not_false, if_true,
          Option.map_some, liftProgress, Option.some.injEq, Prod.mk.injEq] at hstep
        exact hstep.2.symm
      | start ho hp => cases hres
      | seek hs hp' | giveUp hs hr | reserve hs => exact hs.elim
    · exact .inl ⟨e, es' ++ [d], rfl, ho⟩

/-- **A producer that was let in never sleeps**: as long as its call is not over, it can take a
step. -/
theorem Run.acts_of_passes (hq : create disc config order = .ok q) (hp : Respects disc programs)
    (h : Run (launch q programs) ds m) {d : Deed α} (hd : d ∈ presentCall t ds)
    (hpasses : d.passes = true) {c : Choice} (hc : c.thread = t) : ∃ r, m.act? c = some r := by
  obtain ⟨thread, call, calls, ht, hcs, hcall⟩ := h.of_presentCall (List.ne_nil_of_mem hd)
  have hmem : d ∈ ds := by
    have hdeeds := flatten_pastCalls t ds ▸ List.mem_append_right _ hd
    exact List.mem_of_mem_filter hdeeds
  obtain ⟨es, m', c', n, hr, hs⟩ := h.exists_of_mem hmem
  have hproducing : call.isProducing = true := by
    have hapt := hr.apt hs
    rw [hcall d hd] at hapt
    rw [Deed.passes] at hpasses
    split at hpasses
    · rename_i hpoint
      rw [hpoint] at hapt
      exact hapt.1
    · cases hpasses
  obtain ⟨job, hj⟩ := Call.isProducing_iff.mp hproducing
  obtain ⟨p, hpoint, hstory⟩ := (h.stories hq hp t).2 thread call calls ht hcs job hj
  cases hstory with
  | fore passes here constructs stored spares =>
    exact absurd hpasses (by simpa using List.countP_eq_zero.mp passes d hd)
  | past passes here constructs stored =>
    subst hc
    simp only [act?, ht, Option.bind_some, hcs]
    cases hstep : (thread.point.getD call.first).step call c m.queue with
    | some r => exact ⟨_, rfl⟩
    | none =>
      obtain ⟨x, hasleep, -⟩ :=
        Point.asleep_of_step (h.sane.apt ht hcs) (h.proper ht hcs) hstep
      rw [hpoint] at hasleep
      cases x with
      | produce =>
        cases hasleep
        exact here.elim
      | consume => cases hasleep

end Machine

end PermitRing.Queue
