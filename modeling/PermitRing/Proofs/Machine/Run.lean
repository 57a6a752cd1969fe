import Mathlib.Algebra.BigOperators.Group.Finset.Piecewise
import Mathlib.Algebra.Order.BigOperators.Group.Finset
import Mathlib.Tactic.Abel
import PermitRing.Proofs.Machine.Step

/-!
# Runs and their deeds

A run of threads on a queue is any interleaving of their steps. Here it comes with its history: the
list of its *deeds*, each of which says which thread did what to which queue. What happened in a run
is then a view of the history, in the order in which it happened, over all threads or of one.

An invariant of a run is mostly a count of the threads at some stage. `census` is that count, for
any weight of stages, and `Leads.census` says how one deed changes it.

## Main definitions

* `Deed`, `Machine.Run` — runs with their histories;
* `Machine.launch`, `Respects` — the threads that a run begins with, and how they use the queue;
* `Machine.census` — the sum of a weight of stages over all threads.

## Main results

* `Machine.reachable_iff` — the states of runs are the reachable ones;
* `Machine.Run.leads` — every deed of a run is a move of one thread, and the others stand still.
-/

namespace PermitRing.Queue

variable {α : Type}

/-! ### Deeds -/

/-- What a thread does in one step. -/
structure Deed (α : Type) where
  /-- The thread. -/
  thread : Nat
  /-- The call that it is in. -/
  call : Call α
  /-- Where it stands. -/
  point : Point α
  /-- The queue that it finds. -/
  queue : Queue α
  /-- Where it stands afterwards, or what the call answers. -/
  result : Progress (Point α) (Answer α)

namespace Deed

/-- What the thread holds. -/
def stage (d : Deed α) : Stage α :=
  d.point.stage

/-- What the thread holds afterwards, or what the call answers. -/
def next (d : Deed α) : Progress (Stage α) (Answer α) :=
  stageOf d.result

end Deed

/-- What a thread holds after a move. A call that is over holds nothing. -/
def Stage.after : Progress (Stage α) (Answer α) → Stage α
  | .more s => s
  | .done _ => .outside

/-- What a thread holds. -/
def Thread.stage (t : Thread α) : Stage α :=
  t.point.elim .outside Point.stage

/-- A thread after a step of the first of its calls. -/
def Thread.after (t : Thread α) (call : Call α) (calls : List (Call α)) :
    Progress (Point α) (Answer α) → Thread α
  | .more p => { t with point := some p }
  | .done a =>
    { calls := if call.isRepeated a then call :: calls else calls
      point := none
      answers := a :: t.answers }

/-- A step adds no calls. -/
theorem Thread.mem_calls_after {t : Thread α} {call : Call α} {calls : List (Call α)}
    (hcs : t.calls = call :: calls) {r : Progress (Point α) (Answer α)} {x : Call α}
    (hx : x ∈ (t.after call calls r).calls) : x ∈ t.calls := by
  rw [hcs]
  cases r with
  | more p => rwa [Thread.after, hcs] at hx
  | done a =>
    simp only [Thread.after] at hx
    split at hx
    · exact hx
    · exact List.mem_cons_of_mem _ hx

namespace Machine

/-- The step that a choice stands for, if its thread can take one, with what the thread does. -/
def act? (c : Choice) (m : Machine α) : Option (Deed α × Machine α) :=
  (m.threads[c.thread]?).bind fun t =>
    match t.calls with
    | [] => none
    | call :: calls =>
      ((t.point.getD call.first).step call c m.queue).map fun (r, q) =>
        (⟨c.thread, call, t.point.getD call.first, m.queue, r⟩,
          ⟨q, m.threads.set c.thread (t.after call calls r)⟩)

theorem map_act? (c : Choice) (m : Machine α) : (m.act? c).map Prod.snd = m.step? c := by
  rw [act?, step?]
  cases m.threads[c.thread]? with
  | none => rfl
  | some t =>
    obtain ⟨calls, point, answers⟩ := t
    cases calls with
    | nil => rfl
    | cons call calls =>
      simp only [Option.bind_some, Thread.step?, Option.map_map]
      refine Option.map_congr fun e _ => ?_
      obtain ⟨_ | a, q⟩ := e
      · rfl
      · rfl

/-! ### Runs -/

/-- The states that some sequence of choices leads to, with the deeds that lead there. -/
inductive Run (start : Machine α) : List (Deed α) → Machine α → Prop
  /-- The state at the beginning. -/
  | refl : Run start [] start
  /-- One step further. -/
  | step {ds : List (Deed α)} {m n : Machine α} {d : Deed α} (c : Choice) (h : Run start ds m)
    (hs : m.act? c = some (d, n)) : Run start (ds ++ [d]) n

/-- The states of runs are the reachable ones. -/
theorem reachable_iff {start m : Machine α} : Reachable start m ↔ ∃ ds, Run start ds m := by
  constructor
  · intro h
    induction h with
    | refl => exact ⟨[], .refl⟩
    | step c h hs ih =>
      obtain ⟨ds, hr⟩ := ih
      rw [← map_act?] at hs
      obtain ⟨⟨d, n⟩, ha, rfl⟩ := Option.map_eq_some_iff.mp hs
      exact ⟨_, hr.step c ha⟩
  · rintro ⟨ds, h⟩
    induction h with
    | refl => exact .refl
    | step c h hs ih => exact ih.step c (by rw [← map_act?, hs]; rfl)

theorem Run.trans {start m n : Machine α} {ds es : List (Deed α)} (h : Run start ds m)
    (hn : Run m es n) : Run start (ds ++ es) n := by
  induction hn with
  | refl => rwa [List.append_nil]
  | step c _ hs ih =>
    rw [← List.append_assoc]
    exact ih.step c hs

/-- Every deed of a run is done at some moment of it. -/
theorem Run.exists_of_mem {start m : Machine α} {ds : List (Deed α)} {d : Deed α}
    (h : Run start ds m) (hd : d ∈ ds) :
    ∃ es m' c n, Run start es m' ∧ m'.act? c = some (d, n) := by
  induction h with
  | refl => cases hd
  | @step ds m n d' c hr hs ih =>
    rcases List.mem_append.mp hd with hd | hd
    · exact ih hd
    · rw [List.mem_singleton.mp hd]
      exact ⟨ds, m, c, n, hr, hs⟩

/-- The run that a list of choices stands for; one that stands for no step is passed over. -/
def trace : List Choice → Machine α → List (Deed α) × Machine α
  | [], m => ([], m)
  | c :: cs, m =>
    match m.act? c with
    | none => trace cs m
    | some (d, n) => (d :: (trace cs n).1, (trace cs n).2)

theorem run_trace (cs : List Choice) (m : Machine α) : Run m (trace cs m).1 (trace cs m).2 := by
  induction cs generalizing m with
  | nil => exact .refl
  | cons c cs ih =>
    rw [trace]
    cases hs : m.act? c with
    | none => exact ih m
    | some r =>
      have hfirst : Run m [r.1] r.2 := Run.refl.step c hs
      exact hfirst.trans (ih r.2)

/-! ### Threads and their programs -/

/-- Threads on a queue that have not begun with the calls that they are to make. -/
def launch (q : Queue α) (programs : List (List (Call α))) : Machine α :=
  ⟨q, programs.map fun calls => { calls }⟩

/-- The thread with a number makes a call of some kind. -/
def Makes (kind : Call α → Bool) (programs : List (List (Call α))) (t : Nat) : Prop :=
  ∃ calls, programs[t]? = some calls ∧ ∃ call ∈ calls, kind call = true

/-- The threads use the queue by the rules of its discipline: at most one of them puts elements in
unless several may, and at most one takes elements out unless several may. -/
structure Respects (d : Discipline) (programs : List (List (Call α))) : Prop where
  produce : d.manyProducers = false → ∀ s t, Makes Call.isProducing programs s →
    Makes Call.isProducing programs t → s = t
  consume : d.manyConsumers = false → ∀ s t, Makes Call.isConsuming programs s →
    Makes Call.isConsuming programs t → s = t

theorem respects_mpmc (programs : List (List (Call α))) : Respects .mpmc programs :=
  ⟨fun h => absurd h (by decide), fun h => absurd h (by decide)⟩

/-- What the thread with a number holds. -/
def stage (m : Machine α) (t : Nat) : Stage α :=
  m.threads[t]?.elim .outside Thread.stage

/-- The call that the thread with a number is in, or that it makes next. -/
def call? (m : Machine α) (t : Nat) : Option (Call α) :=
  m.threads[t]?.bind fun t => t.calls.head?

/-- Each thread works on its own program, and stands where its call can stand. -/
structure Sane (programs : List (List (Call α))) (m : Machine α) : Prop where
  length : m.threads.length = programs.length
  calls : ∀ (i : Nat) (t : Thread α), m.threads[i]? = some t →
    ∃ cs, programs[i]? = some cs ∧ ∀ call ∈ t.calls, call ∈ cs
  point : ∀ (i : Nat) (t : Thread α) (p : Point α), m.threads[i]? = some t → t.point = some p →
    ∃ call calls, t.calls = call :: calls ∧ p.Apt call

theorem sane_launch (q : Queue α) (programs : List (List (Call α))) :
    Sane programs (launch q programs) where
  length := List.length_map _
  calls i t ht := by
    rw [launch, List.getElem?_map] at ht
    obtain ⟨cs, hcs, rfl⟩ := Option.map_eq_some_iff.mp ht
    exact ⟨cs, hcs, fun _ h => h⟩
  point i t p ht hp := by
    rw [launch, List.getElem?_map] at ht
    obtain ⟨cs, -, rfl⟩ := Option.map_eq_some_iff.mp ht
    cases hp

/-! ### What a deed leads to -/

/-- A deed leads from one state to another: it is a move of one thread, inside a call of its
program, and the other threads stand still. -/
structure Leads (programs : List (List (Call α))) (d : Deed α) (m n : Machine α) : Prop where
  lt : d.thread < m.threads.length
  length : n.threads.length = m.threads.length
  queue : d.queue = m.queue
  makes : ∃ calls, programs[d.thread]? = some calls ∧ d.call ∈ calls
  stage : m.stage d.thread = d.stage
  after : n.stage d.thread = Stage.after d.next
  call : m.call? d.thread = some d.call
  call_more : ∀ s, d.next = .more s → n.call? d.thread = some d.call
  others : ∀ t, t ≠ d.thread → n.threads[t]? = m.threads[t]?
  move : Move d.call d.stage m.queue.core d.next n.queue.core

section

variable {programs : List (List (Call α))} {m n : Machine α} {d : Deed α} {c : Choice}

/-- A thread that takes a step has a call to make, and the step is one of this call. -/
theorem act?_cases (hs : m.act? c = some (d, n)) :
    ∃ t call calls, m.threads[c.thread]? = some t ∧ t.calls = call :: calls ∧
      ∃ r q, (t.point.getD call.first).step call c m.queue = some (r, q) ∧
        d = ⟨c.thread, call, t.point.getD call.first, m.queue, r⟩ ∧
        n = ⟨q, m.threads.set c.thread (t.after call calls r)⟩ := by
  obtain ⟨t, ht, hs⟩ := Option.bind_eq_some_iff.mp hs
  cases hcs : t.calls with
  | nil =>
    rw [hcs] at hs
    cases hs
  | cons call calls =>
    rw [hcs] at hs
    obtain ⟨⟨r, q⟩, hstep, he⟩ := Option.map_eq_some_iff.mp hs
    cases he
    exact ⟨t, call, calls, ht, hcs, r, q, hstep, rfl, rfl⟩

/-- Where a thread stands, or begins, its call can stand. -/
theorem Sane.apt {t : Thread α} {call : Call α} {calls : List (Call α)} (h : Sane programs m)
    {i : Nat} (ht : m.threads[i]? = some t) (hcs : t.calls = call :: calls) :
    (t.point.getD call.first).Apt call := by
  cases hp : t.point with
  | none => exact call.apt_first
  | some p =>
    obtain ⟨call', calls', hc', hapt⟩ := h.point _ _ _ ht hp
    rw [hcs] at hc'
    cases hc'
    exact hapt

theorem Sane.leads (h : Sane programs m) (hs : m.act? c = some (d, n)) :
    Leads programs d m n := by
  obtain ⟨t, call, calls, ht, hcs, r, q, hstep, rfl, rfl⟩ := act?_cases hs
  have hlt : c.thread < m.threads.length := (List.getElem?_eq_some_iff.mp ht).1
  obtain ⟨program, hprogram, hsub⟩ := h.calls _ _ ht
  rw [hcs] at hsub
  exact
    { lt := hlt
      length := List.length_set
      queue := rfl
      makes := ⟨program, hprogram, hsub call List.mem_cons_self⟩
      stage := by
        rw [Machine.stage, ht]
        show t.stage = (t.point.getD call.first).stage
        rw [Thread.stage]
        cases t.point with
        | none => exact call.stage_first.symm
        | some p => rfl
      after := by
        rw [Machine.stage, List.getElem?_set_self hlt]
        cases r <;> rfl
      call := by
        rw [Machine.call?, ht, Option.bind_some, hcs]
        rfl
      call_more := fun s hs => by
        rw [Machine.call?, List.getElem?_set_self hlt, Option.bind_some]
        cases r with
        | more p =>
          rw [Thread.after, hcs]
          rfl
        | done a => cases hs
      others := fun t' ht' => List.getElem?_set_ne (Ne.symm ht')
      move := (Point.moves_of_step (h.apt ht hcs) hstep).move }

/-- A step keeps the threads on their programs. -/
theorem Sane.act? (h : Sane programs m) (hs : m.act? c = some (d, n)) : Sane programs n := by
  obtain ⟨t, call, calls, ht, hcs, r, q, hstep, rfl, rfl⟩ := act?_cases hs
  have hlt : c.thread < m.threads.length := (List.getElem?_eq_some_iff.mp ht).1
  refine ⟨List.length_set.trans h.length, fun i t' ht' => ?_, fun i t' p ht' hp => ?_⟩
  · by_cases hi : i = c.thread
    · subst hi
      rw [List.getElem?_set_self hlt] at ht'
      cases ht'
      obtain ⟨program, hprogram, hsub⟩ := h.calls _ _ ht
      exact ⟨program, hprogram, fun x hx => hsub x (Thread.mem_calls_after hcs hx)⟩
    · rw [List.getElem?_set_ne (Ne.symm hi)] at ht'
      exact h.calls i t' ht'
  · by_cases hi : i = c.thread
    · subst hi
      rw [List.getElem?_set_self hlt] at ht'
      cases ht'
      cases r with
      | more p' =>
        cases hp
        exact ⟨call, calls, hcs, (Point.moves_of_step (h.apt ht hcs) hstep).apt p rfl⟩
      | done a => cases hp
    · rw [List.getElem?_set_ne (Ne.symm hi)] at ht'
      exact h.point i t' p ht' hp

end

section

variable {q : Queue α} {programs : List (List (Call α))} {ds : List (Deed α)} {m n : Machine α}
  {d : Deed α}

theorem Run.sane (h : Run (launch q programs) ds m) : Sane programs m := by
  induction h with
  | refl => exact sane_launch q programs
  | step c _ hs ih => exact ih.act? hs

/-- **Every deed of a run is a move of one thread.** -/
theorem Run.leads {c : Choice} (h : Run (launch q programs) ds m) (hs : m.act? c = some (d, n)) :
    Leads programs d m n :=
  h.sane.leads hs

/-- A deed is a step at the point where its thread stands. -/
theorem act?_step {c : Choice} (hs : m.act? c = some (d, n)) :
    d.point.step d.call c m.queue = some (d.result, n.queue) := by
  obtain ⟨t, call, calls, -, -, r, q, hstep, rfl, rfl⟩ := act?_cases hs
  exact hstep

section Points

variable {P : Machine α → Call α → Point α → Prop} (hfirst : ∀ m call, P m call call.first)
  (hkeep : ∀ ds m n d c call p, Run (launch q programs) ds m → m.act? c = some (d, n) →
    P m call p → P n call p)
  (hlead : ∀ ds m n d c p, Run (launch q programs) ds m → m.act? c = some (d, n) →
    P m d.call d.point → d.result = .more p → P n d.call p)
include hfirst hkeep hlead

/-- **What holds wherever a thread stands.** It has to hold where calls begin and where deeds lead,
and no deed of another thread may end it. -/
theorem Run.at_point (h : Run (launch q programs) ds m) {t : Nat} {thread : Thread α}
    {call : Call α} {calls : List (Call α)} (ht : m.threads[t]? = some thread)
    (hcs : thread.calls = call :: calls) : P m call (thread.point.getD call.first) := by
  induction h generalizing t thread call calls with
  | refl =>
    rw [launch, List.getElem?_map] at ht
    obtain ⟨cs, -, rfl⟩ := Option.map_eq_some_iff.mp ht
    exact hfirst _ call
  | @step ds m n d c hr hs ih =>
    have hkeep' := hkeep ds m n d c
    have hlead' := hlead ds m n d c
    obtain ⟨thread₀, call₀, calls₀, ht₀, hcs₀, r, q', -, rfl, rfl⟩ := act?_cases hs
    by_cases hi : t = c.thread
    · subst hi
      rw [List.getElem?_set_self (List.getElem?_eq_some_iff.mp ht₀).1] at ht
      cases ht
      cases r with
      | more p =>
        cases hcs₀.symm.trans hcs
        exact hlead' p hr hs (ih ht₀ hcs₀) rfl
      | done a => exact hfirst _ call
    · rw [List.getElem?_set_ne (Ne.symm hi)] at ht
      exact hkeep' call _ hr hs (ih ht hcs)

theorem Run.at_deed {c : Choice} (h : Run (launch q programs) ds m)
    (hs : m.act? c = some (d, n)) : P m d.call d.point := by
  obtain ⟨thread, call, calls, ht, hcs, r, q', -, rfl, rfl⟩ := act?_cases hs
  exact h.at_point hfirst hkeep hlead ht hcs

end Points

theorem stage_launch (q : Queue α) (programs : List (List (Call α))) (t : Nat) :
    (launch q programs).stage t = .outside := by
  rw [stage, launch, List.getElem?_map]
  cases programs[t]? <;> rfl

theorem stage_of_length_le {t : Nat} (h : m.threads.length ≤ t) : m.stage t = .outside := by
  rw [stage, List.getElem?_eq_none h]
  rfl

theorem Leads.stage_other (h : Leads programs d m n) {t : Nat} (ht : t ≠ d.thread) :
    n.stage t = m.stage t := by
  rw [Machine.stage, Machine.stage, h.others t ht]

theorem Leads.call_other (h : Leads programs d m n) {t : Nat} (ht : t ≠ d.thread) :
    n.call? t = m.call? t := by
  rw [Machine.call?, Machine.call?, h.others t ht]

/-! ### Counting threads -/

section Census

variable {M : Type} [AddCommMonoid M]

/-- The sum of a weight of stages over all threads. -/
def census (f : Stage α → M) (m : Machine α) : M :=
  ∑ t ∈ Finset.range m.threads.length, f (m.stage t)

theorem census_launch {f : Stage α → M} (hf : f .outside = 0) (q : Queue α)
    (programs : List (List (Call α))) : (launch q programs).census f = 0 :=
  Finset.sum_eq_zero fun t _ => by rw [stage_launch, hf]

theorem census_eq_zero {f : Stage α → M} (h : ∀ t, f (m.stage t) = 0) : m.census f = 0 :=
  Finset.sum_eq_zero fun t _ => h t

theorem exists_of_census_ne_zero {f : Stage α → M} (h : m.census f ≠ 0) :
    ∃ t, f (m.stage t) ≠ 0 := by
  by_contra hnone
  push Not at hnone
  exact h (census_eq_zero hnone)

/-- How a sum over all threads changes with one of them. -/
theorem sum_range_of_others {β : Type} {v w : Nat → β} {k t : Nat} (f : β → M) (ht : t < k)
    (ho : ∀ s, s ≠ t → w s = v s) :
    (∑ s ∈ Finset.range k, f (w s)) + f (v t) = (∑ s ∈ Finset.range k, f (v s)) + f (w t) := by
  have hmem : t ∈ Finset.range k := Finset.mem_range.mpr ht
  have hrest : ∑ s ∈ (Finset.range k).erase t, f (w s) =
      ∑ s ∈ (Finset.range k).erase t, f (v s) :=
    Finset.sum_congr rfl fun s hs => by rw [ho s (Finset.ne_of_mem_erase hs)]
  rw [← Finset.add_sum_erase _ _ hmem, hrest, ← Finset.add_sum_erase _ _ hmem]
  abel

/-- **How a deed changes a count.** -/
theorem Leads.census (h : Leads programs d m n) (f : Stage α → M) :
    n.census f + f d.stage = m.census f + f (Stage.after d.next) := by
  rw [Machine.census, Machine.census, h.length, ← h.stage, ← h.after]
  exact sum_range_of_others f h.lt fun _ => h.stage_other

end Census

/-- One summand is at most the sum, if there is nothing beyond the range. -/
theorem le_sum_range {M : Type} [AddCommMonoid M] [PartialOrder M] [IsOrderedAddMonoid M]
    [CanonicallyOrderedAdd M] {f : Nat → M} {k : Nat} (hf : ∀ t, k ≤ t → f t = 0) (t : Nat) :
    f t ≤ ∑ s ∈ Finset.range k, f s := by
  rcases Nat.lt_or_ge t k with ht | ht
  · exact Finset.single_le_sum_of_canonicallyOrdered (Finset.mem_range.mpr ht)
  · rw [hf t ht]
    exact zero_le

theorem sum_range_le {f : Nat → Nat} (hf : ∀ t, f t ≤ 1) (k : Nat) :
    ∑ t ∈ Finset.range k, f t ≤ k := by
  have h : ∑ t ∈ Finset.range k, f t ≤ ∑ _t ∈ Finset.range k, 1 :=
    Finset.sum_le_sum fun t _ => hf t
  rwa [← Finset.card_eq_sum_ones, Finset.card_range] at h

/-- One thread weighs at most as much as all. -/
theorem le_census {M : Type} [AddCommMonoid M] [PartialOrder M] [IsOrderedAddMonoid M]
    [CanonicallyOrderedAdd M] {f : Stage α → M} (hf : f .outside = 0) (t : Nat) :
    f (m.stage t) ≤ m.census f :=
  le_sum_range (f := fun t => f (m.stage t)) (fun t ht => by rw [stage_of_length_le ht, hf]) t

/-- Two threads weigh at most as much as all. -/
theorem add_le_census {f : Stage α → Nat} (hf : f .outside = 0) {s t : Nat} (hst : s ≠ t) :
    f (m.stage s) + f (m.stage t) ≤ m.census f := by
  rcases Nat.lt_or_ge s m.threads.length with hs | hs
  · rcases Nat.lt_or_ge t m.threads.length with ht | ht
    · rw [← Finset.sum_pair (f := fun t => f (m.stage t)) hst]
      refine Finset.sum_le_sum_of_subset fun i hi => ?_
      rcases Finset.mem_insert.mp hi with rfl | hi
      · exact Finset.mem_range.mpr hs
      · rw [Finset.mem_singleton.mp hi]
        exact Finset.mem_range.mpr ht
    · rw [stage_of_length_le ht, hf, Nat.add_zero]
      exact le_census hf s
  · rw [stage_of_length_le hs, hf, Nat.zero_add]
    exact le_census hf t

end

end Machine

end PermitRing.Queue
