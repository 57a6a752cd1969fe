import PermitRing.Proofs.Machine.Conservation

/-!
# The calls of a thread

The deeds of a thread, one after the other, are those of its calls: a call begins with the first
deed after the answer of the one before, and it is over with its own answer. A statement about what
a call does from its beginning to its answer is one about such a stretch of deeds.

What holds of every stretch is shown by following a call point by point, `Run.calls`; and if in each
step what comes in goes out or is what the call then stands for, then all that came into a call that
is over went out of it, `Run.call_countP`.

## Main definitions

* `PastCall` — a call that is over, with its deeds and its answer;
* `Machine.pastCalls`, `presentCall` — the calls of a thread that are over, and the one under way.

## Main results

* `Machine.flatten_pastCalls` — the deeds of a thread are those of its calls;
* `Machine.Run.calls` — what holds of every call of a run;
* `Machine.Run.call_countP` — a ledger for each call.
-/

namespace PermitRing.Queue

variable {α : Type}

/-! ### Deeds by calls -/

/-- A call that is over. -/
structure PastCall (α : Type) where
  /-- The call. -/
  call : Call α
  /-- What its thread did in it. -/
  deeds : List (Deed α)
  /-- What it came to. -/
  answer : Answer α

namespace Machine

/-- The calls that are over, and the deeds of the one under way, after one more deed. -/
def gather (calls : List (PastCall α) × List (Deed α)) (d : Deed α) :
    List (PastCall α) × List (Deed α) :=
  match d.result with
  | .more _ => (calls.1, calls.2 ++ [d])
  | .done a => (calls.1 ++ [⟨d.call, calls.2 ++ [d], a⟩], [])

/-- The calls of a thread that are over. -/
def pastCalls (t : Nat) (ds : List (Deed α)) : List (PastCall α) :=
  ((deedsOf t ds).foldl gather ([], [])).1

/-- What a thread has done in the call that it is in. -/
def presentCall (t : Nat) (ds : List (Deed α)) : List (Deed α) :=
  ((deedsOf t ds).foldl gather ([], [])).2

section Concat

variable {t : Nat} (ds : List (Deed α)) {d : Deed α}

theorem calls_concat_of_ne (h : d.thread ≠ t) :
    pastCalls t (ds ++ [d]) = pastCalls t ds ∧ presentCall t (ds ++ [d]) = presentCall t ds := by
  rw [pastCalls, presentCall, deedsOf_concat_of_ne ds h]
  exact ⟨rfl, rfl⟩

theorem calls_concat_self : (pastCalls d.thread (ds ++ [d]), presentCall d.thread (ds ++ [d])) =
    gather (pastCalls d.thread ds, presentCall d.thread ds) d := by
  rw [pastCalls, presentCall, deedsOf_concat_self, List.foldl_concat]
  rfl

theorem calls_concat_more {p : Point α} (h : d.result = .more p) :
    pastCalls d.thread (ds ++ [d]) = pastCalls d.thread ds ∧
      presentCall d.thread (ds ++ [d]) = presentCall d.thread ds ++ [d] := by
  have := calls_concat_self ds (d := d)
  rw [gather, h] at this
  exact Prod.mk.inj this

theorem calls_concat_done {a : Answer α} (h : d.result = .done a) :
    pastCalls d.thread (ds ++ [d]) =
        pastCalls d.thread ds ++ [⟨d.call, presentCall d.thread ds ++ [d], a⟩] ∧
      presentCall d.thread (ds ++ [d]) = [] := by
  have := calls_concat_self ds (d := d)
  rw [gather, h] at this
  exact Prod.mk.inj this

/-- **The deeds of a thread are those of its calls**, one after the other. -/
theorem flatten_pastCalls (t : Nat) (ds : List (Deed α)) :
    ((pastCalls t ds).map PastCall.deeds).flatten ++ presentCall t ds = deedsOf t ds := by
  induction ds using List.reverseRecOn with
  | nil => rfl
  | append_singleton ds d ih =>
    by_cases ht : d.thread = t
    · subst ht
      rw [deedsOf_concat_self, ← ih]
      cases hr : d.result with
      | more p =>
        rw [(calls_concat_more ds hr).1, (calls_concat_more ds hr).2, List.append_assoc]
      | done a =>
        rw [(calls_concat_done ds hr).1, (calls_concat_done ds hr).2]
        simp
    · rw [(calls_concat_of_ne ds ht).1, (calls_concat_of_ne ds ht).2, ih,
        deedsOf_concat_of_ne ds ht]

end Concat

/-! ### What holds of every call -/

variable {q : Queue α} {programs : List (List (Call α))} {ds : List (Deed α)} {m n : Machine α}
  {d : Deed α} {disc : Discipline} {config : Config} {order : Side → Nat → Nat}

section Calls

variable {P : Call α → List (Deed α) → Point α → Prop} {F : PastCall α → Prop}
  (hfirst : ∀ call, P call [] call.first)
  (hmore : ∀ ds m n d c es p, Run (launch q programs) ds m → m.act? c = some (d, n) →
    P d.call es d.point → d.result = .more p → P d.call (es ++ [d]) p)
  (hdone : ∀ ds m n d c es a, Run (launch q programs) ds m → m.act? c = some (d, n) →
    P d.call es d.point → d.result = .done a → F ⟨d.call, es ++ [d], a⟩)
include hfirst hmore hdone

/-- **What holds of every call of a run.** It has to hold where the call begins and after each of
its deeds; the other threads have no part in it. -/
theorem Run.calls (h : Run (launch q programs) ds m) (t : Nat) :
    (∀ past ∈ pastCalls t ds, F past) ∧
      ∀ thread call calls, m.threads[t]? = some thread → thread.calls = call :: calls →
        P call (presentCall t ds) (thread.point.getD call.first) := by
  induction h with
  | refl =>
    refine ⟨fun past hmem => absurd hmem List.not_mem_nil, fun thread call calls ht hcs => ?_⟩
    rw [launch, List.getElem?_map] at ht
    obtain ⟨cs, -, rfl⟩ := Option.map_eq_some_iff.mp ht
    exact hfirst call
  | @step ds m n d c hr hs ih =>
    obtain ⟨hpast, hpresent⟩ := ih
    obtain ⟨thread₀, call₀, calls₀, ht₀, hcs₀, r, q', -, hd, rfl⟩ := act?_cases hs
    obtain ⟨hthread, hcall, hpoint, hresult⟩ : d.thread = c.thread ∧ d.call = call₀ ∧
        d.point = thread₀.point.getD call₀.first ∧ d.result = r := by
      rw [hd]
      exact ⟨rfl, rfl, rfl, rfl⟩
    rw [← hthread] at ht₀ ⊢
    by_cases hi : d.thread = t
    · subst hi
      have hlt := (List.getElem?_eq_some_iff.mp ht₀).1
      have hbefore := hpresent thread₀ call₀ calls₀ ht₀ hcs₀
      rw [← hpoint, ← hcall] at hbefore
      cases r with
      | more p =>
        obtain ⟨hcalls, hdeeds⟩ := calls_concat_more ds hresult
        refine ⟨hcalls ▸ hpast, fun thread call calls ht hcs => ?_⟩
        rw [List.getElem?_set_self hlt] at ht
        cases ht
        cases hcs₀.symm.trans hcs
        rw [hdeeds, ← hcall]
        exact hmore ds m _ d c _ p hr hs hbefore hresult
      | done a =>
        obtain ⟨hcalls, hdeeds⟩ := calls_concat_done ds hresult
        refine ⟨fun past hmem => ?_, fun thread call calls ht hcs => ?_⟩
        · rw [hcalls] at hmem
          rcases List.mem_append.mp hmem with hmem | hmem
          · exact hpast past hmem
          · rw [List.mem_singleton.mp hmem]
            exact hdone ds m _ d c _ a hr hs hbefore hresult
        · rw [List.getElem?_set_self hlt] at ht
          cases ht
          rw [hdeeds]
          exact hfirst call
    · obtain ⟨hcalls, hdeeds⟩ := calls_concat_of_ne ds hi
      rw [hcalls, hdeeds]
      refine ⟨hpast, fun thread call calls ht hcs => ?_⟩
      rw [List.getElem?_set_ne hi] at ht
      exact hpresent thread call calls ht hcs

end Calls

theorem call_eq_concat {es : List (Deed α)} (hes : ∀ e ∈ es, e.call = d.call) :
    ∀ e ∈ es ++ [d], e.call = d.call := by
  intro e he
  rcases List.mem_append.mp he with he | he
  · exact hes e he
  · rw [List.mem_singleton.mp he]

/-- The deeds of a call are deeds of this call. -/
theorem Run.call_eq (h : Run (launch q programs) ds m) {t : Nat} {past : PastCall α}
    (hpast : past ∈ pastCalls t ds) : ∀ e ∈ past.deeds, e.call = past.call := by
  refine (h.calls (P := fun call es _ => ∀ e ∈ es, e.call = call)
    (F := fun past => ∀ e ∈ past.deeds, e.call = past.call) ?_ ?_ ?_ t).1 past hpast
  · exact fun _ e he => absurd he List.not_mem_nil
  · intro ds m n d c es p hr hs hes hp
    exact call_eq_concat hes
  · intro ds m n d c es a hr hs hes ha
    exact call_eq_concat hes

/-- A call that is under way is the first of those that its thread has still to make. -/
theorem Run.of_presentCall (h : Run (launch q programs) ds m) {t : Nat}
    (hne : presentCall t ds ≠ []) :
    ∃ thread call calls, m.threads[t]? = some thread ∧ thread.calls = call :: calls ∧
      ∀ e ∈ presentCall t ds, e.call = call := by
  have hthread : ∃ thread call calls, m.threads[t]? = some thread ∧
      thread.calls = call :: calls := by
    induction h with
    | refl => exact absurd rfl hne
    | @step ds m n d c hr hs ih =>
      obtain ⟨thread, call, calls, ht, hcs, r, q', -, hd, rfl⟩ := act?_cases hs
      by_cases hi : d.thread = t
      · subst hi
        cases hresult : d.result with
        | more p =>
          rw [hd] at hresult
          cases hresult
          refine ⟨{ thread with point := some p }, call, calls, ?_, hcs⟩
          rw [hd]
          exact List.getElem?_set_self (List.getElem?_eq_some_iff.mp ht).1
        | done a => exact absurd (calls_concat_done ds hresult).2 hne
      · rw [(calls_concat_of_ne ds hi).2] at hne
        obtain ⟨thread', hget⟩ := ih hne
        refine ⟨thread', ?_⟩
        rw [hd] at hi
        rwa [List.getElem?_set_ne hi]
  obtain ⟨thread, call, calls, ht, hcs⟩ := hthread
  refine ⟨thread, call, calls, ht, hcs, ?_⟩
  refine (h.calls (P := fun call es _ => ∀ e ∈ es, e.call = call) (F := fun _ => True) ?_ ?_ ?_ t).2
    thread call calls ht hcs
  · exact fun _ e he => absurd he List.not_mem_nil
  · intro ds m n d c es p hr hs hes hp
    exact call_eq_concat hes
  · exact fun _ _ _ _ _ _ _ _ _ _ _ => trivial

/-- **A ledger for each call.** If in each step what comes in goes out or is what the thread then
holds, then what came into a call that is over went out of it. -/
theorem Run.call_countP {income outgo : Deed α → Bool} {f : Stage α → Nat} (hf : f .outside = 0)
    (hstep : ∀ ds m n d c, Run (launch q programs) ds m → m.act? c = some (d, n) →
      (income d).toNat + f d.stage = (outgo d).toNat + f (Stage.after d.next))
    (h : Run (launch q programs) ds m) {t : Nat} {past : PastCall α}
    (hpast : past ∈ pastCalls t ds) : past.deeds.countP income = past.deeds.countP outgo := by
  refine (h.calls (P := fun _ es p => es.countP income = es.countP outgo + f p.stage)
    (F := fun past => past.deeds.countP income = past.deeds.countP outgo) ?_ ?_ ?_ t).1 past hpast
  · intro call
    rw [call.stage_first, hf]
    rfl
  · intro ds m n d c es p hr hs hes hp
    have hdeed : (income d).toNat + f d.point.stage = (outgo d).toNat + f (Stage.after d.next) :=
      hstep ds m n d c hr hs
    rw [Deed.next, hp] at hdeed
    have hdeed : (income d).toNat + f d.point.stage = (outgo d).toNat + f p.stage := hdeed
    rw [countP_concat, countP_concat]
    omega
  · intro ds m n d c es a hr hs hes ha
    have hdeed : (income d).toNat + f d.point.stage = (outgo d).toNat + f (Stage.after d.next) :=
      hstep ds m n d c hr hs
    rw [Deed.next, ha] at hdeed
    have hdeed : (income d).toNat + f d.point.stage = (outgo d).toNat + f .outside := hdeed
    simp only [countP_concat]
    omega

/-- The deeds of a call are deeds of its thread. -/
theorem mem_of_pastCalls {t : Nat} {past : PastCall α} (hpast : past ∈ pastCalls t ds) {e : Deed α}
    (he : e ∈ past.deeds) : e ∈ deedsOf t ds := by
  rw [← flatten_pastCalls t ds]
  exact List.mem_append_left _ (List.mem_flatten.mpr ⟨_, List.mem_map_of_mem hpast, he⟩)

end Machine

end PermitRing.Queue
