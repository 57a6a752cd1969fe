import PermitRing.Permits.Basic

/-!
# Waiting for a permit in a settled run

Nobody else acts while a call asks for a permit, so its rounds do not have to be followed one by
one: a call with a fixed answer of its cancel predicate takes a permit if there is one, gives up if
the answer says so, runs out of time, or falls asleep. The first three leave the parker as it was.

## Main definitions

* `Parker.Calm` — nobody sleeps;
* `Permits.waited` — a wait as one operation.

## Main results

* `Permits.await_of_pos`, `await_cancelled`, `await_timedOut`, `await_asleep` — the four ends;
* `Permits.acquire_eq`, `resume_eq` — both ways to wait come to the same.
-/

namespace PermitRing

/-! ### Parkers -/

namespace Parker

/-- Whoever comes and goes leaves nothing behind. -/
theorem leave_enlist {p : Parker} (h : p.parked < Word.size) : p.enlist.leave = p := by
  rw [leave, enlist, Word.pred_succ h]

/-- A thread that comes with the present epoch and a limit that passes at once is gone again. -/
theorem park_of_short {p : Parker} (h : p.parked < Word.size) (thread : Nat)
    {limit : Patience} (hl : limit.isLong = false) :
    p.park thread p.epoch limit = (.timedOut, p) := by
  cases limit with
  | lasting | endless => cases hl
  | instant | brief =>
    rw [park, if_neg (show ¬p.enlist.epoch ≠ p.epoch from not_not_intro rfl)]
    exact congrArg (Prod.mk Park.timedOut) (leave_enlist h)

/-- A thread that comes with the present epoch and may wait for others sleeps. -/
theorem park_of_long (p : Parker) (thread : Nat) {limit : Patience} (hl : limit.isLong = true) :
    p.park thread p.epoch limit = (.asleep, p.enlist.doze thread p.epoch) := by
  cases limit with
  | instant | brief => cases hl
  | lasting | endless => simp only [park, enlist, ne_eq, not_true, if_false]

/-! ### Parkers at which nobody sleeps -/

/-- Nobody sleeps, and nobody is on the way in or out. -/
structure Calm (p : Parker) : Prop where
  parked : p.parked = 0
  sleepers : p.sleepers = []

namespace Calm

variable {p : Parker}

theorem parked_lt (h : Calm p) : p.parked < Word.size := by
  rw [h.parked]
  decide

theorem unparkOne (h : Calm p) : Calm p.unparkOne := by
  rw [Parker.unparkOne, if_pos (show p.bump.parked = 0 from h.parked)]
  exact ⟨h.parked, h.sleepers⟩

theorem unparkAll (h : Calm p) : Calm p.unparkAll := by
  rw [Parker.unparkAll, if_pos (show p.bump.parked = 0 from h.parked)]
  exact ⟨h.parked, h.sleepers⟩

end Calm

end Parker

namespace Permits

variable {p : Permits}

/-! ### One permit less -/

/-- The counter after one permit was taken. -/
def taken (p : Permits) : Permits :=
  { p with count := p.count - 1 }

@[simp] theorem count_taken (p : Permits) : p.taken.count = p.count - 1 :=
  rfl

@[simp] theorem parker_taken (p : Permits) : p.taken.parker = p.parker :=
  rfl

theorem take?_eq_some (h : 0 < p.count) : p.take? = some p.taken := by
  rw [take?_of_pos h, Word.pred_eq h, taken]

/-- The counter after a thread fell asleep at it. -/
def withSleeper (thread : Nat) (p : Permits) : Permits :=
  { p with parker := p.parker.enlist.doze thread p.parker.epoch }

@[simp] theorem count_withSleeper (thread : Nat) (p : Permits) :
    (p.withSleeper thread).count = p.count :=
  rfl

/-- One more thread sleeps. -/
theorem isAsleep_withSleeper_eq (thread t : Nat) (p : Permits) :
    (p.withSleeper thread).parker.isAsleep t = (p.parker.isAsleep t || thread == t) := by
  simp only [withSleeper, Parker.doze, Parker.enlist, Parker.isAsleep, List.any_append,
    List.any_cons, List.any_nil, Bool.or_false]

/-! ### The ends of a wait -/

theorem await_of_pos (h : 0 < p.count) (thread : Nat) (limit : Patience) (last : Bool) :
    p.await thread limit last false 0 [] = ⟨some .acquired, 0, p.taken⟩ := by
  simp only [await, round, take?_eq_some h]

theorem await_cancelled (h : p.count = 0) (thread : Nat) (limit : Patience) :
    p.await thread limit true false 0 [] = ⟨some .cancelled, 1, p⟩ := by
  simp only [await, round, take?_of_eq_zero h, List.foldl_nil, if_true, Nat.zero_add]

theorem await_timedOut (h : p.count = 0) (hp : p.parker.parked < Word.size) (thread : Nat)
    {limit : Patience} (hl : limit.isLong = false) :
    ∃ n, p.await thread limit false false 0 [] = ⟨some .timedOut, n, p⟩ := by
  cases limit with
  | lasting | endless => cases hl
  | instant =>
    exact ⟨1, by simp [await, round, take?_of_eq_zero h]⟩
  | brief =>
    -- the limit passes inside the parker, and the next round finds it passed
    exact ⟨2, by simp [await, round, take?_of_eq_zero h, Parker.park_of_short hp thread hl]⟩

theorem await_asleep (h : p.count = 0) (thread : Nat) {limit : Patience}
    (hl : limit.isLong = true) :
    p.await thread limit false false 0 [] = ⟨none, 1, p.withSleeper thread⟩ := by
  have hne : limit ≠ .instant := by
    rintro rfl
    cases hl
  simp [await, round, take?_of_eq_zero h, hne, Parker.park_of_long _ _ hl, withSleeper]

/-! ### A wait as one operation -/

/-- How a wait ends at a counter: the outcome and the counter afterwards. -/
def waited (thread : Nat) (limit : Patience) (last : Bool) (p : Permits) :
    Option Outcome × Permits :=
  if 0 < p.count then (some .acquired, p.taken)
  else if last then (some .cancelled, p)
  else if limit.isLong then (none, p.withSleeper thread)
  else (some .timedOut, p)

theorem resume_eq (hp : p.parker.parked < Word.size) (thread : Nat) (limit : Patience)
    (last : Bool) : p.resume thread limit last = p.waited thread limit last := by
  unfold resume waited
  by_cases h : 0 < p.count
  · simp only [await_of_pos h, if_pos h]
  · have h0 : p.count = 0 := by omega
    rw [if_neg h]
    cases last with
    | true => simp only [await_cancelled h0, if_true]
    | false =>
      cases hl : limit.isLong with
      | true => simp [await_asleep h0 thread hl]
      | false =>
        obtain ⟨n, hn⟩ := await_timedOut h0 hp thread hl
        simp [hn]

theorem acquire_eq (hp : p.parker.parked < Word.size) (thread : Nat) (limit : Patience)
    (last : Bool) :
    ((p.acquire thread limit [] last).outcome, (p.acquire thread limit [] last).permits) =
      p.waited thread limit last := by
  by_cases h : 0 < p.count
  · simp only [acquire, take?_eq_some h, waited, if_pos h]
  · rw [acquire, take?_of_eq_zero (by omega)]
    exact resume_eq hp thread limit last

end Permits

end PermitRing
