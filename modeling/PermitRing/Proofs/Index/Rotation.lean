import Mathlib.Algebra.Order.Floor.Div
import Mathlib.Data.Int.CardIntervalMod
import PermitRing.Index.Race
import PermitRing.Proofs.Index.Claims
import PermitRing.Proofs.Sums

/-!
# A shared index goes round in turn

Any number of threads claim positions of one shared index, each as often as it likes, and their
steps interleave in any way. The position that a thread has read may be out of date when it swaps,
and in a ring it may even have come round to the same number again. Neither matters: a swap that
succeeds hands out the position at which the index stands and moves the index on by one, so whoever
has read that number, and however long ago, takes the turn that is due.

The invariant counts turns and not positions: after so many claims the index stands at their number
modulo the number of slots, and what was handed out is `0, 1, …` up to there, by the same modulus.

## Main definitions

* `Race.lineup` — threads that make a number of claims each;
* `Race.Turns` — the invariant.

## Main results

* `count_turns_eq`, `sub_ceilDiv` — how often a position comes up in so many turns;
* `Race.Turns.step_cases` — what a step can be;
* `Race.Turns.step`, `Turns.run` — the invariant is kept;
* `Race.Turns.finishes` — a thread that is let alone gets on;
* `Race.rotation` — the positions, the order in which they are handed out, and how often each is.
-/

namespace PermitRing.Index

/-! ### How often a position comes up -/

/-- Each position comes up once in every full turn, and once more if it lies in the turn begun. -/
theorem count_turns_eq {n i : Nat} (hi : i < n) (k : Nat) :
    ((List.range k).map (· % n)).count i = k / n + if i < k % n then 1 else 0 := by
  have hcount : ((List.range k).map (· % n)).count i = k.count (· ≡ i [MOD n]) := by
    induction k with
    | zero => rfl
    | succ k ih =>
      rw [List.range_succ, List.map_append, List.count_append, ih, Nat.count_succ,
        List.map_singleton, List.count_singleton]
      simp only [Nat.ModEq, Nat.mod_eq_of_lt hi, beq_iff_eq]
  rw [hcount, Nat.count_modEq_card _ (Nat.zero_lt_of_lt hi), Nat.mod_eq_of_lt hi]

/-- The turns from a position on, as full turns and the one begun. -/
theorem sub_ceilDiv {n i : Nat} (hi : i < n) (k : Nat) :
    (k - i) ⌈/⌉ n = k / n + if i < k % n then 1 else 0 := by
  have hn : 0 < n := Nat.zero_lt_of_lt hi
  have hlt := Nat.mod_lt k hn
  have hk := Nat.div_add_mod k n
  rw [Nat.ceilDiv_eq_add_pred_div]
  generalize k / n = q at *
  generalize k % n = s at *
  subst hk
  split
  · rw [show n * q + s - i + n - 1 = s - i - 1 + n * (q + 1) by rw [Nat.mul_succ]; omega,
      Nat.add_mul_div_left _ _ hn, Nat.div_eq_of_lt (by omega), Nat.zero_add]
  · cases q with
    | zero => exact Nat.div_eq_of_lt (by omega)
    | succ q =>
      rw [show n * (q + 1) + s - i + n - 1 = s + n - 1 - i + n * (q + 1) by
          rw [Nat.mul_succ]; omega,
        Nat.add_mul_div_left _ _ hn, Nat.div_eq_of_lt (by omega), Nat.zero_add, Nat.add_zero]

namespace Race

variable {n : Nat} {r : Race}

/-! ### Threads and their claims -/

/-- Threads that make a number of claims each, before the first of them. -/
def lineup (kind : Kind) (capacity : Nat) (claims : List Nat) : Race where
  capacity := capacity
  index := { kind }
  claimants := (claims.map fun left => { left }).toArray

theorem start_eq_lineup (kind : Kind) (capacity threads each : Nat) :
    start kind capacity threads each = lineup kind capacity (List.replicate threads each) := by
  simp only [start, lineup, List.map_replicate, List.toArray_replicate]

/-- The claims that have not been finished. -/
def remaining (r : Race) : Nat :=
  (r.claimants.toList.map Claimant.left).sum

/-! ### The invariant -/

/-- A shared index of `n` slots whose turns have been handed out in order. -/
structure Turns (n : Nat) (r : Race) : Prop where
  capacity : r.capacity = n
  kind : r.index.kind = .shared
  /-- A thread in the middle of a claim has read the place of a slot. -/
  points : ∀ (t : Nat) (c : Claimant), r.claimants[t]? = some c →
    c.point = .start ∨ ∃ old < n, c.point = .swap old
  /-- What was handed out, the first claim first. -/
  claimed : r.claimed.reverse = (List.range r.claimed.length).map fun k => .ok (k % n)
  /-- Where the index stands. -/
  position : r.index.position = r.claimed.length % n

theorem turns_lineup (n : Nat) (claims : List Nat) : (lineup .shared n claims).Turns n where
  capacity := rfl
  kind := rfl
  points t c h := by
    simp only [lineup, List.getElem?_toArray, List.getElem?_map, Option.map_eq_some_iff] at h
    obtain ⟨left, -, rfl⟩ := h
    exact .inl rfl
  claimed := rfl
  position := (Nat.zero_mod n).symm

/-- The thread has read the position at which the index stands. -/
def looked (t : Nat) (c : Claimant) (r : Race) : Race :=
  { r with
    claimants := r.claimants.setIfInBounds t { c with point := .swap r.index.position } }

/-- The thread has taken the turn that was due. -/
def advanced (t : Nat) (c : Claimant) (r : Race) : Race :=
  { r with
    index := { r.index with position := (r.index.position + 1) % r.capacity }
    claimants := r.claimants.setIfInBounds t ⟨c.left - 1, .start⟩
    claimed := .ok r.index.position :: r.claimed }

namespace Turns

/-- A thread that has claims left is before a claim, or has read the place of a slot. -/
theorem below (h : r.Turns n) {t : Nat} {c : Claimant} (hc : r.claimants[t]? = some c) :
    c.point.Below n := by
  rcases h.points t c hc with hp | ⟨old, hold, hp⟩
  · rw [hp]
    trivial
  · rw [hp]
    exact hold

/-- **What a step can be.** A thread without claims left takes none. Any other reads the position,
or takes the turn that is due; the latter only if what it has read is where the index stands. -/
theorem step_cases (h : r.Turns n) (hsize : n < Word.size) (t : Nat) (spurious : Bool) :
    (r.step t spurious = r ∧ ∀ c, r.claimants[t]? = some c → c.left = 0) ∨
      ∃ c, r.claimants[t]? = some c ∧ 0 < c.left ∧
        (r.step t spurious = r.looked t c ∨
          c.point = .swap r.index.position ∧ r.step t spurious = r.advanced t c) := by
  rw [Race.step]
  cases hc : r.claimants[t]? with
  | none => exact .inl ⟨rfl, nofun⟩
  | some c =>
    dsimp only
    split
    · rename_i hleft
      exact .inl ⟨rfl, fun d hd => Option.some.inj hd ▸ hleft⟩
    · rename_i hleft
      refine .inr ⟨c, rfl, Nat.pos_of_ne_zero hleft, ?_⟩
      rcases hs : c.point.step r.capacity spurious r.index with ⟨p, x⟩
      have hclaims := claims_of_step (h.capacity ▸ hsize) (h.capacity ▸ h.below hc) hs
      have hpoint := h.points t c hc
      generalize hat : c.point = point at hpoint hclaims
      cases hclaims with
      | busy hk | enter hk => exact absurd (h.kind.symm.trans hk) nofun
      | load | retry => exact .inl rfl
      | swap ho =>
        subst ho
        exact .inr ⟨rfl, rfl⟩
      | read | store | leave => rcases hpoint with hp | ⟨old, -, hp⟩ <;> cases hp

/-- The threads after one of them has moved. -/
theorem points_set (h : r.Turns n) (t : Nat) {d : Claimant}
    (hd : d.point = .start ∨ ∃ old < n, d.point = .swap old) (u : Nat) (c : Claimant)
    (hc : (r.claimants.setIfInBounds t d)[u]? = some c) :
    c.point = .start ∨ ∃ old < n, c.point = .swap old := by
  by_cases hu : t = u
  · subst hu
    rw [Array.getElem?_setIfInBounds_self] at hc
    split at hc
    · cases hc
      exact hd
    · cases hc
  · rw [Array.getElem?_setIfInBounds_ne hu] at hc
    exact h.points u c hc

theorem looked (h : r.Turns n) (hpos : 0 < n) (t : Nat) (c : Claimant) :
    (r.looked t c).Turns n where
  capacity := h.capacity
  kind := h.kind
  points := h.points_set t (.inr ⟨_, h.position ▸ Nat.mod_lt _ hpos, rfl⟩)
  claimed := h.claimed
  position := h.position

theorem advanced (h : r.Turns n) (t : Nat) (c : Claimant) : (r.advanced t c).Turns n where
  capacity := h.capacity
  kind := h.kind
  points := h.points_set t (.inl rfl)
  claimed := by
    rw [Race.advanced, List.reverse_cons, h.claimed, List.length_cons, List.range_succ,
      List.map_append, List.map_singleton, h.position]
  position := by
    rw [Race.advanced, List.length_cons, h.capacity, h.position, Nat.mod_add_mod]

/-- **A step keeps the turns in order.** -/
theorem step (h : r.Turns n) (hpos : 0 < n) (hsize : n < Word.size) (t : Nat) (spurious : Bool) :
    (r.step t spurious).Turns n := by
  rcases h.step_cases hsize t spurious with ⟨he, -⟩ | ⟨c, -, -, he | ⟨-, he⟩⟩
  · rwa [he]
  · rw [he]
    exact h.looked hpos t c
  · rw [he]
    exact h.advanced t c

/-- **A run keeps the turns in order.** -/
theorem run (h : r.Turns n) (hpos : 0 < n) (hsize : n < Word.size)
    (schedule : List (Nat × Bool)) : (r.run schedule).Turns n := by
  induction schedule generalizing r with
  | nil => exact h
  | cons c schedule ih => exact ih (h.step hpos hsize c.1 c.2)

/-- The positions that were handed out. -/
theorem positions_eq (h : r.Turns n) :
    r.positions = (List.range r.claimed.length).map (· % n) := by
  rw [positions, h.claimed, List.filterMap_map]
  exact congrFun List.filterMap_eq_map _

end Turns

/-! ### The claims that are left -/

theorem remaining_lineup (n : Nat) (claims : List Nat) :
    (lineup .shared n claims).remaining = claims.sum := by
  simp only [remaining, lineup, List.map_map]
  exact congrArg List.sum (List.map_id' claims)

/-- The claims left change by those of the thread that has moved. -/
theorem sum_left_set {cs : Array Claimant} {t : Nat} {c : Claimant} (h : cs[t]? = some c)
    (d : Claimant) :
    ((cs.setIfInBounds t d).toList.map Claimant.left).sum + c.left =
      (cs.toList.map Claimant.left).sum + d.left := by
  have hc : cs.toList[t]? = some c := by rw [Array.getElem?_toList, h]
  rw [Array.toList_setIfInBounds, sum_map_set hc, sum_map_eq_add hc]
  omega

/-- A claim is finished where one fewer is left. -/
theorem Turns.remaining_step (h : r.Turns n) (hsize : n < Word.size) (t : Nat) (spurious : Bool) :
    (r.step t spurious).claimed.length + (r.step t spurious).remaining =
      r.claimed.length + r.remaining := by
  rcases h.step_cases hsize t spurious with ⟨he, -⟩ | ⟨c, hc, hleft, he | ⟨-, he⟩⟩
  · rw [he]
  · have hsum := sum_left_set hc { c with point := .swap r.index.position }
    rw [he]
    exact congrArg _ (Nat.add_right_cancel hsum)
  · have hsum := sum_left_set hc ⟨c.left - 1, .start⟩
    rw [he]
    simp only [Race.advanced, List.length_cons, remaining]
    dsimp only at hsum
    omega

theorem Turns.remaining_run (h : r.Turns n) (hpos : 0 < n) (hsize : n < Word.size)
    (schedule : List (Nat × Bool)) :
    (r.run schedule).claimed.length + (r.run schedule).remaining =
      r.claimed.length + r.remaining := by
  induction schedule generalizing r with
  | nil => rfl
  | cons c schedule ih =>
    exact (ih (h.step hpos hsize c.1 c.2)).trans (h.remaining_step hsize c.1 c.2)

/-! ### A thread that is let alone -/

/-- Whoever has read the position at which the index stands gets it. -/
theorem Turns.step_of_due (h : r.Turns n) (hpos : 0 < n) (hsize : n < Word.size) {t : Nat}
    {c : Claimant} (hc : r.claimants[t]? = some c) (hleft : 0 < c.left)
    (hp : c.point = .swap r.index.position) : r.step t false = r.advanced t c := by
  have hlt : r.index.position < n := h.position ▸ Nat.mod_lt _ hpos
  have hnext := next_eq hlt hsize
  simp only [Race.step, hc, if_neg (Nat.ne_of_gt hleft), hp, Claiming.step, h.capacity, hnext,
    and_self, if_true, Race.advanced]

theorem Turns.claimed_le_step (h : r.Turns n) (hsize : n < Word.size) (t : Nat)
    (spurious : Bool) : r.claimed.length ≤ (r.step t spurious).claimed.length := by
  rcases h.step_cases hsize t spurious with ⟨he, -⟩ | ⟨c, -, -, he | ⟨-, he⟩⟩
  · rw [he]
  · rw [he]
    exact Nat.le_refl _
  · rw [he]
    exact Nat.le_succ _

/-- Two steps of a thread that nobody disturbs finish a claim, however old what it has read. -/
theorem Turns.finishes (h : r.Turns n) (hpos : 0 < n) (hsize : n < Word.size) {t : Nat}
    {c : Claimant} (hc : r.claimants[t]? = some c) (hleft : 0 < c.left) :
    r.claimed.length < (r.run [(t, false), (t, false)]).claimed.length := by
  have hnext := h.step hpos hsize t false
  rcases h.step_cases hsize t false with ⟨-, hnone⟩ | ⟨d, hd, -, he | ⟨-, he⟩⟩
  · exact absurd (hnone c hc) (Nat.ne_of_gt hleft)
  · have hthere : (r.step t false).claimants[t]? =
        some { d with point := .swap r.index.position } := by
      rw [he]
      exact Array.getElem?_setIfInBounds_self_of_lt (Array.getElem?_eq_some_iff.mp hd).1
    have hdc : c = d := Option.some.inj (hc.symm.trans hd)
    have hdue := hnext.step_of_due hpos hsize hthere (hdc ▸ hleft) (by rw [he]; rfl)
    change _ < ((r.step t false).step t false).claimed.length
    rw [hdue, he]
    exact Nat.lt_succ_self _
  · have hle := hnext.claimed_le_step hsize t false
    rw [he] at hle
    change _ < ((r.step t false).step t false).claimed.length
    rw [he]
    exact hle

/-! ### Whole runs -/

/-- **A shared index goes round in turn.** Let any threads make any number of claims each, in a
ring of `n` slots, and let their steps interleave in any way, with swaps that fail without cause
among them. What the `T` claims finished so far have handed out, the first claim first, is `0`, `1`
and so on to `n - 1` and then `0` again, and the index stands at `T` modulo `n`. A position `i` was
handed out `⌈(T - i) / n⌉` times; so no two of these numbers differ by more than one, and they are
equal where full turns are complete. Every claim that was to be made is finished or still left, and
a thread that has one left finishes one in two steps if it is let alone. -/
theorem rotation (hpos : 0 < n) (hsize : n < Word.size) (claims : List Nat)
    (schedule : List (Nat × Bool)) :
    let r := (lineup .shared n claims).run schedule
    let T := r.claimed.length
    (r.claimed.reverse = (List.range T).map fun k => .ok (k % n)) ∧
      (∀ o ∈ r.claimed, ∃ i < n, o = .ok i) ∧
      r.index.position = T % n ∧
      (r.counts = (List.range n).map fun i => (T - i) ⌈/⌉ n) ∧
      (∀ x ∈ r.counts, ∀ y ∈ r.counts, x ≤ y + 1) ∧
      (n ∣ T → ∀ x ∈ r.counts, x = T / n) ∧
      T + r.remaining = claims.sum ∧
      ∀ t c, r.claimants[t]? = some c → 0 < c.left →
        T < (r.run [(t, false), (t, false)]).claimed.length := by
  intro r T
  have hstart := turns_lineup n claims
  have h : r.Turns n := hstart.run hpos hsize schedule
  have hcounts : r.counts = (List.range n).map fun i => T / n + if i < T % n then 1 else 0 := by
    rw [counts, h.capacity, h.positions_eq]
    refine List.map_congr_left fun i hi => ?_
    exact count_turns_eq (List.mem_range.mp hi) T
  have hcount : ∀ x ∈ r.counts, ∃ i < n, x = T / n + if i < T % n then 1 else 0 := by
    intro x hx
    rw [hcounts, List.mem_map] at hx
    obtain ⟨i, hi, rfl⟩ := hx
    exact ⟨i, List.mem_range.mp hi, rfl⟩
  refine ⟨h.claimed, fun o ho => ?_, h.position, ?_, fun x hx y hy => ?_, fun hdvd x hx => ?_, ?_,
    fun t c hc hleft => h.finishes hpos hsize hc hleft⟩
  · rw [← List.mem_reverse, h.claimed, List.mem_map] at ho
    obtain ⟨k, -, rfl⟩ := ho
    exact ⟨_, Nat.mod_lt k hpos, rfl⟩
  · rw [hcounts]
    exact List.map_congr_left fun i hi => (sub_ceilDiv (List.mem_range.mp hi) T).symm
  · obtain ⟨i, -, rfl⟩ := hcount x hx
    obtain ⟨j, -, rfl⟩ := hcount y hy
    split <;> split <;> omega
  · obtain ⟨i, -, rfl⟩ := hcount x hx
    rw [Nat.mod_eq_zero_of_dvd hdvd, if_neg (Nat.not_lt_zero i), Nat.add_zero]
  · have hleft := hstart.remaining_run hpos hsize schedule
    rwa [remaining_lineup, show (lineup .shared n claims).claimed.length = 0 from rfl,
      Nat.zero_add] at hleft

/-- The first thread reads `0` and is overtaken by the second, which goes once round a ring of two
slots, one of its swaps failing without cause. Then the first one swaps, with what it read. -/
def overtaken : List (Nat × Bool) :=
  [(0, false), (1, false), (1, true), (1, false), (1, false), (1, false), (0, false)]

/-- The stale `0` is due again, and is neither skipped nor handed out twice. -/
theorem rotation_overtaken :
    0 < 2 ∧ 2 < Word.size ∧
      ((lineup .shared 2 [1, 2]).run overtaken).claimed.reverse = [.ok 0, .ok 1, .ok 0] ∧
      ((lineup .shared 2 [1, 2]).run overtaken).counts = [2, 1] ∧
      ((lineup .shared 2 [1, 2]).run overtaken).index.position = 1 ∧
      ((lineup .shared 2 [1, 2]).run overtaken).remaining = 0 := by
  have hsize : 2 < Word.size := by decide
  obtain ⟨hclaimed, -, hposition, hcounts, -, -, hleft, -⟩ :=
    rotation Nat.two_pos hsize [1, 2] overtaken
  have hthree : ((lineup .shared 2 [1, 2]).run overtaken).claimed.length = 3 := by decide
  rw [hthree] at hclaimed hposition hcounts hleft
  exact ⟨Nat.two_pos, hsize, hclaimed, hcounts, hposition, Nat.add_left_cancel hleft⟩

end Race

end PermitRing.Index
