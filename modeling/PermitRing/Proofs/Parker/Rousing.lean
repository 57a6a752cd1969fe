import PermitRing.Proofs.Permits.Waiting
import Mathlib.Data.List.Nodup
import Mathlib.Data.List.Perm.Basic

/-!
# Whom a wake reaches

In a settled run a parker counts exactly those who sleep at it, so a wake that finds nobody counted
leaves nobody behind. A single wake takes one sleeper away, whichever it reaches, and a wake of all
takes everybody away. What a counter of permits does to its sleepers is measured by the sum of its
permits and its sleepers: as long as somebody sleeps, handing a permit back does not raise this sum,
since it rouses somebody, and taking one lowers it.

## Main definitions

* `Parker.Sound` — the count agrees with the sleepers;
* `Permits.Eases` — nobody falls asleep, and the sum goes down by a number while anybody sleeps.

## Main results

* `Parker.length_unparkOne`, `sleepers_unparkAll` — whom the wakes reach;
* `Parker.sleepers_expire` — who gets up when a time limit passes;
* `Permits.eases_release`, `eases_taken`, `eases_releaseAll`, `eases_expire` — the operations that do
  not wait.
-/

namespace PermitRing

/-- Where all have different numbers, taking one out by its number is taking it out of its place. -/
theorem filter_ne_eq_eraseIdx {β : Type} {number : β → Nat} {l : List β}
    (h : (l.map number).Nodup) {k : Nat} {a : β} (ha : l[k]? = some a) :
    (l.filter fun b => number b != number a) = l.eraseIdx k := by
  induction l generalizing k with
  | nil => cases ha
  | cons b l ih =>
    rw [List.map_cons, List.nodup_cons] at h
    obtain ⟨hb, hl⟩ := h
    cases k with
    | zero =>
      -- nobody else has the number, so the rest stays as it is
      obtain rfl : b = a := Option.some.inj ha
      rw [List.filter_cons_of_neg (by simp), List.eraseIdx_zero, List.tail_cons,
        List.filter_eq_self]
      intro c hc
      rw [bne_iff_ne]
      intro he
      exact hb (he ▸ List.mem_map_of_mem hc)
    | succ k =>
      have ha : l[k]? = some a := ha
      have hne : number b ≠ number a := fun he =>
        hb (he ▸ List.mem_map_of_mem (List.mem_of_getElem? ha))
      rw [List.filter_cons_of_pos (by simpa using hne), ih hl ha, List.eraseIdx_cons_succ]

/-- Where all have different numbers, taking one out by its number takes out nobody else. -/
theorem perm_cons_filter_ne {β : Type} {number : β → Nat} {l : List β}
    (h : (l.map number).Nodup) {a : β} (ha : a ∈ l) :
    l.Perm (a :: l.filter fun b => number b != number a) := by
  obtain ⟨k, hk⟩ := List.mem_iff_getElem?.mp ha
  obtain ⟨hlt, hget⟩ := List.getElem?_eq_some_iff.mp hk
  rw [filter_ne_eq_eraseIdx h hk, ← hget]
  exact (List.getElem_cons_eraseIdx_perm hlt).symm

namespace Parker

variable {p : Parker}

/-! ### Parkers that count their sleepers -/

/-- The sleepers are different threads, all of them are counted, and the operating system rouses
whoever a wake reaches. -/
structure Sound (p : Parker) : Prop where
  kind : p.kind = .futex
  parked : p.parked = p.sleepers.length
  nodup : (p.sleepers.map Sleeper.thread).Nodup

theorem mem_threads_iff {t : Nat} :
    t ∈ p.sleepers.map Sleeper.thread ↔ p.isAsleep t = true := by
  simp only [isAsleep, List.mem_map, List.any_eq_true, beq_iff_eq]

theorem parked_pos_iff (h : p.Sound) : 0 < p.parked ↔ p.sleepers ≠ [] := by
  rw [h.parked, List.length_pos_iff]

/-! ### A single wake -/

/-- The wake finds a sleeper where there is one, whatever the choice. -/
theorem exists_nextSleeper? (h : p.sleepers ≠ []) :
    ∃ s ∈ p.sleepers, p.nextSleeper? = some s := by
  have hlt : p.order p.rouses % p.sleepers.length < p.sleepers.length :=
    Nat.mod_lt _ (List.length_pos_iff.mpr h)
  exact ⟨_, List.getElem_mem hlt, List.getElem?_eq_getElem hlt⟩

/-- The parker after a sleeper got up whom a single wake has reached. -/
def roused (z : Sleeper) (p : Parker) : Parker :=
  { p with
    parked := p.parked - 1, rouses := p.rouses + 1
    sleepers := p.sleepers.filter fun y => y.thread != z.thread }

@[simp] theorem kind_roused (z : Sleeper) (p : Parker) : (p.roused z).kind = p.kind :=
  rfl

@[simp] theorem parked_roused (z : Sleeper) (p : Parker) : (p.roused z).parked = p.parked - 1 :=
  rfl

@[simp] theorem sleepers_roused (z : Sleeper) (p : Parker) :
    (p.roused z).sleepers = p.sleepers.filter fun y => y.thread != z.thread :=
  rfl

/-- A single wake where nobody sleeps. -/
theorem unparkOne_of_nil (h : p.parked = p.sleepers.length) (hn : p.sleepers = []) :
    p.unparkOne = p.bump := by
  refine if_pos ?_
  rw [show p.bump.parked = p.parked from rfl, h, hn, List.length_nil]

/-- A single wake reaches this sleeper. With a condition variable it may sleep on. -/
theorem unparkOne_of_next (h : p.parked = p.sleepers.length) {z : Sleeper}
    (hz : p.nextSleeper? = some z) :
    p.unparkOne =
      if p.bump.sleepsOn z then { p.bump with rouses := p.rouses + 1 } else p.bump.roused z := by
  have hpos : 0 < p.parked := h ▸ List.length_pos_of_mem (List.mem_of_getElem? hz)
  rw [unparkOne, if_neg (by rw [show p.bump.parked = p.parked from rfl]; omega), rouseOne,
    show p.bump.nextSleeper? = p.nextSleeper? from rfl, hz, roused,
    ← Word.pred_eq (show 0 < p.bump.parked from hpos)]
  rfl

/-- A single wake reaches one sleeper, if there is any. With a condition variable this one may
sleep on. -/
theorem unparkOne_cases (h : p.parked = p.sleepers.length) :
    (p.sleepers = [] ∧ p.unparkOne = p.bump) ∨
      ∃ z ∈ p.sleepers, p.unparkOne =
        if p.bump.sleepsOn z then { p.bump with rouses := p.rouses + 1 } else p.bump.roused z := by
  by_cases hn : p.sleepers = []
  · exact .inl ⟨hn, unparkOne_of_nil h hn⟩
  · obtain ⟨z, hz, hnext⟩ := exists_nextSleeper? hn
    exact .inr ⟨z, hz, unparkOne_of_next h hnext⟩

/-- A single wake takes one thread out of the sleepers, if there is any. -/
theorem unparkOne_eq (h : p.Sound) :
    (p.sleepers = [] ∧ p.unparkOne = p.bump) ∨
      ∃ s ∈ p.sleepers, p.unparkOne = p.bump.roused s := by
  rcases unparkOne_cases h.parked with he | ⟨s, hs, he⟩
  · exact .inl he
  · -- with a futex whoever is roused gets up
    have hgets : p.bump.sleepsOn s = false := by simp only [sleepsOn, bump, h.kind]
    exact .inr ⟨s, hs, he.trans (if_neg (by rw [hgets]; exact Bool.false_ne_true))⟩

theorem sublist_unparkOne (h : p.parked = p.sleepers.length) :
    p.unparkOne.sleepers.Sublist p.sleepers := by
  rcases unparkOne_cases h with ⟨-, he⟩ | ⟨s, -, he⟩
  · rw [he]
    exact List.Sublist.refl _
  · rw [he]
    split
    · exact List.Sublist.refl _
    · exact List.filter_sublist

theorem parked_unparkOne (h : p.parked = p.sleepers.length)
    (hn : (p.sleepers.map Sleeper.thread).Nodup) :
    p.unparkOne.parked = p.unparkOne.sleepers.length := by
  rcases unparkOne_cases h with ⟨-, he⟩ | ⟨s, hs, he⟩
  · rw [he]
    exact h
  · rw [he]
    split
    · exact h
    · have := (perm_cons_filter_ne hn hs).length_eq
      rw [List.length_cons, ← h] at this
      change p.parked - 1 = (p.sleepers.filter fun y => y.thread != s.thread).length
      omega

theorem kind_unparkOne (h : p.parked = p.sleepers.length) : p.unparkOne.kind = p.kind := by
  rcases unparkOne_cases h with ⟨-, he⟩ | ⟨s, hs, he⟩
  · rw [he]
    rfl
  · rw [he]
    split <;> rfl

theorem Sound.unparkOne (h : p.Sound) : p.unparkOne.Sound :=
  ⟨(kind_unparkOne h.parked).trans h.kind, parked_unparkOne h.parked h.nodup,
    h.nodup.sublist ((sublist_unparkOne h.parked).map _)⟩

/-- A single wake reaches exactly one sleeper, if there is any. -/
theorem length_unparkOne (h : p.Sound) :
    p.unparkOne.sleepers.length = p.sleepers.length - 1 := by
  rcases unparkOne_eq h with ⟨hn, he⟩ | ⟨s, hs, he⟩
  · rw [he, show p.bump.sleepers = p.sleepers from rfl, hn]
    rfl
  · have := (perm_cons_filter_ne h.nodup hs).length_eq
    rw [List.length_cons] at this
    rw [he]
    change (p.sleepers.filter fun y => y.thread != s.thread).length = _
    omega

/-! ### A wake of all -/

theorem repeat_pred {k n : Nat} (h : k ≤ n) : k.repeat Word.pred n = n - k := by
  induction k with
  | zero => rfl
  | succ k ih =>
    rw [Nat.repeat, ih (by omega), Word.pred_eq (by omega)]
    omega

/-- After a wake of all only those are asleep who sleep on, and they are still counted. -/
theorem unparkAll_of_parked (h : p.parked = p.sleepers.length) :
    p.unparkAll =
      { p.bump with
        parked := (p.sleepers.filter p.bump.sleepsOn).length
        sleepers := p.sleepers.filter p.bump.sleepsOn } := by
  by_cases hn : p.parked = 0
  · have hs : p.sleepers = [] := by rw [← List.length_eq_zero_iff, ← h, hn]
    rw [unparkAll, if_pos (show p.bump.parked = 0 from hn), hs, List.filter_nil, List.length_nil,
      ← hn, ← hs]
    rfl
  · rw [unparkAll, if_neg (show ¬p.bump.parked = 0 from hn), rouseAll, repeat_leave]
    rw [show p.bump.sleepers = p.sleepers from rfl, show p.bump.parked = p.parked from rfl]
    have hlen := List.length_eq_length_filter_add (l := p.sleepers) p.bump.sleepsOn
    dsimp only
    rw [repeat_pred (by omega)]
    congr 1
    omega

theorem unparkAll_eq (h : p.Sound) :
    p.unparkAll.sleepers = [] ∧ p.unparkAll.parked = 0 ∧ p.unparkAll.kind = p.kind := by
  have hsleeps : p.bump.sleepsOn = fun _ => false := by
    funext s
    simp only [sleepsOn, bump, h.kind]
  rw [unparkAll_of_parked h.parked, hsleeps, List.filter_false]
  exact ⟨rfl, rfl, rfl⟩

/-- A wake of all reaches everybody. -/
theorem sleepers_unparkAll (h : p.Sound) : p.unparkAll.sleepers = [] :=
  (unparkAll_eq h).1

theorem Sound.unparkAll (h : p.Sound) : p.unparkAll.Sound := by
  obtain ⟨hs, hn, hk⟩ := unparkAll_eq h
  exact ⟨hk.trans h.kind, by rw [hs, hn]; rfl, by rw [hs]; exact List.nodup_nil⟩

/-! ### A time limit passes -/

/-- Nobody gets up but the thread whose time is up. -/
theorem sleepers_expire (p : Parker) (thread : Nat) :
    (p.expire thread).sleepers = p.sleepers.filter fun z => z.thread != thread := by
  rw [expire]
  split
  · rfl
  · rename_i ha
    refine (List.filter_eq_self.mpr fun z hz => ?_).symm
    rw [bne_iff_ne]
    rintro rfl
    exact ha (mem_threads_iff.mp (List.mem_map_of_mem hz))

theorem Sound.expire (h : p.Sound) (thread : Nat) : (p.expire thread).Sound := by
  refine ⟨?_, ?_, ?_⟩
  · rw [Parker.expire]
    split <;> exact h.kind
  · rw [sleepers_expire, Parker.expire]
    by_cases ha : p.isAsleep thread = true
    · obtain ⟨z, hz, rfl⟩ := List.mem_map.mp (mem_threads_iff.mpr ha)
      have hlen := (perm_cons_filter_ne h.nodup hz).length_eq
      rw [List.length_cons, ← h.parked] at hlen
      have hpos : 0 < p.parked := by omega
      rw [if_pos ha]
      change Word.pred p.parked = _
      rw [Word.pred_eq hpos]
      omega
    · have hrest := sleepers_expire p thread
      rw [Parker.expire, if_neg ha] at hrest
      rw [if_neg ha, ← hrest]
      exact h.parked
  · rw [sleepers_expire]
    exact h.nodup.sublist (List.filter_sublist.map _)

/-! ### Falling asleep -/

theorem parked_doze (h : p.parked = p.sleepers.length) (hp : p.parked + 1 < Word.size)
    (thread epoch : Nat) :
    (p.enlist.doze thread epoch).parked = (p.enlist.doze thread epoch).sleepers.length := by
  simp only [Parker.doze, enlist, List.length_append, List.length_singleton, Word.succ_eq hp]
  rw [h]

theorem nodup_doze (h : (p.sleepers.map Sleeper.thread).Nodup) {thread : Nat}
    (ha : p.isAsleep thread = false) (epoch : Nat) :
    ((p.enlist.doze thread epoch).sleepers.map Sleeper.thread).Nodup := by
  simp only [Parker.doze, enlist, List.map_append, List.map_cons, List.map_nil]
  refine List.nodup_append'.mpr ⟨h, List.nodup_singleton _, ?_⟩
  rw [List.disjoint_singleton, mem_threads_iff, ha]
  exact Bool.false_ne_true

/-- A thread that does not sleep falls asleep, and is counted. -/
theorem Sound.doze (h : p.Sound) {thread : Nat} (ha : p.isAsleep thread = false)
    (hp : p.parked + 1 < Word.size) (epoch : Nat) : (p.enlist.doze thread epoch).Sound :=
  ⟨h.kind, parked_doze h.parked hp thread epoch, nodup_doze h.nodup ha epoch⟩

end Parker

namespace Permits

variable {m n : Nat} {p q r : Permits}

/-! ### Permits and sleepers together -/

/-- From `p` to `q` nobody falls asleep. If somebody still sleeps, then the permits and the sleepers
together have become fewer by `n`. -/
structure Eases (n : Nat) (p q : Permits) : Prop where
  sleepers : q.parker.sleepers.Sublist p.parker.sleepers
  fewer : q.parker.sleepers ≠ [] →
    q.count + q.parker.sleepers.length + n ≤ p.count + p.parker.sleepers.length

theorem Eases.refl (p : Permits) : Eases 0 p p :=
  ⟨List.Sublist.refl _, fun _ => Nat.le_refl _⟩

theorem Eases.trans (h : Eases m p q) (h' : Eases n q r) : Eases (m + n) p r := by
  refine ⟨h'.sleepers.trans h.sleepers, fun hr => ?_⟩
  have hq : q.parker.sleepers ≠ [] := fun he => hr (List.sublist_nil.mp (he ▸ h'.sleepers))
  have := h.fewer hq
  have := h'.fewer hr
  omega

theorem Eases.mono (h : Eases m p q) (hn : n ≤ m) : Eases n p q := by
  refine ⟨h.sleepers, fun hq => ?_⟩
  have := h.fewer hq
  omega

/-- Where everybody has got up there is nothing to count. -/
theorem eases_of_nil (h : q.parker.sleepers = []) : Eases n p q :=
  ⟨h ▸ List.nil_sublist _, fun hq => absurd h hq⟩

theorem eases_taken (h : 0 < p.count) : Eases 1 p p.taken := by
  refine ⟨List.Sublist.refl _, fun _ => ?_⟩
  simp only [count_taken, parker_taken]
  omega

/-- A permit that is handed back takes a sleeper along. -/
theorem eases_release (h : p.parker.Sound) (hc : p.count + 1 < Word.size) :
    Eases 0 p p.release := by
  refine ⟨Parker.sublist_unparkOne h.parked, fun hq => ?_⟩
  have hlen : p.release.parker.sleepers.length = p.parker.sleepers.length - 1 :=
    Parker.length_unparkOne h
  have hpos := List.length_pos_iff.mpr hq
  rw [count_release, Word.succ_eq hc, hlen]
  omega

theorem sleepers_releaseAll (h : p.parker.Sound) : p.releaseAll.parker.sleepers = [] :=
  Parker.sleepers_unparkAll h

theorem eases_releaseAll (h : p.parker.Sound) : Eases n p p.releaseAll :=
  eases_of_nil (sleepers_releaseAll h)

theorem eases_expire (p : Permits) (thread : Nat) : Eases 0 p (p.expire thread) := by
  have hsub : (p.expire thread).parker.sleepers.Sublist p.parker.sleepers := by
    rw [expire, Parker.sleepers_expire]
    exact List.filter_sublist
  exact ⟨hsub, fun _ => Nat.add_le_add_left hsub.length_le p.count⟩

end Permits

end PermitRing
