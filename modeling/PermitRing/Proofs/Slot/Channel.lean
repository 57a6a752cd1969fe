import Mathlib.Algebra.Order.BigOperators.Group.List
import Mathlib.Data.Multiset.OrderedMonoid
import Mathlib.Tactic.Abel
import PermitRing.Proofs.Slot.Tenants
import PermitRing.Proofs.Sums

/-!
# A slot is a channel with one place

Any number of threads move elements into one slot and out of it, each as often as it likes, and
their steps interleave in any way. No thread knows of another: the phase word alone decides who is
let in. So it is this word that keeps two threads from touching the cell at once, a writer from
laying its element over another one, and a taker from reading a cell without one.

The invariant compares the slot with the threads. The threads that are between their claim and the
end of their call are the tenants that the slot shows, of whom there is at most one. What has been
moved in and not been handed over is in the cell or in a taker's hands, and it is what a channel
with one place holds after the same writes and takes.

## Main definitions

* `Slot.Call`, `Slot.Crowd` — threads that write and take, and their steps;
* `Slot.Exchanges` — the histories of a channel with one place.

## Main results

* `Slot.Exchanges.alternates`, `Exchanges.written_eq` — writes and takes alternate, and what is
  taken is what was written;
* `Slot.Visit.balances` — what a thread's step does to the slot;
* `Slot.Crowd.Attended.step`, `Attended.run` — the invariant is kept;
* `Slot.Crowd.one_place` — whole runs, and what is left to destroy.
-/

namespace PermitRing.Slot

variable {α : Type}

/-! ### Threads at a slot -/

/-- A call at a slot, with the wait that the caller brings along. -/
inductive Call (α : Type)
  /-- Moves an element in. -/
  | write (v : α) (wait : Backoff)
  /-- Moves an element out. -/
  | take (wait : Backoff)
  deriving DecidableEq, Repr

/-- Where a thread stands inside a call. -/
inductive Visit (α : Type)
  /-- It moves an element in. -/
  | writing (v : α) (w : Writing)
  /-- It moves an element out. -/
  | taking (t : Taking α)
  deriving DecidableEq, Repr

/-- A call that was finished. -/
inductive Passage (α : Type)
  /-- The element was moved in. -/
  | written (v : α)
  /-- The element was moved out, and returned to the caller. -/
  | taken (v : α)
  deriving DecidableEq, Repr

/-- The point at which a call begins. -/
def Call.first : Call α → Visit α
  | .write v wait => .writing v (.claim wait)
  | .take wait => .taking (.claim wait)

/-- The next step inside a call. A claim may also fail without cause, which `spurious` says. -/
def Visit.step (spurious : Bool) :
    Visit α → Slot α → Progress (Visit α) (Passage α) × Slot α
  | .writing v w, s =>
    match w.step v spurious s with
    | (.more w, s) => (.more (.writing v w), s)
    | (.done (), s) => (.done (.written v), s)
  | .taking t, s =>
    match t.step spurious s with
    | (.more t, s) => (.more (.taking t), s)
    | (.done v, s) => (.done (.taken v), s)

/-- The thread is between its claim and the end of its call. -/
def Visit.isInside : Visit α → Bool
  | .writing _ (.claim _) | .taking (.claim _) => false
  | .writing _ .place | .writing _ .publish | .taking .remove | .taking (.vacate _) => true

/-- A thread. -/
structure Visitor (α : Type) where
  /-- The calls that it has not finished; it is inside the first one, if it is inside any. -/
  calls : List (Call α)
  /-- Where it stands; none between two calls. -/
  visit : Option (Visit α) := none
  deriving DecidableEq, Repr

/-- Threads at one slot. -/
structure Crowd (α : Type) where
  /-- The slot. -/
  slot : Slot α
  /-- The threads. -/
  visitors : List (Visitor α)
  /-- The calls that were finished, the first one first. -/
  moved : List (Passage α) := []
  deriving DecidableEq, Repr

namespace Crowd

/-- Threads before the first of their calls, at a slot without an element. -/
def launch (programs : List (List (Call α))) : Crowd α where
  slot := vacant
  visitors := programs.map fun calls => { calls }

/-- The next step of a thread; one that has finished takes none. -/
def step (thread : Nat) (spurious : Bool) (m : Crowd α) : Crowd α :=
  match m.visitors[thread]? with
  | none => m
  | some x =>
    match x.calls with
    | [] => m
    | call :: calls =>
      match (x.visit.getD call.first).step spurious m.slot with
      | (.more y, s) =>
        { m with slot := s, visitors := m.visitors.set thread { x with visit := some y } }
      | (.done e, s) =>
        { slot := s
          visitors := m.visitors.set thread { calls }
          moved := m.moved ++ [e] }

/-- The state after a sequence of steps, each of a thread whose claim fails without cause or not. -/
def run (schedule : List (Nat × Bool)) (m : Crowd α) : Crowd α :=
  schedule.foldl (fun m c => m.step c.1 c.2) m

/-- Where a thread stands, if it is inside a call. -/
def visit? (m : Crowd α) (thread : Nat) : Option (Visit α) :=
  m.visitors[thread]?.bind Visitor.visit

/-- The thread is between its claim and the end of its call. -/
def Inside (m : Crowd α) (thread : Nat) : Prop :=
  ∃ x, m.visit? thread = some x ∧ x.isInside = true

end Crowd

/-! ### A channel with one place -/

/-- The finished call has moved an element in. -/
def Passage.isWrite : Passage α → Bool
  | .written _ => true
  | .taken _ => false

/-- The element that was moved in. -/
def Passage.written? : Passage α → Option α
  | .written v => some v
  | .taken _ => none

/-- The element that was moved out. -/
def Passage.taken? : Passage α → Option α
  | .written _ => none
  | .taken v => some v

/-- A channel with one place has gone through these writes and takes, and holds an element, or
none. -/
inductive Exchanges : List (Passage α) → Option α → Prop
  /-- The channel is new. -/
  | new : Exchanges [] none
  /-- An element is moved into the channel, which held none. -/
  | write {ps : List (Passage α)} {v : α} (h : Exchanges ps none) :
    Exchanges (ps ++ [.written v]) (some v)
  /-- The element that the channel held is moved out. -/
  | take {ps : List (Passage α)} {v : α} (h : Exchanges ps (some v)) :
    Exchanges (ps ++ [.taken v]) none

namespace Exchanges

variable {ps : List (Passage α)} {o : Option α}

/-- After a write the channel holds an element, and after a take it holds none. -/
theorem length_mod_two (h : Exchanges ps o) : ps.length % 2 = o.toList.length := by
  induction h with
  | new => rfl
  | write h ih | take h ih =>
    rw [List.length_append, List.length_singleton]
    simp only [Option.toList_none, Option.toList_some, List.length_nil,
      List.length_singleton] at ih ⊢
    omega

/-- Writes and takes alternate, and a write comes first. -/
theorem alternates (h : Exchanges ps o) :
    ps.map Passage.isWrite = (List.range ps.length).map fun k => k % 2 == 0 := by
  induction h with
  | new => rfl
  | write h ih | take h ih =>
    rw [List.map_append, ih, List.length_append, List.length_singleton, List.range_succ,
      List.map_append, List.map_singleton, List.map_singleton, h.length_mod_two]
    rfl

/-- What is taken is what was written, up to the element that the channel holds. -/
theorem written_eq (h : Exchanges ps o) :
    ps.filterMap Passage.written? = ps.filterMap Passage.taken? ++ o.toList := by
  induction h with
  | new => rfl
  | write h ih | take h ih =>
    rw [List.filterMap_append, ih, List.filterMap_append]
    simp [Passage.written?, Passage.taken?]

end Exchanges

/-! ### What a thread's step does -/

/-- The elements that have been moved in, and not been moved out of the cell. -/
def unread : Slot α → Multiset α
  | ⟨.full, cell⟩ | ⟨.reading, cell⟩ => cell.toList
  | ⟨.empty, _⟩ | ⟨.writing, _⟩ => 0

/-- The elements that the thread has moved out of the cell, and not handed over. -/
def Visit.inHand : Visit α → Multiset α
  | .taking (.vacate v) => {v}
  | _ => 0

/-- The tenant that the thread is, if it has claimed the slot. -/
def Visit.tenancy : Visit α → Multiset (Tenant α)
  | .writing v w => w.tenancy v
  | .taking t => t.tenancy

theorem Visit.tenancy_ne_zero_iff {x : Visit α} : x.tenancy ≠ 0 ↔ x.isInside = true := by
  rcases x with ⟨v, _ | _ | _⟩ | ⟨_ | _ | _⟩ <;>
    simp [tenancy, isInside, Writing.tenancy, Taking.tenancy]

theorem Visit.inHand_eq_zero {x : Visit α} (h : x.tenancy = 0) : x.inHand = 0 := by
  rcases x with ⟨v, _ | _ | _⟩ | ⟨_ | _ | _⟩ <;>
    simp [tenancy, inHand, Taking.tenancy] at h ⊢

/-- What a step does to the slot and to a thread that is the tenants `T` and has the elements `H` in
its hands. The slot comes to show the thread exactly if the thread comes to be inside; and an
element that a tenant has moved in is unread from then on, until a tenant hands it over. -/
inductive Balances (T : Multiset (Tenant α)) (H : Multiset α) (s : Slot α) :
    Progress (Visit α) (Passage α) → Slot α → Prop
  /-- The call goes on. -/
  | on {y : Visit α} {s' : Slot α} (sound : s'.Sound)
    (tenants : s'.tenants + T = s.tenants + y.tenancy)
    (elements : s'.unread + y.inHand = s.unread + H) : Balances T H s (.more y) s'
  /-- A tenant has written. -/
  | written {v : α} {s' : Slot α} (sound : s'.Sound) (inside : T ≠ 0)
    (tenants : s'.tenants + T = s.tenants) (before : s.unread + H = 0) (after : s'.unread = {v}) :
    Balances T H s (.done (.written v)) s'
  /-- A tenant has taken. -/
  | taken {v : α} {s' : Slot α} (sound : s'.Sound) (inside : T ≠ 0)
    (tenants : s'.tenants + T = s.tenants) (before : s.unread + H = {v}) (after : s'.unread = 0) :
    Balances T H s (.done (.taken v)) s'

/-- **A step of a thread that the slot shows, if it has claimed it.** -/
theorem Visit.balances {x : Visit α} {s s' : Slot α} {b : Bool}
    {r : Progress (Visit α) (Passage α)} (hs : s.Sound) (ht : x.tenancy ≤ s.tenants)
    (h : x.step b s = (r, s')) : Balances x.tenancy x.inHand s r s' := by
  cases x with
  | writing v w =>
    rcases hw : w.step v b s with ⟨p, t⟩
    have hwrites := Writing.writes hs ht hw
    simp only [Visit.step, hw] at h
    cases hwrites with
    | wait =>
      cases h
      exact .on hs rfl rfl
    | claim =>
      cases h
      exact .on (sound_writing _) rfl rfl
    | place =>
      cases h
      exact .on (sound_writing _) (Multiset.add_comm _ _) rfl
    | publish =>
      cases h
      exact .written (sound_full v) (Multiset.singleton_ne_zero _) rfl rfl rfl
  | taking t =>
    rcases hw : t.step b s with ⟨p, u⟩
    have htakes := Taking.takes hs ht hw
    simp only [Visit.step, hw] at h
    cases htakes with
    | wait =>
      cases h
      exact .on hs rfl rfl
    | claim =>
      cases h
      exact .on (sound_reading _) rfl rfl
    | remove =>
      cases h
      exact .on (sound_reading _) (Multiset.add_comm _ _) (Multiset.add_comm _ _)
    | vacate =>
      cases h
      exact .taken sound_vacant (Multiset.singleton_ne_zero _) rfl rfl rfl

/-- A thread that is not inside leaves the cell alone. -/
theorem Visit.cell_of_outside {x : Visit α} {s s' : Slot α} {b : Bool}
    {r : Progress (Visit α) (Passage α)} (hx : x.isInside = false) (h : x.step b s = (r, s')) :
    s'.cell = s.cell := by
  rcases x with ⟨v, wait | _ | _⟩ | ⟨wait | _ | _⟩
  · simp only [step, Writing.step, claimWrite?] at h
    cases b <;> by_cases hp : s.phase = .empty <;> simp [hp] at h <;> rw [← h.2]
  · cases hx
  · cases hx
  · simp only [step, Taking.step, claimRead?] at h
    cases b <;> by_cases hp : s.phase = .full <;> simp [hp] at h <;> rw [← h.2]
  · cases hx
  · cases hx

/-! ### The invariant -/

/-- The channel holds nothing. -/
theorem eq_none_of_toList {o : Option α} (h : (o.toList : Multiset α) = 0) : o = none := by
  cases o with
  | none => rfl
  | some v => exact absurd h (Multiset.singleton_ne_zero v)

/-- The channel holds this element. -/
theorem eq_some_of_toList {o : Option α} {v : α} (h : (o.toList : Multiset α) = {v}) :
    o = some v := by
  cases o with
  | none => exact absurd h.symm (Multiset.singleton_ne_zero v)
  | some w => exact congrArg some (Multiset.singleton_inj.mp h)

theorem card_tenants_le (s : Slot α) : s.tenants.card ≤ 1 := by
  rcases s with ⟨_ | _ | _ | _, _ | v⟩ <;> simp [tenants]

/-- The tenant that the thread is, if it has claimed the slot. -/
def Visitor.tenancy (x : Visitor α) : Multiset (Tenant α) :=
  x.visit.elim 0 Visit.tenancy

/-- The elements that the thread has moved out of the cell, and not handed over. -/
def Visitor.inHand (x : Visitor α) : Multiset α :=
  x.visit.elim 0 Visit.inHand

theorem Visitor.inHand_eq_zero {x : Visitor α} (h : x.tenancy = 0) : x.inHand = 0 := by
  obtain ⟨calls, _ | y⟩ := x
  · rfl
  · exact Visit.inHand_eq_zero h

/-- A thread that is between two calls is about to begin one, and neither is inside. -/
theorem Visitor.getD_first (x : Visitor α) (call : Call α) :
    (x.visit.getD call.first).tenancy = x.tenancy ∧
      (x.visit.getD call.first).inHand = x.inHand := by
  obtain ⟨calls, _ | y⟩ := x
  · cases call <;> exact ⟨rfl, rfl⟩
  · exact ⟨rfl, rfl⟩

namespace Crowd

variable {m : Crowd α} {t u : Nat} {x : Visitor α}

/-- The slot shows exactly the threads that are inside, and a channel with one place that has gone
through the same writes and takes holds what has been moved in and not been handed over. -/
structure Attended (m : Crowd α) : Prop where
  sound : m.slot.Sound
  tenants : (m.visitors.map Visitor.tenancy).sum = m.slot.tenants
  channel : ∃ o : Option α, Exchanges m.moved o ∧
    m.slot.unread + (m.visitors.map Visitor.inHand).sum = (o.toList : Multiset α)

theorem attended_launch (programs : List (List (Call α))) : (launch programs).Attended where
  sound := sound_vacant
  tenants := List.sum_eq_zero (by simp [launch, Visitor.tenancy])
  channel := by
    refine ⟨none, .new, ?_⟩
    rw [List.sum_eq_zero (by simp [launch, Visitor.inHand])]
    rfl

namespace Attended

theorem tenancy_le (h : m.Attended) (hx : m.visitors[t]? = some x) :
    x.tenancy ≤ m.slot.tenants := by
  rw [← h.tenants, sum_map_eq_add hx]
  exact Multiset.le_add_right _ _

/-- Where one thread is inside, all others are not. -/
theorem alone (h : m.Attended) (hx : m.visitors[t]? = some x) (hin : x.tenancy ≠ 0) :
    ∀ y ∈ m.visitors.eraseIdx t, y.tenancy = 0 := by
  have hcard := card_tenants_le m.slot
  rw [← h.tenants, sum_map_eq_add hx, Multiset.card_add] at hcard
  have hpos : 0 < x.tenancy.card := Multiset.card_pos.mpr hin
  have hrest : ((m.visitors.eraseIdx t).map Visitor.tenancy).sum = 0 :=
    Multiset.card_eq_zero.mp (by omega)
  intro y hy
  exact List.sum_eq_zero_iff.mp hrest _ (List.mem_map_of_mem hy)

/-- Where one thread is inside, no other has an element in its hands. -/
theorem emptyHanded (h : m.Attended) (hx : m.visitors[t]? = some x) (hin : x.tenancy ≠ 0) :
    ((m.visitors.eraseIdx t).map Visitor.inHand).sum = 0 := by
  refine List.sum_eq_zero fun c hc => ?_
  obtain ⟨y, hy, rfl⟩ := List.mem_map.mp hc
  exact Visitor.inHand_eq_zero (h.alone hx hin y hy)

/-- The books of the tenants after a thread has moved. -/
theorem tenants_set (h : m.Attended) (hx : m.visitors[t]? = some x) {s : Slot α} {y : Visitor α}
    (hs : s.tenants + x.tenancy = m.slot.tenants + y.tenancy) :
    ((m.visitors.set t y).map Visitor.tenancy).sum = s.tenants := by
  have htenants := sum_map_eq_add hx Visitor.tenancy
  rw [h.tenants] at htenants
  rw [htenants] at hs
  rw [sum_map_set hx]
  refine add_right_cancel (b := x.tenancy) ?_
  rw [hs]
  abel

/-- **A step.** -/
theorem step (h : m.Attended) (t : Nat) (spurious : Bool) : (m.step t spurious).Attended := by
  rw [Crowd.step]
  cases hx : m.visitors[t]? with
  | none => exact h
  | some x =>
    dsimp only
    cases hcalls : x.calls with
    | nil => exact h
    | cons call calls =>
      dsimp only
      obtain ⟨hten, hhand⟩ := x.getD_first call
      rcases hs : (x.visit.getD call.first).step spurious m.slot with ⟨r, s⟩
      have hb := Visit.balances h.sound (hten ▸ h.tenancy_le hx) hs
      rw [hten, hhand] at hb
      obtain ⟨o, ho, helements⟩ := h.channel
      rw [sum_map_eq_add hx, ← add_assoc] at helements
      cases hb with
      | on hsound hshown hmoved =>
        refine ⟨hsound, h.tenants_set hx hshown, o, ho, ?_⟩
        rw [sum_map_set hx, ← helements, ← hmoved, ← add_assoc]
        rfl
      | written hsound hin hshown hbefore hafter =>
        have halone := h.emptyHanded hx hin
        rw [hbefore, halone] at helements
        obtain rfl : o = none := eq_none_of_toList helements.symm
        refine ⟨hsound, h.tenants_set hx (hshown.trans (add_zero _).symm), _, ho.write, ?_⟩
        rw [sum_map_set hx, halone, hafter]
        rfl
      | @taken v _ hsound hin hshown hbefore hafter =>
        have halone := h.emptyHanded hx hin
        rw [hbefore, halone] at helements
        obtain rfl : o = some v := eq_some_of_toList helements.symm
        refine ⟨hsound, h.tenants_set hx (hshown.trans (add_zero _).symm), _, ho.take, ?_⟩
        rw [sum_map_set hx, halone, hafter]
        rfl

/-- **A run.** -/
theorem run (h : m.Attended) (schedule : List (Nat × Bool)) : (m.run schedule).Attended := by
  induction schedule generalizing m with
  | nil => exact h
  | cons c schedule ih => exact ih (h.step c.1 c.2)

end Attended

/-! ### Whole runs -/

/-- The element is in the slot, or the taker inside has it. -/
inductive Keeps (m : Crowd α) (v : α) : Prop
  /-- The slot is full. -/
  | full (hs : m.slot = ⟨.full, some v⟩)
  /-- A taker is about to move the element out. -/
  | claimed (t : Nat) (ht : m.visit? t = some (.taking .remove)) (hs : m.slot = ⟨.reading, some v⟩)
  /-- A taker has moved the element out, and not handed it over. -/
  | removed (t : Nat) (ht : m.visit? t = some (.taking (.vacate v)))

theorem visit?_eq_some_iff {y : Visit α} :
    m.visit? t = some y ↔ ∃ x, m.visitors[t]? = some x ∧ x.visit = some y :=
  Option.bind_eq_some_iff

theorem inside_iff : m.Inside t ↔ ∃ x, m.visitors[t]? = some x ∧ x.tenancy ≠ 0 := by
  constructor
  · rintro ⟨y, hy, hin⟩
    obtain ⟨x, hx, hvisit⟩ := visit?_eq_some_iff.mp hy
    refine ⟨x, hx, ?_⟩
    rw [Visitor.tenancy, hvisit]
    exact Visit.tenancy_ne_zero_iff.mpr hin
  · rintro ⟨⟨calls, _ | y⟩, hx, hin⟩
    · exact absurd rfl hin
    · exact ⟨y, visit?_eq_some_iff.mpr ⟨_, hx, rfl⟩, Visit.tenancy_ne_zero_iff.mp hin⟩

/-- Whoever is not inside leaves the cell alone. -/
theorem cell_step_of_outside (hout : ¬m.Inside t) (spurious : Bool) :
    (m.step t spurious).slot.cell = m.slot.cell := by
  rw [step]
  cases hx : m.visitors[t]? with
  | none => rfl
  | some x =>
    dsimp only
    cases hcalls : x.calls with
    | nil => rfl
    | cons call calls =>
      dsimp only
      have hclaims : (x.visit.getD call.first).isInside = false := by
        rw [← Bool.not_eq_true, ← Visit.tenancy_ne_zero_iff, (x.getD_first call).1]
        exact fun hin => hout (inside_iff.mpr ⟨x, hx, hin⟩)
      rcases hs : (x.visit.getD call.first).step spurious m.slot with ⟨r, s⟩
      have hcell := Visit.cell_of_outside hclaims hs
      cases r with
      | more y => exact hcell
      | done e => exact hcell

namespace Attended

/-- At most one thread is inside. -/
theorem exclusive (h : m.Attended) (ht : m.Inside t) (hu : m.Inside u) : t = u := by
  obtain ⟨x, hx, hin⟩ := inside_iff.mp ht
  obtain ⟨y, hy, hyin⟩ := inside_iff.mp hu
  by_contra hne
  refine hyin (h.alone hx hin y ?_)
  exact List.mem_eraseIdx_iff_getElem?.mpr ⟨u, Ne.symm hne, hy⟩

/-- Where nobody is inside, the slot shows nobody. -/
theorem tenants_eq_zero (h : m.Attended) (hout : ∀ t, ¬m.Inside t) : m.slot.tenants = 0 := by
  rw [← h.tenants]
  refine List.sum_eq_zero fun c hc => ?_
  obtain ⟨x, hx, rfl⟩ := List.mem_map.mp hc
  obtain ⟨t, ht⟩ := List.mem_iff_getElem?.mp hx
  by_contra hin
  exact hout t (inside_iff.mpr ⟨x, ht, hin⟩)

/-- A thread inside finds the slot that its tenant has left. -/
theorem visit_tenancy_le (h : m.Attended) {y : Visit α} (hy : m.visit? t = some y) :
    y.tenancy ≤ m.slot.tenants := by
  obtain ⟨x, hx, hvisit⟩ := visit?_eq_some_iff.mp hy
  have hle := h.tenancy_le hx
  rwa [Visitor.tenancy, hvisit] at hle

/-- The element that was written and not taken is where it should be. -/
theorem keeps (h : m.Attended) {v : α}
    (hv : v ∈ m.slot.unread + (m.visitors.map Visitor.inHand).sum) : m.Keeps v := by
  rcases Multiset.mem_add.mp hv with hcell | hhand
  · rcases hslot : m.slot with ⟨_ | _ | _ | _, _ | w⟩ <;>
      simp only [hslot, unread, Option.toList_some, Option.toList_none, Multiset.coe_singleton,
        Multiset.coe_nil, Multiset.mem_singleton, Multiset.notMem_zero] at hcell
    · subst hcell
      exact .full hslot
    · subst hcell
      have htenant : Tenant.removing ∈ (m.visitors.map Visitor.tenancy).sum := by
        rw [h.tenants, hslot]
        exact Multiset.mem_singleton_self _
      obtain ⟨⟨calls, _ | y⟩, hx, hin⟩ := exists_of_mem_sum htenant
      · cases hin
      · obtain ⟨t, ht⟩ := List.mem_iff_getElem?.mp hx
        have hy : y = .taking .remove := by
          rcases y with ⟨v, _ | _ | _⟩ | ⟨_ | _ | _⟩ <;>
            simp [Visitor.tenancy, Visit.tenancy, Writing.tenancy, Taking.tenancy] at hin ⊢
        exact .claimed t (visit?_eq_some_iff.mpr ⟨_, ht, congrArg some hy⟩) hslot
  · obtain ⟨⟨calls, _ | y⟩, hx, hin⟩ := exists_of_mem_sum hhand
    · cases hin
    · obtain ⟨t, ht⟩ := List.mem_iff_getElem?.mp hx
      have hy : y = .taking (.vacate v) := by
        rcases y with ⟨w, _ | _ | _⟩ | ⟨_ | _ | w⟩ <;>
          simp [Visitor.inHand, Visit.inHand] at hin ⊢
        exact hin.symm
      exact .removed t (visit?_eq_some_iff.mpr ⟨_, ht, congrArg some hy⟩)

/-- Where the slot shows nobody, no thread has an element in its hands. -/
theorem hands_empty (h : m.Attended) (hnone : m.slot.tenants = 0) :
    (m.visitors.map Visitor.inHand).sum = 0 := by
  refine List.sum_eq_zero fun c hc => ?_
  obtain ⟨x, hx, rfl⟩ := List.mem_map.mp hc
  rw [← h.tenants, List.sum_eq_zero_iff] at hnone
  exact Visitor.inHand_eq_zero (hnone _ (List.mem_map_of_mem hx))

/-- A full slot holds the last element that was written. -/
theorem of_full (h : m.Attended) (hfull : m.slot.phase = .full) :
    ∃ v, m.slot = ⟨.full, some v⟩ ∧ Exchanges m.moved (some v) := by
  obtain ⟨o, ho, helements⟩ := h.channel
  have hcell := h.sound.full hfull
  rcases hslot : m.slot with ⟨phase, _ | v⟩ <;> rw [hslot] at hfull hcell helements <;>
    cases hfull
  · exact absurd rfl hcell
  · rw [h.hands_empty (by rw [hslot]; rfl)] at helements
    obtain rfl : o = some v := eq_some_of_toList helements.symm
    exact ⟨v, rfl, ho⟩

/-- An empty slot holds nothing, and all that was written has been taken. -/
theorem of_empty (h : m.Attended) (hempty : m.slot.phase = .empty) :
    m.slot = vacant ∧ Exchanges m.moved none := by
  obtain ⟨o, ho, helements⟩ := h.channel
  have hcell := h.sound.empty hempty
  rcases hslot : m.slot with ⟨phase, cell⟩
  rw [hslot] at hempty hcell helements
  cases hempty
  cases hcell
  rw [h.hands_empty (by rw [hslot]; rfl)] at helements
  obtain rfl : o = none := eq_none_of_toList helements.symm
  exact ⟨rfl, ho⟩

end Attended

/-- **A slot is a channel with one place.** Let any threads write and take at one slot, each as
often as it likes, and let their steps interleave in any way, with claims that fail without cause
among them. At most one thread is between its claim and the end of its call, and no other touches
the cell. A writer about to move its element in finds a cell without one, and a taker about to move
an element out finds one. Writes and takes alternate, and a write comes first. What was taken is
what was written, in order, up to the last element written, which the slot holds or the taker inside
has. Where nobody is inside, a full slot still holds that element, which is destroyed once;
otherwise there is nothing to destroy, and nothing is missing. -/
theorem one_place (programs : List (List (Call α))) (schedule : List (Nat × Bool)) :
    let m := (launch programs).run schedule
    let written := m.moved.filterMap Passage.written?
    let taken := m.moved.filterMap Passage.taken?
    (∀ t u, m.Inside t → m.Inside u → t = u) ∧
      (∀ t spurious, ¬m.Inside t → (m.step t spurious).slot.cell = m.slot.cell) ∧
      (∀ t v, m.visit? t = some (.writing v .place) → m.slot = ⟨.writing, none⟩) ∧
      (∀ t, m.visit? t = some (.taking .remove) → ∃ v, m.slot = ⟨.reading, some v⟩) ∧
      (m.moved.map Passage.isWrite = (List.range m.moved.length).map fun k => k % 2 == 0) ∧
      (written = taken ∨ ∃ v, written = taken ++ [v] ∧ m.Keeps v) ∧
      ((∀ t, ¬m.Inside t) →
        (m.slot.isFull = true ∧ ∃ v, written = taken ++ [v] ∧ m.slot.clear = (some v, vacant)) ∨
        (m.slot.isFull = false ∧ written = taken ∧ m.slot.clear = (none, vacant))) ∧
      m.slot.clear.2.clear.1 = none := by
  intro m written taken
  have h : m.Attended := (attended_launch programs).run schedule
  obtain ⟨o, ho, helements⟩ := h.channel
  have heq := ho.written_eq
  refine ⟨fun t u => h.exclusive, fun t spurious hout => cell_step_of_outside hout spurious,
    fun t v ht => eq_of_placing (h.visit_tenancy_le ht),
    fun t ht => eq_of_removing (h.visit_tenancy_le ht), ho.alternates, ?_, fun hout => ?_, ?_⟩
  · cases o with
    | none => exact .inl (heq.trans (List.append_nil _))
    | some v =>
      refine .inr ⟨v, heq, h.keeps ?_⟩
      rw [helements]
      exact Multiset.mem_singleton_self v
  · rcases phase_of_tenants (h.tenants_eq_zero hout) with hempty | hfull
    · obtain ⟨hslot, hnone⟩ := h.of_empty hempty
      rw [hslot]
      exact .inr ⟨rfl, hnone.written_eq.trans (List.append_nil _), rfl⟩
    · obtain ⟨v, hslot, hsome⟩ := h.of_full hfull
      rw [hslot]
      exact .inl ⟨rfl, v, hsome.written_eq, rfl⟩
  · rcases m.slot with ⟨_ | _ | _ | _, cell⟩ <;> rfl

/-- Three elements are moved in and two of them out, by takers that both come first. -/
def crossing : Crowd Nat :=
  launch [[.write 1 (.start 6), .write 2 (.start 6), .write 3 (.start 6)], [.take (.start 6)],
    [.take (.start 6)]]

/-- The first claim of the writer fails without cause. After nine steps the first taker is inside,
and the other two meet it there. -/
def collision : List (Nat × Bool) :=
  [(1, false), (2, false), (0, true), (0, false), (1, false), (0, false), (0, false),
    (1, false), (2, false), (0, false), (1, false), (2, false), (0, false), (1, false),
    (0, false), (2, false), (0, false), (0, false), (2, false), (2, false), (2, false),
    (0, false), (0, false), (0, false)]

/-- Nobody else gets in, and in the end the last element is destroyed. -/
theorem one_place_collision :
    (∀ t, (crossing.run (collision.take 9)).Inside t → t = 1) ∧
      (crossing.run collision).moved =
        [.written 1, .taken 1, .written 2, .taken 2, .written 3] ∧
      (crossing.run collision).slot.clear = (some 3, vacant) := by
  have hinside : (crossing.run (collision.take 9)).Inside 1 := ⟨.taking .remove, by decide, rfl⟩
  have hmoved : (crossing.run collision).moved =
    [.written 1, .taken 1, .written 2, .taken 2, .written 3] := by decide
  have hleft : ∀ x ∈ (crossing.run collision).visitors, x.visit = none := by decide
  have hout : ∀ t, ¬(crossing.run collision).Inside t := by
    rintro t ⟨y, hy, -⟩
    obtain ⟨x, hx, hvisit⟩ := visit?_eq_some_iff.mp hy
    cases (hleft x (List.mem_of_getElem? hx)).symm.trans hvisit
  obtain ⟨hexclusive, -⟩ := one_place (α := Nat) _ (collision.take 9)
  obtain ⟨-, -, -, -, -, -, hclear, -⟩ := one_place (α := Nat) _ collision
  refine ⟨fun t ht => hexclusive t 1 ht hinside, hmoved, ?_⟩
  rcases hclear hout with ⟨-, v, hv, hslot⟩ | ⟨hempty, -⟩
  · rw [← crossing, hmoved] at hv
    have hlast : [1, 2, 3] = [1, 2, v] := hv
    cases hlast
    exact hslot
  · exact absurd hempty (by decide)

end Crowd

end PermitRing.Slot
