import PermitRing.Proofs.Histories
import PermitRing.Proofs.Machine.Run
import PermitRing.Proofs.Queue.Represents
import PermitRing.Proofs.Slot.Tenants

/-!
# Who is at a slot

Of several threads at one slot only one is let in, whatever the threads' positions are: a thread
that was lapped by its peers may share its slot with others and still nobody touches the cell but
the one whose claim succeeded. The *tenants* of a slot are those that its phase and its cell speak
of, and they are exactly the threads that are between a claim and the end of its operation.

From this it follows what each step at a slot does, and that elements are neither lost nor doubled
there: what was moved in is what was claimed for moving out, and what lies in the full slots.

## Main definitions

* `Stage.tenancy`, `Stage.Fits` — the thread's share in the tenants of a slot, as the slot shows it;
* `Deed.stored?`, `Deed.claimed?` — the elements that a deed moves in, or claims.

## Main results

* `Machine.Run.tenanted` — in every run the tenants of every slot are those that it shows;
* `Machine.Run.stored_eq` — what was moved in is what was claimed and what lies in full slots.
-/

namespace PermitRing

variable {α : Type}

namespace Queue

/-- The thread's share in the tenants of the slot at place `i`. -/
def Stage.tenancy (i : Nat) : Stage α → Multiset (Slot.Tenant α)
  | .writing _ j .place => if j = i then {.placing} else 0
  | .writing v j .publish => if j = i then {.placed v} else 0
  | .taking j .remove => if j = i then {.removing} else 0
  | .taking j (.vacate _) => if j = i then {.vacating} else 0
  | _ => 0

/-- The slot is in order, and shows the thread if that has claimed it. -/
structure Stage.Fits (s : Stage α) (i : Nat) (x : Slot α) : Prop where
  tenancy : s.tenancy i ≤ x.tenants
  sound : x.Sound

theorem Stage.tenancy_writing (v : α) (i : Nat) (w : Slot.Writing) :
    (Stage.writing v i w).tenancy i = w.tenancy v := by
  cases w with
  | claim wait => rfl
  | place | publish => exact if_pos rfl

theorem Stage.tenancy_taking (i : Nat) (t : Slot.Taking α) :
    (Stage.taking i t).tenancy i = t.tenancy := by
  cases t with
  | claim wait => rfl
  | remove | vacate v => exact if_pos rfl

theorem Stage.Fits.writes {v : α} {i : Nat} {w : Slot.Writing} {x x' : Slot α} {b : Bool}
    {r : Progress Slot.Writing Unit} (hf : (Stage.writing v i w).Fits i x)
    (h : w.step v b x = (r, x')) : x.Writes v w r x' :=
  Slot.Writing.writes hf.sound (Stage.tenancy_writing v i w ▸ hf.tenancy) h

theorem Stage.Fits.takes {i : Nat} {t : Slot.Taking α} {x x' : Slot α} {b : Bool}
    {r : Progress (Slot.Taking α) α} (hf : (Stage.taking i t).Fits i x)
    (h : t.step b x = (r, x')) : x.Takes t r x' :=
  Slot.Taking.takes hf.sound (Stage.tenancy_taking i t ▸ hf.tenancy) h

theorem Stage.tenancy_writing_of_ne {i j : Nat} (h : j ≠ i) (v : α) (w : Slot.Writing) :
    (Stage.writing v j w).tenancy i = 0 := by
  cases w with
  | claim wait => rfl
  | place | publish => exact if_neg h

theorem Stage.tenancy_taking_of_ne {i j : Nat} (h : j ≠ i) (t : Slot.Taking α) :
    (Stage.taking j t).tenancy i = 0 := by
  cases t with
  | claim wait => rfl
  | remove | vacate v => exact if_neg h

end Queue

namespace Storage

theorem slots_of_slot {s : Storage α} {i : Nat} {x : Slot α} (h : s.slot i = .ok x) :
    s.slots[i]? = some x := by
  unfold slot at h
  split at h
  · cases h
    assumption
  · cases h

theorem slots_of_slot_error {s : Storage α} {i : Nat} {f : Fault} (h : s.slot i = .error f) :
    s.slots[i]? = none := by
  unfold slot at h
  split at h
  · cases h
  · assumption

/-- A slot after one slot was replaced: the new one there, and the old ones elsewhere. -/
theorem slots_put_cases {s : Storage α} {i j : Nat} {x y z : Slot α} (hi : s.slots[i]? = some x)
    (h : (s.put i y).slots[j]? = some z) : j = i ∧ z = y ∨ j ≠ i ∧ s.slots[j]? = some z := by
  by_cases hj : j = i
  · subst hj
    have hlt : j < s.capacity := (Array.getElem?_eq_some_iff.mp hi).1
    rw [slots_put_self hlt] at h
    exact .inl ⟨rfl, (Option.some.inj h).symm⟩
  · rw [slots_put_of_ne _ (Ne.symm hj)] at h
    exact .inr ⟨hj, h⟩

end Storage

namespace Queue

/-! ### The tenants of all slots -/

/-- **What a move does to the tenants of a slot.** The slot comes to show the thread exactly if the
thread comes to be there. -/
theorem Move.tenants {call : Call α} {s : Stage α} {k k' : Core α}
    {r : Progress (Stage α) (Answer α)} (h : Move call s k r k')
    (hf : ∀ i x, k.storage.slots[i]? = some x → s.Fits i x) {i : Nat} {x' : Slot α}
    (hx : k'.storage.slots[i]? = some x') :
    ∃ x, k.storage.slots[i]? = some x ∧
      x'.tenants + s.tenancy i = x.tenants + (Stage.after r).tenancy i ∧ x'.Sound := by
  cases h with
  | write hs h =>
    have hslot := Storage.slots_of_slot hs
    obtain ⟨rfl, rfl⟩ | ⟨hi, hx⟩ := Storage.slots_put_cases hslot hx
    · refine ⟨_, hslot, ?_⟩
      cases (hf _ _ hslot).writes h with
      | wait => exact ⟨rfl, (hf _ _ hslot).sound⟩
      | claim => exact ⟨by simp [Slot.tenants, Stage.tenancy, Stage.after], Slot.sound_writing _⟩
      | place =>
        refine ⟨?_, Slot.sound_writing _⟩
        simp only [Slot.tenants, Stage.tenancy, Stage.after, if_true]
        exact Multiset.add_comm _ _
    · refine ⟨_, hx, ?_, (hf _ _ hx).sound⟩
      rw [Stage.after, Stage.tenancy_writing_of_ne (Ne.symm hi),
        Stage.tenancy_writing_of_ne (Ne.symm hi)]
  | store hs h =>
    have hslot := Storage.slots_of_slot hs
    obtain ⟨rfl, rfl⟩ | ⟨hi, hx⟩ := Storage.slots_put_cases hslot hx
    · refine ⟨_, hslot, ?_⟩
      cases (hf _ _ hslot).writes h with
      | publish => exact ⟨by simp [Slot.tenants, Stage.tenancy, Stage.after], Slot.sound_full _⟩
    · refine ⟨_, hx, ?_, (hf _ _ hx).sound⟩
      rw [Stage.tenancy_writing_of_ne (Ne.symm hi)]
      rfl
  | take hs h =>
    have hslot := Storage.slots_of_slot hs
    obtain ⟨rfl, rfl⟩ | ⟨hi, hx⟩ := Storage.slots_put_cases hslot hx
    · refine ⟨_, hslot, ?_⟩
      cases (hf _ _ hslot).takes h with
      | wait => exact ⟨rfl, (hf _ _ hslot).sound⟩
      | claim => exact ⟨by simp [Slot.tenants, Stage.tenancy, Stage.after], Slot.sound_reading _⟩
      | remove =>
        refine ⟨?_, Slot.sound_reading _⟩
        simp only [Slot.tenants, Stage.tenancy, Stage.after, if_true]
        exact Multiset.add_comm _ _
    · refine ⟨_, hx, ?_, (hf _ _ hx).sound⟩
      rw [Stage.after, Stage.tenancy_taking_of_ne (Ne.symm hi),
        Stage.tenancy_taking_of_ne (Ne.symm hi)]
  | vacate hs h =>
    have hslot := Storage.slots_of_slot hs
    obtain ⟨rfl, rfl⟩ | ⟨hi, hx⟩ := Storage.slots_put_cases hslot hx
    · refine ⟨_, hslot, ?_⟩
      cases (hf _ _ hslot).takes h with
      | vacate => exact ⟨by simp [Slot.tenants, Stage.tenancy, Stage.after], Slot.sound_vacant⟩
    · refine ⟨_, hx, ?_, (hf _ _ hx).sound⟩
      rw [Stage.tenancy_taking_of_ne (Ne.symm hi)]
      rfl
  | @faultWrite _ _ j _ _ hs =>
    have hi : j ≠ i := by
      rintro rfl
      rw [Storage.slots_of_slot_error hs] at hx
      cases hx
    refine ⟨_, hx, ?_, (hf _ _ hx).sound⟩
    rw [Stage.tenancy_writing_of_ne hi]
    rfl
  | @faultTake _ j _ _ hs =>
    have hi : j ≠ i := by
      rintro rfl
      rw [Storage.slots_of_slot_error hs] at hx
      cases hx
    refine ⟨_, hx, ?_, (hf _ _ hx).sound⟩
    rw [Stage.tenancy_taking_of_ne hi]
    rfl
  | _ => exact ⟨_, hx, rfl, (hf _ _ hx).sound⟩

namespace Machine

variable {q : Queue α} {programs : List (List (Call α))} {ds : List (Deed α)} {m n : Machine α}
  {d : Deed α}

/-- Every slot is in order, and shows exactly the threads that have claimed it. -/
def Tenanted (m : Machine α) : Prop :=
  ∀ i x, m.queue.storage.slots[i]? = some x → m.census (Stage.tenancy i) = x.tenants ∧ x.Sound

theorem Tenanted.fits (h : Tenanted m) (t : Nat) {i : Nat} {x : Slot α}
    (hx : m.queue.storage.slots[i]? = some x) : (m.stage t).Fits i x := by
  obtain ⟨ht, hs⟩ := h i x hx
  exact ⟨ht ▸ le_census rfl t, hs⟩

/-- A deed keeps every slot in order. -/
theorem Leads.tenanted (h : Leads programs d m n) (ht : Tenanted m) : Tenanted n := by
  intro i x' hx'
  have hf : ∀ i x, m.queue.core.storage.slots[i]? = some x → d.stage.Fits i x := fun i x hx =>
    h.stage ▸ ht.fits d.thread hx
  obtain ⟨x, hx, hbalance, hsound⟩ := h.move.tenants hf hx'
  refine ⟨?_, hsound⟩
  have hcensus := h.census (Stage.tenancy i)
  rw [(ht i x hx).1, ← hbalance] at hcensus
  exact add_right_cancel hcensus

theorem tenanted_launch {disc : Discipline} {c : Config} {order : Side → Nat → Nat}
    (hq : create disc c order = .ok q) (programs : List (List (Call α))) :
    Tenanted (launch q programs) := by
  intro i x hx
  rw [launch, eq_of_create hq] at hx
  have hx : x = Slot.vacant := by
    simp only [Storage.vacant, Array.getElem?_replicate] at hx
    split at hx
    · exact (Option.some.inj hx).symm
    · cases hx
  rw [hx]
  exact ⟨census_launch rfl _ _, Slot.sound_vacant⟩

/-- **In every run the tenants of every slot are those that it shows.** -/
theorem Run.tenanted {disc : Discipline} {c : Config} {order : Side → Nat → Nat}
    (hq : create disc c order = .ok q) (h : Run (launch q programs) ds m) : Tenanted m := by
  induction h with
  | refl => exact tenanted_launch hq programs
  | step c hr hs ih => exact (hr.leads hs).tenanted ih

end Machine

end Queue

/-! ### The elements in the slots -/

/-- The elements that lie in full slots. -/
def Storage.contents (s : Storage α) : Multiset α :=
  s.clear.1

/-- The elements in the slots change by those of one slot. -/
theorem Storage.contents_put {s : Storage α} {i : Nat} {x : Slot α} (h : s.slots[i]? = some x)
    (y : Slot α) :
    (s.put i y).contents + (x.clear.1.toList : Multiset α) = s.contents + y.clear.1.toList := by
  have hlist : s.slots.toList[i]? = some x := by rw [← h, Array.getElem?_toList]
  obtain ⟨hlt, hget⟩ := List.getElem?_eq_some_iff.mp hlist
  obtain ⟨before, behind, hold, hnew⟩ : ∃ before behind, s.slots.toList = before ++ x :: behind ∧
      (s.put i y).slots.toList = before ++ y :: behind := by
    refine ⟨s.slots.toList.take i, s.slots.toList.drop (i + 1), ?_, ?_⟩
    · rw [← hget, List.getElem_cons_drop, List.take_append_drop]
    · rw [put, Array.toList_setIfInBounds, List.set_eq_take_append_cons_drop, if_pos hlt]
  have hcons : ∀ z : Slot α, (z :: behind).filterMap (fun x => x.clear.1) =
      z.clear.1.toList ++ behind.filterMap fun x => x.clear.1 := by
    intro z
    rw [List.filterMap_cons]
    cases z.clear.1 <;> rfl
  simp only [contents, clear, hold, hnew, List.filterMap_append, hcons, ← Multiset.coe_add]
  abel

theorem Storage.contents_vacant (n : Nat) : (vacant n : Storage α).contents = 0 := by
  have : (List.replicate n (Slot.vacant : Slot α)).filterMap (fun x => x.clear.1) = [] := by
    rw [List.filterMap_eq_nil_iff]
    intro x hx
    rw [(List.mem_replicate.mp hx).2]
    rfl
  simp only [contents, clear, vacant, Array.toList_replicate, this]
  rfl

namespace Queue

/-- The element that a move has moved in. -/
def Stage.stored? : Stage α → Progress (Stage α) (Answer α) → Option α
  | .writing v _ _, .more .stored => some v
  | _, _ => none

/-- The element that a move has claimed, by claiming the slot that it lies in. -/
def Stage.claimed? (s : Storage α) : Stage α → Progress (Stage α) (Answer α) → Option α
  | .taking i (.claim _), .more (.taking _ .remove) => s.slots[i]?.bind Slot.cell
  | _, _ => none

/-- The element that a deed has moved in. -/
def Deed.stored? (d : Deed α) : Option α :=
  d.stage.stored? d.next

/-- The element that a deed has claimed. -/
def Deed.claimed? (d : Deed α) : Option α :=
  d.stage.claimed? d.queue.storage d.next

/-- **What a move does to the elements in the slots.** They become more by an element that is moved
in, and less by one that is claimed. -/
theorem Move.contents {call : Call α} {s : Stage α} {k k' : Core α}
    {r : Progress (Stage α) (Answer α)} (h : Move call s k r k')
    (hf : ∀ i x, k.storage.slots[i]? = some x → s.Fits i x) :
    k'.storage.contents + (s.claimed? k.storage r).toList =
      k.storage.contents + (s.stored? r).toList := by
  cases h with
  | @write _ v n w w' x x' b hs h =>
    have hslot := Storage.slots_of_slot hs
    have hput := Storage.contents_put hslot x'
    cases (hf _ _ hslot).writes h with
    | wait => rw [add_right_cancel hput]; rfl
    | claim | place => exact hput
  | @store _ v n w x x' b hs h =>
    have hslot := Storage.slots_of_slot hs
    have hput := Storage.contents_put hslot x'
    cases (hf _ _ hslot).writes h with
    | publish => exact hput
  | @take _ n t t' x x' b hs h =>
    have hslot := Storage.slots_of_slot hs
    have hput := Storage.contents_put hslot x'
    cases (hf _ _ hslot).takes h with
    | wait => rw [add_right_cancel hput]; rfl
    | claim =>
      simp only [Stage.claimed?, hslot]
      exact hput
    | remove => exact hput
  | @vacate _ v n t x x' b hs h =>
    have hslot := Storage.slots_of_slot hs
    have hput := Storage.contents_put hslot x'
    cases (hf _ _ hslot).takes h with
    | vacate => exact hput
  | @faultTake _ n t f hs => cases t <;> rfl
  | _ => rfl

/-- **What was moved in is what was claimed and what lies in full slots.** -/
theorem Machine.Run.stored_eq {q : Queue α} {programs : List (List (Call α))} {ds : List (Deed α)}
    {m : Machine α} {disc : Discipline} {c : Config} {order : Side → Nat → Nat}
    (hq : create disc c order = .ok q) (h : Run (launch q programs) ds m) :
    (ds.filterMap Deed.stored? : Multiset α) =
      ds.filterMap Deed.claimed? + m.queue.storage.contents := by
  induction h with
  | refl =>
    rw [launch, eq_of_create hq, Storage.contents_vacant]
    rfl
  | @step ds m n d c hr hs ih =>
    have hl := hr.leads hs
    have hmove := hl.move.contents fun i x hx => hl.stage ▸ (hr.tenanted hq).fits d.thread hx
    have hclaimed : d.claimed? = d.stage.claimed? m.queue.core.storage d.next := by
      rw [Deed.claimed?, hl.queue]
      rfl
    rw [filterMap_concat, filterMap_concat, ← Multiset.coe_add, ← Multiset.coe_add, ih, add_assoc]
    show _ + (m.queue.core.storage.contents + ((d.stage.stored? d.next).toList : Multiset α)) = _
    rw [← hmove, ← hclaimed, add_comm n.queue.core.storage.contents, ← add_assoc]
    rfl

end Queue

end PermitRing
