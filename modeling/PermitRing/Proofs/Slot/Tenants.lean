import Mathlib.Data.Multiset.AddSub
import PermitRing.Slot

/-!
# The tenants of a slot

A slot shows by its phase and its cell who is at work there. Its *tenants* are the threads of which
it so speaks: none while it is empty or full, and one while an element is moved in or out. A thread
that the slot shows finds it as it left it, whatever other threads have tried meanwhile, and this
decides what each step of moving an element in or out can do.

## Main definitions

* `Slot.Tenant`, `Slot.tenants` — who is at a slot, as far as it shows;
* `Slot.Sound` — an empty slot holds nothing, and a full one an element;
* `Slot.Writes`, `Slot.Takes` — what a tenant's step does.

## Main results

* `Slot.Writing.writes`, `Slot.Taking.takes` — every step is one of these, for a thread that the
  slot shows.
-/

namespace PermitRing

variable {α : Type}

/-! ### Tenants -/

/-- A thread that has claimed a slot. -/
inductive Slot.Tenant (α : Type)
  /-- It is about to move an element in. -/
  | placing
  /-- It has moved an element in. -/
  | placed (v : α)
  /-- It is about to move an element out. -/
  | removing
  /-- It has moved an element out. -/
  | vacating

namespace Slot

/-- The threads that have claimed the slot, as far as it shows. -/
def tenants : Slot α → Multiset (Tenant α)
  | ⟨.writing, none⟩ => {.placing}
  | ⟨.writing, some v⟩ => {.placed v}
  | ⟨.reading, some _⟩ => {.removing}
  | ⟨.reading, none⟩ => {.vacating}
  | ⟨.empty, _⟩ | ⟨.full, _⟩ => 0

/-- An empty slot holds nothing, and a full one holds an element. -/
structure Sound (s : Slot α) : Prop where
  empty : s.phase = .empty → s.cell = none
  full : s.phase = .full → s.cell ≠ none

theorem sound_vacant : (vacant : Slot α).Sound :=
  ⟨fun _ => rfl, fun h => by cases h⟩

theorem sound_writing (cell : Option α) : Sound ⟨.writing, cell⟩ :=
  ⟨nofun, nofun⟩

theorem sound_full (v : α) : Sound ⟨.full, some v⟩ :=
  ⟨nofun, nofun⟩

theorem sound_reading (cell : Option α) : Sound ⟨.reading, cell⟩ :=
  ⟨nofun, nofun⟩

theorem eq_of_placing {s : Slot α} (h : {.placing} ≤ s.tenants) : s = ⟨.writing, none⟩ := by
  rcases s with ⟨_ | _ | _ | _, _ | v⟩ <;> simp_all [tenants]

theorem eq_of_placed {s : Slot α} {v : α} (h : {.placed v} ≤ s.tenants) :
    s = ⟨.writing, some v⟩ := by
  rcases s with ⟨_ | _ | _ | _, _ | v⟩ <;> simp_all [tenants]

theorem eq_of_removing {s : Slot α} (h : {.removing} ≤ s.tenants) :
    ∃ v, s = ⟨.reading, some v⟩ := by
  rcases s with ⟨_ | _ | _ | _, _ | v⟩ <;> simp_all [tenants]

theorem eq_of_vacating {s : Slot α} (h : {.vacating} ≤ s.tenants) : s = ⟨.reading, none⟩ := by
  rcases s with ⟨_ | _ | _ | _, _ | v⟩ <;> simp_all [tenants]

theorem phase_of_tenants {s : Slot α} (h : s.tenants = 0) : s.phase = .empty ∨ s.phase = .full := by
  rcases s with ⟨_ | _ | _ | _, _ | v⟩ <;> simp [tenants] at h ⊢

/-! ### Steps at a slot -/

/-- What a step of moving `v` in does to its slot. -/
inductive Writes (v : α) : Writing → Slot α → Progress Writing Unit → Slot α → Prop
  /-- The slot is not empty, or the claim fails without cause. -/
  | wait {s : Slot α} {b b' : Backoff} : Writes v (.claim b) s (.more (.claim b')) s
  /-- The slot is claimed. -/
  | claim {b : Backoff} : Writes v (.claim b) ⟨.empty, none⟩ (.more .place) ⟨.writing, none⟩
  /-- The element is moved in. -/
  | place : Writes v .place ⟨.writing, none⟩ (.more .publish) ⟨.writing, some v⟩
  /-- The slot is full. -/
  | publish : Writes v .publish ⟨.writing, some v⟩ (.done ()) ⟨.full, some v⟩

/-- What a step of moving an element out does to its slot. -/
inductive Takes : Taking α → Slot α → Progress (Taking α) α → Slot α → Prop
  /-- The slot is not full, or the claim fails without cause. -/
  | wait {s : Slot α} {b b' : Backoff} : Takes (.claim b) s (.more (.claim b')) s
  /-- The slot is claimed. -/
  | claim {v : α} {b : Backoff} :
    Takes (.claim b) ⟨.full, some v⟩ (.more .remove) ⟨.reading, some v⟩
  /-- The element is moved out. -/
  | remove {v : α} : Takes .remove ⟨.reading, some v⟩ (.more (.vacate v)) ⟨.reading, none⟩
  /-- The slot is empty. -/
  | vacate {v : α} : Takes (.vacate v) ⟨.reading, none⟩ (.done v) ⟨.empty, none⟩

/-! ### What a tenant finds -/

/-- The tenant that a thread is which moves `v` in, if it has claimed its slot. -/
def Writing.tenancy (v : α) : Writing → Multiset (Tenant α)
  | .claim _ => 0
  | .place => {.placing}
  | .publish => {.placed v}

/-- The tenant that a thread is which moves an element out, if it has claimed its slot. -/
def Taking.tenancy : Taking α → Multiset (Tenant α)
  | .claim _ => 0
  | .remove => {.removing}
  | .vacate _ => {.vacating}

/-- **Every step of moving an element in is one of these.** -/
theorem Writing.writes {v : α} {w : Writing} {s s' : Slot α} {b : Bool}
    {r : Progress Writing Unit} (hs : s.Sound) (ht : w.tenancy v ≤ s.tenants)
    (h : w.step v b s = (r, s')) : s.Writes v w r s' := by
  cases w with
  | claim wait =>
    cases hc : (if b then none else s.claimWrite? : Option (Slot α)) with
    | none =>
      simp only [Writing.step, hc] at h
      cases h
      exact .wait
    | some y =>
      simp only [Writing.step, hc] at h
      cases h
      cases b with
      | true => cases hc
      | false =>
        simp only [Bool.false_eq_true, if_false, claimWrite?] at hc
        split at hc
        · rename_i hp
          have hcell := hs.empty hp
          obtain ⟨phase, cell⟩ := s
          cases hp
          cases hcell
          cases hc
          exact .claim
        · cases hc
  | place =>
    cases eq_of_placing ht
    cases h
    exact .place
  | publish =>
    cases eq_of_placed ht
    cases h
    exact .publish

/-- **Every step of moving an element out is one of these.** -/
theorem Taking.takes {t : Taking α} {s s' : Slot α} {b : Bool} {r : Progress (Taking α) α}
    (hs : s.Sound) (ht : t.tenancy ≤ s.tenants) (h : t.step b s = (r, s')) :
    s.Takes t r s' := by
  cases t with
  | claim wait =>
    cases hc : (if b then none else s.claimRead? : Option (Slot α)) with
    | none =>
      simp only [Taking.step, hc] at h
      cases h
      exact .wait
    | some y =>
      simp only [Taking.step, hc] at h
      cases h
      cases b with
      | true => cases hc
      | false =>
        simp only [Bool.false_eq_true, if_false, claimRead?] at hc
        split at hc
        · rename_i hp
          have hcell := hs.full hp
          obtain ⟨phase, cell⟩ := s
          cases hp
          cases hc
          cases cell with
          | none => exact absurd rfl hcell
          | some v => exact .claim
        · cases hc
  | remove =>
    obtain ⟨v, rfl⟩ := eq_of_removing ht
    cases h
    exact .remove
  | vacate v =>
    cases eq_of_vacating ht
    cases h
    exact .vacate

end Slot

end PermitRing
