import Mathlib.Data.List.Basic
import Mathlib.Data.List.Induction
import Mathlib.Logic.Function.Basic
import PermitRing.Proofs.Storage.Window

/-!
# What goes through a storage

Threads move elements into the slots of a storage and out of them, look at slots, count the full
ones, and destroy what is there. A call that finds its slot not ready waits there until other calls
have made it so, and which of the waiting calls looks next is open.

A slot shows nothing of its past. What it holds follows all the same from what was done: the element
of the last write, unless a take of this slot or a destruction has come after it. A storage whose
slots hold what so follows answers every operation by an equation, and what it then holds follows
again from what was done. So nothing is lost between two slots, and no element is met twice.

## Main definitions

* `Storage.stocked` — the storage whose slots hold given elements, or none;
* `Storage.Deed`, `Storage.holds` — what was done, and what it leaves in each slot;
* `Storage.History` — what can be done, one thing after another;
* `Storage.Traffic` — a storage, the calls that wait there, and what was done.

## Main results

* `Storage.write_stocked`, `take_stocked`, `clear_stocked` and their kind — the answers;
* `Storage.History.brought_eq` — what was moved into a slot has left it, or is there;
* `Storage.Traffic.Kept.step`, `Kept.run` — a storage holds what follows from its history;
* `Storage.Traffic.slot_by_slot` — whole runs.
-/

namespace PermitRing.Storage

variable {α : Type}

/-! ### Stock -/

/-- The storage of `n` slots that hold these elements, or none. -/
def stocked (n : Nat) (held : Nat → Option α) : Storage α :=
  ⟨((List.range n).map fun i => Slot.holding (held i)).toArray⟩

section Stocked

variable {n i j : Nat} {held : Nat → Option α} {v : α}

theorem slots_stocked (n : Nat) (held : Nat → Option α) (i : Nat) :
    (stocked n held).slots[i]? = if i < n then some (Slot.holding (held i)) else none := by
  rw [stocked, List.getElem?_toArray, List.getElem?_map]
  split
  · rename_i hi
    rw [List.getElem?_range hi, Option.map_some]
  · rename_i hi
    rw [List.getElem?_eq_none (by rw [List.length_range]; exact Nat.le_of_not_lt hi),
      Option.map_none]

theorem capacity_stocked (n : Nat) (held : Nat → Option α) : (stocked n held).capacity = n := by
  rw [capacity, stocked, List.size_toArray, List.length_map, List.length_range]

/-- A storage is the one whose slots hold these elements if they do so one by one. -/
theorem eq_stocked {s : Storage α} (hn : s.capacity = n)
    (h : ∀ i < n, s.slots[i]? = some (Slot.holding (held i))) : s = stocked n held := by
  have hslots : s.slots = (stocked n held).slots := by
    refine Array.ext_getElem? fun i => ?_
    rw [slots_stocked]
    split
    · rename_i hi
      exact h i hi
    · rename_i hi
      exact Array.getElem?_eq_none (by rw [← hn] at hi; exact Nat.le_of_not_lt hi)
  exact congrArg mk hslots

theorem vacant_eq_stocked (n : Nat) : (vacant n : Storage α) = stocked n fun _ => none := by
  refine eq_stocked (by rw [capacity, vacant, Array.size_replicate]) fun i hi => ?_
  rw [vacant, Array.getElem?_replicate, if_pos hi]
  rfl

/-- One slot is given something else to hold. -/
theorem put_stocked (n : Nat) (held : Nat → Option α) (i : Nat) (o : Option α) :
    (stocked n held).put i (.holding o) = stocked n (Function.update held i o) := by
  have hcap := capacity_stocked n held
  refine eq_stocked ((capacity_put _ _ _).trans hcap) fun j hj => ?_
  by_cases hij : i = j
  · subst hij
    rw [slots_put_self (by rwa [hcap]), Function.update_self]
  · rw [slots_put_of_ne _ hij, slots_stocked, if_pos hj, Function.update_of_ne (Ne.symm hij)]

/-! ### Operations on one slot -/

section OneSlot

variable {β : Type} (op : Slot α → Option (β × Slot α))

/-- An operation on one slot looks at that slot alone. -/
theorem onSlot_stocked (hi : i < n) :
    (stocked n held).onSlot op i =
      match op (.holding (held i)) with
      | some (r, x) => (.ok r, (stocked n held).put i x)
      | none => (.error .waitsForever, stocked n held) := by
  cases hop : op (.holding (held i)) <;> simp only [onSlot, slots_stocked, if_pos hi, hop]

/-- There is no slot past the end. -/
theorem onSlot_of_le (hi : n ≤ i) :
    (stocked n held).onSlot op i = (.error (.slotOutOfRange i n), stocked n held) := by
  simp only [onSlot, slots_stocked, if_neg (Nat.not_lt.mpr hi), capacity_stocked]

/-- An operation on one slot leaves all others as they are. -/
theorem onSlot_slots_of_ne (s : Storage α) (h : i ≠ j) :
    (s.onSlot op i).2.slots[j]? = s.slots[j]? := by
  rw [onSlot]
  split
  · rfl
  · split
    · exact slots_put_of_ne s h _
    · rfl

end OneSlot

/-- A writer waits where its slot holds an element. -/
theorem write_stocked (hi : i < n) (v : α) :
    (stocked n held).write i v =
      match held i with
      | none => (.ok (), stocked n (Function.update held i (some v)))
      | some _ => (.error .waitsForever, stocked n held) := by
  rw [write, onSlot_stocked _ hi]
  cases held i with
  | none => exact congrArg _ (put_stocked n held i (some v))
  | some old => rfl

/-- A taker waits where its slot holds none. -/
theorem take_stocked (hi : i < n) :
    (stocked n held).take i =
      match held i with
      | some v => (.ok v, stocked n (Function.update held i none))
      | none => (.error .waitsForever, stocked n held) := by
  rw [take, onSlot_stocked _ hi]
  cases held i with
  | none => rfl
  | some v => exact congrArg _ (put_stocked n held i none)

/-- A writer that waits at a full slot moves its element in behind the one taken. -/
theorem writeBehind_stocked (hi : i < n) (v : α) :
    (stocked n held).writeBehind i v =
      match held i with
      | some old => (.ok old, stocked n (Function.update held i (some v)))
      | none => (.error .waitsForever, stocked n held) := by
  rw [writeBehind, onSlot_stocked _ hi]
  cases held i with
  | none => rfl
  | some old => exact congrArg _ (put_stocked n held i (some v))

/-- A taker that waits at an empty slot takes the element that is moved in, and leaves the slot as
it was. -/
theorem takeBehind_stocked (hi : i < n) (v : α) :
    (stocked n held).takeBehind i v =
      match held i with
      | none => (.ok v, stocked n held)
      | some _ => (.error .waitsForever, stocked n held) := by
  rw [takeBehind, onSlot_stocked _ hi]
  cases h : held i with
  | none =>
    have hput : (stocked n held).put i (.holding none) = stocked n held := by
      rw [put_stocked, ← h, Function.update_eq_self]
    exact congrArg _ hput
  | some old => rfl

theorem isFull_stocked (hi : i < n) : (stocked n held).isFull i = .ok (held i).isSome := by
  rw [isFull, slot, slots_stocked, if_pos hi]
  cases held i <;> rfl

theorem isFull_of_le (hi : n ≤ i) :
    (stocked n held).isFull i = .error (.slotOutOfRange i n) := by
  rw [isFull, slot, slots_stocked, if_neg (Nat.not_lt.mpr hi), capacity_stocked]
  rfl

/-! ### Operations on all slots -/

theorem occupancy_stocked (n : Nat) (held : Nat → Option α) :
    (stocked n held).occupancy = (List.range n).map fun i => (held i).isSome := by
  rw [occupancy, stocked, List.toList_toArray, List.map_map]
  refine List.map_congr_left fun i _ => ?_
  rw [Function.comp_apply]
  cases held i <;> rfl

theorem fullCount_stocked (n : Nat) (held : Nat → Option α) :
    (stocked n held).fullCount = (List.range n).countP fun i => (held i).isSome := by
  rw [fullCount, occupancy_stocked, List.count_eq_countP, List.countP_map]
  exact List.countP_congr fun i _ => by simp

/-- The elements are destroyed in the order of their slots, and every slot is vacant after that. -/
theorem clear_stocked (n : Nat) (held : Nat → Option α) :
    (stocked n held).clear = ((List.range n).filterMap held, vacant n) := by
  have hgone : ((stocked n held).slots.toList.filterMap fun x => x.clear.1) =
      (List.range n).filterMap held := by
    rw [stocked, List.toList_toArray, List.filterMap_map]
    refine List.filterMap_congr fun i _ => ?_
    rw [Function.comp_apply, Slot.clear_holding]
  have hleft : (⟨(stocked n held).slots.map fun x => x.clear.2⟩ : Storage α) = vacant n := by
    rw [vacant_eq_stocked]
    refine eq_stocked ?_ fun i hi => ?_
    · rw [capacity, Array.size_map]
      exact capacity_stocked n held
    · rw [Array.getElem?_map, slots_stocked, if_pos hi, Option.map_some, Slot.clear_holding]
      rfl
  exact Prod.ext hgone hleft

end Stocked

/-! ### What was done -/

/-- Something that was done at a storage, with its answer. -/
inductive Deed (α : Type)
  /-- An element was moved into a slot. -/
  | wrote (i : Nat) (v : α)
  /-- The element of a slot was moved out, and returned to the caller. -/
  | took (i : Nat) (v : α)
  /-- Somebody looked whether a slot holds an element. -/
  | looked (i : Nat) (full : Bool)
  /-- Somebody counted the slots that hold an element. -/
  | counted (k : Nat)
  /-- These elements of these slots were destroyed, in this order. -/
  | cleared (gone : List (Nat × α))
  /-- A call gave up. -/
  | faulted (f : Fault)
  deriving DecidableEq, Repr

/-- What the slots hold after something was done. -/
def Deed.leaves (held : Nat → Option α) : Deed α → Nat → Option α
  | .wrote i v => Function.update held i (some v)
  | .took i _ => Function.update held i none
  | .cleared _ => fun _ => none
  | .looked .. | .counted _ | .faulted _ => held

/-- What the slots of a new storage hold after all this was done: the element of the last write, if
neither a take of the slot nor a destruction has come after it. -/
def holds (deeds : List (Deed α)) : Nat → Option α :=
  deeds.foldl Deed.leaves fun _ => none

/-- This can be done at a storage of `n` slots that hold these elements, and is answered so. -/
def Deed.Fits (n : Nat) (held : Nat → Option α) : Deed α → Prop
  | .wrote i _ => i < n ∧ held i = none
  | .took i v => i < n ∧ held i = some v
  | .looked i full => i < n ∧ full = (held i).isSome
  | .counted k => k = (List.range n).countP fun i => (held i).isSome
  | .cleared gone => gone = (List.range n).filterMap fun i => (held i).map (Prod.mk i)
  | .faulted f => ∃ i, n ≤ i ∧ f = .slotOutOfRange i n

/-- All this can be done at a new storage of `n` slots, one thing after another. -/
inductive History (n : Nat) : List (Deed α) → Prop
  /-- Nothing was done. -/
  | new : History n []
  /-- One more thing was done. -/
  | next {deeds : List (Deed α)} {d : Deed α} (h : History n deeds) (hd : d.Fits n (holds deeds)) :
    History n (deeds ++ [d])

/-- The element that was moved into this slot. -/
def Deed.brought (i : Nat) : Deed α → List α
  | .wrote j v => if j = i then [v] else []
  | _ => []

/-- The element that has left this slot, moved out or destroyed. -/
def Deed.gone (i : Nat) : Deed α → List α
  | .took j v => if j = i then [v] else []
  | .cleared gone => gone.filterMap fun p => if p.1 = i then some p.2 else none
  | _ => []

theorem holds_append (deeds : List (Deed α)) (d : Deed α) :
    holds (deeds ++ [d]) = d.leaves (holds deeds) := by
  rw [holds, List.foldl_append]
  rfl

/-- What was done changes what this slot holds. -/
def Deed.touches (i : Nat) : Deed α → Bool
  | .wrote j _ | .took j _ => j == i
  | .cleared _ => true
  | .looked .. | .counted _ | .faulted _ => false

theorem Deed.leaves_of_touches_eq_false {i : Nat} {d : Deed α} (h : d.touches i = false)
    (held : Nat → Option α) : d.leaves held i = held i := by
  cases d with
  | wrote j v | took j v => exact Function.update_of_ne (Ne.symm (beq_eq_false_iff_ne.mp h)) _ _
  | cleared gone => cases h
  | looked j full | counted k | faulted f => rfl

theorem Deed.eq_wrote_of_touches {i : Nat} {d : Deed α} {held : Nat → Option α} {v : α}
    (h : d.touches i = true) (hv : d.leaves held i = some v) : d = .wrote i v := by
  cases d with
  | wrote j w =>
    obtain rfl : j = i := beq_iff_eq.mp h
    rw [leaves, Function.update_self] at hv
    rw [Option.some.inj hv]
  | took j w =>
    obtain rfl : j = i := beq_iff_eq.mp h
    rw [leaves, Function.update_self] at hv
    cases hv
  | cleared gone => cases hv
  | looked j full | counted k | faulted f => cases h

/-- A slot holds the element of a write after which nothing has changed what it holds. -/
theorem holds_eq_some_iff {deeds : List (Deed α)} {i : Nat} {v : α} :
    holds deeds i = some v ↔ ∃ before after, deeds = before ++ .wrote i v :: after ∧
      ∀ d ∈ after, d.touches i = false := by
  induction deeds using List.reverseRecOn with
  | nil => simp [holds]
  | append_singleton deeds d ih =>
    rw [holds_append]
    constructor
    · intro hv
      cases hd : d.touches i with
      | true => exact ⟨deeds, [], by rw [Deed.eq_wrote_of_touches hd hv], nofun⟩
      | false =>
        rw [Deed.leaves_of_touches_eq_false hd] at hv
        obtain ⟨before, after, rfl, hafter⟩ := ih.mp hv
        refine ⟨before, after ++ [d], by simp, fun e he => ?_⟩
        rcases List.mem_append.mp he with he | he
        · exact hafter e he
        · rwa [List.mem_singleton.mp he]
    · rintro ⟨before, after, heq, hafter⟩
      rcases List.eq_nil_or_concat after with rfl | ⟨after, e, rfl⟩
      · obtain ⟨-, rfl⟩ := List.append_singleton_inj.mp heq
        exact Function.update_self ..
      · rw [List.concat_eq_append, ← List.cons_append, ← List.append_assoc] at heq
        obtain ⟨rfl, rfl⟩ := List.append_singleton_inj.mp heq
        rw [Deed.leaves_of_touches_eq_false (hafter _ (by simp)), ih]
        exact ⟨before, after, rfl, fun e he => hafter e (by simp [he])⟩

/-- The elements with their slots, by their slots and by themselves. -/
theorem zip_filterMap (l : List Nat) (held : Nat → Option α) :
    (l.filter fun i => (held i).isSome).zip (l.filterMap held) =
      l.filterMap fun i => (held i).map (Prod.mk i) := by
  induction l with
  | nil => rfl
  | cons i l ih =>
    rw [List.filter_cons, List.filterMap_cons, List.filterMap_cons]
    cases held i with
    | none => exact ih
    | some v => exact congrArg ((i, v) :: ·) ih

/-- Of the elements with their slots, those of one slot. -/
theorem filterMap_of_slot {n : Nat} {held : Nat → Option α} (hn : ∀ i, n ≤ i → held i = none)
    (i : Nat) :
    (((List.range n).filterMap fun j => (held j).map (Prod.mk j)).filterMap
      fun p => if p.1 = i then some p.2 else none) = (held i).toList := by
  have hall : ∀ k, (((List.range k).filterMap fun j => (held j).map (Prod.mk j)).filterMap
      fun p => if p.1 = i then some p.2 else none) = if i < k then (held i).toList else [] := by
    intro k
    induction k with
    | zero => rfl
    | succ k ih =>
      rw [List.range_succ, List.filterMap_append, List.filterMap_append, ih]
      rcases Nat.lt_trichotomy i k with hlt | rfl | hgt
      · cases h : held k <;> simp [h, hlt, Nat.lt_succ_of_lt hlt, Nat.ne_of_gt hlt]
      · cases h : held i <;> simp [h]
      · cases h : held k <;>
          simp [h, Nat.not_lt.mpr hgt.le, Nat.ne_of_lt hgt, Nat.not_lt.mpr (Nat.succ_le_of_lt hgt)]
  rw [hall]
  split
  · rfl
  · rename_i hi
    rw [hn i (Nat.le_of_not_lt hi)]
    rfl

namespace History

variable {n : Nat} {deeds : List (Deed α)}

/-- Nothing is done past the end. -/
theorem holds_of_le (h : History n deeds) (i : Nat) (hi : n ≤ i) : holds deeds i = none := by
  induction h with
  | new => rfl
  | @next deeds d h hd ih =>
    rw [holds_append]
    cases d with
    | wrote j v | took j v =>
      have hj : i ≠ j := Nat.ne_of_gt (Nat.lt_of_lt_of_le hd.1 hi)
      exact (Function.update_of_ne hj _ _).trans ih
    | cleared gone => rfl
    | looked j full | counted k | faulted f => exact ih

/-- **What was moved into a slot has left it, in order, or is there.** -/
theorem brought_eq (h : History n deeds) (i : Nat) :
    deeds.flatMap (Deed.brought i) = deeds.flatMap (Deed.gone i) ++ (holds deeds i).toList := by
  induction h with
  | new => rfl
  | @next deeds d h hd ih =>
    rw [List.flatMap_append, ih, List.flatMap_append, holds_append, List.flatMap_singleton,
      List.flatMap_singleton, List.append_assoc, List.append_assoc]
    congr 1
    cases d with
    | wrote j v | took j v =>
      by_cases hj : j = i
      · subst hj
        simp [Deed.brought, Deed.gone, Deed.leaves, hd.2]
      · simp [Deed.brought, Deed.gone, Deed.leaves, hj, Ne.symm hj]
    | cleared gone =>
      have hgone : gone = (List.range n).filterMap fun j => (holds deeds j).map (Prod.mk j) := hd
      simp only [Deed.brought, Deed.gone, Deed.leaves, hgone, List.append_nil, Option.toList_none]
      exact (filterMap_of_slot h.holds_of_le i).symm
    | looked j full | counted k | faulted f => simp [Deed.brought, Deed.gone, Deed.leaves]

end History

/-! ### Threads at a storage -/

/-- A call that may wait at a slot. -/
inductive Call (α : Type)
  /-- Moves an element in. -/
  | write (i : Nat) (v : α)
  /-- Moves an element out. -/
  | take (i : Nat)
  deriving DecidableEq, Repr

/-- The slot of a call. -/
def Call.place : Call α → Nat
  | .write i _ | .take i => i

/-- The call looks at its slot, and is carried out if the slot lets it. -/
def Call.attempt : Call α → Storage α → Except Fault (Deed α) × Storage α
  | .write i v, s => ((s.write i v).1.map fun _ => .wrote i v, (s.write i v).2)
  | .take i, s => ((s.take i).1.map (.took i), (s.take i).2)

/-- What the call does at a slot that holds this; nothing where it waits. -/
def Call.deed? : Call α → Option α → Option (Deed α)
  | .write i v, none => some (.wrote i v)
  | .take i, some v => some (.took i v)
  | .write .., some _ | .take _, none => none

/-- A storage in use. -/
structure Traffic (α : Type) where
  /-- The storage. -/
  storage : Storage α
  /-- The calls that have not been carried out. -/
  waiting : List (Call α) := []
  /-- What was done, the first thing first. -/
  deeds : List (Deed α) := []

/-- What can happen at a storage. -/
inductive Move (α : Type)
  /-- A call comes. -/
  | come (c : Call α)
  /-- One of the calls that have come looks at its slot, and goes, or waits on. -/
  | go (k : Nat)
  /-- Somebody looks whether a slot holds an element. -/
  | look (i : Nat)
  /-- Somebody counts the slots that hold an element. -/
  | count
  /-- The elements are destroyed, if no call is there. -/
  | clear

namespace Traffic

/-- A new storage of `n` slots. -/
def fresh (n : Nat) : Traffic α where
  storage := vacant n

/-- The slots that hold an element. -/
def fullSlots (s : Storage α) : List Nat :=
  (List.range s.capacity).filter fun i => s.occupancy.getD i false

/-- The state after something has happened. -/
def step (t : Traffic α) : Move α → Traffic α
  | .come c => { t with waiting := t.waiting ++ [c] }
  | .go k =>
    match t.waiting[k]? with
    | none => t
    | some c =>
      match c.attempt t.storage with
      | (.ok d, s) => ⟨s, t.waiting.eraseIdx k, t.deeds ++ [d]⟩
      | (.error .waitsForever, s) => { t with storage := s }
      | (.error f, s) => ⟨s, t.waiting.eraseIdx k, t.deeds ++ [.faulted f]⟩
  | .look i =>
    match t.storage.isFull i with
    | .ok full => { t with deeds := t.deeds ++ [.looked i full] }
    | .error f => { t with deeds := t.deeds ++ [.faulted f] }
  | .count => { t with deeds := t.deeds ++ [.counted t.storage.fullCount] }
  | .clear =>
    if t.waiting.isEmpty then
      { t with
        storage := t.storage.clear.2
        deeds := t.deeds ++ [.cleared ((fullSlots t.storage).zip t.storage.clear.1)] }
    else t

/-- The state after all this has happened. -/
def run (t : Traffic α) (moves : List (Move α)) : Traffic α :=
  moves.foldl step t

end Traffic

/-! ### A storage and its history -/

section Calls

variable {n : Nat} {held : Nat → Option α} {c : Call α} {d : Deed α}

theorem Call.attempt_stocked (hc : c.place < n) :
    c.attempt (stocked n held) =
      match c.deed? (held c.place) with
      | some d => (.ok d, stocked n (d.leaves held))
      | none => (.error .waitsForever, stocked n held) := by
  cases c with
  | write i v =>
    have hi : i < n := hc
    rw [attempt, write_stocked hi]
    simp only [place]
    cases held i <;> rfl
  | take i =>
    have hi : i < n := hc
    rw [attempt, take_stocked hi]
    simp only [place]
    cases held i <;> rfl

theorem Call.attempt_of_le (hc : n ≤ c.place) :
    c.attempt (stocked n held) = (.error (.slotOutOfRange c.place n), stocked n held) := by
  cases c with
  | write i v =>
    have hi : n ≤ i := hc
    rw [attempt, Storage.write, onSlot_of_le _ hi]
    rfl
  | take i =>
    have hi : n ≤ i := hc
    rw [attempt, Storage.take, onSlot_of_le _ hi]
    rfl

/-- A call does what can be done. -/
theorem Call.fits (hc : c.place < n) (h : c.deed? (held c.place) = some d) : d.Fits n held := by
  cases c with
  | write i v =>
    cases hi : held i with
    | none =>
      rw [place, hi] at h
      cases h
      exact ⟨hc, hi⟩
    | some old =>
      rw [place, hi] at h
      cases h
  | take i =>
    cases hi : held i with
    | none =>
      rw [place, hi] at h
      cases h
    | some v =>
      rw [place, hi] at h
      cases h
      exact ⟨hc, hi⟩

end Calls

namespace Traffic

variable {n : Nat} {t : Traffic α}

/-- The slots that hold an element, of a storage whose slots hold these. -/
theorem fullSlots_stocked (n : Nat) (held : Nat → Option α) :
    fullSlots (stocked n held) = (List.range n).filter fun i => (held i).isSome := by
  rw [fullSlots, capacity_stocked, occupancy_stocked]
  refine List.filter_congr fun i hi => ?_
  rw [List.getD_eq_getElem?_getD, List.getElem?_map, List.getElem?_range (List.mem_range.mp hi)]
  rfl

/-- The slots hold what follows from what was done, and all of it could be done. -/
structure Kept (n : Nat) (t : Traffic α) : Prop where
  storage : t.storage = stocked n (holds t.deeds)
  history : History n t.deeds

theorem kept_fresh (n : Nat) : (fresh n : Traffic α).Kept n :=
  ⟨vacant_eq_stocked n, .new⟩

namespace Kept

/-- Something was done, and the storage is what it leaves. -/
theorem record (h : t.Kept n) (d : Deed α) (hd : d.Fits n (holds t.deeds)) {s : Storage α}
    (hs : s = stocked n (d.leaves (holds t.deeds))) (w : List (Call α)) :
    Kept n ⟨s, w, t.deeds ++ [d]⟩ :=
  ⟨hs.trans (congrArg _ (holds_append _ _).symm), h.history.next hd⟩

/-- A call that has come goes if its slot lets it, and waits otherwise. -/
theorem step_go (h : t.Kept n) {k : Nat} {c : Call α} (hk : t.waiting[k]? = some c)
    (hc : c.place < n) :
    t.step (.go k) =
      match c.deed? (holds t.deeds c.place) with
      | some d =>
        ⟨stocked n (d.leaves (holds t.deeds)), t.waiting.eraseIdx k, t.deeds ++ [d]⟩
      | none => t := by
  simp only [step, hk, h.storage, Call.attempt_stocked hc]
  cases c.deed? (holds t.deeds c.place) with
  | none => exact congrArg (fun s => (⟨s, t.waiting, t.deeds⟩ : Traffic α)) h.storage.symm
  | some d => rfl

/-- A call for a slot past the end gives up. -/
theorem step_go_of_le (h : t.Kept n) {k : Nat} {c : Call α} (hk : t.waiting[k]? = some c)
    (hc : n ≤ c.place) :
    t.step (.go k) = ⟨stocked n (holds t.deeds), t.waiting.eraseIdx k,
      t.deeds ++ [.faulted (.slotOutOfRange c.place n)]⟩ := by
  simp only [step, hk, h.storage, Call.attempt_of_le hc]

/-- **A step.** -/
theorem step (h : t.Kept n) (m : Move α) : (t.step m).Kept n := by
  cases m with
  | come c => exact ⟨h.storage, h.history⟩
  | go k =>
    cases hk : t.waiting[k]? with
    | none =>
      simp only [Traffic.step, hk]
      exact h
    | some c =>
      rcases Nat.lt_or_ge c.place n with hc | hc
      · rw [h.step_go hk hc]
        cases hd : c.deed? (holds t.deeds c.place) with
        | none => exact h
        | some d => exact h.record d (Call.fits hc hd) rfl _
      · rw [h.step_go_of_le hk hc]
        exact h.record (.faulted _) ⟨_, hc, rfl⟩ rfl _
  | look i =>
    rcases Nat.lt_or_ge i n with hi | hi
    · simp only [Traffic.step, h.storage, isFull_stocked hi]
      exact h.record (.looked i _) ⟨hi, rfl⟩ rfl _
    · simp only [Traffic.step, h.storage, isFull_of_le hi]
      exact h.record (.faulted _) ⟨i, hi, rfl⟩ rfl _
  | count =>
    simp only [Traffic.step, h.storage, fullCount_stocked]
    exact h.record (.counted _) rfl rfl _
  | clear =>
    simp only [Traffic.step]
    split
    · simp only [h.storage, clear_stocked, fullSlots_stocked, zip_filterMap]
      exact h.record (.cleared _) rfl (vacant_eq_stocked n) _
    · exact h

/-- **A run.** -/
theorem run (h : t.Kept n) (moves : List (Move α)) : (t.run moves).Kept n := by
  induction moves generalizing t with
  | nil => exact h
  | cons m moves ih => exact ih (h.step m)

end Kept

/-! ### Whole runs -/

/-- **A storage conserves its elements slot by slot.** Let calls come to a new storage of `n` slots,
and go, or wait and go, in any order, with looks, counts and destructions between them. Whatever was
done has the answer that follows from what was done before. The storage is the one whose slots hold
the elements of the last writes, where neither a take nor a destruction has come after them; so
every element that was moved into a slot has left this slot once, moved out or destroyed, or is
there. A call that has come goes if its slot lets it, and waits otherwise; a call that waits at its
slot is carried out behind the one that it waits for; and none changes another slot. The elements
are destroyed once, in the order of their slots, and the storage is new again. A call for a slot
past the end gives up, and changes nothing. -/
theorem slot_by_slot (n : Nat) (moves : List (Move α)) :
    let t := (fresh n : Traffic α).run moves
    let s := t.storage
    let held := holds t.deeds
    History n t.deeds ∧ s = stocked n held ∧
      (∀ i v, held i = some v ↔ ∃ before after, t.deeds = before ++ .wrote i v :: after ∧
        ∀ d ∈ after, d.touches i = false) ∧
      (∀ i, t.deeds.flatMap (Deed.brought i) =
        t.deeds.flatMap (Deed.gone i) ++ (held i).toList) ∧
      (s.fullCount = (List.range n).countP fun i => (held i).isSome) ∧
      (∀ k c, t.waiting[k]? = some c → c.place < n →
        t.step (.go k) =
          match c.deed? (held c.place) with
          | some d => ⟨stocked n (d.leaves held), t.waiting.eraseIdx k, t.deeds ++ [d]⟩
          | none => t) ∧
      (∀ i < n, ∀ v,
        s.writeBehind i v =
            (match held i with
            | some old => (.ok old, stocked n (Function.update held i (some v)))
            | none => (.error .waitsForever, s)) ∧
          s.takeBehind i v =
            match held i with
            | none => (.ok v, s)
            | some _ => (.error .waitsForever, s)) ∧
      (∀ i j, i ≠ j → ∀ v,
        (s.write i v).2.slots[j]? = s.slots[j]? ∧ (s.take i).2.slots[j]? = s.slots[j]?) ∧
      s.clear = ((List.range n).filterMap held, vacant n) ∧
      s.clear.1.length = s.fullCount ∧
      (vacant n : Storage α).clear = ([], vacant n) ∧
      (∀ i < n, ∀ v : α, ((vacant n).write i v).1 = .ok ()) ∧
      ∀ i, n ≤ i → ∀ v,
        s.write i v = (.error (.slotOutOfRange i n), s) ∧
          s.take i = (.error (.slotOutOfRange i n), s) ∧
          s.isFull i = .error (.slotOutOfRange i n) := by
  intro t s held
  have h : t.Kept n := (kept_fresh n).run moves
  have hs : s = stocked n held := h.storage
  refine ⟨h.history, hs, fun i v => holds_eq_some_iff, h.history.brought_eq, ?_,
    fun k c hk hc => h.step_go hk hc, fun i hi v => ?_,
    fun i j hij v => ⟨onSlot_slots_of_ne _ s hij, onSlot_slots_of_ne _ s hij⟩, ?_, ?_, ?_,
    fun i hi v => ?_, fun i hi v => ?_⟩
  · rw [hs, fullCount_stocked]
  · rw [hs, writeBehind_stocked hi, takeBehind_stocked hi]
    exact ⟨rfl, rfl⟩
  · rw [hs, clear_stocked]
  · rw [hs, clear_stocked, fullCount_stocked, List.length_filterMap_eq_countP]
  · rw [vacant_eq_stocked, clear_stocked, vacant_eq_stocked,
      List.filterMap_eq_nil_iff.mpr fun _ _ => rfl]
  · rw [vacant_eq_stocked, write_stocked hi]
  · rw [hs]
    exact ⟨onSlot_of_le _ hi, onSlot_of_le _ hi, isFull_of_le hi⟩

/-- A writer waits at a full slot and a taker at an empty one, and each goes when others have been
there. Nothing is destroyed while they wait. A call for a slot past the end gives up. -/
def handOver : List (Move Nat) :=
  [.come (.write 1 10), .go 0, .come (.write 1 11), .go 0, .come (.take 0), .go 1, .count, .clear,
    .come (.take 1), .go 2, .go 0, .come (.write 0 7), .go 1, .go 0, .come (.write 0 8), .go 0,
    .come (.take 2), .go 0]

theorem slot_by_slot_handOver :
    ((fresh 2).run handOver).deeds =
        [.wrote 1 10, .counted 1, .took 1 10, .wrote 1 11, .wrote 0 7, .took 0 7, .wrote 0 8,
          .faulted (.slotOutOfRange 2 2)] ∧
      ((fresh 2).run handOver).storage.clear = ([8, 11], vacant 2) ∧
      ((fresh 2).run handOver).storage.writeBehind 1 12 =
        (.ok 11,
          stocked 2 (Function.update (holds ((fresh 2).run handOver).deeds) 1 (some 12))) := by
  have hdeeds : ((fresh 2).run handOver).deeds =
      [.wrote 1 10, .counted 1, .took 1 10, .wrote 1 11, .wrote 0 7, .took 0 7, .wrote 0 8,
        .faulted (.slotOutOfRange 2 2)] := by decide
  obtain ⟨-, -, -, -, -, -, hbehind, -, hclear, -⟩ := slot_by_slot 2 handOver
  have hheld : holds ((fresh 2).run handOver).deeds 1 = some 11 := by rw [hdeeds]; decide
  have hfull : (List.range 2).filterMap (holds ((fresh 2).run handOver).deeds) = [8, 11] := by
    rw [hdeeds]
    decide
  have hwaits := (hbehind 1 (by decide) 12).1
  rw [hheld] at hwaits
  exact ⟨hdeeds, hclear.trans (by rw [hfull]), hwaits⟩

end Traffic

end PermitRing.Storage
