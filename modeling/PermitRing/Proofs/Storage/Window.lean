import Mathlib.Data.Nat.ModEq
import PermitRing.Storage

/-!
# The window of a ring

Read from one slot on and round the ring, the slots of a storage hold a list of elements and are
vacant after it. Moving an element into the slot behind the window makes the list longer at its end,
and moving the element of the first slot out makes it shorter at its beginning. Destroying what is
left goes by the order of the slots, which is not that of the list where the window passes the last
slot: what stands behind it, in the slots before the first of the window, comes first.

## Main results

* `Storage.window_vacant` — a new storage holds nothing from its first slot on;
* `Storage.Window.write` — an element moved in behind the window;
* `Storage.Window.take` — the first element moved out;
* `Storage.Window.destroyed`, `Window.cleared` — what is destroyed in the end, and what is left.
-/

namespace PermitRing

variable {α : Type}

/-- A slot that holds an element, or none. -/
def Slot.holding : Option α → Slot α
  | some v => ⟨.full, some v⟩
  | none => .vacant

theorem Slot.clear_holding (o : Option α) : (holding o).clear = (o, vacant) := by
  cases o <;> rfl

/-- Slots that hold elements from the first slot on are cleared in the order of the elements. -/
theorem Slot.filterMap_clear {l : List (Slot α)} {items : List α}
    (h : ∀ k < l.length, l[k]? = some (holding items[k]?)) :
    (l.filterMap fun x => x.clear.1) = items.take l.length := by
  induction l generalizing items with
  | nil => rfl
  | cons x l ih =>
    have hx : x = holding items[0]? := Option.some.inj (h 0 (Nat.succ_pos _))
    have hl : (l.filterMap fun x => x.clear.1) = items.tail.take l.length := by
      refine ih fun k hk => ?_
      rw [List.getElem?_tail]
      exact h (k + 1) (Nat.succ_lt_succ hk)
    rw [List.filterMap_cons, hx, clear_holding, hl]
    cases items with
    | nil => exact List.take_nil
    | cons v items => rfl

namespace Storage

/-! ### Places round the ring -/

/-- Places less than once round the ring apart are different slots. -/
theorem add_mod_ne {n i j k : Nat} (hij : i < j) (hj : j < n) : (k + i) % n ≠ (k + j) % n := by
  intro h
  have hm : i % n = j % n := Nat.ModEq.add_left_cancel' k h
  rw [Nat.mod_eq_of_lt (Nat.lt_trans hij hj), Nat.mod_eq_of_lt hj] at hm
  omega

/-- From any place on, every place round the ring is reached. -/
theorem exists_add_mod {n first i : Nat} (hf : first < n) (hi : i < n) :
    ∃ k < n, (first + k) % n = i := by
  rcases Nat.lt_or_ge i first with hlt | hge
  · refine ⟨i + n - first, by omega, ?_⟩
    rw [show first + (i + n - first) = i + n by omega, Nat.add_mod_right, Nat.mod_eq_of_lt hi]
  · refine ⟨i - first, by omega, ?_⟩
    rw [show first + (i - first) = i by omega, Nat.mod_eq_of_lt hi]

/-! ### Windows -/

/-- From the slot `first` on and round the ring, the slots hold the elements `items` and are vacant
after them. -/
structure Window (s : Storage α) (first : Nat) (items : List α) : Prop where
  /-- There are enough slots. -/
  length_le : items.length ≤ s.capacity
  /-- The first slot is one of them. -/
  first_lt : first < s.capacity
  /-- What stands in the slots. -/
  slot : ∀ k < s.capacity, s.slots[(first + k) % s.capacity]? = some (Slot.holding items[k]?)

theorem capacity_put (s : Storage α) (i : Nat) (x : Slot α) : (s.put i x).capacity = s.capacity :=
  Array.size_setIfInBounds

theorem slots_put_self {s : Storage α} {i : Nat} (h : i < s.capacity) (x : Slot α) :
    (s.put i x).slots[i]? = some x :=
  Array.getElem?_setIfInBounds_self_of_lt h

theorem slots_put_of_ne (s : Storage α) {i j : Nat} (h : i ≠ j) (x : Slot α) :
    (s.put i x).slots[j]? = s.slots[j]? :=
  Array.getElem?_setIfInBounds_ne h

/-- A storage of vacant slots has the empty window. -/
theorem window_vacant {n : Nat} (h : 0 < n) : Window (vacant n : Storage α) 0 [] where
  length_le := Nat.zero_le _
  first_lt := by simpa [capacity, vacant] using h
  slot k hk := by
    have hk' : (0 + k) % (vacant n : Storage α).capacity < n := by
      rw [Nat.zero_add, Nat.mod_eq_of_lt hk]
      simpa [capacity, vacant] using hk
    simp only [vacant, Slot.holding, List.getElem?_nil]
    rw [Array.getElem?_eq_getElem (by simpa [capacity, vacant] using hk'), Array.getElem_replicate]

namespace Window

variable {s : Storage α} {first : Nat} {items : List α} {v : α}

/-- The first slot holds the first element. -/
theorem slot_first (h : Window s first (v :: items)) :
    s.slots[first]? = some ⟨.full, some v⟩ := by
  have := h.slot 0 (Nat.zero_lt_of_lt h.first_lt)
  rwa [Nat.add_zero, Nat.mod_eq_of_lt h.first_lt] at this

/-- The slot behind the window is vacant. -/
theorem slot_behind (h : Window s first items) (hl : items.length < s.capacity) :
    s.slots[(first + items.length) % s.capacity]? = some .vacant := by
  rw [h.slot _ hl, List.getElem?_eq_none (Nat.le_refl _), Slot.holding]

/-- The slot behind the window is filled. -/
theorem append (h : Window s first items) (hl : items.length < s.capacity) (v : α) :
    Window (s.put ((first + items.length) % s.capacity) ⟨.full, some v⟩) first (items ++ [v]) where
  length_le := by rw [capacity_put, List.length_append]; exact hl
  first_lt := by rw [capacity_put]; exact h.first_lt
  slot k hk := by
    rw [capacity_put] at hk ⊢
    have hin : (first + items.length) % s.capacity < s.capacity :=
      Nat.mod_lt _ (Nat.zero_lt_of_lt hk)
    rcases Nat.lt_trichotomy k items.length with hlt | heq | hgt
    · rw [slots_put_of_ne _ (add_mod_ne hlt hl).symm, h.slot k hk, List.getElem?_append_left hlt]
    · rw [heq, slots_put_self hin, List.getElem?_concat_length, Slot.holding]
    · rw [slots_put_of_ne _ (add_mod_ne hgt hk), h.slot k hk, List.getElem?_eq_none (by omega),
        List.getElem?_eq_none (by rw [List.length_append]; exact hgt)]

/-- The first slot is vacated. -/
theorem tail (h : Window s first (v :: items)) :
    Window (s.put first .vacant) ((first + 1) % s.capacity) items where
  length_le := by rw [capacity_put]; exact Nat.le_of_succ_le h.length_le
  first_lt := by rw [capacity_put]; exact Nat.mod_lt _ (Nat.zero_lt_of_lt h.first_lt)
  slot k hk := by
    rw [capacity_put] at hk ⊢
    rw [Nat.mod_add_mod, Nat.add_assoc, Nat.add_comm 1 k]
    rcases Nat.lt_or_ge (k + 1) s.capacity with hlt | hge
    · have hne : first ≠ (first + (k + 1)) % s.capacity := by
        have := add_mod_ne (k := first) (Nat.succ_pos k) hlt
        rwa [Nat.add_zero, Nat.mod_eq_of_lt h.first_lt] at this
      rw [slots_put_of_ne _ hne, h.slot _ hlt, List.getElem?_cons_succ]
    · -- the slot that was first comes last now
      have hk1 : k + 1 = s.capacity := by omega
      have hlen : items.length ≤ k := by
        have := h.length_le
        rw [List.length_cons] at this
        omega
      rw [hk1, Nat.add_mod_right, Nat.mod_eq_of_lt h.first_lt, slots_put_self h.first_lt,
        List.getElem?_eq_none hlen, Slot.holding]

/-- **An element is moved in behind the window.** -/
theorem write (h : Window s first items) (hl : items.length < s.capacity) (v : α) :
    ∃ t, s.write ((first + items.length) % s.capacity) v = (.ok (), t) ∧
      t.capacity = s.capacity ∧ Window t first (items ++ [v]) := by
  refine ⟨_, ?_, capacity_put _ _ _, h.append hl v⟩
  rw [Storage.write, onSlot, h.slot_behind hl]
  rfl

/-- **The first element is moved out.** -/
theorem take (h : Window s first (v :: items)) :
    ∃ t, s.take first = (.ok v, t) ∧
      t.capacity = s.capacity ∧ Window t ((first + 1) % s.capacity) items := by
  refine ⟨_, ?_, capacity_put _ _ _, h.tail⟩
  rw [Storage.take, onSlot, h.slot_first]
  rfl

/-- The slots before the first one hold what stands behind the last slot. -/
theorem destroyed_before (h : Window s first items) :
    ((s.slots.toList.take first).filterMap fun x => x.clear.1) =
      items.drop (s.capacity - first) := by
  have hfirst := h.first_lt
  have htake : (s.slots.toList.take first).length = first := by
    rw [List.length_take, Array.length_toList]
    exact Nat.min_eq_left hfirst.le
  have hcleared : ((s.slots.toList.take first).filterMap fun x => x.clear.1) =
      (items.drop (s.capacity - first)).take (s.slots.toList.take first).length := by
    refine Slot.filterMap_clear fun k hk => ?_
    rw [htake] at hk
    have hslot := h.slot (s.capacity - first + k) (by omega)
    rw [show first + (s.capacity - first + k) = k + s.capacity by omega, Nat.add_mod_right,
      Nat.mod_eq_of_lt (hk.trans hfirst)] at hslot
    rw [List.getElem?_take_of_lt hk, Array.getElem?_toList, hslot, List.getElem?_drop]
  rw [hcleared, htake, List.take_of_length_le]
  rw [List.length_drop]
  have := h.length_le
  omega

/-- The slots from the first one on hold what stands before the end of the storage. -/
theorem destroyed_from (h : Window s first items) :
    ((s.slots.toList.drop first).filterMap fun x => x.clear.1) =
      items.take (s.capacity - first) := by
  have hdrop : (s.slots.toList.drop first).length = s.capacity - first := by
    rw [List.length_drop, Array.length_toList]
    rfl
  rw [← hdrop]
  refine Slot.filterMap_clear fun k hk => ?_
  rw [hdrop] at hk
  have hslot := h.slot k (by omega)
  rw [Nat.mod_eq_of_lt (by omega)] at hslot
  rw [List.getElem?_drop, Array.getElem?_toList, hslot]

/-- **The elements are destroyed.** Those that stand behind the last slot come first. -/
theorem destroyed (h : Window s first items) :
    s.clear.1 = items.drop (s.capacity - first) ++ items.take (s.capacity - first) := by
  rw [Storage.clear, ← List.take_append_drop first s.slots.toList, List.filterMap_append,
    h.destroyed_before, h.destroyed_from]

/-- After that every slot is as in a new storage. -/
theorem cleared (h : Window s first items) : s.clear.2 = vacant s.capacity := by
  have hslots : s.slots.map (fun x => x.clear.2) = Array.replicate s.capacity .vacant := by
    refine Array.ext (by rw [Array.size_map, Array.size_replicate]; rfl) fun i hi hi' => ?_
    rw [Array.size_map] at hi
    obtain ⟨k, hk, rfl⟩ := exists_add_mod h.first_lt hi
    have hslot := h.slot k hk
    rw [Array.getElem?_eq_getElem hi] at hslot
    rw [Array.getElem_map, Array.getElem_replicate, Option.some.inj hslot, Slot.clear_holding]
  exact congrArg Storage.mk hslots

end Window

end Storage

end PermitRing
