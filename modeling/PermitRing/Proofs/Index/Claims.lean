import PermitRing.Index.Basic

/-!
# The steps of a claim

What one atomic step of a claim does to an index, told by a relation with one rule for each way in
which a step can end. Whoever argues about several claims at once goes by its cases and does not
open the step itself.

## Main definitions

* `Index.Claims` — what a step of a claim does;
* `Index.Claiming.Below` — the position that the thread has read is the place of a slot.

## Main results

* `Index.claims_of_step` — every step of a claim is one of these;
* `Index.Claims.below`, `Claims.ticket` — positions stay below the number of slots, and are handed
  out where the index stands.
-/

namespace PermitRing.Index

/-! ### What a step does -/

/-- The position that the thread has read is the place of a slot. -/
def Claiming.Below (n : Nat) : Claiming → Prop
  | .store old | .leave old | .swap old => old < n
  | .start | .read => True

/-- What a step of a claim does, in a ring of `n` slots. -/
inductive Claims (n : Nat) :
    Claiming → Index → Progress Claiming (Except Fault Nat) → Index → Prop
  /-- Another thread is inside. -/
  | busy {x : Index} (hk : x.kind = .single) (hb : x.busy = true) :
    Claims n .start x (.done (.error .indexBusy)) x
  /-- The flag is set. -/
  | enter {x : Index} (hk : x.kind = .single) (hb : x.busy = false) :
    Claims n .start x (.more .read) { x with busy := true }
  /-- The position of a shared index is read. -/
  | load {x : Index} (hk : x.kind = .shared) : Claims n .start x (.more (.swap x.position)) x
  /-- The position of a single-writer index is read. -/
  | read {x : Index} : Claims n .read x (.more (.store x.position)) x
  /-- The single-writer index moves on. -/
  | store {x : Index} {old : Nat} :
    Claims n (.store old) x (.more (.leave old)) { x with position := (old + 1) % n }
  /-- The flag is cleared. -/
  | leave {x : Index} {old : Nat} :
    Claims n (.leave old) x (.done (.ok old)) { x with busy := false }
  /-- The shared index moves on. -/
  | swap {x : Index} {old : Nat} (ho : x.position = old) :
    Claims n (.swap old) x (.done (.ok old)) { x with position := (old + 1) % n }
  /-- Another thread came between, or the swap fails without cause. -/
  | retry {x : Index} {old : Nat} : Claims n (.swap old) x (.more (.swap x.position)) x

/-- **Every step of a claim is one of these.** -/
theorem claims_of_step {n : Nat} (hn : n < Word.size) {c : Claiming} (hc : c.Below n) {b : Bool}
    {x x' : Index} {r : Progress Claiming (Except Fault Nat)} (h : c.step n b x = (r, x')) :
    Claims n c x r x' := by
  cases c with
  | start =>
    obtain ⟨kind, position, busy⟩ := x
    cases kind with
    | single =>
      cases busy with
      | true =>
        cases h
        exact .busy rfl rfl
      | false =>
        cases h
        exact .enter rfl rfl
    | shared =>
      cases h
      exact .load rfl
  | read =>
    cases h
    exact .read
  | store old =>
    simp only [Claiming.step, next_eq hc hn] at h
    cases h
    exact .store
  | leave old =>
    cases h
    exact .leave
  | swap old =>
    simp only [Claiming.step, next_eq hc hn] at h
    split at h
    · rename_i ho
      cases h
      exact .swap ho.1
    · cases h
      exact .retry

/-- A step of a claim keeps positions below the number of slots. -/
theorem Claims.below {n : Nat} {c : Claiming} {x x' : Index}
    {r : Progress Claiming (Except Fault Nat)} (h : Claims n c x r x') (hc : c.Below n)
    (hx : x.position < n) :
    x'.position < n ∧ (∀ c', r = .more c' → c'.Below n) ∧ ∀ i, r = .done (.ok i) → i < n := by
  have hmod : ∀ i, i % n < n := fun i => Nat.mod_lt i (Nat.zero_lt_of_lt hx)
  cases h with
  | busy hk hb => exact ⟨hx, nofun, nofun⟩
  | enter hk hb => exact ⟨hx, fun _ he => by cases he; trivial, nofun⟩
  | load hk => exact ⟨hx, fun _ he => by cases he; exact hx, nofun⟩
  | read => exact ⟨hx, fun _ he => by cases he; exact hx, nofun⟩
  | store => exact ⟨hmod _, fun _ he => by cases he; exact hc, nofun⟩
  | leave => exact ⟨hx, nofun, fun _ he => by cases he; exact hc⟩
  | swap ho => exact ⟨hmod _, nofun, fun _ he => by cases he; exact hc⟩
  | retry => exact ⟨hx, fun _ he => by cases he; exact hx, nofun⟩

/-! ### What a claim shows -/

/-- The position that a step of a claim makes the index hand out. -/
def Claiming.ticket? : Claiming → Progress Claiming (Except Fault Nat) → Option Nat
  | .store old, .more _ => some old
  | .swap old, .done (.ok _) => some old
  | _, _ => none

/-- Where a claim stands after a step. -/
def claimingAfter : Progress Claiming (Except Fault Nat) → Option Claiming
  | .more c => some c
  | .done _ => none

/-- One if the claim is under way on a single-writer index. -/
def insideOf : Option Claiming → Nat
  | some .read | some (.store _) | some (.leave _) => 1
  | _ => 0

namespace Claims

variable {n : Nat} {c : Claiming} {x x' : Index} {r : Progress Claiming (Except Fault Nat)}

theorem kind_eq (h : Claims n c x r x') : x'.kind = x.kind := by
  cases h <;> rfl

/-- The flag follows the claim. -/
theorem flag (h : Claims n c x r x') (hx : insideOf (some c) = 1 → x.busy = true) :
    (if x'.busy then 1 else 0) + insideOf (some c) =
      (if x.busy then 1 else 0) + insideOf (claimingAfter r) := by
  cases h with
  | enter hk hb => rw [hb]; rfl
  | leave => rw [hx rfl]; rfl
  | busy | load | read | store | swap | retry => rfl

/-- Only a single-writer index sets its flag. -/
theorem single (h : Claims n c x r x') (hx : x.busy = true → x.kind = .single)
    (hb : x'.busy = true) : x'.kind = .single := by
  cases h with
  | enter hk => exact hk
  | leave => cases hb
  | busy | load | read | store | swap | retry => exact hx hb

/-- Only a shared index is swapped. -/
theorem shared (h : Claims n c x r x') (hc : ∀ old, c = .swap old → x.kind = .shared) {old : Nat}
    (hr : claimingAfter r = some (.swap old)) : x'.kind = .shared := by
  cases h with
  | load hk => exact hk
  | retry => exact hc _ rfl
  | busy | enter | read | store | leave | swap => cases hr

/-- The position that was read is the one at which the index stands. -/
theorem position_read (h : Claims n c x r x') {old : Nat}
    (hr : claimingAfter r = some (.store old)) : x'.position = old := by
  cases h with
  | read => exact Claiming.store.inj (Option.some.inj hr)
  | busy | enter | load | store | leave | swap | retry => cases hr

/-- An index moves on by a step inside a claim, or by a swap. -/
theorem position_eq (h : Claims n c x r x') (hin : insideOf (some c) = 0)
    (hswap : ∀ old, c ≠ .swap old) : x'.position = x.position := by
  cases h with
  | store => cases hin
  | swap => exact absurd rfl (hswap _)
  | busy | enter | load | read | leave | retry => rfl

/-- An index hands out the position at which it stands when it moves on, and not otherwise. -/
theorem ticket (h : Claims n c x r x') (hc : ∀ old, c = .store old → x.position = old) :
    c.ticket? r = none ∧ x'.position = x.position ∨
      c.ticket? r = some x.position ∧ x'.position = (x.position + 1) % n := by
  cases h with
  | store => exact .inr (by rw [hc _ rfl]; exact ⟨rfl, rfl⟩)
  | swap ho => exact .inr (by rw [ho]; exact ⟨rfl, rfl⟩)
  | busy | enter | load | read | leave | retry => exact .inl ⟨rfl, rfl⟩

end Claims

end PermitRing.Index
