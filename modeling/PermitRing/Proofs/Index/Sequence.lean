import PermitRing.Index.Basic

/-!
# Claims one after the other

One thread claims positions of one index, each claim in a ring of whatever size. While no size is
zero, an index of either kind does the same: it hands out the position at which it stands and moves
on by one, modulo the size that this claim names. The sum cannot overflow, because the position is
below the size of the claim before, and a size is a word.

A ring of no slots makes a claim fail, and here the kinds part. A shared index is left as it was. A
single-writer index is left with its flag set, and from then on every claim fails for that reason
and none moves it.

## Main definitions

* `Index.trail` — what shows of a sequence of claims: each outcome, with the position after it;
* `Index.after` — the index after a sequence of claims;
* `Index.place` — where sizes that are not zero lead, by counting alone.

## Main results

* `Index.position_claim_succ_lt`, `trail_in_word` — the next position is a word;
* `Index.Idle.sequence`, `Idle.trail_zero_single` — a whole sequence, without a size of zero and from
  one on;
* `Index.alike_in_sequence` — the two kinds side by side.
-/

namespace PermitRing.Index

variable {x : Index} {c : Nat} {cs ds : List Nat}

/-- An index of which nothing has been claimed. -/
def fresh (kind : Kind) : Index :=
  { kind }

/-- The index after claims one after the other. -/
def after (cs : List Nat) (x : Index) : Index :=
  cs.foldl (fun x c => (x.claim c).2) x

/-- What shows of claims one after the other: the outcome of each, and where the index stands
then. -/
def trail : List Nat → Index → List (Except Fault Nat × Nat)
  | [], _ => []
  | c :: cs, x => ((x.claim c).1, (x.claim c).2.position) :: trail cs (x.claim c).2

/-- Where claims lead from a position if none fails. -/
def placeFrom (p : Nat) (cs : List Nat) : Nat :=
  cs.foldl (fun p c => (p + 1) % c) p

/-- Where claims lead from the first position if none fails. -/
def place (cs : List Nat) : Nat :=
  placeFrom 0 cs

theorem trail_append (cs ds : List Nat) (x : Index) :
    trail (cs ++ ds) x = trail cs x ++ trail ds (after cs x) := by
  induction cs generalizing x with
  | nil => rfl
  | cons c cs ih => rw [List.cons_append, trail, ih, trail, List.cons_append]; rfl

/-! ### One claim -/

theorem next_of_pos {old : Nat} (hold : old + 1 < Word.size) (hc : 0 < c) :
    next old c = .ok ((old + 1) % c) := by
  rw [next, if_neg (Nat.not_le.mpr hold), if_neg (Nat.ne_of_gt hc)]

theorem next_zero {old : Nat} (hold : old + 1 < Word.size) :
    next old 0 = .error .remainderByZero := by
  rw [next, if_neg (Nat.not_le.mpr hold), if_pos rfl]

/-- No claim is under way, and the sum that the next one forms is a word. -/
structure Idle (x : Index) : Prop where
  busy : x.busy = false
  succ_lt : x.position + 1 < Word.size

theorem idle_fresh (kind : Kind) : (fresh kind).Idle :=
  ⟨rfl, show 0 + 1 < Word.size by decide⟩

/-- **A claim in a ring** comes to the same whatever the kind of the index. -/
theorem Idle.claim_of_pos (h : x.Idle) (hc : 0 < c) :
    x.claim c = (.ok x.position, { x with position := (x.position + 1) % c }) := by
  rw [claim, next_of_pos h.succ_lt hc, h.busy]
  cases x.kind <;> rfl

/-- **A claim in a ring of no slots** fails; a shared index is as it was. -/
theorem Idle.claim_zero_shared (h : x.Idle) (hk : x.kind = .shared) :
    x.claim 0 = (.error .remainderByZero, x) := by
  simp only [claim, hk, next_zero h.succ_lt]

/-- **A claim in a ring of no slots** fails; a single-writer index keeps its flag. -/
theorem Idle.claim_zero_single (h : x.Idle) (hk : x.kind = .single) :
    x.claim 0 = (.error .remainderByZero, { x with busy := true }) := by
  simp [claim, hk, h.busy, next_zero h.succ_lt]

theorem claim_of_busy (hk : x.kind = .single) (hb : x.busy = true) (c : Nat) :
    x.claim c = (.error .indexBusy, x) := by
  simp [claim, hk, hb]

/-- **The next position is a word**: a claim either leaves the index where it stands, or takes it
below a size, which is a word itself. -/
theorem position_claim_succ_lt (hx : x.position + 1 < Word.size) (hc : c < Word.size) :
    (x.claim c).2.position + 1 < Word.size ∧ (x.claim c).1 ≠ .error .sumOverflow := by
  have hnext : next x.position c =
      if c = 0 then .error .remainderByZero else .ok ((x.position + 1) % c) := by
    rw [next, if_neg (Nat.not_le.mpr hx)]
  have hmod : ¬c = 0 → (x.position + 1) % c + 1 < Word.size := by
    intro h0
    have := Nat.mod_lt (x.position + 1) (Nat.pos_of_ne_zero h0)
    omega
  rw [claim, hnext]
  split
  · split
    · exact ⟨hx, by simp⟩
    · by_cases h0 : c = 0 <;> simp [h0, hx, hmod]
  · by_cases h0 : c = 0 <;> simp [h0, hx, hmod]

/-! ### Sequences of claims -/

/-- The sum that a claim forms never overflows, whatever the sizes of the claims before. -/
theorem trail_in_word (hx : x.position + 1 < Word.size) (hcs : ∀ c ∈ cs, c < Word.size) :
    ∀ e ∈ trail cs x, e.1 ≠ .error .sumOverflow ∧ e.2 + 1 < Word.size := by
  induction cs generalizing x with
  | nil => simp [trail]
  | cons c cs ih =>
    obtain ⟨hpos, hout⟩ := position_claim_succ_lt hx (hcs c List.mem_cons_self)
    intro e he
    rcases List.mem_cons.mp he with rfl | he
    · exact ⟨hout, hpos⟩
    · exact ih hpos (fun d hd => hcs d (List.mem_cons_of_mem c hd)) e he

theorem position_after_succ_lt (hx : x.position + 1 < Word.size) (hcs : ∀ c ∈ cs, c < Word.size) :
    (after cs x).position + 1 < Word.size := by
  induction cs generalizing x with
  | nil => exact hx
  | cons c cs ih =>
    exact ih (position_claim_succ_lt hx (hcs c List.mem_cons_self)).1
      fun d hd => hcs d (List.mem_cons_of_mem c hd)

/-- A shared index is idle between two claims, whether or not one of them has failed. -/
theorem Idle.after_shared (h : x.Idle) (hk : x.kind = .shared) (hcs : ∀ c ∈ cs, c < Word.size) :
    (after cs x).Idle ∧ (after cs x).kind = .shared := by
  induction cs generalizing x with
  | nil => exact ⟨h, hk⟩
  | cons c cs ih =>
    have hlt := (position_claim_succ_lt h.succ_lt (hcs c List.mem_cons_self)).1
    have hrest : ∀ d ∈ cs, d < Word.size := fun d hd => hcs d (List.mem_cons_of_mem c hd)
    rcases Nat.eq_zero_or_pos c with rfl | hc
    · rw [after, List.foldl_cons, h.claim_zero_shared hk]
      exact ih h hk hrest
    · rw [h.claim_of_pos hc] at hlt
      rw [after, List.foldl_cons, h.claim_of_pos hc]
      exact ih ⟨h.busy, hlt⟩ hk hrest

/-- What shows of claims from a position on if none fails. -/
def trailFrom (p : Nat) (cs : List Nat) : List (Except Fault Nat × Nat) :=
  (List.range cs.length).map fun k =>
    (.ok (placeFrom p (cs.take k)), placeFrom p (cs.take (k + 1)))

theorem trailFrom_cons (p c : Nat) (cs : List Nat) :
    trailFrom p (c :: cs) = (.ok p, (p + 1) % c) :: trailFrom ((p + 1) % c) cs := by
  rw [trailFrom, List.length_cons, List.range_succ_eq_map, List.map_cons, List.map_map]
  rfl

/-- **Sizes other than zero.** The index goes from place to place and is idle in between. The
induction is on the sizes, for every position at which the index may stand. -/
theorem Idle.sequence (h : x.Idle) (hcs : ∀ c ∈ cs, c < Word.size) (h0 : 0 ∉ cs) :
    trail cs x = trailFrom x.position cs ∧
      after cs x = { x with position := placeFrom x.position cs } := by
  induction cs generalizing x with
  | nil => exact ⟨rfl, rfl⟩
  | cons c cs ih =>
    have hc : 0 < c := Nat.pos_of_ne_zero fun hc => h0 (hc ▸ List.mem_cons_self)
    have hlt := (position_claim_succ_lt h.succ_lt (hcs c List.mem_cons_self)).1
    rw [h.claim_of_pos hc] at hlt
    have hidle : ({ x with position := (x.position + 1) % c } : Index).Idle := ⟨h.busy, hlt⟩
    obtain ⟨htrail, hafter⟩ := ih hidle (fun d hd => hcs d (List.mem_cons_of_mem c hd))
      fun hmem => h0 (List.mem_cons_of_mem c hmem)
    rw [trail, after, List.foldl_cons, h.claim_of_pos hc, trailFrom_cons, htrail]
    exact ⟨rfl, hafter⟩

/-- **After the flag has stayed set** every claim fails, and none moves the index. -/
theorem trail_of_busy (hk : x.kind = .single) (hb : x.busy = true) (cs : List Nat) :
    trail cs x = cs.map fun _ => (.error .indexBusy, x.position) := by
  induction cs with
  | nil => rfl
  | cons c cs ih => rw [trail, claim_of_busy hk hb, ih, List.map_cons]

/-- **A ring of no slots** stops a single-writer index where it stands. -/
theorem Idle.trail_zero_single (h : x.Idle) (hk : x.kind = .single) (ds : List Nat) :
    trail (0 :: ds) x = (.error .remainderByZero, x.position) ::
      ds.map fun _ => (.error .indexBusy, x.position) := by
  have hstuck : trail ds { x with busy := true } = ds.map fun _ => (.error .indexBusy, x.position) :=
    trail_of_busy (x := { x with busy := true }) hk rfl ds
  rw [trail, h.claim_zero_single hk]
  exact congrArg _ hstuck

/-- Claims in rings of one size go round. -/
theorem place_of_forall_eq {n : Nat} (h : ∀ c ∈ cs, c = n) (k : Nat) (hk : k ≤ cs.length) :
    place (cs.take k) = k % n := by
  induction k with
  | zero => exact (Nat.zero_mod n).symm
  | succ k ih =>
    have hlt : k < cs.length := hk
    rw [List.take_succ_eq_append_getElem hlt, place, placeFrom, List.foldl_append, List.foldl_cons,
      List.foldl_nil, h _ (List.getElem_mem hlt)]
    change (place (cs.take k) + 1) % n = _
    rw [ih (Nat.le_of_lt hlt), Nat.mod_add_mod]

/-! ### The two kinds -/

/-- **The kinds of index are alike in sequence** until a claim fails. One thread makes claims one
after the other, each in a ring of any size that is a word.

* No claim forms a sum that is not a word.
* While no size is zero, an index of either kind hands out the place at which it stands, and a claim
  in a ring of `c` slots takes it from `p` to `(p + 1) % c`. If all sizes are `n`, the `k`-th claim,
  counted from zero, hands out `k % n`.
* A claim in a ring of no slots fails and moves neither kind. A shared index is left as it was, so
  what follows is what would have followed without that claim. A single-writer index is left with
  its flag set, so every later claim fails for that reason, where it stands. -/
theorem alike_in_sequence (hcs : ∀ c ∈ cs, c < Word.size) :
    (∀ kind, ∀ e ∈ trail cs (fresh kind), e.1 ≠ .error .sumOverflow ∧ e.2 + 1 < Word.size) ∧
      (0 ∉ cs →
        (∀ kind, trail cs (fresh kind) = (List.range cs.length).map fun k =>
          (.ok (place (cs.take k)), place (cs.take (k + 1)))) ∧
        (∀ k c, cs[k]? = some c → place (cs.take (k + 1)) = (place (cs.take k) + 1) % c) ∧
        ∀ n, (∀ c ∈ cs, c = n) → ∀ k ≤ cs.length, place (cs.take k) = k % n) ∧
      (∀ ds,
        (after cs (fresh .shared)).claim 0 = (.error .remainderByZero, after cs (fresh .shared)) ∧
        trail (cs ++ ds) (fresh .shared) =
          trail cs (fresh .shared) ++ trail ds (after cs (fresh .shared)) ∧
        trail (cs ++ 0 :: ds) (fresh .shared) =
          trail cs (fresh .shared) ++ (.error .remainderByZero, (after cs (fresh .shared)).position) ::
            trail ds (after cs (fresh .shared))) ∧
      (0 ∉ cs → ∀ ds,
        trail (cs ++ 0 :: ds) (fresh .single) =
          trail cs (fresh .single) ++ (.error .remainderByZero, place cs) ::
            ds.map fun _ => (.error .indexBusy, place cs)) := by
  refine ⟨fun kind => trail_in_word (idle_fresh kind).succ_lt hcs, fun h0 => ⟨fun kind => ?_,
    fun k c hc => ?_, fun n hn => place_of_forall_eq hn⟩, fun ds => ?_, fun h0 ds => ?_⟩
  · exact ((idle_fresh kind).sequence hcs h0).1
  · rw [List.take_add_one, hc, place, placeFrom, List.foldl_append]
    rfl
  · obtain ⟨hidle, hkind⟩ := (idle_fresh .shared).after_shared rfl hcs
    have hzero := hidle.claim_zero_shared hkind
    refine ⟨hzero, trail_append cs ds _, ?_⟩
    rw [trail_append, trail, hzero]
  · obtain ⟨-, hafter⟩ := (idle_fresh .single).sequence hcs h0
    have hidle : (after cs (fresh .single)).Idle :=
      ⟨by rw [hafter]; rfl, position_after_succ_lt (idle_fresh .single).succ_lt hcs⟩
    have hkind : (after cs (fresh .single)).kind = .single := by rw [hafter]; rfl
    have hplace : (after cs (fresh .single)).position = place cs := by rw [hafter]; rfl
    rw [trail_append, hidle.trail_zero_single hkind, hplace]

/-- Rings of several sizes, and then a ring of no slots between two others. -/
theorem alike_in_sequence_halted :
    (∀ c ∈ [3, 5, 2], c < Word.size) ∧ 0 ∉ [3, 5, 2] ∧
      trail [3, 5, 2] (fresh .single) = [(.ok 0, 1), (.ok 1, 2), (.ok 2, 1)] ∧
      trail [3, 5, 2, 0, 4, 4] (fresh .shared) =
        [(.ok 0, 1), (.ok 1, 2), (.ok 2, 1), (.error .remainderByZero, 1), (.ok 1, 2), (.ok 2, 3)] ∧
      trail [3, 5, 2, 0, 4, 4] (fresh .single) =
        [(.ok 0, 1), (.ok 1, 2), (.ok 2, 1), (.error .remainderByZero, 1), (.error .indexBusy, 1),
          (.error .indexBusy, 1)] := by
  have hsizes : ∀ c ∈ [3, 5, 2], c < Word.size := by decide
  have hpos : 0 ∉ [3, 5, 2] := by decide
  obtain ⟨-, hplaces, hshared, hsingle⟩ := alike_in_sequence hsizes
  have hplain := (hplaces hpos).1
  refine ⟨hsizes, hpos, hplain .single, ?_, ?_⟩
  · refine (hshared [4, 4]).2.2.trans ?_
    rw [hplain .shared]
    rfl
  · refine (hsingle hpos [4, 4]).trans ?_
    rw [hplain .single]
    rfl

end PermitRing.Index
