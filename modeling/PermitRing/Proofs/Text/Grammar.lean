import Mathlib.Data.List.DropRight
import Mathlib.Data.List.Forall2
import Mathlib.Data.List.Nodup
import Mathlib.Data.Nat.Digits.Defs
import PermitRing.Text.Blank
import PermitRing.Text.Letters
import PermitRing.Text.Numeral

/-!
# The grammars of the texts that are read

Each reader of the library has a grammar beside it, which says of a text what the reader makes of
it without saying how. A text without the blanks at its ends is one whose ends are not blank and
around which there is nothing but blanks; a numeral is a row of digits whose value, as Mathlib has
it, is the number; and a name is spelled letter by letter, each small or capital.

The readers of numerals count from the first digit on and keep what the digits so far make up, while
the value of a row of digits is defined from the last digit on. So what is proved of a reader by
induction is a statement about the digits that are left, for any number made up before.

## Main definitions

* `Text.Trims` — a text and what is left of it between its blanks;
* `Text.Numeral` — a number and its numerals;
* `Text.Variant` — a word without capitals and its spellings.

## Main results

* `trimBlank_eq_iff` — what is cut away are the blanks at both ends, and all of them;
* `digits?_dropPlus_eq_some_iff`, `unsigned?_eq_some_iff` — a numeral is read if it fits the word;
* `spells_iff_variant`, `findSpelled?_eq_some_iff` — a name is found by any of its spellings.
-/

namespace PermitRing.Text

/-! ### Blanks around a text -/

/-- `t` is what is left of `s` without the blanks at its ends. -/
structure Trims (s t : List Char) : Prop where
  /-- There is nothing but blanks around it. -/
  around : ∃ a b, s = a ++ t ++ b ∧ (∀ c ∈ a, isBlank c = true) ∧ ∀ c ∈ b, isBlank c = true
  /-- It does not begin with a blank. -/
  first : ∀ c ∈ t.head?, isBlank c = false
  /-- It does not end with a blank. -/
  last : ∀ c ∈ t.getLast?, isBlank c = false

theorem dropWhile_eq_self {p : Char → Bool} {s : List Char} (h : ∀ c ∈ s.head?, p c = false) :
    s.dropWhile p = s := by
  cases s with
  | nil => rfl
  | cons c s => exact List.dropWhile_cons_of_neg (by simp [h c rfl])

theorem trimBlank_eq_rdropWhile (s : List Char) :
    trimBlank s = (s.dropWhile isBlank).rdropWhile isBlank :=
  rfl

/-- Neither end of what is left is blank. -/
theorem trims_trimBlank (s : List Char) : Trims s (trimBlank s) := by
  refine ⟨exists_eq_append_trimBlank s, fun c hc => ?_, fun c hc => ?_⟩
  · -- what is cut off at the end leaves the first character, if any, where it is
    obtain ⟨rest, hrest⟩ := List.head?_eq_some_iff.mp hc
    obtain ⟨b, hb⟩ := List.rdropWhile_prefix isBlank (s.dropWhile isBlank)
    rw [← trimBlank_eq_rdropWhile, hrest] at hb
    have hhead : (s.dropWhile isBlank).head? = some c := by rw [← hb]; rfl
    have hnot := List.head?_dropWhile_not isBlank s
    rw [hhead] at hnot
    simpa using hnot
  · obtain ⟨hne, hlast⟩ := List.mem_getLast?_eq_getLast hc
    have hnot := List.rdropWhile_last_not isBlank (s.dropWhile isBlank) hne
    rw [hlast]
    exact Bool.eq_false_of_not_eq_true hnot

/-- **Cutting a text free of blanks** leaves what stands between them, whatever blanks those are. -/
theorem trimBlank_eq_iff {s t : List Char} : trimBlank s = t ↔ Trims s t := by
  constructor
  · rintro rfl
    exact trims_trimBlank s
  · rintro ⟨⟨a, b, rfl, ha, hb⟩, hfirst, hlast⟩
    have hrest : (t ++ b).dropWhile isBlank = t ++ if t = [] then [] else b := by
      by_cases ht : t = []
      · subst ht
        simpa [List.dropWhile_eq_nil_iff] using hb
      · obtain ⟨c, rest, rfl⟩ := List.exists_cons_of_ne_nil ht
        simpa using dropWhile_eq_self (s := c :: rest ++ b) hfirst
    have hback : t.reverse.dropWhile isBlank = t.reverse := by
      refine dropWhile_eq_self fun c hc => hlast c ?_
      rwa [List.head?_reverse] at hc
    rw [trimBlank, List.append_assoc, List.dropWhile_append_of_pos ha, hrest]
    split
    · rw [List.append_nil, hback, List.reverse_reverse]
    · have hblank : ∀ c ∈ b.reverse, isBlank c = true := fun c hc => hb c (List.mem_reverse.mp hc)
      rw [List.reverse_append, List.dropWhile_append_of_pos hblank, hback, List.reverse_reverse]

/-! ### Numerals -/

/-- The number that a row of ASCII digits denotes. -/
def decimal (ds : List Char) : Nat :=
  Nat.ofDigits 10 (ds.reverse.map fun c => c.toNat - '0'.toNat)

/-- `s` is a numeral for `n`: one ASCII digit or more, with leading zeros or without, and a plus sign
in front or not. -/
def Numeral (n : Nat) (s : List Char) : Prop :=
  ∃ ds : List Char, ds ≠ [] ∧ (∀ c ∈ ds, c.isDigit = true) ∧ decimal ds = n ∧
    (s = ds ∨ s = '+' :: ds)

theorem decimal_cons (c : Char) (ds : List Char) :
    decimal (c :: ds) = (c.toNat - '0'.toNat) * 10 ^ ds.length + decimal ds := by
  rw [decimal, List.reverse_cons, List.map_append, Nat.ofDigits_append, List.length_map,
    List.length_reverse, List.map_singleton, Nat.ofDigits_singleton, Nat.mul_comm, Nat.add_comm,
    decimal]

theorem digit?_eq_some_iff {c : Char} {d : Nat} :
    digit? c = some d ↔ c.isDigit = true ∧ c.toNat - '0'.toNat = d := by
  have hiff : ('0' ≤ c ∧ c ≤ '9') ↔ c.isDigit = true := by
    simp only [Char.isDigit, Bool.and_eq_true, decide_eq_true_eq]
    exact Iff.rfl
  rw [digit?, ← hiff]
  split <;> simp_all

/-- **Digits are read** after any number that was made up before them. -/
theorem digitsFrom?_eq_some_iff (n m : Nat) (ds : List Char) :
    digitsFrom? n ds = some m ↔
      (∀ c ∈ ds, c.isDigit = true) ∧ n * 10 ^ ds.length + decimal ds = m := by
  induction ds generalizing n with
  | nil => simp [digitsFrom?, decimal]
  | cons c ds ih =>
    simp only [digitsFrom?, Option.bind_eq_some_iff, digit?_eq_some_iff, ih, decimal_cons,
      List.forall_mem_cons, List.length_cons, pow_succ']
    constructor
    · rintro ⟨d, ⟨hc, rfl⟩, hds, rfl⟩
      exact ⟨⟨hc, hds⟩, by ring⟩
    · rintro ⟨⟨hc, hds⟩, rfl⟩
      exact ⟨_, ⟨hc, rfl⟩, hds, by ring⟩

theorem digits?_eq_some_iff {ds : List Char} {n : Nat} :
    digits? ds = some n ↔ ds ≠ [] ∧ (∀ c ∈ ds, c.isDigit = true) ∧ decimal ds = n := by
  cases ds with
  | nil => simp [digits?]
  | cons c ds => simp [digits?, digitsFrom?_eq_some_iff]

/-- A numeral without the sign that may stand in front of it is a row of digits. -/
theorem digits?_dropPlus_eq_some_iff {s : List Char} {n : Nat} :
    digits? (dropPlus s) = some n ↔ Numeral n s := by
  constructor
  · intro h
    obtain ⟨hne, hdigits, hvalue⟩ := digits?_eq_some_iff.mp h
    refine ⟨dropPlus s, hne, hdigits, hvalue, ?_⟩
    unfold dropPlus
    split <;> simp
  · rintro ⟨ds, hne, hdigits, hvalue, rfl | rfl⟩
    · have hplain : dropPlus s = s := by
        unfold dropPlus
        split
        · exact absurd (hdigits '+' List.mem_cons_self) (by decide)
        · rfl
      rw [hplain]
      exact digits?_eq_some_iff.mpr ⟨hne, hdigits, hvalue⟩
    · exact digits?_eq_some_iff.mpr ⟨hne, hdigits, hvalue⟩

theorem Numeral.unique {n m : Nat} {s : List Char} (hn : Numeral n s) (hm : Numeral m s) :
    n = m := by
  rw [← digits?_dropPlus_eq_some_iff] at hn hm
  exact Option.some.inj (hn.symm.trans hm)

/-- **A numeral is read** if its number fits the word, and nothing else is. -/
theorem unsigned?_eq_some_iff {bits n : Nat} {s : List Char} :
    unsigned? bits s = some n ↔ Numeral n s ∧ n < 2 ^ bits := by
  rw [unsigned?, Option.filter_eq_some_iff, digits?_dropPlus_eq_some_iff, Nat.one_shiftLeft,
    decide_eq_true_eq]

/-- A numeral consists of digits, but for the sign in front. -/
theorem Numeral.mem {n : Nat} {s : List Char} (h : Numeral n s) :
    (∃ c ∈ s, c.isDigit = true) ∧ ∀ c ∈ s, c.isDigit = true ∨ c = '+' := by
  obtain ⟨ds, hne, hdigits, -, rfl | rfl⟩ := h
  · obtain ⟨c, hc⟩ := List.exists_mem_of_ne_nil _ hne
    exact ⟨⟨c, hc, hdigits c hc⟩, fun c hc => .inl (hdigits c hc)⟩
  · obtain ⟨c, hc⟩ := List.exists_mem_of_ne_nil _ hne
    refine ⟨⟨c, List.mem_cons_of_mem _ hc, hdigits c hc⟩, fun c hc => ?_⟩
    rcases List.mem_cons.mp hc with rfl | hc
    · exact .inr rfl
    · exact .inl (hdigits c hc)

/-! ### Names -/

/-- `s` is the word `w`, any of whose small ASCII letters may have become a capital. -/
def Variant (w s : List Char) : Prop :=
  List.Forall₂ (fun a c => c = a ∨ c = a.toUpper) w s

theorem isLower_iff {a : Char} : a.isLower = true ↔ 97 ≤ a.toNat ∧ a.toNat ≤ 122 :=
  Bool.and_eq_true_iff.trans (and_congr decide_eq_true_iff decide_eq_true_iff)

theorem isUpper_iff {a : Char} : a.isUpper = true ↔ 65 ≤ a.toNat ∧ a.toNat ≤ 90 :=
  decide_eq_true_iff

theorem isDigit_iff {a : Char} : a.isDigit = true ↔ 48 ≤ a.toNat ∧ a.toNat ≤ 57 :=
  Bool.and_eq_true_iff.trans (and_congr decide_eq_true_iff decide_eq_true_iff)

theorem isAlpha_iff {a : Char} :
    a.isAlpha = true ↔ 65 ≤ a.toNat ∧ a.toNat ≤ 90 ∨ 97 ≤ a.toNat ∧ a.toNat ≤ 122 :=
  Bool.or_eq_true_iff.trans (or_congr isUpper_iff isLower_iff)

theorem toNat_toUpper (a : Char) :
    a.toUpper.toNat = if a.isLower = true then a.toNat - 32 else a.toNat := by
  by_cases h : 'a'.val ≤ a.val ∧ a.val ≤ 'z'.val
  · have he : a.toUpper = ⟨a.val + ('A'.val - 'a'.val), _⟩ := dif_pos h
    have hlow : 97 ≤ a.val.toNat ∧ a.val.toNat ≤ 122 := h
    have hsmall : 'a'.val.toNat = 97 := rfl
    have hlarge : 'A'.val.toNat = 65 := rfl
    rw [he, if_pos (isLower_iff.mpr h)]
    simp only [Char.toNat, UInt32.toNat_add, UInt32.toNat_sub, hsmall, hlarge]
    omega
  · have he : a.toUpper = a := dif_neg h
    rw [he, if_neg (mt isLower_iff.mp h)]

theorem toNat_toLower (c : Char) :
    c.toLower.toNat = if c.isUpper = true then c.toNat + 32 else c.toNat := by
  by_cases h : c.val ≥ 'A'.val ∧ c.val ≤ 'Z'.val
  · have he : c.toLower = ⟨c.val + ('a'.val - 'A'.val), _⟩ := dif_pos h
    have hup : 65 ≤ c.val.toNat ∧ c.val.toNat ≤ 90 := h
    have hsmall : 'a'.val.toNat = 97 := rfl
    have hlarge : 'A'.val.toNat = 65 := rfl
    rw [he, if_pos (isUpper_iff.mpr h)]
    simp only [Char.toNat, UInt32.toNat_add, UInt32.toNat_sub, hsmall, hlarge]
    omega
  · have he : c.toLower = c := dif_neg h
    rw [he, if_neg (mt isUpper_iff.mp h)]

/-- What becomes a given character that is no capital is that character, or its capital. -/
theorem toLower_eq_iff {a c : Char} (ha : a.isUpper = false) :
    c.toLower = a ↔ c = a ∨ c = a.toUpper := by
  have hno := mt isUpper_iff.mpr (Bool.eq_false_iff.mp ha)
  simp only [← Char.toNat_inj, toNat_toLower, toNat_toUpper, isUpper_iff, isLower_iff]
  split <;> split <;> omega

/-- **A word without capitals** is spelled letter by letter. -/
theorem spells_iff_variant {w s : List Char} (hw : ∀ a ∈ w, a.isUpper = false) :
    Spells w s ↔ Variant w s := by
  induction w generalizing s with
  | nil => simp [Spells, foldCase, Variant]
  | cons a w ih =>
    obtain ⟨ha, hw⟩ := List.forall_mem_cons.mp hw
    have hself : a.toLower = a := (toLower_eq_iff ha).mpr (.inl rfl)
    cases s with
    | nil => simp [Spells, foldCase, Variant]
    | cons c s =>
      rw [Variant, List.forall₂_cons, ← Variant, ← ih hw, ← toLower_eq_iff ha]
      simp [Spells, foldCase, hself]

/-- The spellings of a word in small letters consist of ASCII letters. -/
theorem Variant.mem {w s : List Char} (h : Variant w s) (hw : ∀ a ∈ w, a.isLower = true) :
    ∀ c ∈ s, c.isAlpha = true := by
  induction h with
  | nil => simp
  | @cons a c w s hac _ ih =>
    obtain ⟨ha, hw⟩ := List.forall_mem_cons.mp hw
    rw [List.forall_mem_cons]
    refine ⟨?_, ih hw⟩
    have hlow := isLower_iff.mp ha
    rw [isAlpha_iff]
    rcases hac with rfl | rfl
    · exact .inr hlow
    · rw [toNat_toUpper, if_pos ha]
      omega

/-- **A name is found by any of its spellings**, if no two names share one. -/
theorem findSpelled?_eq_some_iff {β : Type} {name : β → String} {xs : List β} {s : List Char}
    {x : β} (hnames : (xs.map fun x => foldCase (name x).toList).Nodup) :
    findSpelled? name xs s = some x ↔ x ∈ xs ∧ Spells (name x).toList s := by
  constructor
  · intro h
    have hfound := List.find?_some h
    exact ⟨List.mem_of_find?_eq_some h, beq_iff_eq.mp hfound⟩
  · rintro ⟨hx, hs⟩
    cases h : findSpelled? name xs s with
    | none =>
      have hnot := List.find?_eq_none.mp h x hx
      exact absurd (beq_iff_eq.mpr hs) hnot
    | some y =>
      have hfound := List.find?_some h
      have hy : foldCase s = foldCase (name y).toList := beq_iff_eq.mp hfound
      have hxy := hy.symm.trans hs
      rw [List.inj_on_of_nodup_map hnames (List.mem_of_find?_eq_some h) hx hxy]

end PermitRing.Text
