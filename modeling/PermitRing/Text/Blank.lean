/-!
# Blank characters

Which characters count as white space, and how a text is cut free of them at both ends. The set
is the Unicode property `White_Space`, so a no-break space and an ideographic space are blank and
a zero-width space is not.

## Main results

* `exists_eq_append_trimBlank` — cutting removes nothing but blank characters.

## Implementation notes

Texts are lists of characters here: the readers that use these functions are proved about by
recursion on that list.
-/

namespace PermitRing.Text

/-! ### The property -/

/-- The ranges of code points with the property `White_Space`, in increasing order. -/
def blankRanges : List (Nat × Nat) :=
  [(0x9, 0xD), (0x20, 0x20), (0x85, 0x85), (0xA0, 0xA0), (0x1680, 0x1680), (0x2000, 0x200A),
   (0x2028, 0x2029), (0x202F, 0x202F), (0x205F, 0x205F), (0x3000, 0x3000)]

/-- Whether `c` is white space. -/
def isBlank (c : Char) : Bool :=
  blankRanges.any fun r => decide (r.1 ≤ c.toNat) && decide (c.toNat ≤ r.2)

/-! ### Cutting both ends -/

/-- Drops the blank characters at both ends of a text. -/
def trimBlank (s : List Char) : List Char :=
  ((s.dropWhile isBlank).reverse.dropWhile isBlank).reverse

/-- A text splits into blanks, its trimmed form, and blanks. -/
theorem exists_eq_append_trimBlank (s : List Char) :
    ∃ a b, s = a ++ trimBlank s ++ b ∧ (∀ c ∈ a, isBlank c = true) ∧
      ∀ c ∈ b, isBlank c = true := by
  refine ⟨s.takeWhile isBlank, ((s.dropWhile isBlank).reverse.takeWhile isBlank).reverse,
    ?_, ?_, ?_⟩
  · have h := List.takeWhile_append_dropWhile (p := isBlank) (l := (s.dropWhile isBlank).reverse)
    have h' := congrArg List.reverse h
    rw [List.reverse_append, List.reverse_reverse] at h'
    rw [trimBlank, List.append_assoc, h', List.takeWhile_append_dropWhile]
  · intro c hc
    exact (List.all_eq_true.mp (List.all_takeWhile (l := s) (p := isBlank))) c hc
  · intro c hc
    rw [List.mem_reverse] at hc
    exact (List.all_eq_true.mp
      (List.all_takeWhile (l := (s.dropWhile isBlank).reverse) (p := isBlank))) c hc

end PermitRing.Text
