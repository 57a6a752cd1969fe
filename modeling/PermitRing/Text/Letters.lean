/-!
# Spelling without regard to case

Two texts spell the same word when they agree up to the case of their ASCII letters. Letters of
other scripts, and look-alikes such as the full-width forms, are compared as they stand.
-/

namespace PermitRing.Text

/-- A text with its ASCII capitals made small. -/
def foldCase (s : List Char) : List Char :=
  s.map Char.toLower

/-- Whether `s` spells the word `w`, whatever the case of its ASCII letters. -/
def Spells (w s : List Char) : Prop :=
  foldCase s = foldCase w

/-- The first of `xs` whose name `s` spells. -/
def findSpelled? {α : Type} (name : α → String) (xs : List α) (s : List Char) : Option α :=
  xs.find? fun x => foldCase s == foldCase (name x).toList

/-- Reads one of the two truth values, in small letters only. -/
def switch? (s : List Char) : Option Bool :=
  if s = "true".toList then some true
  else if s = "false".toList then some false
  else none

end PermitRing.Text
