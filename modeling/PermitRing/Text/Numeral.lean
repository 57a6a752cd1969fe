/-!
# Decimal numerals

Reading a numeral within the bounds of a machine word. The digits are the ten ASCII ones, one sign
may stand in front of them, any number of leading zeros is allowed, and nothing else is: no inner
or outer blanks, no separators, no digits of other scripts.

## Implementation notes

The value is read as a natural number first and compared with the bound of the word afterwards,
so a numeral of any length is either read exactly or refused.
-/

namespace PermitRing.Text

/-! ### Digits -/

/-- The value of an ASCII digit. -/
def digit? (c : Char) : Option Nat :=
  if '0' ≤ c ∧ c ≤ '9' then some (c.toNat - '0'.toNat) else none

/-- Reads digits after the number that the digits before them make up. -/
def digitsFrom? : Nat → List Char → Option Nat
  | n, [] => some n
  | n, c :: s => (digit? c).bind fun d => digitsFrom? (10 * n + d) s

/-- Reads a text that consists of one or more digits. -/
def digits? : List Char → Option Nat
  | [] => none
  | c :: s => digitsFrom? 0 (c :: s)

/-! ### Words -/

/-- A text without the plus sign in front of it, if it has one. -/
def dropPlus : List Char → List Char
  | '+' :: s => s
  | s => s

/-- Reads a numeral for an unsigned word of `bits` bits: a plus sign may stand in front, a minus
sign may not, not even before a zero. -/
def unsigned? (bits : Nat) (s : List Char) : Option Nat :=
  (digits? (dropPlus s)).filter (· < 1 <<< bits)

/-- Reads a numeral for a word of `bits` bits in two's complement, with either sign in front. -/
def signed? (bits : Nat) : List Char → Option Int
  | '-' :: s => ((digits? s).filter (· ≤ 1 <<< (bits - 1))).map fun n => -(n : Int)
  | s => ((digits? (dropPlus s)).filter (· < 1 <<< (bits - 1))).map Int.ofNat

end PermitRing.Text
