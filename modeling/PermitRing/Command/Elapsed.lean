/-!
# Elapsed times

A time in nanoseconds as it is displayed, and the rates that follow from it. A time stands in the
largest unit in which it is at least one, with as many decimals as it needs. Rates are rounded to
the nearest decimal of a fixed number of places, and from halfway to the even one.
-/

namespace PermitRing.Command

/-- A decimal of a fixed number of digits, with zeros in front. -/
def padded (digits n : Nat) : String :=
  let s := toString n
  String.ofList (List.replicate (digits - s.length) '0') ++ s

/-- The decimals of a fraction `n` of `10 ^ digits`, without the zeros at the end. -/
def decimals (digits n : Nat) : String :=
  let s := ((padded digits n).toList.reverse.dropWhile (· == '0')).reverse
  if s.isEmpty then "" else "." ++ String.ofList s

/-- A time in nanoseconds. -/
def elapsedText (nanos : Nat) : String :=
  if 1000000000 ≤ nanos then
    toString (nanos / 1000000000) ++ decimals 9 (nanos % 1000000000) ++ "s"
  else if 1000000 ≤ nanos then
    toString (nanos / 1000000) ++ decimals 6 (nanos % 1000000) ++ "ms"
  else if 1000 ≤ nanos then toString (nanos / 1000) ++ decimals 3 (nanos % 1000) ++ "µs"
  else toString nanos ++ "ns"

/-- The natural number nearest to a fraction, and from halfway the even one. -/
def roundedRatio (num den : Nat) : Nat :=
  let q := num / den
  let r := 2 * (num % den)
  if den < r ∨ r = den ∧ q % 2 = 1 then q + 1 else q

/-- A fraction with a number of decimals. Where the denominator is zero the fraction is infinite,
or no number if the numerator is zero too. -/
def ratioText (places num den : Nat) : String :=
  if den = 0 then (if num = 0 then "NaN" else "inf")
  else
    let unit := Nat.pow 10 places
    let n := roundedRatio (num * unit) den
    toString (n / unit) ++ if places = 0 then "" else "." ++ padded places (n % unit)

/-- Items in a second. -/
def perSecond (items nanos : Nat) : String :=
  ratioText 0 (items * 1000000000) nanos

/-- Millions of items in a second. -/
def millionsPerSecond (items nanos : Nat) : String :=
  ratioText 2 (items * 1000) nanos

/-- A text with blanks in front of it, at least so many characters wide. -/
def alignRight (width : Nat) (s : String) : String :=
  String.ofList (List.replicate (width - s.length) ' ') ++ s

/-- A text with blanks behind it, at least so many characters wide. -/
def alignLeft (width : Nat) (s : String) : String :=
  s ++ String.ofList (List.replicate (width - s.length) ' ')

end PermitRing.Command
