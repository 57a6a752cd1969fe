import PermitRing.Text.Hidden

/-!
# Quoted texts

A text between double quotes, with backslash escapes for what cannot stand there as itself. The
named escapes are those of the null character, tab, carriage return, line feed, double quote and
backslash; every other hidden character is written by its number in small hexadecimal digits. A
single quote needs no escape.
-/

namespace PermitRing.Text

/-- How one character is written inside double quotes. -/
def escapeChar (c : Char) : String :=
  if c = '\x00' then "\\0"
  else if c = '\t' then "\\t"
  else if c = '\r' then "\\r"
  else if c = '\n' then "\\n"
  else if c = '"' then "\\\""
  else if c = '\\' then "\\\\"
  else if isHidden c then "\\u\x7b" ++ String.ofList (Nat.toDigits 16 c.toNat) ++ "\x7d"
  else c.toString

/-- A text between double quotes. -/
def quoted (s : String) : String :=
  "\"" ++ String.join (s.toList.map escapeChar) ++ "\""

end PermitRing.Text
