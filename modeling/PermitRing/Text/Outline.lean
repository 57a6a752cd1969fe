/-!
# Outlines of values

The text that shows how a value is built: a word, a record with named fields, or a constructor
with its arguments. Each outline is kept in both of its layouts at once, on one line and spread
over several, so that an enclosing value can use either without knowing what it encloses.

## Implementation notes

A spread layout is a list of lines. Whoever encloses it indents every line by four blanks and puts
a comma behind the last one.
-/

namespace PermitRing.Text

/-- A shown value, on one line and spread over several. -/
structure Outline where
  /-- The value on one line. -/
  flat : String
  /-- The lines of the spread layout. -/
  tall : List String

namespace Outline

/-- A value without parts. -/
def word (s : String) : Outline :=
  ⟨s, [s]⟩

/-- The lines of a part inside the value that encloses it. -/
def enclosed (label : String) : List String → List String
  | [] => []
  | [l] => ["    " ++ label ++ l ++ ","]
  | l :: ls => ("    " ++ label ++ l) :: enclosed "" ls

/-- A record. When `more` is set it has fields that are not shown, which two dots stand for. -/
def record (name : String) (fields : List (String × Outline)) (more : Bool) : Outline where
  flat := name ++ " \x7b " ++ ", ".intercalate
    (fields.map (fun f => f.1 ++ ": " ++ f.2.flat) ++ if more then [".."] else []) ++ " \x7d"
  tall := [name ++ " \x7b"] ++ fields.flatMap (fun f => enclosed (f.1 ++ ": ") f.2.tall) ++
    (if more then ["    .."] else []) ++ ["\x7d"]

/-- A constructor with its arguments. -/
def applied (name : String) (args : List Outline) : Outline where
  flat := name ++ "(" ++ ", ".intercalate (args.map Outline.flat) ++ ")"
  tall := [name ++ "("] ++ args.flatMap (fun a => enclosed "" a.tall) ++ [")"]

/-- The spread layout as one text. -/
def pretty (o : Outline) : String :=
  "\n".intercalate o.tall

end Outline

end PermitRing.Text
