import PermitRing.Text.Blank
import PermitRing.Text.Letters
import PermitRing.Text.Numeral

/-!
# Environment variables

Settings come from variables, which are named byte strings. A variable whose bytes are not UTF-8
counts as unset, a value is cut free of blanks before it is read, and one that cannot be read
counts as unset too, so that a mistyped value falls back on the default instead of stopping the
program.

## Main definitions

* `Environment.ofList` — the environment after a list of assignments, the last of which wins;
* `Environment.text?`, `read?`, `read`, `flag`, `millis` — the readers.
-/

namespace PermitRing

/-- Named byte strings, the latest assignment first. -/
structure Environment where
  /-- Every assignment that was made. -/
  assignments : List (String × ByteArray)

namespace Environment

/-! ### Assignments -/

/-- No variable is set. -/
def empty : Environment :=
  ⟨[]⟩

/-- Whether a variable can have this name. -/
def isName (key : String) : Bool :=
  !key.isEmpty && key.toList.all fun c => c != '=' && c != '\x00'

/-- Sets a variable; a name that no variable can have changes nothing. -/
def set (key : String) (value : ByteArray) (env : Environment) : Environment :=
  if isName key then ⟨(key, value) :: env.assignments⟩ else env

/-- The environment after a list of assignments. -/
def ofList (assignments : List (String × ByteArray)) : Environment :=
  assignments.foldl (fun env a => env.set a.1 a.2) empty

/-- The bytes of a variable. -/
def bytes? (env : Environment) (key : String) : Option ByteArray :=
  (env.assignments.find? fun a => a.1 == key).map Prod.snd

/-! ### Readers -/

/-- The text of a variable, if it is set and its bytes are UTF-8. -/
def text? (env : Environment) (key : String) : Option String :=
  (env.bytes? key).bind String.fromUTF8?

/-- The variable is set to a text. -/
def isSet (env : Environment) (key : String) : Bool :=
  (env.text? key).isSome

/-- The text of a variable with its blanks, or a default. -/
def text (env : Environment) (key default : String) : String :=
  (env.text? key).getD default

/-- What a reader makes of the text of a variable without the blanks around it. -/
def read? {β : Type} (reader : List Char → Option β) (env : Environment) (key : String) :
    Option β :=
  (env.text? key).bind fun s => reader (Text.trimBlank s.toList)

/-- What a reader makes of a variable, or a default. -/
def read {β : Type} (reader : List Char → Option β) (env : Environment) (key : String)
    (default : β) : β :=
  (env.read? reader key).getD default

/-- Whether a text is one of the four that switch a setting on. -/
def isOn (s : List Char) : Bool :=
  ["1", "true", "yes", "on"].any fun w => Text.foldCase s == w.toList

/-- A setting that is on or off. Any text other than those of `isOn` switches it off; the default
applies only where there is no text. -/
def flag (env : Environment) (key : String) (default : Bool) : Bool :=
  match env.text? key with
  | some s => isOn (Text.trimBlank s.toList)
  | none => default

/-- A number of milliseconds. -/
def millis (env : Environment) (key : String) (default : Nat) : Nat :=
  env.read (Text.unsigned? 64) key default

/-! ### Small facts -/

theorem bytes?_set (env : Environment) (key other : String) (value : ByteArray) :
    (env.set key value).bytes? other =
      if isName key = true ∧ key = other then some value else env.bytes? other := by
  unfold set bytes?
  split
  next hn =>
    by_cases hk : key = other
    · rw [if_pos ⟨hn, hk⟩, List.find?_cons_of_pos (by simp [hk]), Option.map_some]
    · rw [if_neg (fun h => hk h.2), List.find?_cons_of_neg (by simp [hk])]
  next hn => rw [if_neg (fun h => hn h.1)]

/-- The last assignment is made on top of those before it. -/
theorem ofList_concat (xs : List (String × ByteArray)) (x : String × ByteArray) :
    ofList (xs ++ [x]) = (ofList xs).set x.1 x.2 := by
  rw [ofList, List.foldl_append]
  rfl

end Environment

end PermitRing
