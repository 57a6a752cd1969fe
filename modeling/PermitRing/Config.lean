import PermitRing.Backoff
import PermitRing.Environment
import PermitRing.Refusal

/-!
# Configuration of a queue

What a queue is built from. Each field has a default, may be set by a variable of the environment,
and may be set by the program, which has the last word. The fields are independent of each other:
a variable that cannot be read leaves the others in force.
-/

namespace PermitRing

/-- What a queue is built from. -/
structure Config where
  /-- The number of elements that fit. -/
  capacity : Nat := 1024
  /-- Which sides several threads may use. -/
  discipline : Discipline := .mpmc
  /-- Rounds that a thread spins at a slot before it lets other threads run. -/
  spinLimit : Nat := Backoff.defaultSpinLimit
  /-- Whether the queue reports when it is created and when it is closed. -/
  debugLogging : Bool := false
  deriving DecidableEq, Repr, Inhabited

namespace Config

/-- The version of the library. -/
def version : String := "0.1.0"

/-- The smallest number of elements that a queue can be made for. -/
def minCapacity : Nat := 1

/-- The largest number of elements that a queue can be made for. -/
def maxCapacity : Nat := 0x40000000

/-- The configuration that the environment asks for. -/
def ofEnvironment (env : Environment) : Config where
  capacity := env.read (Text.unsigned? 64) "BQ_CAPACITY" 1024
  discipline := env.read (fun s => Discipline.ofText? (String.ofList s)) "BQ_DISCIPLINE" .mpmc
  spinLimit := env.read (Text.unsigned? 32) "BQ_SPIN_LIMIT" Backoff.defaultSpinLimit
  debugLogging := env.flag "BQ_DEBUG" false

/-- The configuration that the environment asks for, for a queue of a given discipline. -/
def ofEnvironmentFor (d : Discipline) (env : Environment) : Config :=
  { ofEnvironment env with discipline := d }

/-! ### Setters -/

/-- One field, set by the program. -/
inductive Setter
  /-- The number of elements that fit. -/
  | capacity (n : Nat)
  /-- Which sides several threads may use. -/
  | discipline (d : Discipline)
  /-- Rounds that a thread spins at a slot. -/
  | spinLimit (n : Nat)
  /-- Whether creation and closing are reported. -/
  | debugLogging (on : Bool)
  deriving DecidableEq, Repr

/-- The configuration with one field set. -/
def set (c : Config) : Setter → Config
  | .capacity n => { c with capacity := n }
  | .discipline d => { c with discipline := d }
  | .spinLimit n => { c with spinLimit := n }
  | .debugLogging on => { c with debugLogging := on }

/-- The configuration with fields set in order. -/
def setAll (c : Config) (ss : List Setter) : Config :=
  ss.foldl set c

/-! ### Validation -/

/-- Whether a queue can be made from the configuration; if not, why. -/
def validate (c : Config) : Except Refusal Unit :=
  if c.capacity < minCapacity then .error (.invalidCapacity c.capacity)
  else if maxCapacity < c.capacity then .error (.invalidConfig "capacity exceeds maximum")
  else .ok ()

/-! ### Texts -/

/-- The configuration as a table. -/
def table (c : Config) : String :=
  "boundq configuration:\n" ++
  "  capacity:       " ++ toString c.capacity ++ "\n" ++
  "  discipline:     " ++ c.discipline.name ++ "\n" ++
  "  spin_limit:     " ++ toString c.spinLimit ++ "\n" ++
  "  debug_logging:  " ++ toString c.debugLogging ++ "\n"

/-- How the configuration is built. -/
def outline (c : Config) : Text.Outline :=
  .record "QueueConfig"
    [("capacity", .word (toString c.capacity)), ("discipline", c.discipline.outline),
     ("spin_limit", .word (toString c.spinLimit)),
     ("debug_logging", .word (toString c.debugLogging))] false

/-! ### Small facts -/

theorem validate_eq_ok_iff (c : Config) :
    c.validate = .ok () ↔ minCapacity ≤ c.capacity ∧ c.capacity ≤ maxCapacity := by
  unfold validate
  split
  · simp; omega
  · split <;> simp <;> omega

end Config

end PermitRing
