import PermitRing.Log.Logger
import PermitRing.Proofs.Precedence

/-!
# Where a log setting comes from

Level, flushing and time stamps share one word with the mark of readiness. Each is read and written
as if it stood alone: what one setter gives is read back by the reader of its field, and by no
other. So after the environment was read, a field has the value that a setter gave it last; if none
did, the value that its variable asks for; and if that asks for none, the default.

As for configurations, a field comes with its laws, so the precedence is proved once for the three
of them.

## Main definitions

* `Settings.Field` — a field of the settings word;
* `Settings.Field.Decided` — what setters and environment make of it;
* `Settings.given` — the settings of the environment, changed by setters.

## Main results

* `Settings.Field.value_eq_iff` — the precedence, for any field;
* `Logger.prepared_run` — a log that is called again and again has the settings that were given.
-/

namespace PermitRing

open Text

/-- A variable asks for a value: some text without the blanks at its ends asks for it. -/
def Environment.Gives {β : Type} (env : Environment) (key : String) (Asks : List Char → β → Prop)
    (b : β) : Prop :=
  ∃ s t, env.text? key = some s ∧ Trims s.toList t ∧ Asks t b

namespace Log

theorem Level.passes_eq (l setting : Level) :
    l.passes setting = decide (l ≠ off ∧ l ≤ setting) :=
  (Bool.decide_and _ _).symm

namespace Settings

/-! ### Fields -/

/-- A field of the settings word, with all that decides its value. -/
structure Field (β : Type) where
  /-- Its value. -/
  value : Settings → β
  /-- The value that a setter gives it, if the setter is one of this field. -/
  written? : Setter → Option β
  /-- Its variable. -/
  key : String
  /-- The value that a text without blanks at its ends asks for. -/
  Asks : List Char → β → Prop
  /-- Its value where nobody asks for one. -/
  default : β
  value_set : ∀ s x, value (s.set x) = (written? x).getD (value s)
  value_ofEnvironment : ∀ env b, value (ofEnvironment env) = b ↔
    env.Gives key Asks b ∨ (∀ b', ¬env.Gives key Asks b') ∧ b = default

/-- The texts that ask for a flag to be on, or off. Any text asks for one or the other. -/
def Switches (t : List Char) (on : Bool) : Prop :=
  on = true ↔ ∃ w ∈ ["1", "true", "yes", "on"], Variant w.toList t

/-- A flag is read from any text, and off where there is none. -/
theorem flag_eq_iff {env : Environment} {key : String} {on : Bool} : env.flag key false = on ↔
    env.Gives key Switches on ∨ (∀ on', ¬env.Gives key Switches on') ∧ on = false := by
  rw [Environment.flag_eq_read]
  exact Environment.read_eq_iff fun _ _ => Environment.switches_iff

namespace Field

/-- The level up to which messages are written. -/
def level : Field Level where
  value := Settings.level
  written?
    | .level l => some l
    | _ => none
  key := "BQ_LOG_LEVEL"
  Asks t l := Variant l.name.toList t ∨ Numeral l.number t
  default := .warn
  value_set s x := by
    cases x with
    | level l => exact level_setLevel l s
    | flush on => exact level_setFlush on s
    | time on => exact level_setTime on s
  value_ofEnvironment env l := by
    rw [ofEnvironment, level_pack]
    exact Environment.read_eq_iff fun _ _ => Level.ofTrimmed?_eq_some_iff

/-- Whether every line is flushed. -/
def flush : Field Bool where
  value := Settings.flush
  written?
    | .flush on => some on
    | _ => none
  key := "BQ_FLUSH_EPRINT"
  Asks := Switches
  default := false
  value_set s x := by
    cases x with
    | level l => exact flush_setLevel l s
    | flush on => exact flush_setFlush on s
    | time on => exact flush_setTime on s
  value_ofEnvironment env on := by
    rw [ofEnvironment, flush_pack]
    exact flag_eq_iff

/-- Whether lines have time stamps. -/
def time : Field Bool where
  value := Settings.time
  written?
    | .time on => some on
    | _ => none
  key := "BQ_LOG_TIME"
  Asks := Switches
  default := false
  value_set s x := by
    cases x with
    | level l => exact time_setLevel l s
    | flush on => exact time_setFlush on s
    | time on => exact time_setTime on s
  value_ofEnvironment env on := by
    rw [ofEnvironment, time_pack]
    exact flag_eq_iff

end Field

/-! ### Precedence -/

/-- The settings of the environment, changed by setters in order. -/
def given (env : Environment) (xs : List Setter) : Settings :=
  xs.foldl set (ofEnvironment env)

theorem given_concat (env : Environment) (xs : List Setter) (x : Setter) :
    given env (xs ++ [x]) = (given env xs).set x := by
  rw [given, given, List.foldl_append, List.foldl_cons, List.foldl_nil]

namespace Field

variable {β : Type}

/-- The value that comes of an environment and of setters: the last one that a setter gave, or else
the one that the environment asks for, or else the default. -/
def Decided (f : Field β) (env : Environment) (xs : List Setter) (b : β) : Prop :=
  (xs.filterMap f.written?).getLast? = some b ∨
    xs.filterMap f.written? = [] ∧
      (env.Gives f.key f.Asks b ∨ (∀ b', ¬env.Gives f.key f.Asks b') ∧ b = f.default)

/-- **The precedence** of setters, environment and default. -/
theorem value_eq_iff (f : Field β) (env : Environment) (xs : List Setter) (b : β) :
    f.value (given env xs) = b ↔ f.Decided env xs b := by
  rw [given, value_foldl f.value_set, getD_getLast?_eq_iff, f.value_ofEnvironment, Decided]

theorem decided_value (f : Field β) (env : Environment) (xs : List Setter) :
    f.Decided env xs (f.value (given env xs)) :=
  (f.value_eq_iff env xs _).mp rfl

end Field

end Settings

/-! ### Calls one after the other -/

namespace Logger

open Settings

/-- The setting that a call gives. -/
def Call.setter? : Call → Option Setter
  | .setLevel l => some (.level l)
  | .setFlush on => some (.flush on)
  | .setTime on => some (.time on)
  | _ => none

/-- The log after calls of threads, one after the other. -/
def run (calls : List (String × Call)) (g : Logger) : Logger :=
  calls.foldl (fun g c => (g.call c.1 c.2).2.2) g

section

variable {g : Logger} {c : Call}

theorem ready_prepared (g : Logger) : g.prepared.settings.ready = true := by
  rw [prepared, Settings.prepared]
  split
  next h => exact h
  next => exact ready_pack _ _ _

theorem prepared_of_ready (h : g.settings.ready = true) : g.prepared = g := by
  rw [prepared, Settings.prepared, if_pos h]

theorem setter?_of_not_looks (h : c.looks = false) : c.setter? = none := by
  cases c <;> first | rfl | cases h

/-- What is known without a look at the settings leaves the log alone. -/
theorem call_of_not_looks (thread : String) (h : c.looks = false) : (g.call thread c).2.2 = g := by
  cases c with
  | message l text =>
    simp only [call, h, Bool.false_eq_true, if_false]
    split <;> rfl
  | enabled l =>
    rw [call, h]
    rfl
  | init | setLevel | setFlush | setTime | get | emit => cases h

/-- Any other call changes the setting that it gives, in a log that is ready. -/
theorem call_of_looks (thread : String) (h : c.looks = true) : (g.call thread c).2.2 =
    { g.prepared with settings := c.setter?.elim g.prepared.settings g.prepared.settings.set } := by
  cases c with
  | message l text =>
    simp only [call, h, if_true]
    split <;> rfl
  | enabled l =>
    rw [call, h]
    rfl
  | init | setLevel | setFlush | setTime | get | emit => rfl

theorem prepared_call (thread : String) (c : Call) (g : Logger) : (g.call thread c).2.2.prepared =
    { g.prepared with settings := c.setter?.elim g.prepared.settings g.prepared.settings.set } := by
  cases h : c.looks with
  | false =>
    rw [call_of_not_looks thread h, setter?_of_not_looks h]
    rfl
  | true =>
    rw [call_of_looks thread h]
    refine prepared_of_ready ?_
    cases c.setter? with
    | none => exact g.ready_prepared
    | some x => exact (ready_set _ x).trans g.ready_prepared

end

/-- **The settings after calls** are those that the environment and the setters give. -/
theorem prepared_run (env : Environment) (calls : List (String × Call)) :
    ((start env).run calls).prepared = ⟨env, given env (calls.filterMap fun c => c.2.setter?)⟩ := by
  induction calls using List.reverseRecOn with
  | nil =>
    rw [run, List.foldl_nil, start, prepared, Settings.prepared, ready_initial]
    rfl
  | append_singleton calls c ih =>
    rw [run, List.foldl_append, List.foldl_cons, List.foldl_nil, ← run, prepared_call, ih,
      List.filterMap_append]
    cases hx : c.2.setter? with
    | none => simp [hx]
    | some x => simp [hx, given_concat]

/-- What a thread is told by a log and writes to it, at a level and with flushing or not. -/
structure Tells (g : Logger) (thread : String) (setting : Level) (flush : Bool) : Prop where
  get : (g.call thread .get).1 = .settings setting flush
  enabled : ∀ l, (g.call thread (.enabled l)).1 = .enabled (decide (l ≠ .off ∧ l ≤ setting))
  evaluated : ∀ l text,
    (g.call thread (.message l text)).1 = .evaluated (decide (l ≠ .off ∧ l ≤ setting))
  lines : ∀ l text, (g.call thread (.message l text)).2.1 =
    if l ≠ .off ∧ l ≤ setting then [⟨some l, thread, text, true⟩] else []

/-- A message is written where its level passes. At the level `off` nothing passes, whether the log
is ready or not. -/
theorem call_message (g : Logger) (thread : String) (l : Level) (text : String) :
    (g.call thread (.message l text)).1 = .evaluated (l.passes g.prepared.settings.level) ∧
      (g.call thread (.message l text)).2.1 =
        if l.passes g.prepared.settings.level then [⟨some l, thread, text, true⟩] else [] := by
  by_cases hoff : l = .off
  · subst hoff
    exact ⟨rfl, rfl⟩
  · have hlooks : (Call.message l text).looks = true := by
      cases l <;> first | rfl | exact absurd rfl hoff
    simp only [call, hlooks, if_true]
    cases l.passes g.prepared.settings.level <;> exact ⟨rfl, rfl⟩

/-- A log tells the settings that it has when it is ready. -/
theorem tells_prepared (g : Logger) (thread : String) :
    g.Tells thread g.prepared.settings.level g.prepared.settings.flush := by
  refine ⟨rfl, fun l => ?_, fun l text => ?_, fun l text => ?_⟩
  · rw [← Level.passes_eq]
    cases l <;> rfl
  · rw [← Level.passes_eq]
    exact (g.call_message thread l text).1
  · rw [(g.call_message thread l text).2, Level.passes_eq]
    simp only [decide_eq_true_eq]

end Logger

end Log

end PermitRing
