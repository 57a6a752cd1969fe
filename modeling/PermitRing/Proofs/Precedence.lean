import PermitRing.Proofs.Queue.Represents
import PermitRing.Proofs.Text.Readers

/-!
# Where a configuration comes from, and what becomes of it

A field of a configuration has the value that the program set last; if it set none, the value that
the environment asks for; and if that asks for none, the default. What the environment asks for is
decided by the last assignment of one variable. Bytes that are no text, and texts that the field's
grammar does not know, ask for nothing.

A field comes with what this is about: its variable, its default, the texts of its values, and the
setters that are its own. That its value in a configuration goes by them is part of a field, so what
is proved of fields is proved once, and none can depend on the variable of another.

## Main definitions

* `Config.Field` — a field of a configuration;
* `Config.Field.Decided` — what setters and environment make of it.

## Main results

* `Environment.bytes?_ofList` — the last assignment of a variable decides;
* `Config.Field.value_eq_iff` — the precedence, for any field;
* `Queue.create_eq_error_iff` — why no queue is made of a configuration;
* `Config.precedence` — from the environment to the queue.
-/

namespace PermitRing

open Text

/-! ### The last one that was given -/

section

variable {σ ι β : Type} {value : σ → β} {set : σ → ι → σ} {written? : ι → Option β}

/-- If each step gives the value or leaves it as it is, the last one that gives it decides. -/
theorem value_foldl (h : ∀ s x, value (set s x) = (written? x).getD (value s)) (s : σ)
    (xs : List ι) : value (xs.foldl set s) = (xs.filterMap written?).getLast?.getD (value s) := by
  induction xs using List.reverseRecOn with
  | nil => rfl
  | append_singleton xs x ih =>
    rw [List.foldl_append, List.foldl_cons, List.foldl_nil, h, ih, List.filterMap_append]
    cases hx : written? x <;> simp [hx]

theorem getD_getLast?_eq_iff {l : List β} {v b : β} :
    l.getLast?.getD v = b ↔ l.getLast? = some b ∨ l = [] ∧ v = b := by
  cases hlast : l.getLast? with
  | none =>
    have hnil := List.getLast?_eq_none_iff.mp hlast
    simp [hnil]
  | some b' =>
    have hne : l ≠ [] := by
      intro hnil
      rw [hnil] at hlast
      cases hlast
    simp [hne]

end

/-! ### Variables -/

namespace Environment

variable {entries : List (String × ByteArray)} {key : String}

/-- The value that the last assignment of a variable gives it. -/
def latest? (entries : List (String × ByteArray)) (key : String) : Option ByteArray :=
  (entries.filter fun e => e.1 == key).getLast?.map Prod.snd

/-- **The last assignment decides**, of those that name the variable. -/
theorem bytes?_ofList (hkey : isName key = true) :
    (ofList entries).bytes? key = latest? entries key := by
  induction entries using List.reverseRecOn with
  | nil => rfl
  | append_singleton es e ih =>
    rw [ofList_concat, bytes?_set, ih, latest?, latest?, List.filter_append]
    by_cases he : e.1 = key
    · simp [he, hkey]
    · simp [he]

/-- What a reader with a grammar makes of a variable, and where the default applies. -/
theorem read_eq_iff {β : Type} {reader : List Char → Option β} {Asks : List Char → β → Prop}
    (hreader : ∀ t b, reader t = some b ↔ Asks t b) {env : Environment} {default b : β} :
    env.read reader key default = b ↔
      (∃ s t, env.text? key = some s ∧ Trims s.toList t ∧ Asks t b) ∨
        (∀ b', ¬∃ s t, env.text? key = some s ∧ Trims s.toList t ∧ Asks t b') ∧ b = default := by
  simp only [← hreader, ← read?_eq_some_iff, read]
  cases env.read? reader key with
  | none => simp [eq_comm]
  | some b' => simp

/-- A setting that is on or off is read from any text. -/
theorem flag_eq_read (env : Environment) (key : String) (default : Bool) :
    env.flag key default = env.read (fun t => some (isOn t)) key default := by
  rw [flag, read, read?]
  cases env.text? key <;> rfl

/-- A setting is switched on by one of four words in any letter case. -/
theorem isOn_iff {t : List Char} :
    isOn t = true ↔ ∃ w ∈ ["1", "true", "yes", "on"], Variant w.toList t := by
  have hwords : ∀ w ∈ ["1", "true", "yes", "on"],
      foldCase w.toList = w.toList ∧ ∀ a ∈ w.toList, a.isUpper = false := by
    simp [foldCase]
  rw [isOn, List.any_eq_true]
  refine exists_congr fun w => and_congr_right fun hw => ?_
  rw [← spells_iff_variant (hwords w hw).2, Spells, (hwords w hw).1, beq_iff_eq]

/-- The texts that ask for such a setting to be on, or off. -/
theorem switches_iff {t : List Char} {on : Bool} : some (isOn t) = some on ↔
    (on = true ↔ ∃ w ∈ ["1", "true", "yes", "on"], Variant w.toList t) := by
  rw [Option.some.injEq, ← isOn_iff, eq_comm, Bool.eq_iff_iff]

end Environment

/-! ### Fields -/

namespace Config

/-- A field of a configuration, with all that decides its value. -/
structure Field (β : Type) where
  /-- Its value. -/
  value : Config → β
  /-- The value that a setter gives it, if the setter is one of this field. -/
  written? : Setter → Option β
  /-- Its variable. -/
  key : String
  /-- The value that a text without blanks at its ends asks for. -/
  Asks : List Char → β → Prop
  /-- Its value where nobody asks for one. -/
  default : β
  value_set : ∀ c s, value (c.set s) = (written? s).getD (value c)
  isName_key : Environment.isName key = true
  value_ofEnvironment : ∀ env b, value (ofEnvironment env) = b ↔
    (∃ s t, env.text? key = some s ∧ Trims s.toList t ∧ Asks t b) ∨
      (∀ b', ¬∃ s t, env.text? key = some s ∧ Trims s.toList t ∧ Asks t b') ∧ b = default

namespace Field

/-- The number of elements that fit. -/
def capacity : Field Nat where
  value := Config.capacity
  written?
    | .capacity n => some n
    | _ => none
  key := "BQ_CAPACITY"
  Asks t n := Numeral n t ∧ n < 2 ^ 64
  default := 1024
  value_set c s := by cases s <;> rfl
  isName_key := by decide
  value_ofEnvironment _ _ := Environment.read_eq_iff fun _ _ => unsigned?_eq_some_iff

/-- Which sides of the queue several threads may use. -/
def discipline : Field Discipline where
  value := Config.discipline
  written?
    | .discipline d => some d
    | _ => none
  key := "BQ_DISCIPLINE"
  Asks t d := Variant d.name.toList t
  default := .mpmc
  value_set c s := by cases s <;> rfl
  isName_key := by decide
  value_ofEnvironment _ _ :=
    Environment.read_eq_iff fun _ _ => Discipline.ofText?_ofList_eq_some_iff

/-- Rounds that a thread spins at a slot. -/
def spinLimit : Field Nat where
  value := Config.spinLimit
  written?
    | .spinLimit n => some n
    | _ => none
  key := "BQ_SPIN_LIMIT"
  Asks t n := Numeral n t ∧ n < 2 ^ 32
  default := 64
  value_set c s := by cases s <;> rfl
  isName_key := by decide
  value_ofEnvironment _ _ := Environment.read_eq_iff fun _ _ => unsigned?_eq_some_iff

/-- Whether creation and closing are reported. Any text asks for one or the other. -/
def debugLogging : Field Bool where
  value := Config.debugLogging
  written?
    | .debugLogging on => some on
    | _ => none
  key := "BQ_DEBUG"
  Asks t on := on = true ↔ ∃ w ∈ ["1", "true", "yes", "on"], Variant w.toList t
  default := false
  value_set c s := by cases s <;> rfl
  isName_key := by decide
  value_ofEnvironment env on := by
    change env.flag "BQ_DEBUG" false = on ↔ _
    rw [Environment.flag_eq_read]
    exact Environment.read_eq_iff fun _ _ => Environment.switches_iff

variable {β : Type}

/-- The value that the environment asks for after a list of assignments. -/
def Asked (f : Field β) (entries : List (String × ByteArray)) (b : β) : Prop :=
  ∃ v s t, Environment.latest? entries f.key = some v ∧ String.fromUTF8? v = some s ∧
    Trims s.toList t ∧ f.Asks t b

/-- The value that comes of a list of assignments and of setters: the last one that a setter gave,
or else the one that the environment asks for, or else the default. -/
def Decided (f : Field β) (entries : List (String × ByteArray)) (ss : List Setter) (b : β) : Prop :=
  (ss.filterMap f.written?).getLast? = some b ∨
    ss.filterMap f.written? = [] ∧
      (f.Asked entries b ∨ (∀ b', ¬f.Asked entries b') ∧ b = f.default)

/-- The last setter of a field decides it. -/
theorem value_setAll (f : Field β) (c : Config) (ss : List Setter) :
    f.value (c.setAll ss) = (ss.filterMap f.written?).getLast?.getD (f.value c) :=
  value_foldl f.value_set c ss

theorem value_ofList_eq_iff (f : Field β) (entries : List (String × ByteArray)) (b : β) :
    f.value (ofEnvironment (.ofList entries)) = b ↔
      f.Asked entries b ∨ (∀ b', ¬f.Asked entries b') ∧ b = f.default := by
  have hasked : ∀ b, (∃ s t, (Environment.ofList entries).text? f.key = some s ∧
      Trims s.toList t ∧ f.Asks t b) ↔ f.Asked entries b := by
    intro b
    simp only [Asked, Environment.text?, Environment.bytes?_ofList f.isName_key,
      Option.bind_eq_some_iff]
    constructor
    · rintro ⟨s, t, ⟨v, hv, hs⟩, ht, hb⟩
      exact ⟨v, s, t, hv, hs, ht, hb⟩
    · rintro ⟨v, s, t, hv, hs, ht, hb⟩
      exact ⟨s, t, ⟨v, hv, hs⟩, ht, hb⟩
  simp only [f.value_ofEnvironment, hasked]

/-- **The precedence** of setters, environment and default. -/
theorem value_eq_iff (f : Field β) (entries : List (String × ByteArray)) (ss : List Setter)
    (b : β) : f.value ((ofEnvironment (.ofList entries)).setAll ss) = b ↔
      f.Decided entries ss b := by
  rw [value_setAll, Decided, ← value_ofList_eq_iff, getD_getLast?_eq_iff]

end Field

end Config

/-! ### Queues -/

namespace Queue

variable {α : Type} {d : Discipline} {c : Config} {order : Side → Nat → Nat}

/-- **Why no queue is made of a configuration**, the first reason that applies. -/
theorem create_eq_error_iff {r : Refusal} :
    (create d c order : Except Refusal (Queue α)) = .error r ↔
      c.capacity = 0 ∧ r = .invalidCapacity 0 ∨
      2 ^ 30 < c.capacity ∧ r = .invalidConfig "capacity exceeds maximum" ∨
      0 < c.capacity ∧ c.capacity ≤ 2 ^ 30 ∧ c.discipline ≠ d ∧
        r = .disciplineMismatch d c.discipline := by
  have hmin : c.capacity < Config.minCapacity ↔ c.capacity = 0 := Nat.lt_one_iff
  have hmax : Config.maxCapacity = 2 ^ 30 := by decide
  rw [create, Config.validate, hmax]
  simp only [hmin]
  generalize (2 ^ 30 : Nat) = most
  rcases Nat.eq_zero_or_pos c.capacity with hzero | hpos
  · simp [hzero, eq_comm]
  rw [if_neg (Nat.ne_of_gt hpos)]
  by_cases hgt : most < c.capacity
  · simp [hgt, Nat.ne_of_gt hpos, Nat.not_le.mpr hgt, eq_comm]
  · by_cases hd : c.discipline = d
    · simp [hgt, Nat.ne_of_gt hpos, hd]
    · simp [hgt, hpos, Nat.ne_of_gt hpos, hd, Nat.not_lt.mp hgt, eq_comm]

/-- **A queue is made** of every other configuration. It is open, has no elements and nobody who
waits, and has room for exactly as many as was asked for. -/
theorem exists_empty (hpos : 0 < c.capacity) (hle : c.capacity ≤ 2 ^ 30)
    (order : Side → Nat → Nat) : ∃ q : Queue α, create c.discipline c order = .ok q ∧
      q.Represents { discipline := c.discipline, capacity := c.capacity } ∧
      q.view = ⟨.opened, 0, c.capacity, 0, 0⟩ ∧ q.capacity = c.capacity ∧
      q.discipline = c.discipline ∧ q.drop = [] := by
  have hmax : Config.maxCapacity = 2 ^ 30 := by decide
  obtain ⟨q, hq⟩ := exists_create (α := α) (c.validate_eq_ok_iff.mpr ⟨hpos, hmax ▸ hle⟩) order
  refine ⟨q, hq, represents_create hq, ?_⟩
  rw [eq_of_create hq]
  refine ⟨rfl, ?_, rfl, ?_⟩
  · simp [capacity, Storage.capacity, Storage.vacant]
  · simp [drop, Storage.clear, Storage.vacant, Slot.vacant, Slot.clear]

end Queue

/-! ### From the environment to the queue -/

namespace Config

/-- **From the environment to the queue.** Take any assignments of variables, of which later ones
win, any setters in any order, and any discipline.

* Each field has the value that its setters, its variable and its default decide, in this order of
  precedence.
* No queue of the discipline is made if the capacity is zero; else if it exceeds `2 ^ 30`; else if
  the configuration has another discipline; and the refusal tells which. In any other case an open
  queue without elements is made, for as many as the capacity says.
* If only the discipline is replaced in what the environment asks for, no variable leads to a queue
  of another discipline: one is made exactly if the capacity is in its bounds. -/
theorem precedence {α : Type} (entries : List (String × ByteArray)) (ss : List Setter)
    (d : Discipline) (order : Side → Nat → Nat) :
    let env := Environment.ofList entries
    let c := (ofEnvironment env).setAll ss
    (∀ n, c.capacity = n ↔ Field.capacity.Decided entries ss n) ∧
      (∀ k, c.discipline = k ↔ Field.discipline.Decided entries ss k) ∧
      (∀ n, c.spinLimit = n ↔ Field.spinLimit.Decided entries ss n) ∧
      (∀ on, c.debugLogging = on ↔ Field.debugLogging.Decided entries ss on) ∧
      (∀ r, (Queue.create d c order : Except Refusal (Queue α)) = .error r ↔
        c.capacity = 0 ∧ r = .invalidCapacity 0 ∨
        2 ^ 30 < c.capacity ∧ r = .invalidConfig "capacity exceeds maximum" ∨
        0 < c.capacity ∧ c.capacity ≤ 2 ^ 30 ∧ c.discipline ≠ d ∧
          r = .disciplineMismatch d c.discipline) ∧
      (0 < c.capacity → c.capacity ≤ 2 ^ 30 → c.discipline = d →
        ∃ q : Queue α, Queue.create d c order = .ok q ∧
          q.Represents { discipline := d, capacity := c.capacity } ∧
          q.view = ⟨.opened, 0, c.capacity, 0, 0⟩ ∧ q.capacity = c.capacity ∧ q.discipline = d ∧
          q.drop = []) ∧
      let own := ofEnvironmentFor d env
      (∀ n, own.capacity = n ↔ Field.capacity.Decided entries [] n) ∧
        (∀ expected found, (Queue.create d own order : Except Refusal (Queue α)) ≠
          .error (.disciplineMismatch expected found)) ∧
        ((∃ r, (Queue.create d own order : Except Refusal (Queue α)) = .error r) ↔
          ¬(1 ≤ own.capacity ∧ own.capacity ≤ 2 ^ 30)) ∧
        (1 ≤ own.capacity → own.capacity ≤ 2 ^ 30 → ∃ q : Queue α,
          Queue.create d own order = .ok q ∧
            q.Represents { discipline := d, capacity := own.capacity }) := by
  intro env c
  refine ⟨Field.capacity.value_eq_iff entries ss, Field.discipline.value_eq_iff entries ss,
    Field.spinLimit.value_eq_iff entries ss, Field.debugLogging.value_eq_iff entries ss,
    fun r => Queue.create_eq_error_iff, ?_, Field.capacity.value_eq_iff entries [], ?_, ?_, ?_⟩
  · rintro hpos hle rfl
    exact Queue.exists_empty hpos hle order
  · intro expected found h
    have hd : (ofEnvironmentFor d env).discipline = d := rfl
    simp [Queue.create_eq_error_iff, hd] at h
  · have hd : (ofEnvironmentFor d env).discipline = d := rfl
    simp only [Queue.create_eq_error_iff, hd, ne_eq, not_true, false_and, and_false, or_false]
    constructor
    · rintro ⟨r, ⟨h, -⟩ | ⟨h, -⟩⟩ <;> omega
    · intro h
      rcases Nat.eq_zero_or_pos (ofEnvironmentFor d env).capacity with hzero | hpos
      · exact ⟨_, .inl ⟨hzero, rfl⟩⟩
      · exact ⟨_, .inr ⟨by omega, rfl⟩⟩
  · intro hpos hle
    obtain ⟨q, hq, hrepresents, -⟩ := Queue.exists_empty hpos hle order
    exact ⟨q, hq, hrepresents⟩

/-- The later capacity is read, what is no name and no text is passed over, and setters go last. -/
example :
    (ofEnvironment (.ofList [("BQ_CAPACITY", "9".toUTF8), ("BQ_CAPACITY", " +0007\t".toUTF8),
      ("BQ_DISCIPLINE", "mpsc spsc".toUTF8), ("BQ_SPIN_LIMIT", ⟨#[0xFF]⟩),
      ("BQ_DEBUG", "YeS".toUTF8)])).setAll [.spinLimit 3, .discipline .spmc, .spinLimit 4] =
    ⟨7, .spmc, 4, true⟩ := by
  decide +kernel

end Config

end PermitRing
