import PermitRing.Environment
import PermitRing.Log.Level

/-!
# Log settings

All settings of the log are kept in one word of eight bits, so that a thread reads them in one
step: three bits for the level, and one bit each for flushing after every line, for time stamps,
and for having been read from the environment.

```
 7      4    3     2 1 0
ready  time flush  level
```

A setter changes the bits of its own field only. Until the environment has been read the word has
its initial value, whose level is `warn`.

## Main results

* `Settings.level_setLevel` and its companions — a setter is seen by the reader of its field;
* `Settings.flush_setLevel` and its companions — and by no other reader;
* `Settings.ready_set`, `ready_pack` — only what is read from the environment makes the word ready.
-/

namespace PermitRing.Log

/-- The settings of the log, in one word. -/
structure Settings where
  /-- The word. -/
  word : UInt8
  deriving DecidableEq, Repr

namespace Settings

/-! ### Fields -/

/-- The bits of the level. -/
def levelBits : UInt8 := 0x07

/-- The bit of flushing. -/
def flushBit : UInt8 := 0x08

/-- The bit of time stamps. -/
def timeBit : UInt8 := 0x10

/-- The bit that tells that the environment was read. -/
def readyBit : UInt8 := 0x80

/-- The word before the environment was read. -/
def initial : Settings :=
  ⟨2⟩

/-- The word that holds given settings, ready for use. -/
def pack (level : Level) (flush time : Bool) : Settings :=
  ⟨UInt8.ofNat level.number ||| readyBit ||| (if flush then flushBit else 0) |||
    (if time then timeBit else 0)⟩

/-- The level up to which messages are written. -/
def level (s : Settings) : Level :=
  .ofNumber (s.word &&& levelBits).toNat

/-- Whether every line is flushed. -/
def flush (s : Settings) : Bool :=
  s.word &&& flushBit != 0

/-- Whether lines have time stamps. -/
def time (s : Settings) : Bool :=
  s.word &&& timeBit != 0

/-- Whether the environment was read. -/
def ready (s : Settings) : Bool :=
  s.word &&& readyBit != 0

/-- Writes the level. -/
def setLevel (l : Level) (s : Settings) : Settings :=
  ⟨s.word &&& ~~~levelBits ||| UInt8.ofNat l.number⟩

/-- Writes one bit. -/
def setBit (bit : UInt8) (on : Bool) (s : Settings) : Settings :=
  ⟨if on then s.word ||| bit else s.word &&& ~~~bit⟩

/-- Writes whether lines are flushed. -/
def setFlush (on : Bool) (s : Settings) : Settings :=
  s.setBit flushBit on

/-- Writes whether lines have time stamps. -/
def setTime (on : Bool) (s : Settings) : Settings :=
  s.setBit timeBit on

/-- One setting, given by the program. -/
inductive Setter
  /-- The level up to which messages are written. -/
  | level (l : Level)
  /-- Whether every line is flushed. -/
  | flush (on : Bool)
  /-- Whether lines have time stamps. -/
  | time (on : Bool)
  deriving DecidableEq, Repr

/-- The settings with one of them given. -/
def set (s : Settings) : Setter → Settings
  | .level l => s.setLevel l
  | .flush on => s.setFlush on
  | .time on => s.setTime on

/-! ### The environment -/

/-- The settings that the environment asks for: `warn` without flushing and without time stamps
where it says nothing that can be read. -/
def ofEnvironment (env : Environment) : Settings :=
  pack (env.read Level.ofTrimmed? "BQ_LOG_LEVEL" .warn) (env.flag "BQ_FLUSH_EPRINT" false)
    (env.flag "BQ_LOG_TIME" false)

/-- The settings ready for use: read from the environment if that has not been done. -/
def prepared (env : Environment) (s : Settings) : Settings :=
  if s.ready then s else ofEnvironment env

/-! ### A setter and the readers -/

variable (l : Level) (on : Bool) (s : Settings)

theorem or_and (a b k : UInt8) : (a ||| b) &&& k = a &&& k ||| b &&& k := by
  apply UInt8.eq_of_toBitVec_eq
  ext i
  simp [Bool.and_or_distrib_right]

theorem and_not_self (a : UInt8) : a &&& ~~~a = 0 := by
  apply UInt8.eq_of_toBitVec_eq
  simp

/-- The bits of a level are those kept for it. -/
theorem number_and_levelBits : UInt8.ofNat l.number &&& levelBits = UInt8.ofNat l.number := by
  cases l <;> rfl

/-- The bits outside the level after it was written. -/
theorem and_setLevel {k : UInt8} (hk : ~~~levelBits &&& k = k) :
    (s.setLevel l).word &&& k = s.word &&& k := by
  have hlevel : UInt8.ofNat l.number &&& k = 0 := by
    rw [← number_and_levelBits, UInt8.and_assoc, ← hk, ← UInt8.and_assoc levelBits, and_not_self,
      UInt8.zero_and, UInt8.and_zero]
  rw [setLevel, or_and, UInt8.and_assoc, hk, hlevel, UInt8.or_zero]

/-- The other bits after one was written. -/
theorem and_setBit {bit k : UInt8} (hk : ~~~bit &&& k = k) :
    (s.setBit bit on).word &&& k = s.word &&& k := by
  cases on with
  | false => rw [setBit, if_neg Bool.false_ne_true, UInt8.and_assoc, hk]
  | true =>
    have hbit : bit &&& k = 0 := by
      rw [← hk, ← UInt8.and_assoc, and_not_self, UInt8.zero_and]
    rw [setBit, if_pos rfl, or_and, hbit, UInt8.or_zero]

/-- A bit after it was written. -/
theorem and_setBit_self (bit : UInt8) :
    (s.setBit bit on).word &&& bit = if on then bit else 0 := by
  cases on with
  | false =>
    rw [setBit, if_neg Bool.false_ne_true, if_neg Bool.false_ne_true, UInt8.and_assoc,
      UInt8.and_comm (~~~bit), and_not_self, UInt8.and_zero]
  | true =>
    rw [setBit, if_pos rfl, if_pos rfl, or_and, UInt8.and_self]
    apply UInt8.eq_of_toBitVec_eq
    ext i
    simp

theorem level_setLevel : (s.setLevel l).level = l := by
  have hword : (s.setLevel l).word &&& levelBits = UInt8.ofNat l.number := by
    rw [setLevel, or_and, number_and_levelBits, UInt8.and_assoc, UInt8.and_comm (~~~levelBits),
      and_not_self, UInt8.and_zero, UInt8.zero_or]
  rw [level, hword]
  cases l <;> rfl

theorem flush_setLevel : (s.setLevel l).flush = s.flush :=
  congrArg (· != 0) (and_setLevel l s (by decide))

theorem time_setLevel : (s.setLevel l).time = s.time :=
  congrArg (· != 0) (and_setLevel l s (by decide))

theorem ready_setLevel : (s.setLevel l).ready = s.ready :=
  congrArg (· != 0) (and_setLevel l s (by decide))

theorem flush_setFlush : (s.setFlush on).flush = on := by
  rw [flush, setFlush, and_setBit_self]
  cases on <;> rfl

theorem level_setFlush : (s.setFlush on).level = s.level :=
  congrArg (fun w : UInt8 => Level.ofNumber w.toNat) (and_setBit on s (by decide))

theorem time_setFlush : (s.setFlush on).time = s.time :=
  congrArg (· != 0) (and_setBit on s (by decide))

theorem ready_setFlush : (s.setFlush on).ready = s.ready :=
  congrArg (· != 0) (and_setBit on s (by decide))

theorem time_setTime : (s.setTime on).time = on := by
  rw [time, setTime, and_setBit_self]
  cases on <;> rfl

theorem level_setTime : (s.setTime on).level = s.level :=
  congrArg (fun w : UInt8 => Level.ofNumber w.toNat) (and_setBit on s (by decide))

theorem flush_setTime : (s.setTime on).flush = s.flush :=
  congrArg (· != 0) (and_setBit on s (by decide))

theorem ready_setTime : (s.setTime on).ready = s.ready :=
  congrArg (· != 0) (and_setBit on s (by decide))

theorem ready_initial : initial.ready = false := by
  decide

/-- No setter makes settings ready, or takes that from them. -/
theorem ready_set (x : Setter) : (s.set x).ready = s.ready := by
  cases x with
  | level l => exact ready_setLevel l s
  | flush on => exact ready_setFlush on s
  | time on => exact ready_setTime on s

/-! ### Packed settings -/

section

variable (flush time : Bool)

theorem level_pack : (pack l flush time).level = l := by
  cases l <;> cases flush <;> cases time <;> rfl

theorem flush_pack : (pack l flush time).flush = flush := by
  cases l <;> cases flush <;> cases time <;> rfl

theorem time_pack : (pack l flush time).time = time := by
  cases l <;> cases flush <;> cases time <;> rfl

theorem ready_pack : (pack l flush time).ready = true := by
  cases l <;> cases flush <;> cases time <;> rfl

end

end Settings

end PermitRing.Log
