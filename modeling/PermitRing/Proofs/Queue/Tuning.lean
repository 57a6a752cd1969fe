import PermitRing.Proofs.Queue.Bisimulation

/-!
# Queues that differ in their tuning

Some of what a program may set concerns nobody but who looks at the log or at the clock: for how
many rounds a thread spins, whether creation and closing are reported, and the settings of the log.
No operation of a queue reads any of it. So an operation on a queue whose tuning was replaced is the
operation on the queue itself, with the tuning replaced afterwards, in whatever state the queue is.

What is logged does depend on it. Creation and closing may go unreported, and they are told apart
from everything else that is logged by how their lines begin.

## Main definitions

* `Tuning` — the settings that are about diagnostics and tuning;
* `Queue.tuned`, `Config.tuned` — the queue and the configuration with these settings;
* `Log.Line.isUpTo`, `Log.Line.isNotice` — which lines a setting lets through.

## Main results

* `create_tuned` — tuning does not decide whether a queue is made, nor what else it is like;
* `bisimulation_tuned` — queues that differ in their tuning cannot be told apart;
* `Message.filter_lines_upTo` — the lines of a level, out of those of the last level;
* `filter_closeMessages`, `filter_creationMessages` — the lines that go unreported.
-/

namespace PermitRing

/-! ### Settings -/

/-- The settings that are about diagnostics and tuning. -/
structure Tuning where
  /-- Rounds that a thread spins at a slot. -/
  spinLimit : Nat
  /-- Whether creation and closing are reported. -/
  debugLogging : Bool
  /-- The settings of the log: its level, flushing, and time stamps. -/
  log : Log.Settings

/-- The configuration with these settings. -/
def Config.tuned (t : Tuning) (c : Config) : Config :=
  { c with spinLimit := t.spinLimit, debugLogging := t.debugLogging }

/-! ### Lines -/

namespace Log

/-- The text begins with another one. -/
def begins (before text : String) : Bool :=
  before.toList.isPrefixOf text.toList

theorem begins_append (before after : String) : begins before (before ++ after) = true := by
  rw [begins, String.toList_append, List.isPrefixOf_iff_prefix]
  exact List.prefix_append _ _

/-- The line has a level of its own, and this is at most the given one. -/
def Line.isUpTo (level : Level) (l : Line) : Bool :=
  l.level.any fun own => decide (own ≤ level)

/-- The line tells that a queue is created or that one is closed. -/
def Line.isNotice (l : Line) : Bool :=
  l.level == some .debug && Discipline.all.any fun d =>
    begins ("creating " ++ d.name ++ " queue: capacity=") l.text ||
      begins (d.name ++ " queue closed: ") l.text

/-- The lines of a level are those of the last level that are up to it. -/
theorem Message.filter_lines_upTo (level : Level) (name : String) (ms : List Message) :
    (lines .trace name ms).filter (Line.isUpTo level) = lines level name ms := by
  rw [lines, lines, List.filter_map, List.filter_filter]
  congr 2
  funext m
  have htrace : m.level ≤ .trace := m.level.number_le_five
  by_cases hoff : m.level = .off <;>
    simp [Line.isUpTo, Level.passes, hoff, htrace]

/-- The settings decide on nothing but the time stamp in the text of a line. -/
theorem Line.exists_render : ∃ before after : Line → String, ∀ (g : Settings) (stamp : String)
    (l : Line), l.render g stamp =
      before l ++ (if g.time && l.level.isSome then " " ++ stamp ++ "us" else "") ++ after l := by
  refine ⟨fun l => (l.level.map fun level => "[bq:" ++ level.tag ++ "]").getD "",
    fun l => (l.level.map fun _ => " <" ++ l.thread ++ "> ").getD "" ++ l.text ++
      if l.ends then "\n" else "", fun g stamp ⟨level, thread, text, ends⟩ => ?_⟩
  cases level with
  | none => simp [render, String.append_assoc]
  | some level => simp [render, header, String.append_assoc]

theorem Line.isNotice_of_ne {l : Line} (h : l.level ≠ some .debug) : l.isNotice = false := by
  rw [isNotice, beq_false_of_ne h, Bool.false_and]

theorem Line.isNotice_created (d : Discipline) (name after : String) :
    isNotice ⟨some .debug, name, "creating " ++ d.name ++ " queue: capacity=" ++ after, true⟩ =
      true := by
  refine Bool.and_eq_true_iff.mpr ⟨rfl, List.any_eq_true.mpr ⟨d, ?_, ?_⟩⟩
  · cases d <;> decide
  · rw [begins_append, Bool.true_or]

theorem Line.isNotice_closed (d : Discipline) (name after : String) :
    isNotice ⟨some .debug, name, d.name ++ " queue closed: " ++ after, true⟩ = true := by
  refine Bool.and_eq_true_iff.mpr ⟨rfl, List.any_eq_true.mpr ⟨d, ?_, ?_⟩⟩
  · cases d <;> decide
  · rw [begins_append, Bool.or_true]

theorem Line.isNotice_dropped (d : Discipline) (name after : String) :
    isNotice ⟨some .debug, name, d.name ++ " queue dropped with " ++ after, true⟩ = false := by
  refine Bool.and_eq_false_imp.mpr fun _ => List.any_eq_false.mpr fun d' _ => ?_
  rw [Bool.not_eq_true, Bool.or_eq_false_iff]
  constructor
  · cases d <;> cases d' <;> simp [begins, Discipline.name, List.isPrefixOf_cons_cons]
  · cases d <;> cases d' <;> simp [begins, Discipline.name, List.isPrefixOf_cons_cons]

/-- A message that is no notice is let through. -/
theorem Message.filter_lines_kept {m : Message} {name : String}
    (h : Line.isNotice ⟨some m.level, name, m.text, true⟩ = false) (level : Level) :
    (lines level name [m]).filter (fun l => !l.isNotice) = lines level name [m] := by
  refine List.filter_eq_self.mpr fun l hl => ?_
  obtain ⟨m', hm', rfl⟩ := List.mem_map.mp hl
  rw [List.mem_singleton.mp (List.mem_filter.mp hm').1, h, Bool.not_false]

/-- A notice is held back. -/
theorem Message.filter_lines_notice {m : Message} {name : String}
    (h : Line.isNotice ⟨some m.level, name, m.text, true⟩ = true) (level : Level) :
    (lines level name [m]).filter (fun l => !l.isNotice) = [] := by
  refine List.filter_eq_nil_iff.mpr fun l hl => ?_
  obtain ⟨m', hm', rfl⟩ := List.mem_map.mp hl
  rw [List.mem_singleton.mp (List.mem_filter.mp hm').1, h, Bool.not_true]
  exact Bool.false_ne_true

end Log

namespace Queue

variable {α β : Type} {t t' : Tuning}

/-! ### Another tuning -/

/-- The queue as it would be with these settings. -/
def tuned (t : Tuning) (q : Queue α) : Queue α :=
  { q with spinLimit := t.spinLimit, debugLogging := t.debugLogging }

/-- Tuning does not decide whether a queue is made of a configuration, nor what else it is like. -/
theorem create_tuned (t : Tuning) (d : Discipline) (c : Config) (order : Side → Nat → Nat) :
    create (α := α) d (c.tuned t) order = (create d c order).map (tuned t) := by
  have hv : (c.tuned t).validate = c.validate := rfl
  have hd : (c.tuned t).discipline = c.discipline := rfl
  rw [create, create, hv, hd]
  cases c.validate with
  | error r => rfl
  | ok u =>
    dsimp only
    split <;> rfl

theorem behindGate_tuned (t : Tuning) : BehindGate (tuned (α := α) t) :=
  fun _ _ _ _ => rfl

theorem commutes_publish (t : Tuning) (v : α) : Commutes (tuned t) (publish v) := by
  rintro ⟨d, storage, tail, head, gate, isOpen, pending, spinLimit, debugLogging⟩
  rw [tuned, publish, publish]
  rcases tail.claim storage.capacity with ⟨f | i, tail⟩
  · rfl
  · dsimp only
    rcases storage.write i v with ⟨f | u, storage⟩
    · rfl
    · exact congrArg (Prod.mk _) ((behindGate_tuned t).finishProducer ⟨d, storage, tail, head,
        { gate with consume := gate.consume.release }, isOpen, pending, spinLimit, debugLogging⟩)

theorem commutes_take (t : Tuning) : Commutes (tuned (α := α) t) take := by
  rintro ⟨d, storage, tail, head, gate, isOpen, pending, spinLimit, debugLogging⟩
  rw [tuned, Queue.take, Queue.take]
  rcases head.claim storage.capacity with ⟨f | i, head⟩
  · rfl
  · dsimp only
    rcases storage.take i with ⟨f | v, storage⟩ <;> rfl

/-- The queues are the same but for their tuning. -/
def Retuned (t t' : Tuning) (q q' : Queue α) : Prop :=
  ∃ r : Queue α, q = r.tuned t ∧ q' = r.tuned t'

theorem respects_of_commutes {op : Queue α → β × Queue α} (h : ∀ t, Commutes (tuned t) op)
    (t t' : Tuning) : Respects (Retuned t t') op := by
  rintro _ _ ⟨r, rfl, rfl⟩
  rw [h t r, h t' r]
  exact ⟨rfl, _, rfl, rfl⟩

/-- **Queues that differ in their tuning cannot be told apart.** -/
theorem bisimulation_tuned (t t' : Tuning) : Bisimulation (Retuned (α := α) t t') where
  admitProducer thread wait :=
    respects_of_commutes (fun t => (behindGate_tuned t).admitProducer thread wait) t t'
  readmitProducer thread limit :=
    respects_of_commutes (fun t => (behindGate_tuned t).readmitProducer thread limit) t t'
  admitConsumer thread wait :=
    respects_of_commutes (fun t => (behindGate_tuned t).admitConsumer thread wait) t t'
  readmitConsumer thread limit :=
    respects_of_commutes (fun t => (behindGate_tuned t).readmitConsumer thread limit) t t'
  publish v := respects_of_commutes (fun t => commutes_publish t v) t t'
  take := respects_of_commutes commutes_take t t'
  abandonProducer := by
    rintro _ _ ⟨r, rfl, rfl⟩
    exact ⟨rfl, _, (behindGate_tuned t).abandonProducer r, (behindGate_tuned t').abandonProducer r⟩
  expire thread := by
    rintro _ _ ⟨r, rfl, rfl⟩
    exact ⟨rfl, _, (behindGate_tuned t).expire thread r, (behindGate_tuned t').expire thread r⟩
  close := respects_of_commutes (fun t => (behindGate_tuned t).close) t t'
  gate := by
    rintro _ _ ⟨r, rfl, rfl⟩
    rfl
  view := by
    rintro _ _ ⟨r, rfl, rfl⟩
    rfl
  drop := by
    rintro _ _ ⟨r, rfl, rfl⟩
    rfl

/-! ### What is logged -/

open Log (Message Level Line)

theorem closeMessages_tuned (h : t'.debugLogging = t.debugLogging) (q : Queue α) :
    (q.tuned t').closeMessages = (q.tuned t).closeMessages := by
  have hd : (q.tuned t').debugLogging = (q.tuned t).debugLogging := h
  rw [closeMessages, closeMessages, hd]
  rfl

/-- **Closing goes unreported**, and nothing else that it logs. -/
theorem filter_closeMessages (ht : t.debugLogging = true) (ht' : t'.debugLogging = false)
    (level : Level) (name : String) (q : Queue α) :
    (Message.lines level name (q.tuned t).closeMessages).filter (fun l => !l.isNotice) =
      Message.lines level name (q.tuned t').closeMessages := by
  have hd : (q.tuned t).debugLogging = true := ht
  have hd' : (q.tuned t').debugLogging = false := ht'
  unfold closeMessages
  rw [hd, hd', show (q.tuned t).isOpen = q.isOpen from rfl,
    show (q.tuned t').isOpen = q.isOpen from rfl]
  cases q.isOpen with
  | false => exact Message.filter_lines_kept (Line.isNotice_of_ne (by simp)) level
  | true =>
    refine Message.filter_lines_notice ?_ level
    rw [String.append_assoc, String.append_assoc, String.append_assoc]
    exact Line.isNotice_closed q.discipline name _

/-- **Creation goes unreported**, and nothing else that it logs. -/
theorem filter_creationMessages (ht : t.debugLogging = true) (ht' : t'.debugLogging = false)
    (level : Level) (name : String) (d : Discipline) (c : Config) :
    (Message.lines level name (creationMessages d (c.tuned t))).filter (fun l => !l.isNotice) =
      Message.lines level name (creationMessages d (c.tuned t')) := by
  have hd : (c.tuned t).debugLogging = true := ht
  have hd' : (c.tuned t').debugLogging = false := ht'
  unfold creationMessages
  rw [hd, hd', show (c.tuned t).validate = c.validate from rfl,
    show (c.tuned t').validate = c.validate from rfl,
    show (c.tuned t).discipline = c.discipline from rfl,
    show (c.tuned t').discipline = c.discipline from rfl]
  cases c.validate with
  | error r => exact Message.filter_lines_kept (Line.isNotice_of_ne (by simp)) level
  | ok u =>
    dsimp only
    split
    · exact Message.filter_lines_kept (Line.isNotice_of_ne (by simp)) level
    · refine Message.filter_lines_notice ?_ level
      rw [String.append_assoc, String.append_assoc]
      exact Line.isNotice_created d name _

/-- The destruction of a queue is no notice. -/
theorem filter_dropMessages (level : Level) (name : String) (q : Queue α) :
    (Message.lines level name q.dropMessages).filter (fun l => !l.isNotice) =
      Message.lines level name q.dropMessages := by
  unfold dropMessages
  dsimp only
  split
  · rfl
  · refine Message.filter_lines_kept ?_ level
    rw [String.append_assoc]
    exact Line.isNotice_dropped q.discipline name _

end Queue

end PermitRing
