import PermitRing.Proofs.Queue.Tuning
import PermitRing.Proofs.Session.Comparison

/-!
# Diagnostics do not interfere

A program may run as it is, or with everything reported that can be: it comes to the same. Two runs
of the same steps on queues that differ in their tuning are compared side by side. No operation
reads the tuning, so the queues cannot be told apart, and neither can what is done with them.

What is logged differs as the settings say. Lines are only ever added, until a report takes them
along, so it is enough to compare what is added at a time, and this is little: the messages of one
closing, of one rollback, or of one destruction. A filter that takes these from the one log to the
other takes everything that is written from the one to the other.

## Main definitions

* `Tuning.start`, `Tuning.opening` — a session at given settings, and the lines of its creation;
* `Session.Agree` — the same steps come to the same at two settings, up to what is logged.

## Main results

* `agree_of_logs` — two runs agree on their logs if they do on whatever is added to them;
* `unobtrusive` — any two settings, and which lines remain at the more reserved one.
-/

namespace PermitRing

variable {α : Type} {t t' : Tuning} {L : List Log.Line → List Log.Line → Prop}

/-! ### Settings of a run -/

/-- A session on the queue at these settings. -/
def Tuning.start (t : Tuning) (q : Queue α) : Queue.Session α :=
  { queue := q.tuned t, level := t.log.level }

/-- The lines that a thread logs as it creates a queue at these settings. -/
def Tuning.opening (t : Tuning) (d : Discipline) (c : Config) (thread : String) : List Log.Line :=
  Log.Message.lines t.log.level thread (Queue.creationMessages d (c.tuned t))

namespace Queue.Session

open Log (Line Message)

/-- The same steps on one queue come to the same at two settings, up to a relation of logs: every
report is the same, those of the steps that constructors carry out included, whether of the caller
or of threads that were roused; and so is the end. All lines that are written are related, and so
are those of each report. And whatever turns the threads take at one of the settings, they can take
them at the other, with the same history and to the same state; the log of a scene has the lines
that were logged since a turn last reported. -/
structure Agree (L : List Line → List Line → Prop) (t t' : Tuning) (q : Queue α)
    (xs : List (Step α)) : Prop where
  reports : List.Forall₂ (Report.Like Eq L) (run xs (t.start q)).1 (run xs (t'.start q)).1
  finish : (run xs (t.start q)).2.finish.Like Eq L (run xs (t'.start q)).2.finish
  lines : L (written xs (t.start q)) (written xs (t'.start q))
  turns {h : List (Event α)} {c : Scene α} (hr : Scene.Run ⟨t.start q, []⟩ h c) :
    ∃ log, L c.session.log log ∧ Scene.Run ⟨t'.start q, []⟩ h
      ⟨{ c.session with queue := c.session.queue.tuned t', level := t'.log.level, log }, c.running⟩

/-! ### What is added to a log -/

/-- The relation of logs is kept by whatever is added to them at the two settings. -/
structure Logs (α : Type) (L : List Line → List Line → Prop) (t t' : Tuning) : Prop where
  blank : L [] []
  append {log log' more more' : List Line} (h : L log log') (hm : L more more') :
    L (log ++ more) (log' ++ more')
  close (q : Queue α) (name : String) :
    L (Message.lines t.log.level name (q.tuned t).closeMessages)
      (Message.lines t'.log.level name (q.tuned t').closeMessages)
  drop (q : Queue α) (name : String) :
    L (Message.lines t.log.level name q.dropMessages)
      (Message.lines t'.log.level name q.dropMessages)
  rollback (name : String) :
    L (Message.lines t.log.level name rollbackMessages)
      (Message.lines t'.log.level name rollbackMessages)

/-- Queues that differ in their tuning, side by side. -/
def Comparison.tuned (h : Logs α L t t') : Comparison α where
  queues := Retuned t t'
  answers := Eq
  logs := L
  levels level level' := level = t.log.level ∧ level' = t'.log.level
  bisimulation := bisimulation_tuned t t'
  same _ := rfl
  info := by
    rintro _ _ ⟨r, rfl, rfl⟩
    rfl
  outline := by
    rintro _ _ ⟨r, rfl, rfl⟩
    rfl
  told ha := .inl ha.symm
  blank := h.blank
  append := h.append
  close := by
    rintro _ _ ⟨r, rfl, rfl⟩ _ _ ⟨rfl, rfl⟩
    exact h.close r
  drop := by
    rintro _ _ ⟨r, rfl, rfl⟩ _ _ ⟨rfl, rfl⟩
    exact h.drop r
  rollback := by
    rintro _ _ ⟨rfl, rfl⟩
    exact h.rollback

/-- **Runs at two settings agree** if what is added to their logs does. -/
theorem agree_of_logs (h : Logs α L t t') (q : Queue α) (xs : List (Step α)) :
    Agree L t t' q xs := by
  have hstart : (Comparison.tuned h).Sides (t.start q) (t'.start q) :=
    ⟨⟨q, rfl, rfl⟩, ⟨rfl, rfl⟩, h.blank⟩
  obtain ⟨hreports, hrun⟩ := hstart.runSteps Comparison.kept_settle mainName xs
  refine ⟨hreports, hrun.finish, hstart.written xs, fun {e c} hr => ?_⟩
  have hviews : (Comparison.tuned h).Views ⟨t.start q, []⟩ ⟨t'.start q, []⟩ := ⟨hstart, rfl⟩
  obtain ⟨⟨s', rs'⟩, hr', hs, rfl⟩ := hviews.run hr
  obtain ⟨⟨r, hq, rfl⟩, ⟨-, rfl⟩, hl⟩ := hs
  refine ⟨_, hl, ?_⟩
  rw [hq]
  exact hr'

/-! ### Logs that are filtered -/

/-- One log is the other, filtered. -/
def Filtered (keep : Line → Bool) (log log' : List Line) : Prop :=
  log' = log.filter keep

theorem Filtered.append {keep : Line → Bool} {log log' more more' : List Line}
    (h : Filtered keep log log') (hm : Filtered keep more more') :
    Filtered keep (log ++ more) (log' ++ more') := by
  obtain rfl := h
  obtain rfl := hm
  exact (List.filter_append ..).symm

/-- Logs of which nothing is asked. -/
theorem logs_any (t t' : Tuning) : Logs α (fun _ _ => True) t t' where
  blank := trivial
  append _ _ := trivial
  close _ _ := trivial
  drop _ _ := trivial
  rollback _ := trivial

/-- The lines of a level, out of those of the last one. -/
theorem logs_upTo (ht : t.log.level = .trace) (hd : t'.debugLogging = t.debugLogging) :
    Logs α (Filtered (Line.isUpTo t'.log.level)) t t' where
  blank := rfl
  append h hm := h.append hm
  close q name := by
    rw [ht, closeMessages_tuned hd q]
    exact (Message.filter_lines_upTo _ name _).symm
  drop q name := by
    rw [ht]
    exact (Message.filter_lines_upTo _ name _).symm
  rollback name := by
    rw [ht]
    exact (Message.filter_lines_upTo _ name _).symm

/-- The lines of a queue of which creation and closing go unreported, out of those of one of which
they are reported. -/
theorem logs_notice (hl : t'.log.level = t.log.level) (hd : t.debugLogging = true)
    (hd' : t'.debugLogging = false) : Logs α (Filtered fun l => !l.isNotice) t t' where
  blank := rfl
  append h hm := h.append hm
  close q name := by
    rw [hl]
    exact (filter_closeMessages hd hd' _ name q).symm
  drop q name := by
    rw [hl]
    exact (filter_dropMessages _ name q).symm
  rollback name := by
    rw [hl]
    exact (Message.filter_lines_kept (Line.isNotice_of_ne (by simp)) _).symm

/-! ### Any two settings -/

/-- **Diagnostics and tuning do not interfere.** Take any configuration, any queue in whatever
state, and any steps.

* Whether a queue is made of the configuration, and what else it is like, is the same at all
  settings; so the runs of a new queue are among those below.
* At any two settings every step has the same result and wakes the same threads, and leaves the same
  state, size, numbers of free slots and of waiters; and so has every step that a constructor
  carries out, at once or when its thread is roused. The same elements are destroyed in the same
  order. Nor do the settings decide in which turns the threads may be let run.
* Where creation and closing are reported at both settings, or at none of them, the lines of a level
  are those of the last level whose own level is at most this one, step by step and over the whole
  run.
* Where they are reported at one setting and not at the other, at one level, the lines that are
  missing are those that tell of creation and closing.
* In the text of a line only the time stamp depends on the settings. -/
theorem unobtrusive (d : Discipline) (c : Config) (order : Side → Nat → Nat) (q : Queue α)
    (xs : List (Step α)) :
    (∀ t, create (α := α) d (c.tuned t) order = (create d c order).map (Queue.tuned t)) ∧
    (∀ t t', Agree (fun _ _ => True) t t' q xs) ∧
    (∀ t t' : Tuning, t.log.level = .trace → t'.debugLogging = t.debugLogging →
      Agree (Filtered (Line.isUpTo t'.log.level)) t t' q xs ∧
      (t'.spinLimit = t.spinLimit → ∀ thread,
        Filtered (Line.isUpTo t'.log.level) (t.opening d c thread) (t'.opening d c thread))) ∧
    (∀ t t' : Tuning, t'.log.level = t.log.level → t.debugLogging = true →
      t'.debugLogging = false →
      Agree (Filtered fun l => !l.isNotice) t t' q xs ∧ ∀ thread,
        Filtered (fun l => !l.isNotice) (t.opening d c thread) (t'.opening d c thread)) ∧
    ∃ before after : Line → String, ∀ (g : Log.Settings) (stamp : String) (l : Line),
      l.render g stamp =
        before l ++ (if g.time && l.level.isSome then " " ++ stamp ++ "us" else "") ++ after l := by
  refine ⟨fun t => create_tuned t d c order, fun t t' => agree_of_logs (logs_any t t') q xs,
    fun t t' ht hd => ⟨agree_of_logs (logs_upTo ht hd) q xs, fun hs thread => ?_⟩,
    fun t t' hl hd hd' => ⟨agree_of_logs (logs_notice hl hd hd') q xs, fun thread => ?_⟩,
    Line.exists_render⟩
  · have hc : c.tuned t' = c.tuned t := by
      rw [Config.tuned, Config.tuned, hd, hs]
    rw [Tuning.opening, Tuning.opening, ht, hc]
    exact (Message.filter_lines_upTo _ thread _).symm
  · rw [Tuning.opening, Tuning.opening, hl]
    exact (filter_creationMessages hd hd' _ thread d c).symm

/-- A construction that has to wait. Its thread is roused by the pop, and its constructor closes the
queue and then fails; and another closing. -/
def affray : List (Step Nat) :=
  [.push 7 .never, .push 8 .never, .emplace (.atMost .endless) true [.close] (.failed "no"),
    .pop .never, .close]

/-- Everything is reported, with time stamps. -/
def loud : Tuning := ⟨6, true, .pack .trace false true⟩

/-- Warnings only, which are flushed. -/
def hushed : Tuning := ⟨0, true, .pack .warn true false⟩

/-- Creation and closing go unreported. -/
def discreet : Tuning := ⟨0, false, .pack .trace false false⟩

/-- What the roused thread's constructor logs is among the lines, and is let through or not as any
other line; what is destroyed in the end does not depend on whether the number is reported. -/
theorem unobtrusive_affray :
    loud.log.level = .trace ∧ hushed.debugLogging = loud.debugLogging ∧
      discreet.log.level = loud.log.level ∧ loud.debugLogging = true ∧
      discreet.debugLogging = false ∧
      ∃ q : Queue Nat,
        create .spsc { capacity := 2, discipline := .spsc } (fun _ _ => 0) = .ok q ∧
        written affray (loud.start q) =
          [⟨some .debug, "w1",
              "spsc queue closed: 1 items left to drain, 1 producers in flight", true⟩,
            ⟨some .trace, "w1", "element construction failed, slot reservation rolled back", true⟩,
            ⟨some .warn, "main", "close() called on a spsc queue that is already draining", true⟩,
            ⟨some .debug, "main", "spsc queue dropped with 1 undrained items", true⟩] ∧
        written affray (hushed.start q) =
          [⟨some .warn, "main", "close() called on a spsc queue that is already draining", true⟩] ∧
        written affray (discreet.start q) = (written affray (loud.start q)).tail ∧
        (run affray (hushed.start q)).2.finish.destroyed = [8] ∧
        (run affray (discreet.start q)).2.finish.destroyed = [8] := by
  obtain ⟨q, hq⟩ := exists_create (α := Nat) (c := { capacity := 2, discipline := .spsc }) rfl
    fun _ _ => 0
  obtain ⟨-, -, hlevel, hnotice, -⟩ := unobtrusive .spsc { capacity := 2, discipline := .spsc }
    (fun _ _ => 0) q affray
  obtain ⟨⟨-, hhushed, hhushedLines, -⟩, -⟩ := hlevel loud hushed (by decide) rfl
  obtain ⟨⟨-, hdiscreet, hdiscreetLines, -⟩, -⟩ := hnotice loud discreet (by decide) rfl rfl
  have hlines : written affray (loud.start q) =
      [⟨some .debug, "w1", "spsc queue closed: 1 items left to drain, 1 producers in flight", true⟩,
        ⟨some .trace, "w1", "element construction failed, slot reservation rolled back", true⟩,
        ⟨some .warn, "main", "close() called on a spsc queue that is already draining", true⟩,
        ⟨some .debug, "main", "spsc queue dropped with 1 undrained items", true⟩] := by
    rw [eq_of_create hq]
    decide +kernel
  have height : (run affray (loud.start q)).2.finish.destroyed = [8] := by
    rw [eq_of_create hq]
    decide +kernel
  refine ⟨by decide, rfl, by decide, rfl, rfl, q, hq, hlines, ?_, ?_, ?_, ?_⟩
  · rw [hhushedLines, hlines]
    decide +kernel
  · rw [hdiscreetLines, hlines]
    decide +kernel
  · exact hhushed.destroyed.trans height
  · exact hdiscreet.destroyed.trans height

end Queue.Session

end PermitRing
