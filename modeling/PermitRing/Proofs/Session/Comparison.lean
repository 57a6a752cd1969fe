import Mathlib.Data.List.Forall2
import PermitRing.Proofs.Queue.Bisimulation
import PermitRing.Proofs.Session.Ledger

/-!
# Two settled runs side by side

The same steps are carried out on two queues that cannot be told apart, and what is logged passes
two filters. Whatever is done on the one side can be done on the other, comes to the same there, and
leaves both sides alike. This holds of every single turn, so it does not matter in which order the
threads are let run; and it holds of whole steps, whose constructors carry out steps on their part.

What it is to be alike is a parameter, a `Comparison`. It says which queues cannot be told apart,
which answers and which logs count as the same, and it has to stand the little that a session does
with these: three kinds of messages are logged, and two kinds of steps ask for properties of the
queue. All other answers have to be the same.

## Main definitions

* `Report.Like`, `Ending.Like` — what shows of a run, up to relations of answers and of logs;
* `Report.lines`, `written` — the lines of a step, and of a run to its end;
* `Comparison` — what the two sides may differ in;
* `Comparison.Sides`, `Comparison.Views` — two sessions, or two scenes, that are alike.

## Main results

* `Sides.act`, `Sides.construct`, `Sides.resume` — what is done on both sides comes to the same;
* `Sides.runSteps`, `kept_settle`, `Sides.finish` — whole steps, settling, and the end of a run;
* `Sides.written` — all lines of a run;
* `Views.run` — runs of turns.
-/

namespace PermitRing.Queue

variable {α : Type}

/-! ### What shows of a run -/

/-- The reports are the same, up to relations of answers and of logs: who took the step, whether
constructors ran, what shows of the queue, and which threads returned with which answers, is all the
same; and so are the reports of the steps that constructors carried out, those of roused threads
included. -/
inductive Session.Report.Like (A : Answer α → Answer α → Prop)
    (L : List Log.Line → List Log.Line → Prop) : Session.Report α → Session.Report α → Prop
  | mk (name : String) {a a' : Answer α} (ran : Bool) {inner inner' : List (Session.Report α)}
    (view : View) (woken : List (Nat × Answer α)) {asides asides' : List (Session.Report α)}
    {log log' : List Log.Line} (ha : A a a')
    (hi : List.Forall₂ (Session.Report.Like A L) inner inner')
    (hs : List.Forall₂ (Session.Report.Like A L) asides asides') (hl : L log log') :
    Session.Report.Like A L (.mk name a ran inner view woken asides log)
      (.mk name a' ran inner' view woken asides' log')

namespace Session

/-- The ends of the runs are the same, up to relations of answers and of logs. -/
structure Ending.Like (A : Answer α → Answer α → Prop) (L : List Log.Line → List Log.Line → Prop)
    (e e' : Ending α) : Prop where
  closed : e'.closed = e.closed
  woken : e'.woken = e.woken
  asides : List.Forall₂ (Report.Like A L) e.asides e'.asides
  view : e'.view = e.view
  destroyed : e'.destroyed = e.destroyed
  log : L e.log e'.log

mutual

/-- The lines of a step, in the order in which they were written. A report takes along what was
logged since the one before it, so the steps that constructors carried out come first. -/
def Report.lines : Report α → List Log.Line
  | .mk _ _ _ inner _ _ asides log => Report.allLines inner ++ Report.allLines asides ++ log

/-- The lines of several steps. -/
def Report.allLines : List (Report α) → List Log.Line
  | [] => []
  | r :: rs => r.lines ++ Report.allLines rs

end

/-- The lines that are written in a run of steps and at its end. -/
def written (xs : List (Step α)) (s : Session α) : List Log.Line :=
  Report.allLines (run xs s).1 ++
    (Report.allLines (run xs s).2.finish.asides ++ (run xs s).2.finish.log)

end Session

/-! ### What may differ -/

/-- What two sides may differ in: a relation of queues that cannot be told apart, with what else
counts as the same. -/
structure Session.Comparison (α : Type) where
  /-- The queues cannot be told apart. -/
  queues : Queue α → Queue α → Prop
  /-- The answers count as the same. -/
  answers : Answer α → Answer α → Prop
  /-- The logs count as the same. -/
  logs : List Log.Line → List Log.Line → Prop
  /-- The levels up to which messages are logged. -/
  levels : Log.Level → Log.Level → Prop
  bisimulation : Bisimulation queues
  same (a : Answer α) : answers a a
  info {q q' : Queue α} (h : queues q q') : answers (.info q.info) (.info q'.info)
  outline {q q' : Queue α} (h : queues q q') : answers (.outline q.outline) (.outline q'.outline)
  /-- All other answers are the same. -/
  told {a a' : Answer α} (h : answers a a') :
    a' = a ∨ (∃ i i', a = .info i ∧ a' = .info i') ∨ ∃ o o', a = .outline o ∧ a' = .outline o'
  blank : logs [] []
  append {log log' more more' : List Log.Line} (h : logs log log') (hm : logs more more') :
    logs (log ++ more) (log' ++ more')
  close {q q' : Queue α} (h : queues q q') {level level' : Log.Level} (hl : levels level level')
    (name : String) : logs (Log.Message.lines level name q.closeMessages)
      (Log.Message.lines level' name q'.closeMessages)
  drop {q q' : Queue α} (h : queues q q') {level level' : Log.Level} (hl : levels level level')
    (name : String) : logs (Log.Message.lines level name q.dropMessages)
      (Log.Message.lines level' name q'.dropMessages)
  rollback {level level' : Log.Level} (hl : levels level level') (name : String) :
    logs (Log.Message.lines level name rollbackMessages)
      (Log.Message.lines level' name rollbackMessages)

namespace Session

namespace Comparison

variable (C : Comparison α) {s s' : Session α}

/-- The sessions are in the same state, up to the queue and the log. -/
inductive Sides : Session α → Session α → Prop
  | mk {s : Session α} {q' : Queue α} {level' : Log.Level} {log' : List Log.Line}
    (hq : C.queues s.queue q') (hlevel : C.levels s.level level') (hl : C.logs s.log log') :
    Sides s { s with queue := q', level := level', log := log' }

/-- The same reports have led to sides that are alike. -/
def Met (r r' : List (Report α) × Session α) : Prop :=
  List.Forall₂ (Report.Like C.answers C.logs) r.1 r'.1 ∧ C.Sides r.2 r'.2

/-- A way to let threads run that keeps two sides alike. -/
def Kept (settle : Session α → List (Report α) × Session α) : Prop :=
  ∀ s s', C.Sides s s' → C.Met (settle s) (settle s')

variable {C}

/-- What an answer adds to the history does not depend on what it tells of the queue. -/
theorem events_eq {a a' : Answer α} (h : C.answers a a') (x : Step α) :
    x.events a' = x.events a := by
  obtain rfl | ⟨i, i', rfl, rfl⟩ | ⟨o, o', rfl, rfl⟩ := C.told h <;> rfl

namespace Sides

/-- An operation comes to the same on both sides. -/
theorem op {β : Type} {op : Queue α → β × Queue α} (h : C.Sides s s')
    (hop : Respects C.queues op) {b : β} {q : Queue α} (he : op s.queue = (b, q)) :
    ∃ q', op s'.queue = (b, q') ∧ C.Sides (s.setQueue q) (s'.setQueue q') := by
  refine ⟨(op s'.queue).2, ?_⟩
  obtain ⟨hq, hlevel, hl⟩ := h
  obtain ⟨hb, hr⟩ := hop hq
  rw [he] at hb hr
  exact ⟨Prod.ext hb rfl, hr, hlevel, hl⟩

theorem say (h : C.Sides s s') {name : String} {ms ms' : List Log.Message}
    (hm : C.logs (Log.Message.lines s.level name ms) (Log.Message.lines s'.level name ms')) :
    C.Sides (s.say name ms) (s'.say name ms') := by
  obtain ⟨hq, hlevel, hl⟩ := h
  exact ⟨hq, hlevel, C.append hl hm⟩

theorem start (h : C.Sides s s') (task : Task α) : C.Sides (s.start task) (s'.start task) := by
  obtain ⟨hq, hlevel, hl⟩ := h
  exact ⟨hq, hlevel, hl⟩

theorem leave (h : C.Sides s s') (t : Nat) : C.Sides (s.leave t) (s'.leave t) := by
  obtain ⟨hq, hlevel, hl⟩ := h
  exact ⟨hq, hlevel, hl⟩

theorem finishThread (h : C.Sides s s') (t : Nat) (a : Answer α) :
    C.Sides (s.finishThread t a) (s'.finishThread t a) := by
  obtain ⟨hq, hlevel, hl⟩ := h
  exact ⟨hq, hlevel, hl⟩

theorem setTask (h : C.Sides s s') (t : Nat) (task : Task α) :
    C.Sides (s.setTask t task) (s'.setTask t task) := by
  obtain ⟨hq, hlevel, hl⟩ := h
  exact ⟨hq, hlevel, hl⟩

/-- The time limit of a thread passes on both sides, or on neither. -/
theorem elapse (h : C.Sides s s') (t : Nat) :
    Option.Rel C.Sides (s.elapse? t) (s'.elapse? t) := by
  obtain ⟨hq, hlevel, hl⟩ := h
  unfold elapse?
  by_cases hany : (s.waiting.any fun w => w.thread == t && w.task.expire?.isSome) = true
  · rw [if_pos hany, if_pos hany]
    exact .some ⟨(C.bisimulation.expire t hq).2, hlevel, hl⟩
  · rw [if_neg hany, if_neg hany]
    exact .none

theorem nextThread (h : C.Sides s s') : s'.nextThread = s.nextThread := by
  cases h
  rfl

theorem waiting (h : C.Sides s s') : s'.waiting = s.waiting := by
  cases h
  rfl

theorem size (h : C.Sides s s') : s'.queue.size = s.queue.size := by
  obtain ⟨hq, -, -⟩ := h
  exact C.bisimulation.size hq

theorem isAsleep (h : C.Sides s s') (t : Nat) : s'.isAsleep t = s.isAsleep t := by
  obtain ⟨hq, -, -⟩ := h
  rw [Session.isAsleep, Session.isAsleep, C.bisimulation.gate hq]

/-! ### Calls -/

/-- Closing comes to the same, with what is logged of it. -/
theorem close (h : C.Sides s s') (name : String) {r : Except Refusal Unit} {q : Queue α}
    (he : (s.say name s.queue.closeMessages).queue.close = (r, q)) :
    ∃ q', (s'.say name s'.queue.closeMessages).queue.close = (r, q') ∧
      C.Sides ((s.say name s.queue.closeMessages).setQueue q)
        ((s'.say name s'.queue.closeMessages).setQueue q') := by
  have hm : C.logs (Log.Message.lines s.level name s.queue.closeMessages)
      (Log.Message.lines s'.level name s'.queue.closeMessages) := by
    obtain ⟨hq, hlevel, -⟩ := h
    exact C.close hq hlevel name
  exact (h.say hm).op C.bisimulation.close he

/-- **A call** without a constructor comes to the same. -/
theorem act (h : C.Sides s s') (name : String) (x : Step α) :
    C.answers (s.act name x).1 (s'.act name x).1 ∧
      C.Sides (s.act name x).2 (s'.act name x).2 := by
  have hnext := h.nextThread
  cases x with
  | push v wait =>
    rcases he : s.queue.push s.nextThread v wait with ⟨_ | r, q⟩
    all_goals
      obtain ⟨q', he', hs⟩ := h.op (C.bisimulation.push s.nextThread v wait) he
      rw [Session.act, Session.act, hnext, he, he']
    · exact ⟨C.same _, hs.start _⟩
    · exact ⟨C.same _, hs⟩
  | pop wait =>
    rcases he : s.queue.pop s.nextThread wait with ⟨_ | r, q⟩
    all_goals
      obtain ⟨q', he', hs⟩ := h.op (C.bisimulation.pop s.nextThread wait) he
      rw [Session.act, Session.act, hnext, he, he']
    · exact ⟨C.same _, hs.start _⟩
    · exact ⟨C.same _, hs⟩
  | iter most =>
    rw [Session.act, Session.act, hnext]
    exact ⟨C.same _, h.start _⟩
  | tryIter most =>
    have hmany : ∀ n, C.answers (.values (s.queue.popMany n).1) (.values (s'.queue.popMany n).1) ∧
        C.Sides (s.setQueue (s.queue.popMany n).2) (s'.setQueue (s'.queue.popMany n).2) := by
      intro n
      obtain ⟨q', he', hs⟩ := h.op (C.bisimulation.popMany n) rfl
      rw [he']
      exact ⟨C.same _, hs⟩
    simp only [Session.act, h.size]
    exact hmany _
  | emplace wait fallible inner build => exact ⟨C.same _, h⟩
  | close =>
    rcases he : (s.say name s.queue.closeMessages).queue.close with ⟨r | u, q⟩
    all_goals
      obtain ⟨q', he', hs⟩ := h.close name he
      rw [Session.act, Session.act, he, he']
      exact ⟨C.same _, hs⟩
  | elapse t =>
    have hrel := h.elapse t
    rw [Session.act, Session.act]
    generalize s.elapse? t = o, s'.elapse? t = o' at hrel ⊢
    cases hrel with
    | none => exact ⟨C.same _, h⟩
    | some hs => exact ⟨C.same _, hs⟩
  | info =>
    refine ⟨?_, h⟩
    obtain ⟨hq, -, -⟩ := h
    exact C.info hq
  | outline =>
    refine ⟨?_, h⟩
    obtain ⟨hq, -, -⟩ := h
    exact C.outline hq

/-- **The end of a constructor** comes to the same. -/
theorem construct (h : C.Sides s s') (name : String) (build : Build α) :
    (s'.construct name build).1 = (s.construct name build).1 ∧
      C.Sides (s.construct name build).2 (s'.construct name build).2 := by
  have habandon : C.Sides (s.setQueue s.queue.abandonProducer)
      (s'.setQueue s'.queue.abandonProducer) := by
    obtain ⟨q', he', hs⟩ := h.op C.bisimulation.abandonProducer rfl
    cases he'
    exact hs
  cases build with
  | built v =>
    rcases he : s.queue.publish v with ⟨f | u, q⟩
    all_goals
      obtain ⟨q', he', hs⟩ := h.op (C.bisimulation.publish v) he
      rw [Session.construct, Session.construct, he, he']
      exact ⟨rfl, hs⟩
  | failed error =>
    have hm : C.logs (Log.Message.lines s.level name rollbackMessages)
        (Log.Message.lines s'.level name rollbackMessages) := by
      obtain ⟨-, hlevel, -⟩ := h
      exact C.rollback hlevel name
    exact ⟨rfl, habandon.say hm⟩
  | raised text => exact ⟨rfl, habandon⟩

/-! ### Threads that go on -/

theorem goOn (h : C.Sides s s') (t : Nat) (left : Option Nat) (got : List α) :
    C.Sides (s.goOn t left got) (s'.goOn t left got) := by
  unfold Session.goOn
  cases left with
  | none => exact h.setTask t _
  | some n =>
    dsimp only
    split
    · exact h.finishThread t _
    · exact h.setTask t _

variable {settle : Session α → List (Report α) × Session α} {a a' : Answer α}
  {rs rs' : List (Report α)} {r r' : List (Report α) × Session α}

theorem settled (h : C.Sides s s') (ha : C.answers a a') :
    C.answers (s.settled a).1 (s'.settled a').1 ∧
      C.Sides (s.settled a).2 (s'.settled a').2 := by
  obtain rfl | ⟨i, i', rfl, rfl⟩ | ⟨o, o', rfl, rfl⟩ := C.told ha
  · cases a' with
    | asleep t =>
      have hreturned : s'.returned = s.returned := by
        cases h
        rfl
      rw [Session.settled, Session.settled, hreturned]
      obtain ⟨hq, hlevel, hl⟩ := h
      cases s.returned.find? fun r => r.1 == t with
      | none => exact ⟨C.same _, hq, hlevel, hl⟩
      | some r => exact ⟨C.same _, hq, hlevel, hl⟩
    | _ => exact ⟨ha, h⟩
  · exact ⟨ha, h⟩
  · exact ⟨ha, h⟩

theorem report (h : C.Met r r') (ha : C.answers a a') (name : String) (ran : Bool)
    (hi : List.Forall₂ (Report.Like C.answers C.logs) rs rs') :
    (Session.report name a ran rs r).1.Like C.answers C.logs
        (Session.report name a' ran rs' r').1 ∧
      C.Sides (Session.report name a ran rs r).2 (Session.report name a' ran rs' r').2 := by
  obtain ⟨asides, s⟩ := r
  obtain ⟨asides', s'⟩ := r'
  obtain ⟨hs, hq, hlevel, hl⟩ := h
  refine ⟨?_, hq, hlevel, C.blank⟩
  rw [Session.report, Session.report, C.bisimulation.view hq]
  exact .mk name ran _ _ ha hi hs hl

/-! ### Steps -/

theorem runStep_call (hn : C.Kept settle) (name : String) {x : Step α}
    (hx : ∀ wait fallible inner build, x ≠ .emplace wait fallible inner build)
    (h : C.Sides s s') :
    (Session.runStep settle name x s).1.Like C.answers C.logs (Session.runStep settle name x s').1 ∧
      C.Sides (Session.runStep settle name x s).2 (Session.runStep settle name x s').2 := by
  obtain ⟨ha, hact⟩ := h.act name x
  obtain ⟨hasides, hs⟩ := hn _ _ hact
  obtain ⟨hsettled, hrun⟩ := hs.settled ha
  have hmet : C.Met (_, ((settle (s.act name x).2).2.settled (s.act name x).1).2)
      (_, ((settle (s'.act name x).2).2.settled (s'.act name x).1).2) := ⟨hasides, hrun⟩
  rw [runStep_of_ne hx, runStep_of_ne hx]
  exact report hmet hsettled name false .nil

mutual

/-- **A step** comes to the same. The induction is on the structure of the step. -/
theorem runStep (hn : C.Kept settle) (name : String) :
    ∀ (x : Step α) {s s' : Session α} (_ : C.Sides s s'),
    (Session.runStep settle name x s).1.Like C.answers C.logs (Session.runStep settle name x s').1 ∧
      C.Sides (Session.runStep settle name x s).2 (Session.runStep settle name x s').2
  | .emplace wait fallible inner build, s, s', h => by
    rw [Session.runStep, Session.runStep, h.nextThread]
    rcases he : s.queue.admitProducer s.nextThread wait with ⟨_ | r | u, q⟩
    all_goals
      obtain ⟨q', he', hs⟩ := h.op (C.bisimulation.admitProducer s.nextThread wait) he
      rw [he']
    · exact report (hn _ _ (hs.start _)) (C.same _) name false .nil
    · exact report (hn _ _ hs) (C.same _) name false .nil
    · obtain ⟨hrs, hinner⟩ := runSteps hn name inner hs
      obtain ⟨ha, hbuilt⟩ := hinner.construct name build
      exact report (hn _ _ hbuilt) (ha ▸ C.same _) name true hrs
  | .push v wait, s, s', h => runStep_call hn name (by simp) h
  | .pop wait, s, s', h => runStep_call hn name (by simp) h
  | .iter most, s, s', h => runStep_call hn name (by simp) h
  | .tryIter most, s, s', h => runStep_call hn name (by simp) h
  | .close, s, s', h => runStep_call hn name (by simp) h
  | .info, s, s', h => runStep_call hn name (by simp) h
  | .outline, s, s', h => runStep_call hn name (by simp) h
  | .elapse t, s, s', h => runStep_call hn name (by simp) h

/-- **Any steps.** -/
theorem runSteps (hn : C.Kept settle) (name : String) :
    ∀ (xs : List (Step α)) {s s' : Session α} (_ : C.Sides s s'),
    C.Met (Session.runSteps settle name xs s) (Session.runSteps settle name xs s')
  | [], s, s', h => ⟨.nil, h⟩
  | x :: xs, s, s', h => by
    obtain ⟨hr, hs⟩ := runStep hn name x h
    obtain ⟨hrs, hrest⟩ := runSteps hn name xs hs
    rw [Session.runSteps, Session.runSteps]
    exact ⟨.cons hr hrs, hrest⟩

end

/-! ### Settling -/

/-- **A thread that goes on** comes to the same. -/
theorem resume (hn : C.Kept settle) (h : C.Sides s s') (w : Waiting α) :
    C.Met (s.resume settle w) (s'.resume settle w) := by
  obtain ⟨t, task⟩ := w
  cases task with
  | push v limit =>
    rcases he : s.queue.resumePush t v limit with ⟨_ | r, q⟩
    all_goals
      obtain ⟨q', he', hs⟩ := h.op (C.bisimulation.resumePush t v limit) he
      simp only [Session.resume, he, he']
    · exact ⟨.nil, hs⟩
    · exact ⟨.nil, hs.finishThread t _⟩
  | pop limit =>
    rcases he : s.queue.resumePop t limit with ⟨_ | r, q⟩
    all_goals
      obtain ⟨q', he', hs⟩ := h.op (C.bisimulation.resumePop t limit) he
      simp only [Session.resume, he, he']
    · exact ⟨.nil, hs⟩
    · exact ⟨.nil, hs.finishThread t _⟩
  | iter left got =>
    by_cases hleft : left = some 0
    · subst hleft
      exact ⟨.nil, h.finishThread t _⟩
    · rw [resume_iter_eq settle s hleft, resume_iter_eq settle s' hleft]
      rcases he : s.queue.resumePop t .endless with ⟨_ | v | r | f, q⟩
      all_goals
        obtain ⟨q', he', hs⟩ := h.op (C.bisimulation.resumePop t .endless) he
        rw [he']
      · exact ⟨.nil, hs⟩
      · exact ⟨.nil, hs.goOn t left _⟩
      · exact ⟨.nil, hs.finishThread t _⟩
      · exact ⟨.nil, hs.finishThread t _⟩
  | emplace limit fallible inner build =>
    rcases he : s.queue.readmitProducer t limit with ⟨_ | r | u, q⟩
    all_goals
      obtain ⟨q', he', hs⟩ := h.op (C.bisimulation.readmitProducer t limit) he
      simp only [Session.resume, he, he']
    · exact ⟨.nil, hs⟩
    · exact ⟨.nil, hs.finishThread t _⟩
    · obtain ⟨hrs, hinner⟩ := runSteps hn (threadName t) inner (hs.leave t)
      obtain ⟨ha, hbuilt⟩ := hinner.construct (threadName t) build
      rw [ha]
      exact ⟨hrs, hbuilt.finishThread t _⟩

end Sides

theorem kept_idle : C.Kept idle :=
  fun _ _ h => ⟨.nil, h⟩

theorem kept_settleWithin (n : Nat) : C.Kept (settleWithin n) := by
  induction n with
  | zero => exact kept_idle
  | succ n ih =>
    intro s s' h
    have hrunnable : s'.runnable? = s.runnable? := by
      simp only [Session.runnable?, h.waiting, h.isAsleep]
    rw [settleWithin, settleWithin, hrunnable]
    cases s.runnable? with
    | none => exact ⟨.nil, h⟩
    | some w =>
      obtain ⟨hrs, hs⟩ := h.resume ih w
      obtain ⟨hasides, hend⟩ := ih _ _ hs
      exact ⟨List.rel_append hrs hasides, hend⟩

/-- **Settling** comes to the same. -/
theorem kept_settle : C.Kept settle := by
  intro s s' h
  have hturns : s'.turns = s.turns := by
    rw [turns, turns, callsAhead, callsAhead, h.waiting, h.size]
  rw [settle, settle, hturns]
  exact kept_settleWithin _ _ _ h

/-- **The end of a run** comes to the same. -/
theorem Sides.finish (h : C.Sides s s') : s.finish.Like C.answers C.logs s'.finish := by
  -- what is left once nobody sleeps any more
  have hend : ∀ (closed : Option Bool) {r r' : List (Report α) × Session α}, C.Met r r' →
      Ending.Like C.answers C.logs
        { closed, woken := r.2.returned, asides := r.1, view := r.2.queue.view
          destroyed := r.2.queue.drop, log := (r.2.say mainName r.2.queue.dropMessages).log }
        { closed, woken := r'.2.returned, asides := r'.1, view := r'.2.queue.view
          destroyed := r'.2.queue.drop
          log := (r'.2.say mainName r'.2.queue.dropMessages).log } := by
    rintro closed ⟨asides, t⟩ ⟨asides', t'⟩ ⟨hs, hq, hlevel, hl⟩
    exact ⟨rfl, rfl, hs, C.bisimulation.view hq, C.bisimulation.drop hq,
      C.append hl (C.drop hq hlevel mainName)⟩
  rw [Session.finish, Session.finish, h.waiting]
  cases s.waiting.isEmpty with
  | true => exact hend none (show C.Met ([], s) ([], s') from ⟨.nil, h⟩)
  | false =>
    rcases he : (s.say mainName s.queue.closeMessages).queue.close with ⟨r, q⟩
    obtain ⟨q', he', hs⟩ := h.close mainName he
    have hclosed := hend (some r.isOk) (kept_settle _ _ hs)
    simp only [Bool.false_eq_true, if_false, he, he']
    exact hclosed

/-! ### All lines of a run -/

mutual

theorem lines_of_like : ∀ {r r' : Report α}, r.Like C.answers C.logs r' →
    C.logs r.lines r'.lines
  | _, _, .mk _ _ _ _ _ hi hs hl => by
    rw [Report.lines, Report.lines]
    exact C.append (C.append (allLines_of_like hi) (allLines_of_like hs)) hl

theorem allLines_of_like : ∀ {rs rs' : List (Report α)},
    List.Forall₂ (Report.Like C.answers C.logs) rs rs' →
      C.logs (Report.allLines rs) (Report.allLines rs')
  | _, _, .nil => C.blank
  | _, _, .cons h hs => C.append (lines_of_like h) (allLines_of_like hs)

end

/-- **All lines of a run** are alike. -/
theorem Sides.written (h : C.Sides s s') (xs : List (Step α)) :
    C.logs (Session.written xs s) (Session.written xs s') := by
  obtain ⟨hreports, hrun⟩ := h.runSteps kept_settle mainName xs
  have hfinish := hrun.finish
  exact C.append (allLines_of_like hreports)
    (C.append (allLines_of_like hfinish.asides) hfinish.log)

/-! ### Turns in any order -/

theorem events_waiting (h : C.Sides s s') (w : Waiting α) :
    w.events s'.queue = w.events s.queue := by
  obtain ⟨hq, -, -⟩ := h
  obtain ⟨t, task⟩ := w
  cases task with
  | push v limit => simp only [Waiting.events, (C.bisimulation.resumePush t v limit hq).1]
  | pop limit => simp only [Waiting.events, (C.bisimulation.resumePop t limit hq).1]
  | iter left got => simp only [Waiting.events, (C.bisimulation.resumePop t .endless hq).1]
  | emplace limit fallible inner build =>
    simp only [Waiting.events, (C.bisimulation.readmitProducer t limit hq).1]

theorem begins (h : C.Sides s s') {w : Waiting α} {q' : Queue α} (hb : w.Begins s'.queue q') :
    ∃ q, w.Begins s.queue q := by
  obtain ⟨limit, fallible, inner, build, htask, he⟩ := hb
  refine ⟨(s.queue.readmitProducer w.thread limit).2, limit, fallible, inner, build, htask, ?_⟩
  obtain ⟨hq, -, -⟩ := h
  have hanswer := (C.bisimulation.readmitProducer w.thread limit hq).1
  rw [he] at hanswer
  exact Prod.ext hanswer.symm rfl

/-- The scenes are alike. -/
structure Views (C : Comparison α) (c c' : Scene α) : Prop where
  session : C.Sides c.session c'.session
  running : c'.running = c.running

namespace Views

open Scene

variable {c c₁ c' : Scene α} {e h : List (Event α)}

/-- **A turn** can be taken on both sides, and comes to the same. -/
theorem turn (hv : C.Views c c') (ht : Turn c e c₁) :
    ∃ c₁', Turn c' e c₁' ∧ C.Views c₁ c₁' := by
  obtain ⟨s', rs'⟩ := c'
  obtain ⟨hs, rfl⟩ := hv
  cases ht with
  | call name x s rs hx =>
    obtain ⟨ha, hact⟩ := hs.act name x
    refine ⟨⟨(s'.act name x).2, rs⟩, ?_, hact, rfl⟩
    exact events_eq ha x ▸ Turn.call name x s' rs hx
  | @refused s wait r q rs he =>
    obtain ⟨q', he', hq⟩ := hs.op (C.bisimulation.admitProducer _ _) he
    exact ⟨⟨s'.setQueue q', rs⟩, .refused rs (hs.nextThread ▸ he'), hq, rfl⟩
  | @parked s wait q fallible inner build rs he =>
    obtain ⟨q', he', hq⟩ := hs.op (C.bisimulation.admitProducer _ _) he
    refine ⟨⟨(s'.setQueue q').start _, rs⟩, ?_, hq.start _, rfl⟩
    have hnext : s'.nextThread = s.nextThread := hs.nextThread
    exact hnext ▸ Turn.parked fallible inner build rs (hnext ▸ he')
  | @began s wait q rs he =>
    obtain ⟨q', he', hq⟩ := hs.op (C.bisimulation.admitProducer _ _) he
    exact ⟨⟨s'.setQueue q', none :: rs⟩, .began rs (hs.nextThread ▸ he'), hq, rfl⟩
  | ended name build s t rs =>
    obtain ⟨ha, hbuilt⟩ := hs.construct name build
    have ha : (s'.construct name build).1 = (s.construct name build).1 := ha
    refine ⟨⟨(s'.construct name build).2.finishFor t (s'.construct name build).1, rs⟩,
      ha ▸ Turn.ended name build s' t rs, ?_, rfl⟩
    rw [ha]
    cases t with
    | none => exact hbuilt
    | some t => exact hbuilt.finishThread t _
  | @resumed s w rs hw ha hb =>
    refine ⟨⟨(s'.resume idle w).2, rs⟩, ?_, (hs.resume kept_idle w).2, rfl⟩
    refine events_waiting hs w ▸ Turn.resumed rs ?_ ?_ fun q' hb' => ?_
    · exact hs.waiting ▸ hw
    · exact (hs.isAsleep w.thread).trans ha
    · exact (begins hs hb').elim hb
  | @resumedInto s w q rs hw ha hb =>
    obtain ⟨limit, fallible, inner, build, htask, he⟩ := hb
    obtain ⟨q', he', hq⟩ := hs.op (C.bisimulation.readmitProducer _ _) he
    refine ⟨⟨(s'.setQueue q').leave w.thread, some w.thread :: rs⟩, ?_, hq.leave w.thread, rfl⟩
    exact .resumedInto rs (hs.waiting ▸ hw) ((hs.isAsleep w.thread).trans ha)
      ⟨limit, fallible, inner, build, htask, he'⟩
  | reported s rs =>
    obtain ⟨hq, hlevel, -⟩ := hs
    exact ⟨_, .reported _ rs, ⟨hq, hlevel, C.blank⟩, rfl⟩

/-- **A run of turns**, in whatever order the threads are let run. -/
theorem run (hv : C.Views c c') (hr : Run c h c₁) : ∃ c₁', Run c' h c₁' ∧ C.Views c₁ c₁' := by
  induction hr with
  | nil => exact ⟨c', .nil c', hv⟩
  | snoc _ hturn ih =>
    obtain ⟨c₂, hrun, hviews⟩ := ih
    obtain ⟨c₃, hturn', hviews'⟩ := hviews.turn hturn
    exact ⟨c₃, hrun.snoc hturn', hviews'⟩

end Views

end Comparison

end Session

end PermitRing.Queue
