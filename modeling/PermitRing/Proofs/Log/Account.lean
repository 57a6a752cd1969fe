import PermitRing.Proofs.Log.Run

/-!
# What each thread has made and written

The history of a run tells of each thread which of its calls are over and what came of them. Its
account is balanced: these and the calls that it has still to make are the calls of its program, in
order, and the lines that it wrote and the one that it is about to write are those of the messages
that passed, in order, each with the time stamp that it was found to have.

Behind the task that a thread is in there are only calls, so there is never more than one line on
its way. What a task hands on to the next one, and what it leaves behind in history and stream, is
therefore all that has to be looked at: `Task.hands_on`.

## Main definitions

* `Access.pastTasks`, `Access.ended` — the tasks and the calls of a thread that are over;
* `Access.Account` — what a thread made and wrote, against its program.

## Main results

* `Access.Run.account` — in every run, every account is balanced.
-/

namespace PermitRing.Log

/-- A message as a line of a thread. -/
def Message.line (name : String) (m : Message) : Line :=
  ⟨some m.level, name, m.text, true⟩

namespace Access

variable {env : Environment} {a b : Access} {ds : List Deed} {d : Deed} {t u : Nat}
  {spurious : Bool} {task : Task} {tasks : List Task} {p q : Point} {c : Caller}
  {r : Progress Point Answer} {x : Answer} {written : List Written}

/-! ### What a history says of a thread -/

/-- A task of a thread is over, with an answer. -/
def Deed.pastTask? (t : Nat) (d : Deed) : Option (Task × Answer) :=
  match d.result with
  | .done x => if d.thread = t then some (d.task, x) else none
  | .more _ => none

/-- The tasks of a thread that are over, with their answers. -/
def pastTasks (t : Nat) (ds : List Deed) : List (Task × Answer) :=
  ds.filterMap (Deed.pastTask? t)

/-- The call that a task is. -/
def Task.call? : Task → Option Call
  | .call c => some c
  | _ => none

/-- A call that is over, with its answer. -/
def called? (e : Task × Answer) : Option (Call × Answer) :=
  e.1.call?.map fun c => (c, e.2)

/-- The calls among the tasks that are over, with their answers. -/
def ended (past : List (Task × Answer)) : List (Call × Answer) :=
  past.filterMap called?

/-- The message that a call let pass. -/
def passed? : Call × Answer → Option Message
  | (.message m, .yes true) => some m
  | _ => none

/-- A line that was found to have a time stamp, or not. -/
def stamped? : Task × Answer → Option (Line × Bool)
  | (.stamp l, .yes on) => some (l, on)
  | _ => none

/-- The lines that a thread wrote, the first one first, with time stamps or not. -/
def linesBy (t : Nat) (written : List Written) : List (Line × Bool) :=
  written.reverse.filterMap fun w => if w.thread = t then some (w.line, w.stamped) else none

/-- The line that a task is about, before it is written. -/
def Task.line? : Task → Option Line
  | .enter l | .stamp l | .put l _ => some l
  | _ => none

/-- The line that a task writes, with a time stamp or not. -/
def Task.put? : Task → Option (Line × Bool)
  | .put l on => some (l, on)
  | _ => none

/-- What a thread with a name made and wrote, against the calls of its program: the tasks that are
over, the lines that it wrote, and what it has still to do. -/
structure Account (name : String) (calls : List Call) (past : List (Task × Answer))
    (lines : List (Line × Bool)) (c : Caller) : Prop where
  called : c.name = name
  /-- The calls that are over, and those that are left. -/
  made : (ended past).map Prod.fst ++ c.tasks.filterMap Task.call? = calls
  answers : c.answers.reverse = (ended past).map Prod.snd
  /-- The lines that were written, and the one that is about to be written. -/
  wrote : lines.map Prod.fst ++ c.tasks.filterMap Task.line? =
    ((ended past).filterMap passed?).map (Message.line name)
  /-- The same with their time stamps, as soon as it is known that they have one or not. -/
  stamped : lines ++ c.tasks.filterMap Task.put? = past.filterMap stamped?
  /-- Behind the first task there are only calls. -/
  behind : ∃ rest : List Call, c.tasks.tail = rest.map .call

/-! ### What a move says of its thread -/

/-- A task in the middle writes nothing. -/
theorem Moves.written_of_more (h : Moves t a task p (.more q) b) : b.written = a.written := by
  cases h <;> rfl

/-- A task that is over has written its line. -/
theorem Moves.written_of_done (h : Moves t a task p (.done x) b) : b.written =
    (task.put?.map fun l => ⟨t, l.1, l.2⟩).toList ++ a.written := by
  cases h with
  | finish ho hr ht | set hp ho hr ht => rw [ht]; rfl
  | answer hp ho hr hx hf =>
    cases task with
    | put => exact absurd rfl hf
    | call | enter | stamp | flush | leave => rfl
  | act ho hf hb =>
    cases task with
    | put l on =>
      cases hb
      rfl
    | enter l =>
      rw [Task.act] at hb
      split at hb <;> cases hb
      rfl
    | leave =>
      cases hb
      rfl
    | call | stamp | flush =>
      cases hb
      rfl

/-- **What a task leaves to the next.** The line that it was about, or the message that it let pass,
is written or handed on, and so is the time stamp that was found. -/
theorem Task.hands_on (name : String) (s : Settings) (task : Task) :
    let x := task.answer s
    let next := task.next name x
    task.line?.toList ++ ((called? (task, x)).toList.filterMap passed?).map (Message.line name) =
        task.put?.toList.map Prod.fst ++ next.filterMap Task.line? ∧
      task.put?.toList ++ (stamped? (task, x)).toList =
        task.put?.toList ++ next.filterMap Task.put? ∧
      next.filterMap Task.call? = [] ∧ next.tail = [] := by
  cases task with
  | call c =>
    cases c with
    | message m =>
      dsimp only [Task.answer]
      cases m.level.passes s.level <;> exact ⟨rfl, rfl, rfl, rfl⟩
    | init | set | level | flush | enabled => exact ⟨rfl, rfl, rfl, rfl⟩
  | enter | stamp | put | flush | leave => exact ⟨rfl, rfl, rfl, rfl⟩

/-! ### Accounts -/

theorem pastTasks_concat (t : Nat) (ds : List Deed) (d : Deed) :
    pastTasks t (ds ++ [d]) = pastTasks t ds ++ (d.pastTask? t).toList :=
  filterMap_concat _ ds d

theorem pastTasks_concat_of_ne (ds : List Deed) (h : d.thread ≠ t) :
    pastTasks t (ds ++ [d]) = pastTasks t ds := by
  rw [pastTasks_concat, Deed.pastTask?]
  cases d.result with
  | more p => exact List.append_nil _
  | done x =>
    dsimp only
    rw [if_neg h]
    exact List.append_nil _

theorem linesBy_append (t u : Nat) (new : Option (Line × Bool)) (written : List Written) :
    linesBy u ((new.map fun l => ⟨t, l.1, l.2⟩).toList ++ written) =
      linesBy u written ++ if t = u then new.toList else [] := by
  cases new with
  | none => simp
  | some l =>
    simp only [linesBy, Option.map_some, Option.toList_some, List.reverse_append,
      List.filterMap_append, List.reverse_singleton]
    split
    next h => simp [h]
    next h => simp [h]

theorem filterMap_rest {β : Type} {f : Task → Option β} (hf : ∀ c, f (.call c) = none)
    (rest : List Call) : (rest.map Task.call).filterMap f = [] := by
  rw [List.filterMap_map, List.filterMap_eq_nil_iff]
  exact fun c _ => hf c

theorem filterMap_call?_rest (rest : List Call) :
    (rest.map Task.call).filterMap Task.call? = rest := by
  rw [List.filterMap_map]
  exact List.filterMap_some

namespace Account

variable {name : String} {calls : List Call} {past : List (Task × Answer)}
  {lines : List (Line × Bool)}

/-- A task in the middle leaves the account as it is. -/
theorem of_more (h : Account name calls past lines c) (task : Task) (tasks : List Task)
    (q : Point) : Account name calls past lines (c.after task tasks (.more q)) :=
  ⟨h.called, h.made, h.answers, h.wrote, h.stamped, h.behind⟩

/-- **A task that is over leaves the account balanced.** -/
theorem of_done (h : Account name calls past lines c) (htasks : c.tasks = task :: tasks)
    (s : Settings) :
    Account name calls (past ++ [(task, task.answer s)]) (lines ++ task.put?.toList)
      (c.after task tasks (.done (task.answer s))) := by
  -- there are only calls behind the task, so the line on its way is that of the task
  obtain ⟨rest, hrest⟩ := h.behind
  rw [htasks, List.tail_cons] at hrest
  subst hrest
  have hmade := h.made
  have hwrote := h.wrote
  have hstamped := h.stamped
  rw [htasks] at hmade hwrote hstamped
  rw [filterMap_cons, filterMap_call?_rest] at hmade
  rw [filterMap_cons, filterMap_rest fun _ => rfl, List.append_nil] at hwrote hstamped
  obtain ⟨hline, hput, hcall, htail⟩ := Task.hands_on c.name s task
  refine ⟨h.called, ?_, ?_, ?_, ?_, ?_⟩
  · have hfirst : (called? (task, task.answer s)).toList.map Prod.fst = task.call?.toList := by
      rw [called?]
      cases task.call? <;> rfl
    rw [ended, filterMap_concat, ← ended, List.map_append, hfirst, Caller.tasks_after_done,
      List.filterMap_append, hcall, List.nil_append, filterMap_call?_rest, List.append_assoc]
    exact hmade
  · rw [ended, filterMap_concat, ← ended, List.map_append, ← h.answers]
    cases task with
    | call call => exact List.reverse_cons
    | enter | stamp | put | flush | leave => exact (List.append_nil _).symm
  · rw [ended, filterMap_concat, ← ended, List.filterMap_append, List.map_append,
      List.map_append, ← hwrote, ← h.called, Caller.tasks_after_done, List.filterMap_append,
      filterMap_rest fun _ => rfl, List.append_nil, List.append_assoc, List.append_assoc, ← hline]
  · rw [filterMap_concat, ← hstamped, Caller.tasks_after_done, List.filterMap_append,
      filterMap_rest fun _ => rfl, List.append_nil, List.append_assoc, List.append_assoc, ← hput]
  · rw [Caller.tasks_after_done]
    cases hnext : task.next c.name (task.answer s) with
    | nil => exact ⟨rest.tail, List.map_tail.symm⟩
    | cons next more =>
      rw [hnext, List.tail_cons] at htail
      subst htail
      exact ⟨rest, rfl⟩

/-- A thread that has not begun has its whole program left. -/
theorem of_start (name : String) (calls : List Call) :
    Account name calls [] [] { name, tasks := calls.map .call } where
  called := rfl
  made := filterMap_call?_rest calls
  answers := rfl
  wrote := filterMap_rest (fun _ => rfl) calls
  stamped := filterMap_rest (fun _ => rfl) calls
  behind := ⟨calls.tail, List.map_tail.symm⟩

end Account

/-- **In every run, every account is balanced.** -/
theorem Run.account {threads : List (String × List Call)} {name : String} {calls : List Call}
    (h : Run (Access.start env threads) ds a) (ht : threads[t]? = some (name, calls)) :
    ∃ c, a.callers[t]? = some c ∧ Account name calls (pastTasks t ds) (linesBy t a.written) c := by
  induction h with
  | refl =>
    refine ⟨{ name, tasks := calls.map .call }, ?_, .of_start name calls⟩
    rw [Access.start, List.getElem?_map, ht, Option.map_some]
  | @step ds a b d u spurious hr hs ih =>
    obtain ⟨c, hc, haccount⟩ := ih
    obtain ⟨c', tasks, m, hc', htasks, hm, rfl⟩ := hr.sound.leads hs
    by_cases hd : d.thread = t
    · subst hd
      cases hc.symm.trans hc'
      refine ⟨_, List.getElem?_set_self (List.getElem?_eq_some_iff.mp hc).1, ?_⟩
      rw [pastTasks_concat, Deed.pastTask?]
      cases hresult : d.result with
      | more q =>
        rw [hresult] at hm
        dsimp only
        rw [hm.written_of_more, Option.toList_none, List.append_nil]
        exact haccount.of_more d.task tasks q
      | done x =>
        rw [hresult] at hm
        dsimp only
        rw [hm.written_of_done, linesBy_append, if_pos rfl, if_pos rfl, hm.answer_eq]
        exact haccount.of_done htasks a.settings
    · refine ⟨c, (List.getElem?_set_ne hd).trans hc, ?_⟩
      rw [pastTasks_concat_of_ne ds hd]
      have hlines : linesBy t m.written = linesBy t a.written := by
        cases hresult : d.result with
        | more q =>
          rw [hresult] at hm
          rw [hm.written_of_more]
        | done x =>
          rw [hresult] at hm
          rw [hm.written_of_done, linesBy_append, if_neg hd, List.append_nil]
      rw [hlines]
      exact haccount

end Access

end PermitRing.Log
