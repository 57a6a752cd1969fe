import PermitRing.Log.Access
import PermitRing.Proofs.Histories
import PermitRing.Proofs.Log.Fields

/-!
# Runs of threads on a log

A run is any interleaving of the steps of threads that use a log. It comes with its history, the
list of its *deeds*, each of which says which thread did what. A setter changes the word in the last
step of its task, and a call that tells something about the settings has it from the word that its
last step finds, so the history of finished tasks is the order in which the calls took effect.

What a step can be depends on where its thread stands: nobody stands behind the look at the word
while the word is not ready, and only the one thread that reads the environment stands where it is
stored. `Standing` says so of every point, and `Moves` says what a step from there is. All that is
proved of runs is proved from these two.

## Main definitions

* `Access.Deed`, `Access.Run` — runs with their histories;
* `Access.Standing` — what is the case wherever a thread stands;
* `Access.Moves` — what a step can be.

## Main results

* `Access.reachable_iff` — the states of runs are the reachable ones;
* `Access.Standing.moves` — every step is a move;
* `Access.Run.sound` — in every run, threads stand where they may, and the word is what the setters
  made of the environment.
-/

namespace PermitRing.Log.Access

open Settings

/-! ### Deeds -/

/-- What a thread does in one step. -/
structure Deed where
  /-- The thread. -/
  thread : Nat
  /-- What it is about. -/
  task : Task
  /-- Where it stands. -/
  point : Point
  /-- Where it stands afterwards, or what comes of the task. -/
  result : Progress Point Answer
  deriving DecidableEq, Repr

namespace Deed

/-- The settings of the environment are stored in the word. -/
def applies (d : Deed) : Bool :=
  decide (d.point = .store)

/-- The setting that is given, if a setter takes effect. -/
def setter? (d : Deed) : Option Setter :=
  match d.result with
  | .done _ => d.task.setter?
  | .more _ => none

end Deed

/-- The settings that were given in a history, in order. -/
def settersOf (ds : List Deed) : List Setter :=
  ds.filterMap Deed.setter?

theorem settersOf_concat (ds : List Deed) (d : Deed) :
    settersOf (ds ++ [d]) = settersOf ds ++ d.setter?.toList :=
  filterMap_concat _ ds d

/-! ### Runs -/

variable {env : Environment} {start a b : Access} {ds es : List Deed} {d : Deed} {t u : Nat}
  {spurious : Bool} {task : Task} {tasks : List Task} {p q : Point} {c : Caller}
  {r : Progress Point Answer}

/-- The step of one thread, if it can take one, with what the thread does. -/
def act? (t : Nat) (spurious : Bool) (a : Access) : Option (Deed × Access) :=
  (a.callers[t]?).bind fun c =>
    match c.tasks with
    | [] => none
    | task :: tasks =>
      ((c.point.getD task.first).step t spurious task a).map fun (r, b) =>
        (⟨t, task, c.point.getD task.first, r⟩,
          { b with callers := a.callers.set t (c.after task tasks r) })

theorem map_act? (t : Nat) (spurious : Bool) (a : Access) :
    (a.act? t spurious).map Prod.snd = a.step? t spurious := by
  rw [act?, step?]
  cases a.callers[t]? with
  | none => rfl
  | some c =>
    rw [Option.bind_some, Option.bind_some]
    cases c.tasks with
    | nil => rfl
    | cons task tasks => exact Option.map_map ..

/-- The states that some sequence of steps leads to, with the deeds that lead there. -/
inductive Run (start : Access) : List Deed → Access → Prop
  /-- The state at the beginning. -/
  | refl : Run start [] start
  /-- One step further. -/
  | step {ds : List Deed} {a b : Access} {d : Deed} (t : Nat) (spurious : Bool)
    (h : Run start ds a) (hs : a.act? t spurious = some (d, b)) : Run start (ds ++ [d]) b

/-- The states of runs are the reachable ones. -/
theorem reachable_iff : Reachable start a ↔ ∃ ds, Run start ds a := by
  constructor
  · intro h
    induction h with
    | refl => exact ⟨[], .refl⟩
    | step t spurious h hs ih =>
      obtain ⟨ds, hr⟩ := ih
      rw [← map_act?] at hs
      obtain ⟨⟨d, b⟩, ha, rfl⟩ := Option.map_eq_some_iff.mp hs
      exact ⟨_, hr.step t spurious ha⟩
  · rintro ⟨ds, h⟩
    induction h with
    | refl => exact .refl
    | step t spurious h hs ih => exact ih.step t spurious (by rw [← map_act?, hs]; rfl)

theorem Run.trans (h : Run start ds a) (hb : Run a es b) : Run start (ds ++ es) b := by
  induction hb with
  | refl => rwa [List.append_nil]
  | step t spurious _ hs ih =>
    rw [← List.append_assoc]
    exact ih.step t spurious hs

/-- Every deed is done in the state that the deeds before it lead to. -/
theorem Run.at_deed {before after : List Deed} (h : Run start (before ++ d :: after) a) :
    ∃ m t spurious n, Run start before m ∧ m.act? t spurious = some (d, n) := by
  generalize hds : before ++ d :: after = ds at h
  induction h generalizing after with
  | refl => simp at hds
  | @step ds m n d' t spurious hr hs ih =>
    cases after using List.reverseRecOn with
    | nil =>
      obtain ⟨rfl, he⟩ := List.append_inj' hds rfl
      cases he
      exact ⟨m, t, spurious, n, hr, hs⟩
    | append_singleton after e =>
      rw [← List.cons_append, ← List.append_assoc] at hds
      exact ih (List.append_inj' hds rfl).1

/-- The run of a schedule; a turn in which its thread can take no step is passed over. -/
def trace : List (Nat × Bool) → Access → List Deed × Access
  | [], a => ([], a)
  | c :: cs, a =>
    match a.act? c.1 c.2 with
    | none => trace cs a
    | some (d, b) => (d :: (trace cs b).1, (trace cs b).2)

theorem run_trace (cs : List (Nat × Bool)) (a : Access) : Run a (trace cs a).1 (trace cs a).2 := by
  induction cs generalizing a with
  | nil => exact .refl
  | cons c cs ih =>
    rw [trace]
    cases hs : a.act? c.1 c.2 with
    | none => exact ih a
    | some r =>
      have hfirst : Run a [r.1] r.2 := Run.refl.step c.1 c.2 hs
      exact hfirst.trans (ih r.2)

/-- A thread that takes a step has something to do, and the step is one of its task. -/
theorem act?_cases (hs : a.act? t spurious = some (d, b)) :
    ∃ c task tasks r m, a.callers[t]? = some c ∧ c.tasks = task :: tasks ∧
      (c.point.getD task.first).step t spurious task a = some (r, m) ∧
        d = ⟨t, task, c.point.getD task.first, r⟩ ∧
        b = { m with callers := a.callers.set t (c.after task tasks r) } := by
  obtain ⟨c, hc, hs⟩ := Option.bind_eq_some_iff.mp hs
  cases htasks : c.tasks with
  | nil =>
    rw [htasks] at hs
    cases hs
  | cons task tasks =>
    rw [htasks] at hs
    obtain ⟨⟨r, m⟩, hstep, he⟩ := Option.map_eq_some_iff.mp hs
    cases he
    exact ⟨c, task, tasks, r, m, hc, htasks, hstep, rfl, rfl⟩

/-- A step of the first task of a thread is a step of the thread. -/
theorem act?_eq (hc : a.callers[t]? = some c) (htasks : c.tasks = task :: tasks)
    (hs : (c.point.getD task.first).step t spurious task a = some (r, b)) :
    a.act? t spurious = some (⟨t, task, c.point.getD task.first, r⟩,
      { b with callers := a.callers.set t (c.after task tasks r) }) := by
  rw [act?, hc, Option.bind_some, htasks]
  dsimp only
  rw [hs]
  rfl

theorem Caller.tasks_after_done (c : Caller) (task : Task) (tasks : List Task) (x : Answer) :
    (c.after task tasks (.done x)).tasks = task.next c.name x ++ tasks :=
  rfl

/-! ### Points -/

/-- A task is `init`, or looks at the word, or does without. -/
theorem Task.first_cases (task : Task) :
    task = .call .init ∨ task.first = .load ∨ task.first = .act := by
  cases task with
  | call c =>
    cases c with
    | init => exact .inl rfl
    | enabled l => cases l <;> simp [Task.first]
    | message m =>
      obtain ⟨l, text⟩ := m
      cases l <;> simp [Task.first]
    | set | level | flush => exact .inr (.inl rfl)
  | stamp | flush => exact .inr (.inl rfl)
  | enter | put | leave => exact .inr (.inr rfl)

theorem Task.setter?_eq_some_iff {x : Setter} : task.setter? = some x ↔ task = .call (.set x) := by
  constructor
  · intro h
    unfold Task.setter? at h
    split at h <;> cases h
    rfl
  · rintro rfl
    rfl

/-- What is the case wherever a thread stands in a task. -/
inductive Standing (t : Nat) (a : Access) : Task → Point → Prop
  | load {task : Task} (hf : task.first = .load) (ho : a.once ≠ .running t) :
    Standing t a task .load
  | once {task : Task} (hf : task.first ≠ .act) (ho : a.once ≠ .running t) :
    Standing t a task .once
  | store {task : Task} (hf : task.first ≠ .act) (ho : a.once = .running t)
    (hr : a.settings.ready = false) : Standing t a task .store
  | release {task : Task} (hf : task.first ≠ .act) (ho : a.once = .running t)
    (hr : a.settings.ready = true) : Standing t a task .release
  | reload {task : Task} (hf : task.first = .load) (ho : a.once ≠ .running t)
    (hr : a.settings.ready = true) : Standing t a task .reload
  | fetch {l : Level} (ho : a.once ≠ .running t) (hr : a.settings.ready = true) :
    Standing t a (.call (.set (.level l))) .fetch
  | exchange {l : Level} {seen : Settings} (ho : a.once ≠ .running t)
    (hr : a.settings.ready = true) : Standing t a (.call (.set (.level l))) (.exchange seen)
  | change {x : Setter} (ho : a.once ≠ .running t) (hr : a.settings.ready = true) :
    Standing t a (.call (.set x)) .change
  | act {task : Task} (hf : task.first = .act) (ho : a.once ≠ .running t) :
    Standing t a task .act

/-- What a step can be: what comes of it, and the log that it leaves. -/
inductive Moves (t : Nat) (a : Access) (task : Task) : Point → Progress Point Answer → Access → Prop
  /-- It goes on and changes nothing. -/
  | walk {p q : Point} (hp : p ≠ .store) (hq : Standing t a task q) : Moves t a task p (.more q) a
  /-- It begins to read the environment. -/
  | begin (ho : a.once = .idle) (hr : a.settings.ready = false) (hf : task.first ≠ .act) :
    Moves t a task .once (.more .store) { a with once := .running t }
  /-- It stores what it read from the environment. -/
  | apply (ho : a.once = .running t) (hr : a.settings.ready = false) (hf : task.first ≠ .act) :
    Moves t a task .store (.more .release) { a with settings := .ofEnvironment a.env }
  /-- It lets the others go on, and goes on itself. -/
  | release (ho : a.once = .running t) (hr : a.settings.ready = true) (hf : task.first = .load) :
    Moves t a task .release (.more .reload) { a with once := .complete }
  /-- It lets the others go on, and that was its task. -/
  | finish (ho : a.once = .running t) (hr : a.settings.ready = true) (ht : task = .call .init) :
    Moves t a task .release (.done .done) { a with once := .complete }
  /-- It has its answer. -/
  | answer {p : Point} (hp : p ≠ .store) (ho : a.once ≠ .running t)
    (hr : a.settings.ready = true) (hx : task.setter? = none) (hf : task.first ≠ .act) :
    Moves t a task p (.done (task.answer a.settings)) a
  /-- It changes the word. -/
  | set {p : Point} {x : Setter} (hp : p ≠ .store) (ho : a.once ≠ .running t)
    (hr : a.settings.ready = true) (hx : task = .call (.set x)) :
    Moves t a task p (.done .done) { a with settings := a.settings.set x }
  /-- It does what needs no look at the word. -/
  | act {b : Access} (ho : a.once ≠ .running t) (hf : task.first = .act)
    (hb : task.act t a = some b) :
    Moves t a task .act (.done (task.answer a.settings)) b

/-- A thread with a word that is ready has its answer or goes on to change it. -/
theorem moves_of_withWord (hf : task.first = .load) (ho : a.once ≠ .running t)
    (hr : a.settings.ready = true) (hp : p ≠ .store) :
    Moves t a task p (task.withWord a.settings) a := by
  rw [Task.withWord]
  split
  next l hx =>
    rw [Task.setter?_eq_some_iff] at hx
    subst hx
    exact .walk hp (.fetch ho hr)
  next x _ hx =>
    rw [Task.setter?_eq_some_iff] at hx
    subst hx
    exact .walk hp (.change ho hr)
  next hx => exact .answer hp ho hr hx (by rw [hf]; decide)

/-- A thread with a word that was read is over with `init` or loads the word again. -/
theorem whenRead_cases (hf : task.first ≠ .act) :
    task = .call .init ∧ task.whenRead = .done .done ∨
      task.first = .load ∧ task.whenRead = .more .reload := by
  rcases task.first_cases with rfl | hload | hact
  · exact .inl ⟨rfl, rfl⟩
  · refine .inr ⟨hload, ?_⟩
    unfold Task.whenRead
    split
    · cases hload
    · rfl
  · exact absurd hact hf

/-- **Every step is a move**, wherever the thread stands. -/
theorem Standing.moves (h : Standing t a task p)
    (hi : a.once = .idle → a.settings.ready = false)
    (hc : a.once = .complete → a.settings.ready = true)
    (hs : p.step t spurious task a = some (r, b)) : Moves t a task p r b := by
  cases h with
  | load hf ho =>
    cases hs
    split
    next hr => exact moves_of_withWord hf ho hr nofun
    next => exact .walk nofun (.once (by rw [hf]; decide) ho)
  | once hf ho =>
    rw [Point.step] at hs
    split at hs
    next hidle =>
      cases hs
      exact .begin hidle (hi hidle) hf
    next => cases hs
    next hcomplete =>
      cases hs
      rcases whenRead_cases hf with ⟨rfl, he⟩ | ⟨hload, he⟩
      · exact .answer nofun ho (hc hcomplete) rfl hf
      · rw [he]
        exact .walk nofun (.reload hload ho (hc hcomplete))
  | store hf ho hr =>
    cases hs
    exact .apply ho hr hf
  | release hf ho hr =>
    cases hs
    rcases whenRead_cases hf with ⟨hinit, he⟩ | ⟨hload, he⟩
    · rw [he]
      exact .finish ho hr hinit
    · rw [he]
      exact .release ho hr hload
  | reload hf ho hr =>
    cases hs
    exact moves_of_withWord hf ho hr nofun
  | fetch ho hr =>
    cases hs
    exact .walk nofun (.exchange ho hr)
  | @exchange l seen ho hr =>
    rw [Point.step] at hs
    split at hs
    next =>
      cases hs
      exact .walk nofun (.exchange ho hr)
    next hseen =>
      cases hs
      have heq : a.settings = seen := Decidable.of_not_not (not_or.mp hseen).1
      rw [← heq]
      exact .set (x := .level l) nofun ho hr rfl
  | @change x ho hr =>
    cases hs
    exact .set (x := x) nofun ho hr rfl
  | act hf ho =>
    obtain ⟨m, hm, he⟩ := Option.map_eq_some_iff.mp hs
    cases he
    exact .act ho hf hm

/-! ### What a move changes -/

/-- What needs no look at the word changes nothing but the writing of lines. -/
theorem Task.act_eq (h : task.act t a = some b) : b.env = a.env ∧ b.settings = a.settings ∧
    b.once = a.once ∧ b.callers = a.callers := by
  unfold Task.act at h
  split at h
  next =>
    split at h <;> cases h
    exact ⟨rfl, rfl, rfl, rfl⟩
  all_goals
    cases h
    exact ⟨rfl, rfl, rfl, rfl⟩

namespace Moves

theorem env_eq (h : Moves t a task p r b) : b.env = a.env := by
  cases h with
  | act ho hf hb => exact (Task.act_eq hb).1
  | walk | begin | apply | release | finish | answer | set => rfl

/-- **The word changes** where the environment is stored in it, which is before it is ready, and
where a setter takes effect, which is after that. -/
theorem word (h : Moves t a task p r b) :
    (p = .store ∧ Deed.setter? ⟨t, task, p, r⟩ = none ∧ a.once = .running t ∧
        a.settings.ready = false ∧ b.settings = .ofEnvironment a.env) ∨
      p ≠ .store ∧ (Deed.setter? ⟨t, task, p, r⟩ = none ∧ b.settings = a.settings ∨
        ∃ x, Deed.setter? ⟨t, task, p, r⟩ = some x ∧ a.settings.ready = true ∧
          b.settings = a.settings.set x) := by
  cases h with
  | walk hp => exact .inr ⟨hp, .inl ⟨rfl, rfl⟩⟩
  | begin | release => exact .inr ⟨nofun, .inl ⟨rfl, rfl⟩⟩
  | apply ho hr => exact .inl ⟨rfl, rfl, ho, hr, rfl⟩
  | finish ho hr ht => exact .inr ⟨nofun, .inl ⟨by rw [ht]; rfl, rfl⟩⟩
  | answer hp ho hr hx => exact .inr ⟨hp, .inl ⟨hx, rfl⟩⟩
  | @set p x hp ho hr hx => exact .inr ⟨hp, .inr ⟨x, by rw [hx]; rfl, hr, rfl⟩⟩
  | act ho hf hb =>
    have hx : task.setter? = none := by
      rw [Option.eq_none_iff_forall_ne_some]
      intro x hx
      rw [Task.setter?_eq_some_iff.mp hx] at hf
      cases hf
    exact .inr ⟨nofun, .inl ⟨hx, (Task.act_eq hb).2.1⟩⟩

/-- **Reading the environment** begins where nobody has begun it, and ends with a ready word. -/
theorem once (h : Moves t a task p r b) : b.once = a.once ∨
    b.settings = a.settings ∧ (a.once = .idle ∧ b.once = .running t ∧ r = .more .store ∨
      a.once = .running t ∧ a.settings.ready = true ∧ b.once = .complete) := by
  cases h with
  | begin ho => exact .inr ⟨rfl, .inl ⟨ho, rfl, rfl⟩⟩
  | release ho hr | finish ho hr => exact .inr ⟨rfl, .inr ⟨ho, hr, rfl⟩⟩
  | act ho hf hb => exact .inl (Task.act_eq hb).2.2.1
  | walk | apply | answer | set => exact .inl rfl

/-- **What comes of a task** is told by the settings that its last step finds. -/
theorem answer_eq {x : Answer} (h : Moves t a task p (.done x) b) : x = task.answer a.settings := by
  cases h with
  | finish ho hr ht | set hp ho hr ht => rw [ht]; rfl
  | answer | act => rfl

/-- While nobody has begun to read the environment, the word is not ready. -/
theorem idle (h : Moves t a task p r b) (hi : a.once = .idle → a.settings.ready = false)
    (ho : b.once = .idle) : b.settings.ready = false := by
  have hidle : a.once = .idle := by
    rcases h.once with he | ⟨-, ⟨-, he, -⟩ | ⟨-, -, he⟩⟩
    · rw [← he, ho]
    · rw [he] at ho
      cases ho
    · rw [he] at ho
      cases ho
  have hr := hi hidle
  rcases h.word with ⟨-, -, hrunning, -⟩ | ⟨-, ⟨-, he⟩ | ⟨x, -, hready, -⟩⟩
  · rw [hidle] at hrunning
    cases hrunning
  · rwa [he]
  · rw [hr] at hready
    cases hready

/-- The word stays ready. -/
theorem ready (h : Moves t a task p r b) (hr : a.settings.ready = true) :
    b.settings.ready = true := by
  rcases h.word with ⟨-, -, -, hn, -⟩ | ⟨-, ⟨-, he⟩ | ⟨x, -, -, he⟩⟩
  · rw [hn] at hr
    cases hr
  · rwa [he]
  · rwa [he, ready_set]

/-- When the environment has been read, the word is ready. -/
theorem complete (h : Moves t a task p r b) (hc : a.once = .complete → a.settings.ready = true)
    (ho : b.once = .complete) : b.settings.ready = true := by
  rcases h.once with he | ⟨-, ⟨-, he, -⟩ | ⟨-, hr, -⟩⟩
  · exact h.ready (hc (he.symm.trans ho))
  · rw [he] at ho
    cases ho
  · exact h.ready hr

end Moves

/-! ### Standing after a move -/

/-- Where a thread stands hangs on the word and on who reads the environment. -/
theorem Standing.congr (h : Standing u a task p)
    (ho : b.once = .running u ↔ a.once = .running u)
    (hr : a.settings.ready = true → b.settings.ready = true)
    (hn : a.once = .running u → b.settings.ready = a.settings.ready) : Standing u b task p := by
  cases h with
  | load hf hu => exact .load hf (mt ho.mp hu)
  | once hf hu => exact .once hf (mt ho.mp hu)
  | store hf hu hs => exact .store hf (ho.mpr hu) ((hn hu).trans hs)
  | release hf hu hs => exact .release hf (ho.mpr hu) (hr hs)
  | reload hf hu hs => exact .reload hf (mt ho.mp hu) (hr hs)
  | fetch hu hs => exact .fetch (mt ho.mp hu) (hr hs)
  | exchange hu hs => exact .exchange (mt ho.mp hu) (hr hs)
  | change hu hs => exact .change (mt ho.mp hu) (hr hs)
  | act hf hu => exact .act hf (mt ho.mp hu)

/-- A thread may begin with anything, if it is not the one that reads the environment. -/
theorem standing_first (task : Task) (ho : a.once ≠ .running t) : Standing t a task task.first := by
  rcases task.first_cases with rfl | hload | hact
  · exact .once nofun ho
  · rw [hload]
    exact .load hload ho
  · rw [hact]
    exact .act hact ho

/-- Whoever reads the environment is about to store it, or to let the others go on. -/
theorem Standing.of_running (h : Standing t a task p) (ho : a.once = .running t) :
    p = .store ∨ p = .release := by
  cases h with
  | store => exact .inl rfl
  | release => exact .inr rfl
  | load hf hu | once hf hu | reload hf hu | fetch hu | exchange hu | change hu | act hf hu =>
    exact absurd ho hu

namespace Moves

/-- A move leaves the other threads where they may stand. -/
theorem others (h : Moves t a task p r b) (hu : u ≠ t) {task' : Task}
    (hs : Standing u a task' q) : Standing u b task' q := by
  have hne : ∀ o : Once, o = .running t → o ≠ .running u := by
    rintro o rfl he
    exact hu (Once.running.inj he).symm
  refine hs.congr ?_ h.ready fun ho => ?_
  · rcases h.once with he | ⟨-, ⟨hi, hr, -⟩ | ⟨hr, -, hc⟩⟩
    · rw [he]
    · exact iff_of_false (hne _ hr) (by rw [hi]; nofun)
    · exact iff_of_false (by rw [hc]; nofun) (hne _ hr)
  · -- the word turns ready only in a step of the thread that reads the environment
    rcases h.word with ⟨-, -, hr, -⟩ | ⟨-, ⟨-, he⟩ | ⟨x, -, -, he⟩⟩
    · exact absurd ho (hne _ hr)
    · rw [he]
    · rw [he, ready_set]

/-- A move leads its thread to where it may stand. -/
theorem next (h : Moves t a task p (.more q) b) : Standing t b task q := by
  cases h with
  | walk hp hq => exact hq
  | begin ho hr hf => exact .store hf rfl hr
  | apply ho hr hf => exact .release hf ho (ready_pack _ _ _)
  | release ho hr hf => exact .reload hf nofun hr

/-- A thread whose task is over does not read the environment. -/
theorem not_running {x : Answer} (h : Moves t a task p (.done x) b) : b.once ≠ .running t := by
  cases h with
  | finish => nofun
  | answer hp ho | set hp ho => exact ho
  | act ho hf hb => rwa [(Task.act_eq hb).2.2.1]

/-- After a move, its thread stands where it may, in the same task or where another begins. -/
theorem stands_after {task' : Task} {tasks tasks' : List Task} (h : Moves t a task p r b)
    (htasks : c.tasks = task :: tasks) (h' : (c.after task tasks r).tasks = task' :: tasks') :
    Standing t b task' ((c.after task tasks r).point.getD task'.first) := by
  cases r with
  | more q =>
    cases htasks.symm.trans h'
    exact h.next
  | done x => exact standing_first task' h.not_running

end Moves

/-! ### What is the case in every run -/

/-- What is the case after a history. -/
structure Sound (env : Environment) (ds : List Deed) (a : Access) : Prop where
  env : a.env = env
  /-- The word is as it was at the beginning, or it was read once and then given by setters. -/
  word : a.settings.ready = false ∧ a.settings = .initial ∧ ds.countP Deed.applies = 0 ∧
      settersOf ds = [] ∨
    a.settings.ready = true ∧ a.settings = given a.env (settersOf ds) ∧ ds.countP Deed.applies = 1
  idle : a.once = .idle → a.settings.ready = false
  complete : a.once = .complete → a.settings.ready = true
  stands : ∀ (u : Nat) (c : Caller) (task : Task) (tasks : List Task), a.callers[u]? = some c →
    c.tasks = task :: tasks → Standing u a task (c.point.getD task.first)
  running : ∀ u, a.once = .running u → ∃ c, a.callers[u]? = some c ∧ c.tasks ≠ []

theorem start_callers {threads : List (String × List Call)} {u : Nat}
    (h : (Access.start env threads).callers[u]? = some c) : ∃ name calls,
      threads[u]? = some (name, calls) ∧ c = { name, tasks := calls.map .call } := by
  rw [Access.start, List.getElem?_map] at h
  obtain ⟨⟨name, calls⟩, hu, rfl⟩ := Option.map_eq_some_iff.mp h
  exact ⟨name, calls, hu, rfl⟩

theorem sound_start (env : Environment) (threads : List (String × List Call)) :
    Sound env [] (Access.start env threads) where
  env := rfl
  word := .inl ⟨ready_initial, rfl, rfl, rfl⟩
  idle _ := ready_initial
  complete := nofun
  stands u c task tasks hc htasks := by
    obtain ⟨name, calls, -, rfl⟩ := start_callers hc
    exact standing_first task nofun
  running _ := nofun

namespace Sound

/-- **Every deed is a move** of one thread, and the others keep what they have to do. -/
theorem leads (h : Sound env ds a) (hs : a.act? t spurious = some (d, b)) :
    ∃ c tasks m, a.callers[d.thread]? = some c ∧ c.tasks = d.task :: tasks ∧
      Moves d.thread a d.task d.point d.result m ∧
        b = { m with callers := a.callers.set d.thread (c.after d.task tasks d.result) } := by
  obtain ⟨c, task, tasks, r, m, hc, htasks, hstep, rfl, rfl⟩ := act?_cases hs
  have hmoves := (h.stands t c task tasks hc htasks).moves h.idle h.complete hstep
  exact ⟨c, tasks, m, hc, htasks, hmoves, rfl⟩

/-- **A deed keeps** what is the case after the history. -/
theorem step (h : Sound env ds a) (hs : a.act? t spurious = some (d, b)) :
    Sound env (ds ++ [d]) b := by
  obtain ⟨c, tasks, m, hc, htasks, hm, rfl⟩ := h.leads hs
  have hlt := (List.getElem?_eq_some_iff.mp hc).1
  refine ⟨hm.env_eq.trans h.env, ?_, fun ho => ?_, fun ho => ?_,
    fun u c' task' tasks' hc' htasks' => ?_, fun u ho => ?_⟩
  · rw [settersOf_concat, countP_concat, Deed.applies, hm.env_eq]
    rcases hm.word with ⟨hp, hx, -, hr, he⟩ | ⟨hp, ⟨hx, he⟩ | ⟨x, hx, hr, he⟩⟩
    · -- the environment is stored: the word was not ready, so nothing was given before
      rcases h.word with ⟨-, -, hcount, hsetters⟩ | ⟨hready, -⟩
      · refine .inr ⟨?_, ?_, ?_⟩
        · rw [he]
          exact ready_pack _ _ _
        · rw [he, hsetters, hx]
          rfl
        · rw [hcount, decide_eq_true hp]
          rfl
      · rw [hr] at hready
        cases hready
    · rw [he, hx, decide_eq_false hp, Option.toList_none, List.append_nil]
      exact h.word
    · rcases h.word with ⟨hready, -⟩ | ⟨hready, hword, hcount⟩
      · rw [hr] at hready
        cases hready
      · refine .inr ⟨?_, ?_, ?_⟩
        · rw [he, ready_set, hr]
        · rw [he, hx, Option.toList_some, given_concat, ← hword]
        · rw [hcount, decide_eq_false hp]
          rfl
  · exact hm.idle h.idle ho
  · exact hm.complete h.complete ho
  · by_cases hu : u = d.thread
    · subst hu
      rw [List.getElem?_set_self hlt] at hc'
      cases hc'
      exact (hm.stands_after htasks htasks').congr Iff.rfl id fun _ => rfl
    · rw [List.getElem?_set_ne (Ne.symm hu)] at hc'
      exact (hm.others hu (h.stands u c' task' tasks' hc' htasks')).congr Iff.rfl id fun _ => rfl
  · by_cases hu : u = d.thread
    · subst hu
      refine ⟨_, List.getElem?_set_self hlt, ?_⟩
      cases hr : d.result with
      | more q =>
        rw [Caller.after, htasks]
        nofun
      | done x =>
        rw [hr] at hm
        exact absurd ho hm.not_running
    · have hbefore : a.once = .running u := by
        rcases hm.once with he | ⟨-, ⟨-, he, -⟩ | ⟨-, -, he⟩⟩
        · exact he.symm.trans ho
        · exact absurd (Once.running.inj (ho.symm.trans he)) hu
        · exact absurd (ho.symm.trans he) nofun
      obtain ⟨c', hc', hne⟩ := h.running u hbefore
      exact ⟨c', (List.getElem?_set_ne (Ne.symm hu)).trans hc', hne⟩

end Sound

theorem Run.sound {threads : List (String × List Call)}
    (h : Run (Access.start env threads) ds a) : Sound env ds a := by
  induction h with
  | refl => exact sound_start env threads
  | step t spurious _ hs ih => exact ih.step hs

end PermitRing.Log.Access
