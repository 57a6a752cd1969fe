import PermitRing.Proofs.Log.Account
import PermitRing.Proofs.Log.Effort

/-!
# No setting of the log is lost

However many threads use a log, and however their steps fall between one another, it is as if their
calls had been made one after the other, in the order in which they took effect. The environment was
read once before the first of them that looks at the word, so no setter comes too early to be heard,
and what anyone is told is what the last setter of that field gave, or else the environment, or else
the default.

What has to be excluded is a setter that goes ahead of the one plain store to the word. `Sound` does
so: a thread that changes the word stands where the word is ready, and the word is stored only where
it is not. The rest is read off the fields of the word, of which a setter changes its own.

## Main definitions

* `Access.Told` — what a task may be told, after an environment and setters;
* `Access.Consistent` — all that is promised of a log that several threads use.

## Main results

* `Access.Run.as_sequence` — calls are answered as a log answers that is called by one thread after
  the other;
* `no_setting_lost` — what is told by a log that is called in sequence, and by one that several
  threads use.
-/

namespace PermitRing.Log

open Settings

namespace Access

variable {env : Environment} {threads : List (String × List Call)} {a b : Access}
  {ds before after : List Deed} {d : Deed} {t : Nat} {spurious : Bool} {task : Task} {p : Point}
  {x : Answer}

/-! ### What is told -/

/-- What a task is told, after an environment was read and setters were given. -/
inductive Told (env : Environment) (xs : List Setter) : Task → Answer → Prop
  /-- The level. -/
  | level {l : Level} (h : Field.level.Decided env xs l) : Told env xs (.call .level) (.level l)
  /-- Whether lines are flushed. -/
  | flush {on : Bool} (h : Field.flush.Decided env xs on) : Told env xs (.call .flush) (.yes on)
  /-- A message of the level would be written if it is not `off` and not above the setting. -/
  | enabled {l setting : Level} (h : Field.level.Decided env xs setting) :
    Told env xs (.call (.enabled l)) (.yes (decide (l ≠ .off ∧ l ≤ setting)))
  /-- A message is written under the same condition. -/
  | message {m : Message} {setting : Level} (h : Field.level.Decided env xs setting) :
    Told env xs (.call (.message m)) (.yes (decide (m.level ≠ .off ∧ m.level ≤ setting)))
  /-- Whether its line has a time stamp. -/
  | stamp {l : Line} {on : Bool} (h : Field.time.Decided env xs on) :
    Told env xs (.stamp l) (.yes on)
  /-- Whether its line is flushed. -/
  | flushed {on : Bool} (h : Field.flush.Decided env xs on) : Told env xs .flush (.yes on)
  | init : Told env xs (.call .init) .done
  | set {y : Setter} : Told env xs (.call (.set y)) .done
  | enter {l : Line} : Told env xs (.enter l) .done
  | put {l : Line} {stamped : Bool} : Told env xs (.put l stamped) .done
  | leave : Told env xs .leave .done

theorem told_answer (env : Environment) (xs : List Setter) (task : Task) :
    Told env xs task (task.answer (given env xs)) := by
  cases task with
  | call c =>
    cases c with
    | init => exact .init
    | set y => exact .set
    | level => exact .level (Field.level.decided_value env xs)
    | flush => exact .flush (Field.flush.decided_value env xs)
    | enabled l =>
      rw [Task.answer, Level.passes_eq]
      exact .enabled (Field.level.decided_value env xs)
    | message m =>
      rw [Task.answer, Level.passes_eq]
      exact .message (Field.level.decided_value env xs)
  | enter l => exact .enter
  | stamp l => exact .stamp (Field.time.decided_value env xs)
  | put l stamped => exact .put
  | flush => exact .flushed (Field.flush.decided_value env xs)
  | leave => exact .leave

/-- What needs no look at the word is answered alike whatever the settings are. -/
theorem Task.answer_of_act (hf : task.first = .act) (s s' : Settings) :
    task.answer s = task.answer s' := by
  cases task with
  | call c =>
    cases c with
    | enabled l => cases l <;> first | rfl | cases hf
    | message m =>
      obtain ⟨l, text⟩ := m
      cases l <;> first | rfl | cases hf
    | init | set | level | flush => cases hf
  | enter | put | leave => rfl
  | stamp | flush => cases hf

/-- A task that looks at the word ends with a word that is ready. -/
theorem Moves.ready_of_done (h : Moves t a task p (.done x) b) (hf : task.first ≠ .act) :
    a.settings.ready = true := by
  cases h with
  | finish ho hr | answer hp ho hr | set hp ho hr => exact hr
  | act ho hact => exact absurd hact hf

/-- **What comes of a task** is told by what the setters before it made of the environment. -/
theorem Sound.answer_eq (h : Sound env ds a) (hm : Moves t a task p (.done x) b) :
    x = task.answer (given env (settersOf ds)) := by
  rw [hm.answer_eq]
  by_cases hf : task.first = .act
  · exact Task.answer_of_act hf _ _
  · rcases h.word with ⟨hn, -⟩ | ⟨-, hword, -⟩
    · rw [hm.ready_of_done hf] at hn
      cases hn
    · rw [hword, h.env]

/-- A deed of a run is a move from the state that the deeds before it lead to. -/
theorem Run.move_at (h : Run (Access.start env threads) (before ++ d :: after) a) :
    ∃ m n, Sound env before m ∧ Moves d.thread m d.task d.point d.result n := by
  obtain ⟨m, t, spurious, n, hr, hs⟩ := h.at_deed
  obtain ⟨c, tasks, n', -, -, hm, -⟩ := hr.sound.leads hs
  exact ⟨m, n', hr.sound, hm⟩

/-- The environment was read before anything is over that looks at the word, and only once. -/
theorem Run.applied_before (h : Run (Access.start env threads) (before ++ d :: after) a)
    (hd : d.result = .done x) (hf : d.task.first ≠ .act) : before.countP Deed.applies = 1 := by
  obtain ⟨m, n, hsound, hm⟩ := h.move_at
  rw [hd] at hm
  rcases hsound.word with ⟨hn, -⟩ | ⟨-, -, hcount⟩
  · rw [hm.ready_of_done hf] at hn
    cases hn
  · exact hcount

theorem Run.answer_eq (h : Run (Access.start env threads) (before ++ d :: after) a)
    (hd : d.result = .done x) : x = d.task.answer (given env (settersOf before)) := by
  obtain ⟨m, n, hsound, hm⟩ := h.move_at
  rw [hd] at hm
  exact hsound.answer_eq hm

/-! ### Calls in the order in which they take effect -/

/-- A call as one that a log carries out in one piece. -/
def Call.whole : Call → Logger.Call
  | .init => .init
  | .set (.level l) => .setLevel l
  | .set (.flush on) => .setFlush on
  | .set (.time on) => .setTime on
  | .level | .flush => .get
  | .enabled l => .enabled l
  | .message m => .message m.level m.text

/-- What a call is told of the answer of a log. -/
def Call.hears : Call → Logger.Answer → Answer
  | .level, .settings l _ => .level l
  | .flush, .settings _ on => .yes on
  | .enabled _, .enabled yes | .message _, .evaluated yes => .yes yes
  | _, _ => .done

/-- The call that is over with a deed, with the name of its thread. -/
def Deed.whole? (names : List String) (d : Deed) : Option (String × Logger.Call) :=
  match d.result with
  | .done _ => d.task.call?.map fun c => (names.getD d.thread "", c.whole)
  | .more _ => none

/-- The calls that are over, in the order in which they took effect. -/
def inOrder (names : List String) (ds : List Deed) : List (String × Logger.Call) :=
  ds.filterMap (Deed.whole? names)

theorem Call.setter?_whole (c : Call) : c.whole.setter? = (Task.call c).setter? := by
  cases c with
  | set y => cases y <;> rfl
  | init | level | flush | enabled | message => rfl

theorem Deed.setter?_whole? (names : List String) (d : Deed) :
    ((d.whole? names).bind fun c => c.2.setter?) = d.setter? := by
  rw [whole?, setter?]
  cases d.result with
  | more q => rfl
  | done x =>
    cases d.task with
    | call c => exact c.setter?_whole
    | enter | stamp | put | flush | leave => rfl

theorem settersOf_eq (names : List String) (ds : List Deed) :
    (inOrder names ds).filterMap (fun c => c.2.setter?) = settersOf ds := by
  rw [inOrder, List.filterMap_filterMap, settersOf]
  exact congrArg (List.filterMap · ds) (funext (Deed.setter?_whole? names))

/-- A log in one piece answers a call as its settings say, and writes the line of a message that
passes. -/
theorem Call.hears_whole (c : Call) (g : Logger) (name : String) :
    let x := (Task.call c).answer g.prepared.settings
    c.hears (g.call name c.whole).1 = x ∧
      (g.call name c.whole).2.1 = (passed? (c, x)).toList.map (Message.line name) := by
  cases c with
  | message m =>
    obtain ⟨hanswer, hlines⟩ := g.call_message name m.level m.text
    dsimp only [Call.whole, Task.answer]
    rw [hanswer, hlines]
    cases m.level.passes g.prepared.settings.level <;> exact ⟨rfl, rfl⟩
  | enabled l => cases l <;> exact ⟨rfl, rfl⟩
  | set y => cases y <;> exact ⟨rfl, rfl⟩
  | init | level | flush => exact ⟨rfl, rfl⟩

/-- **Every interleaving is a sequence**: a call is told what a log tells in one piece after the
calls that took effect before. -/
theorem Run.as_sequence {c : Call} (h : Run (Access.start env threads) (before ++ d :: after) a)
    (hd : d.result = .done x) (hc : d.task = .call c) (names : List String) (name : String) :
    let told := ((Logger.start env).run (inOrder names before)).call name c.whole
    x = c.hears told.1 ∧ told.2.1 = (passed? (c, x)).toList.map (Message.line name) := by
  have hx := h.answer_eq hd
  obtain ⟨hhears, hlines⟩ :=
    c.hears_whole ((Logger.start env).run (inOrder names before)) name
  rw [Logger.prepared_run, settersOf_eq, ← hc, ← hx] at hhears hlines
  exact ⟨hhears.symm, hlines⟩

/-! ### What is promised -/

/-- **The word changes** where the environment is stored, in a word that is not ready, and where a
setter takes effect, which leaves alone every field but its own. -/
theorem Sound.changes (h : Sound env ds a) (hs : a.act? t spurious = some (d, b)) :
    d.applies = true ∧ a.settings.ready = false ∧ b.settings = .ofEnvironment env ∨
      d.applies = false ∧ ∀ {β : Type} (f : Settings.Field β),
        f.value b.settings = (d.setter?.bind f.written?).getD (f.value a.settings) := by
  obtain ⟨c, tasks, m, -, -, hm, rfl⟩ := h.leads hs
  rcases hm.word with ⟨hp, -, -, hr, he⟩ | ⟨hp, ⟨hx, he⟩ | ⟨y, hx, -, he⟩⟩
  · exact .inl ⟨decide_eq_true hp, hr, h.env ▸ he⟩
  · refine .inr ⟨decide_eq_false hp, fun f => ?_⟩
    rw [he, hx]
    rfl
  · refine .inr ⟨decide_eq_false hp, fun f => ?_⟩
    rw [he, hx, f.value_set]
    rfl

/-- What is promised of a log that has got somewhere with its threads. -/
structure Consistent (env : Environment) (threads : List (String × List Call)) (ds : List Deed)
    (a : Access) : Prop where
  /-- The environment was stored once if the word is ready, and else not at all. -/
  once : ds.countP Deed.applies = if a.settings.ready then 1 else 0
  /-- It was stored before anything was over that looks at the word, setters included. -/
  first : ∀ before d after x, ds = before ++ d :: after → d.result = .done x →
    d.task.first ≠ .act → before.countP Deed.applies = 1
  /-- Whatever is over was told what the setters before it made of the environment. -/
  told : ∀ before d after x, ds = before ++ d :: after → d.result = .done x →
    Told env (settersOf before) d.task x
  /-- A call was told what a log tells in one piece, after the calls that took effect before. -/
  sequence : ∀ before d after x c, ds = before ++ d :: after → d.result = .done x →
    d.task = .call c →
    let names := threads.map Prod.fst
    let name := names.getD d.thread ""
    let whole := ((Logger.start env).run (inOrder names before)).call name c.whole
    x = c.hears whole.1 ∧ whole.2.1 = (passed? (c, x)).toList.map (Message.line name)
  /-- A word that is ready has the setting of every field that was given last. -/
  kept : a.settings.ready = true → ∀ {β : Type} (f : Settings.Field β),
    f.Decided env (settersOf ds) (f.value a.settings)
  /-- Nothing was given to a word that is not ready. -/
  untouched : a.settings.ready = false → a.settings = .initial ∧ settersOf ds = []
  /-- A step stores the environment in a word that is not ready, or changes no field but the one
  that its setter gives. -/
  changes : ∀ t spurious d b, a.act? t spurious = some (d, b) →
    d.applies = true ∧ a.settings.ready = false ∧ b.settings = .ofEnvironment env ∨
      d.applies = false ∧ ∀ {β : Type} (f : Settings.Field β),
        f.value b.settings = (d.setter?.bind f.written?).getD (f.value a.settings)
  /-- Every thread made its calls in order, and wrote the lines of the messages that passed. -/
  accounts : ∀ t name calls, threads[t]? = some (name, calls) →
    ∃ c, a.callers[t]? = some c ∧ Account name calls (pastTasks t ds) (linesBy t a.written) c
  /-- All threads can be brought to the end of their calls, -/
  finishes : ∃ es b, Run a es b ∧ b.isFinished = true
  /-- and nothing but exchanges that fail can keep them from it for ever. -/
  bounded : ∃ n, ∀ es b, Run a es b → es.countP (fun d => !d.fails) ≤ n

theorem Run.consistent (h : Run (Access.start env threads) ds a) : Consistent env threads ds a where
  once := by
    rcases h.sound.word with ⟨hr, -, hcount, -⟩ | ⟨hr, -, hcount⟩ <;> rw [hr, hcount] <;> rfl
  first before d after x hds hd hf := by
    subst hds
    exact h.applied_before hd hf
  told before d after x hds hd := by
    subst hds
    rw [h.answer_eq hd]
    exact told_answer env _ _
  sequence before d after x c hds hd hc := by
    subst hds
    exact h.as_sequence hd hc _ _
  kept hr _ f := by
    rcases h.sound.word with ⟨hn, -⟩ | ⟨-, hword, -⟩
    · rw [hr] at hn
      cases hn
    · rw [hword, h.sound.env]
      exact f.decided_value env _
  untouched hn := by
    rcases h.sound.word with ⟨-, hword, -, hsetters⟩ | ⟨hr, -⟩
    · exact ⟨hword, hsetters⟩
    · rw [hn] at hr
      cases hr
  changes t spurious d b hs := h.sound.changes hs
  accounts t name calls ht := h.account ht
  finishes := h.exists_finished
  bounded := ⟨a.work, fun es b hrun => (Nat.le_add_right _ _).trans hrun.countP_add_work_le⟩

end Access

/-- **No setting is lost.** Whatever the environment is, a log that has been called in any sequence
has the settings of the environment, changed by the setters in order: it tells those that were given
last, and writes the messages that pass. A log that several threads use does so at every moment of
every run, and the environment is read once and before anything is given. -/
theorem no_setting_lost (env : Environment) :
    (∀ (calls : List (String × Logger.Call)) (thread : String),
      let g := (Logger.start env).run calls
      let xs := calls.filterMap fun c => c.2.setter?
      g.prepared = ⟨env, given env xs⟩ ∧
        ∃ setting flush, Field.level.Decided env xs setting ∧ Field.flush.Decided env xs flush ∧
          Field.time.Decided env xs g.prepared.settings.time ∧ g.Tells thread setting flush) ∧
      ∀ (threads : List (String × List Access.Call)) (ds : List Access.Deed) (a : Access),
        Access.Run (.start env threads) ds a → Access.Consistent env threads ds a := by
  refine ⟨fun calls thread => ?_, fun threads ds a h => h.consistent⟩
  have hprepared := Logger.prepared_run env calls
  have htells := ((Logger.start env).run calls).tells_prepared thread
  rw [hprepared] at htells
  refine ⟨hprepared, _, _, Field.level.decided_value env _, Field.flush.decided_value env _, ?_,
    htells⟩
  rw [hprepared]
  exact Field.time.decided_value env _

/-- An environment that asks for more than the default, and for time stamps. -/
def talkative : Environment :=
  .ofList [("BQ_LOG_LEVEL", "Debug ".toUTF8), ("BQ_LOG_TIME", "yes".toUTF8)]

/-- Two threads that change different settings, and one that writes a message. -/
def racers : List (String × List Access.Call) :=
  [("main", [.set (.level .info), .message ⟨.debug, "dropped"⟩]),
    ("relay", [.set (.flush true), .flush, .level]),
    ("probe", [.message ⟨.debug, "early"⟩, .enabled .off])]

/-- All three find a word that is not ready, and one of them has to wait for the environment. Later
the flag is changed between the look at the word and the exchange of the level. -/
def race : List Access.Deed × Access :=
  Access.trace ([0, 1, 2, 0, 1, 0, 0, 2, 2, 2, 2, 2, 0, 0, 1, 1, 1, 0, 0, 0, 2, 2, 2, 1, 1].map
    fun t => (t, false)) (.start talkative racers)

/-- Neither setter is lost, nor the time stamps that the environment asks for, and the message is
written that came before the level was changed. -/
theorem no_setting_lost_race :
    Access.Run (.start talkative racers) race.1 race.2 ∧ race.1.any Access.Deed.fails = true ∧
      race.2.settings = .pack .info true true ∧ race.1.countP Access.Deed.applies = 1 ∧
      Field.level.Decided talkative (Access.settersOf race.1) .info ∧
      Field.flush.Decided talkative (Access.settersOf race.1) true ∧
      Field.time.Decided talkative (Access.settersOf race.1) true ∧
      Access.Account "probe" [.message ⟨.debug, "early"⟩, .enabled .off]
        (Access.pastTasks 2 race.1) [(⟨some .debug, "probe", "early", true⟩, true)]
        { name := "probe", tasks := [], answers := [.yes false, .yes true] } := by
  have hrun : Access.Run (.start talkative racers) race.1 race.2 := Access.run_trace _ _
  obtain ⟨honce, -, -, -, hkept, -, -, haccounts, -⟩ :=
    (no_setting_lost talkative).2 racers race.1 race.2 hrun
  have hword : race.2.settings = .pack .info true true := by decide +kernel
  have hlines : Access.linesBy 2 race.2.written =
      [(⟨some .debug, "probe", "early", true⟩, true)] := by decide +kernel
  have hcaller : race.2.callers[2]? =
      some { name := "probe", tasks := [], answers := [.yes false, .yes true] } := by
    decide +kernel
  obtain ⟨c, hc, haccount⟩ := haccounts 2 "probe" _ rfl
  cases hcaller.symm.trans hc
  rw [hlines] at haccount
  rw [hword] at honce hkept
  exact ⟨hrun, by decide +kernel, hword, honce, hkept rfl Field.level, hkept rfl Field.flush,
    hkept rfl Field.time, haccount⟩

end PermitRing.Log
