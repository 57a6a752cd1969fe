import PermitRing.Proofs.Log.Run
import PermitRing.Proofs.Sums

/-!
# Every call on a log comes to an end

A thread can be kept waiting in two places: where another reads the environment, and where another
writes. The one that is waited for can go on: who reads the environment waits for nobody, and who
writes waits at most for that. So as long as anything is left to do, some thread can take a step.

Every step brings its thread nearer to the end of its task, with one exception: an exchange that
fails. But it has looked at the word again, and if its thread goes on at once, it succeeds. So from
wherever a run has come, all threads can be brought to the end of their calls.

## Main definitions

* `Access.work` — a bound on the steps that are left, apart from exchanges that fail.

## Main results

* `Access.Run.countP_add_work_le` — only exchanges that fail can go on for ever;
* `Access.Run.exists_finished` — every run can be brought to an end.
-/

namespace PermitRing.Log.Access

variable {env : Environment} {start a b : Access} {ds : List Deed} {d : Deed} {t u : Nat}
  {spurious : Bool} {task : Task} {tasks : List Task} {p q : Point} {c : Caller}
  {r : Progress Point Answer} {x : Answer} {threads : List (String × List Call)}

/-! ### What is left to do -/

/-- The steps of a task that are left at a point, apart from exchanges that fail. -/
def Point.left : Point → Nat
  | .load => 7
  | .once => 6
  | .store => 5
  | .release => 4
  | .reload => 3
  | .fetch => 2
  | .exchange _ | .change | .act => 1

/-- The tasks that may come of a task, one after the other. -/
def Task.followers : Task → Nat
  | .call (.message _) => 5
  | .enter _ => 4
  | .stamp _ => 3
  | .put .. => 2
  | .flush => 1
  | .call _ | .leave => 0

/-- The steps that tasks and their followers may take. -/
def effort (tasks : List Task) : Nat :=
  (tasks.map fun task => 7 * (task.followers + 1)).sum

/-- The steps that a thread may still take. -/
def Caller.work (c : Caller) : Nat :=
  match c.tasks with
  | [] => 0
  | task :: tasks => c.point.elim 7 Point.left + 7 * task.followers + effort tasks

/-- The steps that all threads may still take. -/
def work (a : Access) : Nat :=
  (a.callers.map Caller.work).sum

theorem effort_cons (task : Task) (tasks : List Task) :
    effort (task :: tasks) = 7 * (task.followers + 1) + effort tasks := by
  rw [effort, List.map_cons, List.sum_cons, effort]

theorem effort_append (tasks tasks' : List Task) :
    effort (tasks ++ tasks') = effort tasks + effort tasks' := by
  rw [effort, List.map_append, List.sum_append, effort, effort]

theorem Point.left_pos (p : Point) : 0 < p.left := by
  cases p <;> exact Nat.zero_lt_succ _

theorem Point.left_le (p : Point) : p.left ≤ 7 := by
  cases p <;> simp [left]

/-- A thread that begins a task has no more before it than it could have. -/
theorem Point.left_getD_le (p : Option Point) (q : Point) : (p.getD q).left ≤ p.elim 7 left := by
  cases p with
  | none => exact q.left_le
  | some p => exact Nat.le_refl _

theorem Caller.work_of_none (h : c.point = none) : c.work = effort c.tasks := by
  rw [Caller.work]
  cases c.tasks with
  | nil => rfl
  | cons task tasks =>
    dsimp only
    rw [h, effort_cons, Option.elim_none, Nat.mul_succ, Nat.add_comm 7]

theorem effort_next_le (name : String) (task : Task) (x : Answer) :
    effort (task.next name x) ≤ 7 * task.followers := by
  unfold Task.next
  split <;> simp [effort, Task.followers]

/-- A task that is over leaves less to do. -/
theorem Caller.work_done_lt (h : c.tasks = task :: tasks) (x : Answer) :
    (c.after task tasks (.done x)).work < c.work := by
  have hafter : (c.after task tasks (.done x)).work =
      effort (task.next c.name x) + effort tasks := by
    rw [Caller.work_of_none rfl]
    exact effort_append _ _
  have hnext := effort_next_le c.name task x
  have hpos : 0 < c.point.elim 7 Point.left := by
    cases c.point with
    | none => exact Nat.zero_lt_succ 6
    | some p => exact p.left_pos
  rw [hafter, Caller.work, h]
  dsimp only
  omega

/-- In the middle of a task, what is left is told by the point. -/
theorem Caller.work_more (h : c.tasks = task :: tasks) (q : Point) :
    (c.after task tasks (.more q)).work + c.point.elim 7 Point.left = c.work + q.left := by
  simp only [Caller.work, Caller.after, h, Option.elim_some]
  omega

/-- **A step within a task** leads nearer to its end, unless it is an exchange that fails. -/
theorem Point.left_of_step (hs : p.step t spurious task a = some (.more q, b)) :
    q.left < p.left ∨ ∃ seen, p = .exchange seen ∧ (a.settings ≠ seen ∨ spurious = true) ∧
      q = .exchange a.settings ∧ b = a := by
  have hword : task.withWord a.settings = .more q → q.left < Point.reload.left := by
    intro h
    unfold Task.withWord at h
    split at h <;> cases h <;> decide
  have hread : task.whenRead = .more q → q.left < Point.release.left := by
    intro h
    unfold Task.whenRead at h
    split at h <;> cases h
    decide
  cases p with
  | load =>
    left
    simp only [Point.step, Option.some.injEq, Prod.mk.injEq] at hs
    obtain ⟨hq, -⟩ := hs
    split at hq
    · exact (hword hq).trans (by decide)
    · cases hq
      decide
  | once =>
    left
    rw [Point.step] at hs
    split at hs <;> simp only [Option.some.injEq, Prod.mk.injEq, reduceCtorEq] at hs
    · obtain ⟨hq, -⟩ := hs
      cases hq
      decide
    · exact (hread hs.1).trans (by decide)
  | store =>
    left
    cases hs
    decide
  | release =>
    left
    simp only [Point.step, Option.some.injEq, Prod.mk.injEq] at hs
    exact hread hs.1
  | reload =>
    left
    simp only [Point.step, Option.some.injEq, Prod.mk.injEq] at hs
    exact hword hs.1
  | fetch =>
    left
    cases hs
    exact Nat.lt_succ_self 1
  | exchange seen =>
    rw [Point.step] at hs
    split at hs
    next hfails =>
      cases hs
      exact .inr ⟨seen, rfl, hfails, rfl, rfl⟩
    next => cases hs
  | change => cases hs
  | act =>
    obtain ⟨m, -, he⟩ := Option.map_eq_some_iff.mp hs
    cases he

/-! ### Nobody waits for ever -/

/-- A task of the thread whose turn it is to write. -/
def Task.writes : Task → Bool
  | .stamp _ | .put .. | .flush | .leave => true
  | .call _ | .enter _ => false

/-- What a task does to the turn to write. -/
theorem Task.writer_of_act (h : task.act t a = some b) : b.writer = a.writer ∧ task ≠ .leave ∨
    a.writer = none ∧ b.writer = some t ∧ (∃ l, task = .enter l) ∨ b.writer = none := by
  cases task with
  | enter l =>
    rw [Task.act] at h
    split at h
    next hw =>
      cases h
      exact .inr (.inl ⟨hw, rfl, l, rfl⟩)
    next => cases h
  | leave =>
    cases h
    exact .inr (.inr rfl)
  | call | stamp | put | flush =>
    cases h
    exact .inl ⟨rfl, nofun⟩

/-- **The turn to write** is kept by a move, taken by a thread that waited for it, or given up. -/
theorem Moves.writer (h : Moves t a task p r b) :
    b.writer = a.writer ∧ (task ≠ .leave ∨ ∃ q, r = .more q) ∨
      a.writer = none ∧ b.writer = some t ∧ (∃ l, task = .enter l) ∧ r = .done .done ∨
        b.writer = none := by
  cases h with
  | walk => exact .inl ⟨rfl, .inr ⟨_, rfl⟩⟩
  | begin | apply | release => exact .inl ⟨rfl, .inr ⟨_, rfl⟩⟩
  | finish ho hr ht | set hp ho hr ht => exact .inl ⟨rfl, .inl (by rw [ht]; nofun)⟩
  | answer hp ho hr hx hf =>
    refine .inl ⟨rfl, .inl ?_⟩
    rintro rfl
    exact hf rfl
  | act ho hf hb =>
    rcases Task.writer_of_act hb with ⟨he, hne⟩ | ⟨hn, hw, l, rfl⟩ | hn
    · exact .inl ⟨he, .inl hne⟩
    · exact .inr (.inl ⟨hn, hw, ⟨l, rfl⟩, rfl⟩)
    · exact .inr (.inr hn)

/-- The thread whose turn it is to write is at it. -/
def HasWriter (a : Access) : Prop :=
  ∀ w, a.writer = some w → ∃ c task tasks,
    a.callers[w]? = some c ∧ c.tasks = task :: tasks ∧ task.writes = true

/-- Whoever writes goes on to write, up to the last of these tasks. -/
theorem Task.next_writes (name : String) (s : Settings) (hw : task.writes = true)
    (hne : task ≠ .leave) :
    ∃ next, task.next name (task.answer s) = [next] ∧ next.writes = true := by
  cases task with
  | stamp | put | flush => exact ⟨_, rfl, rfl⟩
  | leave => exact absurd rfl hne
  | call | enter => cases hw

theorem HasWriter.step (h : HasWriter a) (hsound : Sound env ds a)
    (hs : a.act? t spurious = some (d, b)) : HasWriter b := by
  obtain ⟨c, tasks, m, hc, htasks, hm, rfl⟩ := hsound.leads hs
  have hlt := (List.getElem?_eq_some_iff.mp hc).1
  intro w hw
  by_cases hwt : w = d.thread
  · subst hwt
    rcases hm.writer with ⟨he, hgoes⟩ | ⟨-, -, ⟨l, htask⟩, hr⟩ | hn
    · obtain ⟨c', task', tasks', hc', htasks', hwrites⟩ := h d.thread (he.symm.trans hw)
      cases hc.symm.trans hc'
      cases htasks.symm.trans htasks'
      cases hresult : d.result with
      | more q => exact ⟨_, _, _, List.getElem?_set_self hlt, htasks, hwrites⟩
      | done x =>
        rw [hresult] at hm hgoes
        have hne : d.task ≠ .leave := hgoes.resolve_right nofun
        obtain ⟨next, hnext, hwrites'⟩ := Task.next_writes c.name a.settings hwrites hne
        refine ⟨_, next, tasks, List.getElem?_set_self hlt, ?_, hwrites'⟩
        rw [Caller.tasks_after_done, hm.answer_eq, hnext]
        rfl
    · refine ⟨_, .stamp l, tasks, List.getElem?_set_self hlt, ?_, rfl⟩
      rw [hr, Caller.tasks_after_done, htask]
      rfl
    · exact absurd (hn.symm.trans hw) nofun
  · have hbefore : a.writer = some w := by
      rcases hm.writer with ⟨he, -⟩ | ⟨-, he, -⟩ | hn
      · exact he.symm.trans hw
      · exact absurd (Option.some.inj (hw.symm.trans he)) hwt
      · exact absurd (hn.symm.trans hw) nofun
    obtain ⟨c', task', tasks', hc', htasks', hwrites⟩ := h w hbefore
    exact ⟨c', task', tasks', (List.getElem?_set_ne (Ne.symm hwt)).trans hc', htasks', hwrites⟩

theorem Run.hasWriter (h : Run (Access.start env threads) ds a) : HasWriter a := by
  induction h with
  | refl => exact nofun
  | step t spurious hr hs ih => exact ih.step hr.sound hs

/-- Only a thread that waits for its turn to write cannot do what needs no look at the word. -/
theorem Task.exists_act (t : Nat) (hw : a.writer = none ∨ task.writes = true) :
    ∃ b, task.act t a = some b := by
  cases task with
  | enter l => exact ⟨_, if_pos (hw.resolve_right nofun)⟩
  | call | stamp | put | flush | leave => exact ⟨_, rfl⟩

/-- A thread can take a step where nobody reads the environment, if it is its turn to write or it is
nobody's. -/
theorem Point.exists_step (p : Point) (t : Nat) (ho : ∀ u, a.once ≠ .running u)
    (hw : a.writer = none ∨ task.writes = true) :
    ∃ r b, p.step t false task a = some (r, b) := by
  cases p with
  | once =>
    cases honce : a.once with
    | running u => exact absurd honce (ho u)
    | idle | complete => exact ⟨_, _, by rw [Point.step, honce]⟩
  | exchange seen =>
    by_cases hfails : a.settings ≠ seen ∨ false = true
    · exact ⟨_, _, if_pos hfails⟩
    · exact ⟨_, _, if_neg hfails⟩
  | act =>
    obtain ⟨b, hb⟩ := task.exists_act t hw
    exact ⟨_, b, by rw [Point.step, hb, Option.map_some]⟩
  | load | store | release | reload | fetch | change => exact ⟨_, _, rfl⟩

/-- **As long as anything is left to do, some thread can take a step**: the one that reads the
environment, or else the one that writes, or else any. -/
theorem Run.exists_step (h : Run (Access.start env threads) ds a) (hf : a.isFinished = false) :
    ∃ t d b, a.act? t false = some (d, b) := by
  by_cases ho : ∃ u, a.once = .running u
  · obtain ⟨u, ho⟩ := ho
    obtain ⟨c, hc, hne⟩ := h.sound.running u ho
    obtain ⟨task, tasks, htasks⟩ := List.exists_cons_of_ne_nil hne
    refine ⟨u, ?_⟩
    rcases (h.sound.stands u c task tasks hc htasks).of_running ho with hp | hp
    all_goals exact ⟨_, _, act?_eq hc htasks (by rw [hp]; rfl)⟩
  · rw [not_exists] at ho
    cases hw : a.writer with
    | some w =>
      obtain ⟨c, task, tasks, hc, htasks, hwrites⟩ := h.hasWriter w hw
      obtain ⟨r, b, hs⟩ := (c.point.getD task.first).exists_step w ho (.inr hwrites)
      exact ⟨w, _, _, act?_eq hc htasks hs⟩
    | none =>
      obtain ⟨c, hmem, hc⟩ := List.all_eq_false.mp hf
      obtain ⟨t, ht⟩ := List.mem_iff_getElem?.mp hmem
      obtain ⟨task, tasks, htasks⟩ := List.exists_cons_of_ne_nil (List.isEmpty_iff.not.mp hc)
      obtain ⟨r, b, hs⟩ := (c.point.getD task.first).exists_step t ho (.inl hw)
      exact ⟨t, _, _, act?_eq ht htasks hs⟩

/-! ### Every run can be brought to an end -/

/-- The work of all threads changes by that of the thread that takes the step. -/
theorem work_set {c' : Caller} (hc : a.callers[t]? = some c)
    (hb : b.callers = a.callers.set t c') : b.work + c.work = a.work + c'.work := by
  rw [work, hb, sum_map_set hc Caller.work c', work, sum_map_eq_add hc Caller.work]
  omega

/-- A deed is an exchange that fails. -/
def Deed.fails (d : Deed) : Bool :=
  match d.point, d.result with
  | .exchange _, .more _ => true
  | _, _ => false

theorem Deed.fails_of_done (h : d.result = .done x) : d.fails = false := by
  rw [fails, h]
  cases d.point <;> rfl

/-- **A step leaves less to do**, or else it is an exchange that fails and leaves as much as there
was, but its thread has seen the word as it is now. -/
theorem work_of_act? (hs : a.act? t spurious = some (d, b)) : b.work < a.work ∨
    b.work ≤ a.work ∧ d.fails = true ∧ ∃ c task tasks, b.callers[t]? = some c ∧
      c.tasks = task :: tasks ∧ c.point = some (.exchange b.settings) := by
  obtain ⟨c, task, tasks, r, m, hc, htasks, hstep, rfl, hb⟩ := act?_cases hs
  have hcallers : b.callers = a.callers.set t (c.after task tasks r) := by rw [hb]
  have hsum := work_set hc hcallers
  cases r with
  | done x =>
    have hlt := Caller.work_done_lt htasks x
    exact .inl (by omega)
  | more q =>
    have hmore := Caller.work_more htasks q
    have hleft := Point.left_getD_le c.point task.first
    rcases Point.left_of_step hstep with hlt | ⟨seen, hp, -, hq, hm⟩
    · exact .inl (by omega)
    · have hsame : q.left = (c.point.getD task.first).left := by rw [hq, hp]; rfl
      have hfails : Deed.fails ⟨t, task, c.point.getD task.first, .more q⟩ = true := by
        rw [hp]
        rfl
      refine .inr ⟨by omega, hfails, c.after task tasks (.more q), task, tasks, ?_, htasks, ?_⟩
      · rw [hcallers, List.getElem?_set_self (List.getElem?_eq_some_iff.mp hc).1]
      · rw [hb, hm]
        exact congrArg some hq

/-- **Only exchanges that fail can go on for ever**: of other steps, a run has no more than there is
work at its beginning. -/
theorem Run.countP_add_work_le (h : Run start ds a) :
    ds.countP (fun d => !d.fails) + a.work ≤ start.work := by
  induction h with
  | refl => exact (Nat.zero_add _).le
  | @step ds a b d t spurious hr hs ih =>
    rw [countP_concat]
    rcases work_of_act? hs with hlt | ⟨hle, hfails, -⟩
    · have hone := (!d.fails).toNat_le
      omega
    · rw [hfails, Bool.not_true, Bool.toNat_false]
      omega

/-- A thread that has seen the word as it is wins the exchange. -/
theorem exists_lower_of_exchange (hc : a.callers[t]? = some c) (htasks : c.tasks = task :: tasks)
    (hp : c.point = some (.exchange a.settings)) : ∃ es b, Run a es b ∧ b.work < a.work := by
  have hs : (c.point.getD task.first).step t false task a =
      some (.done .done, { a with settings := task.change a.settings }) := by
    rw [hp, Option.getD_some, Point.step, if_neg]
    simp
  have hact := act?_eq hc htasks hs
  rcases work_of_act? hact with hlt | ⟨-, hfails, -⟩
  · exact ⟨_, _, Run.refl.step t false hact, hlt⟩
  · rw [Deed.fails_of_done rfl] at hfails
    cases hfails

/-- As long as anything is left to do, less can be left. -/
theorem Run.exists_lower (h : Run (Access.start env threads) ds a) (hf : a.isFinished = false) :
    ∃ es b, Run a es b ∧ b.work < a.work := by
  obtain ⟨t, d, b, hs⟩ := h.exists_step hf
  have hrun := Run.refl.step t false hs
  rcases work_of_act? hs with hlt | ⟨hle, -, c, task, tasks, hc, htasks, hp⟩
  · exact ⟨_, b, hrun, hlt⟩
  · -- the exchange was lost to another thread, and is won if it is made again at once
    obtain ⟨es, n, hagain, hlt⟩ := exists_lower_of_exchange hc htasks hp
    exact ⟨_, n, hrun.trans hagain, hlt.trans_le hle⟩

/-- **Every run can be brought to an end**, with nobody left waiting. -/
theorem Run.exists_finished (h : Run (Access.start env threads) ds a) :
    ∃ es b, Run a es b ∧ b.isFinished = true := by
  -- on the work that is left: the history grows with the run, so it is generalized with the state
  induction hw : a.work using Nat.strong_induction_on generalizing ds a with
  | _ n ih =>
    cases hf : a.isFinished with
    | true => exact ⟨[], a, .refl, hf⟩
    | false =>
      obtain ⟨es, b, hlower, hlt⟩ := h.exists_lower hf
      obtain ⟨es', n', hend, hfinished⟩ := ih b.work (hw ▸ hlt) (h.trans hlower) rfl
      exact ⟨es ++ es', n', hlower.trans hend, hfinished⟩

end PermitRing.Log.Access
