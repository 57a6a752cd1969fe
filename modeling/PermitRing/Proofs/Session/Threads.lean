import Mathlib.Algebra.Order.BigOperators.Group.List
import Mathlib.Algebra.Order.Group.Nat
import PermitRing.Proofs.Session.Effort
import PermitRing.Proofs.Session.History

/-!
# How many threads a run starts

Threads are only ever added to a session, and each of them is started by a call that the caller or a
constructor makes. So the threads of a run are at most its calls, those of constructors included,
whichever threads are let run in between. The turns of threads are taken apart here by what they do
to the session, and a thread whose constructor begins is told apart from the others.

## Main definitions

* `Session.callsInside` — the calls that constructors of threads are still to make;
* `Session.Spends` — so many calls were made.

## Main results

* `Session.resume_cases`, `resume_of_begins` — the turn of a thread;
* `Session.spends_runSteps`, `spends_settleWithin` — steps, and letting threads run.
-/

namespace PermitRing.Queue.Session

variable {α : Type} {s s' s'' : Session α} {w : Waiting α} {q : Queue α}
  {settle : Session α → List (Report α) × Session α}

/-! ### The turn of a thread -/

/-- What a thread that sequentially pops comes to when it asks for an element. -/
theorem resume_iter_eq {t : Nat} (settle : Session α → List (Report α) × Session α)
    (s : Session α) {left : Option Nat} (hl : left ≠ some 0) (got : List α) :
    s.resume settle ⟨t, .iter left got⟩ =
      match s.queue.resumePop t .endless with
      | (some (.popped v), q) => idle ((s.setQueue q).goOn t left (got ++ [v]))
      | (some (.refused _), q) => idle ((s.setQueue q).finishThread t (.values got))
      | (some (.faulted f), q) => idle ((s.setQueue q).finishThread t (.faulted f))
      | (none, q) => idle (s.setQueue q) := by
  cases left with
  | none => rfl
  | some n =>
    cases n with
    | zero => exact absurd rfl hl
    | succ n => rfl

/-- A thread that sequentially pops has popped its last element, or goes on. -/
theorem goOn_cases (s : Session α) (t : Nat) {left : Option Nat} (hl : left ≠ some 0)
    (got : List α) :
    (left = some 1 ∧ s.goOn t left got = s.finishThread t (.values got)) ∨
      (left ≠ some 1 ∧ ∃ left', left' ≠ some 0 ∧
        s.goOn t left got = s.setTask t (.iter left' got)) := by
  cases left with
  | none => exact .inr ⟨nofun, none, nofun, rfl⟩
  | some n =>
    by_cases hn : n ≤ 1
    · have h1 : n = 1 := by
        have : n ≠ 0 := fun he => hl (congrArg some he)
        omega
      exact .inl ⟨congrArg some h1, if_pos hn⟩
    · refine .inr ⟨fun he => hn (Option.some.inj he).le, some (n - 1), fun he => ?_, if_neg hn⟩
      have := Option.some.inj he
      omega

/-- A thread that goes on without a constructor returns, falls asleep, or goes on popping; and it
does not matter how other threads are let run. -/
theorem resume_cases (settle : Session α → List (Report α) × Session α)
    (hb : ∀ q, ¬w.Begins s.queue q) :
    s.resume settle w = idle (s.resume idle w).2 ∧
      ((∃ q a, (s.resume idle w).2 = (s.setQueue q).finishThread w.thread a) ∨
        (∃ q, (s.resume idle w).2 = s.setQueue q) ∨
        ∃ q left got, (s.resume idle w).2 = (s.setQueue q).setTask w.thread (.iter left got)) := by
  obtain ⟨t, task⟩ := w
  cases task with
  | push v limit | pop limit =>
    simp only [resume]
    split
    · exact ⟨rfl, .inl ⟨_, _, rfl⟩⟩
    · exact ⟨rfl, .inr (.inl ⟨_, rfl⟩)⟩
  | iter left got =>
    by_cases hl : left = some 0
    · subst hl
      exact ⟨rfl, .inl ⟨s.queue, _, rfl⟩⟩
    · rw [resume_iter_eq settle s hl, resume_iter_eq idle s hl]
      split
      · rename_i v q he
        refine ⟨rfl, ?_⟩
        rcases goOn_cases (s.setQueue q) t hl (got ++ [v]) with ⟨-, hgo⟩ | ⟨-, left', -, hgo⟩
        · exact .inl ⟨q, _, hgo⟩
        · exact .inr (.inr ⟨q, left', _, hgo⟩)
      · exact ⟨rfl, .inl ⟨_, _, rfl⟩⟩
      · exact ⟨rfl, .inl ⟨_, _, rfl⟩⟩
      · exact ⟨rfl, .inr (.inl ⟨_, rfl⟩)⟩
  | emplace limit fallible inner build =>
    simp only [resume]
    split
    · exact ⟨rfl, .inr (.inl ⟨_, rfl⟩)⟩
    · exact ⟨rfl, .inl ⟨_, _, rfl⟩⟩
    · rename_i q he
      exact absurd ⟨_, _, _, _, rfl, he⟩ (hb q)

/-- A thread whose constructor begins carries out the constructor's steps, ends it and returns. -/
theorem resume_of_begins {limit : Patience} {fallible : Bool} {inner : List (Step α)}
    {build : Build α} (ht : w.task = .emplace limit fallible inner build)
    (he : s.queue.readmitProducer w.thread limit = (some (.ok ()), q)) :
    s.resume settle w =
      let r := runSteps settle (threadName w.thread) inner ((s.setQueue q).leave w.thread)
      (r.1, (r.2.construct (threadName w.thread) build).2.finishThread w.thread
        (r.2.construct (threadName w.thread) build).1) := by
  obtain ⟨t, task⟩ := w
  subst ht
  simp only [resume, he]

/-! ### Calls of constructors -/

/-- The calls that constructors of threads are still to make. -/
def callsInside (s : Session α) : Nat :=
  (s.waiting.map fun w => callsOfThread w - 1).sum

theorem callsInside_leave_le (s : Session α) (t : Nat) :
    (s.leave t).callsInside ≤ s.callsInside :=
  sum_filter_le _ _ s.waiting

/-- A thread that has gone has no more calls to make. -/
theorem callsInside_leave (hw : w ∈ s.waiting) :
    (s.leave w.thread).callsInside + (callsOfThread w - 1) ≤ s.callsInside :=
  sum_filter_add_le (fun w => callsOfThread w - 1) hw (by simp)

theorem callsInside_start (s : Session α) (task : Task α) :
    (s.start task).callsInside = s.callsInside + (callsOfThread ⟨s.nextThread, task⟩ - 1) := by
  rw [callsInside, callsInside, start, List.map_append, List.sum_append_nat, List.map_cons,
    List.map_nil, List.sum_cons, List.sum_nil, Nat.add_zero]

/-- Where every thread that waits has at most as many calls to make, so have all together. -/
theorem callsInside_map_le {g : Waiting α → Waiting α}
    (h : ∀ w ∈ s.waiting, callsOfThread (g w) ≤ callsOfThread w)
    (hw : s'.waiting = s.waiting.map g) : s'.callsInside ≤ s.callsInside := by
  rw [callsInside, callsInside, hw, List.map_map]
  exact List.sum_le_sum fun w hm => Nat.sub_le_sub_right (h w hm) 1

/-! ### What calls cost -/

/-- From `s` to `s'` so many calls were made, of which each may have started a thread. -/
structure Spends (m : Nat) (s s' : Session α) : Prop where
  threads_le : s.threads ≤ s'.threads
  budget : s'.threads + s'.callsInside ≤ s.threads + s.callsInside + m

namespace Spends

variable {m n : Nat}

/-- Nothing was done to threads. -/
theorem same (hw : s'.waiting = s.waiting) (ht : s'.threads = s.threads) : Spends m s s' := by
  refine ⟨ht.ge, ?_⟩
  rw [callsInside, callsInside, hw, ht]
  exact Nat.le_add_right _ _

theorem trans (h : Spends m s s') (h' : Spends n s' s'') : Spends (m + n) s s'' := by
  refine ⟨h.threads_le.trans h'.threads_le, ?_⟩
  have := h.budget
  have := h'.budget
  omega

end Spends

/-- A thread is started. The call that does so is among those that it is still to make. -/
theorem spends_start (s : Session α) (q : Queue α) (task : Task α) :
    Spends (callsOfThread ⟨s.nextThread, task⟩) s ((s.setQueue q).start task) := by
  have hpos := callsOfThread_pos ⟨s.nextThread, task⟩
  refine ⟨Nat.le_succ _, ?_⟩
  rw [callsInside_start]
  show s.threads + 1 + (s.callsInside + (callsOfThread ⟨s.nextThread, task⟩ - 1)) ≤ _
  omega

theorem spends_finishThread (s : Session α) (t : Nat) (a : Answer α) :
    Spends 0 s (s.finishThread t a) :=
  ⟨Nat.le_refl _, Nat.add_le_add_left (callsInside_leave_le s t) _⟩

/-- Threads go on with tasks that are no more calls. -/
theorem spends_map {g : Waiting α → Waiting α}
    (h : ∀ w ∈ s.waiting, callsOfThread (g w) ≤ callsOfThread w)
    (hw : s'.waiting = s.waiting.map g) (ht : s'.threads = s.threads) : Spends 0 s s' :=
  ⟨ht.ge, by rw [ht]; exact Nat.add_le_add_left (callsInside_map_le h hw) _⟩

theorem callsOfThread_expire (w : Waiting α) : callsOfThread w.expire = callsOfThread w := by
  obtain ⟨t, task⟩ := w
  cases h : task.expire? with
  | none => simp only [Waiting.expire, h, Option.getD_none]
  | some task' =>
    simp only [Waiting.expire, h, Option.getD_some]
    exact callsOfThread_of_expire h t

/-- A thread whose time limit passes is still to make the same calls. -/
theorem spends_elapse {t : Nat} (h : s.elapse? t = some s') : Spends 0 s s' := by
  obtain rfl := eq_of_elapse? h
  refine spends_map (fun w hw => ?_) rfl rfl
  split
  · exact (callsOfThread_expire w).le
  · exact Nat.le_refl _

/-- A step without a constructor. -/
theorem spends_act (name : String) (x : Step α) (s : Session α) : Spends 1 s (s.act name x).2 := by
  cases x with
  | push v wait =>
    rw [act]
    split
    · exact Spends.same rfl rfl
    · exact spends_start s _ (.push v (limitOf wait))
  | pop wait =>
    rw [act]
    split
    · exact Spends.same rfl rfl
    · exact spends_start s _ (.pop (limitOf wait))
  | iter most => exact spends_start s s.queue (.iter most [])
  | close =>
    rw [act]
    split <;> exact Spends.same rfl rfl
  | elapse t =>
    rw [act]
    split
    · rename_i he
      exact (spends_elapse he).trans (n := 1) (Spends.same rfl rfl)
    · exact Spends.same rfl rfl
  | tryIter | emplace | info | outline => exact Spends.same rfl rfl

theorem spends_construct (name : String) (build : Build α) (s : Session α) :
    Spends 0 s (s.construct name build).2 := by
  cases build with
  | built v =>
    rw [construct]
    split <;> exact Spends.same rfl rfl
  | failed error | raised text => exact Spends.same rfl rfl

theorem threads_finishFor (t : Option Nat) (a : Answer α) (s : Session α) :
    (s.finishFor t a).threads = s.threads := by
  cases t <;> rfl

/-- A call whose answer came in the meantime takes it out of those that are to be reported. -/
theorem settled_eq (a : Answer α) (s : Session α) :
    ∃ returned, (s.settled a).2 = { s with returned } := by
  cases a with
  | asleep t =>
    rw [settled]
    split <;> exact ⟨_, rfl⟩
  | _ => exact ⟨_, rfl⟩

/-! ### Steps, and letting threads run -/

theorem spends_call (hsettle : ∀ s : Session α, Spends 0 s (settle s).2) (name : String)
    {x : Step α} (hx : ∀ wait fallible inner build, x ≠ .emplace wait fallible inner build)
    (s : Session α) : Spends 1 s (runStep settle name x s).2 := by
  obtain ⟨returned, he⟩ := settled_eq (s.act name x).1 (settle (s.act name x).2).2
  rw [runStep_of_ne hx, he]
  exact ((spends_act name x s).trans (hsettle _)).trans (n := 0) (Spends.same rfl rfl)

mutual

/-- A step makes its own calls, whichever threads are let run in between. -/
theorem spends_runStep (hsettle : ∀ s : Session α, Spends 0 s (settle s).2) (name : String) :
    ∀ (x : Step α) (s : Session α), Spends (callsOf x) s (runStep settle name x s).2
  | .emplace wait fallible inner build, s => by
    rw [runStep, callsOf]
    split
    · rename_i q he
      exact ((spends_start s q (.emplace (limitOf wait) fallible inner build)).trans
        (hsettle _)).trans (n := 0) (Spends.same rfl rfl)
    · rename_i q he
      have hq : Spends (1 + callsIn inner) s (s.setQueue q) := Spends.same rfl rfl
      exact (hq.trans (hsettle _)).trans (n := 0) (Spends.same rfl rfl)
    · rename_i q he
      have hq : Spends 1 s (s.setQueue q) := Spends.same rfl rfl
      have hinner := spends_runSteps hsettle name inner (s.setQueue q)
      exact (((hq.trans hinner).trans (spends_construct name build _)).trans (hsettle _)).trans
        (n := 0) (Spends.same rfl rfl)
  | .push v wait, s | .pop wait, s | .iter most, s | .tryIter most, s | .close, s | .info, s
  | .outline, s | .elapse t, s => spends_call hsettle name (by simp) s

theorem spends_runSteps (hsettle : ∀ s : Session α, Spends 0 s (settle s).2) (name : String) :
    ∀ (xs : List (Step α)) (s : Session α), Spends (callsIn xs) s (runSteps settle name xs s).2
  | [], s => Spends.same rfl rfl
  | x :: xs, s => by
    rw [runSteps, callsIn]
    exact (spends_runStep hsettle name x s).trans (spends_runSteps hsettle name xs _)

end

/-- A thread that goes on makes calls that were counted when it was started. -/
theorem spends_resume (hsettle : ∀ s : Session α, Spends 0 s (settle s).2) (hw : w ∈ s.waiting) :
    Spends 0 s (s.resume settle w).2 := by
  by_cases hb : ∃ q, w.Begins s.queue q
  · obtain ⟨q, limit, fallible, inner, build, ht, he⟩ := hb
    rw [resume_of_begins ht he]
    dsimp only
    have hleave : (s.leave w.thread).callsInside + callsIn inner ≤ s.callsInside := by
      have hcalls : callsOfThread w = 1 + callsIn inner := by rw [callsOfThread, ht]
      have := callsInside_leave hw
      omega
    have hinner := spends_runSteps hsettle (threadName w.thread) inner
      ((s.setQueue q).leave w.thread)
    generalize (runSteps settle (threadName w.thread) inner
      ((s.setQueue q).leave w.thread)).2 = s₁ at hinner ⊢
    have hend := (hinner.trans (spends_construct (threadName w.thread) build s₁)).trans
      (spends_finishThread _ w.thread (s₁.construct (threadName w.thread) build).1)
    refine ⟨hend.threads_le, hend.budget.trans ?_⟩
    show s.threads + (s.leave w.thread).callsInside + (callsIn inner + 0 + 0) ≤ _
    omega
  · obtain ⟨heq, hcases⟩ := resume_cases settle (not_exists.mp hb)
    rw [heq, idle]
    dsimp only
    rcases hcases with ⟨q, a, he⟩ | ⟨q, he⟩ | ⟨q, left, got, he⟩
    · rw [he]
      have hq : Spends 0 s (s.setQueue q) := Spends.same rfl rfl
      exact hq.trans (spends_finishThread _ w.thread a)
    · rw [he]
      exact Spends.same rfl rfl
    · rw [he]
      refine spends_map (fun w' _ => ?_) rfl rfl
      split
      · exact callsOfThread_pos w'
      · exact Nat.le_refl _

theorem spends_settleWithin (n : Nat) (s : Session α) : Spends 0 s (settleWithin n s).2 := by
  induction n generalizing s with
  | zero => exact Spends.same rfl rfl
  | succ n ih =>
    rw [settleWithin]
    cases hrun : s.runnable? with
    | none => exact Spends.same rfl rfl
    | some w => exact (spends_resume ih (List.mem_of_find?_eq_some hrun)).trans (ih _)

/-- A run starts at most as many threads as it makes calls. -/
theorem threads_run_le (xs : List (Step α)) (q : Queue α) (level : Log.Level) :
    (run xs { queue := q, level }).2.threads ≤ callsIn xs := by
  have hsettle : ∀ s : Session α, Spends 0 s s.settle.2 := fun s => spends_settleWithin s.turns s
  have hspends := spends_runSteps hsettle mainName xs { queue := q, level }
  have hbudget : (run xs { queue := q, level }).2.threads +
      (run xs { queue := q, level }).2.callsInside ≤ 0 + 0 + callsIn xs := hspends.budget
  omega

end PermitRing.Queue.Session
