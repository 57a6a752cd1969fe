import PermitRing.Proofs.Session.Waiters

/-!
# How long it takes until everybody sleeps

While threads are let run, every turn ends a call, or takes an element out, or puts a roused thread
back to sleep. Ends of calls and elements are limited by the calls that are ahead and the elements
that are there; whoever falls asleep again stays so until a call ends or an element comes out. The
*effort* of a session puts these together into one number, which every turn of a thread lowers. The
calls that running constructors are still to make are counted as well, and so are their ends.

## Main definitions

* `Session.awake` — the threads that may be let run;
* `Session.Tires`, `Stirs` — what a turn of a thread, and a step, does to the numbers;
* `Session.effort` — the number that goes down.

## Main results

* `Session.Tires.effort_lt`, `Stirs.effort_le` — it does;
* `Session.effort_le_turns` — the turns that threads are let run for are enough.
-/

namespace PermitRing.Queue.Session

variable {α : Type} {s s' : Session α} {f f' : Fifo α} {w : Waiting α} {q : Queue α}

/-! ### Calls ahead -/

theorem sum_filter_le {β : Type} (g : β → Nat) (p : β → Bool) (l : List β) :
    ((l.filter p).map g).sum ≤ (l.map g).sum := by
  induction l with
  | nil => exact Nat.le_refl _
  | cons b l ih =>
    rw [List.filter_cons]
    split
    · rw [List.map_cons, List.map_cons, List.sum_cons, List.sum_cons]
      exact Nat.add_le_add_left ih _
    · rw [List.map_cons, List.sum_cons]
      exact Nat.le_add_left_of_le ih

theorem sum_filter_add_le {β : Type} (g : β → Nat) {p : β → Bool} {l : List β} {b : β}
    (hb : b ∈ l) (hp : ¬p b = true) : ((l.filter p).map g).sum + g b ≤ (l.map g).sum := by
  obtain ⟨before, after, rfl⟩ := List.append_of_mem hb
  have hbefore := sum_filter_le g p before
  have hafter := sum_filter_le g p after
  rw [List.filter_append, List.filter_cons_of_neg hp, List.map_append, List.map_append,
    List.map_cons, List.sum_append_nat, List.sum_append_nat, List.sum_cons]
  omega

theorem callsAhead_eq_sum (s : Session α) : s.callsAhead = (s.waiting.map callsOfThread).sum := by
  rw [callsAhead, List.sum, List.foldr_map]

theorem callsOfThread_pos (w : Waiting α) : 0 < callsOfThread w := by
  unfold callsOfThread
  split <;> omega

theorem length_waiting_le (s : Session α) : s.waiting.length ≤ s.callsAhead := by
  rw [callsAhead_eq_sum]
  induction s.waiting with
  | nil => exact Nat.le_refl _
  | cons w ws ih =>
    have := callsOfThread_pos w
    rw [List.length_cons, List.map_cons, List.sum_cons]
    omega

theorem callsAhead_leave (hn : (s.waiting.map Waiting.thread).Nodup) (hw : w ∈ s.waiting) :
    (s.leave w.thread).callsAhead + callsOfThread w = s.callsAhead := by
  have := ((perm_cons_filter_ne hn hw).map callsOfThread).sum_nat
  rw [List.map_cons, List.sum_cons] at this
  rw [callsAhead_eq_sum, callsAhead_eq_sum, this, Nat.add_comm]
  rfl

theorem callsAhead_start (s : Session α) (task : Task α) :
    (s.start task).callsAhead = s.callsAhead + callsOfThread ⟨s.nextThread, task⟩ := by
  rw [callsAhead_eq_sum, callsAhead_eq_sum, start, List.map_append, List.sum_append_nat,
    List.map_cons, List.map_nil, List.sum_cons, List.sum_nil, Nat.add_zero]

theorem callsAhead_leave_le (s : Session α) (t : Nat) : (s.leave t).callsAhead ≤ s.callsAhead := by
  rw [callsAhead_eq_sum, callsAhead_eq_sum]
  exact sum_filter_le callsOfThread _ s.waiting

/-- A thread that goes on with another task that makes no more calls has as many ahead. -/
theorem callsAhead_setTask (task : Task α) (hn : (s.waiting.map Waiting.thread).Nodup)
    (hw : w ∈ s.waiting) (hc : callsOfThread ⟨w.thread, task⟩ = callsOfThread w) :
    (s.setTask w.thread task).callsAhead = s.callsAhead := by
  rw [callsAhead_eq_sum, callsAhead_eq_sum, setTask, List.map_map]
  refine congrArg List.sum (List.map_congr_left fun w' hw' => ?_)
  rw [Function.comp_apply]
  split
  · rw [hc, List.inj_on_of_nodup_map hn hw' hw ‹_›]
  · rfl

/-! ### Threads that are awake -/

/-- The threads that may be let run. -/
def awake (s : Session α) : Nat :=
  s.waiting.countP fun w => !s.isAsleep w.thread

theorem awake_le (s : Session α) : s.awake ≤ s.callsAhead :=
  List.countP_le_length.trans (length_waiting_le s)

/-- Whoever sleeps still does after another thread fell asleep. -/
theorem isAsleep_lull {t t' : Nat} {x : Side} (h : s.isAsleep t' = true) :
    (s.setQueue (s.queue.lull t x)).isAsleep t' = true := by
  rw [← Bool.not_eq_false, awake_iff] at h ⊢
  refine fun hn => h fun y z hz => hn y z ?_
  by_cases hyx : y = x
  · subst hyx
    obtain ⟨e, he⟩ := sleepers_lull_self (q := s.queue) (t := t) (x := y)
    exact he ▸ List.mem_append_left _ hz
  · exact (sleepers_lull_of_ne hyx (q := s.queue) (t := t)) ▸ hz

theorem isAsleep_lull_self (s : Session α) (t : Nat) (x : Side) :
    (s.setQueue (s.queue.lull t x)).isAsleep t = true := by
  rw [← Bool.not_eq_false, awake_iff]
  obtain ⟨e, he⟩ := sleepers_lull_self (q := s.queue) (t := t) (x := x)
  exact fun hn => hn x ⟨t, e⟩ (he ▸ List.mem_append_right _ (List.mem_singleton_self _)) rfl

/-- Nobody gets up because a thread falls asleep. -/
theorem countP_lull_le (s : Session α) (t : Nat) (x : Side) (ws : List (Waiting α)) :
    ws.countP (fun w => !(s.setQueue (s.queue.lull t x)).isAsleep w.thread) ≤
      ws.countP fun w => !s.isAsleep w.thread := by
  refine List.countP_mono_left fun w _ ha => ?_
  rw [Bool.not_eq_true'] at ha ⊢
  rw [← Bool.not_eq_true] at ha ⊢
  exact fun h => ha (isAsleep_lull h)

/-- A thread that falls asleep is one less to be let run. -/
theorem awake_lull (hw : w ∈ s.waiting) (ha : s.isAsleep w.thread = false) (x : Side) :
    (s.setQueue (s.queue.lull w.thread x)).awake < s.awake := by
  obtain ⟨before, after, he⟩ := List.append_of_mem hw
  rw [awake, awake, show (s.setQueue (s.queue.lull w.thread x)).waiting = s.waiting from rfl, he,
    List.countP_append, List.countP_append, List.countP_cons, List.countP_cons,
    isAsleep_lull_self, ha]
  have hbefore := countP_lull_le s w.thread x before
  have hafter := countP_lull_le s w.thread x after
  simp only [Bool.not_true, Bool.false_eq_true, if_false, Bool.not_false, if_true]
  omega

/-- A thread that is started is at most one more. -/
theorem awake_start (s : Session α) (task : Task α) : (s.start task).awake ≤ s.awake + 1 := by
  rw [awake, start, List.countP_append, awake]
  exact Nat.add_le_add (Nat.le_refl _) List.countP_le_length

/-- What the threads are in the middle of does not matter for who is awake. -/
theorem awake_eq_countP_map (s : Session α) :
    s.awake = (s.waiting.map Waiting.thread).countP fun t => !s.isAsleep t := by
  rw [List.countP_map]
  rfl

/-- Whoever is awake when the time limit of another thread has passed was so before. -/
theorem awake_of_expire {t t' : Nat} (ht : t' ≠ t)
    (h : (s.setQueue (s.queue.expire t)).isAsleep t' = false) : s.isAsleep t' = false := by
  rw [awake_iff] at h ⊢
  refine fun x z hz he => h x z ?_ he
  show z ∈ (s.queue.expire t).sleepers x
  rw [sleepers_expire]
  exact List.mem_filter.mpr ⟨hz, bne_iff_ne.mpr (he ▸ ht)⟩

/-- A thread whose time limit passes is at most one more to be let run. -/
theorem awake_expire (hn : (s.waiting.map Waiting.thread).Nodup) (hw : w ∈ s.waiting)
    (task : Task α) :
    ((s.setQueue (s.queue.expire w.thread)).setTask w.thread task).awake ≤ s.awake + 1 := by
  have hothers : (s.waiting.filter fun w' => w'.thread != w.thread).countP
        (fun w' => !(s.setQueue (s.queue.expire w.thread)).isAsleep w'.thread) ≤
      (s.waiting.filter fun w' => w'.thread != w.thread).countP
        fun w' => !s.isAsleep w'.thread := by
    refine List.countP_mono_left fun w' hw' ha => ?_
    rw [Bool.not_eq_true'] at ha ⊢
    exact awake_of_expire (bne_iff_ne.mp (List.mem_filter.mp hw').2) ha
  calc ((s.setQueue (s.queue.expire w.thread)).setTask w.thread task).awake
      = (s.setQueue (s.queue.expire w.thread)).awake := by
        rw [awake_eq_countP_map, awake_eq_countP_map, Sound.map_thread_setTask]
        rfl
    _ ≤ s.awake + 1 := by
        have hperm := perm_cons_filter_ne hn hw
        rw [awake, awake, show (s.setQueue (s.queue.expire w.thread)).waiting = s.waiting from rfl,
          hperm.countP_eq, hperm.countP_eq, List.countP_cons, List.countP_cons]
        split <;> split <;> omega

/-! ### Turns and steps -/

/-- A thread had its turn: a call less is ahead, or an element less is there, or a thread less is
awake. -/
inductive Tires (s s' : Session α) : Prop
  /-- The call returned. -/
  | returned (hc : s'.callsAhead < s.callsAhead) (hs : s'.queue.size ≤ s.queue.size + 1)
  /-- The thread goes on with an element more. -/
  | popped (hc : s'.callsAhead ≤ s.callsAhead) (hs : s'.queue.size < s.queue.size)
  /-- The thread fell asleep again. -/
  | dozed (hc : s'.callsAhead ≤ s.callsAhead) (hs : s'.queue.size ≤ s.queue.size)
    (ha : s'.awake < s.awake)

/-- A step of so many calls was carried out, but for its constructor. -/
inductive Stirs (n : Nat) (s s' : Session α) : Prop
  /-- It was answered. -/
  | answered (hc : s'.callsAhead ≤ s.callsAhead) (hs : s'.queue.size ≤ s.queue.size + 1)
  /-- It goes on on a thread of its own, or lets a thread wait no more. -/
  | started (hc : s'.callsAhead ≤ s.callsAhead + n) (hs : s'.queue.size ≤ s.queue.size)
    (ha : s'.awake ≤ s.awake + 1)

theorem size_lull (q : Queue α) (t : Nat) (x : Side) : (q.lull t x).size = q.size :=
  count_lull .consume

theorem tires_finishThread (hn : (s.waiting.map Waiting.thread).Nodup) (hw : w ∈ s.waiting)
    (hq : q.size ≤ s.queue.size + 1) (a : Answer α) :
    Tires s ((s.setQueue q).finishThread w.thread a) := by
  have hleave := callsAhead_leave hn hw
  have hpos := callsOfThread_pos w
  refine .returned ?_ hq
  show (s.leave w.thread).callsAhead < s.callsAhead
  omega

theorem tires_lull (hw : w ∈ s.waiting) (ha : s.isAsleep w.thread = false) (x : Side) :
    Tires s (s.setQueue (s.queue.lull w.thread x)) :=
  .dozed (Nat.le_refl _) (size_lull _ _ _).le (awake_lull hw ha x)

theorem stirs_setQueue {n : Nat} (hq : q.size ≤ s.queue.size + 1) : Stirs n s (s.setQueue q) :=
  .answered (Nat.le_refl _) hq

theorem stirs_start (s : Session α) (task : Task α) :
    Stirs (callsOfThread ⟨s.nextThread, task⟩) s (s.start task) :=
  .started (callsAhead_start s task).le (Nat.le_refl _) (awake_start s task)

theorem stirs_parked (s : Session α) (task : Task α) (x : Side) :
    Stirs (callsOfThread ⟨s.nextThread, task⟩) s
      ((s.setQueue (s.queue.lull s.nextThread x)).start task) := by
  refine .started (callsAhead_start (s.setQueue _) task).le (size_lull _ _ _).le ?_
  exact (awake_start _ task).trans (Nat.succ_le_succ (countP_lull_le s _ x s.waiting))

theorem callsOfThread_of_expire {task task' : Task α} (h : task.expire? = some task') (t : Nat) :
    callsOfThread ⟨t, task'⟩ = callsOfThread ⟨t, task⟩ := by
  cases task with
  | push v limit | pop limit | emplace limit fallible inner build =>
    obtain ⟨limit', -, rfl⟩ := Option.map_eq_some_iff.mp h
    rfl
  | iter left got => cases h

theorem stirs_elapse (hn : (s.waiting.map Waiting.thread).Nodup) (hw : w ∈ s.waiting)
    {task : Task α} (ht : w.task.expire? = some task) (n : Nat) :
    Stirs n s ((s.setQueue (s.queue.expire w.thread)).setTask w.thread task) := by
  have hcalls := callsAhead_setTask (s := s.setQueue (s.queue.expire w.thread)) task hn hw
    (callsOfThread_of_expire ht w.thread)
  exact .started (hcalls.le.trans (Nat.le_add_right _ _)) (Nat.le_refl _) (awake_expire hn hw task)

/-- What is to be done in a session until everybody sleeps, in which constructors run that are still
to make `k` calls, and of which `e` are still to end. -/
def effort (s : Session α) (k e : Nat) : Nat :=
  (3 * (s.callsAhead + k) + 2 * e + s.queue.size) * (2 * (s.callsAhead + k + e) + 1) +
    (s.awake + k)

/-- The first factor counts what rouses, and the rest is less than the second factor, so where the
first factor goes down the whole does. -/
theorem effort_lt {k k' e e' : Nat} (hc : s'.callsAhead + k' + e' ≤ s.callsAhead + k + e)
    (hr : 3 * (s'.callsAhead + k') + 2 * e' + s'.queue.size <
      3 * (s.callsAhead + k) + 2 * e + s.queue.size) : s'.effort k' e' < s.effort k e := by
  have hawake := s'.awake_le
  have hmul : (3 * (s'.callsAhead + k') + 2 * e' + s'.queue.size + 1) *
      (2 * (s'.callsAhead + k' + e') + 1) ≤
        (3 * (s.callsAhead + k) + 2 * e + s.queue.size) * (2 * (s.callsAhead + k + e) + 1) :=
    Nat.mul_le_mul hr (by omega)
  rw [Nat.add_mul, Nat.one_mul] at hmul
  rw [effort, effort]
  omega

/-- Where the first factor stays, the threads that are awake count. -/
theorem effort_lt_of_awake {k k' e e' : Nat}
    (hc : s'.callsAhead + k' + e' ≤ s.callsAhead + k + e)
    (hr : 3 * (s'.callsAhead + k') + 2 * e' + s'.queue.size ≤
      3 * (s.callsAhead + k) + 2 * e + s.queue.size)
    (ha : s'.awake + k' < s.awake + k) : s'.effort k' e' < s.effort k e :=
  Nat.add_lt_add_of_le_of_lt (Nat.mul_le_mul hr (by omega)) ha

/-- **A turn of a thread lowers the effort.** -/
theorem Tires.effort_lt (h : Tires s s') (k e : Nat) : s'.effort k e < s.effort k e := by
  rcases h with ⟨hc, hs⟩ | ⟨hc, hs⟩ | ⟨hc, hs, ha⟩
  · exact Session.effort_lt (by omega) (by omega)
  · exact Session.effort_lt (by omega) (by omega)
  · exact effort_lt_of_awake (by omega) (by omega) (by omega)

/-- **A step does not raise the effort.** -/
theorem Stirs.effort_le {n : Nat} (h : Stirs n s s') (hn : 0 < n) (k e : Nat) :
    s'.effort k e ≤ s.effort (n + k) e := by
  rcases h with ⟨hc, hs⟩ | ⟨hc, hs, ha⟩
  · exact (Session.effort_lt (by omega) (by omega)).le
  · exact Nat.add_le_add (Nat.mul_le_mul (by omega) (by omega)) (by omega)

/-- Fewer calls and constructors are less effort. -/
theorem effort_mono (s : Session α) {k k' e e' : Nat} (hk : k ≤ k') (he : e ≤ e') :
    s.effort k e ≤ s.effort k' e' :=
  Nat.add_le_add (Nat.mul_le_mul (by omega) (by omega)) (by omega)

/-- **The turns that threads are let run for are enough.** -/
theorem effort_le_turns (s : Session α) : s.effort 0 0 ≤ s.turns := by
  have := s.awake_le
  simp only [effort, turns, Nat.add_zero, Nat.mul_zero]
  rw [Nat.add_mul (3 * s.callsAhead + s.queue.size) 1, Nat.one_mul]
  omega

end PermitRing.Queue.Session
