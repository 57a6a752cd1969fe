import PermitRing.Proofs.Session.Settling

/-!
# No waiter is stranded

In a settled run a wake reaches one thread, or all, and whoever it reaches goes on, which may wake
others; a thread that is woken may even run a constructor that pushes, pops or closes. Whichever
thread each wake reaches, and in whichever order threads go on, nobody is left waiting for something
that is there once all have returned or sleep. From the call on that closes the queue no producer
sleeps in it any more, and no consumer once the last constructor has ended: this holds at any time,
whether or not the threads that were roused have gone on.

## Main results

* `Session.closed_of_close` — steps with a closing among them leave the queue closed;
* `Session.no_waiter_stranded` — for every run of a new queue.
-/

namespace PermitRing.Queue.Session

variable {α : Type} {s : Session α} {f : Fifo α} {rs : List (Option Nat)} {n : Nat}
  {settle : Session α → List (Report α) × Session α}

/-! ### Closing -/

theorem isOpen_act_close (name : String) (s : Session α) :
    (s.act name .close).2.queue.isOpen = false := by
  have hclose := isOpen_close (s.say name s.queue.closeMessages).queue
  rw [act]
  split <;> rename_i he <;> rw [he] at hclose <;> exact hclose

/-- A run leaves a closed queue closed. -/
theorem Scene.Run.keeps_closed {c c' : Scene α} {h : List (Event α)} (hr : Scene.Run c h c')
    (hc : c.Sound f) (hlt : c'.session.threads < Word.size)
    (ho : c.session.queue.isOpen = false) : c'.session.queue.isOpen = false := by
  obtain ⟨f', hc', -, hclosing, -⟩ := hr.sound hc hlt
  exact hc'.session.represents.isClosed_iff.mp
    (hclosing.mpr (.inl (hc.session.represents.isClosed_iff.mpr ho)))

/-- The step closes the queue, and the threads that are let run afterwards do not open it. -/
theorem closed_of_runStep_close (hn : Calms n settle) (name : String)
    (hs : (Scene.mk s rs).Sound f) (he : s.effort 1 0 ≤ n)
    (hlt : (runStep settle name .close s).2.threads < Word.size) :
    (runStep settle name .close s).2.queue.isOpen = false := by
  obtain ⟨returned, hret⟩ := settled_eq (s.act name .close).1 (settle (s.act name .close).2).2
  rw [runStep_of_ne (by simp), hret] at hlt ⊢
  obtain ⟨f', hadv, hstirs⟩ := Scene.advances_close name hs.session hs.running
  obtain ⟨⟨h, hr⟩, -⟩ := hn.run (hadv.sound hs)
    ((hstirs.effort_le Nat.one_pos 0 0).trans he) hlt
  exact hr.keeps_closed (hadv.sound hs) hlt (isOpen_act_close name s)

/-- **Steps with a closing among them leave the queue closed.** -/
theorem closed_of_close (hn : Calms n settle) (name : String) : ∀ (xs : List (Step α))
    {s : Session α} {f : Fifo α} {rs : List (Option Nat)} (_ : (Scene.mk s rs).Sound f)
    (_ : s.effort (callsIn xs) 0 ≤ n) (_ : (runSteps settle name xs s).2.threads < Word.size),
    .close ∈ xs → (runSteps settle name xs s).2.queue.isOpen = false
  | [], _, _, _, _, _, _, hm => absurd hm List.not_mem_nil
  | x :: xs, s, f, rs, hs, he, hlt, hm => by
    rw [callsIn] at he
    rw [runSteps] at hlt ⊢
    have hlt₁ : (runStep settle name x s).2.threads < Word.size :=
      (spends_runSteps hn.spends name xs _).threads_le.trans_lt hlt
    have he₁ : s.effort (callsOf x) 0 ≤ n :=
      (effort_mono s (Nat.le_add_right _ _) (Nat.le_refl _)).trans he
    have hstep := runStep_concludes hn name x hs he₁ hlt₁
    obtain ⟨h, hr⟩ := hstep.run
    obtain ⟨f₁, hs₁, -⟩ := hr.sound hs hlt₁
    have he₂ := (hstep.effort (callsIn xs) 0).trans he
    rcases List.mem_cons.mp hm with rfl | hm
    · -- the rest of the steps finds the queue closed
      obtain ⟨⟨h', hr'⟩, -⟩ := runSteps_conclude hn name xs hs₁ he₂ hlt
      exact hr'.keeps_closed hs₁ hlt (closed_of_runStep_close hn name hs he₁ hlt₁)
    · exact closed_of_close hn name xs hs₁ he₂ hlt hm

/-! ### Runs of a new queue -/

/-- **No waiter is stranded.** Take a new queue of any configuration that passes validation, with
any choice of the thread that each single wake reaches, and any run of turns on it: calls of the
caller and of constructors, beginnings and ends of constructors, turns of threads that are awake,
and time limits of threads that pass. Then

* elements come out in the order in which they went in; no call of a thread returns twice; and a
  parked push that returns has put its element in and succeeded, or has put none in and gets it
  back, with the answer that the queue is closed, or that time is up if its own limit has passed;
* once a call has closed the queue it is closed, which it is not before; from then on no producer
  waits, and no consumer unless a constructor runs;
* whenever everybody has returned or sleeps, what shows of the queue strands nobody.

The runs of steps after each of which threads are let run are among these runs, and everybody has
returned or sleeps after each of their steps, those that constructors carry out included. If the
steps close the queue, so does the run. -/
theorem no_waiter_stranded {c : Config} (hc : c.validate = .ok ()) (order : Side → Nat → Nat) :
    ∃ q : Queue α, create c.discipline c order = .ok q ∧ ∀ level : Log.Level,
      (∀ (h : List (Event α)) (scene : Scene α), Scene.Run (.new q level) h scene →
        scene.session.threads < Word.size →
          ∃ f : Fifo α, scene.session.queue.Represents f ∧ f.running = scene.running.length ∧
            Accounted h f.items ∧
            (∀ r ∈ scene.session.returned, .returned r.1 r.2 ∈ h) ∧
            (.closed ∈ h ↔ scene.session.queue.view.state ≠ .opened) ∧
            (.closed ∈ h → scene.session.queue.view.Shut scene.running.length) ∧
            (scene.session.runnable? = none →
              scene.session.queue.view.Fair scene.running.length)) ∧
      ∀ xs : List (Step α), callsIn xs < Word.size →
        (∃ h, Scene.Run (.new q level) h ⟨(run xs { queue := q, level }).2, []⟩ ∧
          (.close ∈ xs → .closed ∈ h)) ∧
          (run xs { queue := q, level }).2.runnable? = none ∧
          Report.AllFair 0 (run xs { queue := q, level }).1 := by
  obtain ⟨q, hq⟩ := exists_create hc order
  refine ⟨q, hq, fun level => ⟨fun h scene hr hlt => ?_, fun xs hxs => ?_⟩⟩
  · obtain ⟨f, hs, hacc⟩ := hr.accounted hq hlt
    have hclosed := hr.closed_iff hq hlt hs
    refine ⟨f, hs.session.represents, hs.running, hacc, fun r hm => ?_,
      hclosed.symm.trans hs.session.state_ne_opened_iff.symm, fun hm => ?_, fun hcalm => ?_⟩
    · rcases hr.mem_returned hm with hm | hm
      · exact absurd hm List.not_mem_nil
      · exact hm
    · exact hs.running ▸ hs.session.shut (hclosed.mpr hm)
    · exact hs.running ▸ hs.session.fair hcalm
  · have hlt := (threads_run_le xs q level).trans_lt hxs
    have hnew := Scene.sound_new hq level
    have hrun := runSteps_conclude (calms_settle _) mainName xs hnew (Nat.le_refl _) hlt
    obtain ⟨h, hr⟩ := hrun.run
    refine ⟨⟨h, hr, fun hm => ?_⟩, hrun.calm rfl, hrun.fair⟩
    have ho : (run xs { queue := q, level }).2.queue.isOpen = false :=
      closed_of_close (calms_settle _) mainName xs hnew (Nat.le_refl _) hlt hm
    obtain ⟨f, hs, -⟩ := hr.sound hnew hlt
    exact (hr.closed_iff hq hlt hs).mp (hs.session.represents.isClosed_iff.mpr ho)

/-- A push and a construction are parked, and so is a push whose limit passes. The first pop rouses
one of the others; the constructor, once it runs, pops on a thread that waits for the constructor's
own element, pushes on a thread that waits for room, and closes the queue. -/
def cascade : List (Step Nat) :=
  [.push 1 (.atMost .endless), .push 5 (.atMost .lasting), .push 2 (.atMost .endless), .elapse 1,
    .emplace (.atMost .endless) true
      [.pop (.atMost .endless), .push 3 (.atMost .endless), .close] (.built 4),
    .pop (.atMost .endless), .pop (.atMost .endless), .close]

theorem no_waiter_stranded_cascade :
    ({ capacity := 1, discipline := .mpmc } : Config).validate = .ok () ∧
      callsIn cascade < Word.size ∧
      ∃ q : Queue Nat,
        create .mpmc { capacity := 1, discipline := .mpmc } (fun _ _ => 1) = .ok q ∧
        (run cascade { queue := q, level := .off }).2.threads < Word.size ∧
        Report.AllFair 0 (run cascade { queue := q, level := .off }).1 ∧
        ∃ (h : List (Event Nat)) (f : Fifo Nat),
          Scene.Run (.new q .off) h ⟨(run cascade { queue := q, level := .off }).2, []⟩ ∧
          Accounted h f.items ∧ .closed ∈ h ∧
          (run cascade { queue := q, level := .off }).2.queue.view.Shut 0 ∧
          (run cascade { queue := q, level := .off }).2.queue.view.Fair 0 := by
  obtain ⟨q, hq, h⟩ := no_waiter_stranded (α := Nat)
    (c := { capacity := 1, discipline := .mpmc }) rfl fun _ _ => 1
  obtain ⟨hscenes, hruns⟩ := h .off
  have hrun := hruns cascade (by decide)
  have hclose : Step.close ∈ cascade := by simp [cascade]
  have hlt : (run cascade { queue := q, level := .off }).2.threads < Word.size :=
    (threads_run_le cascade q .off).trans_lt (by decide)
  refine ⟨rfl, by decide, q, hq, ?_⟩
  -- the run itself need not be looked at
  generalize run cascade { queue := q, level := .off } = r at hrun hlt ⊢
  obtain ⟨⟨h, hr, hm⟩, hcalm, hfair⟩ := hrun
  obtain ⟨f, -, -, hacc, -, -, hshut, hview⟩ := hscenes h ⟨r.2, []⟩ hr hlt
  exact ⟨hlt, hfair, h, f, hr, hacc, hm hclose, hshut (hm hclose), hview hcalm⟩

/-- A parked push whose limit passes gets its element back. -/
example {q : Queue Nat}
    (hq : create .mpmc { capacity := 1, discipline := .mpmc } (fun _ _ => 0) = .ok q) :
    ∃ view, (run [.push 1 .never, .push 2 (.atMost .lasting), .elapse 1]
        { queue := q, level := .off }).1.getLast? =
      some (.mk mainName (.elapsed 1) false [] view [(1, .rejected ⟨2, .timedOut⟩)] [] []) := by
  obtain rfl := eq_of_create hq
  exact ⟨_, rfl⟩

end PermitRing.Queue.Session
