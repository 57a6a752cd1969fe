import PermitRing.Proofs.Session.Ledger

/-!
# Every step ends in a settled state

Carrying out a step and then letting threads run is a run of single turns, and it does end with
everybody asleep or gone: the turns for which threads are let run are never used up before. A thread
that is let run may carry out steps itself, in the constructor of its call, and after each of them
threads are let run in turn, so the two statements are proved together, by induction on the turns.

## Main definitions

* `Report.Fair` — nobody was stranded after a step, or after any step that a constructor carried
  out by it;
* `Session.Calms` — a way to let threads run is enough for a certain effort.

## Main results

* `Session.runStep_concludes`, `runSteps_conclude` — steps, by induction on their structure;
* `Session.resume_tires` — the turn of a thread;
* `Session.calms_settleWithin`, `calms_settle` — letting threads run.
-/

namespace PermitRing.Queue.Session

variable {α : Type}

/-! ### Reports of settled states -/

mutual

/-- The state that a report shows, while `r` constructors run, strands nobody, and neither do those
that the reports of the steps show which its constructor, and constructors of roused threads, have
carried out. -/
def Report.Fair (r : Nat) : Report α → Prop
  | .mk _ _ _ inner view _ asides _ =>
    view.Fair r ∧ Report.AllFair (r + 1) inner ∧ Report.AllFair (r + 1) asides

/-- The same for a list of reports. -/
def Report.AllFair (r : Nat) : List (Report α) → Prop
  | [] => True
  | x :: xs => x.Fair r ∧ Report.AllFair r xs

end

theorem Report.AllFair.append {r : Nat} : ∀ {xs ys : List (Report α)},
    Report.AllFair r xs → Report.AllFair r ys → Report.AllFair r (xs ++ ys)
  | [], _, _, hy => hy
  | _ :: _, _, hx, hy => ⟨hx.1, hx.2.append hy⟩

variable {s : Session α} {f : Fifo α} {w : Waiting α} {q : Queue α} {rs : List (Option Nat)}
  {settle : Session α → List (Report α) × Session α}

/-! ### The effort of constructors -/

/-- A constructor that begins makes its steps its own, and is still to end. -/
theorem effort_began {s' : Session α} {m : Nat} (hc : s'.callsAhead ≤ s.callsAhead)
    (hs : s'.queue.size = s.queue.size) (k e : Nat) :
    s'.effort (m + k) (e + 1) < s.effort (1 + m + k) e :=
  effort_lt (by omega) (by omega)

/-- The same for the constructor of a call that a thread made. -/
theorem effort_resumedInto {s' : Session α} {m : Nat} (hc : s'.callsAhead + (1 + m) = s.callsAhead)
    (hs : s'.queue.size = s.queue.size) (k e : Nat) :
    s'.effort (m + k) (e + 1) < s.effort k e :=
  effort_lt (by omega) (by omega)

/-- A constructor that ends has put at most one element in. -/
theorem effort_ended (name : String) (build : Build α) (t : Option Nat) (hs : s.Sound f)
    (hr : 0 < f.running) (k e : Nat) :
    ((s.construct name build).2.finishFor t (s.construct name build).1).effort k e <
      s.effort k (e + 1) := by
  obtain ⟨s', hcon, hs', hw, -⟩ := Sound.construct_eq name build hs hr
  simp only [hcon]
  have hcalls : (s'.finishFor t (f.complete build).1).callsAhead ≤ s.callsAhead := by
    have heq : s'.callsAhead = s.callsAhead := by rw [callsAhead_eq_sum, hw, callsAhead_eq_sum]
    cases t with
    | none => exact heq.le
    | some t => exact (callsAhead_leave_le s' t).trans heq.le
  have hsize : (s'.finishFor t (f.complete build).1).queue.size ≤ s.queue.size + 1 := by
    rw [show (s'.finishFor t (f.complete build).1).queue = s'.queue by cases t <;> rfl,
      hs'.represents.size_eq, hs.represents.size_eq]
    cases build with
    | built v => exact (List.length_append).le
    | failed error | raised text => exact Nat.le_succ _
  exact effort_lt (by omega) (by omega)

/-- A turn that moves no element leaves as many there. -/
theorem Scene.Advances.size_eq {c c' : Scene α} {f' : Fifo α} (hadv : Scene.Advances c f [] c' f')
    (hs : c.session.Sound f) : c'.session.queue.size = c.session.queue.size := by
  have hi : f.items = f'.items := (List.append_nil _).symm.trans hadv.items
  rw [hadv.session.represents.size_eq, hs.represents.size_eq, hi]

/-! ### Steps -/

/-- A way to let threads run that takes every sound session whose effort is at most `n` to a settled
one, by turns of its threads, and reports that nobody was stranded on the way. -/
structure Calms (n : Nat) (settle : Session α → List (Report α) × Session α) : Prop where
  spends : ∀ s, Spends 0 s (settle s).2
  run : ∀ {s : Session α} {f : Fifo α} {rs : List (Option Nat)}, (Scene.mk s rs).Sound f →
    s.effort 0 0 ≤ n → (settle s).2.threads < Word.size →
      (∃ h, Scene.Run ⟨s, rs⟩ h ⟨(settle s).2, rs⟩) ∧ (settle s).2.runnable? = none ∧
        Report.AllFair (rs.length + 1) (settle s).1 ∧
        ∀ k e, (settle s).2.effort k e ≤ s.effort k e

/-- A step of `m` calls has led to a report and a settled session. -/
structure Concludes (rs : List (Option Nat)) (m : Nat) (s : Session α) (r : Report α × Session α) :
    Prop where
  run : ∃ h, Scene.Run ⟨s, rs⟩ h ⟨r.2, rs⟩
  fair : r.1.Fair rs.length
  calm : r.2.runnable? = none
  effort : ∀ k e, r.2.effort k e ≤ s.effort (m + k) e

/-- Steps of `m` calls have led to reports, and to a settled session if they began in one. -/
structure Conclude (rs : List (Option Nat)) (m : Nat) (s : Session α)
    (r : List (Report α) × Session α) : Prop where
  run : ∃ h, Scene.Run ⟨s, rs⟩ h ⟨r.2, rs⟩
  fair : Report.AllFair rs.length r.1
  calm : s.runnable? = none → r.2.runnable? = none
  effort : ∀ k e, r.2.effort k e ≤ s.effort (m + k) e

/-- A constructor whose steps are carried out ends, which lowers the effort by its own share. -/
theorem Conclude.ended {m : Nat} {t : Option Nat} {r : List (Report α) × Session α}
    (h : Conclude (t :: rs) m s r) (hs : (Scene.mk s (t :: rs)).Sound f)
    (hlt : r.2.threads < Word.size) (name : String) (build : Build α) :
    (∃ h, Scene.Run ⟨s, t :: rs⟩ h
      ⟨(r.2.construct name build).2.finishFor t (r.2.construct name build).1, rs⟩) ∧
      ∀ k e, ((r.2.construct name build).2.finishFor t (r.2.construct name build).1).effort k e <
        s.effort (m + k) (e + 1) := by
  obtain ⟨h₁, hr₁⟩ := h.run
  obtain ⟨f₁, hs₁, -⟩ := hr₁.sound hs hlt
  have hpos : 0 < f₁.running := by
    rw [hs₁.running]
    exact Nat.succ_pos _
  have hended := effort_ended name build t hs₁.session hpos
  exact ⟨⟨_, hr₁.snoc (.ended name build _ t rs)⟩,
    fun k e => (hended k e).trans_le (h.effort k (e + 1))⟩

/-- After its turns a step lets threads run and reports. -/
theorem concludes_report {n m : Nat} (hn : Calms n settle) {s₁ : Session α}
    {h : List (Event α)} (hs : (Scene.mk s rs).Sound f) (hr : Scene.Run ⟨s, rs⟩ h ⟨s₁, rs⟩)
    (he : s₁.effort 0 0 ≤ n) (hm : ∀ k e, s₁.effort k e ≤ s.effort (m + k) e)
    (hlt : (settle s₁).2.threads < Word.size) (name : String) (answer : Answer α) (ran : Bool)
    (inner : List (Report α)) (hinner : Report.AllFair (rs.length + 1) inner)
    (returned : List (Nat × Answer α)) :
    Concludes rs m s
      (report name answer ran inner ((settle s₁).1, { (settle s₁).2 with returned })) := by
  obtain ⟨f₁, hs₁, -⟩ := hr.sound hs ((hn.spends s₁).threads_le.trans_lt hlt)
  obtain ⟨⟨h', hr'⟩, hcalm, hasides, heff⟩ := hn.run hs₁ he hlt
  obtain ⟨f', hs', -⟩ := hr'.sound hs₁ hlt
  refine ⟨⟨_, (hr.trans hr').snoc (.reported (settle s₁).2 rs)⟩, ⟨?_, hinner, hasides⟩, hcalm,
    fun k e => (heff k e).trans (hm k e)⟩
  exact hs'.running ▸ hs'.session.fair hcalm

/-- A step without a constructor. -/
theorem runStep_call_concludes {n : Nat} (hn : Calms n settle) (name : String) {x : Step α}
    (hx : ∀ wait fallible inner build, x ≠ .emplace wait fallible inner build)
    (hs : (Scene.mk s rs).Sound f) (he : s.effort 1 0 ≤ n)
    (hlt : (runStep settle name x s).2.threads < Word.size) :
    Concludes rs 1 s (runStep settle name x s) := by
  obtain ⟨returned, hret⟩ := settled_eq (s.act name x).1 (settle (s.act name x).2).2
  rw [runStep_of_ne hx, hret] at hlt ⊢
  obtain ⟨f', -, hstirs⟩ := Scene.advances_call name x hs.session hs.running
    ((hn.spends _).threads_le.trans_lt hlt) hx
  have heff := hstirs.effort_le Nat.one_pos
  exact concludes_report hn hs (Scene.Turn.call name x s rs hx).run ((heff 0 0).trans he) heff hlt
    name _ false [] trivial returned

mutual

/-- **Any step** ends in a settled state. The induction is on the structure of the step. -/
theorem runStep_concludes {n : Nat} (hn : Calms n settle) (name : String) :
    ∀ (x : Step α) {s : Session α} {f : Fifo α} {rs : List (Option Nat)}
    (_ : (Scene.mk s rs).Sound f) (_ : s.effort (callsOf x) 0 ≤ n)
    (_ : (runStep settle name x s).2.threads < Word.size),
    Concludes rs (callsOf x) s (runStep settle name x s)
  | .emplace wait fallible inner build, s, f, rs, hs, he, hlt => by
    rw [callsOf] at he ⊢
    rw [runStep] at hlt ⊢
    cases hadm : s.queue.admitProducer s.nextThread wait with
    | mk o q =>
      rw [hadm] at hlt
      match o with
      | none =>
        have hlt' := (hn.spends _).threads_le.trans_lt hlt
        have hstirs := (Scene.advances_emplaceParked fallible inner build hs.session hs.running
          hlt' hadm).2
        have heff := hstirs.effort_le (Nat.lt_add_right _ Nat.one_pos)
        exact concludes_report hn hs (Scene.Turn.parked fallible inner build rs hadm).run
          ((heff 0 0).trans he) heff hlt name _ false [] trivial _
      | some (.error r) =>
        have hlt' : s.threads < Word.size := (hn.spends (s.setQueue q)).threads_le.trans_lt hlt
        have hstirs := (Scene.advances_refused hs.session hs.running hlt' hadm).2
          (1 + callsIn inner)
        have heff := hstirs.effort_le (Nat.lt_add_right _ Nat.one_pos)
        exact concludes_report hn hs (Scene.Turn.refused rs hadm).run ((heff 0 0).trans he) heff hlt
          name _ false [] trivial _
      | some (.ok ()) =>
        -- the constructor's steps, with one more constructor that runs
        have hltc : (runSteps settle name inner (s.setQueue q)).2.threads < Word.size :=
          ((spends_construct name build _).trans (hn.spends _)).threads_le.trans_lt hlt
        have hltq : s.threads < Word.size :=
          (spends_runSteps hn.spends name inner (s.setQueue q)).threads_le.trans_lt hltc
        have hadv := Scene.advances_began hs.session hs.running hltq hadm
        have hbegan : ∀ k e, (s.setQueue q).effort (callsIn inner + k) (e + 1) <
            s.effort (1 + callsIn inner + k) e :=
          effort_began (Nat.le_refl _) (hadv.size_eq hs.session)
        have heq : (s.setQueue q).effort (callsIn inner) 0 ≤ n :=
          (effort_mono _ (Nat.le_refl _) (Nat.zero_le 1)).trans ((hbegan 0 0).le.trans he)
        have hinner := runSteps_conclude hn name inner (hadv.sound hs) heq hltc
        -- its end
        obtain ⟨⟨h, hr⟩, hended⟩ := hinner.ended (hadv.sound hs) hltc name build
        have heff : ∀ k e, ((runSteps settle name inner (s.setQueue q)).2.construct name
            build).2.effort k e ≤ s.effort (1 + callsIn inner + k) e := fun k e =>
          (hended k e).le.trans (hbegan k e).le
        exact concludes_report hn hs ((Scene.Turn.began rs hadm).run.trans hr)
          ((heff 0 0).trans he) heff hlt name _ true _ hinner.fair _
  | .push v wait, s, f, rs, hs, he, hlt => runStep_call_concludes hn name (by simp) hs he hlt
  | .pop wait, s, f, rs, hs, he, hlt => runStep_call_concludes hn name (by simp) hs he hlt
  | .iter most, s, f, rs, hs, he, hlt => runStep_call_concludes hn name (by simp) hs he hlt
  | .tryIter most, s, f, rs, hs, he, hlt => runStep_call_concludes hn name (by simp) hs he hlt
  | .close, s, f, rs, hs, he, hlt => runStep_call_concludes hn name (by simp) hs he hlt
  | .info, s, f, rs, hs, he, hlt => runStep_call_concludes hn name (by simp) hs he hlt
  | .outline, s, f, rs, hs, he, hlt => runStep_call_concludes hn name (by simp) hs he hlt
  | .elapse t, s, f, rs, hs, he, hlt => runStep_call_concludes hn name (by simp) hs he hlt

/-- **Any steps.** -/
theorem runSteps_conclude {n : Nat} (hn : Calms n settle) (name : String) :
    ∀ (xs : List (Step α)) {s : Session α} {f : Fifo α} {rs : List (Option Nat)}
    (_ : (Scene.mk s rs).Sound f) (_ : s.effort (callsIn xs) 0 ≤ n)
    (_ : (runSteps settle name xs s).2.threads < Word.size),
    Conclude rs (callsIn xs) s (runSteps settle name xs s)
  | [], s, f, rs, hs, he, hlt =>
    ⟨⟨[], .nil _⟩, trivial, id, fun k e => effort_mono s (Nat.le_add_left _ _) (Nat.le_refl _)⟩
  | x :: xs, s, f, rs, hs, he, hlt => by
    rw [callsIn] at he ⊢
    rw [runSteps] at hlt ⊢
    have hlt₁ : (runStep settle name x s).2.threads < Word.size :=
      (spends_runSteps hn.spends name xs _).threads_le.trans_lt hlt
    have hstep := runStep_concludes hn name x hs
      ((effort_mono s (Nat.le_add_right _ _) (Nat.le_refl _)).trans he) hlt₁
    obtain ⟨h, hr⟩ := hstep.run
    obtain ⟨f₁, hs₁, -⟩ := hr.sound hs hlt₁
    have hrest := runSteps_conclude hn name xs hs₁ ((hstep.effort (callsIn xs) 0).trans he) hlt
    obtain ⟨h', hr'⟩ := hrest.run
    refine ⟨⟨_, hr.trans hr'⟩, ⟨hstep.fair, hrest.fair⟩, fun _ => hrest.calm hstep.calm,
      fun k e => (hrest.effort k e).trans ?_⟩
    rw [Nat.add_assoc]
    exact hstep.effort (callsIn xs + k) e

end

/-! ### Letting threads run -/

/-- Where nobody is awake nobody can be let run. -/
theorem runnable?_of_awake (h : s.awake = 0) : s.runnable? = none := by
  rw [runnable?, List.find?_eq_none]
  exact List.countP_eq_zero.mp h

/-- **The turn of a thread lowers the effort**, the steps of its constructor and the turns that
threads are let run for after each of them included. -/
theorem resume_tires {n : Nat} (hn : Calms n settle) (hs : (Scene.mk s rs).Sound f)
    (he : s.effort 0 0 ≤ n + 1) (hw : w ∈ s.waiting) (ha : s.isAsleep w.thread = false)
    (hlt : (s.resume settle w).2.threads < Word.size) :
    (∃ h, Scene.Run ⟨s, rs⟩ h ⟨(s.resume settle w).2, rs⟩) ∧
      Report.AllFair (rs.length + 1) (s.resume settle w).1 ∧
      ∀ k e, (s.resume settle w).2.effort k e < s.effort k e := by
  have hlts : s.threads < Word.size := (spends_resume hn.spends hw).threads_le.trans_lt hlt
  by_cases hb : ∃ q, w.Begins s.queue q
  · obtain ⟨q, hb⟩ := hb
    have hadv := Scene.advances_resumedInto hs.session hs.running hlts hw ha hb
    have hinto := Scene.Turn.resumedInto rs hw ha hb
    obtain ⟨limit, fallible, inner, build, ht, hadm⟩ := hb
    rw [resume_of_begins ht hadm] at hlt ⊢
    have hcalls : ((s.setQueue q).leave w.thread).callsAhead + (1 + callsIn inner) =
        s.callsAhead := by
      rw [show 1 + callsIn inner = callsOfThread w by rw [callsOfThread, ht]]
      exact callsAhead_leave hs.session.nodup hw
    have hbegan := effort_resumedInto hcalls (hadv.size_eq hs.session)
    have hltc : (runSteps settle (threadName w.thread) inner
        ((s.setQueue q).leave w.thread)).2.threads < Word.size :=
      (spends_construct (threadName w.thread) build _).threads_le.trans_lt hlt
    have heq : ((s.setQueue q).leave w.thread).effort (callsIn inner) 0 ≤ n :=
      (effort_mono _ (Nat.le_refl _) (Nat.zero_le 1)).trans
        (Nat.le_of_lt_succ ((hbegan 0 0).trans_le he))
    have hinner := runSteps_conclude hn (threadName w.thread) inner (hadv.sound hs) heq hltc
    obtain ⟨⟨h, hr⟩, hended⟩ :=
      hinner.ended (hadv.sound hs) hltc (threadName w.thread) build
    exact ⟨⟨_, hinto.run.trans hr⟩, hinner.fair, fun k e => (hended k e).trans (hbegan k e)⟩
  · have hb := not_exists.mp hb
    obtain ⟨f', -, htires⟩ := Scene.advances_resumed hs.session hs.running hlts hw ha hb
    rw [(resume_cases settle hb).1]
    exact ⟨⟨_, (Scene.Turn.resumed rs hw ha hb).run⟩, trivial, htires.effort_lt⟩

/-- **Letting threads run ends with everybody asleep or gone**, if the turns are as many as the
effort. A thread that is let run may carry out steps, after each of which threads are let run for
one turn less. -/
theorem calms_settleWithin (n : Nat) : Calms n (settleWithin (α := α) n) := by
  induction n with
  | zero =>
    refine ⟨spends_settleWithin 0, fun {s f rs} hs he _ => ?_⟩
    have hawake : s.awake = 0 := by
      rw [effort] at he
      omega
    exact ⟨⟨[], .nil _⟩, runnable?_of_awake hawake, trivial, fun _ _ => Nat.le_refl _⟩
  | succ n ih =>
    refine ⟨spends_settleWithin (n + 1), fun {s f rs} hs he hlt => ?_⟩
    rw [settleWithin] at hlt ⊢
    cases hrun : s.runnable? with
    | none => exact ⟨⟨[], .nil _⟩, hrun, trivial, fun _ _ => Nat.le_refl _⟩
    | some w =>
      rw [hrun] at hlt
      dsimp only at hlt ⊢
      have hw : w ∈ s.waiting := List.mem_of_find?_eq_some hrun
      have ha : s.isAsleep w.thread = false := by
        simpa using List.find?_some hrun
      have hlt₁ : (s.resume (settleWithin n) w).2.threads < Word.size :=
        (ih.spends _).threads_le.trans_lt hlt
      -- one turn lowers the effort, so the rest is enough for what is left
      obtain ⟨⟨h, hr⟩, hfair, heff⟩ := resume_tires ih hs he hw ha hlt₁
      obtain ⟨f₁, hs₁, -⟩ := hr.sound hs hlt₁
      obtain ⟨⟨h', hr'⟩, hcalm, hfair', heff'⟩ :=
        ih.run hs₁ (Nat.le_of_lt_succ ((heff 0 0).trans_le he)) hlt
      exact ⟨⟨_, hr.trans hr'⟩, hcalm, hfair.append hfair',
        fun k e => (heff' k e).trans (heff k e).le⟩

/-- **Letting threads run always ends with everybody asleep or gone.** -/
theorem calms_settle (n : Nat) : Calms n (Session.settle (α := α)) :=
  ⟨fun s => spends_settleWithin s.turns s, fun {s} _ _ hs _ hlt =>
    (calms_settleWithin s.turns).run hs (effort_le_turns s) hlt⟩

end PermitRing.Queue.Session
