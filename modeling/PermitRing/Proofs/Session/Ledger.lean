import PermitRing.Proofs.Session.Turns

/-!
# What becomes of a parked push

Over a whole run the books of its turns add up. A thread returns at most once, since it is under way
from its start to its return and then no more. A push that was parked puts its element in exactly if
it succeeds, in the very turn in which it returns; a push that is handed its element back, because
the queue is closed or because its time is up, has put none in, and neither has one that still
waits.

## Main definitions

* `Scene.Ledger` — the books of a run;
* `Session.Accounted` — what they come to.

## Main results

* `Scene.Ledger.add` — one turn more;
* `Scene.Run.sound` — the invariant and the books of a whole run;
* `Scene.Run.accounted`, `closed_iff` — runs of a new queue.
-/

namespace PermitRing.Queue.Session

variable {α : Type}

theorem mem_returnersIn {t : Nat} {a : Answer α} {h : List (Event α)} (hm : .returned t a ∈ h) :
    t ∈ returnersIn h :=
  List.mem_filterMap.mpr ⟨_, hm, rfl⟩

theorem mem_startersIn {t : Nat} {task : Task α} {h : List (Event α)} (hm : .started t task ∈ h) :
    t ∈ startersIn h :=
  List.mem_filterMap.mpr ⟨_, hm, rfl⟩

/-- A thread that returns once returns with one answer. -/
theorem eq_of_returned {t : Nat} {a b : Answer α} : ∀ {h : List (Event α)},
    (returnersIn h).Nodup → .returned t a ∈ h → .returned t b ∈ h → a = b
  | x :: h, hn, ha, hb => by
    have hrest : (returnersIn h).Nodup :=
      hn.sublist ((List.sublist_cons_self x h).filterMap _)
    -- an event of the thread at the head leaves none behind it
    have hhead : ∀ {a b : Answer α}, x = .returned t a → .returned t b ∈ h → False := by
      rintro a b rfl hm
      exact (List.nodup_cons.mp hn).1 (mem_returnersIn hm)
    rcases List.mem_cons.mp ha with hax | ha
    · rcases List.mem_cons.mp hb with hbx | hb
      · exact (Event.returned.inj (hax.trans hbx.symm)).2
      · exact (hhead hax.symm hb).elim
    · rcases List.mem_cons.mp hb with hbx | hb
      · exact (hhead hbx.symm ha).elim
      · exact eq_of_returned hrest ha hb

namespace Scene

variable {c c' : Scene α} {e h : List (Event α)} {f f' : Fifo α}

/-- The books of a run that has come to `c`. -/
structure Ledger (c : Scene α) (h : List (Event α)) : Prop where
  /-- Nobody is under way who has returned, and nobody has returned twice. -/
  nodup : (c.underway ++ returnersIn h).Nodup
  /-- Only threads that were started have returned. -/
  known : ∀ t ∈ returnersIn h, t ≤ c.session.threads
  /-- Nothing has gone in for threads that are still to be started. -/
  fresh : ∀ t, c.session.threads < t → enteredBy t h = []
  /-- A push that was parked still waits and has put nothing in, or came to its end. -/
  pushes : ∀ t v limit, .started t (.push v limit) ∈ h → limit.isLong = true ∧
    ∃ limit', Remains t h limit limit' ∧
      ((c.Pushing t v limit' ∧ enteredBy t h = []) ∨ Settled t v limit' h)

theorem Pushing.mem_underway {t : Nat} {v : α} {limit : Patience} (hp : c.Pushing t v limit) :
    t ∈ c.underway :=
  List.mem_append_left _ (List.mem_map_of_mem (f := Waiting.thread) hp)

/-- A push that came to its end during a turn had put nothing in before. -/
theorem Settled.of_left {t : Nat} {v : α} {limit : Patience} (hs : Settled t v limit e)
    (hh : enteredBy t h = []) : Settled t v limit (h ++ e) := by
  obtain ⟨a, hm, he⟩ := hs
  refine ⟨a, List.mem_append_right _ hm, ?_⟩
  rwa [enteredBy_append, hh, List.nil_append]

/-- A push that has come to its end puts nothing in any more. -/
theorem Settled.of_right {t : Nat} {v : α} {limit : Patience} (hs : Settled t v limit h)
    (he : enteredBy t e = []) : Settled t v limit (h ++ e) := by
  obtain ⟨a, hm, hh⟩ := hs
  refine ⟨a, List.mem_append_left _ hm, ?_⟩
  rwa [enteredBy_append, he, List.append_nil]

theorem Settled.mem_returners {t : Nat} {v : α} {limit : Patience} (hs : Settled t v limit h) :
    t ∈ returnersIn h := by
  obtain ⟨a, hm, -⟩ := hs
  exact mem_returnersIn hm

namespace Ledger

/-- Nobody is started who has been under way or has returned. -/
theorem nodup_add (hl : c.Ledger h) (hc : c.Sound f) (hb : Books c e c') :
    (c'.underway ++ returnersIn (h ++ e)).Nodup := by
  have hperm : (c'.underway ++ returnersIn (h ++ e)).Perm
      (startersIn e ++ (c.underway ++ returnersIn h)) := by
    rw [returnersIn_append]
    calc c'.underway ++ (returnersIn h ++ returnersIn e)
        |>.Perm (c'.underway ++ (returnersIn e ++ returnersIn h)) :=
          List.perm_append_comm.append_left _
      _ = c'.underway ++ returnersIn e ++ returnersIn h := (List.append_assoc _ _ _).symm
      _ |>.Perm (c.underway ++ startersIn e ++ returnersIn h) := hb.underway.append_right _
      _ |>.Perm (startersIn e ++ c.underway ++ returnersIn h) :=
          List.perm_append_comm.append_right _
      _ = startersIn e ++ (c.underway ++ returnersIn h) := List.append_assoc _ _ _
  refine hperm.nodup_iff.mpr ?_
  rcases hb.started with ⟨hs, -⟩ | ⟨hs, -⟩
  · rw [hs]
    exact hl.nodup
  · rw [hs, List.singleton_append]
    refine List.nodup_cons.mpr ⟨fun hm => ?_, hl.nodup⟩
    have hle : c.session.nextThread ≤ c.session.threads := by
      rcases List.mem_append.mp hm with hm | hm
      · exact hc.started _ hm
      · exact hl.known _ hm
    exact Nat.not_succ_le_self _ hle

/-- Whoever returns in a turn was started. -/
theorem known_add (hl : c.Ledger h) (hc : c.Sound f) (hb : Books c e c') :
    ∀ t ∈ returnersIn (h ++ e), t ≤ c'.session.threads := by
  intro t hm
  rw [returnersIn_append] at hm
  rcases List.mem_append.mp hm with hm | hm
  · exact (hl.known t hm).trans hb.threads_le
  · have hm' := hb.underway.subset (List.mem_append_right _ hm)
    rcases List.mem_append.mp hm' with hu | hs
    · exact (hc.started t hu).trans hb.threads_le
    · rcases hb.started with ⟨hnil, -⟩ | ⟨hone, ht⟩
      · rw [hnil] at hs
        cases hs
      · rw [hone] at hs
        rw [List.mem_singleton.mp hs, ht]

/-- **One turn more.** -/
theorem add (hl : c.Ledger h) (hc : c.Sound f) (hb : Books c e c') : c'.Ledger (h ++ e) := by
  have hnodup := hl.nodup_add hc hb
  have hknown := hl.known_add hc hb
  have hdisjoint : ∀ t ∈ c'.underway, t ∉ returnersIn e := fun t hu hm =>
    (List.nodup_append'.mp hnodup).2.2 hu
      (returnersIn_append h e ▸ List.mem_append_right _ hm)
  refine ⟨hnodup, hknown, fun t hlt => ?_, fun t v limit hm => ?_⟩
  · rw [enteredBy_append, hl.fresh t (hb.threads_le.trans_lt hlt), List.nil_append]
    refine hb.entering t fun hm => ?_
    have := hknown t (returnersIn_append h e ▸ List.mem_append_right _ hm)
    omega
  · rcases List.mem_append.mp hm with hm | hm
    · obtain ⟨hlong, limit₁, hrem, hends⟩ := hl.pushes t v limit hm
      refine ⟨hlong, ?_⟩
      rcases hends with ⟨hp, hnone⟩ | hset
      · rcases hb.pushing t v limit₁ hp with ⟨limit₂, hrem', hp', hstay⟩ | hset
        · refine ⟨limit₂, hrem.trans hrem', .inl ⟨hp', ?_⟩⟩
          rw [enteredBy_append, hnone, hb.entering t hstay, List.nil_append]
        · exact ⟨limit₁, hrem.trans (remains_refl t e limit₁), .inr (hset.of_left hnone)⟩
      · -- it has returned before, so it does not return in this turn
        refine ⟨limit₁, hrem.trans (remains_refl t e limit₁),
          .inr (hset.of_right (hb.entering t fun hm => ?_))⟩
        have hret := (List.nodup_append'.mp hnodup).2.1
        rw [returnersIn_append] at hret
        exact (List.nodup_append'.mp hret).2.2 hset.mem_returners hm
    · obtain ⟨hp, hlong⟩ := hb.parked t v limit hm
      refine ⟨hlong, limit, remains_refl t _ limit, .inl ⟨hp, ?_⟩⟩
      have hnew : c.session.threads < t := by
        rcases hb.started with ⟨hnil, -⟩ | ⟨hone, -⟩
        · have := mem_startersIn hm
          rw [hnil] at this
          cases this
        · have := mem_startersIn hm
          rw [hone] at this
          rw [List.mem_singleton.mp this]
          exact Nat.lt_succ_self _
      rw [enteredBy_append, hl.fresh t hnew, List.nil_append]
      exact hb.entering t (hdisjoint t hp.mem_underway)

end Ledger

/-! ### What is to be reported -/

theorem returned_act (name : String) (x : Step α) (s : Session α) :
    (s.act name x).2.returned = s.returned := by
  cases x with
  | push | pop | close =>
    rw [act]
    split <;> rfl
  | elapse t =>
    rw [act]
    cases he : s.elapse? t with
    | none => rfl
    | some s' =>
      obtain rfl := eq_of_elapse? he
      rfl
  | iter | tryIter | emplace | info | outline => rfl

theorem returned_construct (name : String) (build : Build α) (s : Session α) :
    (s.construct name build).2.returned = s.returned := by
  cases build with
  | built v =>
    rw [construct]
    split <;> rfl
  | failed error | raised text => rfl

/-- What is to be reported after a thread's call returned is that, or was to be before. -/
theorem mem_returned_finishThread {s : Session α} {t : Nat} {a : Answer α} {r : Nat × Answer α}
    (hr : r ∈ (s.finishThread t a).returned) : r ∈ s.returned ∨ r = (t, a) := by
  rcases List.mem_append.mp hr with hr | hr
  · exact .inl hr
  · exact .inr (List.mem_singleton.mp hr)

/-- A call that returns in the turn of its thread is in the history. -/
theorem mem_returned_resume {s : Session α} {w : Waiting α} {r : Nat × Answer α}
    (hb : ∀ q, ¬w.Begins s.queue q) (hr : r ∈ (s.resume idle w).2.returned) :
    r ∈ s.returned ∨ .returned r.1 r.2 ∈ w.events s.queue := by
  obtain ⟨t, task⟩ := w
  cases task with
  | push v limit =>
    simp only [resume] at hr
    simp only [Waiting.events]
    rcases hq : s.queue.resumePush t v limit with ⟨_ | p, q⟩ <;> simp only [hq] at hr ⊢
    · exact .inl hr
    · refine (mem_returned_finishThread hr).imp id ?_
      rintro rfl
      cases p <;> simp [Answer.ofPushed]
  | pop limit =>
    simp only [resume] at hr
    simp only [Waiting.events]
    rcases hq : s.queue.resumePop t limit with ⟨_ | p, q⟩ <;> simp only [hq] at hr ⊢
    · exact .inl hr
    · refine (mem_returned_finishThread hr).imp id ?_
      rintro rfl
      simp
  | iter left got =>
    by_cases hl : left = some 0
    · subst hl
      refine (mem_returned_finishThread hr).imp id ?_
      rintro rfl
      simp [Waiting.events]
    · rw [resume_iter_eq idle s hl] at hr
      simp only [Waiting.events, if_neg hl]
      rcases hq : s.queue.resumePop t .endless with ⟨_ | v | _ | f, q⟩ <;> simp only [hq] at hr ⊢
      · exact .inl hr
      · rcases goOn_cases (s.setQueue q) t hl (got ++ [v]) with ⟨h1, hgo⟩ | ⟨-, left', -, hgo⟩
        · simp only [idle, hgo] at hr
          refine (mem_returned_finishThread hr).imp id ?_
          rintro rfl
          simp [h1]
        · simp only [idle, hgo] at hr
          exact .inl hr
      · refine (mem_returned_finishThread hr).imp id ?_
        rintro rfl
        simp
      · refine (mem_returned_finishThread hr).imp id ?_
        rintro rfl
        simp
  | emplace limit fallible inner build =>
    simp only [resume] at hr
    simp only [Waiting.events]
    rcases hq : s.queue.readmitProducer t limit with ⟨_ | r' | u, q⟩ <;> simp only [hq] at hr ⊢
    · exact .inl hr
    · refine (mem_returned_finishThread hr).imp id ?_
      rintro rfl
      simp
    · exact absurd ⟨_, _, _, _, rfl, hq⟩ (hb q)

/-- Whatever is to be reported has happened in the turn, or before. -/
theorem Turn.mem_returned (ht : Turn c e c') {r : Nat × Answer α} (hr : r ∈ c'.session.returned) :
    r ∈ c.session.returned ∨ .returned r.1 r.2 ∈ e := by
  cases ht with
  | call name x s rs hx => exact .inl (returned_act name x s ▸ hr)
  | refused | parked | began | resumedInto => exact .inl hr
  | ended name build s t rs =>
    cases t with
    | none => exact .inl (returned_construct name build s ▸ hr)
    | some t =>
      rcases mem_returned_finishThread hr with hr | rfl
      · exact .inl (returned_construct name build s ▸ hr)
      · exact .inr (List.mem_append_right _ (List.mem_singleton_self _))
  | resumed rs hw ha hb => exact mem_returned_resume hb hr
  | reported => exact absurd hr List.not_mem_nil

/-! ### Runs -/

theorem Run.mem_returned (hr : Run c h c') {r : Nat × Answer α} (hm : r ∈ c'.session.returned) :
    r ∈ c.session.returned ∨ .returned r.1 r.2 ∈ h := by
  induction hr with
  | nil => exact .inl hm
  | snoc _ ht ih =>
    rcases ht.mem_returned hm with hm | hm
    · exact (ih hm).imp id (List.mem_append_left _)
    · exact .inr (List.mem_append_right _ hm)

/-- **The invariant of runs**, with the way of the elements, the closing and the books. -/
theorem Run.sound (hr : Run c h c') (hc : c.Sound f) (hlt : c'.session.threads < Word.size) :
    ∃ f', c'.Sound f' ∧ f.items ++ enteredIn h = takenIn h ++ f'.items ∧
      (f'.isClosed = true ↔ f.isClosed = true ∨ .closed ∈ h) ∧
      ∀ h₀, c.Ledger h₀ → c'.Ledger (h₀ ++ h) := by
  induction hr with
  | nil =>
    exact ⟨f, hc, List.append_nil _, closing_of_eq rfl List.not_mem_nil,
      fun h₀ hl => (List.append_nil h₀).symm ▸ hl⟩
  | @snoc c' c'' h e _ ht ih =>
    obtain ⟨f', hc', hi, hclosing, hl⟩ := ih (ht.threads_le.trans_lt hlt)
    obtain ⟨f'', hadv⟩ := ht.advances hc' hlt
    refine ⟨f'', hadv.sound hc', ?_, ?_, fun h₀ hl₀ => ?_⟩
    · rw [enteredIn_append, takenIn_append, ← List.append_assoc, hi, List.append_assoc, hadv.items,
        List.append_assoc]
    · rw [hadv.closing, hclosing, List.mem_append, or_assoc]
    · rw [← List.append_assoc]
      exact (hl h₀ hl₀).add hc' hadv.books

end Scene

/-! ### Runs of a new queue -/

/-- What a history comes to whose queue holds `items` in the end. -/
structure Accounted (h : List (Event α)) (items : List α) : Prop where
  /-- Elements come out in the order in which they went in. -/
  fifo : enteredIn h = takenIn h ++ items
  /-- No call returns twice. -/
  once : (returnersIn h).Nodup
  /-- A parked push that returns has put its element in and succeeded, or it is handed its element
  back and has put none in: with the answer that the queue is closed, or that time is up, and then
  the time limit that it had has passed. -/
  pushed : ∀ t v limit a, .started t (.push v limit) ∈ h → .returned t a ∈ h →
    (a = .done ∧ enteredBy t h = [v]) ∨
    (a = .rejected ⟨v, .closed⟩ ∧ enteredBy t h = []) ∨
    (a = .rejected ⟨v, .timedOut⟩ ∧ enteredBy t h = [] ∧ limit = .lasting ∧ .elapsed t ∈ h)
  /-- A parked push that has not returned has put nothing in. -/
  waiting : ∀ t v limit, .started t (.push v limit) ∈ h → t ∉ returnersIn h → enteredBy t h = []

namespace Scene

/-- The scene of a new queue. -/
def new (q : Queue α) (level : Log.Level) : Scene α :=
  ⟨{ queue := q, level }, []⟩

variable {d : Discipline} {k : Config} {order : Side → Nat → Nat} {q : Queue α}
  {level : Log.Level} {c : Scene α} {h : List (Event α)}

theorem sound_new (hq : create d k order = .ok q) (level : Log.Level) :
    (new q level).Sound { discipline := d, capacity := k.capacity } :=
  ⟨sound_create hq level, rfl, List.nodup_nil, nofun⟩

theorem ledger_new (q : Queue α) (level : Log.Level) : (new q level).Ledger [] :=
  ⟨List.nodup_nil, nofun, fun _ _ => rfl, nofun⟩

/-- A limit that is short now has passed. -/
theorem Remains.passed {t : Nat} {limit limit' : Patience} (hr : Remains t h limit limit')
    (hl : limit.isLong = true) (hs : limit'.isLong = false) :
    limit = .lasting ∧ .elapsed t ∈ h := by
  rcases hr with rfl | ⟨hm, hx⟩
  · rw [hl] at hs
    cases hs
  · cases limit <;> cases hx
    exact ⟨rfl, hm⟩

/-- **Runs of a new queue.** The elements that are left are those that went in and have not come
out, in their order; no call returns twice; and a parked push that returns has put its element in or
is handed it back. -/
theorem Run.accounted (hq : create d k order = .ok q) (hr : Run (new q level) h c)
    (hlt : c.session.threads < Word.size) : ∃ f, c.Sound f ∧ Accounted h f.items := by
  obtain ⟨f, hc, hi, -, hl⟩ := hr.sound (sound_new hq level) hlt
  have hl := hl [] (ledger_new q level)
  rw [List.nil_append] at hl
  have honce := (List.nodup_append'.mp hl.nodup).2.1
  refine ⟨f, hc, hi, honce, fun t v limit a hs hm => ?_, fun t v limit hs hm => ?_⟩
  · obtain ⟨hlong, limit', hrem, ⟨hp, -⟩ | ⟨b, hb, hends⟩⟩ := hl.pushes t v limit hs
    · exact absurd (mem_returnersIn hm) ((List.nodup_append'.mp hl.nodup).2.2 hp.mem_underway)
    · obtain rfl := eq_of_returned honce hm hb
      generalize hby : enteredBy t h = vs at hends
      cases hends with
      | accepted => exact .inl ⟨rfl, rfl⟩
      | closed => exact .inr (.inl ⟨rfl, rfl⟩)
      | timedOut hs => exact .inr (.inr ⟨rfl, rfl, hrem.passed hlong hs⟩)
  · obtain ⟨-, limit', -, ⟨-, he⟩ | hset⟩ := hl.pushes t v limit hs
    · exact he
    · exact absurd hset.mem_returners hm

/-- **A queue is closed once a call has closed it**, and not before. -/
theorem Run.closed_iff (hq : create d k order = .ok q) (hr : Run (new q level) h c)
    (hlt : c.session.threads < Word.size) {f : Fifo α} (hc : c.Sound f) :
    f.isClosed = true ↔ .closed ∈ h := by
  obtain ⟨g, hg, -, hclosing, -⟩ := hr.sound (sound_new hq level) hlt
  rw [hc.session.represents.isClosed_iff, ← hg.session.represents.isClosed_iff, hclosing]
  exact or_iff_right nofun

end Scene

end PermitRing.Queue.Session
