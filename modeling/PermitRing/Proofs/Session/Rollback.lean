import PermitRing.Proofs.Machine.Admission
import PermitRing.Proofs.Session.Integrity

/-!
# A constructor that builds nothing leaves no trace

When a constructor has failed or given up, its reservation goes back: the permit first, then the
place on the count of producers. By then its own steps may have moved elements, closed the queue or
started further constructors, and none of that is undone. What the end of the constructor itself
changes is the one permit and the count, and who sleeps: one producer is roused for the permit, and
the last one to leave a closed queue rouses every consumer. The slots and the indices are those that
its steps have left, so the slot that its element would have gone to is the one that the next
element goes to.

## Main definitions

* `Session.RolledBack` — what the end of such a constructor does at once;
* `Scene.Aftermath` — what it means for the turns that follow;
* `Scene.Carries` — how the constructors of calls come to run.

## Main results

* `Scene.Sound.rolledBack` — the rollback, whatever the constructor has done before;
* `Scene.Run.returned_of_closed` — in a closed queue without constructors everybody returns;
* `Session.no_trace` — for every run of a new queue.
-/

namespace PermitRing.Queue

variable {α : Type} {q q' : Queue α} {f : Fifo α}

/-! ### The end of a producer's stay -/

/-- The permit that is handed back rouses a producer. -/
theorem Represents.sleepers_abandon_produce (h : q.Represents f) (hr : 0 < f.running) :
    q.abandonProducer.sleepers .produce = q.gate.produce.parker.unparkOne.sleepers := by
  rw [(h.abandonProducer hr).1, sleepers, Gate.side, produce_left]
  rfl

/-- The last producer to leave a closed queue rouses all consumers, and no other rouses any. -/
theorem Represents.sleepers_abandon_consume (h : q.Represents f) (hs : q.Sound)
    (hr : 0 < f.running) :
    q.abandonProducer.sleepers .consume =
      if f.running = 1 ∧ q.isOpen = false then [] else q.sleepers .consume := by
  rw [(h.abandonProducer hr).1, ← h.pending]
  show (Gate.consume (if q.pending = 1 ∧ q.isOpen = false then _ else _)).parker.sleepers = _
  split
  · exact Permits.sleepers_releaseAll hs.consume
  · rfl

/-- The permit is back, and one producer less is counted. -/
theorem Represents.counts_abandon (h : q.Represents f) {n : Nat} (hr : f.running = n + 1) :
    q.abandonProducer.free = q.free + 1 ∧ q.abandonProducer.pending + 1 = q.pending ∧
      q.abandonProducer.size + q.abandonProducer.free + n = q.abandonProducer.capacity := by
  obtain ⟨habandon, hrep⟩ := h.abandonProducer (hr ▸ Nat.succ_pos n)
  rw [← habandon] at hrep
  have hroom := h.room
  have hfree : q.free = f.free := h.produce
  have hfree' : q.abandonProducer.free = f.unreserve.free := hrep.produce
  have hpending := h.pending
  have hpending' := hrep.pending
  have hsize : q.abandonProducer.size = f.items.length := hrep.size_eq
  have hcap : q.abandonProducer.capacity = f.capacity := hrep.capacity
  simp only [Fifo.free, Fifo.unreserve, hr, Nat.add_sub_cancel] at hroom hfree hfree' hpending'
  omega

/-- While the queue is open, a producer that goes on once the permit is back is let in. -/
theorem Represents.readmit_abandon (h : q.Represents f) (hs : q.Sound) (hr : 0 < f.running)
    (ho : q.isOpen = true) (hp : q.gate.produce.parker.parked < Word.size) (thread : Nat)
    (limit : Patience) : q.abandonProducer.readmitProducer thread limit =
      (some (.ok ()), q.abandonProducer.reserved) := by
  have hpass := h.abandon_passes hs hr
  have hclosed : f.unreserve.isClosed = false := by
    have hopen := h.isOpen
    rw [ho] at hopen
    simpa [Fifo.unreserve] using hopen.symm
  have hroom : f.unreserve.items.length + f.unreserve.running < f.unreserve.capacity := by
    have := h.room
    show f.items.length + (f.running - 1) < f.capacity
    omega
  have hparked : q.abandonProducer.gate.produce.parker.parked < Word.size :=
    hpass.parked_lt (y := .produce) hs hp
  have hpos := hpass.represents.produce_pos_iff.mpr hroom
  rcases hpass.represents.readmit_cases hpass.sound hparked thread limit with
    ⟨hc, -⟩ | ⟨-, -, he⟩ | ⟨-, hzero, -⟩ | ⟨-, hzero, -⟩
  · rw [hclosed] at hc
    cases hc
  · exact he
  · omega
  · omega

/-- Whoever comes inside finds the queue open. -/
theorem isOpen_of_enterAfter {o : Option Permits.Outcome}
    (he : q.enterAfter o = (some (.ok ()), q')) : q.isOpen = true := by
  by_contra ho
  rcases o with _ | _ | _ | _ <;> simp [enterAfter, enterProducer, ho] at he

theorem isOpen_of_readmitProducer {thread : Nat} {limit : Patience}
    (he : q.readmitProducer thread limit = (some (.ok ()), q')) : q.isOpen = true := by
  have hopen : (q.setProduce (q.gate.produce.resume thread limit (!q.isOpen)).2).isOpen = true :=
    isOpen_of_enterAfter he
  exact hopen

theorem isOpen_of_admitProducer {thread : Nat} {wait : Wait}
    (he : q.admitProducer thread wait = (some (.ok ()), q')) : q.isOpen = true := by
  by_contra ho
  unfold admitProducer at he
  rw [if_pos (by simpa using ho)] at he
  cases he

/-- A producer that does not sleep is let in if the queue is open and a permit is there, and not
otherwise. -/
theorem Represents.admitProducer_iff (h : q.Represents f)
    (hp : q.gate.produce.parker.parked < Word.size) {thread : Nat} {wait : Wait} :
    q.admitProducer thread wait = (some (.ok ()), q') ↔
      q.isOpen = true ∧ 0 < q.free ∧ q' = q.reserved := by
  constructor
  · intro he
    obtain ⟨rfl, hroom⟩ := h.eq_of_admitProducer hp he
    exact ⟨isOpen_of_admitProducer he, h.produce_pos_iff.mpr hroom, rfl⟩
  · rintro ⟨ho, hfree, rfl⟩
    have hclosed : f.isClosed = false := by simpa [ho] using h.isOpen.symm
    have hroom := h.produce_pos_iff.mp hfree
    have hadmission : f.admission? wait = some (.ok ()) := by
      unfold Fifo.admission?
      rw [hclosed, if_neg Bool.false_ne_true, if_pos hroom]
    rw [h.admitProducer hp, hadmission]

/-- The constructor builds nothing. -/
def Build.IsVain (build : Build α) : Prop :=
  ∀ v, build ≠ .built v

theorem Build.isVain_failed (error : String) : (Build.failed error : Build α).IsVain := by
  intro v hv
  cases hv

namespace Session

variable {s s' : Session α} {t : Option Nat} {rs : List (Option Nat)} {build : Build α}

/-! ### The rollback -/

/-- What the end of a constructor that has built nothing makes of the session `s` that its steps
have left, while the constructors `rs` go on. -/
structure RolledBack (s : Session α) (rs : List (Option Nat)) (s' : Session α) : Prop where
  /-- The slots and the indices stay as they are, and so does the stage of the queue's life. -/
  alike : Alike s.queue s'.queue
  /-- The elements stay, and the reservation is gone. -/
  contents : ∀ f, s.queue.Represents f → s'.queue.Represents f.unreserve
  /-- One permit is back, and one producer less is inside. -/
  free : s'.queue.free = s.queue.free + 1
  pending : s'.queue.pending + 1 = s.queue.pending
  whole : s'.queue.size + s'.queue.free + rs.length = s'.queue.capacity
  /-- Nobody has acted yet. -/
  waiting : s'.waiting = s.waiting
  returned : s'.returned = s.returned
  /-- One of the producers that sleep is roused, if there are any, and is let in if it goes on
  next, however long it would still wait. -/
  producer : (s.queue.sleepers .produce = [] ∧ s'.queue.sleepers .produce = []) ∨
    ∃ z, (s.queue.sleepers .produce).Perm (z :: s'.queue.sleepers .produce) ∧
      s'.isAsleep z.thread = false ∧
      (∃ w ∈ s'.waiting, w.thread = z.thread ∧ w.task.side? = some .produce) ∧
      ∀ limit, s'.queue.readmitProducer z.thread limit = (some (.ok ()), s'.queue.reserved)
  /-- Consumers are roused by the last constructor in a closed queue, and then all of them. -/
  consumers : s'.queue.sleepers .consume =
    if rs = [] ∧ s.queue.isOpen = false then [] else s.queue.sleepers .consume

theorem construct_of_vain (hb : build.IsVain) (name : String) (s : Session α) :
    ∃ a log, s.construct name build = (a, { s with queue := s.queue.abandonProducer, log }) := by
  cases build with
  | built v => exact absurd rfl (hb v)
  | failed error => exact ⟨_, _, rfl⟩
  | raised text => exact ⟨_, s.log, rfl⟩

/-- A thread sleeps on one side only. -/
theorem Sound.side_eq (hs : s.Sound f) {x y : Side} {z z' : Parker.Sleeper}
    (hz : z ∈ s.queue.sleepers x) (hz' : z' ∈ s.queue.sleepers y) (he : z.thread = z'.thread) :
    x = y := by
  obtain ⟨w, hw, hwz, hx⟩ := hs.sleeping x z hz
  obtain ⟨w', hw', hwz', hy⟩ := hs.sleeping y z' hz'
  have hww : w = w' :=
    List.inj_on_of_nodup_map hs.nodup hw hw' (hwz.trans (he.trans hwz'.symm))
  rw [hww, hy] at hx
  exact (Option.some.inj hx).symm

namespace Scene

variable {c c' : Scene α} {e h : List (Event α)}

/-- One producer that sleeps is roused, and is let in if it goes on next. -/
theorem Sound.rouses_producer (hc : (Scene.mk s (t :: rs)).Sound f) (hlt : s.threads < Word.size)
    (hq : s'.queue = s.queue.abandonProducer) (hw : s'.waiting = s.waiting) :
    (s.queue.sleepers .produce = [] ∧ s'.queue.sleepers .produce = []) ∨
      ∃ z, (s.queue.sleepers .produce).Perm (z :: s'.queue.sleepers .produce) ∧
        s'.isAsleep z.thread = false ∧
        (∃ w ∈ s'.waiting, w.thread = z.thread ∧ w.task.side? = some .produce) ∧
        ∀ limit, s'.queue.readmitProducer z.thread limit = (some (.ok ()), s'.queue.reserved) := by
  have hs := hc.session
  have hrunning : 0 < f.running := hc.running ▸ Nat.succ_pos _
  have hpass := hs.represents.abandon_passes hs.queue hrunning
  have hsleepers := hs.represents.sleepers_abandon_produce hrunning
  rcases Parker.unparkOne_eq hs.queue.produce with ⟨hnil, he⟩ | ⟨z, hz, he⟩
  · exact .inl ⟨hnil, by rw [hq, hsleepers, he]; exact hnil⟩
  · rw [he] at hsleepers
    obtain ⟨w, hwm, hwz, hside⟩ := hs.sleeping .produce z hz
    have hopen : s.queue.isOpen = true := by
      by_contra ho
      exact List.ne_nil_of_mem hz (hs.queue.closed (Bool.eq_false_iff.mpr ho))
    have hparked := (hs.parked_le .produce).trans_lt hlt
    refine .inr ⟨z, ?_, ?_, ⟨w, hw ▸ hwm, hwz, hside⟩,
      hq ▸ hs.represents.readmit_abandon hs.queue hrunning hopen hparked z.thread⟩
    · rw [hq, hsleepers]
      exact perm_cons_filter_ne hs.queue.produce.nodup hz
    · -- it does not sleep on the producers' side any more, and it never did on the other
      rw [awake_iff, hq]
      intro x y hy heq
      obtain rfl : x = .produce :=
        hs.side_eq ((hpass.sleepers_sublist x).subset hy) hz heq
      rw [hsleepers] at hy
      exact bne_iff_ne.mp (List.mem_filter.mp hy).2 heq

/-- **The rollback**, whatever the constructor has done before. -/
theorem Sound.rolledBack (hc : (Scene.mk s (t :: rs)).Sound f) (hlt : s.threads < Word.size)
    (hb : build.IsVain) (name : String) : RolledBack s rs (s.construct name build).2 := by
  obtain ⟨a, log, he⟩ := construct_of_vain hb name s
  have hs : s.Sound f := hc.session
  have hrunning : f.running = rs.length + 1 := hc.running
  have hpos : 0 < f.running := hrunning ▸ Nat.succ_pos _
  obtain ⟨hfree, hpending, hwhole⟩ := hs.represents.counts_abandon hrunning
  rw [he]
  refine
    { alike := s.queue.alike_abandonProducer
      contents := fun g hg => ?_
      free := hfree
      pending := hpending
      whole := hwhole
      waiting := rfl
      returned := rfl
      producer := hc.rouses_producer hlt rfl rfl
      consumers := ?_ }
  · have hgpos : 0 < g.running := by
      rwa [← hg.pending, hs.represents.pending]
    exact (hg.abandonProducer hgpos).1 ▸ (hg.abandonProducer hgpos).2
  · have hone : f.running = 1 ↔ rs = [] := by
      rw [hrunning, ← List.length_eq_zero_iff]
      omega
    show s.queue.abandonProducer.sleepers .consume = _
    rw [hs.represents.sleepers_abandon_consume hs.queue hpos]
    simp only [hone]

/-! ### The next element -/

theorem Run.tail_eq (hr : Run c h c') (hc : c.Sound f) (hlt : c'.session.threads < Word.size)
    (hi : enteredIn h = []) : c'.session.queue.tail = c.session.queue.tail := by
  refine hr.preserves (P := fun h c' => enteredIn h = [] →
    c'.session.queue.tail = c.session.queue.tail) hc hlt (fun _ => rfl) ?_ hi
  intro h c' e c'' f' ih hc' hlt' ht hi
  rw [enteredIn_append, List.append_eq_nil_iff] at hi
  rcases (ht.traces hc' (ht.threads_le.trans_lt hlt')).entered with ⟨-, htail⟩ | ⟨v, q, hv, -⟩
  · exact htail.trans (ih hi.1)
  · exact absurd (hv.symm.trans hi.2) (List.cons_ne_nil v [])

/-- An element that goes in is moved to the slot at which the tail stands. -/
theorem Turn.slot_of_entered (ht : Turn c e c') (hc : c.Sound f)
    (hlt : c.session.threads < Word.size) {v : α} (hi : enteredIn e = [v]) :
    c'.session.queue.storage.slots[c.session.queue.tail.position]? = some ⟨.full, some v⟩ := by
  rcases (ht.traces hc hlt).entered with ⟨hnil, -⟩ | ⟨w, q, hw, -, halike, hpub⟩
  · exact absurd (hi.symm.trans hnil) (List.cons_ne_nil v [])
  · obtain ⟨rfl, -⟩ := List.cons.inj (hi.symm.trans hw)
    rw [← halike.tail]
    exact slot_of_publish hpub

/-! ### Closed queues without constructors -/

theorem Turn.stays_closed (ht : Turn c e c') (hc : c.Sound f) (hlt : c.session.threads < Word.size)
    (ho : c.session.queue.isOpen = false) (hr : c.running = []) :
    c'.session.queue.isOpen = false ∧ c'.running = [] := by
  refine ⟨(ht.traces hc hlt).keeps.closed ho, ?_⟩
  cases ht with
  | began rs he => exact absurd (ho.symm.trans (isOpen_of_admitProducer he)) Bool.false_ne_true
  | resumedInto rs hw ha hb =>
    obtain ⟨limit, fallible, inner, build, -, he⟩ := hb
    exact absurd (ho.symm.trans (isOpen_of_readmitProducer he)) Bool.false_ne_true
  | ended name build s t rs => exact absurd hr (List.cons_ne_nil t rs)
  | _ => exact hr

/-- A closed queue stays closed, and no constructor begins in it. -/
theorem Run.stays_closed (hr : Run c h c') (hc : c.Sound f) (hlt : c'.session.threads < Word.size)
    (ho : c.session.queue.isOpen = false) (hrunning : c.running = []) :
    c'.session.queue.isOpen = false ∧ c'.running = [] := by
  refine hr.preserves (P := fun _ c' => c'.session.queue.isOpen = false ∧ c'.running = []) hc hlt
    ⟨ho, hrunning⟩ ?_
  rintro h c' e c'' f' ⟨ho', hrunning'⟩ hc' hlt' ht
  exact ht.stays_closed hc' (ht.threads_le.trans_lt hlt') ho' hrunning'

/-- Where nothing will be added nobody sleeps, so nobody waits who cannot be let run. -/
theorem Sound.waiting_of_closed (hc : c.Sound f) (ho : c.session.queue.isOpen = false)
    (hr : c.running = []) (hcalm : c.session.runnable? = none) : c.session.waiting = [] := by
  have hdrained : c.session.queue.isDrained = true := by
    rw [isDrained, hc.session.represents.pending, hc.running, hr, ho]
    rfl
  refine List.eq_nil_iff_forall_not_mem.mpr fun w hw => ?_
  have hasleep : ¬c.session.isAsleep w.thread = false := by
    simpa using List.find?_eq_none.mp hcalm w hw
  refine hasleep (awake_iff.mpr fun x z hz => ?_)
  have hnone : c.session.queue.sleepers x = [] := by
    cases x with
    | produce => exact hc.session.queue.closed ho
    | consume => exact hc.session.queue.drained hdrained
  exact absurd hnone (List.ne_nil_of_mem hz)

/-- Whoever is under way remains so, or returns. -/
theorem Run.underway_or_returned (hr : Run c h c') (hc : c.Sound f)
    (hlt : c'.session.threads < Word.size) {t : Nat} (ht : t ∈ c.underway) :
    t ∈ c'.underway ∨ t ∈ returnersIn h := by
  refine hr.preserves (P := fun h c' => t ∈ c'.underway ∨ t ∈ returnersIn h) hc hlt (.inl ht) ?_
  intro h c' e c'' f' ih hc' hlt' hturn
  obtain ⟨f'', hadv⟩ := hturn.advances hc' hlt'
  rw [returnersIn_append]
  rcases ih with hu | hret
  · have hmem := hadv.books.underway.symm.subset (List.mem_append_left _ hu)
    exact (List.mem_append.mp hmem).imp id (List.mem_append_right _)
  · exact .inr (List.mem_append_left _ hret)

/-- **Everybody returns** once a queue is closed and no constructor runs. -/
theorem Run.returned_of_closed (hr : Run c h c') (hc : c.Sound f)
    (hlt : c'.session.threads < Word.size) (ho : c.session.queue.isOpen = false)
    (hrunning : c.running = []) (hcalm : c'.session.runnable? = none) :
    c'.session.waiting = [] ∧ ∀ w ∈ c.session.waiting, w.thread ∈ returnersIn h := by
  obtain ⟨f', hc', -⟩ := hr.sound hc hlt
  obtain ⟨ho', hrunning'⟩ := hr.stays_closed hc hlt ho hrunning
  have hnone := hc'.waiting_of_closed ho' hrunning' hcalm
  refine ⟨hnone, fun w hw => ?_⟩
  have hunder : w.thread ∈ c.underway := List.mem_append_left _ (List.mem_map_of_mem hw)
  refine (hr.underway_or_returned hc hlt hunder).resolve_left fun hmem => ?_
  rw [underway, hnone, hrunning'] at hmem
  cases hmem

/-! ### The turns that follow -/

/-- What the rollback means for the turns after it, which begin in the scene `c`. The session `s` is
what the steps of the constructor have left. -/
structure Aftermath (s : Session α) (c : Scene α) : Prop where
  /-- The next element that goes in goes to the slot at which the tail stood then. -/
  next : ∀ h c₁ e c₂ v, Run c h c₁ → enteredIn h = [] → Turn c₁ e c₂ → enteredIn e = [v] →
    c₂.session.threads < Word.size →
      c₂.session.queue.storage.slots[s.queue.tail.position]? = some ⟨.full, some v⟩
  /-- The constructor's element would have gone there. -/
  instead : ∀ name v, (s.construct name (.built v)).1 = .done ∧
    (s.construct name (.built v)).2.queue.storage.slots[s.queue.tail.position]? =
      some ⟨.full, some v⟩
  /-- In a closed queue that no constructor runs in, whoever waits returns as soon as nobody can be
  let run any more. -/
  returns : s.queue.isOpen = false → c.running = [] → ∀ h c₁, Run c h c₁ →
    c₁.session.threads < Word.size → c₁.session.runnable? = none →
      c₁.session.waiting = [] ∧ ∀ w ∈ c.session.waiting, w.thread ∈ returnersIn h
  /-- Letting the threads run comes to that. -/
  settles : (settle c.session).2.threads < Word.size →
    (∃ h, Run c h ⟨(settle c.session).2, c.running⟩) ∧ (settle c.session).2.runnable? = none

theorem Sound.aftermath (hc : (Scene.mk s (t :: rs)).Sound f) (hlt : s.threads < Word.size)
    (hb : build.IsVain) (name : String) :
    Aftermath s ⟨(s.construct name build).2.finishFor t (s.construct name build).1, rs⟩ := by
  obtain ⟨a, log, he⟩ := construct_of_vain hb name s
  have hturn := Turn.ended name build s t rs
  generalize hc' : Scene.mk ((s.construct name build).2.finishFor t (s.construct name build).1) rs =
    c' at hturn ⊢
  have hqueue : c'.session.queue = s.queue.abandonProducer := by
    rw [← hc', he]
    cases t <;> rfl
  have halike : Alike s.queue c'.session.queue := hqueue ▸ s.queue.alike_abandonProducer
  have hlt' : c'.session.threads < Word.size := by
    rw [← hc', threads_finishFor, he]
    exact hlt
  obtain ⟨f', hadv⟩ := hturn.advances hc hlt'
  have hsound := hadv.sound hc
  refine
    { next := fun h c₁ e c₂ v hr hi ht hv hlt₂ => ?_
      instead := fun name v => ?_
      returns := fun ho hrunning h c₁ hr hlt₁ hcalm => ?_
      settles := fun hlts => ?_ }
  · have hlt₁ := ht.threads_le.trans_lt hlt₂
    obtain ⟨f₁, hc₁, -⟩ := hr.sound hsound hlt₁
    rw [← halike.tail, ← hr.tail_eq hsound hlt₁ hi]
    exact ht.slot_of_entered hc₁ hlt₁ hv
  · obtain ⟨q, hpub⟩ := hc.publishes hlt (.built s t rs v)
    have hbuilt : s.construct name (.built v) = (.done, s.setQueue q) := by
      simp only [construct, hpub]
    rw [hbuilt]
    exact ⟨rfl, slot_of_publish hpub⟩
  · exact hr.returned_of_closed hsound hlt₁ (halike.isOpen.trans ho) hrunning hcalm
  · obtain ⟨hrun, hcalm, -⟩ := (calms_settle _).run hsound (Nat.le_refl _) hlts
    exact ⟨hrun, hcalm⟩

/-! ### How a constructor comes to run -/

/-- The constructor of a call of the caller, or of another constructor, carries out its steps. -/
theorem Sound.run_of_admitProducer {wait : Wait} (hc : (Scene.mk s rs).Sound f) (name : String)
    (inner : List (Step α))
    (he : s.queue.admitProducer s.nextThread wait = (some (.ok ()), q))
    (hlt : (runSteps settle name inner (s.setQueue q)).2.threads < Word.size) :
    ∃ h, Run ⟨s, rs⟩ h ⟨(runSteps settle name inner (s.setQueue q)).2, none :: rs⟩ := by
  have hsettle : ∀ s : Session α, Spends 0 s (settle s).2 := (calms_settle 0).spends
  have hlts : s.threads < Word.size :=
    (spends_runSteps hsettle name inner (s.setQueue q)).threads_le.trans_lt hlt
  have hadv := advances_began hc.session hc.running hlts he
  obtain ⟨h, hr⟩ :=
    (runSteps_conclude (calms_settle _) name inner (hadv.sound hc) (Nat.le_refl _) hlt).run
  exact ⟨_, (Turn.began rs he).run.trans hr⟩

/-- The constructor of a thread's call carries out its steps. -/
theorem Sound.run_of_begins {w : Waiting α} (hc : (Scene.mk s rs).Sound f) (name : String)
    (inner : List (Step α)) (hw : w ∈ s.waiting) (ha : s.isAsleep w.thread = false)
    (hb : w.Begins s.queue q)
    (hlt : (runSteps settle name inner ((s.setQueue q).leave w.thread)).2.threads < Word.size) :
    ∃ h, Run ⟨s, rs⟩ h
      ⟨(runSteps settle name inner ((s.setQueue q).leave w.thread)).2, some w.thread :: rs⟩ := by
  have hsettle : ∀ s : Session α, Spends 0 s (settle s).2 := (calms_settle 0).spends
  have hlts : s.threads < Word.size :=
    (spends_runSteps hsettle name inner ((s.setQueue q).leave w.thread)).threads_le.trans_lt hlt
  have hadv := advances_resumedInto hc.session hc.running hlts hw ha hb
  obtain ⟨h, hr⟩ :=
    (runSteps_conclude (calms_settle _) name inner (hadv.sound hc) (Nat.le_refl _) hlt).run
  exact ⟨_, (Turn.resumedInto rs hw ha hb).run.trans hr⟩

/-- How constructors come to run from the scene on. Either the call is let in, and then the
constructor carries out its steps, which is a run with the constructor on top of the others, and
ends; or the call is turned down, or falls asleep, and none of the steps is carried out. -/
structure Carries (c : Scene α) : Prop where
  /-- A call is let in where the queue is open and has a permit for it, and not otherwise. -/
  admits : ∀ thread wait q, c.session.queue.admitProducer thread wait = (some (.ok ()), q) ↔
    c.session.queue.isOpen = true ∧ 0 < c.session.queue.free ∧ q = c.session.queue.reserved
  /-- A call that is let in carries out the steps of its constructor, and ends it. -/
  admitted : ∀ name wait fallible inner build q,
    c.session.queue.admitProducer c.session.nextThread wait = (some (.ok ()), q) →
      ∀ rs s, runSteps settle name inner (c.session.setQueue q) = (rs, s) →
        runStep settle name (.emplace wait fallible inner build) c.session =
            report name (s.construct name build).1 true rs
              (settle (s.construct name build).2) ∧
          (s.threads < Word.size → ∃ h, Run c h ⟨s, none :: c.running⟩)
  /-- A call that is turned down says so at once. -/
  refused : ∀ name wait fallible inner build r q,
    c.session.queue.admitProducer c.session.nextThread wait = (some (.error r), q) →
      runStep settle name (.emplace wait fallible inner build) c.session =
        report name (.ofRefusal fallible r) false [] (settle (c.session.setQueue q))
  /-- A call that has to wait falls asleep, and its constructor with it. -/
  parked : ∀ name wait fallible inner build q,
    c.session.queue.admitProducer c.session.nextThread wait = (none, q) →
      runStep settle name (.emplace wait fallible inner build) c.session =
        report name (.asleep c.session.nextThread) false []
          (settle ((c.session.setQueue q).start (.emplace (limitOf wait) fallible inner build)))
  /-- A thread that is let in carries out the steps of its constructor, and ends it; their reports
  come along. -/
  thread : ∀ w ∈ c.session.waiting, c.session.isAsleep w.thread = false →
    ∀ limit fallible inner build q, w.task = .emplace limit fallible inner build →
      c.session.queue.readmitProducer w.thread limit = (some (.ok ()), q) →
        ∀ rs s, runSteps settle (threadName w.thread) inner
            ((c.session.setQueue q).leave w.thread) = (rs, s) →
          c.session.resume settle w =
              (rs, (s.construct (threadName w.thread) build).2.finishThread w.thread
                (s.construct (threadName w.thread) build).1) ∧
            (s.threads < Word.size → ∃ h, Run c h ⟨s, some w.thread :: c.running⟩)
  /-- A thread that is not let in goes on without any step of a constructor. -/
  idle : ∀ w, (∀ q, ¬w.Begins c.session.queue q) →
    ∀ settle' : Session α → List (Report α) × Session α,
      c.session.resume settle' w = ([], (c.session.resume Session.idle w).2)

theorem Sound.carries (hc : c.Sound f) (hlt : c.session.threads < Word.size) : Carries c := by
  obtain ⟨s, rs⟩ := c
  have hparked := (hc.session.parked_le .produce).trans_lt hlt
  refine
    { admits := fun thread wait q => hc.session.represents.admitProducer_iff hparked
      admitted := fun name wait fallible inner build q he reports s' hsteps => ⟨?_, fun hlt => ?_⟩
      refused := fun name wait fallible inner build r q he => by rw [runStep]; simp only [he]
      parked := fun name wait fallible inner build q he => by rw [runStep]; simp only [he]
      thread := fun w hw ha limit fallible inner build q htask he reports s' hsteps =>
        ⟨?_, fun hlt => ?_⟩
      idle := fun w hb settle' => (resume_cases settle' hb).1 }
  · rw [runStep]
    simp only [he, hsteps]
  · obtain ⟨h, hr⟩ := hc.run_of_admitProducer name inner he (by rwa [hsteps])
    rw [hsteps] at hr
    exact ⟨h, hr⟩
  · rw [resume_of_begins htask he, hsteps]
  · have hb : w.Begins s.queue q := ⟨_, _, _, _, htask, he⟩
    obtain ⟨h, hr⟩ := hc.run_of_begins (threadName w.thread) inner hw ha hb (by rwa [hsteps])
    rw [hsteps] at hr
    exact ⟨h, hr⟩

end Scene

/-- **A constructor that builds nothing leaves no trace of its own.** Take a new queue of any
configuration that passes validation, with any choice of the thread that each single wake reaches,
and any run of turns on it.

* A call whose construction is let in, since the queue is open and has a permit for it, carries out
  the constructor's steps, as a run that may make any calls to any depth, and then ends the
  constructor. Any other call carries out none of them.
* Whenever the innermost constructor ends and builds nothing, the elements, the positions and the
  stage of the queue's life are those that its steps have left. One permit is back and the
  constructor is off the count. One producer that sleeps, if there is any, is roused and would be
  let in; the last constructor in a closed queue rouses all consumers.
* The next element that goes in goes to the slot that the constructor's would have gone to. In a
  closed queue without another constructor everybody who waits returns.

And in every interleaving of calls without nested ones, a call of a producer runs its constructor
once if it finds the queue open when it has its permit and asks again, and not at all otherwise; if
the constructor builds nothing, no slot is filled and the permit goes back. -/
theorem no_trace {c : Config} (hc : c.validate = .ok ()) (order : Side → Nat → Nat) :
    ∃ q : Queue α, create c.discipline c order = .ok q ∧
      (∀ (level : Log.Level) (h : List (Event α)) (scene : Scene α),
        Scene.Run (.new q level) h scene → scene.session.threads < Word.size →
          scene.Carries ∧
          ∀ s t rs, scene = ⟨s, t :: rs⟩ → ∀ build : Build α, build.IsVain → ∀ name,
            (∃ f, s.queue.Represents f ∧ enteredIn h = takenIn h ++ f.items) ∧
            RolledBack s rs (s.construct name build).2 ∧
            Scene.Aftermath s
              ⟨(s.construct name build).2.finishFor t (s.construct name build).1, rs⟩) ∧
      ∀ (programs : List (List (Call α))) (ds : List (Deed α)) (m : Machine α),
        Machine.Respects c.discipline programs → Machine.Run (Machine.launch q programs) ds m →
          ∀ t, ∀ past ∈ Machine.pastCalls t ds, ∀ fallible (build : Build α),
            past.call.job? = some (.construction fallible build) →
              past.deeds.countP Deed.constructs = past.deeds.countP Deed.passes ∧
              past.deeds.countP Deed.passes ≤ 1 ∧
              (build.IsVain → past.deeds.filterMap Deed.stored? = [] ∧
                past.deeds.countP (Deed.takes .produce) =
                  past.deeds.countP (Deed.raises .produce)) := by
  obtain ⟨q, hq⟩ := exists_create hc order
  refine ⟨q, hq, fun level h scene hr hlt => ?_,
    fun programs ds m hp hr t past hpast fallible build hj => ?_⟩
  · obtain ⟨f, hsound, hacc⟩ := hr.accounted hq hlt
    refine ⟨hsound.carries hlt, ?_⟩
    rintro s t rs rfl build hb name
    exact ⟨⟨f, hsound.session.represents, hacc.fifo⟩, hsound.rolledBack hlt hb name,
      hsound.aftermath hlt hb name⟩
  · rcases hr.admitted_or_turnedDown hq hp hpast hj with hpast | hpast
    · refine ⟨hpast.constructs.trans hpast.passes.symm, hpast.passes.le, fun hb => ?_⟩
      have hnone : (Job.construction fallible build).value? = none := by
        cases build with
        | built v => exact absurd rfl (hb v)
        | failed error | raised text => rfl
      have hstored := hpast.stored
      have hpermits := hpast.permits
      rw [hnone] at hstored hpermits
      exact ⟨hstored, hpermits.trans (Nat.zero_add _)⟩
    · exact ⟨hpast.constructs.trans hpast.passes.symm, hpast.passes.le.trans (Nat.zero_le 1),
        fun _ => ⟨hpast.stored, hpast.returned⟩⟩

/-- A consumer sleeps. Then a constructor runs that closes the queue, which rouses the consumer, and
the consumer falls asleep again since the constructor is still inside. When the constructor fails
the consumer is roused for good, and returns. -/
theorem no_trace_closing :
    ({ capacity := 1, discipline := .mpmc } : Config).validate = .ok () ∧
      ∃ q : Queue Nat,
        create .mpmc { capacity := 1, discipline := .mpmc } (fun _ _ => 0) = .ok q ∧
        (Build.failed "no" : Build Nat).IsVain ∧
        ∃ (h : List (Event Nat)) (s : Session Nat),
          Scene.Run (.new q .off) h ⟨s, [none]⟩ ∧ s.threads < Word.size ∧
          (s.queue.sleepers .consume).map Parker.Sleeper.thread = [1] ∧
          (s.construct mainName (.failed "no")).2.queue.sleepers .consume = [] ∧
          ∃ h' s', Scene.Run ⟨(s.construct mainName (.failed "no")).2, []⟩ h' ⟨s', []⟩ ∧
            s'.waiting = [] ∧ 1 ∈ returnersIn h' := by
  obtain ⟨q, hq, hscenes, -⟩ := no_trace (α := Nat)
    (c := { capacity := 1, discipline := .mpmc }) rfl fun _ _ => 0
  refine ⟨rfl, q, hq, Build.isVain_failed _, ?_⟩
  -- the consumer's step, and then those of the constructor
  have hlt₁ := (threads_run_le [.pop (.atMost .endless)] q .off).trans_lt
    (by decide : 1 < Word.size)
  obtain ⟨h₁, hr₁⟩ := (runSteps_conclude (calms_settle _) mainName [.pop (.atMost .endless)]
    (Scene.sound_new hq .off) (Nat.le_refl _) hlt₁).run
  have hadmitted := (hscenes .off h₁ _ hr₁ hlt₁).1.admitted mainName .never true [.close]
    (.failed "no")
  obtain rfl := eq_of_create hq
  obtain ⟨-, hinner⟩ := hadmitted _ rfl _ _ rfl
  obtain ⟨h₂, hr₂⟩ := hinner (by decide)
  have hr := hr₁.trans hr₂
  obtain ⟨-, htrace⟩ := hscenes .off _ _ hr (by decide)
  obtain ⟨-, hback, hafter⟩ := htrace _ _ _ rfl (.failed "no") (Build.isVain_failed _) mainName
  obtain ⟨⟨h', hr'⟩, hcalm⟩ := hafter.settles (by decide)
  obtain ⟨hnone, hret⟩ := hafter.returns rfl rfl h' _ hr' (by decide) hcalm
  exact ⟨_, _, hr, by decide, by decide, hback.consumers.trans rfl, h', _, hr', hnone,
    hret ⟨1, .pop .endless⟩ (List.Mem.head _)⟩

end Session

end PermitRing.Queue
