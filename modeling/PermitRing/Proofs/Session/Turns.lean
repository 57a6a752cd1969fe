import PermitRing.Proofs.Session.Threads

/-!
# Every turn keeps a settled run in order

One turn of a session leads from a queue that stands for one abstract state to a queue that stands
for the next. What went in and came out by it is what the history says; the threads that sleep
remain among those that have reason to; and the books are kept, so that a thread is under way from
its start to its return. The cases are those of the turns, and within a turn of a thread those of
its task. What an operation comes to in each of them is known from the abstract state.

## Main definitions

* `Scene.Sound` — the invariant, with the constructors that run;
* `Scene.Advances` — what one turn does.

## Main results

* `Scene.Advances.sound` — the invariant holds again after such a turn;
* `Scene.Turn.advances` — every turn does so.
-/

namespace PermitRing.Queue.Session

variable {α : Type} {s : Session α} {f f' : Fifo α} {w : Waiting α} {q : Queue α}

theorem Sound.finishThread (h : s.Sound f) (hw : w ∈ s.waiting) (ha : s.isAsleep w.thread = false)
    (hp : Passes w.task.side? s.queue q f') (a : Answer α) :
    ((s.setQueue q).finishThread w.thread a).Sound f' :=
  (h.leave hw ha hp).congr rfl rfl rfl

/-- Where a producer would sleep there is no permit, and it may wait. -/
theorem Sound.mayWait_produce {wait : Wait} (hs : s.Sound f) (ha : f.admission? wait = none) :
    (s.queue.gate.side .produce).count = 0 ∧ s.queue.MayWait .produce ∧
      (limitOf wait).isLong = true := by
  obtain ⟨hc, hfree, limit, rfl, hl⟩ := Fifo.admission?_eq_none ha
  exact ⟨hs.represents.produce.trans hfree, hs.represents.isOpen.trans (by rw [hc]; rfl), hl⟩

/-- Where a consumer would sleep there is no permit, and it may wait. -/
theorem Sound.mayWait_consume {wait : Wait} (hs : s.Sound f) (hi : f.items = [])
    (ha : f.refusal? wait = none) :
    (s.queue.gate.side .consume).count = 0 ∧ s.queue.MayWait .consume :=
  ⟨hs.represents.consume.trans (by rw [hi]; rfl),
    hs.represents.isDrained.trans (Fifo.refusal?_eq_none ha).1⟩

/-- What the end of a constructor does to the session. -/
theorem Sound.construct_eq (name : String) (build : Build α) (hs : s.Sound f) (hr : 0 < f.running) :
    ∃ s', s.construct name build = ((f.complete build).1, s') ∧ s'.Sound (f.complete build).2 ∧
      s'.waiting = s.waiting ∧ s'.threads = s.threads := by
  have habandon := hs.represents.abandon_passes hs.queue hr
  cases build with
  | built v =>
    obtain ⟨q, hpub, hpass⟩ := hs.represents.publish_passes hs.queue hr v
    exact ⟨s.setQueue q, by simp only [construct, hpub, Fifo.complete], hs.setQueue hpass, rfl, rfl⟩
  | failed error =>
    exact ⟨_, rfl, (hs.setQueue habandon).congr rfl rfl rfl, rfl, rfl⟩
  | raised text => exact ⟨_, rfl, hs.setQueue habandon, rfl, rfl⟩

/-! ### What a turn does -/

namespace Scene

variable {c c' : Scene α} {e h : List (Event α)}

/-- The invariant of a settled run, with the constructors that run. -/
structure Sound (c : Scene α) (f : Fifo α) : Prop where
  session : c.session.Sound f
  running : f.running = c.running.length
  nodup : c.underway.Nodup
  started : ∀ t ∈ c.underway, t ≤ c.session.threads

/-- What one turn does: the queue stands for `f'` afterwards, which has the elements of `f` with
those that went in and without those that came out, and is closed if it was or was closed in the
turn; and the books are kept. -/
structure Advances (c : Scene α) (f : Fifo α) (e : List (Event α)) (c' : Scene α) (f' : Fifo α) :
    Prop where
  session : c'.session.Sound f'
  running : f'.running = c'.running.length
  items : f.items ++ enteredIn e = takenIn e ++ f'.items
  closing : f'.isClosed = true ↔ f.isClosed = true ∨ .closed ∈ e
  books : Books c e c'

/-- After a turn the invariant holds again. -/
theorem Advances.sound (hadv : Advances c f e c' f') (hc : c.Sound f) : c'.Sound f' := by
  have hfresh : (c.underway ++ startersIn e).Nodup ∧
      ∀ t ∈ c.underway ++ startersIn e, t ≤ c'.session.threads := by
    rcases hadv.books.started with ⟨hs, ht⟩ | ⟨hs, ht⟩
    · rw [hs, ht, List.append_nil]
      exact ⟨hc.nodup, hc.started⟩
    · rw [hs, ht]
      refine ⟨List.nodup_append'.mpr ⟨hc.nodup, List.nodup_singleton _, ?_⟩, fun t hm => ?_⟩
      · rw [List.disjoint_singleton]
        intro hm
        have := hc.started _ hm
        rw [nextThread] at this
        omega
      · rcases List.mem_append.mp hm with hm | hm
        · exact Nat.le_succ_of_le (hc.started t hm)
        · exact (List.mem_singleton.mp hm).le
  refine ⟨hadv.session, hadv.running, ?_, fun t hm => ?_⟩
  · have := hadv.books.underway.nodup_iff.mpr hfresh.1
    exact (List.nodup_append'.mp this).1
  · exact hfresh.2 t (hadv.books.underway.subset (List.mem_append_left _ hm))

/-- Threads are only ever added. -/
theorem Books.threads_le (hb : Books c e c') : c.session.threads ≤ c'.session.threads := by
  rcases hb.started with ⟨-, ht⟩ | ⟨-, ht⟩
  · exact ht.ge
  · rw [ht]
    exact Nat.le_succ _

/-- In most turns nobody closes the queue. -/
theorem closing_of_eq (hf : f'.isClosed = f.isClosed) (he : .closed ∉ e) :
    f'.isClosed = true ↔ f.isClosed = true ∨ .closed ∈ e := by
  rw [hf, or_iff_left he]

/-! ### Turns of the caller and of constructors -/

section Calls

variable {rs : List (Option Nat)}

/-- A turn in which no thread takes part. -/
theorem advances_anonymous {s' : Session α} (hs : s'.Sound f') (hr : f'.running = rs.length)
    (he : Anonymous e) (hw : s'.waiting = s.waiting) (ht : s'.threads = s.threads)
    (hi : f.items ++ enteredIn e = takenIn e ++ f'.items)
    (hc : f'.isClosed = true ↔ f.isClosed = true ∨ .closed ∈ e) :
    Advances ⟨s, rs⟩ f e ⟨s', rs⟩ f' :=
  ⟨hs, hr, hi, hc, Books.of_anonymous he hw ht rfl⟩

/-- A turn in which nothing happens to the elements. -/
theorem advances_still {s' : Session α} (hs : s'.Sound f) (hr : f.running = rs.length)
    (hw : s'.waiting = s.waiting) (ht : s'.threads = s.threads) :
    Advances ⟨s, rs⟩ f [] ⟨s', rs⟩ f :=
  advances_anonymous hs hr anonymous_nil hw ht (List.append_nil _) (closing_of_eq rfl nofun)

/-- A turn by which a thread is started. -/
theorem advances_started {s' : Session α} {task : Task α} (hs : s'.Sound f)
    (hr : f.running = rs.length) (hw : s'.waiting = s.waiting ++ [⟨s.nextThread, task⟩])
    (ht : s'.threads = s.nextThread)
    (hlong : ∀ v limit, task = .push v limit → limit.isLong = true) :
    Advances ⟨s, rs⟩ f [.started s.nextThread task] ⟨s', rs⟩ f :=
  ⟨hs, hr, List.append_nil _, closing_of_eq rfl (by simp), Books.of_start hw ht rfl hlong⟩

/-- A call that needs a permit where there is none goes on on a thread that sleeps. -/
theorem advances_parked {x : Side} (task : Task α) (hs : s.Sound f) (hr : f.running = rs.length)
    (hx : task.side? = some x) (hzero : (s.queue.gate.side x).count = 0)
    (hmay : s.queue.MayWait x) (hlt : s.nextThread < Word.size)
    (hlong : ∀ v limit, task = .push v limit → limit.isLong = true) :
    Advances ⟨s, rs⟩ f [.started s.nextThread task]
      ⟨(s.setQueue (s.queue.lull s.nextThread x)).start task, rs⟩ f :=
  advances_started (hs.startAsleep hx hzero hmay hlt) hr rfl rfl hlong

theorem advances_push (name : String) (v : α) (wait : Wait) (hs : s.Sound f)
    (hr : f.running = rs.length) (hlt : (s.act name (.push v wait)).2.threads < Word.size) :
    ∃ f', Advances ⟨s, rs⟩ f (Step.events (.push v wait) (s.act name (.push v wait)).1)
      ⟨(s.act name (.push v wait)).2, rs⟩ f' ∧ Stirs 1 s (s.act name (.push v wait)).2 := by
  have hparked := ((hs.parked_le .produce).trans (spends_act name _ s).threads_le).trans_lt hlt
  rw [Session.act, hs.represents.push hparked] at hlt ⊢
  cases ha : f.admission? wait with
  | none =>
    obtain ⟨hzero, hmay, hl⟩ := hs.mayWait_produce ha
    rw [ha] at hlt
    refine ⟨f, advances_parked (.push v (limitOf wait)) hs hr rfl hzero hmay hlt ?_,
      stirs_parked s (.push v (limitOf wait)) .produce⟩
    rintro v' limit he
    cases he
    exact hl
  | some r =>
    cases r with
    | error r =>
      exact ⟨f, advances_still (hs.setQueue (Passes.refl hs.represents hs.queue)) hr rfl rfl,
        stirs_setQueue (Nat.le_succ _)⟩
    | ok u =>
      obtain ⟨-, hroom⟩ := Fifo.admission?_eq_ok ha
      obtain ⟨q, hpush, hpass⟩ := hs.represents.pushAfter_passes hs.queue hroom v
      simp only [hpush]
      refine ⟨_, advances_anonymous (hs.setQueue hpass.weaken) hr (anonymous_entered v) rfl rfl rfl
        (closing_of_eq rfl (by simp [Step.events, Answer.ofPushed])), stirs_setQueue ?_⟩
      rw [hpass.represents.size_eq, hs.represents.size_eq, Fifo.append, List.length_append]
      exact Nat.le_refl _

theorem advances_pop (name : String) (wait : Wait) (hs : s.Sound f)
    (hr : f.running = rs.length) (hlt : (s.act name (.pop wait)).2.threads < Word.size) :
    ∃ f', Advances ⟨s, rs⟩ f (Step.events (.pop wait) (s.act name (.pop wait)).1)
      ⟨(s.act name (.pop wait)).2, rs⟩ f' ∧ Stirs 1 s (s.act name (.pop wait)).2 := by
  have hparked := ((hs.parked_le .consume).trans (spends_act name _ s).threads_le).trans_lt hlt
  by_cases hi : f.items = []
  · rw [Session.act, hs.represents.pop hparked, if_neg (not_not.mpr hi)] at hlt ⊢
    cases ha : f.refusal? wait with
    | none =>
      obtain ⟨hzero, hmay⟩ := hs.mayWait_consume hi ha
      rw [ha] at hlt
      exact ⟨f, advances_parked (.pop (limitOf wait)) hs hr rfl hzero hmay hlt (by simp),
        stirs_parked s (.pop (limitOf wait)) .consume⟩
    | some r =>
      exact ⟨f, advances_still (hs.setQueue (Passes.refl hs.represents hs.queue)) hr rfl rfl,
        stirs_setQueue (Nat.le_succ _)⟩
  · obtain ⟨v, vs, hv⟩ := List.exists_cons_of_ne_nil hi
    obtain ⟨q, hpop, hpass⟩ := hs.represents.popAfter_passes hs.queue hv
    rw [Session.act, hs.represents.pop hparked, if_pos hi]
    simp only [hpop]
    refine ⟨_, advances_anonymous (hs.setQueue hpass.weaken) hr (anonymous_taken [v]) rfl rfl
      (by rw [hv]; exact List.append_nil _)
      (closing_of_eq rfl (by simp [Step.events, Answer.ofPopped])), stirs_setQueue ?_⟩
    rw [hpass.represents.size_eq, hs.represents.size_eq, hv]
    exact (Nat.le_succ _).trans (Nat.le_succ _)

theorem advances_tryIter (name : String) (most : Option Nat) (hs : s.Sound f)
    (hr : f.running = rs.length) (hlt : s.threads < Word.size) :
    ∃ f', Advances ⟨s, rs⟩ f (Step.events (.tryIter most) (s.act name (.tryIter most)).1)
      ⟨(s.act name (.tryIter most)).2, rs⟩ f' ∧ Stirs 1 s (s.act name (.tryIter most)).2 := by
  obtain ⟨n, hn⟩ : ∃ n, s.act name (.tryIter most) =
      (.values (s.queue.popMany n).1, s.setQueue (s.queue.popMany n).2) := by
    cases most <;> exact ⟨_, rfl⟩
  obtain ⟨q, hmany, hpass⟩ := Represents.popMany_passes n hs.represents hs.queue
    (Nat.lt_of_le_of_lt (hs.parked_le .consume) hlt)
  rw [hn, hmany]
  refine ⟨_, advances_anonymous (hs.setQueue hpass) hr (anonymous_taken _) rfl rfl ?_
    (closing_of_eq rfl (closed_notMem_taken _)), stirs_setQueue ?_⟩
  · show f.items ++ enteredIn ((f.items.take n).map .taken) =
      takenIn ((f.items.take n).map .taken) ++ f.items.drop n
    rw [enteredIn_map_taken, takenIn_map, List.append_nil, List.take_append_drop]
  · rw [hpass.represents.size_eq, hs.represents.size_eq, List.length_drop]
    omega

theorem advances_close (name : String) (hs : s.Sound f) (hr : f.running = rs.length) :
    ∃ f', Advances ⟨s, rs⟩ f (Step.events .close (s.act name .close).1)
      ⟨(s.act name .close).2, rs⟩ f' ∧ Stirs 1 s (s.act name .close).2 := by
  have hsay : (s.say name s.queue.closeMessages).Sound f := hs.congr rfl rfl rfl
  rw [Session.act]
  cases hc : f.isClosed with
  | true =>
    have hclose : (s.say name s.queue.closeMessages).queue.close =
        (.error .alreadyClosed, s.queue) :=
      hs.represents.close_of_closed hc
    simp only [hclose]
    exact ⟨f, advances_still (hsay.setQueue (Passes.refl hs.represents hs.queue)) hr rfl rfl,
      .answered (Nat.le_refl _) (Nat.le_succ _)⟩
  | false =>
    obtain ⟨q, hclose, hpass⟩ := hsay.represents.close_passes hsay.queue hc
    simp only [hclose]
    refine ⟨_, advances_anonymous (hsay.setQueue hpass) hr anonymous_closed rfl rfl
      (List.append_nil _) (by simp [Step.events]), .answered (Nat.le_refl _) ?_⟩
    show q.size ≤ s.queue.size + 1
    rw [hpass.represents.size_eq, hs.represents.size_eq]
    exact Nat.le_succ _

theorem advances_elapse (name : String) (t : Nat) (hs : s.Sound f) (hr : f.running = rs.length) :
    ∃ f', Advances ⟨s, rs⟩ f (Step.events (.elapse t) (s.act name (.elapse t)).1)
      ⟨(s.act name (.elapse t)).2, rs⟩ f' ∧ Stirs 1 s (s.act name (.elapse t)).2 := by
  rw [Session.act]
  cases he : s.elapse? t with
  | none => exact ⟨f, advances_still hs hr rfl rfl, .answered (Nat.le_refl _) (Nat.le_succ _)⟩
  | some s' =>
    obtain ⟨w, hw, rfl, task, ht, rfl⟩ := exists_of_elapse? hs.nodup he
    refine ⟨f, ⟨hs.elapse hw ht, hr, List.append_nil _, closing_of_eq rfl (by simp [Step.events]),
      Books.of_retask hs.nodup hw rfl rfl rfl (anonymous_elapsed w.thread) fun v limit hp => ?_⟩,
      stirs_elapse hs.nodup hw ht 1⟩
    rw [hp] at ht
    obtain ⟨limit', hl, rfl⟩ := Option.map_eq_some_iff.mp ht
    exact ⟨limit', rfl, .inr ⟨List.mem_singleton_self _, hl⟩⟩

/-- A step without a constructor. -/
theorem advances_call (name : String) (x : Step α) (hs : s.Sound f) (hr : f.running = rs.length)
    (hlt : (s.act name x).2.threads < Word.size)
    (hx : ∀ wait fallible inner build, x ≠ .emplace wait fallible inner build) :
    ∃ f', Advances ⟨s, rs⟩ f (x.events (s.act name x).1) ⟨(s.act name x).2, rs⟩ f' ∧
      Stirs 1 s (s.act name x).2 := by
  cases x with
  | push v wait => exact advances_push name v wait hs hr hlt
  | pop wait => exact advances_pop name wait hs hr hlt
  | iter most =>
    exact ⟨f, advances_started (hs.start (.iter most [])) hr rfl rfl nofun,
      stirs_start s (.iter most [])⟩
  | tryIter most => exact advances_tryIter name most hs hr hlt
  | emplace wait fallible inner build => exact absurd rfl (hx wait fallible inner build)
  | close => exact advances_close name hs hr
  | elapse t => exact advances_elapse name t hs hr
  | info | outline =>
    exact ⟨f, advances_still hs hr rfl rfl, .answered (Nat.le_refl _) (Nat.le_succ _)⟩

/-! ### Constructions -/

theorem advances_refused {wait : Wait} {r : Refusal} (hs : s.Sound f) (hr : f.running = rs.length)
    (hlt : s.threads < Word.size)
    (he : s.queue.admitProducer s.nextThread wait = (some (.error r), q)) :
    Advances ⟨s, rs⟩ f [] ⟨s.setQueue q, rs⟩ f ∧ ∀ n, Stirs n s (s.setQueue q) := by
  have hq : q = s.queue := by
    rw [hs.represents.admitProducer (Nat.lt_of_le_of_lt (hs.parked_le .produce) hlt)] at he
    split at he
    · cases he
    · exact (Prod.mk.inj he).2.symm
    · cases he
  rw [hq]
  exact ⟨advances_still (hs.setQueue (Passes.refl hs.represents hs.queue)) hr rfl rfl,
    fun n => stirs_setQueue (Nat.le_succ _)⟩

theorem advances_emplaceParked {wait : Wait} (fallible : Bool) (inner : List (Step α))
    (build : Build α) (hs : s.Sound f) (hr : f.running = rs.length) (hlt : s.nextThread < Word.size)
    (he : s.queue.admitProducer s.nextThread wait = (none, q)) :
    Advances ⟨s, rs⟩ f [.started s.nextThread (.emplace (limitOf wait) fallible inner build)]
      ⟨(s.setQueue q).start (.emplace (limitOf wait) fallible inner build), rs⟩ f ∧
      Stirs (1 + callsIn inner) s
        ((s.setQueue q).start (.emplace (limitOf wait) fallible inner build)) := by
  have hparked := Nat.lt_of_le_of_lt ((hs.parked_le .produce).trans (Nat.le_succ _)) hlt
  rw [hs.represents.admitProducer hparked] at he
  split at he
  · rename_i ha
    obtain ⟨hzero, hmay, -⟩ := hs.mayWait_produce ha
    rw [← (Prod.mk.inj he).2]
    exact ⟨advances_parked (.emplace (limitOf wait) fallible inner build) hs hr rfl hzero hmay hlt
      (by simp), stirs_parked s (.emplace (limitOf wait) fallible inner build) .produce⟩
  · cases he
  · cases he

/-- The constructor of a step begins. -/
theorem advances_began {wait : Wait} (hs : s.Sound f) (hr : f.running = rs.length)
    (hlt : s.threads < Word.size)
    (he : s.queue.admitProducer s.nextThread wait = (some (.ok ()), q)) :
    Advances ⟨s, rs⟩ f [] ⟨s.setQueue q, none :: rs⟩ f.reserve := by
  rw [hs.represents.admitProducer (Nat.lt_of_le_of_lt (hs.parked_le .produce) hlt)] at he
  split at he
  · cases he
  · cases he
  · rename_i ha
    obtain ⟨-, hroom⟩ := Fifo.admission?_eq_ok ha
    rw [← (Prod.mk.inj he).2]
    refine ⟨hs.setQueue (hs.represents.reserved_passes hs.queue hroom).weaken, ?_,
      List.append_nil _, closing_of_eq rfl List.not_mem_nil,
      Books.of_anonymous anonymous_nil rfl rfl (List.reduceOption_cons_of_none rs)⟩
    exact congrArg Nat.succ hr

/-- The thread of a call whose constructor runs is not among those that may be let run. -/
theorem notMem_waiting_of_running {t : Nat} (hn : (Scene.mk s (some t :: rs)).underway.Nodup) :
    t ∉ s.waiting.map Waiting.thread := by
  rw [underway, List.reduceOption_cons_of_some] at hn
  intro hm
  exact (List.nodup_append'.mp hn).2.2 hm (List.mem_cons_self ..)

theorem waiting_leave_of_notMem {t : Nat} (h : t ∉ s.waiting.map Waiting.thread) :
    (s.leave t).waiting = s.waiting := by
  refine List.filter_eq_self.mpr fun w hw => ?_
  exact bne_iff_ne.mpr fun he => h (he ▸ List.mem_map_of_mem hw)

/-- **A constructor ends.** -/
theorem advances_ended (name : String) (build : Build α) {t : Option Nat} (hs : s.Sound f)
    (hr : f.running = (t :: rs).length) (hn : (Scene.mk s (t :: rs)).underway.Nodup) :
    ∃ f', Advances ⟨s, t :: rs⟩ f (builtEvents t build (s.construct name build).1)
      ⟨(s.construct name build).2.finishFor t (s.construct name build).1, rs⟩ f' := by
  rw [List.length_cons] at hr
  obtain ⟨s', hcon, hs', hw, ht⟩ := hs.construct_eq name build (by omega)
  have hrunning : (f.complete build).2.running = rs.length := by
    rw [Fifo.running_complete, hr, Nat.add_sub_cancel]
  rw [hcon]
  cases t with
  | none =>
    cases build with
    | built v =>
      exact ⟨_, hs', hrunning, rfl, closing_of_eq rfl (closed_notMem_builtEvents _ _ _),
        Books.of_anonymous (anonymous_entered v) hw ht (List.reduceOption_cons_of_none rs).symm⟩
    | failed error | raised text =>
      exact ⟨_, hs', hrunning, List.append_nil _, closing_of_eq rfl nofun,
        Books.of_anonymous anonymous_nil hw ht (List.reduceOption_cons_of_none rs).symm⟩
  | some t =>
    have hout := notMem_waiting_of_running hn
    have hstay : (s'.finishThread t (f.complete build).1).waiting = s'.waiting :=
      waiting_leave_of_notMem (hw ▸ hout)
    have hleave : (s'.finishThread t (f.complete build).1).waiting = (s.leave t).waiting := by
      show s'.waiting.filter _ = s.waiting.filter _
      rw [hw]
    have hs'' : (s'.finishThread t (f.complete build).1).Sound (f.complete build).2 :=
      hs'.congr rfl hstay rfl
    cases build with
    | built v =>
      refine ⟨_, hs'', hrunning, rfl, closing_of_eq rfl (closed_notMem_builtEvents _ _ _),
        Books.of_end [.entered (some t) v] hout rfl hleave ht rfl rfl rfl fun t' hne => ?_⟩
      simp [Session.enteredBy, Event.enteredBy?, hne.symm]
    | failed error | raised text =>
      exact ⟨_, hs'', hrunning, List.append_nil _,
        closing_of_eq rfl (closed_notMem_builtEvents _ _ _),
        Books.of_end [] hout rfl hleave ht rfl rfl rfl fun _ _ => rfl⟩

/-! ### Turns of threads -/

/-- A thread that is awake ends its wait, and its call returns. -/
theorem advances_returned (moved : List (Event α)) (hs : s.Sound f) (hr : f'.running = rs.length)
    (hw : w ∈ s.waiting) (hs' : ((s.setQueue q).leave w.thread).Sound f') (a : Answer α)
    (hi : f.items ++ enteredIn moved = takenIn moved ++ f'.items)
    (hone : (enteredIn moved).length ≤ 1) (hcl : f'.isClosed = f.isClosed) (hm : .closed ∉ moved)
    (hst : startersIn moved = []) (hret : returnersIn moved = [])
    (hby : ∀ t, t ≠ w.thread → enteredBy t moved = [])
    (hpush : ∀ v limit, w.task = .push v limit →
      Settled w.thread v limit (moved ++ [.returned w.thread a])) :
    Advances ⟨s, rs⟩ f (moved ++ [.returned w.thread a])
      ⟨(s.setQueue q).finishThread w.thread a, rs⟩ f' ∧
      Tires s ((s.setQueue q).finishThread w.thread a) := by
  refine ⟨⟨hs'.congr rfl rfl rfl, hr, ?_, closing_of_eq hcl (by simpa using hm),
    Books.of_return hs.nodup hw rfl rfl rfl hst hret hby hpush⟩,
    tires_finishThread hs.nodup hw ?_ a⟩
  · rw [enteredIn_append, takenIn_append, show enteredIn [Event.returned w.thread a] = [] from rfl,
      show takenIn [Event.returned w.thread a] = [] from rfl, List.append_nil, List.append_nil]
    exact hi
  · have hlen := congrArg List.length hi
    have hsize : q.size = f'.items.length := hs'.represents.size_eq
    rw [List.length_append, List.length_append] at hlen
    rw [hsize, hs.represents.size_eq]
    omega

/-- A thread that is awake returns, and has moved nothing. -/
theorem advances_quit (hs : s.Sound f) (hr : f.running = rs.length) (hw : w ∈ s.waiting)
    (hs' : ((s.setQueue q).leave w.thread).Sound f) (a : Answer α)
    (hpush : ∀ v limit, w.task = .push v limit → PushEnds v limit a []) :
    Advances ⟨s, rs⟩ f [.returned w.thread a]
      ⟨(s.setQueue q).finishThread w.thread a, rs⟩ f ∧
      Tires s ((s.setQueue q).finishThread w.thread a) := by
  refine advances_returned [] hs hr hw hs' a (List.append_nil _) (Nat.zero_le _) rfl nofun rfl rfl
    (fun _ _ => rfl) fun v limit he => ?_
  exact ⟨a, List.mem_singleton_self _, hpush v limit he⟩

/-- A thread that is awake finds no permit and falls asleep again. -/
theorem advances_dozed {x : Side} (hs : s.Sound f) (hr : f.running = rs.length)
    (hw : w ∈ s.waiting) (ha : s.isAsleep w.thread = false) (hx : w.task.side? = some x)
    (hzero : (s.queue.gate.side x).count = 0) (hmay : s.queue.MayWait x)
    (hlt : s.threads < Word.size) :
    Advances ⟨s, rs⟩ f [] ⟨s.setQueue (s.queue.lull w.thread x), rs⟩ f ∧
      Tires s (s.setQueue (s.queue.lull w.thread x)) :=
  ⟨advances_still (hs.lull hw ha hx hzero hmay hlt) hr rfl rfl, tires_lull hw ha x⟩

section Threads

variable {t : Nat}

theorem advances_resumePush {v : α} {limit : Patience} (hs : s.Sound f)
    (hr : f.running = rs.length) (hlt : s.threads < Word.size)
    (hw : ⟨t, .push v limit⟩ ∈ s.waiting) (ha : s.isAsleep t = false) :
    ∃ f', Advances ⟨s, rs⟩ f (Waiting.events ⟨t, .push v limit⟩ s.queue)
      ⟨(s.resume idle ⟨t, .push v limit⟩).2, rs⟩ f' ∧
      Tires s (s.resume idle ⟨t, .push v limit⟩).2 := by
  have hparked := Nat.lt_of_le_of_lt (hs.parked_le .produce) hlt
  rcases hs.represents.resumePush_cases hs.queue hparked t v limit with
    ⟨q, he, hpass⟩ | ⟨q, he, hpass⟩ | ⟨hc, hzero, -, he⟩ | ⟨hzero, hl, he⟩
  · refine ⟨f, ?_⟩
    simp only [Waiting.events, resume, he]
    refine advances_quit (w := ⟨t, .push v limit⟩) hs hr hw (hs.leave hw ha hpass) _
      fun v' limit' he => ?_
    cases he
    exact .closed
  · refine ⟨f.append v, ?_⟩
    simp only [Waiting.events, resume, he]
    have hr' : (f.append v).running = rs.length := hr
    refine advances_returned [.entered (some t) v] (w := ⟨t, .push v limit⟩) hs hr' hw
      (hs.leave hw ha hpass) _ rfl (Nat.le_refl _) rfl (by simp) rfl rfl (fun t' hne => ?_)
      fun v' limit' he => ?_
    · simp [Session.enteredBy, Event.enteredBy?, Ne.symm hne]
    · cases he
      refine ⟨_, List.mem_append_right _ (List.mem_singleton_self _), ?_⟩
      rw [show Session.enteredBy t ([.entered (some t) v] ++ [.returned t _]) = [v] by
        simp [Session.enteredBy, Event.enteredBy?]]
      exact .accepted
  · refine ⟨f, ?_⟩
    simp only [Waiting.events, resume, he]
    exact advances_dozed (w := ⟨t, .push v limit⟩) (x := .produce) hs hr hw ha rfl hzero
      (hs.represents.isOpen.trans (by rw [hc]; rfl)) hlt
  · refine ⟨f, ?_⟩
    simp only [Waiting.events, resume, he]
    refine advances_quit (w := ⟨t, .push v limit⟩) hs hr hw
      (hs.quit (x := .produce) hw ha rfl hzero) _ fun v' limit' he => ?_
    cases he
    exact .timedOut hl

theorem advances_resumePop {limit : Patience} (hs : s.Sound f) (hr : f.running = rs.length)
    (hlt : s.threads < Word.size) (hw : ⟨t, .pop limit⟩ ∈ s.waiting) (ha : s.isAsleep t = false) :
    ∃ f', Advances ⟨s, rs⟩ f (Waiting.events ⟨t, .pop limit⟩ s.queue)
      ⟨(s.resume idle ⟨t, .pop limit⟩).2, rs⟩ f' ∧ Tires s (s.resume idle ⟨t, .pop limit⟩).2 := by
  have hparked := Nat.lt_of_le_of_lt (hs.parked_le .consume) hlt
  rcases hs.represents.resumePop_cases hs.queue hparked t limit with
    ⟨v, vs, q, hi, he, hpass⟩ | ⟨he, hpass⟩ | ⟨hd, hzero, -, he⟩ | ⟨hzero, -, he⟩
  · refine ⟨{ f with items := vs }, ?_⟩
    simp only [Waiting.events, resume, he]
    have hr' : ({ f with items := vs } : Fifo α).running = rs.length := hr
    refine advances_returned [.taken v] (w := ⟨t, .pop limit⟩) hs hr' hw (hs.leave hw ha hpass) _ ?_
      (Nat.zero_le _) rfl (by simp) rfl rfl (fun _ _ => rfl) (by simp)
    rw [hi]
    exact List.append_nil _
  · refine ⟨f, ?_⟩
    simp only [Waiting.events, resume, he]
    exact advances_quit (w := ⟨t, .pop limit⟩) hs hr hw (hs.leave hw ha hpass) _ (by simp)
  · refine ⟨f, ?_⟩
    simp only [Waiting.events, resume, he]
    exact advances_dozed (w := ⟨t, .pop limit⟩) (x := .consume) hs hr hw ha rfl hzero hd hlt
  · refine ⟨f, ?_⟩
    simp only [Waiting.events, resume, he]
    exact advances_quit (w := ⟨t, .pop limit⟩) hs hr hw
      (hs.quit (x := .consume) hw ha rfl hzero) _ (by simp)

theorem advances_resumeIter {left : Option Nat} {got : List α} (hs : s.Sound f)
    (hr : f.running = rs.length) (hlt : s.threads < Word.size)
    (hw : ⟨t, .iter left got⟩ ∈ s.waiting) (ha : s.isAsleep t = false) :
    ∃ f', Advances ⟨s, rs⟩ f (Waiting.events ⟨t, .iter left got⟩ s.queue)
      ⟨(s.resume idle ⟨t, .iter left got⟩).2, rs⟩ f' ∧
      Tires s (s.resume idle ⟨t, .iter left got⟩).2 := by
  by_cases hl : left = some 0
  · -- it was to pop nothing
    subst hl
    exact ⟨f, advances_quit (w := ⟨t, .iter (some 0) got⟩) (q := s.queue) hs hr hw
      (hs.leave hw ha (Passes.refl hs.represents hs.queue)) _ nofun⟩
  · have hside : (Waiting.mk t (.iter left got)).task.side? = some .consume := if_neg hl
    have hparked := Nat.lt_of_le_of_lt (hs.parked_le .consume) hlt
    rw [resume_iter_eq idle s hl]
    rcases hs.represents.resumePop_cases hs.queue hparked t .endless with
      ⟨v, vs, q, hi, he, hpass⟩ | ⟨he, hpass⟩ | ⟨hd, hzero, -, he⟩ | ⟨-, hlong, -⟩
    · refine ⟨{ f with items := vs }, ?_⟩
      simp only [Waiting.events, if_neg hl, he]
      rcases goOn_cases (s.setQueue q) t hl (got ++ [v]) with ⟨h1, hgo⟩ | ⟨h1, left', hl', hgo⟩
      · rw [hgo, if_pos h1]
        have hr' : ({ f with items := vs } : Fifo α).running = rs.length := hr
        refine advances_returned [.taken v] (w := ⟨t, .iter left got⟩) hs hr' hw
          (hs.leave hw ha (hside ▸ hpass)) _ ?_ (Nat.zero_le _) rfl (by simp) rfl rfl
          (fun _ _ => rfl) nofun
        rw [hi]
        exact List.append_nil _
      · rw [hgo, if_neg h1]
        have hs' := (hs.setQueue hpass.weaken).setTask (.iter left' (got ++ [v]))
          (w := ⟨t, .iter left got⟩) hw ((if_neg hl').trans hside.symm)
        have hcalls := callsAhead_setTask (.iter left' (got ++ [v])) (s := s.setQueue q)
          (w := ⟨t, .iter left got⟩) hs.nodup hw rfl
        refine ⟨⟨hs', hr, ?_, closing_of_eq rfl (by simp), Books.of_retask
          (w := ⟨t, .iter left got⟩) hs.nodup hw rfl rfl rfl (anonymous_taken [v]) nofun⟩,
          .popped hcalls.le ?_⟩
        · rw [hi]
          exact List.append_nil _
        · show q.size < s.queue.size
          rw [hpass.represents.size_eq, hs.represents.size_eq, hi]
          exact Nat.lt_succ_self _
    · refine ⟨f, ?_⟩
      simp only [Waiting.events, if_neg hl, he]
      exact advances_quit (w := ⟨t, .iter left got⟩) hs hr hw (hs.leave hw ha (hside ▸ hpass)) _
        nofun
    · refine ⟨f, ?_⟩
      simp only [Waiting.events, if_neg hl, he]
      exact advances_dozed (w := ⟨t, .iter left got⟩) (x := .consume) hs hr hw ha hside hzero hd hlt
    · cases hlong

/-- A construction that a thread makes is turned down, or has to wait longer. -/
theorem advances_resumeEmplace {limit : Patience} {fallible : Bool} {inner : List (Step α)}
    {build : Build α} (hs : s.Sound f) (hr : f.running = rs.length) (hlt : s.threads < Word.size)
    (hw : ⟨t, .emplace limit fallible inner build⟩ ∈ s.waiting) (ha : s.isAsleep t = false)
    (hb : ∀ q, ¬(Waiting.mk t (.emplace limit fallible inner build)).Begins s.queue q) :
    ∃ f', Advances ⟨s, rs⟩ f
      (Waiting.events ⟨t, .emplace limit fallible inner build⟩ s.queue)
      ⟨(s.resume idle ⟨t, .emplace limit fallible inner build⟩).2, rs⟩ f' ∧
      Tires s (s.resume idle ⟨t, .emplace limit fallible inner build⟩).2 := by
  have hparked := Nat.lt_of_le_of_lt (hs.parked_le .produce) hlt
  rcases hs.represents.readmit_cases hs.queue hparked t limit with
    ⟨-, q, he, hpass⟩ | ⟨-, -, he⟩ | ⟨hc, hzero, -, he⟩ | ⟨-, hzero, -, he⟩
  · refine ⟨f, ?_⟩
    simp only [Waiting.events, resume, he]
    exact advances_quit (w := ⟨t, .emplace limit fallible inner build⟩) hs hr hw
      (hs.leave hw ha hpass) _ (by simp)
  · exact absurd ⟨_, _, _, _, rfl, he⟩ (hb s.queue.reserved)
  · refine ⟨f, ?_⟩
    simp only [Waiting.events, resume, he]
    exact advances_dozed (w := ⟨t, .emplace limit fallible inner build⟩) (x := .produce) hs hr hw
      ha rfl hzero (hs.represents.isOpen.trans (by rw [hc]; rfl)) hlt
  · refine ⟨f, ?_⟩
    simp only [Waiting.events, resume, he]
    exact advances_quit (w := ⟨t, .emplace limit fallible inner build⟩) hs hr hw
      (hs.quit (x := .produce) hw ha rfl hzero) _ (by simp)

end Threads

/-- **A thread that is awake goes on**, and no constructor begins. -/
theorem advances_resumed (hs : s.Sound f) (hr : f.running = rs.length)
    (hlt : s.threads < Word.size) (hw : w ∈ s.waiting) (ha : s.isAsleep w.thread = false)
    (hb : ∀ q, ¬w.Begins s.queue q) :
    ∃ f', Advances ⟨s, rs⟩ f (w.events s.queue) ⟨(s.resume idle w).2, rs⟩ f' ∧
      Tires s (s.resume idle w).2 := by
  obtain ⟨t, task⟩ := w
  cases task with
  | push v limit => exact advances_resumePush hs hr hlt hw ha
  | pop limit => exact advances_resumePop hs hr hlt hw ha
  | iter left got => exact advances_resumeIter hs hr hlt hw ha
  | emplace limit fallible inner build => exact advances_resumeEmplace hs hr hlt hw ha hb

/-- The constructor of a thread's call begins. -/
theorem advances_resumedInto (hs : s.Sound f) (hr : f.running = rs.length)
    (hlt : s.threads < Word.size) (hw : w ∈ s.waiting) (ha : s.isAsleep w.thread = false)
    (hb : w.Begins s.queue q) :
    Advances ⟨s, rs⟩ f [] ⟨(s.setQueue q).leave w.thread, some w.thread :: rs⟩ f.reserve := by
  obtain ⟨limit, fallible, inner, build, htask, hadm⟩ := hb
  have hside : w.task.side? = some .produce := by rw [htask]; rfl
  have hparked := Nat.lt_of_le_of_lt (hs.parked_le .produce) hlt
  rcases hs.represents.readmit_cases hs.queue hparked w.thread limit with
    ⟨-, q', he, -⟩ | ⟨-, hroom, he⟩ | ⟨-, -, -, he⟩ | ⟨-, -, -, he⟩ <;> rw [he] at hadm
  · cases hadm
  · obtain ⟨-, rfl⟩ := Prod.mk.inj hadm
    refine ⟨hs.leave hw ha (hside ▸ hs.represents.reserved_passes hs.queue hroom),
      congrArg Nat.succ hr, List.append_nil _, closing_of_eq rfl nofun,
      Books.of_begin hs.nodup hw rfl rfl rfl fun v limit he => ?_⟩
    rw [htask] at he
    cases he
  · cases hadm
  · cases hadm

end Calls

/-- Threads are only ever added. -/
theorem Turn.threads_le (ht : Turn c e c') : c.session.threads ≤ c'.session.threads := by
  cases ht with
  | call name x s rs hx => exact (spends_act name x s).threads_le
  | parked fallible inner build rs he => exact Nat.le_succ _
  | ended name build s t rs =>
    show s.threads ≤ ((s.construct name build).2.finishFor t (s.construct name build).1).threads
    rw [threads_finishFor]
    exact (spends_construct name build s).threads_le
  | @resumed s w rs hw ha hb =>
    have hspends : Spends 0 s (s.resume idle w).2 := spends_resume (fun s => Spends.same rfl rfl) hw
    exact hspends.threads_le
  | refused | began | resumedInto | reported => exact Nat.le_refl _

/-- **Every turn advances.** -/
theorem Turn.advances (ht : Turn c e c') {f : Fifo α} (hc : c.Sound f)
    (hlt : c'.session.threads < Word.size) : ∃ f', Advances c f e c' f' := by
  have hlt' : c.session.threads < Word.size := Nat.lt_of_le_of_lt ht.threads_le hlt
  cases ht with
  | call name x s rs hx =>
    obtain ⟨f', hadv, -⟩ := advances_call name x hc.session hc.running hlt hx
    exact ⟨f', hadv⟩
  | refused rs he => exact ⟨f, (advances_refused hc.session hc.running hlt' he).1⟩
  | parked fallible inner build rs he =>
    exact ⟨f, (advances_emplaceParked fallible inner build hc.session hc.running hlt he).1⟩
  | began rs he => exact ⟨f.reserve, advances_began hc.session hc.running hlt' he⟩
  | ended name build s t rs => exact advances_ended name build hc.session hc.running hc.nodup
  | resumed rs hw ha hb =>
    obtain ⟨f', hadv, -⟩ := advances_resumed hc.session hc.running hlt' hw ha hb
    exact ⟨f', hadv⟩
  | resumedInto rs hw ha hb =>
    exact ⟨f.reserve, advances_resumedInto hc.session hc.running hlt' hw ha hb⟩
  | reported s rs =>
    exact ⟨f, advances_still (hc.session.congr rfl rfl rfl) hc.running rfl rfl⟩

end Scene

end PermitRing.Queue.Session
