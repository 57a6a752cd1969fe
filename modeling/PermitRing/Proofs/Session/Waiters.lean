import PermitRing.Proofs.Queue.Easing

/-!
# Threads that wait in a settled run

Every thread that has not returned is in the middle of a task, and a task asks for permits of at
most one side. Those who sleep on a side are among those whose task asks for permits of that side;
the others are awake and will ask as soon as they are let run. The invariant of a settled run is
that on either side on which anybody sleeps there are at least as many threads awake as there are
permits. Once nobody is awake any more there is no permit left for those who sleep, which is all
that is to be said about them.

## Main definitions

* `Task.side?` — the side on which a thread asks for permits;
* `Session.Sound` — the invariant;
* `View.Fair`, `Shut` — what shows of a queue in which nobody is stranded, and of one that was
  closed.

## Main results

* `Session.Sound.leave`, `quit`, `lull`, `startAsleep`, `elapse` — a thread ends its wait, gives up,
  falls asleep, or is to wait no more;
* `Session.Sound.fair` — nobody is stranded once nobody can be let run;
* `Session.Sound.shut` — nobody sleeps in a closed queue whom the closing should rouse.
-/

namespace PermitRing.Queue

variable {α : Type}

/-- What shows of a queue, while `r` constructors run, if nobody waits for what is there. -/
structure View.Fair (r : Nat) (v : View) : Prop where
  /-- Producers wait for room only, and only while the queue is open. -/
  producers : 0 < v.blockedProducers → v.state = .opened ∧ v.free = 0
  /-- Consumers wait for elements only, and only while any may come. -/
  consumers : 0 < v.blockedConsumers → v.size = 0 ∧ (v.state = .opened ∨ 0 < r)
  /-- Unless a constructor holds the room in between, only one side waits. -/
  oneSide : r = 0 → ¬(0 < v.blockedProducers ∧ 0 < v.blockedConsumers)

/-- What shows of a queue that was closed, while `r` constructors run. -/
structure View.Shut (r : Nat) (v : View) : Prop where
  /-- It does not open again. -/
  state : v.state ≠ .opened
  /-- No producer waits. -/
  producers : v.blockedProducers = 0
  /-- No consumer waits once the last constructor has ended. -/
  consumers : r = 0 → v.blockedConsumers = 0

/-! ### A thread falls asleep -/

/-- A thread has reason to wait on a side. -/
def MayWait (q : Queue α) : Side → Prop
  | .produce => q.isOpen = true
  | .consume => q.isDrained = false

/-- The queue after a thread fell asleep on a side. -/
def lull (t : Nat) (x : Side) (q : Queue α) : Queue α :=
  match x with
  | .produce => q.setProduce (q.gate.produce.withSleeper t)
  | .consume => q.setConsume (q.gate.consume.withSleeper t)

section Lull

variable {q : Queue α} {f : Fifo α} {t : Nat} {x : Side}

theorem sleepers_lull_self : ∃ e, (q.lull t x).sleepers x = q.sleepers x ++ [⟨t, e⟩] := by
  cases x <;> exact ⟨_, rfl⟩

theorem sleepers_lull_of_ne {y : Side} (h : y ≠ x) : (q.lull t x).sleepers y = q.sleepers y := by
  cases x <;> cases y <;> first | rfl | exact absurd rfl h

theorem count_lull (y : Side) :
    ((q.lull t x).gate.side y).count = (q.gate.side y).count := by
  cases x <;> cases y <;> rfl

theorem Represents.lull (h : q.Represents f) : (q.lull t x).Represents f := by
  cases x with
  | produce => exact h.setProduce rfl
  | consume => exact h.setConsume rfl

theorem Sound.lull (h : q.Sound) (ha : (q.gate.side x).parker.isAsleep t = false)
    (hp : (q.gate.side x).parker.parked + 1 < Word.size) (hw : q.MayWait x) :
    (q.lull t x).Sound := by
  cases x with
  | produce =>
    refine ⟨h.produce.doze ha hp _, h.consume, fun hc => ?_, h.drained⟩
    exact absurd (hw.symm.trans hc) Bool.noConfusion
  | consume =>
    refine ⟨h.produce, h.consume.doze ha hp _, h.closed, fun hd => ?_⟩
    exact absurd (hw.symm.trans hd) Bool.noConfusion

end Lull

/-! ### Tasks -/

/-- The side on which a thread in the middle of a task asks for permits; none if it needs no more.
-/
def Task.side? : Task α → Option Side
  | .push .. | .emplace .. => some .produce
  | .pop _ => some .consume
  | .iter left _ => if left = some 0 then none else some .consume

/-- A task whose limit has passed asks for the same permits. -/
theorem Task.side?_of_expire {task task' : Task α} (h : task.expire? = some task') :
    task'.side? = task.side? := by
  cases task with
  | push v limit | pop limit | emplace limit fallible inner build =>
    obtain ⟨limit', -, rfl⟩ := Option.map_eq_some_iff.mp h
    rfl
  | iter left got => cases h

namespace Session

variable {s : Session α} {f g : Fifo α} {q : Queue α} {w : Waiting α} {x : Side}

/-- The threads that ask for permits of a side. -/
def waitingOn (s : Session α) (x : Side) : Nat :=
  s.waiting.countP fun w => w.task.side? = some x

/-- The invariant of a settled run, whoever may have to be let run. -/
structure Sound (s : Session α) (f : Fifo α) : Prop where
  represents : s.queue.Represents f
  queue : s.queue.Sound
  nodup : (s.waiting.map Waiting.thread).Nodup
  started : ∀ w ∈ s.waiting, w.thread ≤ s.threads
  few : s.waiting.length ≤ s.threads
  sleeping : ∀ x, ∀ z ∈ s.queue.sleepers x,
    ∃ w ∈ s.waiting, w.thread = z.thread ∧ w.task.side? = some x
  enough : ∀ x, s.queue.sleepers x ≠ [] →
    (s.queue.gate.side x).count + (s.queue.sleepers x).length ≤ s.waitingOn x

theorem sound_create {d : Discipline} {c : Config} {order : Side → Nat → Nat}
    (h : create d c order = .ok q) (level : Log.Level) :
    Sound { queue := q, level } { discipline := d, capacity := c.capacity } := by
  have hnone : ∀ x, q.sleepers x = [] := by
    rw [eq_of_create h]
    intro x
    cases x <;> rfl
  refine ⟨represents_create h, Queue.sound_create h, List.nodup_nil, ?_, Nat.le_refl _, ?_, ?_⟩
  · intro w hw
    cases hw
  · intro x z hz
    rw [hnone x] at hz
    cases hz
  · exact fun x hx => absurd (hnone x) hx

/-! ### Who is awake -/

theorem awake_iff {t : Nat} :
    s.isAsleep t = false ↔ ∀ x, ∀ z ∈ s.queue.sleepers x, z.thread ≠ t := by
  simp only [isAsleep, Bool.or_eq_false_iff, Parker.isAsleep, List.any_eq_false, beq_iff_eq]
  constructor
  · rintro ⟨hproduce, hconsume⟩ x
    cases x with
    | produce => exact hproduce
    | consume => exact hconsume
  · exact fun h => ⟨h .produce, h .consume⟩

theorem parker_awake {t : Nat} (h : s.isAsleep t = false) (x : Side) :
    (s.queue.gate.side x).parker.isAsleep t = false := by
  rw [isAsleep, Bool.or_eq_false_iff] at h
  cases x with
  | produce => exact h.1
  | consume => exact h.2

namespace Sound

/-- Nothing else about the session matters. -/
theorem congr {s' : Session α} (h : s.Sound f) (hq : s'.queue = s.queue)
    (hw : s'.waiting = s.waiting) (ht : s'.threads = s.threads) : s'.Sound f := by
  obtain ⟨queue, level, waiting, threads, returned, log⟩ := s'
  subst hq hw ht
  exact ⟨h.represents, h.queue, h.nodup, h.started, h.few, h.sleeping, h.enough⟩

/-- Those who sleep on a side ask for permits of that side, and whoever is awake is not one of them.
-/
theorem length_sleepers_lt (h : s.Sound f) (hw : w ∈ s.waiting)
    (ha : s.isAsleep w.thread = false) (hx : w.task.side? = some x) :
    (s.queue.sleepers x).length < s.waitingOn x := by
  have hnodup : (w.thread :: (s.queue.sleepers x).map Parker.Sleeper.thread).Nodup := by
    refine List.nodup_cons.mpr ⟨fun hmem => ?_, (h.queue.side x).nodup⟩
    obtain ⟨z, hz, he⟩ := List.mem_map.mp hmem
    exact awake_iff.mp ha x z hz he
  have hsub : (w.thread :: (s.queue.sleepers x).map Parker.Sleeper.thread) ⊆
      (s.waiting.filter fun w => w.task.side? = some x).map Waiting.thread := by
    intro t ht
    rcases List.mem_cons.mp ht with rfl | ht
    · exact List.mem_map_of_mem (List.mem_filter.mpr ⟨hw, decide_eq_true hx⟩)
    · obtain ⟨z, hz, rfl⟩ := List.mem_map.mp ht
      obtain ⟨w', hw', he, hx'⟩ := h.sleeping x z hz
      exact List.mem_map.mpr ⟨w', List.mem_filter.mpr ⟨hw', decide_eq_true hx'⟩, he⟩
  have := hnodup.length_le_of_subset hsub
  rw [List.length_cons, List.length_map, List.length_map, ← List.countP_eq_length_filter] at this
  exact this

theorem length_sleepers_le (h : s.Sound f) (x : Side) :
    (s.queue.sleepers x).length ≤ s.waitingOn x := by
  by_cases hs : s.queue.sleepers x = []
  · rw [hs]
    exact Nat.zero_le _
  · have := h.enough x hs
    omega

theorem waitingOn_le (h : s.Sound f) (x : Side) : s.waitingOn x ≤ s.threads :=
  Nat.le_trans List.countP_le_length h.few

theorem parked_le (h : s.Sound f) (x : Side) :
    (s.queue.gate.side x).parker.parked ≤ s.threads := by
  rw [(h.queue.side x).parked]
  exact Nat.le_trans (h.length_sleepers_le x) (h.waitingOn_le x)

/-! ### Nobody is stranded -/

/-- Once everybody sleeps, those who sleep on a side are all who ask for permits there. -/
theorem waitingOn_of_settled (h : s.Sound f) (hr : s.runnable? = none) (x : Side) :
    s.waitingOn x ≤ (s.queue.sleepers x).length := by
  have hnodup : ((s.waiting.filter fun w => w.task.side? = some x).map Waiting.thread).Nodup :=
    h.nodup.sublist (List.filter_sublist.map _)
  have hsub : (s.waiting.filter fun w => w.task.side? = some x).map Waiting.thread ⊆
      (s.queue.sleepers x).map Parker.Sleeper.thread := by
    intro t ht
    obtain ⟨w, hw, rfl⟩ := List.mem_map.mp ht
    obtain ⟨hw, hx⟩ := List.mem_filter.mp hw
    have hasleep : ¬s.isAsleep w.thread = false := by
      simpa using List.find?_eq_none.mp hr w hw
    rw [awake_iff] at hasleep
    push Not at hasleep
    obtain ⟨y, z, hz, he⟩ := hasleep
    -- the task of a sleeper asks for permits where the sleeper sleeps
    obtain ⟨w', hw', he', hy⟩ := h.sleeping y z hz
    have hww : w' = w := List.inj_on_of_nodup_map h.nodup hw' hw (he'.trans he)
    rw [hww, of_decide_eq_true hx, Option.some.injEq] at hy
    subst hy
    exact List.mem_map.mpr ⟨z, hz, he⟩
  have := hnodup.length_le_of_subset hsub
  rw [List.length_map, List.length_map, ← List.countP_eq_length_filter] at this
  exact this

/-- Once everybody sleeps, there is no permit where anybody does. -/
theorem count_eq_zero (h : s.Sound f) (hr : s.runnable? = none)
    (hx : s.queue.sleepers x ≠ []) : (s.queue.gate.side x).count = 0 := by
  have := h.enough x hx
  have := h.waitingOn_of_settled hr x
  omega

theorem blocked_iff (h : s.Sound f) (x : Side) :
    0 < (s.queue.gate.side x).waiters ↔ s.queue.sleepers x ≠ [] :=
  Parker.parked_pos_iff (h.queue.side x)

theorem state_eq_opened_iff : s.queue.state = .opened ↔ s.queue.isOpen = true := by
  unfold Queue.state
  cases s.queue.isOpen with
  | true => simp
  | false =>
    simp only [Bool.false_eq_true, if_false, iff_false]
    split <;> exact Lifecycle.noConfusion

/-- The queue is drained once it is closed and no constructor runs in it. -/
theorem isDrained_iff (h : s.Sound f) :
    s.queue.isDrained = true ↔ f.isClosed = true ∧ f.running = 0 := by
  rw [h.represents.isDrained, Fifo.isDrained, Bool.and_eq_true, beq_iff_eq]

/-- **Nobody is stranded** in a settled run once everybody has returned or sleeps. -/
theorem fair (h : s.Sound f) (hr : s.runnable? = none) : s.queue.view.Fair f.running := by
  -- who sleeps on a side finds no permit there, and nobody sleeps whom the closing should rouse
  have hproduce : 0 < s.queue.blockedProducers → s.queue.isOpen = true ∧ s.queue.free = 0 := by
    intro hpos
    have hne := (h.blocked_iff .produce).mp hpos
    refine ⟨Bool.not_eq_false _ ▸ fun hc => hne (h.queue.closed hc), ?_⟩
    exact h.count_eq_zero hr hne
  have hconsume : 0 < s.queue.blockedConsumers → s.queue.size = 0 ∧ s.queue.isDrained = false := by
    intro hpos
    have hne := (h.blocked_iff .consume).mp hpos
    refine ⟨h.count_eq_zero hr hne, ?_⟩
    rw [← Bool.not_eq_true]
    exact fun hd => hne (h.queue.drained hd)
  have hdrained : s.queue.isDrained = false → s.queue.isOpen = true ∨ 0 < f.running := by
    rw [h.represents.isDrained, h.represents.isOpen, Fifo.isDrained]
    intro hd
    rcases Bool.and_eq_false_iff.mp hd with hc | hn
    · exact .inl (by rw [hc]; rfl)
    · exact .inr (Nat.pos_of_ne_zero (by simpa using hn))
  refine ⟨fun hp => ?_, fun hp => ?_, fun hz hp => ?_⟩
  · obtain ⟨ho, hfree⟩ := hproduce hp
    exact ⟨state_eq_opened_iff.mpr ho, hfree⟩
  · obtain ⟨hsize, hd⟩ := hconsume hp
    exact ⟨hsize, (hdrained hd).imp state_eq_opened_iff.mpr id⟩
  · -- neither room nor an element: the capacity would be zero
    have hfree : s.queue.gate.produce.count = 0 := (hproduce hp.1).2
    have hsize : s.queue.gate.consume.count = 0 := (hconsume hp.2).1
    have hcap := Nat.zero_lt_of_lt h.represents.window.first_lt
    rw [h.represents.storage_capacity] at hcap
    rw [h.represents.produce, Fifo.free, ← h.represents.consume, hsize, hz] at hfree
    omega

theorem state_ne_opened_iff (h : s.Sound f) :
    s.queue.view.state ≠ .opened ↔ f.isClosed = true := by
  rw [show s.queue.view.state = s.queue.state from rfl, ne_eq, state_eq_opened_iff,
    Bool.not_eq_true, h.represents.isClosed_iff]

/-- **Nobody sleeps whom the closing should rouse**, and that at any time: the closing itself rouses
the producers, and the last constructor to end rouses the consumers. -/
theorem shut (h : s.Sound f) (hc : f.isClosed = true) : s.queue.view.Shut f.running := by
  have hnone : ∀ x, s.queue.sleepers x = [] → (s.queue.gate.side x).waiters = 0 := by
    intro x hx
    have := (h.blocked_iff x).not.mpr (not_not.mpr hx)
    omega
  have hopen := h.represents.isClosed_iff.mp hc
  exact ⟨h.state_ne_opened_iff.mpr hc, hnone .produce (h.queue.closed hopen),
    fun hz => hnone .consume (h.queue.drained (h.isDrained_iff.mpr ⟨hc, hz⟩))⟩

/-! ### Changes of the queue alone -/

theorem setQueue (h : s.Sound f) (hp : Passes none s.queue q g) : (s.setQueue q).Sound g := by
  refine ⟨hp.represents, hp.sound, h.nodup, h.started, h.few, fun x z hz => ?_,
    fun x hx => ?_⟩
  · exact h.sleeping x z ((hp.sleepers_sublist x).subset hz)
  · have hne : s.queue.sleepers x ≠ [] := by
      intro he
      have := hp.sleepers_sublist x
      rw [he] at this
      exact hx (List.sublist_nil.mp this)
    have := (hp.eases x).fewer hx
    exact Nat.le_trans this (h.enough x hne)

/-! ### A thread ends its wait -/

theorem waitingOn_leave (h : s.Sound f) (hw : w ∈ s.waiting) (x : Side) :
    (s.leave w.thread).waitingOn x + (if w.task.side? = some x then 1 else 0) = s.waitingOn x := by
  have := (perm_cons_filter_ne h.nodup hw).countP_eq fun w => decide (w.task.side? = some x)
  rw [List.countP_cons] at this
  simp only [decide_eq_true_eq] at this
  exact this.symm

/-- A thread that is awake is gone, and leaves enough others awake on its side. -/
theorem leave_of (h : s.Sound f) (hw : w ∈ s.waiting) (ha : s.isAsleep w.thread = false)
    (hp : Passes none s.queue q g) (henough : ∀ x, w.task.side? = some x → q.sleepers x ≠ [] →
      (q.gate.side x).count + (q.sleepers x).length < s.waitingOn x) :
    ((s.setQueue q).leave w.thread).Sound g := by
  have hsub : (s.waiting.filter fun w' => w'.thread != w.thread).Sublist s.waiting :=
    List.filter_sublist
  refine ⟨hp.represents, hp.sound, h.nodup.sublist (hsub.map _),
    fun w' hw' => h.started w' (hsub.subset hw'), Nat.le_trans hsub.length_le h.few,
    fun x z hz => ?_, fun x hx => ?_⟩
  · have hz' : z ∈ s.queue.sleepers x := (hp.sleepers_sublist x).subset hz
    obtain ⟨w', hw', he, hx⟩ := h.sleeping x z hz'
    have hne : w'.thread ≠ w.thread := he ▸ awake_iff.mp ha x z hz'
    exact ⟨w', List.mem_filter.mpr ⟨hw', bne_iff_ne.mpr hne⟩, he, hx⟩
  · have hcount : ((s.setQueue q).leave w.thread).waitingOn x +
        (if w.task.side? = some x then 1 else 0) = s.waitingOn x := h.waitingOn_leave hw x
    show (q.gate.side x).count + (q.sleepers x).length ≤ _
    by_cases hside : w.task.side? = some x
    · have := henough x hside hx
      rw [if_pos hside] at hcount
      omega
    · have : (q.gate.side x).count + (q.sleepers x).length ≤ s.waitingOn x :=
        (h.setQueue hp).enough x hx
      rw [if_neg hside] at hcount
      omega

/-- A thread that is awake takes a permit of its side, or is turned down, and is gone. -/
theorem leave (h : s.Sound f) (hw : w ∈ s.waiting) (ha : s.isAsleep w.thread = false)
    (hp : Passes w.task.side? s.queue q g) : ((s.setQueue q).leave w.thread).Sound g := by
  refine h.leave_of hw ha hp.weaken fun x hside hx => ?_
  have hne : s.queue.sleepers x ≠ [] := by
    intro he
    have := hp.sleepers_sublist x
    rw [he] at this
    exact hx (List.sublist_nil.mp this)
  have hfewer := (hp.eases x).fewer hx
  rw [if_pos hside] at hfewer
  have henough := h.enough x hne
  exact Nat.lt_of_lt_of_le hfewer henough

/-- A thread that is awake and finds no permit on its side gives up, and is gone. -/
theorem quit (h : s.Sound f) (hw : w ∈ s.waiting) (ha : s.isAsleep w.thread = false)
    (hx : w.task.side? = some x) (hzero : (s.queue.gate.side x).count = 0) :
    (s.leave w.thread).Sound f := by
  refine h.leave_of hw ha (Passes.refl h.represents h.queue) fun y hy _ => ?_
  obtain rfl := Option.some.inj (hx.symm.trans hy)
  rw [hzero, Nat.zero_add]
  exact h.length_sleepers_lt hw ha hx

/-! ### A thread falls asleep -/

/-- Who falls asleep on a side where there is no permit leaves everything in order, as long as only
those sleep there whose task asks for permits of that side. -/
theorem of_lull {s' : Session α} {t : Nat} (h : s.Sound f) (hq : s'.queue = s.queue.lull t x)
    (ha : s.isAsleep t = false) (hzero : (s.queue.gate.side x).count = 0)
    (hmay : s.queue.MayWait x) (hlt : s'.threads < Word.size)
    (hnodup : (s'.waiting.map Waiting.thread).Nodup)
    (hstarted : ∀ w ∈ s'.waiting, w.thread ≤ s'.threads)
    (hfew : s'.waiting.length ≤ s'.threads) (hsub : ∀ w ∈ s.waiting, w ∈ s'.waiting)
    (hself : ∃ w ∈ s'.waiting, w.thread = t ∧ w.task.side? = some x)
    (hmono : ∀ y, s.waitingOn y ≤ s'.waitingOn y)
    (hmore : (s.queue.sleepers x).length < s'.waitingOn x) : s'.Sound f := by
  obtain ⟨e, hsleepers⟩ := sleepers_lull_self (q := s.queue) (t := t) (x := x)
  have hparked : (s.queue.gate.side x).parker.parked + 1 < Word.size := by
    have : s'.waitingOn x ≤ s'.waiting.length := List.countP_le_length
    have hlen := (h.queue.side x).parked
    change _ = (s.queue.sleepers x).length at hlen
    omega
  refine ⟨hq ▸ h.represents.lull, hq ▸ h.queue.lull (parker_awake ha x) hparked hmay, hnodup,
    hstarted, hfew, fun y z hz => ?_, fun y hy => ?_⟩
  · rw [hq] at hz
    by_cases hyx : y = x
    · subst hyx
      rw [hsleepers] at hz
      rcases List.mem_append.mp hz with hz | hz
      · obtain ⟨w, hw, he⟩ := h.sleeping y z hz
        exact ⟨w, hsub w hw, he⟩
      · rw [List.mem_singleton.mp hz]
        exact hself
    · rw [sleepers_lull_of_ne hyx] at hz
      obtain ⟨w, hw, he⟩ := h.sleeping y z hz
      exact ⟨w, hsub w hw, he⟩
  · rw [hq] at hy ⊢
    rw [count_lull]
    by_cases hyx : y = x
    · subst hyx
      rw [hsleepers, List.length_append, List.length_singleton, hzero]
      omega
    · rw [sleepers_lull_of_ne hyx] at hy ⊢
      exact Nat.le_trans (h.enough y hy) (hmono y)

/-- A thread that was roused falls asleep again. -/
theorem lull (h : s.Sound f) (hw : w ∈ s.waiting) (ha : s.isAsleep w.thread = false)
    (hx : w.task.side? = some x) (hzero : (s.queue.gate.side x).count = 0)
    (hmay : s.queue.MayWait x) (hlt : s.threads < Word.size) :
    (s.setQueue (s.queue.lull w.thread x)).Sound f :=
  h.of_lull rfl ha hzero hmay hlt h.nodup h.started h.few (fun _ hw => hw)
    ⟨w, hw, rfl, hx⟩ (fun _ => Nat.le_refl _) (h.length_sleepers_lt hw ha hx)

/-! ### A thread is started -/

theorem nextThread_notMem (h : s.Sound f) : s.nextThread ∉ s.waiting.map Waiting.thread := by
  intro hmem
  obtain ⟨w, hw, he⟩ := List.mem_map.mp hmem
  have := h.started w hw
  rw [he, nextThread] at this
  omega

theorem nextThread_awake (h : s.Sound f) : s.isAsleep s.nextThread = false := by
  rw [awake_iff]
  intro x z hz he
  obtain ⟨w, hw, he', -⟩ := h.sleeping x z hz
  exact h.nextThread_notMem (List.mem_map.mpr ⟨w, hw, he'.trans he⟩)

theorem nodup_start (h : s.Sound f) (task : Task α) :
    ((s.start task).waiting.map Waiting.thread).Nodup := by
  rw [start, List.map_append, List.map_cons, List.map_nil]
  refine List.nodup_append'.mpr ⟨h.nodup, List.nodup_singleton _, ?_⟩
  rw [List.disjoint_singleton]
  exact h.nextThread_notMem

theorem started_start (h : s.Sound f) (task : Task α) :
    ∀ w ∈ (s.start task).waiting, w.thread ≤ (s.start task).threads := by
  intro w hw
  rcases List.mem_append.mp hw with hw | hw
  · exact Nat.le_succ_of_le (h.started w hw)
  · rw [List.mem_singleton.mp hw]
    exact Nat.le_refl _

theorem few_start (h : s.Sound f) (task : Task α) :
    (s.start task).waiting.length ≤ (s.start task).threads := by
  rw [start, List.length_append, List.length_singleton]
  exact Nat.succ_le_succ h.few

theorem waitingOn_start (s : Session α) (task : Task α) (y : Side) :
    (s.start task).waitingOn y = s.waitingOn y + if task.side? = some y then 1 else 0 := by
  rw [waitingOn, start, List.countP_append, List.countP_singleton]
  simp only [decide_eq_true_eq, waitingOn]

/-- A call falls asleep and goes on on a thread of its own. -/
theorem startAsleep (h : s.Sound f) {task : Task α} (hx : task.side? = some x)
    (hzero : (s.queue.gate.side x).count = 0) (hmay : s.queue.MayWait x)
    (hlt : s.nextThread < Word.size) :
    ((s.setQueue (s.queue.lull s.nextThread x)).start task).Sound f := by
  refine h.of_lull rfl h.nextThread_awake hzero hmay hlt (h.nodup_start task)
    (h.started_start task) (h.few_start task) (fun w hw => List.mem_append_left _ hw)
    ⟨⟨s.nextThread, task⟩, List.mem_append_right _ (List.mem_singleton_self _), rfl, hx⟩
    (fun y => ?_) ?_
  · exact (waitingOn_start s task y).symm ▸ Nat.le_add_right _ _
  · have hon : ((s.setQueue (s.queue.lull s.nextThread x)).start task).waitingOn x =
        s.waitingOn x + if task.side? = some x then 1 else 0 := waitingOn_start s task x
    have := h.length_sleepers_le x
    rw [hon, if_pos hx]
    omega

/-- A thread is started that has not asked for anything yet. -/
theorem start (h : s.Sound f) (task : Task α) : (s.start task).Sound f := by
  refine ⟨h.represents, h.queue, h.nodup_start task, h.started_start task, h.few_start task,
    fun x z hz => ?_, fun x hx => ?_⟩
  · obtain ⟨w, hw, hz⟩ := h.sleeping x z hz
    exact ⟨w, List.mem_append_left _ hw, hz⟩
  · rw [waitingOn_start]
    exact Nat.le_add_right_of_le (h.enough x hx)

/-! ### A thread goes on with another task -/

theorem map_thread_setTask (s : Session α) (t : Nat) (task : Task α) :
    (s.setTask t task).waiting.map Waiting.thread = s.waiting.map Waiting.thread := by
  rw [Session.setTask, List.map_map]
  refine List.map_congr_left fun w _ => ?_
  show (if w.thread = t then (⟨t, task⟩ : Waiting α) else w).thread = w.thread
  split
  · exact Eq.symm ‹_›
  · rfl

/-- The thread asks for permits of the same side as before, so nothing changes for anybody. -/
theorem setTask (h : s.Sound f) (task : Task α) (hw : w ∈ s.waiting)
    (hs : task.side? = w.task.side?) : (s.setTask w.thread task).Sound f := by
  have hside : ∀ w₀ ∈ s.waiting,
      (if w₀.thread = w.thread then (⟨w.thread, task⟩ : Waiting α) else w₀).task.side? =
        w₀.task.side? := by
    intro w₀ hw₀
    split
    · rw [List.inj_on_of_nodup_map h.nodup hw₀ hw ‹_›]
      exact hs
    · rfl
  refine ⟨h.represents, h.queue, ?_, fun w' hw' => ?_, ?_, fun x z hz => ?_, fun x hx => ?_⟩
  · rw [map_thread_setTask]
    exact h.nodup
  · have hmem : w'.thread ∈ s.waiting.map Waiting.thread :=
      map_thread_setTask s w.thread task ▸ List.mem_map_of_mem hw'
    obtain ⟨w₀, hw₀, ht⟩ := List.mem_map.mp hmem
    exact ht ▸ h.started w₀ hw₀
  · rw [Session.setTask, List.length_map]
    exact h.few
  · obtain ⟨w₀, hw₀, ht, hx⟩ := h.sleeping x z hz
    refine ⟨_, List.mem_map_of_mem hw₀, ?_, (hside w₀ hw₀).trans hx⟩
    rw [← ht]
    split
    · exact Eq.symm ‹_›
    · rfl
  · have hon : (s.setTask w.thread task).waitingOn x = s.waitingOn x := by
      rw [waitingOn, Session.setTask, List.countP_map, waitingOn]
      refine List.countP_congr fun w₀ hw₀ => ?_
      simp only [Function.comp_apply, hside w₀ hw₀]
    rw [hon]
    exact h.enough x hx

/-! ### The time limit of a thread passes -/

/-- A thread that is to wait no more gets up if it sleeps, and nobody else does. -/
theorem elapse (h : s.Sound f) {task : Task α} (hw : w ∈ s.waiting)
    (ht : w.task.expire? = some task) :
    ((s.setQueue (s.queue.expire w.thread)).setTask w.thread task).Sound f :=
  (h.setQueue (h.represents.expire_passes h.queue w.thread)).setTask task hw
    (Task.side?_of_expire ht)

end Sound

theorem eq_of_elapse? {t : Nat} {s' : Session α} (h : s.elapse? t = some s') :
    s' = { s.setQueue (s.queue.expire t) with
      waiting := s.waiting.map fun w => if w.thread = t then w.expire else w } := by
  unfold elapse? at h
  split at h
  · exact (Option.some.inj h).symm
  · cases h

/-- A thread whose limit passes is in the middle of a call that has one. -/
theorem exists_of_elapse? (hn : (s.waiting.map Waiting.thread).Nodup) {t : Nat} {s' : Session α}
    (h : s.elapse? t = some s') : ∃ w ∈ s.waiting, w.thread = t ∧
      ∃ task, w.task.expire? = some task ∧
        s' = (s.setQueue (s.queue.expire w.thread)).setTask w.thread task := by
  have hany : (s.waiting.any fun w => w.thread == t && w.task.expire?.isSome) = true := by
    by_contra hany
    rw [elapse?, if_neg hany] at h
    cases h
  obtain ⟨w, hw, hx⟩ := List.any_eq_true.mp hany
  rw [Bool.and_eq_true, beq_iff_eq] at hx
  obtain ⟨rfl, hx⟩ := hx
  obtain ⟨task, ht⟩ := Option.isSome_iff_exists.mp hx
  refine ⟨w, hw, rfl, task, ht, ?_⟩
  rw [eq_of_elapse? h, Session.setTask, Session.setQueue, Session.mk.injEq]
  refine ⟨rfl, rfl, List.map_congr_left fun w' hw' => ?_, rfl, rfl, rfl⟩
  split
  · rw [List.inj_on_of_nodup_map hn hw' hw ‹_›, Waiting.expire, ht]
    rfl
  · rfl

end Session

end PermitRing.Queue
