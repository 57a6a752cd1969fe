import PermitRing.Proofs.Session.Custody
import PermitRing.Proofs.Session.Interchange
import PermitRing.Proofs.Session.Rollback
import PermitRing.Proofs.Session.Stranding

/-!
# What is destroyed with a queue

A queue is destroyed slot by slot, and not in the order in which its elements would have come out.
Where the head stands decides between the two, and it stands at the number of elements that have
come out, round the ring: claims of the tail are never taken back, since a constructor that fails
and a push that is turned down have not claimed any, so the tail stands at the number of elements
that were accepted, and the head as far before it as there are elements left.

That nothing leaks is more than that every slot is cleared. Every element that a push brought along
or a constructor built is handed back, popped or destroyed, and not two of these, in the end.

## Main definitions

* `Queue.Leftover` — what is left in a queue after a history, and what its destruction comes to;
* `Session.concluded` — a run that has come to its end, where nobody waits any more.

## Main results

* `Scene.Run.position_tail`, `Run.position_head` — where the indices stand;
* `Scene.Run.leftover` — what is left after a run of a new queue;
* `Session.destroyed_once` — for every run of a new queue, and its end.
-/

namespace PermitRing.Queue

open Session (Event enteredIn takenIn)

variable {α : Type} {q : Queue α} {f : Fifo α}

/-! ### Destruction -/

/-- After the history `h` the elements `rest` are left in the queue, and they are destroyed with it.
-/
structure Leftover (k : Config) (h : List (Event α)) (q : Queue α) (rest : List α) : Prop where
  /-- They are those that were accepted and were not popped, in their order. -/
  fifo : enteredIn h = takenIn h ++ rest
  /-- The queue says how many there are. -/
  size : q.size = rest.length
  /-- The first of them is in the slot at the number of pops, round the ring. -/
  head : q.head.position = (takenIn h).length % k.capacity
  /-- Those that stand behind the last slot, in the slots from the first one on, are destroyed
  first. -/
  drop : q.drop =
    rest.drop (min rest.length (k.capacity - (takenIn h).length % k.capacity)) ++
      rest.take (min rest.length (k.capacity - (takenIn h).length % k.capacity))
  /-- Every slot is as in a new queue after that, so that nothing is destroyed again. -/
  cleared : q.storage.clear.2 = .vacant k.capacity
  /-- The number is reported, unless it is zero. -/
  messages : q.dropMessages =
    if rest = [] then []
    else [⟨.debug, k.discipline.name ++ " queue dropped with " ++ toString rest.length ++
      " undrained items"⟩]
  /-- Whatever was accepted was popped or is destroyed, and not both. -/
  accepted : (enteredIn h).Perm (takenIn h ++ q.drop)

/-- What is destroyed follows from where the head stands. -/
theorem Represents.drop (h : q.Represents f) :
    q.drop = f.items.drop (min f.items.length (q.capacity - q.head.position)) ++
      f.items.take (min f.items.length (q.capacity - q.head.position)) := by
  have hdrop : q.drop = f.items.drop (q.capacity - q.head.position) ++
      f.items.take (q.capacity - q.head.position) := h.window.destroyed
  rw [hdrop]
  rcases Nat.le_total f.items.length (q.capacity - q.head.position) with hle | hle
  · rw [Nat.min_eq_left hle, List.drop_of_length_le hle, List.drop_length,
      List.take_of_length_le hle, List.take_length]
  · rw [Nat.min_eq_right hle]

theorem Represents.perm_drop (h : q.Represents f) : f.items.Perm q.drop := by
  rw [h.drop]
  exact (List.Perm.of_eq (List.take_append_drop _ _).symm).trans List.perm_append_comm

/-- The number of elements is reported, unless it is zero. -/
theorem Represents.dropMessages (h : q.Represents f) :
    q.dropMessages =
      if f.items = [] then []
      else [⟨.debug, q.discipline.name ++ " queue dropped with " ++ toString f.items.length ++
        " undrained items"⟩] := by
  rw [Queue.dropMessages]
  simp only [← h.perm_drop.length_eq, List.length_eq_zero_iff]

namespace Session

variable {s : Session α} {w : Waiting α}

/-! ### Where the indices stand -/

namespace Scene

variable {c c' : Scene α} {e h : List (Event α)} {d : Discipline} {k : Config}
  {order : Side → Nat → Nat} {level : Log.Level}

/-- In a turn the tail moves on by as many slots as elements go in. -/
theorem Turn.position_tail (ht : Turn c e c') (hc : c.Sound f)
    (hlt : c.session.threads < Word.size) :
    c'.session.queue.tail.position =
      (c.session.queue.tail.position + (enteredIn e).length) % c.session.queue.capacity := by
  rcases (ht.traces hc hlt).entered with ⟨hnil, htail⟩ | ⟨v, q, hone, -, halike, hpub⟩
  · rw [hnil, htail, List.length_nil, Nat.add_zero,
      Nat.mod_eq_of_lt hc.session.represents.coherent.tail_lt]
  · rw [hone, tail_of_publish hpub, halike.tail, halike.capacity, List.length_singleton]

/-- **The tail stands at the number of elements that were accepted**, round the ring. -/
theorem Run.position_tail (hq : create d k order = .ok q) (hr : Run (new q level) h c)
    (hlt : c.session.threads < Word.size) :
    c.session.queue.capacity = k.capacity ∧
      c.session.queue.tail.position = (enteredIn h).length % k.capacity := by
  have hnew := sound_new hq level
  refine hr.preserves (P := fun h c => c.session.queue.capacity = k.capacity ∧
    c.session.queue.tail.position = (enteredIn h).length % k.capacity) hnew hlt ?_ ?_
  · refine ⟨hnew.session.represents.capacity, ?_⟩
    rw [eq_of_create hq]
    exact (Nat.zero_mod _).symm
  · rintro h c e c' f' ⟨hcap, htail⟩ hc hlt' ht
    have hlt := ht.threads_le.trans_lt hlt'
    refine ⟨(ht.traces hc hlt).keeps.capacity.trans hcap, ?_⟩
    rw [ht.position_tail hc hlt, htail, hcap, Nat.mod_add_mod, enteredIn_append,
      List.length_append]

/-- **The head stands at the number of elements that were popped**, round the ring. -/
theorem Run.position_head (hq : create d k order = .ok q) (hr : Run (new q level) h c)
    (hlt : c.session.threads < Word.size) :
    c.session.queue.head.position = (takenIn h).length % k.capacity := by
  obtain ⟨f, hc, hacc⟩ := hr.accounted hq hlt
  obtain ⟨hcap, htail⟩ := hr.position_tail hq hlt
  have hcoherent := hc.session.represents.coherent
  have hhead := hcoherent.head_lt
  have hplace := hcoherent.tail_eq
  rw [htail, hacc.fifo, List.length_append, hcap] at hplace
  rw [hcap] at hhead
  -- both are as far before the tail as there are elements left
  have hmod : (takenIn h).length ≡ c.session.queue.head.position [MOD k.capacity] :=
    Nat.ModEq.add_right_cancel' _ hplace
  exact (Nat.mod_eq_of_lt hhead).symm.trans hmod.symm

/-- The queue is of the discipline that it was made of. -/
theorem Run.discipline_eq (hq : create d k order = .ok q) (hr : Run (new q level) h c) :
    c.session.queue.discipline = d := by
  have hviews : (Comparison.under d d).Views (new q level) (new (q.under d) level) :=
    ⟨sides_create hq d level, rfl⟩
  obtain ⟨⟨s', rs'⟩, -, hs, -⟩ := hviews.run hr
  obtain ⟨⟨-, hdisc, -⟩, -, -⟩ := hs
  exact hdisc

/-- **What is left after a run** of a new queue. -/
theorem Run.leftover {k : Config} (hq : create k.discipline k order = .ok q)
    (hr : Run (new q level) h c) (hlt : c.session.threads < Word.size) :
    ∃ rest, Leftover k h c.session.queue rest := by
  obtain ⟨f, hc, hacc⟩ := hr.accounted hq hlt
  obtain ⟨hcap, -⟩ := hr.position_tail hq hlt
  have hhead := hr.position_head hq hlt
  have hrep := hc.session.represents
  refine ⟨f.items, hacc.fifo, hrep.size_eq, hhead, ?_, ?_, ?_, ?_⟩
  · rw [hrep.drop, hcap, hhead]
  · exact hcap ▸ hrep.window.cleared
  · rw [hrep.dropMessages, hr.discipline_eq hq]
  · rw [hacc.fifo]
    exact hrep.perm_drop.append_left _

/-- **Every element is in one place**: handed back, with a thread that waits, popped, or left. -/
theorem Course.perm_drop {k : Config} {brought back rest : List α}
    (hr : Course (new q level) h brought back c) (hq : create k.discipline k order = .ok q)
    (hlt : c.session.threads < Word.size) (hl : Leftover k h c.session.queue rest) :
    brought.Perm (back ++ c.session.held ++ takenIn h ++ c.session.queue.drop) := by
  have hconserved := hr.perm_brought (sound_new hq level) hlt
  rw [show (new q level).session.held = [] from rfl, List.append_nil] at hconserved
  rw [List.append_assoc _ (takenIn h)]
  exact hconserved.trans (hl.accepted.append_left _)

/-- Messages are logged up to the same level as ever. -/
theorem Turn.level_eq (ht : Turn c e c') : c'.session.level = c.session.level := by
  cases ht with
  | call name x s rs hx =>
    cases x with
    | push | pop | close =>
      dsimp only
      rw [act]
      split <;> rfl
    | elapse t =>
      dsimp only
      rw [act]
      cases he : s.elapse? t with
      | none => rfl
      | some s' =>
        obtain rfl := eq_of_elapse? he
        rfl
    | iter | tryIter | emplace | info | outline => rfl
  | ended name build s t rs =>
    have hbuilt : (s.construct name build).2.level = s.level := by
      cases build with
      | built v =>
        rw [construct]
        split <;> rfl
      | failed error | raised text => rfl
    cases t <;> exact hbuilt
  | @resumed s w rs hw ha hb =>
    obtain ⟨-, hcases⟩ := resume_cases idle hb
    show (s.resume idle w).2.level = s.level
    obtain ⟨q, a, he⟩ | ⟨q, he⟩ | ⟨q, left, got, he⟩ := hcases <;> rw [he] <;> rfl
  | refused | parked | began | resumedInto | reported => rfl

theorem Run.level_eq (hr : Run c h c') : c'.session.level = c.session.level := by
  induction hr with
  | nil => rfl
  | snoc _ ht ih => exact ht.level_eq.trans ih

end Scene

/-! ### The end of a run -/

/-- The end of a run: threads that still sleep are let go by the closing of the queue. -/
def conclude (s : Session α) : List (Report α) × Session α :=
  if s.waiting.isEmpty then ([], s)
  else settle ((s.say mainName s.queue.closeMessages).setQueue s.queue.close.2)

/-- The run at its end. -/
def concluded (s : Session α) : Session α :=
  s.conclude.2

theorem concluded_of_nil (h : s.waiting = []) : s.concluded = s := by
  rw [concluded, conclude, h]
  rfl

theorem finish_eq (s : Session α) :
    s.finish =
      { closed := if s.waiting.isEmpty then none else some s.queue.close.1.isOk
        woken := s.concluded.returned
        asides := s.conclude.1
        view := s.concluded.queue.view
        destroyed := s.concluded.queue.drop
        log := s.concluded.log ++
          Log.Message.lines s.concluded.level mainName s.concluded.queue.dropMessages } := by
  rw [finish, concluded, conclude]
  cases s.waiting.isEmpty <;> rfl

theorem spends_concluded (s : Session α) : Spends 0 s s.concluded := by
  rw [concluded, conclude]
  split
  · exact Spends.same rfl rfl
  · have hclose : Spends 0 s ((s.say mainName s.queue.closeMessages).setQueue s.queue.close.2) :=
      Spends.same rfl rfl
    exact hclose.trans ((calms_settle 0).spends _)

theorem act_close (name : String) (s : Session α) :
    (s.act name .close).2 = (s.say name s.queue.closeMessages).setQueue s.queue.close.2 := by
  rw [act]
  split <;> rename_i he <;> exact congrArg (setQueue _) (congrArg Prod.snd he).symm

/-- **The end of a run is a run**, after which nobody waits. -/
theorem Scene.Sound.concluded (hc : (Scene.mk s []).Sound f)
    (hlt : s.concluded.threads < Word.size) :
    (∃ h, Scene.Run ⟨s, []⟩ h ⟨s.concluded, []⟩) ∧ s.concluded.waiting = [] := by
  by_cases hnone : s.waiting = []
  · rw [concluded_of_nil hnone]
    exact ⟨⟨[], .nil _⟩, hnone⟩
  · have hclose := Scene.Turn.call mainName .close s [] (by simp)
    have he : s.concluded = (settle (s.act mainName .close).2).2 := by
      rw [act_close, Session.concluded, conclude, if_neg (by simpa using hnone)]
    rw [he] at hlt ⊢
    have hlt₁ := ((calms_settle 0).spends (s.act mainName .close).2).threads_le.trans_lt hlt
    obtain ⟨f₁, hadv⟩ := hclose.advances hc hlt₁
    have hc₁ := hadv.sound hc
    obtain ⟨⟨h, hr⟩, hcalm', -⟩ := (calms_settle _).run hc₁ (Nat.le_refl _) hlt
    obtain ⟨f₂, hc₂, -⟩ := hr.sound hc₁ hlt
    -- the queue is closed now, and no constructor runs
    obtain ⟨ho', -⟩ := hr.stays_closed hc₁ hlt (isOpen_act_close mainName s) rfl
    exact ⟨⟨_, hclose.run.trans hr⟩, hc₂.waiting_of_closed ho' rfl hcalm'⟩

/-- Steps that are carried out on a new queue are a run, up to its end. -/
theorem run_concluded {d : Discipline} {k : Config} {order : Side → Nat → Nat}
    (hq : create d k order = .ok q) (level : Log.Level) {xs : List (Step α)}
    (hxs : callsIn xs < Word.size) (hs : (run xs { queue := q, level }).2 = s) :
    s.concluded.threads < Word.size ∧ s.concluded.waiting = [] ∧
      ∃ h, Scene.Run (.new q level) h ⟨s.concluded, []⟩ := by
  have hnew := Scene.sound_new hq level
  have hspends : Spends (callsIn xs) { queue := q, level } s :=
    hs ▸ spends_runSteps (calms_settle 0).spends mainName xs { queue := q, level }
  have hbudget : s.concluded.threads + s.concluded.callsInside ≤ 0 + 0 + (callsIn xs + 0) :=
    (hspends.trans (spends_concluded s)).budget
  have hlt : s.concluded.threads < Word.size := by omega
  have hlts : s.threads < Word.size := (spends_concluded s).threads_le.trans_lt hlt
  obtain ⟨h, hr⟩ : ∃ h, Scene.Run (.new q level) h ⟨s, []⟩ :=
    hs ▸ (runSteps_conclude (calms_settle _) mainName xs hnew (Nat.le_refl _) (hs.symm ▸ hlts)).run
  obtain ⟨f, hc, -⟩ := hr.sound hnew hlts
  obtain ⟨⟨h', hr'⟩, hnone⟩ := hc.concluded hlt
  exact ⟨hlt, hnone, _, hr.trans hr'⟩

/-- **Every element is popped once, destroyed once, or handed back.** Take a new queue of any
configuration that passes validation, with any choice of the thread that each single wake reaches,
and any run of turns on it. Let `rest` be the elements that were accepted and not popped, in their
order, and let the queue be destroyed.

* As many of them as there are slots from the number of pops on, round the ring, stand in these
  slots, and the others in the first slots. The others are destroyed first, and so each once. The
  number is what the queue took for its size, and it is reported unless it is zero.
* Each element that a push brought along or a constructor built was handed back by a push that was
  turned down, is with a thread that waits, was popped, or is destroyed, and not two of these.

The runs of steps after each of which threads are let run are among these runs, and so is what such
a run is ended with. Nobody waits then. -/
theorem destroyed_once {c : Config} (hc : c.validate = .ok ()) (order : Side → Nat → Nat) :
    ∃ q : Queue α, create c.discipline c order = .ok q ∧ ∀ level : Log.Level,
      (∀ (h : List (Event α)) (brought back : List α) (scene : Scene α),
        Scene.Course (.new q level) h brought back scene →
        scene.session.threads < Word.size →
          ∃ rest, Leftover c h scene.session.queue rest ∧
            brought.Perm (back ++ scene.session.held ++ takenIn h ++ scene.session.queue.drop)) ∧
      ∀ xs : List (Step α), callsIn xs < Word.size →
        ∀ s, (run xs { queue := q, level }).2 = s →
          (s.waiting = [] → s.concluded = s) ∧
          ∃ h brought back rest, Scene.Course (.new q level) h brought back ⟨s.concluded, []⟩ ∧
            s.concluded.waiting = [] ∧
            Leftover c h s.concluded.queue rest ∧
            brought.Perm (back ++ takenIn h ++ s.finish.destroyed) ∧
            s.finish.destroyed = s.concluded.queue.drop ∧
            s.finish.view.size = rest.length ∧
            s.finish.log = s.concluded.log ++
              Log.Message.lines level mainName s.concluded.queue.dropMessages := by
  obtain ⟨q, hq⟩ := exists_create hc order
  refine ⟨q, hq, fun level => ⟨fun h brought back scene hr hlt => ?_, fun xs hxs s hs => ?_⟩⟩
  · obtain ⟨rest, hl⟩ := hr.run.leftover hq hlt
    exact ⟨rest, hl, hr.perm_drop hq hlt hl⟩
  · obtain ⟨hlt, hnone, h, hr⟩ := run_concluded hq level hxs hs
    obtain ⟨rest, hl⟩ := hr.leftover hq hlt
    obtain ⟨brought, back, hcourse⟩ := hr.course
    have hheld : s.concluded.held = [] := by
      rw [held, hnone]
      rfl
    have hperm := hcourse.perm_drop hq hlt hl
    rw [hheld, List.append_nil] at hperm
    have hlevel : s.concluded.level = level := hr.level_eq
    refine ⟨concluded_of_nil, h, brought, back, rest, hcourse, hnone, hl, ?_⟩
    rw [finish_eq, hlevel]
    exact ⟨hperm, rfl, hl.size, rfl⟩

/-- The window passes the last slot, a constructor fails, a push is turned down, and another one
sleeps until the end. -/
def wrapped : List (Step Nat) :=
  [.push 1 .never, .push 2 .never, .push 3 .never, .pop .never, .pop .never, .push 4 .never,
    .emplace .never true [] (.failed "no"), .push 5 .never, .push 6 .never,
    .push 7 (.atMost .endless)]

/-- Of three elements the oldest stands in the last slot, and is destroyed last. -/
theorem destroyed_once_wrapped :
    ({ capacity := 3 } : Config).validate = .ok () ∧ callsIn wrapped < Word.size ∧
      ∃ q : Queue Nat, create .mpmc { capacity := 3 } (fun _ _ => 0) = .ok q ∧
        (run wrapped { queue := q, level := .off }).2.finish.destroyed = [4, 5, 3] ∧
        ∃ (h : List (Event Nat)) (brought back rest : List Nat),
          Leftover { capacity := 3 } h
            (run wrapped { queue := q, level := .off }).2.concluded.queue rest ∧
          brought.Perm (back ++ takenIn h ++ [4, 5, 3]) ∧ rest.length = 3 := by
  obtain ⟨q, hq, hruns⟩ := destroyed_once (α := Nat) (c := { capacity := 3 }) rfl fun _ _ => 0
  have hthree : (run wrapped { queue := q, level := .off }).2.finish.destroyed = [4, 5, 3] := by
    rw [eq_of_create hq]
    decide +kernel
  obtain ⟨-, h, brought, back, rest, -, -, hl, hperm, hdrop, -, -⟩ :=
    (hruns .off).2 wrapped (by decide) _ rfl
  refine ⟨rfl, by decide, q, hq, hthree, h, brought, back, rest, hl, hthree ▸ hperm, ?_⟩
  -- the elements that are left are those destroyed, in another order
  have hlen := hl.accepted.length_eq
  rw [hl.fifo, List.length_append, List.length_append, ← hdrop, hthree] at hlen
  exact Nat.add_left_cancel hlen

end Session

end PermitRing.Queue
