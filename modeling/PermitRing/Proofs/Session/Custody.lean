import Mathlib.Algebra.Order.Group.Multiset
import Mathlib.Tactic.Abel
import PermitRing.Proofs.Session.Integrity

/-!
# In whose hands an element is

A push brings its element along, and so does a constructor that has built one. From then on the
element is in one place at a time: a call that is turned down hands it back, a thread that sleeps
keeps it, and otherwise the queue accepts it. A constructor that fails or gives up brings nothing
along, and neither does a construction that is turned down, since its constructor does not run.

The history of a run lists what was accepted, but of the calls of the caller and of constructors it
does not say which elements they came with. Here a run is annotated with that, turn by turn. The
annotation restricts nothing: every run has one.

## Main definitions

* `Scene.Deal`, `Scene.Course` — a turn and a run, with the elements that are brought along in it
  and those that are handed back;
* `Session.held` — the elements that threads keep while they wait.

## Main results

* `Scene.Course.run`, `Scene.Run.course` — annotated runs are runs, and runs can be annotated;
* `Scene.Deal.perm_brought`, `Scene.Course.perm_brought` — no element is lost, and none comes twice.
-/

namespace PermitRing.Queue

variable {α : Type}

/-! ### Elements of calls -/

/-- The element that a constructor has built. -/
def Build.brought : Build α → List α
  | .built v => [v]
  | .failed _ | .raised _ => []

/-- The element that an answer hands back. -/
def Answer.handedBack : Answer α → List α
  | .rejected r => [r.value]
  | _ => []

/-- The element that a thread is to put in. What it has popped is out of the queue already. -/
def Task.held : Task α → List α
  | .push v _ => [v]
  | .pop _ | .iter .. | .emplace .. => []

namespace Session

/-- The element that a step without a constructor comes with. -/
def Step.brought : Step α → List α
  | .push v _ => [v]
  | _ => []

/-- The elements that were handed back to threads, in order. -/
def handedBackIn (h : List (Event α)) : List α :=
  h.flatMap fun
    | .returned _ a => a.handedBack
    | _ => []

/-- The elements that threads keep while they wait. -/
def held (s : Session α) : List α :=
  s.waiting.flatMap fun w => w.task.held

variable {s : Session α} {w : Waiting α} {q : Queue α} {f : Fifo α}

theorem held_start (s : Session α) (task : Task α) : (s.start task).held = s.held ++ task.held := by
  rw [held, start, List.flatMap_append, List.flatMap_singleton]
  rfl

theorem waiting_construct (name : String) (build : Build α) (s : Session α) :
    (s.construct name build).2.waiting = s.waiting := by
  cases build with
  | built v =>
    rw [construct]
    split <;> rfl
  | failed error | raised text => rfl

theorem held_leave (hn : (s.waiting.map Waiting.thread).Nodup) (hw : w ∈ s.waiting) :
    s.held.Perm (w.task.held ++ (s.leave w.thread).held) :=
  (perm_cons_filter_ne hn hw).flatMap_right _

/-- A thread that goes on with another task keeps what it kept, if that is what the task keeps. -/
theorem held_setTask (hn : (s.waiting.map Waiting.thread).Nodup) (hw : w ∈ s.waiting)
    {task : Task α} (ht : task.held = w.task.held) : (s.setTask w.thread task).held = s.held := by
  rw [held, setTask, List.flatMap_map]
  refine List.flatMap_congr fun w' hw' => ?_
  split
  · obtain rfl : w' = w := List.inj_on_of_nodup_map hn hw' hw ‹_›
    exact ht
  · rfl

/-- A push whose time limit passes keeps its element. -/
theorem held_of_expire {task task' : Task α} (h : task.expire? = some task') :
    task'.held = task.held := by
  cases task with
  | push v limit | pop limit | emplace limit fallible inner build =>
    obtain ⟨limit', -, rfl⟩ := Option.map_eq_some_iff.mp h
    rfl
  | iter left got => cases h

namespace Scene

variable {c c' : Scene α} {e h : List (Event α)} {brought back xs ys : List α}

/-! ### Annotated runs -/

/-- One turn, with the elements that are brought along in it and those that are handed back. -/
inductive Deal : Scene α → List (Event α) → List α → List α → Scene α → Prop
  /-- A step without a constructor comes with its element, and its answer may hand it back. -/
  | call (name : String) (x : Step α) (s : Session α) (rs : List (Option Nat))
      (hx : ∀ wait fallible inner build, x ≠ .emplace wait fallible inner build) :
      Deal ⟨s, rs⟩ (x.events (s.act name x).1) x.brought (s.act name x).1.handedBack
        ⟨(s.act name x).2, rs⟩
  /-- The innermost constructor ends, and comes with what it has built. -/
  | ended (name : String) (build : Build α) (s : Session α) (t : Option Nat)
      (rs : List (Option Nat)) :
      Deal ⟨s, t :: rs⟩ (builtEvents t build (s.construct name build).1) build.brought []
        ⟨(s.construct name build).2.finishFor t (s.construct name build).1, rs⟩
  /-- A thread that is awake goes on, and may be handed its element back. -/
  | resumed {s : Session α} {w : Waiting α} (rs : List (Option Nat)) (hw : w ∈ s.waiting)
      (ha : s.isAsleep w.thread = false) (hb : ∀ q, ¬w.Begins s.queue q) :
      Deal ⟨s, rs⟩ (w.events s.queue) [] (handedBackIn (w.events s.queue)) ⟨(s.resume idle w).2, rs⟩
  /-- A construction is turned down, without an element. -/
  | refused {s : Session α} {wait : Wait} {r : Refusal} {q : Queue α} (rs : List (Option Nat))
      (he : s.queue.admitProducer s.nextThread wait = (some (.error r), q)) :
      Deal ⟨s, rs⟩ [] [] [] ⟨s.setQueue q, rs⟩
  /-- A construction goes on on a thread of its own, still without one. -/
  | parked {s : Session α} {wait : Wait} {q : Queue α} (fallible : Bool) (inner : List (Step α))
      (build : Build α) (rs : List (Option Nat))
      (he : s.queue.admitProducer s.nextThread wait = (none, q)) :
      Deal ⟨s, rs⟩ [.started s.nextThread (.emplace (limitOf wait) fallible inner build)] [] []
        ⟨(s.setQueue q).start (.emplace (limitOf wait) fallible inner build), rs⟩
  /-- The constructor of a step begins, and has built nothing yet. -/
  | began {s : Session α} {wait : Wait} {q : Queue α} (rs : List (Option Nat))
      (he : s.queue.admitProducer s.nextThread wait = (some (.ok ()), q)) :
      Deal ⟨s, rs⟩ [] [] [] ⟨s.setQueue q, none :: rs⟩
  /-- The constructor of a thread's call begins. -/
  | resumedInto {s : Session α} {w : Waiting α} {q : Queue α} (rs : List (Option Nat))
      (hw : w ∈ s.waiting) (ha : s.isAsleep w.thread = false) (hb : w.Begins s.queue q) :
      Deal ⟨s, rs⟩ [] [] [] ⟨(s.setQueue q).leave w.thread, some w.thread :: rs⟩
  /-- What was returned and logged is reported. -/
  | reported (s : Session α) (rs : List (Option Nat)) :
      Deal ⟨s, rs⟩ [] [] [] ⟨{ s with returned := [], log := [] }, rs⟩

/-- A run of such turns: its history, the elements that were brought along and those that were
handed back. -/
inductive Course : Scene α → List (Event α) → List α → List α → Scene α → Prop
  /-- Nothing has happened. -/
  | nil (c : Scene α) : Course c [] [] [] c
  /-- One turn more. -/
  | snoc {c c' c'' : Scene α} {h e : List (Event α)} {brought back xs ys : List α}
      (hr : Course c h brought back c') (hd : Deal c' e xs ys c'') :
      Course c (h ++ e) (brought ++ xs) (back ++ ys) c''

theorem Deal.turn (hd : Deal c e brought back c') : Turn c e c' := by
  cases hd with
  | call name x s rs hx => exact .call name x s rs hx
  | ended name build s t rs => exact .ended name build s t rs
  | resumed rs hw ha hb => exact .resumed rs hw ha hb
  | refused rs he => exact .refused rs he
  | parked fallible inner build rs he => exact .parked fallible inner build rs he
  | began rs he => exact .began rs he
  | resumedInto rs hw ha hb => exact .resumedInto rs hw ha hb
  | reported s rs => exact .reported s rs

theorem Turn.deal (ht : Turn c e c') : ∃ brought back, Deal c e brought back c' := by
  cases ht with
  | call name x s rs hx => exact ⟨_, _, .call name x s rs hx⟩
  | ended name build s t rs => exact ⟨_, _, .ended name build s t rs⟩
  | resumed rs hw ha hb => exact ⟨_, _, .resumed rs hw ha hb⟩
  | refused rs he => exact ⟨_, _, .refused rs he⟩
  | parked fallible inner build rs he => exact ⟨_, _, .parked fallible inner build rs he⟩
  | began rs he => exact ⟨_, _, .began rs he⟩
  | resumedInto rs hw ha hb => exact ⟨_, _, .resumedInto rs hw ha hb⟩
  | reported s rs => exact ⟨_, _, .reported s rs⟩

/-- An annotated run is a run. -/
theorem Course.run (hr : Course c h brought back c') : Run c h c' := by
  induction hr with
  | nil => exact .nil _
  | snoc _ hd ih => exact ih.snoc hd.turn

/-- Every run can be annotated. -/
theorem Run.course (hr : Run c h c') : ∃ brought back, Course c h brought back c' := by
  induction hr with
  | nil => exact ⟨[], [], .nil _⟩
  | snoc _ ht ih =>
    obtain ⟨brought, back, hr⟩ := ih
    obtain ⟨xs, ys, hd⟩ := ht.deal
    exact ⟨_, _, hr.snoc hd⟩

/-! ### One turn -/

section Turns

variable {rs : List (Option Nat)}

/-- A push puts its element in, gets it back, or leaves it with a thread. -/
theorem conserved_push (name : String) (v : α) (wait : Wait) (hc : (Scene.mk s rs).Sound f)
    (hlt : s.threads < Word.size) :
    ([v] ++ s.held).Perm ((s.act name (.push v wait)).1.handedBack ++
      (s.act name (.push v wait)).2.held ++
      enteredIn (Step.events (.push v wait) (s.act name (.push v wait)).1)) := by
  have hpub : ∀ q, s.queue.admitProducer s.nextThread wait = (some (.ok ()), q) →
      ∃ q', q.publish v = (.ok (), q') := fun q he => hc.publishes hlt (.push rs v he)
  rw [Session.act, Queue.push]
  rcases pushAfter_cases hpub with he | ⟨r, he⟩ | ⟨q, q', hadm, hq, he⟩ <;> rw [he]
  · show ([v] ++ s.held).Perm (((s.setQueue _).start _).held ++ [])
    rw [held_start, List.append_nil]
    exact List.perm_append_comm
  · exact (List.append_nil _).symm ▸ List.Perm.refl _
  · exact List.perm_append_comm

/-- No other step comes with an element, hands one back or puts one in. -/
theorem conserved_call (name : String) (x : Step α) (hc : (Scene.mk s rs).Sound f)
    (hlt : s.threads < Word.size) :
    (x.brought ++ s.held).Perm ((s.act name x).1.handedBack ++ (s.act name x).2.held ++
      enteredIn (x.events (s.act name x).1)) := by
  have hstill : ∀ {l : List α}, l.Perm ([] ++ l ++ []) := fun {l} =>
    (List.append_nil ([] ++ l)).symm ▸ List.Perm.refl l
  cases x with
  | push v wait => exact conserved_push name v wait hc hlt
  | pop wait =>
    rw [Session.act]
    rcases s.queue.pop s.nextThread wait with ⟨_ | _ | _ | _, q⟩
    · dsimp only
      rw [held_start]
      exact (List.append_nil s.held).symm ▸ hstill
    · exact hstill
    · exact hstill
    · exact hstill
  | iter most =>
    rw [Session.act, held_start]
    exact (List.append_nil s.held).symm ▸ hstill
  | tryIter most =>
    have hevents : enteredIn (Step.events (.tryIter most) (s.act name (.tryIter most)).1) = [] :=
      enteredIn_map_taken _
    rw [hevents]
    exact hstill
  | close =>
    rw [Session.act]
    split <;> exact hstill
  | elapse t =>
    rw [Session.act]
    cases he : s.elapse? t with
    | none => exact hstill
    | some s' =>
      obtain ⟨w, hw, -, task, ht, rfl⟩ := exists_of_elapse? hc.session.nodup he
      have hheld := held_setTask (s := s.setQueue (s.queue.expire w.thread)) hc.session.nodup hw
        (held_of_expire ht)
      dsimp only
      rw [hheld]
      exact hstill
  | emplace | info | outline => exact hstill

/-- The end of a constructor puts in what it has built. -/
theorem conserved_ended (name : String) (build : Build α) {t : Option Nat}
    (hc : (Scene.mk s (t :: rs)).Sound f) (hlt : s.threads < Word.size) :
    (build.brought ++ s.held).Perm
      (((s.construct name build).2.finishFor t (s.construct name build).1).held ++
        enteredIn (builtEvents t build (s.construct name build).1)) := by
  have hheld : ((s.construct name build).2.finishFor t (s.construct name build).1).held =
      s.held := by
    have hwaiting := waiting_construct name build s
    cases t with
    | none => rw [finishFor, held, hwaiting, held]
    | some t =>
      have hout := hwaiting.symm ▸ notMem_waiting_of_running hc.nodup
      rw [finishFor, held, finishThread, waiting_leave_of_notMem hout, hwaiting, held]
  have hentered : enteredIn (builtEvents t build (s.construct name build).1) = build.brought := by
    cases build with
    | built v =>
      obtain ⟨q, hpub⟩ := hc.publishes hlt (.built s t rs v)
      simp only [construct, hpub]
      cases t <;> rfl
    | failed error | raised text => cases t <;> rfl
  rw [hheld, hentered]
  exact List.perm_append_comm

/-- A thread that is to put nothing in goes on. -/
theorem still_events (hnone : w.task.held = []) :
    enteredIn (w.events q) = [] ∧ handedBackIn (w.events q) = [] := by
  obtain ⟨t, task⟩ := w
  cases task with
  | push v limit => cases hnone
  | pop limit =>
    simp only [Waiting.events]
    rcases (q.resumePop t limit).1 with _ | _ | _ | _ <;> exact ⟨rfl, rfl⟩
  | iter left got =>
    simp only [Waiting.events]
    split
    · exact ⟨rfl, rfl⟩
    · rcases (q.resumePop t .endless).1 with _ | _ | _ | _
      · exact ⟨rfl, rfl⟩
      · dsimp only
        split <;> exact ⟨rfl, rfl⟩
      · exact ⟨rfl, rfl⟩
      · exact ⟨rfl, rfl⟩
  | emplace limit fallible inner build =>
    simp only [Waiting.events]
    rcases (q.readmitProducer t limit).1 with _ | _ | _
    · exact ⟨rfl, rfl⟩
    · cases fallible <;> exact ⟨rfl, rfl⟩
    · exact ⟨rfl, rfl⟩

/-- A push that slept puts its element in, gets it back, or keeps it. -/
theorem conserved_resumePush {t : Nat} {v : α} {limit : Patience} (hc : (Scene.mk s rs).Sound f)
    (hlt : s.threads < Word.size) (hw : ⟨t, .push v limit⟩ ∈ s.waiting) :
    s.held.Perm (handedBackIn (Waiting.events ⟨t, .push v limit⟩ s.queue) ++
      (s.resume idle ⟨t, .push v limit⟩).2.held ++
      enteredIn (Waiting.events ⟨t, .push v limit⟩ s.queue)) := by
  have hpub : ∀ q, s.queue.readmitProducer t limit = (some (.ok ()), q) →
      ∃ q', q.publish v = (.ok (), q') := fun q he => hc.publishes hlt (.resumePush rs hw he)
  have hleave : s.held.Perm ([v] ++ (s.leave t).held) := held_leave hc.session.nodup hw
  simp only [Waiting.events, resume, Queue.resumePush]
  rcases pushAfter_cases hpub with he | ⟨r, he⟩ | ⟨q, q', hadm, hq, he⟩ <;> simp only [he]
  · exact (List.append_nil s.held).symm ▸ List.Perm.refl _
  · exact (List.append_nil ([v] ++ (s.leave t).held)).symm ▸ hleave
  · exact hleave.trans List.perm_append_comm

/-- A thread that is awake goes on. -/
theorem conserved_resumed (hc : (Scene.mk s rs).Sound f) (hlt : s.threads < Word.size)
    (hw : w ∈ s.waiting) (hb : ∀ q, ¬w.Begins s.queue q) :
    s.held.Perm (handedBackIn (w.events s.queue) ++ (s.resume idle w).2.held ++
      enteredIn (w.events s.queue)) := by
  by_cases hnone : w.task.held = []
  · obtain ⟨hi, ho⟩ := still_events (q := s.queue) hnone
    rw [hi, ho, List.append_nil, List.nil_append]
    have hleave := held_leave hc.session.nodup hw
    rw [hnone] at hleave
    obtain ⟨-, hcases⟩ := resume_cases idle hb
    obtain ⟨q, a, he⟩ | ⟨q, he⟩ | ⟨q, left, got, he⟩ := hcases
    · exact he ▸ hleave
    · exact he ▸ List.Perm.refl s.held
    · have hsame : (Task.iter left got : Task α).held = w.task.held := hnone.symm
      rw [he]
      exact .of_eq (held_setTask (s := s.setQueue q) hc.session.nodup hw hsame).symm
  · obtain ⟨t, task⟩ := w
    cases task with
    | push v limit => exact conserved_resumePush hc hlt hw
    | pop | iter | emplace => exact absurd rfl hnone

/-- **In one turn no element is lost, and none comes twice.** -/
theorem Deal.perm_brought (hd : Deal c e brought back c') (hc : c.Sound f)
    (hlt : c.session.threads < Word.size) :
    (brought ++ c.session.held).Perm (back ++ c'.session.held ++ enteredIn e) := by
  cases hd with
  | call name x s rs hx => exact conserved_call name x hc hlt
  | ended name build s t rs => exact conserved_ended name build hc hlt
  | resumed rs hw ha hb => exact conserved_resumed hc hlt hw hb
  | @parked s wait q fallible inner build rs he =>
    show s.held.Perm (((s.setQueue q).start _).held ++ [])
    rw [held_start, List.append_nil]
    exact .of_eq (List.append_nil s.held).symm
  | @resumedInto s w q rs hw ha hb =>
    obtain ⟨limit, fallible, inner, build, htask, -⟩ := hb
    have hleave := held_leave hc.session.nodup hw
    rw [htask] at hleave
    exact (List.append_nil (s.leave w.thread).held).symm ▸ hleave
  | refused | began | reported => exact (List.append_nil _).symm ▸ List.Perm.refl _

end Turns

/-! ### Runs -/

/-- **In a run no element is lost, and none comes twice**: whatever was brought along was handed
back, is kept by a thread that waits, or was accepted. -/
theorem Course.perm_brought (hr : Course c h brought back c') (hc : c.Sound f)
    (hlt : c'.session.threads < Word.size) :
    (brought ++ c.session.held).Perm (back ++ c'.session.held ++ enteredIn h) := by
  induction hr with
  | nil => exact (List.append_nil _).symm ▸ List.Perm.refl _
  | @snoc c' c'' h e brought back xs ys hr hd ih =>
    have hlt' := hd.turn.threads_le.trans_lt hlt
    obtain ⟨f', hc', -⟩ := hr.run.sound hc hlt'
    have hrun := Multiset.coe_eq_coe.mpr (ih hlt')
    have hturn := Multiset.coe_eq_coe.mpr (hd.perm_brought hc' hlt')
    rw [enteredIn_append, ← Multiset.coe_eq_coe]
    simp only [← Multiset.coe_add] at hrun hturn ⊢
    -- what threads kept in between comes in on one side and goes out on the other
    refine add_right_cancel (b := (c'.session.held : Multiset α)) ?_
    calc (brought + xs + c.session.held + c'.session.held : Multiset α)
        = (brought + c.session.held) + (xs + c'.session.held) := by abel
      _ = (back + c'.session.held + enteredIn h) + (ys + c''.session.held + enteredIn e) := by
          rw [hrun, hturn]
      _ = back + ys + c''.session.held + (enteredIn h + enteredIn e) + c'.session.held := by abel

end Scene

end Session

end PermitRing.Queue
