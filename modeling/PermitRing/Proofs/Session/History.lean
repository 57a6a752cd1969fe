import Mathlib.Data.List.ReduceOption
import PermitRing.Proofs.Session.Waiters

/-!
# Settled runs and their histories

A session goes on by single turns: the caller, or a constructor that runs, makes a call; a
constructor begins or ends; a thread that is awake goes on. Which of these happens next is left
open, and so is what a constructor does and what it builds, so that the runs of this module include
those of any caller and any order in which the threads are let run. A run comes with its history,
which says who was started in the middle of what, which elements went in and came out, and who
returned with which answer.

## Main definitions

* `Session.Event`, `Session.Scene` — what a history lists, and between what its turns lead;
* `Scene.Turn`, `Scene.Run` — one turn, and a run of them with its history;
* `Scene.Remains`, `Scene.PushEnds` — what is left of the limit of a parked push, and how it ends;
* `Scene.Books` — what one turn does to the threads that are under way.

## Main results

* `Scene.Books.of_start`, `of_return`, `of_begin`, `of_end` — the turns that a thread takes.
-/

namespace PermitRing.Queue.Session

variable {α : Type}

/-! ### Events -/

/-- What a history lists. -/
inductive Event (α : Type)
  /-- A thread was started in the middle of a task. -/
  | started (thread : Nat) (task : Task α)
  /-- An element went in: a thread's, or one of the caller or of a constructor. -/
  | entered (thread : Option Nat) (v : α)
  /-- An element came out. -/
  | taken (v : α)
  /-- The call of a thread returned. -/
  | returned (thread : Nat) (answer : Answer α)
  /-- The time limit of a thread passed. -/
  | elapsed (thread : Nat)
  /-- A call closed the queue. -/
  | closed

namespace Event

/-- The element that went in. -/
def entered? : Event α → Option α
  | entered _ v => some v
  | _ => none

/-- The element that went in for a thread. -/
def enteredBy? (t : Nat) : Event α → Option α
  | entered t' v => if t' = some t then some v else none
  | _ => none

/-- The element that came out. -/
def taken? : Event α → Option α
  | taken v => some v
  | _ => none

/-- The thread that was started. -/
def starter? : Event α → Option Nat
  | started t _ => some t
  | _ => none

/-- The thread whose call returned. -/
def returner? : Event α → Option Nat
  | returned t _ => some t
  | _ => none

end Event

/-- The elements that went in, in order. -/
def enteredIn (h : List (Event α)) : List α :=
  h.filterMap Event.entered?

/-- The elements that went in for a thread, in order. -/
def enteredBy (t : Nat) (h : List (Event α)) : List α :=
  h.filterMap (Event.enteredBy? t)

/-- The elements that came out, in order. -/
def takenIn (h : List (Event α)) : List α :=
  h.filterMap Event.taken?

/-- The threads that were started, in order. -/
def startersIn (h : List (Event α)) : List Nat :=
  h.filterMap Event.starter?

/-- The threads whose calls returned, in order. -/
def returnersIn (h : List (Event α)) : List Nat :=
  h.filterMap Event.returner?

theorem enteredIn_append (h e : List (Event α)) :
    enteredIn (h ++ e) = enteredIn h ++ enteredIn e :=
  List.filterMap_append

theorem enteredBy_append (t : Nat) (h e : List (Event α)) :
    enteredBy t (h ++ e) = enteredBy t h ++ enteredBy t e :=
  List.filterMap_append

theorem takenIn_append (h e : List (Event α)) : takenIn (h ++ e) = takenIn h ++ takenIn e :=
  List.filterMap_append

theorem startersIn_append (h e : List (Event α)) :
    startersIn (h ++ e) = startersIn h ++ startersIn e :=
  List.filterMap_append

theorem returnersIn_append (h e : List (Event α)) :
    returnersIn (h ++ e) = returnersIn h ++ returnersIn e :=
  List.filterMap_append

/-- The task in the middle of which a thread is started when a step cannot go on at once. -/
def Step.task? : Step α → Option (Task α)
  | .push v wait => some (.push v (limitOf wait))
  | .pop wait => some (.pop (limitOf wait))
  | .iter most => some (.iter most [])
  | .emplace wait fallible inner build => some (.emplace (limitOf wait) fallible inner build)
  | .tryIter _ | .close | .info | .outline | .elapse _ => none

/-- What a step without a constructor adds to the history when it answers. -/
def Step.events (x : Step α) : Answer α → List (Event α)
  | .asleep t => x.task?.toList.map (.started t)
  | .popped v => [.taken v]
  | .values vs => vs.map .taken
  | .elapsed t => [.elapsed t]
  | .done =>
    match x with
    | .push v _ => [.entered none v]
    | .close => [.closed]
    | _ => []
  | _ => []

/-- What the end of a constructor adds to the history: the constructor of a thread's call, or of a
call that the caller or another constructor made. -/
def builtEvents (t : Option Nat) (build : Build α) (a : Answer α) : List (Event α) :=
  (match build, a with
    | .built v, .done => [.entered t v]
    | _, _ => []) ++ t.toList.map (.returned · a)

theorem closed_notMem_taken (vs : List α) : .closed ∉ vs.map Event.taken := by
  intro hm
  obtain ⟨v, -, he⟩ := List.mem_map.mp hm
  cases he

theorem closed_notMem_builtEvents (t : Option Nat) (build : Build α) (a : Answer α) :
    .closed ∉ builtEvents t build a := by
  cases t <;> cases build <;> cases a <;> simp [builtEvents]

/-- What the end of a thread's pop adds to the history. -/
def poppedEvents : Popped α → List (Event α)
  | .popped v => [.taken v]
  | .refused _ | .faulted _ => []

end Session

/-- What a thread that goes on adds to the history, unless its constructor begins. -/
def Waiting.events (w : Waiting α) (q : Queue α) : List (Session.Event α) :=
  match w.task with
  | .push v limit =>
    match (q.resumePush w.thread v limit).1 with
    | some .accepted => [.entered (some w.thread) v, .returned w.thread .done]
    | some r => [.returned w.thread (.ofPushed r)]
    | none => []
  | .pop limit =>
    match (q.resumePop w.thread limit).1 with
    | some r => Session.poppedEvents r ++ [.returned w.thread (.ofPopped r)]
    | none => []
  | .iter left got =>
    if left = some 0 then [.returned w.thread (.values got)]
    else match (q.resumePop w.thread .endless).1 with
    | some (.popped v) =>
      .taken v :: if left = some 1 then [.returned w.thread (.values (got ++ [v]))] else []
    | some (.refused _) => [.returned w.thread (.values got)]
    | some (.faulted f) => [.returned w.thread (.faulted f)]
    | none => []
  | .emplace limit fallible _ _ =>
    match (q.readmitProducer w.thread limit).1 with
    | some (.error r) => [.returned w.thread (.ofRefusal fallible r)]
    | _ => []

/-- The thread is let in, and its constructor begins. -/
def Waiting.Begins (w : Waiting α) (q q' : Queue α) : Prop :=
  ∃ limit fallible inner build, w.task = .emplace limit fallible inner build ∧
    q.readmitProducer w.thread limit = (some (.ok ()), q')

namespace Session

/-! ### Turns -/

/-- A session with the constructors that run in it, the innermost first: for each the thread whose
call it is, if it is a thread's. -/
structure Scene (α : Type) where
  session : Session α
  running : List (Option Nat) := []

/-- The call for which a constructor ran returns, if it is a thread's. -/
def finishFor (t : Option Nat) (a : Answer α) (s : Session α) : Session α :=
  match t with
  | none => s
  | some t => s.finishThread t a

namespace Scene

/-- One turn, with what it adds to the history. -/
inductive Turn : Scene α → List (Event α) → Scene α → Prop
  /-- A step without a constructor, on the thread with a name. -/
  | call (name : String) (x : Step α) (s : Session α) (rs : List (Option Nat))
      (hx : ∀ wait fallible inner build, x ≠ .emplace wait fallible inner build) :
      Turn ⟨s, rs⟩ (x.events (s.act name x).1) ⟨(s.act name x).2, rs⟩
  /-- A construction is turned down. -/
  | refused {s : Session α} {wait : Wait} {r : Refusal} {q : Queue α} (rs : List (Option Nat))
      (he : s.queue.admitProducer s.nextThread wait = (some (.error r), q)) :
      Turn ⟨s, rs⟩ [] ⟨s.setQueue q, rs⟩
  /-- A construction goes on on a thread of its own. -/
  | parked {s : Session α} {wait : Wait} {q : Queue α} (fallible : Bool) (inner : List (Step α))
      (build : Build α) (rs : List (Option Nat))
      (he : s.queue.admitProducer s.nextThread wait = (none, q)) :
      Turn ⟨s, rs⟩ [.started s.nextThread (.emplace (limitOf wait) fallible inner build)]
        ⟨(s.setQueue q).start (.emplace (limitOf wait) fallible inner build), rs⟩
  /-- The constructor of a step begins. -/
  | began {s : Session α} {wait : Wait} {q : Queue α} (rs : List (Option Nat))
      (he : s.queue.admitProducer s.nextThread wait = (some (.ok ()), q)) :
      Turn ⟨s, rs⟩ [] ⟨s.setQueue q, none :: rs⟩
  /-- The innermost constructor ends. -/
  | ended (name : String) (build : Build α) (s : Session α) (t : Option Nat)
      (rs : List (Option Nat)) :
      Turn ⟨s, t :: rs⟩ (builtEvents t build (s.construct name build).1)
        ⟨(s.construct name build).2.finishFor t (s.construct name build).1, rs⟩
  /-- A thread that is awake goes on, and no constructor begins. -/
  | resumed {s : Session α} {w : Waiting α} (rs : List (Option Nat)) (hw : w ∈ s.waiting)
      (ha : s.isAsleep w.thread = false) (hb : ∀ q, ¬w.Begins s.queue q) :
      Turn ⟨s, rs⟩ (w.events s.queue) ⟨(s.resume idle w).2, rs⟩
  /-- A thread that is awake goes on, and its constructor begins. -/
  | resumedInto {s : Session α} {w : Waiting α} {q : Queue α} (rs : List (Option Nat))
      (hw : w ∈ s.waiting) (ha : s.isAsleep w.thread = false) (hb : w.Begins s.queue q) :
      Turn ⟨s, rs⟩ [] ⟨(s.setQueue q).leave w.thread, some w.thread :: rs⟩
  /-- What was returned and logged is reported. -/
  | reported (s : Session α) (rs : List (Option Nat)) :
      Turn ⟨s, rs⟩ [] ⟨{ s with returned := [], log := [] }, rs⟩

/-- A run of turns with its history. -/
inductive Run : Scene α → List (Event α) → Scene α → Prop
  /-- Nothing has happened. -/
  | nil (c : Scene α) : Run c [] c
  /-- One turn more. -/
  | snoc {c c' c'' : Scene α} {h e : List (Event α)} (hr : Run c h c') (ht : Turn c' e c'') :
      Run c (h ++ e) c''

variable {c c' c'' : Scene α} {e h h' : List (Event α)}

theorem Turn.run (ht : Turn c e c') : Run c e c' :=
  Run.snoc (Run.nil c) ht

theorem Run.trans (hr : Run c h c') (hr' : Run c' h' c'') : Run c (h ++ h') c'' := by
  induction hr' with
  | nil => rwa [List.append_nil]
  | snoc _ ht ih => exact List.append_assoc h _ _ ▸ Run.snoc ih ht

/-! ### Threads that are under way -/

/-- The threads whose calls have not returned: those that wait, and those whose constructors run. -/
def underway (c : Scene α) : List Nat :=
  c.session.waiting.map Waiting.thread ++ c.running.reduceOption

/-- A thread that waits in the middle of a push. -/
def Pushing (c : Scene α) (t : Nat) (v : α) (limit : Patience) : Prop :=
  ⟨t, .push v limit⟩ ∈ c.session.waiting

/-- The limit of a thread is what it was, or it has passed. -/
def Remains (t : Nat) (h : List (Event α)) (limit limit' : Patience) : Prop :=
  limit' = limit ∨ (.elapsed t ∈ h ∧ limit.expire? = some limit')

/-- How a push ends, and what it has put in by then: it succeeds with its element put in, or it is
handed its element back, because the queue is closed or because its time is up. -/
inductive PushEnds (v : α) (limit : Patience) : Answer α → List α → Prop
  /-- The element is in. -/
  | accepted : PushEnds v limit .done [v]
  /-- The queue is closed. -/
  | closed : PushEnds v limit (.rejected ⟨v, .closed⟩) []
  /-- Time was up. -/
  | timedOut (hl : limit.isLong = false) : PushEnds v limit (.rejected ⟨v, .timedOut⟩) []

/-- The push of a thread came to its end. -/
def Settled (t : Nat) (v : α) (limit : Patience) (h : List (Event α)) : Prop :=
  ∃ a, .returned t a ∈ h ∧ PushEnds v limit a (enteredBy t h)

/-- What a turn does to the threads that are under way. -/
structure Books (c : Scene α) (e : List (Event α)) (c' : Scene α) : Prop where
  /-- A thread is under way from its start to its return. -/
  underway : (c'.underway ++ returnersIn e).Perm (c.underway ++ startersIn e)
  /-- Threads are started in the order of their numbers, one at a time. -/
  started : (startersIn e = [] ∧ c'.session.threads = c.session.threads) ∨
    (startersIn e = [c.session.nextThread] ∧ c'.session.threads = c.session.nextThread)
  /-- An element goes in for a thread only as its call returns. -/
  entering : ∀ t, t ∉ returnersIn e → enteredBy t e = []
  /-- Whoever is in the middle of a push remains so, or comes to its end. -/
  pushing : ∀ t v limit, c.Pushing t v limit →
    (∃ limit', Remains t e limit limit' ∧ c'.Pushing t v limit' ∧ t ∉ returnersIn e) ∨
      Settled t v limit e
  /-- Whoever is started in the middle of a push is then so, and sleeps when others act. -/
  parked : ∀ t v limit, .started t (.push v limit) ∈ e →
    c'.Pushing t v limit ∧ limit.isLong = true

/-! ### Limits -/

theorem remains_refl (t : Nat) (h : List (Event α)) (limit : Patience) :
    Remains t h limit limit :=
  .inl rfl

/-- A limit passes once. -/
theorem Remains.trans {t : Nat} {limit limit' limit'' : Patience} (hl : Remains t h limit limit')
    (hl' : Remains t e limit' limit'') : Remains t (h ++ e) limit limit'' := by
  rcases hl with rfl | ⟨hm, hx⟩
  · exact hl'.imp id (And.imp_left (List.mem_append_right h))
  · rcases hl' with rfl | ⟨-, hx'⟩
    · exact .inr ⟨List.mem_append_left e hm, hx⟩
    · -- what is left of a limit that has passed does not pass
      rw [Patience.expire?_of_expired hx] at hx'
      cases hx'

/-! ### Keeping the books -/

/-- Events of elements alone, of which none goes in for a thread. -/
def Anonymous (e : List (Event α)) : Prop :=
  ∀ x ∈ e, x.starter? = none ∧ x.returner? = none ∧ ∀ t, x.enteredBy? t = none

theorem Anonymous.starters (he : Anonymous e) : startersIn e = [] :=
  List.filterMap_eq_nil_iff.mpr fun x hx => (he x hx).1

theorem Anonymous.returners (he : Anonymous e) : returnersIn e = [] :=
  List.filterMap_eq_nil_iff.mpr fun x hx => (he x hx).2.1

theorem Anonymous.enteredBy (he : Anonymous e) (t : Nat) : enteredBy t e = [] :=
  List.filterMap_eq_nil_iff.mpr fun x hx => (he x hx).2.2 t

theorem anonymous_nil : Anonymous ([] : List (Event α)) := by
  intro x hx
  cases hx

theorem anonymous_taken (vs : List α) : Anonymous (vs.map .taken) := by
  intro x hx
  obtain ⟨v, -, rfl⟩ := List.mem_map.mp hx
  exact ⟨rfl, rfl, fun _ => rfl⟩

theorem anonymous_elapsed (t : Nat) : Anonymous ([.elapsed t] : List (Event α)) := by
  intro x hx
  rw [List.mem_singleton.mp hx]
  exact ⟨rfl, rfl, fun _ => rfl⟩

theorem anonymous_closed : Anonymous ([.closed] : List (Event α)) := by
  intro x hx
  rw [List.mem_singleton.mp hx]
  exact ⟨rfl, rfl, fun _ => rfl⟩

theorem anonymous_entered (v : α) : Anonymous [.entered none v] := by
  intro x hx
  rw [List.mem_singleton.mp hx]
  exact ⟨rfl, rfl, fun _ => rfl⟩

theorem takenIn_map (vs : List α) : takenIn (vs.map .taken) = vs := by
  rw [takenIn, List.filterMap_map, show Event.taken? ∘ (Event.taken : α → Event α) = some from rfl,
    List.filterMap_some]

theorem enteredIn_map_taken (vs : List α) : enteredIn (vs.map .taken) = [] := by
  rw [enteredIn, List.filterMap_map, List.filterMap_eq_nil_iff]
  exact fun _ _ => rfl

theorem Anonymous.not_started (he : Anonymous e) {t : Nat} {task : Task α} :
    .started t task ∉ e := by
  intro hm
  cases (he _ hm).1

namespace Books

/-- No thread takes part. -/
theorem of_anonymous (he : Anonymous e) (hw : c'.session.waiting = c.session.waiting)
    (ht : c'.session.threads = c.session.threads)
    (hr : c'.running.reduceOption = c.running.reduceOption) : Books c e c' := by
  refine ⟨?_, .inl ⟨he.starters, ht⟩, fun t _ => he.enteredBy t,
    fun t v limit hp => .inl ⟨limit, remains_refl t e limit, ?_, ?_⟩,
    fun t v limit hm => absurd hm he.not_started⟩
  · rw [Scene.underway, Scene.underway, hw, hr, he.starters, he.returners]
  · rw [Pushing, hw]
    exact hp
  · rw [he.returners]
    exact List.not_mem_nil

/-- A thread is started. -/
theorem of_start {task : Task α}
    (hw : c'.session.waiting = c.session.waiting ++ [⟨c.session.nextThread, task⟩])
    (ht : c'.session.threads = c.session.nextThread) (hr : c'.running = c.running)
    (hlong : ∀ v limit, task = .push v limit → limit.isLong = true) :
    Books c [.started c.session.nextThread task] c' := by
  refine ⟨?_, .inr ⟨rfl, ht⟩, fun _ _ => rfl,
    fun t v limit hp => .inl ⟨limit, remains_refl t _ limit, ?_, List.not_mem_nil⟩,
    fun t v limit hm => ?_⟩
  · rw [Scene.underway, Scene.underway, hw, hr, List.map_append,
      show returnersIn [Event.started c.session.nextThread task] = [] from rfl, List.append_nil,
      List.append_assoc, List.append_assoc]
    exact List.perm_append_comm.append_left _
  · rw [Pushing, hw]
    exact List.mem_append_left _ hp
  · obtain ⟨rfl, rfl⟩ := Event.started.inj (List.mem_singleton.mp hm)
    refine ⟨?_, hlong v limit rfl⟩
    rw [Pushing, hw]
    exact List.mem_append_right _ (List.mem_singleton_self _)

/-- What is left of the threads under way after one of those that wait has gone. -/
theorem perm_leave {s : Session α} (hn : (s.waiting.map Waiting.thread).Nodup) {w : Waiting α}
    (hw : w ∈ s.waiting) :
    (s.waiting.map Waiting.thread).Perm
      (w.thread :: (s.leave w.thread).waiting.map Waiting.thread) :=
  (perm_cons_filter_ne hn hw).map _

/-- Other threads that are in the middle of a push remain so. -/
theorem pushing_leave {w : Waiting α} (hw : c'.session.waiting = (c.session.leave w.thread).waiting)
    {t : Nat} {v : α} {limit : Patience} (ht : t ≠ w.thread) (hp : c.Pushing t v limit) :
    c'.Pushing t v limit := by
  rw [Pushing, hw]
  exact List.mem_filter.mpr ⟨hp, bne_iff_ne.mpr ht⟩

/-- A thread that waits returns. -/
theorem of_return {w : Waiting α} {a : Answer α} {moved : List (Event α)}
    (hn : (c.session.waiting.map Waiting.thread).Nodup) (hw : w ∈ c.session.waiting)
    (hw' : c'.session.waiting = (c.session.leave w.thread).waiting)
    (ht : c'.session.threads = c.session.threads) (hr : c'.running = c.running)
    (hs : startersIn moved = []) (hret : returnersIn moved = [])
    (hby : ∀ t, t ≠ w.thread → enteredBy t moved = [])
    (hpush : ∀ v limit, w.task = .push v limit →
      Settled w.thread v limit (moved ++ [.returned w.thread a])) :
    Books c (moved ++ [.returned w.thread a]) c' := by
  have hstarters : startersIn (moved ++ [.returned w.thread a]) = [] := by
    rw [startersIn_append, hs]
    rfl
  have hreturners : returnersIn (moved ++ [.returned w.thread a]) = [w.thread] := by
    rw [returnersIn_append, hret]
    rfl
  refine ⟨?_, .inl ⟨hstarters, ht⟩, fun t hne => ?_, fun t v limit hp => ?_,
    fun t v limit hm => ?_⟩
  · rw [hreturners, hstarters, List.append_nil, Scene.underway, Scene.underway, hw', hr]
    refine List.perm_append_comm.trans ?_
    exact ((perm_leave hn hw).append_right _).symm
  · rw [hreturners, List.mem_singleton] at hne
    rw [enteredBy_append, hby t hne]
    rfl
  · by_cases hwt : t = w.thread
    · have he : (⟨t, .push v limit⟩ : Waiting α) = w := List.inj_on_of_nodup_map hn hp hw hwt
      exact .inr (hwt ▸ hpush v limit (he ▸ rfl))
    · refine .inl ⟨limit, remains_refl t _ limit, pushing_leave hw' hwt hp, ?_⟩
      rw [hreturners, List.mem_singleton]
      exact hwt
  · have : t ∈ startersIn (moved ++ [.returned w.thread a]) :=
      List.mem_filterMap.mpr ⟨_, hm, rfl⟩
    rw [hstarters] at this
    cases this

/-- A thread that waits goes on with another task. In the middle of a push nothing can change but
that its limit passes. -/
theorem of_retask {w : Waiting α} {task : Task α}
    (hn : (c.session.waiting.map Waiting.thread).Nodup) (hw : w ∈ c.session.waiting)
    (hw' : c'.session.waiting = (c.session.setTask w.thread task).waiting)
    (ht : c'.session.threads = c.session.threads) (hr : c'.running = c.running)
    (he : Anonymous e) (hpush : ∀ v limit, w.task = .push v limit →
      ∃ limit', task = .push v limit' ∧ Remains w.thread e limit limit') : Books c e c' := by
  have hnone : ∀ t, t ∉ returnersIn e := by
    rw [he.returners]
    exact fun _ => List.not_mem_nil
  refine ⟨?_, .inl ⟨he.starters, ht⟩, fun t _ => he.enteredBy t, fun t v limit hp => .inl ?_,
    fun t v limit hm => absurd hm he.not_started⟩
  · rw [Scene.underway, Scene.underway, hw', hr, Sound.map_thread_setTask, he.starters,
      he.returners]
  · by_cases hwt : t = w.thread
    · have hwe : (⟨t, .push v limit⟩ : Waiting α) = w := List.inj_on_of_nodup_map hn hp hw hwt
      obtain ⟨limit', rfl, hl⟩ := hpush v limit (hwe ▸ rfl)
      refine ⟨limit', hwt ▸ hl, ?_, hnone t⟩
      rw [Pushing, hw', hwt]
      exact List.mem_map.mpr ⟨w, hw, if_pos rfl⟩
    · refine ⟨limit, remains_refl t e limit, ?_, hnone t⟩
      rw [Pushing, hw']
      exact List.mem_map.mpr ⟨_, hp, if_neg hwt⟩

/-- The constructor of a thread that waits begins. -/
theorem of_begin {w : Waiting α} (hn : (c.session.waiting.map Waiting.thread).Nodup)
    (hw : w ∈ c.session.waiting) (hw' : c'.session.waiting = (c.session.leave w.thread).waiting)
    (ht : c'.session.threads = c.session.threads) (hr : c'.running = some w.thread :: c.running)
    (hpush : ∀ v limit, w.task ≠ .push v limit) : Books c [] c' := by
  refine ⟨?_, .inl ⟨rfl, ht⟩, fun _ _ => rfl,
    fun t v limit hp => .inl ⟨limit, remains_refl t [] limit, ?_, List.not_mem_nil⟩,
    fun t v limit hm => absurd hm List.not_mem_nil⟩
  · rw [Scene.underway, Scene.underway, hw', hr, List.reduceOption_cons_of_some]
    exact ((List.perm_middle.trans ((perm_leave hn hw).append_right _).symm).append_right _)
  · refine pushing_leave hw' (fun hwt => ?_) hp
    have he : (⟨t, .push v limit⟩ : Waiting α) = w := List.inj_on_of_nodup_map hn hp hw hwt
    exact hpush v limit (he ▸ rfl)

/-- The constructor of a thread's call ends, and the call returns. -/
theorem of_end {t : Nat} {a : Answer α} (moved : List (Event α)) {rs : List (Option Nat)}
    (hw : t ∉ c.session.waiting.map Waiting.thread) (hr : c.running = some t :: rs)
    (hw' : c'.session.waiting = (c.session.leave t).waiting)
    (ht : c'.session.threads = c.session.threads) (hr' : c'.running = rs)
    (hs : startersIn moved = []) (hret : returnersIn moved = [])
    (hby : ∀ t', t' ≠ t → enteredBy t' moved = []) :
    Books c (moved ++ [.returned t a]) c' := by
  have hstarters : startersIn (moved ++ [.returned t a]) = [] := by
    rw [startersIn_append, hs]
    rfl
  have hreturners : returnersIn (moved ++ [.returned t a]) = [t] := by
    rw [returnersIn_append, hret]
    rfl
  have hstay : (c.session.leave t).waiting = c.session.waiting := by
    refine List.filter_eq_self.mpr fun w hwm => ?_
    exact bne_iff_ne.mpr fun he => hw (he ▸ List.mem_map_of_mem hwm)
  refine ⟨?_, .inl ⟨hstarters, ht⟩, fun t' hne => ?_,
    fun t' v limit hp => .inl ⟨limit, remains_refl t' _ limit, ?_, ?_⟩, fun t' v limit hm => ?_⟩
  · rw [hreturners, hstarters, List.append_nil, Scene.underway, Scene.underway, hw', hstay, hr, hr',
      List.reduceOption_cons_of_some, List.append_assoc]
    exact List.perm_append_comm.append_left _
  · rw [hreturners, List.mem_singleton] at hne
    rw [enteredBy_append, hby t' hne]
    rfl
  · rw [Pushing, hw', hstay]
    exact hp
  · rw [hreturners, List.mem_singleton]
    rintro rfl
    exact hw (List.mem_map_of_mem (f := Waiting.thread) hp)
  · have : t' ∈ startersIn (moved ++ [.returned t a]) := List.mem_filterMap.mpr ⟨_, hm, rfl⟩
    rw [hstarters] at this
    cases this

end Books

end Scene

end PermitRing.Queue.Session
