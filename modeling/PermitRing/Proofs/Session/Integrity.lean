import PermitRing.Proofs.Queue.Accesses
import PermitRing.Proofs.Session.Settling

/-!
# Every access to the ring is in order

The accesses of a turn are listed here as the functions make them, with the queue as it is
immediately before and with what was taken earlier in the same turn. From the invariant of settled
runs it follows that every one of them is in order. The list leaves nothing out: an element goes in
or comes out by an access of the list, and no call ends with a fault but that of its constructor.

## Main definitions

* `Scene.Reaches` — what a turn is about to do to the queue, and when;
* `Scene.Traces` — what a turn does to the ring, by these accesses.

## Main results

* `Scene.Reaches.safe` — every access of a turn is in order;
* `Scene.Turn.traces` — elements go in and out by these accesses alone;
* `Scene.Run.preserves` — from what every turn keeps to what a run keeps;
* `Session.ring_intact` — for every run of a new queue.
-/

namespace PermitRing.Queue.Session

variable {α : Type} {q q' : Queue α} {f : Fifo α} {v : α}

/-! ### The accesses of a turn -/

/-- In a turn from the scene, after `vs` were taken in it, the access is next, and the queue is `q`.
-/
inductive Scene.Reaches : Scene α → List α → Access α → Queue α → Prop
  /-- A call or a thread that has come by a permit comes inside. -/
  | enter {s : Session α} {q : Queue α} (rs : List (Option Nat)) (h : s.queue.Permitted q) :
    Reaches ⟨s, rs⟩ [] .enter q
  /-- It is inside, but the queue was closed meanwhile. -/
  | leave {s : Session α} {q : Queue α} (rs : List (Option Nat)) (h : s.queue.Permitted q)
    (ho : q.isOpen = false) : Reaches ⟨s, rs⟩ [] .abandon { q with pending := Word.succ q.pending }
  /-- The innermost constructor has built no element. -/
  | unbuilt (s : Session α) (t : Option Nat) (rs : List (Option Nat)) :
    Reaches ⟨s, t :: rs⟩ [] .abandon s.queue
  /-- The innermost constructor has built an element. -/
  | built (s : Session α) (t : Option Nat) (rs : List (Option Nat)) (v : α) :
    Reaches ⟨s, t :: rs⟩ [] (.publish v) s.queue
  /-- A push is let in. -/
  | push {s : Session α} {wait : Wait} {q : Queue α} (rs : List (Option Nat)) (v : α)
    (h : s.queue.admitProducer s.nextThread wait = (some (.ok ()), q)) :
    Reaches ⟨s, rs⟩ [] (.publish v) q
  /-- A push that slept is let in. -/
  | resumePush {s : Session α} {t : Nat} {v : α} {limit : Patience} {q : Queue α}
    (rs : List (Option Nat)) (hw : ⟨t, .push v limit⟩ ∈ s.waiting)
    (h : s.queue.readmitProducer t limit = (some (.ok ()), q)) :
    Reaches ⟨s, rs⟩ [] (.publish v) q
  /-- A pop is let in. -/
  | pop {s : Session α} {wait : Wait} {q : Queue α} (rs : List (Option Nat))
    (h : s.queue.admitConsumer s.nextThread wait = (some (.ok ()), q)) : Reaches ⟨s, rs⟩ [] .take q
  /-- The next of several pops in a row is let in. -/
  | popMany {s : Session α} {q : Queue α} (rs : List (Option Nat)) (k : Nat)
    (h : (s.queue.popMany k).2.admitConsumer 0 .never = (some (.ok ()), q)) :
    Reaches ⟨s, rs⟩ (s.queue.popMany k).1 .take q
  /-- A pop that slept is let in, be it one of a sequence. -/
  | resumePop {s : Session α} {w : Waiting α} {limit : Patience} {q : Queue α}
    (rs : List (Option Nat)) (hw : w ∈ s.waiting) (hx : w.task.side? = some .consume)
    (h : s.queue.readmitConsumer w.thread limit = (some (.ok ()), q)) : Reaches ⟨s, rs⟩ [] .take q

variable {c c' : Scene α} {e h : List (Event α)} {vs : List α} {a : Access α}

/-- **Every access of a turn is in order.** -/
theorem Scene.Reaches.safe (hr : c.Reaches vs a q) (hc : c.Sound f)
    (hlt : c.session.threads < Word.size) :
    ∃ items, f.items = vs ++ items ∧ q.capacity = f.capacity ∧ q.Coherent items ∧
      a.Safe q items := by
  have hproduce := (hc.session.parked_le .produce).trans_lt hlt
  have hconsume := (hc.session.parked_le .consume).trans_lt hlt
  have hrep := hc.session.represents
  cases hr with
  | @enter s q rs h =>
    obtain ⟨rfl, hpos⟩ := h.eq hproduce
    exact ⟨_, rfl, hrep.capacity, hrep.coherent.congr (alike_setProduce _ _),
      hrep.safe_enter (hrep.produce_pos_iff.mp hpos)⟩
  | @leave s q rs h ho =>
    obtain ⟨rfl, hpos⟩ := h.eq hproduce
    have hfree := hrep.produce_pos_iff.mp hpos
    have hres := hrep.reserved hfree
    have hcount : Word.succ (s.queue.setProduce s.queue.gate.produce.taken).pending =
        s.queue.pending + 1 := Word.succ_eq (hrep.pending_lt hfree)
    rw [hcount]
    exact ⟨_, rfl, hres.capacity, hres.coherent, hres.safe_abandon (Nat.succ_pos _)⟩
  | unbuilt s t rs =>
    refine ⟨_, rfl, hrep.capacity, hrep.coherent, hrep.safe_abandon ?_⟩
    rw [hc.running]
    exact Nat.succ_pos _
  | built s t rs v =>
    refine ⟨_, rfl, hrep.capacity, hrep.coherent, hrep.safe_publish ?_ v⟩
    rw [hc.running]
    exact Nat.succ_pos _
  | push rs v h =>
    obtain ⟨rfl, hfree⟩ := hrep.eq_of_admitProducer hproduce h
    have hres := hrep.reserved hfree
    exact ⟨_, rfl, hres.capacity, hres.coherent, hres.safe_publish (Nat.succ_pos _) v⟩
  | resumePush rs hw h =>
    obtain ⟨rfl, hfree⟩ := hrep.eq_of_readmitProducer hproduce h
    have hres := hrep.reserved hfree
    exact ⟨_, rfl, hres.capacity, hres.coherent, hres.safe_publish (Nat.succ_pos _) _⟩
  | pop rs h =>
    obtain ⟨rfl, hi⟩ := hrep.eq_of_admitConsumer hconsume h
    exact ⟨_, rfl, hrep.capacity, hrep.coherent.congr (alike_setConsume _ _), hrep.safe_take hi⟩
  | popMany rs k h =>
    obtain ⟨q', hmany, hpass⟩ := hrep.popMany_passes k hc.session.queue hconsume
    rw [hmany] at h ⊢
    have hk : (q'.gate.side .consume).parker.parked < Word.size :=
      hpass.parked_lt (y := .consume) hc.session.queue hconsume
    obtain ⟨rfl, hi⟩ := hpass.represents.eq_of_admitConsumer hk h
    exact ⟨_, (List.take_append_drop k _).symm, hpass.represents.capacity,
      hpass.represents.coherent.congr (alike_setConsume _ _), hpass.represents.safe_take hi⟩
  | resumePop rs hw hx h =>
    obtain ⟨rfl, hi⟩ := hrep.eq_of_readmitConsumer hconsume h
    exact ⟨_, rfl, hrep.capacity, hrep.coherent.congr (alike_setConsume _ _), hrep.safe_take hi⟩

/-! ### Elements move by these accesses alone -/

/-- No call returned with a fault, unless it was its constructor's. -/
def Unfaulted (e : List (Event α)) : Prop :=
  ∀ t f, .returned t (.faulted f) ∈ e → ∃ text, f = .raised text

theorem unfaulted_of_returners (h : returnersIn e = []) : Unfaulted e := by
  intro t f hm
  have ht := mem_returnersIn hm
  rw [h] at ht
  cases ht

/-- In a turn elements went in and came out by its accesses, and nothing else moved the tail. -/
structure Scene.Traces (c : Scene α) (e : List (Event α)) (c' : Scene α) : Prop where
  entered : (enteredIn e = [] ∧ c'.session.queue.tail = c.session.queue.tail) ∨
    ∃ v q, enteredIn e = [v] ∧ c.Reaches [] (.publish v) q ∧ Alike c.session.queue q ∧
      q.publish v = (.ok (), c'.session.queue)
  taken : ∀ vs v ws, takenIn e = vs ++ v :: ws →
    ∃ q q', c.Reaches vs .take q ∧ q.take = (.ok v, q')
  unfaulted : Unfaulted e
  keeps : Keeps c.session.queue c'.session.queue

namespace Scene

namespace Traces

theorem append_cons_ne_nil {vs ws : List α} {w : α} : [] ≠ vs ++ w :: ws :=
  (List.append_ne_nil_of_right_ne_nil vs (List.cons_ne_nil w ws)).symm

/-- Nothing went in or came out. -/
theorem of_still (hi : enteredIn e = []) (ho : takenIn e = [])
    (hl : Leaves c.session.queue c'.session.queue) (hu : Unfaulted e) : Traces c e c' := by
  refine ⟨.inl ⟨hi, hl.tail⟩, fun vs v ws he => ?_, hu, hl.toKeeps⟩
  exact absurd (ho.symm.trans he) append_cons_ne_nil

/-- An element went in. -/
theorem of_publish (hr : c.Reaches [] (.publish v) q) (ha : Alike c.session.queue q)
    (hp : q.publish v = (.ok (), c'.session.queue)) (hi : enteredIn e = [v]) (ho : takenIn e = [])
    (hu : Unfaulted e) : Traces c e c' := by
  have hkeeps := q.keeps_publish v
  rw [hp] at hkeeps
  refine ⟨.inr ⟨v, q, hi, hr, ha, hp⟩, fun vs w ws he => ?_, hu, ha.leaves.toKeeps.trans hkeeps⟩
  exact absurd (ho.symm.trans he) append_cons_ne_nil

/-- An element came out. -/
theorem of_take (hr : c.Reaches [] .take q) (hq : q.take = (.ok v, q'))
    (hi : enteredIn e = []) (ho : takenIn e = [v])
    (hl : Leaves c.session.queue c'.session.queue) (hu : Unfaulted e) : Traces c e c' := by
  refine ⟨.inl ⟨hi, hl.tail⟩, fun vs w ws he => ?_, hu, hl.toKeeps⟩
  rw [ho] at he
  obtain ⟨rfl, hcons⟩ | ⟨vs', rfl, hnil⟩ := List.cons_eq_append_iff.mp he
  · obtain ⟨rfl, -⟩ := List.cons.inj hcons
    exact ⟨q, q', hr, hq⟩
  · exact absurd hnil append_cons_ne_nil

end Traces

section Calls

variable {s : Session α} {rs : List (Option Nat)}

theorem Sound.publishes (hc : c.Sound f) (hlt : c.session.threads < Word.size)
    (hr : c.Reaches [] (.publish v) q) : ∃ q', q.publish v = (.ok (), q') := by
  obtain ⟨items, -, -, -, -, hpub, -⟩ := hr.safe hc hlt
  exact hpub

theorem Sound.takes (hc : c.Sound f) (hlt : c.session.threads < Word.size)
    (hr : c.Reaches vs .take q) : ∃ v q', q.take = (.ok v, q') := by
  obtain ⟨items, -, -, -, v, -, q', -, -, htake, -⟩ := hr.safe hc hlt
  exact ⟨v, q', htake⟩

theorem traces_push (name : String) (v : α) (wait : Wait) (hc : (Scene.mk s rs).Sound f)
    (hlt : s.threads < Word.size) :
    Traces ⟨s, rs⟩ (Step.events (.push v wait) (s.act name (.push v wait)).1)
      ⟨(s.act name (.push v wait)).2, rs⟩ ∧ ∀ f, (s.act name (.push v wait)).1 ≠ .faulted f := by
  have hpub : ∀ q, s.queue.admitProducer s.nextThread wait = (some (.ok ()), q) →
      ∃ q', q.publish v = (.ok (), q') := fun q he => hc.publishes hlt (.push rs v he)
  have hleaves := (s.queue.alike_admitProducer s.nextThread wait).leaves
  rw [Session.act, Queue.push]
  rcases pushAfter_cases hpub with he | ⟨r, he⟩ | ⟨q, q', hadm, hq, he⟩ <;> rw [he]
  · exact ⟨.of_still rfl rfl hleaves (unfaulted_of_returners rfl), by simp⟩
  · exact ⟨.of_still rfl rfl hleaves (unfaulted_of_returners rfl), by simp [Answer.ofPushed]⟩
  · exact ⟨.of_publish (.push rs v hadm) (alike_of_admitProducer hadm) hq rfl rfl
      (unfaulted_of_returners rfl), by simp [Answer.ofPushed]⟩

theorem traces_pop (name : String) (wait : Wait) (hc : (Scene.mk s rs).Sound f)
    (hlt : s.threads < Word.size) :
    Traces ⟨s, rs⟩ (Step.events (.pop wait) (s.act name (.pop wait)).1)
      ⟨(s.act name (.pop wait)).2, rs⟩ ∧ ∀ f, (s.act name (.pop wait)).1 ≠ .faulted f := by
  have htake : ∀ q, s.queue.admitConsumer s.nextThread wait = (some (.ok ()), q) →
      ∃ v q', q.take = (.ok v, q') := fun q he => hc.takes hlt (.pop rs he)
  have hleaves := s.queue.leaves_pop s.nextThread wait
  rw [Queue.pop] at hleaves
  rw [Session.act, Queue.pop]
  rcases popAfter_cases htake with he | ⟨r, he⟩ | ⟨q, v, q', hadm, hq, he⟩ <;> rw [he] at hleaves ⊢
  · exact ⟨.of_still rfl rfl hleaves (unfaulted_of_returners rfl), by simp⟩
  · exact ⟨.of_still rfl rfl hleaves (unfaulted_of_returners rfl), by simp [Answer.ofPopped]⟩
  · exact ⟨.of_take (.pop rs hadm) hq rfl rfl hleaves (unfaulted_of_returners rfl),
      by simp [Answer.ofPopped]⟩

/-- Several pops in a row take their elements one after the other. -/
theorem traces_popMany (n : Nat) (hc : (Scene.mk s rs).Sound f) (hlt : s.threads < Word.size) :
    Traces ⟨s, rs⟩ ((s.queue.popMany n).1.map .taken) ⟨s.setQueue (s.queue.popMany n).2, rs⟩ := by
  have hrep := hc.session.represents
  have hparked := (hc.session.parked_le .consume).trans_lt hlt
  refine ⟨.inl ⟨enteredIn_map_taken _, (s.queue.leaves_popMany n).tail⟩, fun vs v ws he => ?_, ?_,
    (s.queue.leaves_popMany n).toKeeps⟩
  · rw [takenIn_map] at he
    obtain ⟨q, hmany, -⟩ := hrep.popMany_passes n hc.session.queue hparked
    obtain ⟨q', hfirst, hpass⟩ := hrep.popMany_passes vs.length hc.session.queue hparked
    rw [hmany] at he
    -- the elements before it are those of a shorter row of pops, after which it is the next
    have hitems : f.items = vs ++ v :: (ws ++ f.items.drop n) := by
      rw [← List.cons_append, ← List.append_assoc, ← he, List.take_append_drop]
    have hvs : f.items.take vs.length = vs := by rw [hitems, List.take_left]
    have hdrop : f.items.drop vs.length = v :: (ws ++ f.items.drop n) := by
      have hlater := congrArg (List.drop vs.length) hitems
      rwa [List.drop_left] at hlater
    have hk : (q'.gate.side .consume).parker.parked < Word.size :=
      hpass.parked_lt (y := .consume) hc.session.queue hparked
    have hne : f.items.drop vs.length ≠ [] := by
      rw [hdrop]
      exact List.cons_ne_nil _ _
    have hadm := hpass.represents.admitConsumer hk 0 .never
    rw [if_pos hne] at hadm
    have hreach := Reaches.popMany (s := s) rs vs.length (by rw [hfirst]; exact hadm)
    obtain ⟨storage, head, htake, -⟩ := hpass.represents.take hdrop
    rw [hfirst, hvs] at hreach
    exact ⟨_, _, hreach, htake⟩
  · exact unfaulted_of_returners (anonymous_taken _).returners

/-- **A step without a constructor.** -/
theorem traces_call (name : String) (x : Step α) (hc : (Scene.mk s rs).Sound f)
    (hlt : s.threads < Word.size)
    (hx : ∀ wait fallible inner build, x ≠ .emplace wait fallible inner build) :
    Traces ⟨s, rs⟩ (x.events (s.act name x).1) ⟨(s.act name x).2, rs⟩ ∧
      ∀ f, (s.act name x).1 ≠ .faulted f := by
  cases x with
  | push v wait => exact traces_push name v wait hc hlt
  | pop wait => exact traces_pop name wait hc hlt
  | tryIter most =>
    cases most with
    | none => exact ⟨traces_popMany _ hc hlt, by simp [act]⟩
    | some n => exact ⟨traces_popMany _ hc hlt, by simp [act]⟩
  | emplace wait fallible inner build => exact absurd rfl (hx wait fallible inner build)
  | close =>
    have hleaves := (s.say name s.queue.closeMessages).queue.leaves_close
    rw [Session.act]
    split <;> rename_i he <;> rw [he] at hleaves <;>
      exact ⟨.of_still rfl rfl hleaves (unfaulted_of_returners rfl), by simp⟩
  | elapse t =>
    rw [Session.act]
    cases he : s.elapse? t with
    | none =>
      exact ⟨.of_still rfl rfl (Alike.refl _).leaves (unfaulted_of_returners rfl), by simp⟩
    | some s' =>
      obtain ⟨w, -, -, task, -, rfl⟩ := exists_of_elapse? hc.session.nodup he
      exact ⟨.of_still rfl rfl (s.queue.alike_expire w.thread).leaves (unfaulted_of_returners rfl),
        by simp⟩
  | iter | info | outline =>
    exact ⟨.of_still rfl rfl (Alike.refl _).leaves (unfaulted_of_returners rfl), by simp [act]⟩

/-- **The end of a constructor.** -/
theorem traces_ended (name : String) (build : Build α) (t : Option Nat)
    (hc : (Scene.mk s (t :: rs)).Sound f) (hlt : s.threads < Word.size) :
    Traces ⟨s, t :: rs⟩ (builtEvents t build (s.construct name build).1)
      ⟨(s.construct name build).2.finishFor t (s.construct name build).1, rs⟩ ∧
      ∀ f, (s.construct name build).1 = .faulted f →
        ∃ text, build = .raised text ∧ f = .raised text := by
  have hqueue : ∀ a (s' : Session α), (s'.finishFor t a).queue = s'.queue := by
    intro a s'
    cases t <;> rfl
  cases build with
  | built v =>
    obtain ⟨q, hpub⟩ := hc.publishes hlt (.built s t rs v)
    rw [construct]
    simp only [hpub]
    refine ⟨.of_publish (.built s t rs v) (Alike.refl _) ((hqueue _ _).symm ▸ hpub) ?_ ?_ ?_,
      by simp⟩
    · cases t <;> rfl
    · cases t <;> rfl
    · cases t <;> simp [Unfaulted, builtEvents]
  | failed error =>
    refine ⟨.of_still ?_ ?_ ((hqueue _ _).symm ▸ (alike_abandonProducer _).leaves) ?_,
      by simp [construct]⟩
    · cases t <;> rfl
    · cases t <;> rfl
    · cases t <;> simp [Unfaulted, builtEvents, construct]
  | raised text =>
    refine ⟨.of_still ?_ ?_ ((hqueue _ _).symm ▸ (alike_abandonProducer _).leaves) ?_, ?_⟩
    · cases t <;> rfl
    · cases t <;> rfl
    · cases t <;> simp [Unfaulted, builtEvents, construct]
    · rintro f hf
      exact ⟨text, rfl, (Answer.faulted.inj hf).symm⟩

end Calls

section Threads

variable {s : Session α} {rs : List (Option Nat)} {t : Nat}

theorem traces_resumePush {limit : Patience} (hc : (Scene.mk s rs).Sound f)
    (hlt : s.threads < Word.size) (hw : ⟨t, .push v limit⟩ ∈ s.waiting) :
    Traces ⟨s, rs⟩ (Waiting.events ⟨t, .push v limit⟩ s.queue)
      ⟨(s.resume idle ⟨t, .push v limit⟩).2, rs⟩ := by
  have hpub : ∀ q, s.queue.readmitProducer t limit = (some (.ok ()), q) →
      ∃ q', q.publish v = (.ok (), q') := fun q he => hc.publishes hlt (.resumePush rs hw he)
  have hleaves := (s.queue.alike_readmitProducer t limit).leaves
  simp only [Waiting.events, resume, Queue.resumePush]
  rcases pushAfter_cases hpub with he | ⟨r, he⟩ | ⟨q, q', hadm, hq, he⟩ <;> simp only [he]
  · exact .of_still rfl rfl hleaves (unfaulted_of_returners rfl)
  · exact .of_still rfl rfl hleaves (by simp [Unfaulted, Answer.ofPushed])
  · exact .of_publish (.resumePush rs hw hadm) (alike_of_readmitProducer hadm) hq rfl rfl
      (by simp [Unfaulted])

theorem traces_resumePop {limit : Patience} (hc : (Scene.mk s rs).Sound f)
    (hlt : s.threads < Word.size) (hw : ⟨t, .pop limit⟩ ∈ s.waiting) :
    Traces ⟨s, rs⟩ (Waiting.events ⟨t, .pop limit⟩ s.queue)
      ⟨(s.resume idle ⟨t, .pop limit⟩).2, rs⟩ := by
  have hreach : ∀ q, s.queue.readmitConsumer t limit = (some (.ok ()), q) →
      (Scene.mk s rs).Reaches [] .take q := fun q he => .resumePop rs hw rfl he
  have hleaves := s.queue.leaves_resumePop t limit
  simp only [Waiting.events, resume]
  rw [Queue.resumePop] at hleaves ⊢
  rcases popAfter_cases fun q he => hc.takes hlt (hreach q he) with
    he | ⟨r, he⟩ | ⟨q, v, q', hadm, hq, he⟩ <;> rw [he] at hleaves ⊢
  · exact .of_still rfl rfl hleaves (unfaulted_of_returners rfl)
  · exact .of_still rfl rfl hleaves (by simp [Unfaulted, Answer.ofPopped, poppedEvents])
  · exact .of_take (hreach q hadm) hq rfl rfl hleaves
      (by simp [Unfaulted, Answer.ofPopped, poppedEvents])

theorem traces_resumeIter {left : Option Nat} {got : List α} (hc : (Scene.mk s rs).Sound f)
    (hlt : s.threads < Word.size) (hw : ⟨t, .iter left got⟩ ∈ s.waiting) :
    Traces ⟨s, rs⟩ (Waiting.events ⟨t, .iter left got⟩ s.queue)
      ⟨(s.resume idle ⟨t, .iter left got⟩).2, rs⟩ := by
  by_cases hl : left = some 0
  · subst hl
    exact .of_still rfl rfl (Alike.refl _).leaves (by simp [Unfaulted, Waiting.events])
  · have hreach : ∀ q, s.queue.readmitConsumer t .endless = (some (.ok ()), q) →
        (Scene.mk s rs).Reaches [] .take q := fun q he => .resumePop rs hw (if_neg hl) he
    have hleaves := s.queue.leaves_resumePop t .endless
    rw [resume_iter_eq idle s hl]
    simp only [Waiting.events, if_neg hl]
    rw [Queue.resumePop] at hleaves ⊢
    rcases popAfter_cases fun q he => hc.takes hlt (hreach q he) with
      he | ⟨r, he⟩ | ⟨q, v, q', hadm, hq, he⟩ <;> rw [he] at hleaves ⊢
    · exact .of_still rfl rfl hleaves (unfaulted_of_returners rfl)
    · exact .of_still rfl rfl hleaves (by simp [Unfaulted])
    · rcases goOn_cases (s.setQueue q') t hl (got ++ [v]) with ⟨h1, hgo⟩ | ⟨h1, left', -, hgo⟩
      · dsimp only
        rw [hgo, if_pos h1]
        exact .of_take (hreach q hadm) hq rfl rfl hleaves (by simp [Unfaulted])
      · dsimp only
        rw [hgo, if_neg h1]
        exact .of_take (hreach q hadm) hq rfl rfl hleaves (unfaulted_of_returners rfl)

/-- A construction that a thread makes is turned down, or has to wait longer. -/
theorem traces_resumeEmplace {limit : Patience} {fallible : Bool} {inner : List (Step α)}
    {build : Build α}
    (hb : ∀ q, ¬(Waiting.mk t (.emplace limit fallible inner build)).Begins s.queue q) :
    Traces ⟨s, rs⟩ (Waiting.events ⟨t, .emplace limit fallible inner build⟩ s.queue)
      ⟨(s.resume idle ⟨t, .emplace limit fallible inner build⟩).2, rs⟩ := by
  have hleaves := (s.queue.alike_readmitProducer t limit).leaves
  simp only [Waiting.events, resume]
  rcases he : s.queue.readmitProducer t limit with ⟨_ | r | u, q⟩ <;> rw [he] at hleaves
  · exact .of_still rfl rfl hleaves (unfaulted_of_returners rfl)
  · refine .of_still rfl rfl hleaves ?_
    cases fallible <;> simp [Unfaulted, Answer.ofRefusal]
  · exact absurd ⟨_, _, _, _, rfl, he⟩ (hb q)

end Threads

/-- **Elements go in and out by the accesses of the turns alone.** -/
theorem Turn.traces (ht : Turn c e c') (hc : c.Sound f) (hlt : c.session.threads < Word.size) :
    Traces c e c' := by
  cases ht with
  | call name x s rs hx => exact (traces_call name x hc hlt hx).1
  | refused rs he | parked fallible inner build rs he | began rs he =>
    exact .of_still rfl rfl (alike_of_admitProducer he).leaves (unfaulted_of_returners rfl)
  | ended name build s t rs => exact (traces_ended name build t hc hlt).1
  | @resumed s w rs hw ha hb =>
    obtain ⟨t, task⟩ := w
    cases task with
    | push v limit => exact traces_resumePush hc hlt hw
    | pop limit => exact traces_resumePop hc hlt hw
    | iter left got => exact traces_resumeIter hc hlt hw
    | emplace limit fallible inner build => exact traces_resumeEmplace hb
  | resumedInto rs hw ha hb =>
    obtain ⟨limit, fallible, inner, build, -, he⟩ := hb
    exact .of_still rfl rfl (alike_of_readmitProducer he).leaves (unfaulted_of_returners rfl)
  | reported s rs =>
    exact .of_still rfl rfl (Alike.refl _).leaves (unfaulted_of_returners rfl)

/-! ### Runs -/

/-- **What every turn keeps, a run keeps**, where each turn begins in a scene that is in order. -/
theorem Run.preserves {P : List (Event α) → Scene α → Prop} (hr : Run c h c') (hc : c.Sound f)
    (hlt : c'.session.threads < Word.size) (nil : P [] c)
    (snoc : ∀ h c' e c'' f', P h c' → c'.Sound f' → c''.session.threads < Word.size →
      Turn c' e c'' → P (h ++ e) c'') : P h c' := by
  induction hr with
  | nil => exact nil
  | @snoc c' c'' h e hr ht ih =>
    have hlt' := ht.threads_le.trans_lt hlt
    obtain ⟨f', hc', -⟩ := hr.sound hc hlt'
    exact snoc h c' e c'' f' (ih hlt') hc' hlt ht

theorem Run.unfaulted (hr : Run c h c') (hc : c.Sound f) (hlt : c'.session.threads < Word.size) :
    Unfaulted h := by
  refine hr.preserves (P := fun h _ => Unfaulted h) hc hlt (unfaulted_of_returners rfl) ?_
  intro h c' e c'' f' ih hc' hlt' ht t g hm
  rcases List.mem_append.mp hm with hm | hm
  · exact ih t g hm
  · exact (ht.traces hc' (ht.threads_le.trans_lt hlt')).unfaulted t g hm

theorem Run.capacity_eq (hr : Run c h c') (hc : c.Sound f)
    (hlt : c'.session.threads < Word.size) :
    c'.session.queue.capacity = c.session.queue.capacity := by
  refine hr.preserves (P := fun _ c' => c'.session.queue.capacity = c.session.queue.capacity) hc hlt
    rfl ?_
  intro h c' e c'' f' ih hc' hlt' ht
  exact (ht.traces hc' (ht.threads_le.trans_lt hlt')).keeps.capacity.trans ih

/-- After the history `h` a ring of the given capacity is as it should be. -/
structure Intact (capacity : Nat) (h : List (Event α)) (c : Scene α) : Prop where
  /-- Whatever the next turn is about to do is in order. -/
  accesses : ∀ vs a q, c.Reaches vs a q →
    ∃ items, enteredIn h = takenIn h ++ vs ++ items ∧ q.capacity = capacity ∧ q.Coherent items ∧
      a.Safe q items
  /-- The next turn moves elements by these accesses alone. -/
  turns : ∀ e c', Turn c e c' → Traces c e c'
  /-- The counters say how many producers are inside, how many elements are left and how much room
  there is. -/
  pending : c.session.queue.pending = c.running.length
  size : (takenIn h).length + c.session.queue.size = (enteredIn h).length
  free : c.session.queue.size + c.session.queue.free + c.session.queue.pending = capacity
  /-- No call of the caller or of a constructor is faulted. -/
  calls : ∀ name x g, (c.session.act name x).1 ≠ .faulted g
  /-- The end of a constructor is faulted only by the constructor itself. -/
  constructors : ∀ name build g, c.running ≠ [] → (c.session.construct name build).1 = .faulted g →
    ∃ text, build = .raised text ∧ g = .raised text
  /-- No call of a thread was faulted but by its constructor. -/
  returned : Unfaulted h

/-- **Runs of a new queue.** -/
theorem Run.intact {d : Discipline} {k : Config} {order : Side → Nat → Nat} {level : Log.Level}
    (hq : create d k order = .ok q) (hr : Run (new q level) h c)
    (hlt : c.session.threads < Word.size) : c.Intact k.capacity h := by
  have hnew := sound_new hq level
  obtain ⟨f, hc, hacc⟩ := hr.accounted hq hlt
  have hrep := hc.session.represents
  have hcap : f.capacity = k.capacity :=
    hrep.capacity.symm.trans ((hr.capacity_eq hnew hlt).trans hnew.session.represents.capacity)
  have hsize := congrArg List.length hacc.fifo
  rw [List.length_append] at hsize
  refine ⟨fun vs a q hreach => ?_, fun e c' ht => ht.traces hc hlt, hrep.pending.trans hc.running,
    ?_, ?_, fun name x g => ?_, fun name build g hrs => ?_, hr.unfaulted hnew hlt⟩
  · obtain ⟨items, hi, hqcap, hcoherent, hsafe⟩ := hreach.safe hc hlt
    refine ⟨items, ?_, hqcap.trans hcap, hcoherent, hsafe⟩
    rw [hacc.fifo, hi, List.append_assoc]
  · rw [hrep.size_eq, hsize]
  · have hroom := hrep.room
    have hfree : c.session.queue.free = f.free := hrep.produce
    rw [hrep.size_eq, hfree, hrep.pending, ← hcap, Fifo.free]
    omega
  · by_cases hx : ∀ wait fallible inner build, x ≠ .emplace wait fallible inner build
    · exact (traces_call name x hc hlt hx).2 g
    · push Not at hx
      obtain ⟨wait, fallible, inner, build, rfl⟩ := hx
      simp [act]
  · obtain ⟨s, rs⟩ := c
    obtain ⟨t, rs, rfl⟩ := List.exists_cons_of_ne_nil hrs
    exact (traces_ended name build t hc hlt).2 g

end Scene

/-- **The ring stays intact.** Take a new queue of any configuration that passes validation, with
any choice of the thread that each single wake reaches, and any run of turns on it: calls of the
caller and of constructors, beginnings and ends of constructors, turns of threads that are awake,
and time limits of threads that pass. Let some access to the queue be what the next turn is about to
do. Then, with `items` for the elements that were published and not taken,

* both positions are slots, and the tail is the head and the number of elements, round the ring;
* the slots that are full are those of the elements, from the head on, and all others are vacant;
* the slot about to be written is vacant, and the slot about to be emptied is full, so that the
  access goes through: it does not wait at the slot, and it meets none of the queue's faults;
* the permit that it goes by was there to be taken, and each counter that it changes stays within
  its word.

Elements go in and out by these accesses alone, and no call ends with a fault but its constructor's.
The runs of steps after each of which threads are let run are among these runs. -/
theorem ring_intact {c : Config} (hc : c.validate = .ok ()) (order : Side → Nat → Nat) :
    ∃ q : Queue α, create c.discipline c order = .ok q ∧ ∀ level : Log.Level,
      (∀ (h : List (Event α)) (scene : Scene α), Scene.Run (.new q level) h scene →
        scene.session.threads < Word.size → scene.Intact c.capacity h) ∧
      ∀ xs : List (Step α), callsIn xs < Word.size →
        (run xs { queue := q, level }).2.threads < Word.size ∧
          ∃ h, Scene.Run (.new q level) h ⟨(run xs { queue := q, level }).2, []⟩ := by
  obtain ⟨q, hq⟩ := exists_create hc order
  refine ⟨q, hq, fun level => ⟨fun h scene hr hlt => hr.intact hq hlt, fun xs hxs => ?_⟩⟩
  have hlt := (threads_run_le xs q level).trans_lt hxs
  have hnew := Scene.sound_new hq level
  exact ⟨hlt, (runSteps_conclude (calms_settle _) mainName xs hnew (Nat.le_refl _) hlt).run⟩

/-- In a ring of a single slot the tail comes round with the first push, and the pop that follows
is about to claim the one slot, which is full. -/
theorem ring_intact_single :
    ({ capacity := 1, discipline := .spsc } : Config).validate = .ok () ∧
      ∃ q : Queue Nat,
        create .spsc { capacity := 1, discipline := .spsc } (fun _ _ => 0) = .ok q ∧
        ∃ (h : List (Event Nat)) (scene : Scene Nat) (q' : Queue Nat),
          Scene.Run (.new q .off) h scene ∧ scene.session.threads < Word.size ∧ enteredIn h = [7] ∧
            scene.Reaches [] .take q' ∧ q'.tail.position = 0 ∧ q'.storage.isFull 0 = .ok true ∧
            scene.Intact 1 h := by
  obtain ⟨q, hq, h⟩ := ring_intact (α := Nat)
    (c := { capacity := 1, discipline := .spsc }) rfl fun _ _ => 0
  obtain ⟨hscenes, -⟩ := h .off
  have hturn : Scene.Turn (.new q .off) _ _ :=
    .call mainName (.push 7 .never) { queue := q, level := .off } [] (by simp)
  have hlt : (act mainName (.push 7 .never) { queue := q, level := .off }).2.threads <
      Word.size := by
    obtain rfl := eq_of_create hq
    decide
  have hintact := hscenes _ _ hturn.run hlt
  obtain rfl := eq_of_create hq
  exact ⟨rfl, _, hq, _, _, _, hturn.run, hlt, rfl, @Scene.Reaches.pop _ _ .never _ [] rfl, rfl, rfl,
    hintact⟩

end PermitRing.Queue.Session
