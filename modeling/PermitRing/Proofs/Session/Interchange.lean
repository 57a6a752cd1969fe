import PermitRing.Proofs.Queue.Interchange
import PermitRing.Proofs.Session.Comparison

/-!
# Settled runs on queues that differ in their discipline

Two sessions are compared that are in the same state, on queues that differ in nothing but their
discipline, and have logged the same lines, apart from the name of the discipline in them. Whatever
is done to one of them can be done to the other, comes to the same there, and leaves the two alike.

Lines and outlines are texts that hold the name of a discipline, and are compared as such: the one
text is the other with one name put in the place of the other name.

## Main definitions

* `Discipline.Renames` — two texts that differ in the name of a discipline;
* `Answer.Renamed`, `Log.Line.Renamed` — the same for answers, and for lines;
* `Comparison.under` — two sessions that differ in the discipline of their queues.

## Main results

* `interchangeable` — any discipline in the place of any other.
-/

namespace PermitRing

variable {d d' : Discipline}

/-! ### Texts that name a discipline -/

/-- The texts are the same, or differ in the name of the discipline. -/
inductive Discipline.Renames (d d' : Discipline) : String → String → Prop
  /-- The discipline is not named. -/
  | same (text : String) : Renames d d' text text
  /-- It is named once. -/
  | named (before after : String) :
    Renames d d' (before ++ d.name ++ after) (before ++ d'.name ++ after)

/-- The name may be followed by several parts of a text. -/
theorem Discipline.Renames.append {text text' : String} (h : d.Renames d' text text')
    (after : String) : d.Renames d' (text ++ after) (text' ++ after) := by
  cases h with
  | same => exact .same _
  | named before rest =>
    have hassoc : ∀ name : String,
        before ++ name ++ rest ++ after = before ++ name ++ (rest ++ after) :=
      fun _ => String.append_assoc
    rw [hassoc, hassoc]
    exact .named before (rest ++ after)

theorem Discipline.renames_behind (d d' : Discipline) (before : String) :
    d.Renames d' (before ++ d.name) (before ++ d'.name) := by
  have h : d.Renames d' (before ++ d.name ++ "") (before ++ d'.name ++ "") := .named before ""
  rwa [String.append_empty, String.append_empty] at h

theorem Discipline.renames_name (d d' : Discipline) : d.Renames d' d.name d'.name := by
  have h := d.renames_behind d' ""
  rwa [String.empty_append, String.empty_append] at h

namespace Log

/-- The messages are the same up to the name of the discipline. -/
structure Message.Renamed (d d' : Discipline) (m m' : Message) : Prop where
  level : m'.level = m.level
  text : d.Renames d' m.text m'.text

/-- The lines are the same up to the name of the discipline. -/
structure Line.Renamed (d d' : Discipline) (l l' : Line) : Prop where
  level : l'.level = l.level
  thread : l'.thread = l.thread
  ends : l'.ends = l.ends
  text : d.Renames d' l.text l'.text

/-- Whether a message passes does not depend on what it says. -/
theorem Message.lines_renamed {ms ms' : List Message}
    (h : List.Forall₂ (Renamed d d') ms ms') (setting : Level) (thread : String) :
    List.Forall₂ (Line.Renamed d d') (lines setting thread ms) (lines setting thread ms') := by
  induction h with
  | nil => exact .nil
  | @cons m m' ms ms' hm _ ih =>
    simp only [lines, List.filter_cons, hm.level] at ih ⊢
    split
    · exact .cons ⟨congrArg some hm.level, rfl, rfl, hm.text⟩ ih
    · exact ih

end Log

namespace Queue

variable {α : Type} {q : Queue α}

theorem closeMessages_renamed (q : Queue α) (d' : Discipline) :
    List.Forall₂ (Log.Message.Renamed q.discipline d') q.closeMessages
      (q.under d').closeMessages := by
  unfold closeMessages
  rw [isOpen_under]
  cases q.isOpen with
  | false =>
    exact .cons ⟨rfl, ((q.discipline.renames_behind d' _).append _).append _⟩ .nil
  | true =>
    rw [show (q.under d').debugLogging = q.debugLogging from rfl]
    cases q.debugLogging with
    | false => exact .nil
    | true =>
      exact .cons ⟨rfl, ((((q.discipline.renames_name d').append _).append _).append _).append _
        |>.append _⟩ .nil

theorem dropMessages_renamed (q : Queue α) (d' : Discipline) :
    List.Forall₂ (Log.Message.Renamed q.discipline d') q.dropMessages
      (q.under d').dropMessages := by
  unfold dropMessages
  rw [drop_under, discipline_under]
  dsimp only
  split
  · exact .nil
  · exact .cons ⟨rfl, (((q.discipline.renames_name d').append _).append _).append _⟩ .nil

theorem creationMessages_renamed (c : Config) (hc : c.validate = .ok ()) (d d' : Discipline) :
    List.Forall₂ (Log.Message.Renamed d d') (creationMessages d { c with discipline := d })
      (creationMessages d' { c with discipline := d' }) := by
  have hv : ∀ d, ({ c with discipline := d } : Config).validate = .ok () := fun _ => hc
  unfold creationMessages
  rw [hv, hv]
  simp only [ne_eq, not_true, if_false]
  cases c.debugLogging with
  | false => exact .nil
  | true =>
    exact .cons ⟨rfl, ((((d.renames_behind d' _).append _).append _).append _).append _⟩ .nil

/-- The answers are the same up to the discipline that they tell. -/
inductive Answer.Renamed (d d' : Discipline) : Answer α → Answer α → Prop
  /-- The discipline is not told. -/
  | same (a : Answer α) : Renamed d d' a a
  /-- It is among the properties. -/
  | info (i : Info) (h : i.discipline = d) :
    Renamed d d' (.info i) (.info { i with discipline := d' })
  /-- It is a field of the outline. -/
  | outline (fields : List (String × Text.Outline)) :
    Renamed d d' (.outline (.record "BoundedQueue" (("discipline", d.outline) :: fields) false))
      (.outline (.record "BoundedQueue" (("discipline", d'.outline) :: fields) false))

namespace Session

/-! ### Side by side -/

/-- Queues that differ in their discipline, side by side: the same messages pass on both sides. -/
def Comparison.under (d d' : Discipline) : Comparison α where
  queues := Recast d d'
  answers := Answer.Renamed d d'
  logs := List.Forall₂ (Log.Line.Renamed d d')
  levels level level' := level' = level
  bisimulation := bisimulation_under d d'
  same := .same
  info := by
    rintro q _ ⟨-, hd, rfl⟩
    exact .info q.info hd
  outline := by
    rintro q _ ⟨-, rfl, rfl⟩
    exact .outline _
  told ha := by
    cases ha with
    | same a => exact .inl rfl
    | info i hi => exact .inr (.inl ⟨_, _, rfl, rfl⟩)
    | outline fields => exact .inr (.inr ⟨_, _, rfl, rfl⟩)
  blank := .nil
  append h hm := List.rel_append h hm
  close := by
    rintro q _ ⟨-, rfl, rfl⟩ _ level rfl name
    exact Log.Message.lines_renamed (closeMessages_renamed q d') level name
  drop := by
    rintro q _ ⟨-, rfl, rfl⟩ _ level rfl name
    exact Log.Message.lines_renamed (dropMessages_renamed q d') level name
  rollback := by
    rintro _ level rfl name
    have hm : Log.Message.Renamed d d' ⟨.trace,
        "element construction failed, slot reservation rolled back"⟩ _ := ⟨rfl, .same _⟩
    exact Log.Message.lines_renamed (.cons hm .nil) level name

/-- A new queue and the same one of another discipline are alike. -/
theorem sides_create {c : Config} {order : Side → Nat → Nat} (hq : create d c order = .ok q)
    (d' : Discipline) (level : Log.Level) :
    (Comparison.under d d').Sides { queue := q, level } { queue := q.under d', level } := by
  have hdisc : q.discipline = d := by
    rw [eq_of_create hq]
  exact ⟨⟨orderly_create hq, hdisc, rfl⟩, rfl, .nil⟩

/-! ### Any discipline -/

/-- **Any discipline does in the place of any other** where no two calls claim an index at once. Of
a configuration that is accepted, queues of both disciplines can be made. The same steps lead to
the same reports on both, up to the discipline that answers and lines tell, those of the steps that
constructors carry out included, and to the same end, with the same elements destroyed in the same
order; and all lines that are written are the same. And whatever turns the threads of one of them
take, those of the other can take them too, with the same history, and have the same state after. -/
theorem interchangeable {c : Config} (hc : c.validate = .ok ()) (order : Side → Nat → Nat)
    (level : Log.Level) (d d' : Discipline) (xs : List (Step α)) :
    ∃ q q' : Queue α, create d { c with discipline := d } order = .ok q ∧
      create d' { c with discipline := d' } order = .ok q' ∧
      List.Forall₂ (Log.Message.Renamed d d') (creationMessages d { c with discipline := d })
        (creationMessages d' { c with discipline := d' }) ∧
      List.Forall₂ (Report.Like (Answer.Renamed d d') (List.Forall₂ (Log.Line.Renamed d d')))
        (run xs { queue := q, level }).1 (run xs { queue := q', level }).1 ∧
      (run xs { queue := q, level }).2.finish.Like (Answer.Renamed d d')
        (List.Forall₂ (Log.Line.Renamed d d')) (run xs { queue := q', level }).2.finish ∧
      List.Forall₂ (Log.Line.Renamed d d') (written xs { queue := q, level })
        (written xs { queue := q', level }) ∧
      ∀ (h : List (Event α)) (scene : Scene α), Scene.Run (.new q level) h scene →
        ∃ scene', Scene.Run (.new q' level) h scene' ∧
          (Comparison.under d d').Views scene scene' := by
  obtain ⟨q, hq⟩ := exists_create (α := α) (c := { c with discipline := d }) hc order
  have hq : create d { c with discipline := d } order = .ok q := hq
  have hsides := sides_create hq d' level
  obtain ⟨hreports, hrun⟩ := hsides.runSteps Comparison.kept_settle mainName xs
  have hviews : (Comparison.under d d').Views (.new q level) (.new (q.under d') level) :=
    ⟨hsides, rfl⟩
  exact ⟨q, q.under d', hq, create_under hq d', creationMessages_renamed c hc d d', hreports,
    hrun.finish, hsides.written xs, fun h scene hr => hviews.run hr⟩

/-- Constructors that carry out steps on the full queue and then raise or fail, and a closing. -/
def mishaps : List (Step Nat) :=
  [.push 1 .never, .emplace .never true [.push 2 .never, .pop .never] (.raised "boom"), .info,
    .emplace .never true [.push 3 .never] (.failed "no"), .outline, .close]

/-- A queue with one index that a thread may claim alone on either side, and one with none: on both
a single element is left after these mishaps, and destroyed. -/
theorem interchangeable_mishaps :
    ({ capacity := 2 } : Config).validate = .ok () ∧
      ∃ q q' : Queue Nat,
        create .spsc { capacity := 2, discipline := .spsc } (fun _ _ => 0) = .ok q ∧
        create .mpmc { capacity := 2, discipline := .mpmc } (fun _ _ => 0) = .ok q' ∧
        List.Forall₂ (Report.Like (Answer.Renamed .spsc .mpmc)
            (List.Forall₂ (Log.Line.Renamed .spsc .mpmc)))
          (run mishaps { queue := q, level := .off }).1
          (run mishaps { queue := q', level := .off }).1 ∧
        (run mishaps { queue := q, level := .off }).2.finish.destroyed = [3] ∧
        (run mishaps { queue := q', level := .off }).2.finish.destroyed = [3] := by
  obtain ⟨q, q', hq, hq', -, hreports, hfinish, -, -⟩ := interchangeable
    (c := { capacity := 2 }) rfl (fun _ _ => 0) .off .spsc .mpmc mishaps
  have hthree : (run mishaps { queue := q, level := .off }).2.finish.destroyed = [3] := by
    rw [eq_of_create hq]
    decide +kernel
  exact ⟨rfl, q, q', hq, hq', hreports, hthree, hfinish.destroyed.trans hthree⟩

end Session

end Queue

end PermitRing
