import PermitRing.Queue.Answer

/-!
# Queues that cannot be told apart

Two queues cannot be told apart if the same operation has the same answer on both, and leaves two
queues that again cannot be told apart. That need be checked only of the parts of operations between
which a thread sleeps or a constructor runs, since whole calls are made of these.

Not everything that is asked of a queue counts: its discipline, its limit for spinning and what it
logs may differ between such queues. A change of these is one behind the gate: letting in, turning
away and closing go by the gate, by whether the queue is open and by how many producers are inside,
so of these parts of operations nothing has to be checked for such a change.

## Main definitions

* `Queue.Respects` — an operation that does not tell apart the queues between which a relation holds;
* `Queue.Bisimulation` — a relation that the parts of all operations respect;
* `Queue.BehindGate`, `Commutes` — a change behind the gate, and operations to which a change makes
  no difference.

## Main results

* `BehindGate.admitProducer`, `admitConsumer`, `close` and others — a change behind the gate makes no
  difference to what concerns the gate;
* `Bisimulation.push`, `pop`, `resumePush`, `resumePop`, `popMany` — whole calls respect what their
  parts respect.
-/

namespace PermitRing

namespace Queue

variable {α β γ : Type} {R : Queue α → Queue α → Prop}

/-! ### Changes behind the gate -/

/-- The change makes no difference to the operation, before which or after which it can be made. -/
def Commutes (f : Queue α → Queue α) (op : Queue α → β × Queue α) : Prop :=
  ∀ q, op (f q) = ((op q).1, f (op q).2)

/-- The change concerns neither the gate nor whether the queue is open nor how many producers are
inside: it leaves these alone, and does the same whatever they are. -/
def BehindGate (f : Queue α → Queue α) : Prop :=
  ∀ (q : Queue α) (gate : Gate) (isOpen : Bool) (pending : Nat),
    f { q with gate, isOpen, pending } = { f q with gate, isOpen, pending }

namespace BehindGate

variable {f : Queue α → Queue α} (h : BehindGate f)

include h

theorem gate (q : Queue α) : (f q).gate = q.gate := by
  have he := congrArg Queue.gate (h q q.gate q.isOpen q.pending)
  exact he

theorem isOpen (q : Queue α) : (f q).isOpen = q.isOpen := by
  have he := congrArg Queue.isOpen (h q q.gate q.isOpen q.pending)
  exact he

theorem pending (q : Queue α) : (f q).pending = q.pending := by
  have he := congrArg Queue.pending (h q q.gate q.isOpen q.pending)
  exact he

theorem isDrained (q : Queue α) : (f q).isDrained = q.isDrained := by
  rw [Queue.isDrained, Queue.isDrained, h.isOpen, h.pending]

theorem setProduce (q : Queue α) (p : Permits) : (f q).setProduce p = f (q.setProduce p) := by
  unfold Queue.setProduce
  rw [h.gate, h.isOpen, h.pending]
  exact (h q _ _ _).symm

theorem setConsume (q : Queue α) (p : Permits) : (f q).setConsume p = f (q.setConsume p) := by
  unfold Queue.setConsume
  rw [h.gate, h.isOpen, h.pending]
  exact (h q _ _ _).symm

theorem finishProducer (q : Queue α) : (f q).finishProducer = f q.finishProducer := by
  unfold Queue.finishProducer
  dsimp only
  rw [h.gate, h.isOpen, h.pending]
  split
  · exact (h q _ _ _).symm
  · exact (h q _ _ _).symm

theorem abandonProducer (q : Queue α) : (f q).abandonProducer = f q.abandonProducer := by
  rw [Queue.abandonProducer, Queue.abandonProducer, h.gate, h.setProduce, h.finishProducer]

theorem enterProducer : Commutes f Queue.enterProducer := by
  intro q
  unfold Queue.enterProducer
  dsimp only
  rw [h.gate, h.isOpen, h.pending]
  split
  · exact congrArg (Prod.mk _) (h q _ _ _).symm
  · have hin := congrArg Queue.abandonProducer (h q q.gate q.isOpen (Word.succ q.pending))
    exact congrArg (Prod.mk _) (hin.symm.trans (h.abandonProducer _))

theorem enterAfter (o : Option Permits.Outcome) : Commutes f fun q => q.enterAfter o := by
  intro q
  rcases o with _ | _ | _ | _
  · rfl
  · simp only [Queue.enterAfter, h.enterProducer q]
  · rfl
  · rfl

theorem admitProducer (thread : Nat) (wait : Wait) :
    Commutes f (Queue.admitProducer thread wait) := by
  intro q
  unfold Queue.admitProducer
  simp only [h.gate, h.isOpen, h.setProduce]
  cases q.isOpen with
  | false => rfl
  | true =>
    cases wait with
    | never =>
      cases q.gate.produce.take? with
      | none => rfl
      | some p => exact h.enterAfter (some .acquired) (q.setProduce p)
    | atMost limit => exact h.enterAfter _ (q.setProduce _)

theorem readmitProducer (thread : Nat) (limit : Patience) :
    Commutes f (Queue.readmitProducer thread limit) := by
  intro q
  unfold Queue.readmitProducer
  simp only [h.gate, h.isOpen, h.setProduce]
  exact h.enterAfter _ (q.setProduce _)

theorem admitConsumer (thread : Nat) (wait : Wait) :
    Commutes f (Queue.admitConsumer thread wait) := by
  intro q
  unfold Queue.admitConsumer
  simp only [h.gate, h.isDrained, h.setConsume]
  cases q.gate.consume.take? with
  | some p => rfl
  | none =>
    cases wait with
    | never => cases q.isDrained <;> rfl
    | atMost limit => rfl

theorem readmitConsumer (thread : Nat) (limit : Patience) :
    Commutes f (Queue.readmitConsumer thread limit) := by
  intro q
  unfold Queue.readmitConsumer
  simp only [h.gate, h.isDrained, h.setConsume]

theorem expire (thread : Nat) (q : Queue α) : (f q).expire thread = f (q.expire thread) := by
  rw [Queue.expire, Queue.expire, h.gate, h.setProduce, h.setConsume]

theorem close : Commutes f Queue.close := by
  intro q
  unfold Queue.close
  rw [h.gate, h.isOpen, h.pending]
  split
  · exact congrArg (Prod.mk _) (h q _ _ _).symm
  · rfl

end BehindGate

/-! ### One operation -/

/-- The operation has the same answer on queues between which the relation holds, and leaves such
queues. -/
def Respects (R : Queue α → Queue α → Prop) (op : Queue α → β × Queue α) : Prop :=
  ∀ ⦃q q'⦄, R q q' → (op q').1 = (op q).1 ∧ R (op q).2 (op q').2

theorem respects_answer (R : Queue α → Queue α → Prop) (b : β) : Respects R fun q => (b, q) :=
  fun _ _ h => ⟨rfl, h⟩

/-- One operation after the other. -/
theorem Respects.bind {op : Queue α → β × Queue α} (hop : Respects R op)
    {next : β → Queue α → γ × Queue α} (hn : ∀ b, Respects R (next b)) :
    Respects R fun q => next (op q).1 (op q).2 := by
  intro q q' h
  obtain ⟨hb, hr⟩ := hop h
  dsimp only
  rw [hb]
  exact hn _ hr

/-! ### All operations -/

/-- Neither the parts of operations nor what shows of them tells queues apart between which the
relation holds. -/
structure Bisimulation (R : Queue α → Queue α → Prop) : Prop where
  admitProducer (thread : Nat) (wait : Wait) : Respects R (Queue.admitProducer thread wait)
  readmitProducer (thread : Nat) (limit : Patience) :
    Respects R (Queue.readmitProducer thread limit)
  admitConsumer (thread : Nat) (wait : Wait) : Respects R (Queue.admitConsumer thread wait)
  readmitConsumer (thread : Nat) (limit : Patience) :
    Respects R (Queue.readmitConsumer thread limit)
  publish (v : α) : Respects R (Queue.publish v)
  take : Respects R Queue.take
  abandonProducer : Respects R fun q => ((), q.abandonProducer)
  expire (thread : Nat) : Respects R fun q => ((), q.expire thread)
  close : Respects R Queue.close
  gate {q q' : Queue α} (h : R q q') : q'.gate = q.gate
  view {q q' : Queue α} (h : R q q') : q'.view = q.view
  drop {q q' : Queue α} (h : R q q') : q'.drop = q.drop

/-- How the push of an admitted producer ends. -/
def Pushed.ofPublished : Except Fault Unit → Pushed α
  | .error f => .faulted f
  | .ok () => .accepted

/-- How the pop of an admitted consumer ends. -/
def Popped.ofTaken : Except Fault α → Popped α
  | .error f => .faulted f
  | .ok v => .popped v

/-- What a sequence of pops goes on with after one of them. -/
def popOn (n : Nat) : Option (Popped α) → Queue α → List α × Queue α
  | some (.popped v), q => (v :: (popMany n q).1, (popMany n q).2)
  | _, q => ([], q)

theorem popMany_succ (n : Nat) (q : Queue α) :
    q.popMany (n + 1) = popOn n (q.pop 0 .never).1 (q.pop 0 .never).2 := by
  rw [popMany]
  rcases q.pop 0 .never with ⟨_ | v | r | f, q'⟩ <;> rfl

namespace Bisimulation

variable (h : Bisimulation R)

include h

theorem pushAfter (v : α) (o : Option (Except Refusal Unit)) :
    Respects R fun q => Queue.pushAfter v (o, q) := by
  rcases o with _ | r | u
  · exact respects_answer R none
  · exact respects_answer R (some (Pushed.rejected ⟨v, r⟩))
  · have he : (fun q => Queue.pushAfter v (some (.ok u), q)) = fun q =>
        (some (.ofPublished (q.publish v).1), (q.publish v).2) := by
      funext q
      rw [Queue.pushAfter]
      rcases q.publish v with ⟨_ | _, q'⟩ <;> rfl
    rw [he]
    exact (h.publish v).bind fun r => respects_answer R (some (Pushed.ofPublished r))

theorem popAfter (o : Option (Except Refusal Unit)) :
    Respects R fun q => Queue.popAfter (o, q) := by
  rcases o with _ | r | u
  · exact respects_answer R none
  · exact respects_answer R (some (Popped.refused r))
  · have he : (fun q : Queue α => Queue.popAfter (some (.ok u), q)) = fun q =>
        (some (.ofTaken q.take.1), q.take.2) := by
      funext q
      rw [Queue.popAfter]
      rcases q.take with ⟨_ | _, q'⟩ <;> rfl
    rw [he]
    exact h.take.bind fun r => respects_answer R (some (Popped.ofTaken r))

theorem push (thread : Nat) (v : α) (wait : Wait) : Respects R (Queue.push thread v wait) :=
  (h.admitProducer thread wait).bind (h.pushAfter v)

theorem resumePush (thread : Nat) (v : α) (limit : Patience) :
    Respects R (Queue.resumePush thread v limit) :=
  (h.readmitProducer thread limit).bind (h.pushAfter v)

theorem pop (thread : Nat) (wait : Wait) : Respects R (Queue.pop thread wait) :=
  (h.admitConsumer thread wait).bind h.popAfter

theorem resumePop (thread : Nat) (limit : Patience) : Respects R (Queue.resumePop thread limit) :=
  (h.readmitConsumer thread limit).bind h.popAfter

theorem popMany (n : Nat) : Respects R (Queue.popMany n) := by
  induction n with
  | zero => exact respects_answer R []
  | succ n ih =>
    have he : Queue.popMany (α := α) (n + 1) = fun q =>
        popOn n (q.pop 0 .never).1 (q.pop 0 .never).2 := funext (popMany_succ n)
    rw [he]
    refine (h.pop 0 .never).bind fun o => ?_
    rcases o with _ | v | r | f
    · exact respects_answer R []
    · exact ih.bind fun vs => respects_answer R (v :: vs)
    · exact respects_answer R []
    · exact respects_answer R []

theorem size {q q' : Queue α} (hr : R q q') : q'.size = q.size :=
  congrArg View.size (h.view hr)

end Bisimulation

end Queue

end PermitRing
