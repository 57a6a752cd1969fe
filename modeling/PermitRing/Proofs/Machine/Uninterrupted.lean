import PermitRing.Proofs.Machine.Alone
import PermitRing.Proofs.Machine.Run
import PermitRing.Proofs.Queue.Bisimulation
import PermitRing.Proofs.Session.Waiters

/-!
# Calls that nobody interrupts

Every call on a queue, taken step by step while no other thread takes a step, comes to what the
functions of a settled run say: the same answer, or asleep where they have none, and the same queue
once the threads that were roused have left. So a settled run is one of the interleavings of a
machine, in which each thread goes on until it has returned or sleeps.

A call goes on after its admission, or is turned down, or sleeps. `Admits` says this of the steps in
the terms in which the functions say it, and the parts of a call are joined along it. The only calls
left out are those that find a slot in the hands of somebody else. The functions say of them that
they wait for ever, and the steps do so; no queue of a settled run has such a slot.

## Main definitions

* `Queue.Admits` — what an admission leads to;
* `Queue.emplaceAfter` — an emplace whose constructor makes no calls itself;
* `Queue.Call.outcome` — what each call comes to as one function.

## Main results

* `Queue.admits_producer`, `admits_consumer` — admission;
* `Queue.comes_publish`, `comes_take` — elements are moved in and out;
* `Queue.comes_call` — whole calls;
* `Queue.comes_resumePush`, `comes_resumePop` — the rest of a call whose thread was roused;
* `Queue.Machine.exists_run_of_outcome` — a call that nobody interrupts is a run of the machine;
* `Queue.Represents.comes_call`, `Queue.Session.Sound.comes_act` — calls on the queue of a settled
  run, and the steps of such a run.
-/

namespace PermitRing.Queue

variable {α π : Type} {q : Queue α} {c : Choice} {limit : Patience}

/-! ### Admission -/

section Admission

variable {g : π → Queue α → Option (Progress π (Answer α) × Queue α)} {p p' inside : π}
  {q' q₁ : Queue α} {refused : Refusal → Answer α}

/-- What an admission leads to from a point on: the thread falls asleep, or the call is turned down,
or it goes on inside. -/
def Admits (g : π → Queue α → Option (Progress π (Answer α) × Queue α))
    (refused : Refusal → Answer α) (inside : π) (p : π) (q : Queue α) :
    Option (Except Refusal Unit) → Queue α → Prop
  | none, q₁ => Comes g (.more p) q none q₁
  | some (.error r), q₁ => Comes g (.more p) q (some (refused r)) q₁
  | some (.ok ()), q₁ =>
    q₁.Loose ∧ ∀ o t, Comes g (.more inside) q₁ o t → Comes g (.more p) q o t

/-- What comes before an admission is no part of it. -/
theorem Admits.before (hb : ∀ o t, Comes g (.more p') q' o t → Comes g (.more p) q o t) :
    ∀ {a}, Admits g refused inside p' q' a q₁ → Admits g refused inside p q a q₁
  | none, h => hb _ _ h
  | some (.error _), h => hb _ _ h
  | some (.ok ()), h => ⟨h.1, fun o t hr => hb o t (h.2 o t hr)⟩

end Admission

/-- How a call goes on after its wait for a permit. -/
def afterWait (refused : Refusal → Answer α) (inside : π) :
    Permits.Outcome → Progress π (Answer α)
  | .acquired => .more inside
  | .cancelled => .done (refused .closed)
  | .timedOut => .done (refused .timedOut)

/-- How a call goes on after it claimed a position. -/
def afterClaim (here : Nat → π) : Except Fault Nat → Progress π (Answer α)
  | .ok i => .more (here i)
  | .error f => .done (.faulted f)

/-! ### Producers -/

section Producing

/-- A producer leaves, and the last one to leave a closed queue wakes the consumers. -/
theorem comes_finishing (h : q.Loose) :
    ∃ q₁, q₁.settled = q.settled.finishProducer ∧ q₁.Loose ∧
      Comes (fun (f : Finishing) q => some (f.step q)) (.more .count) q (some ()) q₁ := by
  let counted : Queue α := { q with pending := Word.pred q.pending }
  by_cases hlast : (q.pending == 1 && !q.isOpen) = true
  · have hdone : q.settled.finishProducer =
        counted.settled.setConsume counted.settled.gate.consume.releaseAll := if_pos hlast
    simp only [Bool.and_eq_true, beq_iff_eq, Bool.not_eq_true'] at hlast
    have hcount : Finishing.count.step q = (.more .check, counted) := by
      simp only [Finishing.step, if_pos hlast.1, counted]
    have hcheck : Finishing.check.step counted = (.more (.wake .bump), counted) := by
      simp only [Finishing.step, counted, hlast.2, Bool.false_eq_true, if_false]
    have hg : ∀ w (q : Queue α), some ((Finishing.wake w).step q) =
        some (stepWaking .consume true w q .wake (.done ())) := fun _ _ => rfl
    obtain ⟨q₁, hq₁, hloose, hwake⟩ := comes_woken (q := counted)
      (g := fun (f : Finishing) q => some (f.step q)) hg h
    exact ⟨q₁, hq₁.trans hdone.symm, hloose,
      .step (congrArg some hcount) (.step (congrArg some hcheck) (hwake (.done _ _)))⟩
  · have hdone : q.settled.finishProducer = counted.settled := if_neg hlast
    refine ⟨counted, hdone.symm, h, ?_⟩
    by_cases hone : q.pending = 1
    · have ho : q.isOpen = true := by simpa [hone] using hlast
      have hcount : Finishing.count.step q = (.more .check, counted) := by
        simp only [Finishing.step, if_pos hone, counted]
      have hcheck : Finishing.check.step counted = (.done (), counted) := by
        simp only [Finishing.step, counted, ho, if_true]
      exact .step (congrArg some hcount) (.step (congrArg some hcheck) (.done _ _))
    · have hcount : Finishing.count.step q = (.done (), counted) := by
        simp only [Finishing.step, if_neg hone, counted]
      exact .step (congrArg some hcount) (.done _ _)

variable (wait : Wait) (job : Job α)

theorem comes_finish (h : q.Loose) (a : Answer α) :
    ∃ q₁, q₁.settled = q.settled.finishProducer ∧
      Comes (Producing.step wait job c) (.more (.finish a .count)) q (some a) q₁ := by
  obtain ⟨q₁, hq₁, -, hfinishing⟩ := comes_finishing h
  have hi : Inside (fun (f : Finishing) q => some (f.step q)) (Producing.step wait job c)
      (.finish a) (fun _ => .done a) id := by
    intro f q
    simp only [id, Producing.step, Option.map_some]
    rcases f.step q with ⟨f | r, q⟩ <;> rfl
  exact ⟨q₁, hq₁, Comes.call hi hfinishing (.done _ _)⟩

/-- A producer gives its place back and leaves. -/
theorem comes_giveBack (h : q.Loose) (a : Answer α) :
    ∃ q₁, q₁.settled = q.settled.abandonProducer ∧
      Comes (Producing.step wait job c) (.more (.giveBack a)) q (some a) q₁ := by
  let given : Queue α := q.setProduce q.gate.produce.give
  have hgiven : given.Loose := h.setPermits (p := q.gate.produce.give) (h .produce) .produce
  obtain ⟨q₁, hq₁, hloose, hwake⟩ := comes_woken (q := given)
    (g := Producing.step wait job c)
    (show ∀ w q, Producing.step wait job c (.wakeBack a w) q =
      some (stepWaking .produce false w q (.wakeBack a) (.more (.finish a .count))) from
        fun _ _ => rfl) hgiven
  obtain ⟨q₂, hq₂, hfinish⟩ := comes_finish (c := c) wait job hloose a
  refine ⟨q₂, ?_, .step rfl (hwake hfinish)⟩
  rw [hq₂, hq₁]
  rfl

/-- Where a producer goes on that was admitted. -/
def Job.begin : Job α → Producing α
  | .value v => .claim v .start
  | .construction .. => .construct

/-- A producer with a permit comes inside, unless the queue is closed. -/
theorem admits_enter (h : q.Loose) :
    ∃ q₁, q₁.settled = q.settled.enterProducer.2 ∧
      Admits (Producing.step wait job c) job.refused job.begin .enter q
        (some q.settled.enterProducer.1) q₁ := by
  let counted : Queue α := { q with pending := Word.succ q.pending }
  have hcounted : counted.Loose := h
  by_cases ho : q.isOpen = true
  · have hdone : q.settled.enterProducer = (.ok (), counted.settled) := if_pos ho
    have hrecheck : Producing.step wait job c .recheck counted =
        some (.more job.begin, counted) := by
      cases job <;> simp [Producing.step, counted, ho, Job.begin]
    rw [hdone]
    exact ⟨counted, rfl, hcounted, fun o t hr => .step rfl (.step hrecheck hr)⟩
  · have hdone : q.settled.enterProducer = (.error .closed, counted.settled.abandonProducer) :=
      if_neg ho
    have hrecheck : Producing.step wait job c .recheck counted =
        some (.more (.giveBack (job.refused .closed)), counted) := by
      simp [Producing.step, counted, ho]
    obtain ⟨q₁, hq₁, hgive⟩ := comes_giveBack (c := c) wait job hcounted (job.refused .closed)
    rw [hdone]
    exact ⟨q₁, hq₁, .step rfl (.step hrecheck hgive)⟩

/-- What the end of a producer's wait leads to. -/
theorem admits_wait {a : Awaiting} {o : Option Permits.Outcome} {q₁ : Queue α}
    (hw : Comes (Awaiting.step .produce limit c) (.more a) q o q₁) (hl : o ≠ none → q₁.Loose) :
    ∃ q₂, q₂.settled = (q₁.settled.enterAfter o).2 ∧
      Admits (Producing.step (.atMost limit) job c) job.refused job.begin (.wait a) q
        (q₁.settled.enterAfter o).1 q₂ := by
  have hi : Inside (Awaiting.step .produce limit c) (Producing.step (.atMost limit) job c) .wait
      (afterWait job.refused .enter) id := by
    intro a q
    simp only [id, Producing.step]
    congr 1
    funext y
    rcases y with ⟨a | (_ | _ | _), q⟩ <;> rfl
  cases o with
  | none => exact ⟨q₁, rfl, Comes.call_asleep hi hw⟩
  | some r =>
    cases r with
    | acquired =>
      obtain ⟨q₂, hq₂, henter⟩ := admits_enter (c := c) (.atMost limit) job
        (hl (Option.some_ne_none _))
      exact ⟨q₂, hq₂, henter.before fun o t hr => Comes.call hi hw hr⟩
    | cancelled | timedOut => exact ⟨q₁, rfl, Comes.call hi hw (.done _ _)⟩

/-- **Admission of a producer.** -/
theorem admits_producer (h : q.Loose) (hc : c.Alone wait) :
    ∃ q₁, q₁.settled = (q.settled.admitProducer c.thread wait).2 ∧
      Admits (Producing.step wait job c) job.refused job.begin .checkOpen q
        (q.settled.admitProducer c.thread wait).1 q₁ := by
  by_cases ho : q.isOpen = true
  · have hopen : ¬(!q.settled.isOpen) = true := by
      rw [show q.settled.isOpen = q.isOpen from rfl, ho]
      exact Bool.false_ne_true
    cases wait with
    | never =>
      have hcheck : Producing.step .never job c .checkOpen q = some (.more (.look .load), q) := by
        simp [Producing.step, ho]
      rw [admitProducer, if_neg hopen]
      by_cases hpos : 0 < (q.permits .produce).count
      · obtain ⟨q₁, hq₁, henter⟩ := admits_enter (c := c) .never job
          (h.setPermits (p := (q.permits .produce).taken) (h .produce) .produce)
        have hpos' : 0 < q.settled.gate.produce.count := hpos
        rw [Permits.take?_eq_some hpos']
        exact ⟨q₁, hq₁, henter.before fun o t hr =>
          .step hcheck (comes_taken (fun _ _ => rfl) hc.spurious hpos hr)⟩
      · have hn : (q.permits .produce).count = 0 := Nat.eq_zero_of_not_pos hpos
        have hn' : q.settled.gate.produce.count = 0 := hn
        rw [Permits.take?_of_eq_zero hn']
        exact ⟨q, rfl, .step hcheck (comes_untaken (fun _ _ => rfl) hc.spurious hn (.done _ _))⟩
    | atMost limit =>
      have hcheck : Producing.step (.atMost limit) job c .checkOpen q =
          some (.more (.wait (.fast .load)), q) := by
        simp [Producing.step, ho]
      have hdecided : q.settled.admitProducer c.thread (.atMost limit) =
          (q.settled.setProduce ((q.settled.permits .produce).acquire c.thread limit []
            (q.isOver .produce)).permits).enterAfter
              ((q.settled.permits .produce).acquire c.thread limit []
                (q.isOver .produce)).outcome := if_neg hopen
      obtain ⟨q₁, hw, hq₁, hl⟩ := waits_of_comes (x := .produce) h (comes_fast hc)
      obtain ⟨houtcome, hpermits⟩ := h.acquire .produce c.thread limit (q.isOver .produce)
      rw [hdecided, houtcome, hpermits]
      obtain ⟨q₂, hq₂, hwait⟩ := admits_wait job hw hl
      rw [hq₁] at hq₂ hwait
      exact ⟨q₂, hq₂, hwait.before fun o t hr => .step hcheck hr⟩
  · have hdone : q.settled.admitProducer c.thread wait = (some (.error .closed), q.settled) :=
      if_pos (by rw [show q.settled.isOpen = q.isOpen from rfl]; simp [ho])
    have hcheck : Producing.step wait job c .checkOpen q = some (.done (job.refused .closed), q) :=
      if_pos (by simp [ho])
    rw [hdone]
    exact ⟨q, rfl, .step hcheck (.done _ _)⟩

/-- Admission of a producer that was roused. -/
theorem admits_roused (h : q.Loose) (hc : c.Alone (.atMost limit))
    (hup : (q.permits .produce).parker.isAsleep c.thread = false)
    (hin : (q.permits .produce).parker.sleepers.length < (q.permits .produce).parker.parked) :
    ∃ q₁, q₁.settled = (q.settled.readmitProducer c.thread limit).2 ∧
      Admits (Producing.step (.atMost limit) job c) job.refused job.begin (.wait .asleep) q
        (q.settled.readmitProducer c.thread limit).1 q₁ := by
  obtain ⟨q₁, hw, hq₁, hl⟩ := waits_asleep h hc hup hin
  have hresume := Permits.resume_eq (p := q.settled.gate.produce) (h.parked_lt .produce) c.thread
    limit (!q.settled.isOpen)
  rw [readmitProducer, hresume]
  obtain ⟨q₂, hq₂, hwait⟩ := admits_wait job hw hl
  rw [hq₁] at hq₂ hwait
  exact ⟨q₂, hq₂, hwait⟩

/-! ### Elements that are moved in -/

/-- An element whose slot is free is moved in, and a consumer is woken for it. -/
theorem comes_written (h : q.Loose) (hc : c.spurious = false) {v : α} {i : Nat} {s s' : Slot α}
    (hs : q.storage.slots[i]? = some s) (hw : s.write? v = some s') (b : Backoff) :
    ∃ q₁, q₁.settled = Queue.finishProducer { q.settled with
        storage := q.storage.put i s', gate.consume := q.settled.gate.consume.release } ∧
      Comes (Producing.step wait job c) (.more (.write v i (.claim b))) q (some .done) q₁ := by
  have hinside : Inside (fun (w : Slot.Writing) s => some (w.step v false s))
      (Producing.step wait job c) (.write v i) (fun _ => .more .give)
      (fun s => { q with storage := q.storage.put i s }) := by
    intro w y
    simp only [Producing.step, hc, Option.map_some, Storage.slot_put hs]
    rcases w.step v false y with ⟨w | r, y'⟩ <;> simp only [Storage.put_put, Progress.lead]
  let given : Queue α :=
    { q with storage := q.storage.put i s', gate.consume := q.gate.consume.give }
  have hgiven : given.Loose := h.setPermits (p := q.gate.consume.give) (h .consume) .consume
  obtain ⟨q₁, hq₁, hloose, hwake⟩ := comes_woken (q := given) (g := Producing.step wait job c)
    (show ∀ w q, Producing.step wait job c (.wake w) q =
      some (stepWaking .consume false w q .wake (.more (.finish .done .count))) from
        fun _ _ => rfl) hgiven
  obtain ⟨q₂, hq₂, hfinish⟩ := comes_finish (c := c) wait job hloose .done
  have hwritten := Comes.call hinside (Slot.comes_write hw b) (.step rfl (hwake hfinish))
  rw [Storage.put_self hs] at hwritten
  exact ⟨q₂, by rw [hq₂, hq₁]; rfl, hwritten⟩

theorem publish_of_write {v : α} {i : Nat} {tail : Index} {storage : Storage α}
    (hc : q.tail.claim q.storage.capacity = (.ok i, tail))
    (hw : q.storage.write i v = (.ok (), storage)) :
    q.publish v = (.ok (), Queue.finishProducer { q with
      tail, storage, gate.consume := q.gate.consume.release }) := by
  rw [publish, hc]
  dsimp only
  rw [hw]

theorem publish_of_write_error {v : α} {i : Nat} {tail : Index} {storage : Storage α} {f : Fault}
    (hc : q.tail.claim q.storage.capacity = (.ok i, tail))
    (hw : q.storage.write i v = (.error f, storage)) :
    q.publish v = (.error f, { q with tail, storage }) := by
  rw [publish, hc]
  dsimp only
  rw [hw]

/-- **An element is published.** -/
theorem comes_publish (h : q.Loose) (hc : c.spurious = false) {v : α}
    (hw : (q.settled.publish v).1 ≠ .error .waitsForever) :
    ∃ q₁, q₁.settled = (q.settled.publish v).2 ∧
      Comes (Producing.step wait job c) (.more (.claim v .start)) q
        (some (.ofPushed (.ofPublished (q.settled.publish v).1))) q₁ := by
  have hinside : Inside (fun (p : Index.Claiming) x => some (p.step q.capacity false x))
      (Producing.step wait job c) (.claim v)
      (afterClaim fun i => .write v i (.claim (.start q.spinLimit)))
      (fun tail => { q with tail }) := by
    intro p x
    simp only [Producing.step, hc, Option.map_some]
    rw [show ({ q with tail := x } : Queue α).capacity = q.capacity from rfl]
    rcases p.step q.capacity false x with ⟨p | (f | i), y⟩ <;> rfl
  have hclaim := Index.comes_claim q.capacity q.tail
  -- the steps and the function agree on every way in which the claim and the move can end
  rcases he : q.tail.claim q.capacity with ⟨f | i, tail⟩ <;> rw [he] at hclaim
  · have hdone : q.settled.publish v = (.error f, { q with tail }.settled) := by
      rw [publish, show q.settled.tail.claim q.settled.storage.capacity = _ from he]
      rfl
    rw [hdone]
    exact ⟨_, rfl, Comes.call hinside hclaim (.done _ _)⟩
  · cases hs : q.storage.slots[i]? with
    | none =>
      have hwrite : q.storage.write i v =
          (.error (.slotOutOfRange i q.storage.capacity), q.storage) := by
        rw [Storage.write, Storage.onSlot, hs]
      have hstep : Producing.step wait job c (.write v i (.claim (.start q.spinLimit)))
          { q with tail } = some (.done (.faulted (.slotOutOfRange i q.storage.capacity)),
            { q with tail }) := by
        simp only [Producing.step, Storage.slot, hs]
      rw [publish_of_write_error (q := q.settled) he hwrite]
      exact ⟨{ q with tail }, rfl, Comes.call hinside hclaim (.step hstep (.done _ _))⟩
    | some s =>
      cases hfree : s.write? v with
      | none =>
        -- the slot is in the hands of somebody else
        have hwrite : q.storage.write i v = (.error .waitsForever, q.storage) := by
          rw [Storage.write, Storage.onSlot, hs]
          simp only [hfree, Option.map_none]
        exact absurd (congrArg Prod.fst (publish_of_write_error (q := q.settled) he hwrite)) hw
      | some s' =>
        have hwrite : q.storage.write i v = (.ok (), q.storage.put i s') := by
          rw [Storage.write, Storage.onSlot, hs]
          simp only [hfree, Option.map_some]
        obtain ⟨q₁, hq₁, hwritten⟩ := comes_written (q := { q with tail }) wait job h hc hs hfree
          (.start q.spinLimit)
        rw [publish_of_write (q := q.settled) he hwrite]
        exact ⟨q₁, hq₁, Comes.call hinside hclaim hwritten⟩

/-- What a producer with an element comes to after its admission. -/
theorem comes_pushAfter (hc : c.spurious = false) {v : α} {p : Producing α}
    {a : Option (Except Refusal Unit)} {q₁ : Queue α}
    (ha : Admits (Producing.step wait (.value v) c) (Job.value v).refused (Job.value v).begin p q a
      q₁)
    (hw : (pushAfter v (a, q₁.settled)).1 ≠ some (.faulted .waitsForever)) :
    ∃ q₂, q₂.settled = (pushAfter v (a, q₁.settled)).2 ∧
      Comes (Producing.step wait (.value v) c) (.more p) q
        ((pushAfter v (a, q₁.settled)).1.map Answer.ofPushed) q₂ := by
  match a, ha with
  | none, ha => exact ⟨q₁, rfl, ha⟩
  | some (.error r), ha => exact ⟨q₁, rfl, ha⟩
  | some (.ok ()), ha =>
    obtain ⟨hloose, hinside⟩ := ha
    have hpub : (q₁.settled.publish v).1 ≠ .error .waitsForever := by
      intro hf
      refine hw ?_
      rw [pushAfter, show q₁.settled.publish v = (.error .waitsForever, _) from Prod.ext hf rfl]
    obtain ⟨q₂, hq₂, hcomes⟩ := comes_publish wait (.value v) hloose hc hpub
    rw [pushAfter]
    rcases he : q₁.settled.publish v with ⟨f | u, q'⟩ <;> rw [he] at hq₂ hcomes <;>
      exact ⟨q₂, hq₂, hinside _ _ hcomes⟩

end Producing

/-! ### Consumers -/

section Consuming

variable (wait : Wait)

/-- What the end of a consumer's wait leads to. -/
theorem admits_waited {a : Awaiting} {o : Option Permits.Outcome} {q₁ : Queue α}
    (hw : Comes (Awaiting.step .consume limit c) (.more a) q o q₁) (hl : o ≠ none → q₁.Loose) :
    Admits (Consuming.step (.atMost limit) c) Answer.refused (.claim .start) (.wait a) q
      (admittedAfter o) q₁ := by
  have hi : Inside (Awaiting.step .consume limit c) (Consuming.step (.atMost limit) c) .wait
      (afterWait (Answer.refused (α := α)) (.claim .start)) id := by
    intro a q
    simp only [id, Consuming.step]
    congr 1
    funext y
    rcases y with ⟨a | (_ | _ | _), q⟩ <;> rfl
  cases o with
  | none => exact Comes.call_asleep hi hw
  | some r =>
    cases r with
    | acquired => exact ⟨hl (Option.some_ne_none _), fun o t hr => Comes.call hi hw hr⟩
    | cancelled | timedOut => exact Comes.call hi hw (.done _ _)

/-- A consumer that finds no permit and does not wait asks whether there will be one. -/
theorem comes_glance (hc : c.spurious = false) (hn : (q.permits .consume).count = 0) :
    Comes (Consuming.step .never c) (.more (.look .load)) q
      (some (.refused (if q.isDrained then .closed else .empty))) q := by
  refine comes_untaken (fun _ _ => rfl) hc hn
    (show Comes (Consuming.step .never c) (.more .askOpen) q _ q from ?_)
  by_cases ho : q.isOpen = true
  · have hask : Consuming.step .never c .askOpen q = some (.done (.refused .empty), q) := by
      simp only [Consuming.step, if_pos ho]
    have hd : q.isDrained = false := by simp [isDrained, ho]
    rw [hd]
    exact .step hask (.done _ _)
  · have hask : Consuming.step .never c .askOpen q = some (.more .askPending, q) := by
      simp only [Consuming.step, if_neg ho]
    by_cases hp : q.pending = 0
    · have hpending : Consuming.step .never c .askPending q =
          some (.more (.lastLook .load), q) := by
        simp only [Consuming.step, if_pos hp]
      have hd : q.isDrained = true := by simp [isDrained, ho, hp]
      rw [hd]
      exact .step hask (.step hpending (comes_untaken (fun _ _ => rfl) hc hn (.done _ _)))
    · have hpending : Consuming.step .never c .askPending q =
          some (.done (.refused .empty), q) := by
        simp only [Consuming.step, if_neg hp]
      have hd : q.isDrained = false := by simp [isDrained, hp]
      rw [hd]
      exact .step hask (.step hpending (.done _ _))

/-- **Admission of a consumer.** -/
theorem admits_consumer (h : q.Loose) (hc : c.Alone wait) :
    ∃ q₁, q₁.settled = (q.settled.admitConsumer c.thread wait).2 ∧
      Admits (Consuming.step wait c) Answer.refused (.claim .start) (.look .load) q
        (q.settled.admitConsumer c.thread wait).1 q₁ := by
  unfold admitConsumer
  by_cases hpos : 0 < (q.permits .consume).count
  · have hpos' : 0 < q.settled.gate.consume.count := hpos
    rw [Permits.take?_eq_some hpos']
    exact ⟨q.setPermits .consume (q.permits .consume).taken, rfl,
      h.setPermits (p := (q.permits .consume).taken) (h .consume) .consume,
      fun o t hr => comes_taken (fun _ _ => rfl) hc.spurious hpos hr⟩
  · have hn : (q.permits .consume).count = 0 := Nat.eq_zero_of_not_pos hpos
    have hn' : q.settled.gate.consume.count = 0 := hn
    rw [Permits.take?_of_eq_zero hn']
    cases wait with
    | never =>
      have hglance := comes_glance hc.spurious hn
      dsimp only
      rw [show q.settled.isDrained = q.isDrained from rfl]
      cases hd : q.isDrained <;> rw [hd] at hglance <;> exact ⟨q, rfl, hglance⟩
    | atMost limit =>
      obtain ⟨q₁, hw, hq₁, hl⟩ := waits_of_comes (x := .consume) h (comes_fast hc)
      obtain ⟨houtcome, hpermits⟩ := h.acquire .consume c.thread limit (q.isOver .consume)
      show ∃ q₁, q₁.settled = q.settled.setConsume ((q.settled.permits .consume).acquire c.thread
          limit [] (q.isOver .consume)).permits ∧
        Admits (Consuming.step (.atMost limit) c) Answer.refused (.claim .start) (.look .load) q
          (admittedAfter ((q.settled.permits .consume).acquire c.thread limit []
            (q.isOver .consume)).outcome) q₁
      rw [houtcome, hpermits]
      refine ⟨q₁, hq₁, (admits_waited hw hl).before fun o t hr => ?_⟩
      exact comes_untaken (fun _ _ => rfl) hc.spurious hn hr

/-- Admission of a consumer that was roused. -/
theorem admits_rousedConsumer (h : q.Loose) (hc : c.Alone (.atMost limit))
    (hup : (q.permits .consume).parker.isAsleep c.thread = false)
    (hin : (q.permits .consume).parker.sleepers.length < (q.permits .consume).parker.parked) :
    ∃ q₁, q₁.settled = (q.settled.readmitConsumer c.thread limit).2 ∧
      Admits (Consuming.step (.atMost limit) c) Answer.refused (.claim .start) (.wait .asleep) q
        (q.settled.readmitConsumer c.thread limit).1 q₁ := by
  obtain ⟨q₁, hw, hq₁, hl⟩ := waits_asleep h hc hup hin
  have hresume := Permits.resume_eq (p := q.settled.gate.consume) (h.parked_lt .consume) c.thread
    limit q.settled.isDrained
  rw [readmitConsumer, hresume]
  exact ⟨q₁, hq₁, admits_waited hw hl⟩

/-! ### Elements that are moved out -/

/-- An element is moved out of its slot, and a producer is woken for the slot. -/
theorem comes_removed (h : q.Loose) (hc : c.spurious = false) {v : α} {i : Nat} {s s' : Slot α}
    (hs : q.storage.slots[i]? = some s) (ht : s.take? = some (v, s')) (b : Backoff) :
    ∃ q₁, q₁.settled = { q.settled with
        storage := q.storage.put i s', gate.produce := q.settled.gate.produce.release } ∧
      Comes (Consuming.step wait c) (.more (.take i (.claim b))) q (some (.popped v)) q₁ := by
  have hinside : Inside (fun (t : Slot.Taking α) s => some (t.step false s))
      (Consuming.step wait c) (.take i) (fun v => .more (.give v))
      (fun s => { q with storage := q.storage.put i s }) := by
    intro t y
    simp only [Consuming.step, hc, Option.map_some, Storage.slot_put hs]
    rcases t.step false y with ⟨t | r, y'⟩ <;> simp only [Storage.put_put, Progress.lead]
  let given : Queue α :=
    { q with storage := q.storage.put i s', gate.produce := q.gate.produce.give }
  have hgiven : given.Loose := h.setPermits (p := q.gate.produce.give) (h .produce) .produce
  obtain ⟨q₁, hq₁, -, hwake⟩ := comes_woken (q := given) (g := Consuming.step wait c)
    (show ∀ w q, Consuming.step wait c (.wake v w) q =
      some (stepWaking .produce false w q (.wake v) (.done (.popped v))) from
        fun _ _ => rfl) hgiven
  have hremoved := Comes.call hinside (Slot.comes_take ht b) (.step rfl (hwake (.done _ _)))
  rw [Storage.put_self hs] at hremoved
  exact ⟨q₁, by rw [hq₁]; rfl, hremoved⟩

theorem take_of_take {v : α} {i : Nat} {head : Index} {storage : Storage α}
    (hc : q.head.claim q.storage.capacity = (.ok i, head))
    (ht : q.storage.take i = (.ok v, storage)) :
    q.take = (.ok v, { q with head, storage, gate.produce := q.gate.produce.release }) := by
  rw [take, hc]
  dsimp only
  rw [ht]

theorem take_of_take_error {i : Nat} {head : Index} {storage : Storage α} {f : Fault}
    (hc : q.head.claim q.storage.capacity = (.ok i, head))
    (ht : q.storage.take i = (.error f, storage)) :
    q.take = (.error f, { q with head, storage }) := by
  rw [take, hc]
  dsimp only
  rw [ht]

/-- **An element is taken.** -/
theorem comes_take (h : q.Loose) (hc : c.spurious = false)
    (hw : q.settled.take.1 ≠ .error .waitsForever) :
    ∃ q₁, q₁.settled = q.settled.take.2 ∧
      Comes (Consuming.step wait c) (.more (.claim .start)) q
        (some (.ofPopped (.ofTaken q.settled.take.1))) q₁ := by
  have hinside : Inside (fun (p : Index.Claiming) x => some (p.step q.capacity false x))
      (Consuming.step wait c) .claim
      (afterClaim (α := α) fun i => .take i (.claim (.start q.spinLimit)))
      (fun head => { q with head }) := by
    intro p x
    simp only [Consuming.step, hc, Option.map_some]
    rw [show ({ q with head := x } : Queue α).capacity = q.capacity from rfl]
    rcases p.step q.capacity false x with ⟨p | (f | i), y⟩ <;> rfl
  have hclaim := Index.comes_claim q.capacity q.head
  rcases he : q.head.claim q.capacity with ⟨f | i, head⟩ <;> rw [he] at hclaim
  · have hdone : q.settled.take = (.error f, { q with head }.settled) := by
      rw [take, show q.settled.head.claim q.settled.storage.capacity = _ from he]
      rfl
    rw [hdone]
    exact ⟨_, rfl, Comes.call hinside hclaim (.done _ _)⟩
  · cases hs : q.storage.slots[i]? with
    | none =>
      have hremove : q.storage.take i =
          (.error (.slotOutOfRange i q.storage.capacity), q.storage) := by
        rw [Storage.take, Storage.onSlot, hs]
      have hstep : Consuming.step wait c (.take i (.claim (.start q.spinLimit)))
          { q with head } = some (.done (.faulted (.slotOutOfRange i q.storage.capacity)),
            { q with head }) := by
        simp only [Consuming.step, Storage.slot, hs]
      rw [take_of_take_error (q := q.settled) he hremove]
      exact ⟨{ q with head }, rfl, Comes.call hinside hclaim (.step hstep (.done _ _))⟩
    | some s =>
      cases hfull : s.take? with
      | none =>
        -- the slot is in the hands of somebody else
        have hremove : q.storage.take i = (.error .waitsForever, q.storage) := by
          rw [Storage.take, Storage.onSlot, hs]
          simp only [hfull]
        exact absurd (congrArg Prod.fst (take_of_take_error (q := q.settled) he hremove)) hw
      | some y =>
        obtain ⟨v, s'⟩ := y
        have hremove : q.storage.take i = (.ok v, q.storage.put i s') := by
          rw [Storage.take, Storage.onSlot, hs]
          simp only [hfull]
        obtain ⟨q₁, hq₁, hremoved⟩ := comes_removed (q := { q with head }) wait h hc hs hfull
          (.start q.spinLimit)
        rw [take_of_take (q := q.settled) he hremove]
        exact ⟨q₁, hq₁, Comes.call hinside hclaim hremoved⟩

/-- What a consumer comes to after its admission. -/
theorem comes_popAfter (hc : c.spurious = false) {p : Consuming α}
    {a : Option (Except Refusal Unit)} {q₁ : Queue α}
    (ha : Admits (Consuming.step wait c) Answer.refused (.claim .start) p q a q₁)
    (hw : (popAfter (a, q₁.settled)).1 ≠ some (.faulted .waitsForever)) :
    ∃ q₂, q₂.settled = (popAfter (a, q₁.settled)).2 ∧
      Comes (Consuming.step wait c) (.more p) q ((popAfter (a, q₁.settled)).1.map Answer.ofPopped)
        q₂ := by
  match a, ha with
  | none, ha => exact ⟨q₁, rfl, ha⟩
  | some (.error r), ha => exact ⟨q₁, rfl, ha⟩
  | some (.ok ()), ha =>
    obtain ⟨hloose, hinside⟩ := ha
    have htake : q₁.settled.take.1 ≠ .error .waitsForever := by
      intro hf
      refine hw ?_
      rw [popAfter, show q₁.settled.take = (.error .waitsForever, _) from Prod.ext hf rfl]
    obtain ⟨q₂, hq₂, hcomes⟩ := comes_take wait hloose hc htake
    rw [popAfter]
    rcases he : q₁.settled.take with ⟨f | v, q'⟩ <;> rw [he] at hq₂ hcomes <;>
      exact ⟨q₂, hq₂, hinside _ _ hcomes⟩

end Consuming

/-! ### Constructors -/

/-- The end of a constructor, with its answer. -/
def constructed : Build α → Queue α → Answer α × Queue α
  | .built v, q => (.ofPushed (.ofPublished (q.publish v).1), (q.publish v).2)
  | .failed e, q => (.unbuilt (.failed e), q.abandonProducer)
  | .raised text, q => (.faulted (.raised text), q.abandonProducer)

/-- In a settled run a constructor ends so. -/
theorem constructed_eq (name : String) (build : Build α) (s : Session α) :
    constructed build s.queue =
      ((s.construct name build).1, (s.construct name build).2.queue) := by
  cases build with
  | built v =>
    rw [constructed, Session.construct]
    rcases s.queue.publish v with ⟨f | u, q⟩ <;> rfl
  | failed e | raised text => rfl

/-- What an emplace comes to after its admission, with a constructor that makes no calls itself. -/
def emplaceAfter (fallible : Bool) (build : Build α) :
    Option (Except Refusal Unit) × Queue α → Option (Answer α) × Queue α
  | (none, q) => (none, q)
  | (some (.error r), q) => (some (.ofRefusal fallible r), q)
  | (some (.ok ()), q) => (some (constructed build q).1, (constructed build q).2)

theorem comes_construct (h : q.Loose) (hc : c.spurious = false) (wait : Wait) (fallible : Bool)
    {build : Build α} (hw : (constructed build q.settled).1 ≠ .faulted .waitsForever) :
    ∃ q₁, q₁.settled = (constructed build q.settled).2 ∧
      Comes (Producing.step wait (.construction fallible build) c) (.more .construct) q
        (some (constructed build q.settled).1) q₁ := by
  cases build with
  | built v =>
    have hpub : (q.settled.publish v).1 ≠ .error .waitsForever := fun hf =>
      hw (congrArg (fun r => Answer.ofPushed (.ofPublished r)) hf)
    obtain ⟨q₁, hq₁, hcomes⟩ := comes_publish wait (.construction fallible (.built v)) h hc hpub
    exact ⟨q₁, hq₁, .step rfl hcomes⟩
  | failed e =>
    obtain ⟨q₁, hq₁, hcomes⟩ := comes_giveBack (c := c) wait (.construction fallible (.failed e)) h
      (.unbuilt (.failed e))
    exact ⟨q₁, hq₁, .step rfl hcomes⟩
  | raised text =>
    obtain ⟨q₁, hq₁, hcomes⟩ := comes_giveBack (c := c) wait (.construction fallible (.raised text))
      h (.faulted (.raised text))
    exact ⟨q₁, hq₁, .step rfl hcomes⟩

/-! ### Whole calls -/

/-- A call consists of the steps of its kind. -/
theorem inside_call {call : Call α} {f : π → Queue α → Option (Progress π (Answer α) × Queue α)}
    {here : π → Point α}
    (hf : ∀ p q, Point.step call c (here p) q = (f p q).map (liftProgress here)) :
    Inside f (Point.step call c) here .done id := by
  intro p q
  simp only [hf, id]
  congr 1
  funext y
  rcases y with ⟨p | a, q⟩ <;> rfl

theorem inside_producing (call : Call α) {job : Job α} (hj : call.job? = some job) :
    Inside (Producing.step call.wait job c) (Point.step call c) .producing .done id :=
  inside_call fun p q => by rw [Point.step, hj, Option.bind_some]

theorem inside_consuming (call : Call α) :
    Inside (Consuming.step call.wait c) (Point.step call c) .consuming .done id :=
  inside_call fun _ _ => rfl

/-- **A push that nobody interrupts** is the push of a settled run. -/
theorem comes_push (h : q.Loose) {wait : Wait} (hc : c.Alone wait) {v : α}
    (hw : (q.settled.push c.thread v wait).1 ≠ some (.faulted .waitsForever)) :
    ∃ q₁, q₁.settled = (q.settled.push c.thread v wait).2 ∧
      Comes (Point.step (.push v wait) c) (.more (Call.push v wait).first) q
        ((q.settled.push c.thread v wait).1.map Answer.ofPushed) q₁ := by
  obtain ⟨q₁, hq₁, hadmits⟩ := admits_producer wait (.value v) h hc
  have he : ((q.settled.admitProducer c.thread wait).1, q₁.settled) =
      q.settled.admitProducer c.thread wait := Prod.ext rfl hq₁
  rw [push, ← he] at hw ⊢
  obtain ⟨q₂, hq₂, hcomes⟩ := comes_pushAfter wait hc.spurious hadmits hw
  exact ⟨q₂, hq₂, hcomes.whole (inside_producing (.push v wait) rfl)⟩

/-- The rest of a push whose thread was roused. -/
theorem comes_resumePush (h : q.Loose) (hc : c.Alone (.atMost limit)) {v : α}
    (hup : (q.permits .produce).parker.isAsleep c.thread = false)
    (hin : (q.permits .produce).parker.sleepers.length < (q.permits .produce).parker.parked)
    (hw : (q.settled.resumePush c.thread v limit).1 ≠ some (.faulted .waitsForever)) :
    ∃ q₁, q₁.settled = (q.settled.resumePush c.thread v limit).2 ∧
      Comes (Point.step (.push v (.atMost limit)) c) (.more (.producing (.wait .asleep))) q
        ((q.settled.resumePush c.thread v limit).1.map Answer.ofPushed) q₁ := by
  obtain ⟨q₁, hq₁, hadmits⟩ := admits_roused (.value v) h hc hup hin
  have he : ((q.settled.readmitProducer c.thread limit).1, q₁.settled) =
      q.settled.readmitProducer c.thread limit := Prod.ext rfl hq₁
  rw [resumePush, ← he] at hw ⊢
  obtain ⟨q₂, hq₂, hcomes⟩ := comes_pushAfter (.atMost limit) hc.spurious hadmits hw
  exact ⟨q₂, hq₂, hcomes.whole (inside_producing (.push v (.atMost limit)) rfl)⟩

/-- **An emplace that nobody interrupts**, whose constructor makes no calls itself, ends as in a
settled run. -/
theorem comes_emplace (h : q.Loose) {wait : Wait} (hc : c.Alone wait) {fallible : Bool}
    {build : Build α}
    (hw : (emplaceAfter fallible build (q.settled.admitProducer c.thread wait)).1 ≠
      some (.faulted .waitsForever)) :
    ∃ q₁, q₁.settled =
        (emplaceAfter fallible build (q.settled.admitProducer c.thread wait)).2 ∧
      Comes (Point.step (.emplace wait fallible build) c)
        (.more (Call.emplace wait fallible build).first) q
        (emplaceAfter fallible build (q.settled.admitProducer c.thread wait)).1 q₁ := by
  obtain ⟨q₁, hq₁, hadmits⟩ := admits_producer wait (.construction fallible build) h hc
  rcases he : q.settled.admitProducer c.thread wait with ⟨a, q'⟩
  rw [he] at hq₁ hadmits hw
  obtain rfl := hq₁
  have hwhole := inside_producing (c := c) (.emplace wait fallible build) rfl
  match a, hadmits, hw with
  | none, hadmits, _ => exact ⟨q₁, rfl, hadmits.whole hwhole⟩
  | some (.error r), hadmits, _ => exact ⟨q₁, rfl, hadmits.whole hwhole⟩
  | some (.ok ()), hadmits, hw =>
    obtain ⟨hloose, hinside⟩ := hadmits
    obtain ⟨q₂, hq₂, hcomes⟩ := comes_construct hloose hc.spurious wait fallible
      fun hf => hw (congrArg some hf)
    exact ⟨q₂, hq₂, (hinside _ _ hcomes).whole hwhole⟩

/-- **A pop that nobody interrupts**, also one of an iteration, is the pop of a settled run. -/
theorem comes_pop (h : q.Loose) {call : Call α} (hf : call.first = .consuming (.look .load))
    (hc : c.Alone call.wait)
    (hw : (q.settled.pop c.thread call.wait).1 ≠ some (.faulted .waitsForever)) :
    ∃ q₁, q₁.settled = (q.settled.pop c.thread call.wait).2 ∧
      Comes (Point.step call c) (.more call.first) q
        ((q.settled.pop c.thread call.wait).1.map Answer.ofPopped) q₁ := by
  obtain ⟨q₁, hq₁, hadmits⟩ := admits_consumer call.wait h hc
  have he : ((q.settled.admitConsumer c.thread call.wait).1, q₁.settled) =
      q.settled.admitConsumer c.thread call.wait := Prod.ext rfl hq₁
  rw [pop, ← he] at hw ⊢
  obtain ⟨q₂, hq₂, hcomes⟩ := comes_popAfter call.wait hc.spurious hadmits hw
  rw [hf]
  exact ⟨q₂, hq₂, hcomes.whole (inside_consuming call)⟩

/-- The rest of a pop whose thread was roused. -/
theorem comes_resumePop (h : q.Loose) (hc : c.Alone (.atMost limit))
    (hup : (q.permits .consume).parker.isAsleep c.thread = false)
    (hin : (q.permits .consume).parker.sleepers.length < (q.permits .consume).parker.parked)
    (hw : (q.settled.resumePop c.thread limit).1 ≠ some (.faulted .waitsForever)) :
    ∃ q₁, q₁.settled = (q.settled.resumePop c.thread limit).2 ∧
      Comes (Point.step (.pop (.atMost limit)) c) (.more (.consuming (.wait .asleep))) q
        ((q.settled.resumePop c.thread limit).1.map Answer.ofPopped) q₁ := by
  obtain ⟨q₁, hq₁, hadmits⟩ := admits_rousedConsumer h hc hup hin
  have he : ((q.settled.readmitConsumer c.thread limit).1, q₁.settled) =
      q.settled.readmitConsumer c.thread limit := Prod.ext rfl hq₁
  rw [resumePop, ← he] at hw ⊢
  obtain ⟨q₂, hq₂, hcomes⟩ := comes_popAfter (.atMost limit) hc.spurious hadmits hw
  exact ⟨q₂, hq₂, hcomes.whole (inside_consuming (.pop (.atMost limit)))⟩

/-- What a call of `close` answers. -/
def Answer.ofClosed : Except Refusal Unit → Answer α
  | .ok () => .done
  | .error r => .refused r

/-- **A closing that nobody interrupts** is the closing of a settled run. -/
theorem comes_close (h : q.Loose) :
    ∃ q₁, q₁.settled = q.settled.close.2 ∧
      Comes (Point.step .close c) (.more (Call.close : Call α).first) q
        (some (.ofClosed q.settled.close.1)) q₁ := by
  have hinside : Inside (fun (p : Closing) (q : Queue α) => some (p.step q))
      (Point.step .close c) .closing .done id := inside_call fun _ _ => rfl
  by_cases ho : q.isOpen = true
  · let shut : Queue α := { q with isOpen := false }
    have hdone : q.settled.close =
        (.ok (), { shut.settled with gate := shut.settled.gate.wakeAll }) := if_pos ho
    have hswap : Closing.swap.step q = (.more (.wakeConsumers .bump), shut) := if_pos ho
    obtain ⟨q₁, hq₁, hloose, hconsumers⟩ := comes_woken (q := shut)
      (g := fun (p : Closing) (q : Queue α) => some (p.step q))
      (show ∀ w q, some (Closing.step (.wakeConsumers w) q) =
        some (stepWaking .consume true w q .wakeConsumers (.more (.wakeProducers .bump))) from
          fun _ _ => rfl) h
    obtain ⟨q₂, hq₂, -, hproducers⟩ := comes_woken (q := q₁)
      (g := fun (p : Closing) (q : Queue α) => some (p.step q))
      (show ∀ w q, some (Closing.step (.wakeProducers w) q) =
        some (stepWaking .produce true w q .wakeProducers (.done .done)) from
          fun _ _ => rfl) hloose
    rw [hdone]
    refine ⟨q₂, by rw [hq₂, hq₁]; rfl, Comes.whole hinside (p := .swap) ?_⟩
    exact .step (congrArg some hswap) (hconsumers (hproducers (.done _ _)))
  · have hdone : q.settled.close = (.error .alreadyClosed, q.settled) := if_neg ho
    have hswap : Closing.swap.step q = (.done (.refused .alreadyClosed), q) := if_neg ho
    rw [hdone]
    exact ⟨q, rfl, Comes.whole hinside (p := .swap) (.step (congrArg some hswap) (.done _ _))⟩

/-- **A look at the queue's stage of life that nobody interrupts** sees the stage. -/
theorem comes_state (q : Queue α) :
    Comes (Point.step .state c) (.more (Call.state : Call α).first) q (some (.state q.state))
      q := by
  have hinside : Inside (fun (p : Observing) (q : Queue α) => some (p.step q))
      (Point.step .state c) .observing .done id := inside_call fun _ _ => rfl
  refine Comes.whole hinside (p := .openFirst) ?_
  rw [state, isDrained]
  cases ho : q.isOpen with
  | true =>
    have hfirst : Observing.openFirst.step q = (.done (.state .opened), q) := by
      simp only [Observing.step, ho, if_true]
    exact .step (congrArg some hfirst) (.done _ _)
  | false =>
    have hfirst : Observing.openFirst.step q = (.more .openAgain, q) := by
      simp only [Observing.step, ho, Bool.false_eq_true, if_false]
    have hagain : Observing.openAgain.step q = (.more .pending, q) := by
      simp only [Observing.step, ho, Bool.false_eq_true, if_false]
    refine .step (congrArg some hfirst) (.step (congrArg some hagain) ?_)
    by_cases hp : q.pending = 0
    · have hpending : Observing.pending.step q = (.more .count, q) := by
        simp only [Observing.step, if_pos hp]
      refine .step (congrArg some hpending) (.step rfl ?_)
      simp only [hp, Bool.false_eq_true, if_false, Bool.not_false, beq_self_eq_true, Bool.true_and,
        beq_iff_eq]
      exact .done _ _
    · have hpending : Observing.pending.step q = (.done (.state .draining), q) := by
        simp only [Observing.step, if_neg hp]
      have hstate : (!false && q.pending == 0 && q.size == 0) = false := by simp [hp]
      rw [hstate]
      exact .step (congrArg some hpending) (.done _ _)

/-! ### Every call -/

/-- What a call comes to as one function. An iteration is taken pop by pop. -/
def Call.outcome (thread : Nat) : Call α → Queue α → Option (Answer α) × Queue α
  | .push v wait, q => ((q.push thread v wait).1.map .ofPushed, (q.push thread v wait).2)
  | .emplace wait fallible build, q => emplaceAfter fallible build (q.admitProducer thread wait)
  | .pop wait, q => ((q.pop thread wait).1.map .ofPopped, (q.pop thread wait).2)
  | .iter, q =>
    ((q.pop thread (.atMost .endless)).1.map .ofPopped, (q.pop thread (.atMost .endless)).2)
  | .close, q => (some (.ofClosed q.close.1), q.close.2)
  | .state, q => (some (.state q.state), q)

/-- **A call that nobody interrupts** comes to what its function says. -/
theorem comes_call (h : q.Loose) (call : Call α) (hc : c.Alone call.wait)
    (hw : (call.outcome c.thread q.settled).1 ≠ some (.faulted .waitsForever)) :
    ∃ q₁, q₁.settled = (call.outcome c.thread q.settled).2 ∧
      Comes (Point.step call c) (.more call.first) q (call.outcome c.thread q.settled).1 q₁ := by
  cases call with
  | push v wait =>
    exact comes_push h hc fun hf => hw (congrArg (Option.map Answer.ofPushed) hf)
  | emplace wait fallible build => exact comes_emplace h hc hw
  | pop wait => exact comes_pop h rfl hc fun hf => hw (congrArg (Option.map Answer.ofPopped) hf)
  | iter => exact comes_pop h rfl hc fun hf => hw (congrArg (Option.map Answer.ofPopped) hf)
  | close => exact comes_close h
  | state => exact ⟨q, rfl, comes_state q⟩

/-- The steps of a call, one after the other, are a run of the machine. -/
theorem Machine.exists_run_of_comes {call : Call α} {calls : List (Call α)} {p : Point α}
    {a : Answer α} {q₁ : Queue α} (h : Comes (Point.step call c) (.more p) q (some a) q₁)
    {ts : List (Thread α)} {t : Thread α} (ht : ts[c.thread]? = some t)
    (hcalls : t.calls = call :: calls) (hp : t.point.getD call.first = p) :
    ∃ ds, Run ⟨q, ts⟩ ds ⟨q₁, ts.set c.thread (t.after call calls (.done a))⟩ := by
  generalize hx : Progress.more p = x at h
  generalize ho : some a = o at h
  induction h generalizing p ts t with
  | done => cases hx
  | asleep => cases ho
  | @step p' q q' q₁ x o hstep hc ih =>
    obtain rfl := Progress.more.inj hx
    have hact : act? c ⟨q, ts⟩ =
        some (⟨c.thread, call, p, q, x⟩, ⟨q', ts.set c.thread (t.after call calls x)⟩) := by
      simp only [act?, ht, Option.bind_some, hcalls, hp, hstep, Option.map_some]
    have hfirst := Run.step c .refl hact
    have hlt : c.thread < ts.length := (List.getElem?_eq_some_iff.mp ht).1
    cases x with
    | done b =>
      cases hc
      cases ho
      exact ⟨_, hfirst⟩
    | more p' =>
      obtain ⟨ds, hrest⟩ := ih (List.getElem?_set_self hlt)
        (show (t.after call calls (.more p')).calls = call :: calls from hcalls) rfl rfl ho
      rw [List.set_set] at hrest
      exact ⟨_, hfirst.trans hrest⟩

/-- **There is an interleaving in which a call is not interrupted**, and there it comes to what its
function says. -/
theorem Machine.exists_run_of_outcome (h : q.Loose) {call : Call α} (hc : c.Alone call.wait)
    {a : Answer α} (ho : (call.outcome c.thread q.settled).1 = some a)
    (hw : a ≠ .faulted .waitsForever) {ts : List (Thread α)} {t : Thread α}
    {calls : List (Call α)} (ht : ts[c.thread]? = some t) (hcalls : t.calls = call :: calls)
    (hp : t.point = none) :
    ∃ q₁ ds, q₁.settled = (call.outcome c.thread q.settled).2 ∧
      Run ⟨q, ts⟩ ds ⟨q₁, ts.set c.thread (t.after call calls (.done a))⟩ := by
  obtain ⟨q₁, hq₁, hcomes⟩ := comes_call h call hc (ho ▸ fun hf => hw (Option.some.inj hf))
  rw [ho] at hcomes
  obtain ⟨ds, hr⟩ := exists_run_of_comes hcomes ht hcalls (by rw [hp, Option.getD_none])
  exact ⟨q₁, ds, hq₁, hr⟩

/-! ### The queue of a settled run -/

/-- Between the steps of a settled run nobody has been roused who has not left. -/
theorem Sound.settled (h : q.Sound) : q.settled = q := by
  have hproduce : q.gate.produce.settled = q.gate.produce :=
    congrArg (Permits.mk _) h.produce.settled
  have hconsume : q.gate.consume.settled = q.gate.consume :=
    congrArg (Permits.mk _) h.consume.settled
  rw [Queue.settled, hproduce, hconsume]
  rfl

theorem Sound.loose (h : q.Sound) (hp : ∀ x, (q.permits x).parker.parked + 1 < Word.size) :
    q.Loose := fun x => (h.side x).loose (hp x)

namespace Represents

variable {f : Fifo α}

/-- In a settled run no call finds a slot in the hands of somebody else. -/
theorem outcome_ne (h : q.Represents f) (hs : q.Sound)
    (hp : ∀ x, (q.permits x).parker.parked < Word.size) (thread : Nat) (call : Call α) :
    (call.outcome thread q).1 ≠ some (.faulted .waitsForever) := by
  have hpop : ∀ wait, ((q.pop thread wait).1.map Answer.ofPopped) ≠
      some (.faulted .waitsForever) := by
    intro wait
    rw [h.pop (hp .consume)]
    cases hi : f.items with
    | nil => cases hr : f.refusal? wait <;> simp [Answer.ofPopped]
    | cons v vs =>
      obtain ⟨q', he, -⟩ := h.popAfter_passes hs hi
      simp [he, Answer.ofPopped]
  cases call with
  | push v wait =>
    rw [Call.outcome, h.push (hp .produce)]
    cases ha : f.admission? wait with
    | none => simp
    | some r =>
      cases r with
      | error r => simp [Answer.ofPushed]
      | ok u =>
        obtain ⟨q', he, -⟩ := h.pushAfter_passes hs (Fifo.admission?_eq_ok ha).2 v
        simp [he, Answer.ofPushed]
  | emplace wait fallible build =>
    rw [Call.outcome, h.admitProducer (hp .produce)]
    cases ha : f.admission? wait with
    | none => simp [emplaceAfter]
    | some r =>
      cases r with
      | error r => cases fallible <;> simp [emplaceAfter, Answer.ofRefusal]
      | ok u =>
        have hres := h.reserved_passes hs (Fifo.admission?_eq_ok ha).2
        cases build with
        | built v =>
          obtain ⟨q', he, -⟩ := hres.represents.publish_passes hres.sound (Nat.succ_pos _) v
          simp [emplaceAfter, constructed, he, Pushed.ofPublished, Answer.ofPushed]
        | failed e | raised text => simp [emplaceAfter, constructed]
  | pop wait => exact hpop wait
  | iter => exact hpop (.atMost .endless)
  | close => cases he : q.close.1 <;> simp [Call.outcome, he, Answer.ofClosed]
  | state => simp [Call.outcome]

/-- **A call in a settled run** is its atomic steps, with nobody in between. -/
theorem comes_call (h : q.Represents f) (hs : q.Sound)
    (hp : ∀ x, (q.permits x).parker.parked + 1 < Word.size) (call : Call α)
    (hc : c.Alone call.wait) :
    ∃ q₁, q₁.settled = (call.outcome c.thread q).2 ∧
      Comes (Point.step call c) (.more call.first) q (call.outcome c.thread q).1 q₁ := by
  have hcomes := Queue.comes_call (hs.loose hp) call hc
  rw [hs.settled] at hcomes
  exact hcomes (h.outcome_ne hs (fun x => Nat.lt_of_succ_lt (hp x)) c.thread call)

end Represents

/-! ### Steps of a settled run -/

namespace Session

variable {s : Session α} {f : Fifo α} {x : Step α} {call : Call α}

/-- The call that a step makes, if it is all that the step does. -/
def Step.call? : Step α → Option (Call α)
  | .push v wait => some (.push v wait)
  | .pop wait => some (.pop wait)
  | .close => some .close
  | .emplace .. | .iter _ | .tryIter _ | .info | .outline | .elapse _ => none

/-- Where the call has no answer, the step answers that a thread sleeps in it. -/
theorem act_eq_outcome (name : String) (hx : x.call? = some call) (s : Session α) :
    (s.act name x).1 = (call.outcome s.nextThread s.queue).1.getD (.asleep s.nextThread) ∧
      (s.act name x).2.queue = (call.outcome s.nextThread s.queue).2 := by
  cases x with
  | push v wait =>
    obtain rfl := Option.some.inj hx
    rw [act, Call.outcome]
    rcases s.queue.push s.nextThread v wait with ⟨_ | r, q⟩ <;> exact ⟨rfl, rfl⟩
  | pop wait =>
    obtain rfl := Option.some.inj hx
    rw [act, Call.outcome]
    rcases s.queue.pop s.nextThread wait with ⟨_ | r, q⟩ <;> exact ⟨rfl, rfl⟩
  | close =>
    obtain rfl := Option.some.inj hx
    rw [act, Call.outcome]
    dsimp only [say]
    rcases s.queue.close with ⟨r | u, q⟩ <;> exact ⟨rfl, rfl⟩
  | emplace | iter | tryIter | info | outline | elapse => cases hx

/-- **A step of a settled run** is the atomic steps of its call, with nobody in between. -/
theorem Sound.comes_act (h : s.Sound f) (name : String) (hx : x.call? = some call)
    (hc : c.Alone call.wait) (ht : c.thread = s.nextThread) (hlt : s.nextThread < Word.size) :
    ∃ o q₁, q₁.settled = (s.act name x).2.queue ∧
      (s.act name x).1 = o.getD (.asleep s.nextThread) ∧
      Comes (Point.step call c) (.more call.first) s.queue o q₁ := by
  have hp : ∀ y, (s.queue.permits y).parker.parked + 1 < Word.size := by
    intro y
    have hle := h.parked_le y
    cases y <;> exact Nat.lt_of_le_of_lt (Nat.succ_le_succ hle) hlt
  obtain ⟨q₁, hq₁, hcomes⟩ := h.represents.comes_call h.queue hp call hc
  obtain ⟨hanswer, hqueue⟩ := act_eq_outcome name hx s
  rw [ht] at hq₁ hcomes
  exact ⟨_, q₁, hq₁.trans hqueue.symm, hanswer, hcomes⟩

end Session

end PermitRing.Queue
