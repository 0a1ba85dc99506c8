import Changefeed.Proofs.Queue.Operations

/-!
# Queues used from several places at once

A call of the queue is a sequence of sections that nothing can come between: it looks at the queue
and ends or begins to wait, and each time it was woken it looks again.  A `Move` is one such
section.  Calls that wait may be withdrawn, and calls that were woken try again in any order, so
the lists of moves are all interleavings of all calls.

A `Ledger` keeps account beside the queue: which records were accepted, which batches were polled
and whether a poll has come to the end.  The account is taken from what the calls report and not
from the queue.
-/

namespace Changefeed

/-- A section of a call that nothing can come between. -/
inductive Move where
  /-- A push that does not wait. -/
  | offer (r : QueueRecord)
  /-- A poll that does not wait. -/
  | look
  | startPush (r : QueueRecord)
  | startPoll
  /-- The call at this place of those that were woken tries again. -/
  | retry (place : Nat)
  /-- The polls whose deadline has come give up. -/
  | expire
  /-- The deadline of a poll has come, and it polls anew. -/
  | pollAnew (number : Nat)
  | withdrawPush (number : Nat)
  | withdrawPoll (number : Nat)
  | finish
  | fail (f : Fault)
  | close
  | pass (ms : Nat)

/-- The move neither ends the queue for its producer nor closes it. -/
def Move.Ordinary : Move → Prop
  | .finish | .fail _ | .close => False
  | _ => True

/-- What a call reports to its caller in one section. -/
inductive Report where
  | nothing
  | accepted (r : QueueRecord)
  | polled (p : Polled)

namespace Exchange

/-- What a push reports when it looks at the queue. -/
def pushReport (x : Exchange) (r : QueueRecord) : Report :=
  match (x.tryPush r).1 with
  | .ok true => .accepted r
  | .ok false | .error _ => .nothing

/-- What a poll reports when it looks at the queue. -/
def pollReport (x : Exchange) : Report :=
  match x.tryPoll.1 with
  | some p => .polled p
  | none => .nothing

/-- What a call reports when it tries again. -/
def wokenReport (x : Exchange) : Woken → Report
  | .push w => x.pushReport w.record
  | .poll _ => x.pollReport

/-- A poll that waits starts to wait anew, unless it finds something. -/
def renewPoll (x : Exchange) (w : WaitingPoll) : Exchange :=
  { x with polls := x.polls.filter fun v => v.number ≠ w.number }.attemptPoll
    { w with deadline := x.now + x.queue.settings.pollIntervalMs }

/-- One move: what the caller learns, and what it leaves. -/
def act (x : Exchange) : Move → Report × Exchange
  | .offer r => (x.pushReport r, (x.tryPush r).2)
  | .look => (x.pollReport, x.tryPoll.2)
  | .startPush r => (x.pushReport r, x.startPush r)
  | .startPoll => (x.pollReport, x.startPoll)
  | .retry place =>
    match x.woken[place]? with
    | none => (.nothing, x)
    | some w => (x.wokenReport w, { x with woken := x.woken.eraseIdx place }.resume w)
  | .expire => (.nothing, x.expirePolls)
  | .pollAnew number =>
    match x.polls.find? (·.number = number) with
    | none => (.nothing, x)
    | some w => (x.pollReport, x.renewPoll w)
  | .withdrawPush number => (.nothing, x.withdrawPush number)
  | .withdrawPoll number => (.nothing, x.withdrawPoll number)
  | .finish => (.nothing, x.finish)
  | .fail f => (.nothing, x.fail f)
  | .close => (.nothing, x.close)
  | .pass ms => (.nothing, { x with now := x.now + ms })

end Exchange

/-- A queue with an account of what its callers were told. -/
structure Ledger where
  exchange : Exchange
  /-- The records whose push reported success, in that order. -/
  accepted : List QueueRecord := []
  /-- The batches that polls returned, in that order. -/
  batches : List (List QueueRecord) := []
  /-- A poll has returned the end or the fault of the producer. -/
  ended : Bool := false

namespace Ledger

/-- A new queue. -/
def start (settings : QueueSettings) (gauges : Option QueueGauges) : Ledger :=
  { exchange := { queue := { settings, gauges } } }

/-- The account of a report. -/
def enter (l : Ledger) : Report → Ledger
  | .nothing => l
  | .accepted r => { l with accepted := l.accepted ++ [r] }
  | .polled (.records rs) => { l with batches := l.batches ++ [rs] }
  | .polled .ended | .polled (.failed _) => { l with ended := true }

/-- The ledger after a move. -/
def step (l : Ledger) (m : Move) : Ledger :=
  { l.enter (l.exchange.act m).1 with exchange := (l.exchange.act m).2 }

/-- The ledger after moves. -/
def run (l : Ledger) (moves : List Move) : Ledger := moves.foldl step l

/-- The records that polls returned, in order. -/
def delivered (l : Ledger) : List QueueRecord := l.batches.flatten

/-- The queue. -/
def queue (l : Ledger) : EventQueue := l.exchange.queue

end Ledger

/-! ## What a move does to the queue

Whatever waits and is woken, one move does at most one thing to the queue itself.
-/

/-- The effect of one move on a queue, with its report, while nobody ends or closes it. -/
inductive EventQueue.Served (q : EventQueue) : Report → EventQueue → Prop where
  | kept : Served q .nothing q
  | blocked : Served q .nothing q.reportBlocked
  | accepted {r : QueueRecord} (hclosed : q.closed = false) (hfinished : q.finished = false)
      (hroom : q.hasRoom r.size = true) : Served q (.accepted r) (q.push r)
  | polled {p : Polled} {q' : EventQueue} (h : q.Taken (some p) q') : Served q (.polled p) q'

/-- The effect of one move on a queue, with its report, unless it closes the queue. -/
inductive EventQueue.Moved (q : EventQueue) : Report → EventQueue → Prop where
  | kept : Moved q .nothing q
  | blocked : Moved q .nothing q.reportBlocked
  | accepted {r : QueueRecord} (hclosed : q.closed = false) (hfinished : q.finished = false)
      (hroom : q.hasRoom r.size = true) : Moved q (.accepted r) (q.push r)
  | polled {p : Polled} {q' : EventQueue} (h : q.Taken (some p) q') : Moved q (.polled p) q'
  | finished : Moved q .nothing q.finish
  | failed {f : Fault} (h : q.closed = false) : Moved q .nothing (q.fail f)

lemma EventQueue.Served.moved {q q' : EventQueue} {report : Report} (h : q.Served report q') :
    q.Moved report q' := by
  cases h with
  | kept => exact .kept
  | blocked => exact .blocked
  | accepted hclosed hfinished hroom => exact .accepted hclosed hfinished hroom
  | polled htaken => exact .polled htaken

lemma EventQueue.Moved.closed_eq {q q' : EventQueue} {report : Report}
    (h : q.Moved report q') : q'.closed = q.closed := by
  cases h with
  | kept => rfl
  | blocked => rfl
  | accepted => rfl
  | polled htaken => cases htaken <;> rfl
  | finished => rfl
  | failed hclosed => rw [fail_of_open hclosed]

namespace Exchange

variable {x : Exchange}

@[simp] theorem wakePushes_queue (x : Exchange) : x.wakePushes.queue = x.queue := rfl

@[simp] theorem wakePolls_queue (x : Exchange) : x.wakePolls.queue = x.queue := rfl

@[simp] lemma endPush_queue (x : Exchange) (number : Nat) (result : Outcome Unit) :
    (x.endPush number result).queue = x.queue := rfl

@[simp] lemma endPoll_queue (x : Exchange) (number : Nat) (result : Polled) :
    (x.endPoll number result).queue = x.queue := rfl

@[simp] lemma expirePolls_queue (x : Exchange) : x.expirePolls.queue = x.queue := by
  have hfold : ∀ (late : List WaitingPoll) (y : Exchange),
      (late.foldl (fun x w => x.endPoll w.number (.records [])) y).queue = y.queue := by
    intro late
    induction late with
    | nil => intro y; rfl
    | cons w rest ih => intro y; rw [List.foldl_cons, ih, endPoll_queue]
  unfold expirePolls
  exact hfold _ _

lemma pollReport_congr {y : Exchange} (h : y.queue = x.queue) : y.pollReport = x.pollReport := by
  unfold pollReport tryPoll
  rw [h]
  rcases x.queue.take with ⟨_ | _ | _ | _, _⟩ <;> rfl

lemma served_tryPush (x : Exchange) (r : QueueRecord) :
    x.queue.Served (x.pushReport r) (x.tryPush r).2.queue := by
  have h := x.queue.offered r
  unfold pushReport tryPush
  generalize x.queue.offer r = o at h
  cases h with
  | ended => exact .kept
  | full => exact .kept
  | accepted hclosed hfinished hroom => exact .accepted hclosed hfinished hroom

/-- A poll that does not wait takes what there is. -/
lemma served_tryPoll (x : Exchange) : x.queue.Served x.pollReport x.tryPoll.2.queue := by
  have h := x.queue.taken
  unfold pollReport tryPoll
  generalize x.queue.take = t at h
  obtain ⟨p, q⟩ := t
  cases h with
  | closed hclosed => exact .polled (.closed hclosed)
  | records hclosed hbuffer => exact .polled (.records hclosed hbuffer)
  | failed hclosed hbuffer herror => exact .polled (.failed hclosed hbuffer herror)
  | finished hclosed hbuffer herror hfinished =>
    exact .polled (.finished hclosed hbuffer herror hfinished)
  | nothing => exact .kept

/-- A push that looks at the queue is accepted or leaves it alone, but for counting that it waits.
-/
lemma served_attemptPush (x y : Exchange) (hy : y.queue = x.queue) (w : WaitingPush)
    (waited : Bool) : x.queue.Served (x.pushReport w.record) (y.attemptPush w waited).queue := by
  have h := x.queue.offered w.record
  unfold attemptPush pushReport tryPush
  rw [hy]
  generalize x.queue.offer w.record = o at h
  cases h with
  | ended =>
    simp only [endPush_queue, hy]
    exact .kept
  | full =>
    cases waited with
    | true =>
      simp only [if_true, hy]
      exact .kept
    | false =>
      simp only [Bool.false_eq_true, if_false, hy]
      exact .blocked
  | accepted hclosed hfinished hroom => exact .accepted hclosed hfinished hroom

lemma served_attemptPoll (x y : Exchange) (hy : y.queue = x.queue) (w : WaitingPoll) :
    x.queue.Served x.pollReport (y.attemptPoll w).queue := by
  have hq : (y.attemptPoll w).queue = y.tryPoll.2.queue := by
    unfold attemptPoll
    rcases y.tryPoll with ⟨_ | p, z⟩ <;> rfl
  rw [hq, ← pollReport_congr hy, ← hy]
  exact served_tryPoll y

/-- A move that neither ends nor closes the queue serves a call, or does nothing to it. -/
lemma served_act (x : Exchange) {m : Move} (hm : m.Ordinary) :
    x.queue.Served (x.act m).1 (x.act m).2.queue := by
  cases m with
  | offer r => exact served_tryPush x r
  | look => exact served_tryPoll x
  | startPush r =>
    simp only [act, startPush]
    exact served_attemptPush x _ (by rfl) ⟨x.started, r⟩ false
  | startPoll =>
    simp only [act, startPoll, expirePolls_queue]
    exact served_attemptPoll x _ (by rfl) _
  | retry place =>
    simp only [act, resume]
    split
    · exact .kept
    · next w _ =>
      cases w with
      | push w => exact served_attemptPush x _ (by rfl) w true
      | poll w => exact served_attemptPoll x _ (by rfl) w
  | expire =>
    simp only [act, expirePolls_queue]
    exact .kept
  | pollAnew number =>
    simp only [act, renewPoll]
    split
    · exact .kept
    · exact served_attemptPoll x _ (by rfl) _
  | withdrawPush number => exact .kept
  | withdrawPoll number => exact .kept
  | finish => exact hm.elim
  | fail f => exact hm.elim
  | close => exact hm.elim
  | pass ms => exact .kept

/-- A move that does not close the queue does one of the listed things to it. -/
lemma moved_act (x : Exchange) {m : Move} (hm : m ≠ .close) :
    x.queue.Moved (x.act m).1 (x.act m).2.queue := by
  by_cases hordinary : m.Ordinary
  · exact (x.served_act hordinary).moved
  · cases m with
    | finish => exact .finished
    | fail f =>
      simp only [act, fail]
      split
      · exact .kept
      · next h => exact .failed (by simpa using h)
    | close => exact absurd rfl hm
    | offer | look | startPush | startPoll | retry | expire | pollAnew | withdrawPush | withdrawPoll
    | pass => exact absurd trivial hordinary

end Exchange

namespace Ledger

variable {l : Ledger} {m : Move}

lemma moved_step (l : Ledger) (hm : m ≠ .close) :
    ∃ report, l.queue.Moved report (l.step m).queue ∧
      (l.step m).accepted = (l.enter report).accepted ∧
      (l.step m).batches = (l.enter report).batches ∧
      (l.step m).ended = (l.enter report).ended :=
  ⟨_, l.exchange.moved_act hm, rfl, rfl, rfl⟩

lemma run_induction {P : Ledger → Prop} (hstep : ∀ l m, P l → P (l.step m)) (h : P l)
    (moves : List Move) : P (l.run moves) := by
  induction moves generalizing l with
  | nil => exact h
  | cons m rest ih => exact ih (hstep l m h)

lemma run_closed {moves : List Move} (h : Move.close ∉ moves) :
    (l.run moves).queue.closed = l.queue.closed := by
  induction moves generalizing l with
  | nil => rfl
  | cons m rest ih =>
    obtain ⟨hm, hrest⟩ : Move.close ≠ m ∧ Move.close ∉ rest := by simpa using h
    obtain ⟨_, hmoved, -⟩ := l.moved_step (Ne.symm hm)
    calc
      (l.run (m :: rest)).queue.closed = (l.step m).queue.closed := ih hrest
      _ = l.queue.closed := hmoved.closed_eq

end Ledger

/-! ## The scheduling of an exchange

An exchange that is left alone goes on in one of the possible orders.
-/

namespace Exchange

/-- The exchange after moves. -/
def after (x : Exchange) (moves : List Move) : Exchange := moves.foldl (fun x m => (x.act m).2) x

lemma resumeAll_eq_after (x : Exchange) : ∃ moves, x.resumeAll = x.after moves := by
  fun_induction resumeAll x with
  | case1 x _ => exact ⟨[], rfl⟩
  | case2 x w rest hwoken ih =>
    obtain ⟨moves, hmoves⟩ := ih
    refine ⟨.retry 0 :: moves, ?_⟩
    have hfirst : (x.act (.retry 0)).2 = { x with woken := rest }.resume w := by
      simp [act, hwoken]
    rw [hmoves, after, after, List.foldl_cons, hfirst]

lemma settle_eq_after (x : Exchange) : ∃ moves, x.settle = x.after moves := by
  obtain ⟨moves, hmoves⟩ := x.resumeAll_eq_after
  refine ⟨moves ++ [.expire], ?_⟩
  rw [settle, hmoves, after, after, List.foldl_append]
  rfl

/-- Letting time pass is a sequence of moves. -/
theorem wait_eq_after (x : Exchange) (ms : Nat) : ∃ moves, x.wait ms = x.after moves := by
  obtain ⟨moves, hmoves⟩ := settle_eq_after { x with now := x.now + ms }
  exact ⟨.pass ms :: moves, hmoves⟩

end Exchange
end Changefeed
