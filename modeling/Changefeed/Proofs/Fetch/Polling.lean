import Changefeed.Proofs.Fetch.Output
import Changefeed.Proofs.Queue.Operations

/-!
# Polling a producer

Between a producer and its reader stands a queue, and the producer may be stopped by a full queue
at any record.  None of this can be seen from the reader's side: what is buffered, what waits for
room and what the producer goes on to make are together the *output* of a session, and as long as
the queue is open a poll takes a batch off its front or reports how it ends.
-/

namespace Changefeed

/-- How a queue ends once it is empty. -/
def EventQueue.outcome (q : EventQueue) : Finish :=
  match q.error with
  | some f => .fails f
  | none => if q.finished then .ends else .waits

namespace Work

/-- What is buffered and what will be, when the queue stays open. -/
def output (w : Work) (q : EventQueue) (sh : Shared) : Output :=
  match w with
  | .running p => (p.output sh).after q.buffer
  | .blocked r p => (p.output sh).after (q.buffer ++ [r])
  | .stopped => ⟨q.buffer, q.outcome, sh.source⟩

/-- The queue is open, has room for a record when it is empty, and has been ended by nobody but a
producer that has stopped. -/
structure Attached (w : Work) (q : EventQueue) : Prop where
  opened : q.closed = false
  roomy : q.settings.limit ≠ some 0
  sized : 1 ≤ q.settings.maxBatchSize
  unended : w = .stopped ∨ q.finished = false ∧ q.error = none

/-- There is nothing to do for the work as long as the queue is empty. -/
def Settled (w : Work) (q : EventQueue) (sh : Shared) : Prop :=
  q.buffer = [] → w.output q sh = ⟨[], q.outcome, sh.source⟩

lemma settled_stopped (q : EventQueue) (sh : Shared) : Settled .stopped q sh := fun hbuffer => by
  rw [output, hbuffer]

lemma hasRoom_of_empty {q : EventQueue} (h : q.settings.limit ≠ some 0) (hbuffer : q.buffer = [])
    (size : Nat) : q.hasRoom size = true := by
  unfold EventQueue.hasRoom
  cases hlimit : q.settings.limit with
  | none => rfl
  | some limit =>
    have hpos : limit ≠ 0 := fun h0 => h (by rw [hlimit, h0])
    simpa [hbuffer] using Nat.pos_of_ne_zero hpos

/-- What came of work that went on: the output is the same, the queue is still attached, and there
is nothing left to do on an empty one. -/
structure Resumed (w w' : Work) (q q' : EventQueue) (sh sh' : Shared) : Prop where
  output_eq : w'.output q' sh' = w.output q sh
  attached : w'.Attached q'
  settled : w'.Settled q' sh'

lemma output_failQueue {q : EventQueue} {f : Fault} (hopen : q.closed = false)
    (hfinished : q.finished = false) (herror : q.error = none) (sh : Shared) :
    output .stopped (failQueue q f) sh = ⟨q.buffer, .ofFault f, sh.source⟩ := by
  unfold failQueue Finish.ofFault
  split
  · simp [output, EventQueue.outcome, herror, hfinished]
  · rw [EventQueue.fail_of_open hopen]
    simp [output, EventQueue.outcome]

/-- A producer that stopped with a fault leaves the fault to the queue. -/
lemma resumed_failed {p : Producer} {q : EventQueue} {sh sh' : Shared} {f : Fault}
    (hq : Attached (.running p) q) (hstep : p.step sh = (.error f, sh')) :
    Resumed (.running p) .stopped q (failQueue q f) sh sh' := by
  obtain ⟨hfinished, herror⟩ := hq.unended.resolve_left (by simp)
  refine ⟨?_, ?_, settled_stopped _ _⟩
  · rw [output_failQueue hq.opened hfinished herror, output, Producer.output_fails hstep]
    simp [Output.after]
  · unfold failQueue
    split
    · exact ⟨hq.opened, hq.roomy, hq.sized, .inl rfl⟩
    · rw [EventQueue.fail_of_open hq.opened]
      exact ⟨hq.opened, hq.roomy, hq.sized, .inl rfl⟩

/-- A producer that works keeps the output. -/
lemma produce_resumed (p : Producer) (q : EventQueue) (sh : Shared)
    (hq : Attached (.running p) q) :
    Resumed (.running p) (produce p q sh).1 q (produce p q sh).2.1 sh (produce p q sh).2.2 := by
  fun_induction produce p q sh with
  | case1 p q sh f sh' hstep => exact resumed_failed hq hstep
  | case2 p q sh sh' hstep =>
    obtain ⟨hfinished, herror⟩ := hq.unended.resolve_left (by simp)
    refine ⟨?_, ⟨hq.opened, hq.roomy, hq.sized, .inl rfl⟩, settled_stopped _ _⟩
    rw [output, output, Producer.output_ends hstep]
    simp [Output.after, EventQueue.outcome, EventQueue.finish, herror]
  | case3 p q sh sh' hstep =>
    obtain ⟨hfinished, herror⟩ := hq.unended.resolve_left (by simp)
    obtain rfl := Producer.step_waits hstep
    refine ⟨rfl, hq, fun hbuffer => ?_⟩
    rw [output, Producer.output_waits hstep, hbuffer]
    simp [EventQueue.outcome, herror, hfinished]
  | case4 p q sh next sh' hstep ih =>
    have hnext : Attached (.running next) q :=
      ⟨hq.opened, hq.roomy, hq.sized, .inr (hq.unended.resolve_left (by simp))⟩
    obtain ⟨hout, hattached, hsettled⟩ := ih hnext
    refine ⟨hout.trans ?_, hattached, hsettled⟩
    rw [output, output, Producer.output_quiet hstep]
  | case5 p q sh r next sh' hstep f hoffer =>
    obtain ⟨hfinished, herror⟩ := hq.unended.resolve_left (by simp)
    have hoffered := q.offered r
    rw [hoffer] at hoffered
    cases hoffered with
    | ended h => simp [hq.opened, hfinished] at h
  | case6 p q sh r next sh' hstep hoffer =>
    have hoffered := q.offered r
    rw [hoffer] at hoffered
    cases hoffered with
    | full hclosed hfinished hroom =>
      refine ⟨?_, ⟨hq.opened, hq.roomy, hq.sized, .inr (hq.unended.resolve_left (by simp))⟩, ?_⟩
      · rw [output, output, Producer.output_push hstep, Output.after_after]
      · intro hbuffer
        rw [hasRoom_of_empty hq.roomy hbuffer] at hroom
        simp at hroom
  | case7 p q sh r next sh' hstep q' hoffer ih =>
    have hoffered := q.offered r
    rw [hoffer] at hoffered
    cases hoffered with
    | accepted hclosed hfinished hroom =>
      have hnext : Attached (.running next) (q.push r) :=
        ⟨hq.opened, hq.roomy, hq.sized, .inr (hq.unended.resolve_left (by simp))⟩
      obtain ⟨hout, hattached, hsettled⟩ := ih hnext
      refine ⟨hout.trans ?_, hattached, hsettled⟩
      rw [output, output, Producer.output_push hstep, Output.after_after,
        EventQueue.push_buffer]

/-- Work that goes on keeps the output. -/
lemma resume_resumed (w : Work) (q : EventQueue) (sh : Shared) (hq : w.Attached q) :
    Resumed w (w.resume q sh).1 q (w.resume q sh).2.1 sh (w.resume q sh).2.2 := by
  cases w with
  | running p => exact produce_resumed p q sh hq
  | stopped => exact ⟨rfl, hq, settled_stopped _ _⟩
  | blocked r p =>
    have hended := hq.unended.resolve_left (by simp)
    have hoffered := q.offered r
    unfold resume
    dsimp only
    cases hoffer : q.offer r with
    | error f =>
      rw [hoffer] at hoffered
      cases hoffered with
      | ended h => simp [hq.opened, hended.1] at h
    | ok o =>
      rw [hoffer] at hoffered
      cases hoffered with
      | full hclosed hfinished hroom =>
        refine ⟨rfl, hq, fun hbuffer => ?_⟩
        rw [hasRoom_of_empty hq.roomy hbuffer] at hroom
        simp at hroom
      | accepted hclosed hfinished hroom =>
        have hnext : Attached (.running p) (q.push r) :=
          ⟨hq.opened, hq.roomy, hq.sized, .inr hended⟩
        obtain ⟨hout, hattached, hsettled⟩ := produce_resumed p (q.push r) sh hnext
        refine ⟨hout.trans ?_, hattached, hsettled⟩
        rw [output, output, EventQueue.push_buffer]

lemma settled_of_take {w : Work} {q q' : EventQueue} {p : Polled} (hq : w.Attached q)
    (h : q.take = (some p, q')) (sh : Shared) : w.Settled q sh := by
  intro hbuffer
  rcases hq.unended with rfl | ⟨hfinished, herror⟩
  · exact settled_stopped q sh hbuffer
  · have hnone : q.take = (none, q) := by
      simp [EventQueue.take, hq.opened, hbuffer, hfinished, herror]
    rw [hnone] at h
    simp at h

lemma output_congr (w : Work) (q : EventQueue) {sh sh' : Shared} (h : sh.source = sh'.source) :
    w.output q sh = w.output q sh' := by
  have hp : ∀ p : Producer, p.output sh = p.output sh' := fun p => Producer.output_congr h
  unfold output
  cases w <;> simp only [hp, h]

end Work

namespace Session

/-- What the session goes on to deliver to its reader. -/
def output (s : Session) (sh : Shared) : Output := s.work.output s.queue sh

lemma output_congr (s : Session) {sh sh' : Shared} (h : sh.source = sh'.source) :
    s.output sh = s.output sh' :=
  s.work.output_congr s.queue h

/-- Counting beside a session does not change its output. -/
lemma output_metrics (s : Session) (sh : Shared) (m : Metrics) :
    s.output { sh with metrics := m } = s.output sh :=
  output_congr s rfl

/-- The queue of the session is open and belongs to its work. -/
def Attached (s : Session) : Prop := s.work.Attached s.queue

/-- What a poll gives, and the session after it. -/
inductive Polls (s : Session) (sh : Shared) : Option Polled → Session → Shared → Prop where
  | records {s' : Session} {sh' : Shared} {rs : List QueueRecord} (hrs : rs ≠ [])
      (hattached : s'.Attached) (hreader : s'.reader = s.reader)
      (hout : (s'.output sh').after rs = s.output sh) : Polls s sh (some (.records rs)) s' sh'
  | nothing {s' : Session} {sh' : Shared} (hattached : s'.Attached) (hreader : s'.reader = s.reader)
      (hout : s.output sh = ⟨[], .waits, sh'.source⟩) : Polls s sh none s' sh'
  | ended {s' : Session} {sh' : Shared} (hattached : s'.Attached) (hreader : s'.reader = s.reader)
      (hout : s.output sh = ⟨[], .ends, sh'.source⟩) : Polls s sh (some .ended) s' sh'
  | failed {s' : Session} {sh' : Shared} {f : Fault} (hreader : s'.reader = s.reader)
      (hout : s.output sh = ⟨[], .fails f, sh'.source⟩) : Polls s sh (some (.failed f)) s' sh'

/-- A batch that is taken comes off the front of the output. -/
lemma output_dropBatch (w : Work) (q : EventQueue) (sh : Shared) :
    (w.output q.dropBatch sh).after q.batch = w.output q sh := by
  cases w with
  | running p => simp [Work.output, EventQueue.batch]
  | blocked r p => simp [Work.output, ← List.append_assoc, EventQueue.batch]
  | stopped =>
    have houtcome : q.dropBatch.outcome = q.outcome := rfl
    simp [Work.output, Output.after, EventQueue.batch, houtcome]

/-- Taking from a settled queue gives what a poll may give. -/
lemma take_polls {s₀ s : Session} {sh₀ sh : Shared} (hattached : s.Attached)
    (hreader : s.reader = s₀.reader) (hout : s.output sh = s₀.output sh₀)
    (hsettled : s.work.Settled s.queue sh) :
    Polls s₀ sh₀ s.queue.take.1 { s with queue := s.queue.take.2 } sh := by
  have hopen := hattached.opened
  have htaken := s.queue.taken
  generalize s.queue.take.1 = polled, s.queue.take.2 = queue at htaken ⊢
  cases htaken with
  | closed h => simp [hopen] at h
  | records hclosed hbuffer =>
    refine .records (EventQueue.batch_ne_nil hattached.sized hbuffer)
      ⟨hattached.opened, hattached.roomy, hattached.sized, hattached.unended⟩ hreader ?_
    exact (output_dropBatch ..).trans hout
  | failed hclosed hbuffer herror =>
    refine .failed hreader ?_
    rw [← hout, output, hsettled hbuffer]
    simp [EventQueue.outcome, herror]
  | finished hclosed hbuffer herror hfinished =>
    refine .ended hattached hreader ?_
    rw [← hout, output, hsettled hbuffer]
    simp [EventQueue.outcome, herror, hfinished]
  | nothing hclosed hbuffer herror hfinished =>
    refine .nothing hattached hreader ?_
    rw [← hout, output, hsettled hbuffer]
    simp [EventQueue.outcome, herror, hfinished]

/-- A poll takes a batch off the front of the output or reports how the output ends. -/
lemma poll_polls (s : Session) (sh : Shared) (h : s.Attached) :
    Polls s sh (s.poll sh).1 (s.poll sh).2.1 (s.poll sh).2.2 := by
  unfold poll
  cases htake : s.queue.take with
  | mk polled queue =>
    cases polled with
    | some p =>
      have hpolls := take_polls h rfl rfl (Work.settled_of_take h htake sh)
      rwa [htake] at hpolls
    | none =>
      obtain ⟨rfl, -⟩ := take_none htake
      obtain ⟨hout, hattached, hsettled⟩ := Work.resume_resumed s.work s.queue sh h
      exact take_polls (s := { s with work := _, queue := _ }) hattached rfl hout hsettled

lemma Attached.polls {s : Session} (h : s.Attached) {p : Option Polled} {s' : Session}
    {sh sh' : Shared} (hpoll : s.poll sh = (p, s', sh')) : Polls s sh p s' sh' := by
  have hpolls := poll_polls s sh h
  rwa [hpoll] at hpolls

end Session
end Changefeed
