import Changefeed.Fetch.Producer
import Changefeed.Fetch.Reader

/-!
# Producer and reader at work

A session joins a producer and a reader by a queue.  The reader has the first turn: the producer
works only when the reader finds nothing, and then until it has no room, nothing to read or nothing
left to do.  When the reader still finds nothing after that, it is idle, and will stay so.
-/

namespace Changefeed

/-- What has become of a producer. -/
inductive Work where
  | running (p : Producer)
  /-- A record waits for room. -/
  | blocked (r : QueueRecord) (p : Producer)
  | stopped

namespace Work

/-- The queue after the producer's failure.  One that found the queue closed stops silently. -/
def failQueue (q : EventQueue) (f : Fault) : EventQueue :=
  if f = .queueClosed then q else q.fail f

/-- A producer works as long as it can. -/
def produce (p : Producer) (q : EventQueue) (sh : Shared) : Work × EventQueue × Shared :=
  match _h : p.step sh with
  | (.error f, sh) => (.stopped, failQueue q f, sh)
  | (.ok .ends, sh) => (.stopped, q.finish, sh)
  | (.ok .waits, sh) => (.running p, q, sh)
  | (.ok (.quiet next), sh) => produce next q sh
  | (.ok (.push r next), sh) =>
    match q.offer r with
    | .error _ => (.stopped, q, sh)
    | .ok none => (.blocked r next, q, sh)
    | .ok (some q) => produce next q sh
termination_by (p.phase, p.left)
decreasing_by
  all_goals
    rcases Producer.step_less _h rfl with h | ⟨h, h'⟩
    · exact .left _ _ h
    · rw [h]; exact .right _ h'

/-- Work goes on as long as it can. -/
def resume (w : Work) (q : EventQueue) (sh : Shared) : Work × EventQueue × Shared :=
  match w with
  | .running p => produce p q sh
  | .blocked r p =>
    match q.offer r with
    | .error _ => (.stopped, q, sh)
    | .ok none => (.blocked r p, q, sh)
    | .ok (some q) => produce p q sh
  | .stopped => (.stopped, q, sh)

/-! ## Work that fills the queue leaves less to do -/

/-- The phases left. -/
def phase : Work → Nat
  | .running p | .blocked _ p => p.phase
  | .stopped => 0

/-- The records left in the phase, a blocked one counting as half a record more. -/
def left : Work → Nat
  | .running p => 2 * p.left
  | .blocked _ p => 2 * p.left + 1
  | .stopped => 0

/-- The first work has less to do than the second one. -/
def Less (v w : Work) : Prop := v.phase < w.phase ∨ v.phase = w.phase ∧ v.left < w.left

/-- The first work has no more to do than the second one. -/
def NotMore (v w : Work) : Prop := v.phase < w.phase ∨ v.phase = w.phase ∧ v.left ≤ w.left

/-- Work that has stopped has nothing to do. -/
theorem stopped_notMore (w : Work) : NotMore .stopped w := by
  simp only [NotMore, phase, left]
  omega

/-- A failure leaves the records in the queue. -/
theorem buffer_failQueue (q : EventQueue) (f : Fault) : (failQueue q f).buffer = q.buffer := by
  unfold failQueue EventQueue.fail
  split
  · rfl
  · split <;> rfl

/-- A producer that works has no more to do afterwards, and less when the queue has changed. -/
theorem produce_less (p : Producer) (q : EventQueue) (sh : Shared) :
    NotMore (produce p q sh).1 (.running p) ∧
      ((produce p q sh).2.1.buffer = q.buffer ∨ Less (produce p q sh).1 (.running p)) := by
  fun_induction produce p q sh with
  | case1 => exact ⟨stopped_notMore _, .inl (buffer_failQueue _ _)⟩
  | case2 => exact ⟨stopped_notMore _, .inl rfl⟩
  | case3 => exact ⟨.inr ⟨rfl, Nat.le_refl _⟩, .inl rfl⟩
  | case4 _ _ _ _ _ h ih =>
    have hs := Producer.step_less h rfl
    simp only [NotMore, Less, Producer.Less, phase, left] at *
    omega
  | case5 => exact ⟨stopped_notMore _, .inl rfl⟩
  | case6 _ _ _ _ _ _ h =>
    have hs := Producer.step_less h rfl
    simp only [NotMore, Less, Producer.Less, phase, left] at *
    omega
  | case7 _ _ _ _ _ _ h _ _ ih =>
    have hs := Producer.step_less h rfl
    simp only [NotMore, Less, Producer.Less, phase, left] at *
    omega

/-- Work that goes on has no more to do afterwards, and less when the queue has changed. -/
theorem resume_less (w : Work) (q : EventQueue) (sh : Shared) :
    NotMore (w.resume q sh).1 w ∧
      ((w.resume q sh).2.1.buffer = q.buffer ∨ Less (w.resume q sh).1 w) := by
  cases w with
  | running p => exact produce_less p q sh
  | blocked r p =>
    unfold resume
    dsimp only
    split
    · exact ⟨stopped_notMore _, .inl rfl⟩
    · exact ⟨.inr ⟨rfl, Nat.le_refl _⟩, .inl rfl⟩
    · next q' _ =>
      have := (produce_less p q' sh).1
      simp only [NotMore, Less, phase, left] at *
      omega
  | stopped => exact ⟨stopped_notMore _, .inl rfl⟩

end Work

/-- A producer, a queue and a reader. -/
structure Session where
  work : Work
  queue : EventQueue
  reader : Reader

/-- What the reader of a split gets. -/
inductive Batch where
  /-- Events, or none when nothing but the position moved on. -/
  | events (es : List ChangeEvent)
  /-- The poll interval went by. -/
  | idle
  | ended
  | failed (f : Fault)

namespace Session

/-- Polls the queue, letting the producer work when there is nothing; `none` when there is nothing
even then. -/
def poll (s : Session) (sh : Shared) : Option Polled × Session × Shared :=
  match s.queue.take with
  | (some p, queue) => (some p, { s with queue }, sh)
  | (none, queue) =>
    let (work, queue, sh) := s.work.resume queue sh
    let (polled, queue) := queue.take
    (polled, { s with work, queue }, sh)

/-! ## Every record taken leaves less to do -/

/-- Records that are taken leave the queue shorter. -/
theorem take_records {q q' : EventQueue} {rs : List QueueRecord}
    (h : q.take = (some (.records rs), q')) (hrs : rs ≠ []) :
    q.buffer ≠ [] ∧ q'.buffer.length < q.buffer.length := by
  unfold EventQueue.take at h
  split at h
  · simp at h
  · split at h
    · split at h
      · simp at h
      · split at h <;> simp at h
    · next hb =>
      simp only [Prod.mk.injEq, Option.some.injEq, Polled.records.injEq] at h
      obtain ⟨rfl, rfl⟩ := h
      have hne : q.buffer ≠ [] := by simpa using hb
      refine ⟨hne, ?_⟩
      simp only [ne_eq, List.take_eq_nil_iff, not_or] at hrs
      have := List.length_pos_iff.mpr hne
      simp only [EventQueue.report, List.length_drop]
      omega

/-- When there is nothing to take, the queue is empty. -/
theorem take_none {q q' : EventQueue} (h : q.take = (none, q')) : q' = q ∧ q.buffer = [] := by
  unfold EventQueue.take at h
  split at h
  · simp at h
  · split at h
    · next hb =>
      split at h
      · simp at h
      · split at h
        · simp at h
        · simp only [Prod.mk.injEq, true_and] at h
          exact ⟨h.symm, by simpa using hb⟩
    · simp at h

/-- The work left: phases, records in the phase, records in the queue, events to be delivered. -/
def toDo (s : Session) : Nat × Nat × Nat × Nat :=
  (s.work.phase, s.work.left, s.queue.buffer.length, s.reader.pending.length)

/-- The first session has less to do than the second one, whatever events are pending. -/
def Less (s t : Session) : Prop :=
  s.work.Less t.work ∨ s.work.phase = t.work.phase ∧ s.work.left = t.work.left ∧
    s.queue.buffer.length < t.queue.buffer.length

/-- A poll that gives records leaves less to do. -/
theorem poll_less {s s' : Session} {sh sh' : Shared} {rs : List QueueRecord}
    (h : s.poll sh = (some (.records rs), s', sh')) (hrs : rs ≠ []) : s'.Less s := by
  unfold poll at h
  split at h
  · next htake =>
    simp only [Prod.mk.injEq, Option.some.injEq] at h
    obtain ⟨rfl, rfl, -⟩ := h
    exact .inr ⟨rfl, rfl, (take_records htake hrs).2⟩
  · next htake =>
    obtain ⟨rfl, hempty⟩ := take_none htake
    simp only [Prod.mk.injEq] at h
    obtain ⟨hpolled, rfl, -⟩ := h
    have hfull := (take_records (Prod.ext hpolled rfl) hrs).1
    have hwork := (Work.resume_less s.work s.queue sh).2
    rw [hempty] at hwork
    exact .inl (hwork.resolve_left hfull)

/-- A session with less to do comes first in the order of the work left. -/
theorem lex_of_less {s t : Session} (h : s.Less t) :
    Prod.Lex (· < ·) (Prod.Lex (· < ·) (Prod.Lex (· < ·) (· < ·))) s.toDo t.toDo := by
  rcases h with (h | ⟨h, h'⟩) | ⟨h, h', h''⟩
  · exact .left _ _ h
  · simp only [toDo, h]
    exact .right _ (.left _ _ h')
  · simp only [toDo, h, h']
    exact .right _ (.right _ (.left _ _ h''))

/-! ## Batches -/

/-- Delivers events. -/
def deliver (s : Session) (sh : Shared) (batch : List ChangeEvent) : Batch × Session × Shared :=
  (.events batch, s, { sh with metrics := Reader.countBatch sh.metrics batch })

/-- Delivers events that are pending. -/
def deliverPending (s : Session) (sh : Shared) : Batch × Session × Shared :=
  let (batch, reader) := s.reader.takePending
  { s with reader }.deliver sh batch

/-- Fails the split. -/
def failWith (s : Session) (sh : Shared) (f : Fault) : Batch × Session × Shared :=
  let (reader, metrics) := s.reader.fail sh.metrics
  (.failed f, { s with reader }, { sh with metrics })

/-- Ends the split: it is complete, unless its queue was closed. -/
def finish (s : Session) (sh : Shared) : Batch × Session × Shared :=
  if s.queue.closed then (.ended, { s with reader := s.reader.stop }, sh)
  else
    let (result, reader, metrics) := s.reader.complete sh.metrics
    (match result with
      | .ok () => .ended
      | .error f => .failed f, { s with reader }, { sh with metrics })

/-- The next batch. -/
def nextBatch (s : Session) (sh : Shared) : Batch × Session × Shared :=
  if s.reader.pending ≠ [] then s.deliverPending sh
  else if s.reader.done then (.ended, s, sh)
  else match _h : s.poll sh with
    | (none, s, sh) => (.idle, s, sh)
    | (some .ended, s, sh) => s.finish sh
    | (some (.failed f), s, sh) => s.failWith sh f
    | (some (.records rs), s, sh) =>
      if _hrs : rs = [] then (.idle, s, sh)
      else match s.reader.absorbAll sh.metrics rs with
        | (.error f, reader, metrics) =>
          { s with queue := s.queue.close, reader }.failWith { sh with metrics } f
        | (.ok (e :: out), reader, metrics) =>
          { s with reader }.deliver { sh with metrics } (e :: out)
        | (.ok [], reader, metrics) =>
          if reader.pending = [] ∧ reader.mode.isPassThrough then
            (.events [], { s with reader }, { sh with metrics })
          else nextBatch { s with reader } { sh with metrics }
termination_by s.toDo
decreasing_by
  have hless := poll_less _h _hrs
  exact lex_of_less hless

/-- Closes the queue and stops the producer. -/
def close (s : Session) : Session := { s with work := .stopped, queue := s.queue.close }

end Session
end Changefeed
