import Mathlib.Tactic.Lemma
import Changefeed.Queue.Exchange

/-!
# What one operation does to a queue

Offering and taking are the two operations of a queue with several outcomes.  `Offered` and `Taken`
list them, each with the condition it happens under and the queue it leaves; `offered` and `taken`
say that the lists are complete.  Everything that is proved about queues later goes through these
two lists.
-/

namespace Changefeed
namespace EventQueue

/-! ## Offering -/

/-- The queue with a record more. -/
def push (q : EventQueue) (r : QueueRecord) : EventQueue :=
  { q with buffer := q.buffer ++ [r], bytes := q.bytes + r.size }.report

/-- What comes of offering a record. -/
inductive Offered (q : EventQueue) (r : QueueRecord) : Outcome (Option EventQueue) → Prop where
  | ended (h : q.closed = true ∨ q.finished = true) : Offered q r (.error .queueClosed)
  | full (hclosed : q.closed = false) (hfinished : q.finished = false)
      (hroom : q.hasRoom r.size = false) : Offered q r (.ok none)
  | accepted (hclosed : q.closed = false) (hfinished : q.finished = false)
      (hroom : q.hasRoom r.size = true) : Offered q r (.ok (some (q.push r)))

/-- Offering has one of the listed outcomes. -/
lemma offered (q : EventQueue) (r : QueueRecord) : q.Offered r (q.offer r) := by
  unfold offer
  split
  · next h => exact .ended (by simpa using h)
  · next h =>
    have hopen : q.closed = false ∧ q.finished = false := by simpa using h
    split
    · next hroom => exact .accepted hopen.1 hopen.2 hroom
    · next hroom => exact .full hopen.1 hopen.2 (by simpa using hroom)

@[simp] lemma push_buffer (q : EventQueue) (r : QueueRecord) :
    (q.push r).buffer = q.buffer ++ [r] := rfl

@[simp] lemma push_settings (q : EventQueue) (r : QueueRecord) :
    (q.push r).settings = q.settings := rfl

@[simp] theorem push_finished (q : EventQueue) (r : QueueRecord) :
    (q.push r).finished = q.finished := rfl

@[simp] theorem push_closed (q : EventQueue) (r : QueueRecord) :
    (q.push r).closed = q.closed := rfl

@[simp] theorem push_error (q : EventQueue) (r : QueueRecord) : (q.push r).error = q.error := rfl

/-! ## Taking -/

/-- The records of the next batch. -/
def batch (q : EventQueue) : List QueueRecord := q.buffer.take q.settings.maxBatchSize

/-- The queue without the records of the next batch. -/
def dropBatch (q : EventQueue) : EventQueue :=
  { q with
    buffer := q.buffer.drop q.settings.maxBatchSize
    bytes := q.bytes - QueueRecord.totalSize q.batch }.report

/-- What taking gives, and the queue after it. -/
inductive Taken (q : EventQueue) : Option Polled → EventQueue → Prop where
  | closed (h : q.closed = true) : Taken q (some .ended) q
  | records (hclosed : q.closed = false) (hbuffer : q.buffer ≠ []) :
      Taken q (some (.records q.batch)) q.dropBatch
  | failed (hclosed : q.closed = false) (hbuffer : q.buffer = []) {f : Fault}
      (herror : q.error = some f) : Taken q (some (.failed f)) { q with error := none }
  | finished (hclosed : q.closed = false) (hbuffer : q.buffer = []) (herror : q.error = none)
      (hfinished : q.finished = true) : Taken q (some .ended) q
  | nothing (hclosed : q.closed = false) (hbuffer : q.buffer = []) (herror : q.error = none)
      (hfinished : q.finished = false) : Taken q none q

/-- Taking has one of the listed outcomes. -/
lemma taken (q : EventQueue) : q.Taken q.take.1 q.take.2 := by
  unfold take
  by_cases hclosed : q.closed = true
  · rw [if_pos hclosed]
    exact .closed hclosed
  · rw [if_neg hclosed]
    replace hclosed : q.closed = false := by simpa using hclosed
    by_cases hbuffer : q.buffer = []
    · rw [if_pos (by simp [hbuffer])]
      cases herror : q.error with
      | some f => exact .failed hclosed hbuffer herror
      | none =>
        by_cases hfinished : q.finished = true
        · rw [hfinished]
          exact .finished hclosed hbuffer herror hfinished
        · replace hfinished : q.finished = false := by simpa using hfinished
          rw [hfinished]
          exact .nothing hclosed hbuffer herror hfinished
    · rw [if_neg (by simpa using hbuffer)]
      exact .records hclosed hbuffer

@[simp] theorem dropBatch_buffer (q : EventQueue) :
    q.dropBatch.buffer = q.buffer.drop q.settings.maxBatchSize := rfl

@[simp] lemma dropBatch_settings (q : EventQueue) : q.dropBatch.settings = q.settings := rfl

@[simp] theorem dropBatch_finished (q : EventQueue) : q.dropBatch.finished = q.finished := rfl

@[simp] theorem dropBatch_closed (q : EventQueue) : q.dropBatch.closed = q.closed := rfl

@[simp] theorem dropBatch_error (q : EventQueue) : q.dropBatch.error = q.error := rfl

lemma batch_append_buffer (q : EventQueue) : q.batch ++ q.dropBatch.buffer = q.buffer :=
  List.take_append_drop ..

lemma length_batch_le (q : EventQueue) : q.batch.length ≤ q.settings.maxBatchSize :=
  List.length_take_le ..

/-- A batch of a queue that is not empty has a record. -/
lemma batch_ne_nil {q : EventQueue} (hmax : 1 ≤ q.settings.maxBatchSize) (h : q.buffer ≠ []) :
    q.batch ≠ [] := by
  intro hbatch
  rcases List.take_eq_nil_iff.mp hbatch with hzero | hnil
  · omega
  · exact h hnil

/-! ## Ending and closing -/

/-- A queue that is open ends with the fault of its producer. -/
lemma fail_of_open {q : EventQueue} (h : q.closed = false) (f : Fault) :
    q.fail f = { q with error := some f, finished := true } := by
  rw [fail, if_neg (by simp [h])]

end EventQueue
end Changefeed
