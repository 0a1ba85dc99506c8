import Changefeed.Event

/-!
# Streams of log records

A stream delivers its records in order.  When it is drained it ends, or waits for more like the log
of a live server.  It may fail on the way: after a number of records, as when the connection drops,
or after a number of reads, with a fault of its own.
-/

namespace Changefeed

/-- What a read of a stream gives. -/
inductive StreamRead where
  | record (r : LogRecord)
  | ended
  /-- Nothing more will come. -/
  | waits
  | failed (f : Fault)

/-- A stream of log records. -/
structure LogStream where
  records : List LogRecord
  endsWhenDrained : Bool
  /-- The records that are still delivered before the connection drops. -/
  dropsAfter : Option Nat := none
  /-- The reads that are still made before the stream fails, and what it fails with. -/
  failsAfter : Option (Nat × Fault) := none

namespace LogStream

/-- The next read, apart from a scripted failure. -/
def deliver (s : LogStream) : StreamRead × LogStream :=
  if s.dropsAfter = some 0 then (.failed .connectionClosed, s)
  else match s.records with
    | [] => (if s.endsWhenDrained then .ended else .waits, s)
    | r :: rest =>
      (.record r, { s with records := rest, dropsAfter := s.dropsAfter.map (· - 1) })

/-- Reads the stream. -/
def next (s : LogStream) : StreamRead × LogStream :=
  match s.failsAfter with
  | none => s.deliver
  | some (0, f) => (.failed f, s)
  | some (n + 1, f) => { s with failsAfter := some (n, f) }.deliver

/-- A read that gives a record leaves fewer of them. -/
theorem deliver_record {s t : LogStream} {r : LogRecord} (h : s.deliver = (.record r, t)) :
    s.records = r :: t.records := by
  unfold deliver at h
  split at h
  · simp at h
  · split at h
    · split at h <;> simp at h
    · next r' rest hrec =>
      simp only [Prod.mk.injEq, StreamRead.record.injEq] at h
      obtain ⟨rfl, rfl⟩ := h
      exact hrec

/-- A read that gives a record gives the first one left. -/
theorem next_record {s t : LogStream} {r : LogRecord} (h : s.next = (.record r, t)) :
    s.records = r :: t.records := by
  unfold next at h
  split at h
  · exact deliver_record h
  · simp at h
  · simpa using deliver_record h

/-- The records up to the end of a stream, and how it ends. -/
def drain (s : LogStream) : List LogRecord × StreamRead :=
  match _h : s.next with
  | (.record r, t) => ((r :: t.drain.1), t.drain.2)
  | (.ended, _) => ([], .ended)
  | (.waits, _) => ([], .waits)
  | (.failed f, _) => ([], .failed f)
termination_by s.records.length
decreasing_by all_goals simp [next_record _h]

end LogStream
end Changefeed
