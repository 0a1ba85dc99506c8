import Changefeed.Config
import Changefeed.Event

/-!
# Event queues

The queue between the producer of a split, which reads the log, and its reader.  Records leave it
in the order they came in, and none is dropped: a record that finds no room is not accepted.  A
queue may be limited in records and in bytes; a record larger than the byte limit is still accepted
into an empty queue.

The producer ends a queue by finishing or by failing it; what is buffered is delivered first, then
the failure once, and from then on the end.  Closing it from either side drops what is buffered.
-/

namespace Changefeed

/-- An entry of the queue. -/
inductive QueueRecord where
  | change (e : ChangeEvent)
  /-- The position moved on without data. -/
  | heartbeat (position : Offset)
  /-- The position as of which the rows of a snapshot split are current. -/
  | watermark (position : Offset)

namespace QueueRecord

/-- The size that the byte limit counts. -/
def size : QueueRecord → Nat
  | .change e => e.estimatedSize
  | .heartbeat _ | .watermark _ => offsetSize

/-- The size of several records. -/
def totalSize (rs : List QueueRecord) : Nat := rs.foldr (fun r n => r.size + n) 0

/-- The position that the record carries. -/
def position : QueueRecord → Offset
  | .change e => e.position
  | .heartbeat position | .watermark position => position

end QueueRecord

/-- The limits of a queue. -/
structure QueueSettings where
  /-- The greatest number of records; `none` is no limit, and then bytes are not limited either. -/
  limit : Option Nat
  maxBatchSize : Nat := 2048
  /-- The byte limit; none when it is 0. -/
  maxBytes : Nat := 0
  pollIntervalMs : Nat := 500
deriving DecidableEq, Repr

namespace QueueSettings

/-- The settings with another batch size, at least 1. -/
def withMaxBatchSize (s : QueueSettings) (n : Nat) : QueueSettings :=
  { s with maxBatchSize := max n 1 }

/-- The limits for a split: a snapshot split that is delivered exactly once has to be held as a
whole, so its queue is not limited. -/
def forSplit (config : FetchConfig) (split : Split) : QueueSettings :=
  { limit := if split.isSnapshot && config.exactlyOnce then none else some config.maxQueueSize
    maxBatchSize := max config.maxBatchSize 1
    maxBytes := config.maxQueueBytes
    pollIntervalMs := config.pollIntervalMs }

end QueueSettings

/-- What a queue reports about itself. -/
structure QueueGauges where
  depth : Nat := 0
  bytes : Nat := 0
  /-- How many records had to wait for room. -/
  blocked : Nat := 0
deriving DecidableEq, Repr

/-- A queue between a producer and a reader. -/
structure EventQueue where
  settings : QueueSettings
  buffer : List QueueRecord := []
  /-- The sizes of the buffered records, added up. -/
  bytes : Nat := 0
  /-- The producer has ended the queue. -/
  finished : Bool := false
  closed : Bool := false
  /-- What the producer failed with, until it is delivered. -/
  error : Option Fault := none
  /-- What is reported, when anything is. -/
  gauges : Option QueueGauges := none

/-- What the reader gets. -/
inductive Polled where
  | records (rs : List QueueRecord)
  | ended
  | failed (f : Fault)

namespace EventQueue

/-- The queue with its depth reported. -/
def report (q : EventQueue) : EventQueue :=
  { q with gauges := q.gauges.map fun g =>
      { g with depth := q.buffer.length, bytes := q.bytes } }

/-- The queue after a record had to wait. -/
def reportBlocked (q : EventQueue) : EventQueue :=
  { q with gauges := q.gauges.map fun g => { g with blocked := g.blocked + 1 } }

/-- A record of this size has room. -/
def hasRoom (q : EventQueue) (size : Nat) : Bool :=
  match q.settings.limit with
  | none => true
  | some limit =>
    q.buffer.length < limit
      && (q.settings.maxBytes = 0 || q.buffer.isEmpty || q.bytes + size ≤ q.settings.maxBytes)

/-- The queue with a record more; `none` when there is no room, and a fault when it has ended. -/
def offer (q : EventQueue) (r : QueueRecord) : Outcome (Option EventQueue) :=
  if q.closed || q.finished then .error .queueClosed
  else if q.hasRoom r.size then
    .ok (some { q with buffer := q.buffer ++ [r], bytes := q.bytes + r.size }.report)
  else .ok none

/-- What the reader gets right now, and the queue after it; `none` when there is nothing yet. -/
def take (q : EventQueue) : Option Polled × EventQueue :=
  if q.closed then (some .ended, q)
  else if q.buffer.isEmpty then
    match q.error with
    | some f => (some (.failed f), { q with error := none })
    | none => (if q.finished then some .ended else none, q)
  else
    let batch := q.buffer.take q.settings.maxBatchSize
    (some (.records batch),
      { q with
        buffer := q.buffer.drop q.settings.maxBatchSize
        bytes := q.bytes - QueueRecord.totalSize batch }.report)

/-- The queue after its producer has finished. -/
def finish (q : EventQueue) : EventQueue := { q with finished := true }

/-- The queue after its producer has failed; a closed queue stays as it is. -/
def fail (q : EventQueue) (f : Fault) : EventQueue :=
  if q.closed then q else { q with error := some f, finished := true }

/-- The queue after either side has closed it. -/
def close (q : EventQueue) : EventQueue :=
  { q with closed := true, buffer := [], bytes := 0 }.report

end EventQueue
end Changefeed
