import Changefeed.Fetch.Normalizer
import Changefeed.Lifecycle
import Changefeed.Metrics
import Changefeed.Queue.Basic

/-!
# Readers

A reader turns the records of a queue into batches of events.  It keeps the position of the last
record it took and the state of the split.  A split that is delivered exactly once is held until
its watermark; any other is passed through as it comes.
-/

namespace Changefeed

/-- What happens to changes before they are delivered. -/
inductive ReadMode where
  | passThrough
  /-- Held until the watermark. -/
  | normalize (n : Normalizer)

namespace ReadMode

/-- Changes are delivered as they come. -/
def isPassThrough : ReadMode → Bool
  | .passThrough => true
  | .normalize _ => false

end ReadMode

/-- The reading side of a split. -/
structure Reader where
  mode : ReadMode
  /-- The greatest number of events in a batch of rows that were held. -/
  maxBatchSize : Nat
  lifecycle : Lifecycle
  /-- The position of the last record taken, or the start. -/
  offset : Offset
  /-- Events that are ready to be delivered. -/
  pending : List ChangeEvent := []
  watermark : Option Offset := none
  completion : Option SplitCompletion := none
  /-- The sequence is over once what is pending has been delivered. -/
  done : Bool := false

namespace Reader

/-- The split that is read. -/
def splitId (r : Reader) : SplitId := r.lifecycle.splitId

/-- Takes a change: what is to be delivered right now. -/
def absorbChange (r : Reader) (e : ChangeEvent) : Outcome (List ChangeEvent × Reader) :=
  match r.mode with
  | .passThrough => .ok ([e], { r with offset := e.position })
  | .normalize n =>
    match n.apply e with
    | .ok n => .ok ([], { r with mode := .normalize n })
    | .error f => .error f

/-- Takes a watermark: rows that were held become ready. -/
def absorbWatermark (r : Reader) (watermark : Offset) : Reader :=
  let rows := match r.mode with
    | .passThrough => []
    | .normalize n => n.finish watermark
  { r with
    mode := .passThrough, pending := r.pending ++ rows, offset := watermark,
    watermark := some watermark }

/-- Takes a record: what is to be delivered right now. -/
def absorb (r : Reader) : QueueRecord → Outcome (List ChangeEvent × Reader)
  | .change e => r.absorbChange e
  | .heartbeat position => .ok ([], { r with offset := position })
  | .watermark position => .ok ([], r.absorbWatermark position)

/-- A heartbeat is counted. -/
def countRecord (m : Metrics) : QueueRecord → Metrics
  | .heartbeat _ => m.recordHeartbeat
  | .change _ | .watermark _ => m

/-- Takes records up to the first one that fails: what is to be delivered or the fault, and the
reader and counters at that point. -/
def absorbAll (r : Reader) (m : Metrics) :
    List QueueRecord → Outcome (List ChangeEvent) × Reader × Metrics
  | [] => (.ok [], r, m)
  | record :: rest =>
    match r.absorb record with
    | .error f => (.error f, r, m)
    | .ok (out, r) =>
      match r.absorbAll (countRecord m record) rest with
      | (.ok more, r, m) => (.ok (out ++ more), r, m)
      | (.error f, r, m) => (.error f, r, m)

/-- The counters after a batch was delivered. -/
def countBatch (m : Metrics) (batch : List ChangeEvent) : Metrics :=
  (batch.foldl (fun m e => m.recordEvent e.kind e.estimatedSize) m).recordBatch

/-- The events ready for one batch, and the reader without them. -/
def takePending (r : Reader) : List ChangeEvent × Reader :=
  let n := max r.maxBatchSize 1
  (r.pending.take n, { r with pending := r.pending.drop n })

/-- The reader after its split failed, with the failure counted. -/
def fail (r : Reader) (m : Metrics) : Reader × Metrics :=
  ({ r with done := true, lifecycle := r.lifecycle.moveIfAllowed .failed }, m.recordSplitFailed)

/-- The reader after its producer has ended.  Rows that are still held then were not followed by a
watermark. -/
def complete (r : Reader) (m : Metrics) : Outcome Unit × Reader × Metrics :=
  if r.mode.isPassThrough then
    match r.lifecycle.move .completed with
    | .error f => (.error f, { r with done := true }, m)
    | .ok lifecycle =>
      let completion : SplitCompletion := ⟨r.splitId, some (r.watermark.getD r.offset)⟩
      (.ok (), { r with done := true, lifecycle, completion := some completion },
        m.recordSplitCompleted)
  else (.error (.invalidState (.endedWithoutWatermark r.splitId.text)), r.fail m)

/-- The reader after its queue was closed. -/
def stop (r : Reader) : Reader := { r with done := true }

end Reader
end Changefeed
