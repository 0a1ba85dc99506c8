import Changefeed.Queue.Basic
import Changefeed.Wire.Event

/-!
# Queues as JSON

An entry of a queue is a record with one field, named for its kind.
-/

namespace Changefeed

open Json (Doc Decoder Parts)

namespace QueueRecord

/-- An entry as a record. -/
def toDoc : QueueRecord → Doc
  | .change e => .record [("change", e.toDoc)]
  | .heartbeat position => .record [("heartbeat", position.toDoc)]
  | .watermark position => .record [("watermark", position.toDoc)]

/-- An entry; where several fields are there, the first kind counts. -/
def decode : Decoder QueueRecord := fun a d => do
  let p ← Parts.read ["change", "heartbeat", "watermark"] a d
  match ← p.optional "change" ChangeEvent.decode with
  | some e => pure (.change e)
  | none =>
    match ← p.optional "heartbeat" Offset.decode with
    | some position => pure (.heartbeat position)
    | none => (p.required "watermark" Offset.decode).map .watermark

instance : Json.ToDoc QueueRecord := ⟨toDoc⟩
instance : Json.FromDoc QueueRecord := ⟨decode⟩

end QueueRecord

/-- The limits of a queue as a record. -/
def QueueSettings.toDoc (s : QueueSettings) : Doc :=
  .record [("limit", .of s.limit), ("max_batch_size", .of s.maxBatchSize),
    ("max_bytes", .of s.maxBytes), ("poll_interval_ms", .of s.pollIntervalMs)]

instance : Json.ToDoc QueueSettings := ⟨QueueSettings.toDoc⟩

end Changefeed
