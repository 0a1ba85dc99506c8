import Changefeed.Config
import Changefeed.Json.Codec

/-!
# Settings as JSON

Every setting may be left out.
-/

namespace Changefeed

open Json (Doc Decoder Parts)

namespace FetchConfig

/-- The settings as a record. -/
def toDoc (c : FetchConfig) : Doc :=
  .record [("connector_name", .text c.connectorName), ("exactly_once", .bool c.exactlyOnce),
    ("max_queue_size", .nat c.maxQueueSize), ("max_batch_size", .nat c.maxBatchSize),
    ("max_queue_size_in_bytes", .nat c.maxQueueBytes), ("poll_interval_ms", .nat c.pollIntervalMs),
    ("max_retries", .int c.maxRetries), ("retry_delay_ms", .nat c.retryDelayMs),
    ("max_retry_delay_ms", .nat c.maxRetryDelayMs)]

/-- The settings. -/
def decode : Decoder FetchConfig := fun a d => do
  let p ← Parts.read ["connector_name", "exactly_once", "max_queue_size", "max_batch_size",
    "max_queue_size_in_bytes", "poll_interval_ms", "max_retries", "retry_delay_ms",
    "max_retry_delay_ms"] a d
  let standard : FetchConfig := {}
  let connectorName ← p.defaulted "connector_name" Decoder.string standard.connectorName
  let exactlyOnce ← p.defaulted "exactly_once" Decoder.bool standard.exactlyOnce
  let maxQueueSize ← p.defaulted "max_queue_size" Decoder.size standard.maxQueueSize
  let maxBatchSize ← p.defaulted "max_batch_size" Decoder.size standard.maxBatchSize
  let maxQueueBytes ← p.defaulted "max_queue_size_in_bytes" Decoder.size standard.maxQueueBytes
  let pollIntervalMs ← p.defaulted "poll_interval_ms" Decoder.size standard.pollIntervalMs
  let maxRetries ← p.defaulted "max_retries" Decoder.int32 standard.maxRetries
  let retryDelayMs ← p.defaulted "retry_delay_ms" Decoder.size standard.retryDelayMs
  let maxRetryDelayMs ← p.defaulted "max_retry_delay_ms" Decoder.size standard.maxRetryDelayMs
  pure { connectorName, exactlyOnce, maxQueueSize, maxBatchSize, maxQueueBytes, pollIntervalMs,
         maxRetries, retryDelayMs, maxRetryDelayMs }

instance : Json.ToDoc FetchConfig := ⟨toDoc⟩
instance : Json.FromDoc FetchConfig := ⟨decode⟩

end FetchConfig

end Changefeed
