import Changefeed.Retry
import Changefeed.Wire.Fault

/-!
# Retry policies as JSON

A duration is a list of its seconds and nanoseconds.  Of a policy every part may be left out.
-/

namespace Changefeed

open Json (Doc Decoder Parts)

namespace Duration

/-- A duration as a list. -/
def toDoc (d : Duration) : Doc := .of (d.secs, d.subsecNanos)

/-- A duration; surplus nanoseconds carry over. -/
def decode : Decoder Duration := fun a d =>
  (Decoder.pair Decoder.size Decoder.word32 a d).bind fun (secs, nanos) =>
    ofParts? secs nanos.toNat

instance : Json.ToDoc Duration := ⟨toDoc⟩
instance : Json.FromDoc Duration := ⟨decode⟩

end Duration

namespace RetryPolicy

/-- A policy; a disabled one has no other parts. -/
def decode : Decoder RetryPolicy := fun a d => do
  let p ← Parts.read ["disabled", "max_retries", "retry_delay", "max_delay", "jitter",
    "retriable_errors"] a d
  let disabled ← p.optional "disabled" Decoder.bool
  let maxRetries ← p.optional "max_retries" Decoder.int32
  let retryDelay ← p.optional "retry_delay" Duration.decode
  let maxDelay ← p.optional "max_delay" Duration.decode
  let jitter ← p.optional "jitter" Decoder.float
  let buckets ← p.optional "retriable_errors" (Decoder.list RetryBucket.decode)
  let standard : RetryPolicy := {}
  let policy : RetryPolicy :=
    { maxRetries := maxRetries.getD standard.maxRetries
      retryDelay := retryDelay.getD standard.retryDelay
      maxDelay := maxDelay.getD standard.maxDelay
      buckets := buckets.getD standard.buckets }
  pure (if disabled.getD false then RetryPolicy.disabled
    else jitter.elim policy policy.withJitter)

instance : Json.FromDoc RetryPolicy := ⟨decode⟩

/-- What a policy does after each of some numbers of retries; `none` when one of the delays is too
long. -/
def summary (p : RetryPolicy) (retries : List Nat) : Option (List (String × Doc)) :=
  (retries.mapM p.delay).map fun delays =>
    [("max_retries", .of p.maxRetries), ("enabled", .of p.isEnabled),
      ("retry_delay", .of p.retryDelay), ("max_delay", .of p.maxDelay),
      ("should_retry", .of (retries.map p.shouldRetry)), ("delays", .of delays)]

end RetryPolicy
end Changefeed
