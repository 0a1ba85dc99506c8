import Changefeed.Fault
import Changefeed.Time.Duration

/-!
# Retry policies

A failed attempt is made again on a fresh task.  The policy says how often, for which faults and
after what delay.  Delays double from one attempt to the next up to a longest one; with jitter each
of them is spread by a fixed share that depends on the number of the attempt alone.
-/

namespace Changefeed

/-- How often and how far apart an attempt is made again. -/
structure RetryPolicy where
  /-- The greatest number of retries; `-1` sets no limit. -/
  maxRetries : Int := 3
  retryDelay : Duration := .ofMillis 500
  maxDelay : Duration := .ofMillis 30000
  /-- The share of a delay that it may be spread by, from 0 to 1. -/
  jitter : Float := 0
  buckets : List RetryBucket := RetryBucket.all

namespace RetryPolicy

/-- The policy that never retries. -/
def disabled : RetryPolicy := { maxRetries := 0 }

/-- The policy with a jitter, brought into the range from 0 to 1. -/
def withJitter (p : RetryPolicy) (x : Float) : RetryPolicy :=
  { p with jitter := if x < 0 then 0 else if 1 < x then 1 else x }

/-- Retries may happen at all. -/
def isEnabled (p : RetryPolicy) : Bool := p.maxRetries ≠ 0

/-- Faults of this bucket are retried. -/
def allows (p : RetryPolicy) (b : RetryBucket) : Bool := p.buckets.contains b

/-- One more retry is allowed after this many. -/
def shouldRetry (p : RetryPolicy) (retries : Nat) : Bool :=
  if 0 ≤ p.maxRetries then (retries : Int) < p.maxRetries else p.maxRetries = -1

/-- A fault is answered by one more retry after this many. -/
def retries (p : RetryPolicy) (retries : Nat) (f : Fault) : Bool :=
  match f.retryBucket? with
  | some b => p.allows b && p.shouldRetry retries
  | none => false

/-- The multiple of the first delay: `2 ^ n`, or `2 ^ 32 - 1` from the 32nd retry on. -/
def factor (retries : Nat) : Nat := if retries < 32 then Nat.pow 2 retries else 0xFFFFFFFF

/-- The delay without jitter. -/
def plainDelay (p : RetryPolicy) (retries : Nat) : Duration :=
  (p.retryDelay.times (factor retries)).shorter p.maxDelay

/-- The fractional part of the golden ratio, as a double. -/
def goldenPart : Float := 0.618033988749895

/-- A share from -1 to 1, the same for the same number: the multiples of the golden ratio, without
their whole part, stretched to that range. -/
def spread (retries : Nat) : Float :=
  let x := Float.ofNat retries * goldenPart
  (x - x.floor) * 2 - 1

/-- The delay before the next attempt after this many retries; `none` when jitter takes it past the
longest duration. -/
def delay (p : RetryPolicy) (retries : Nat) : Option Duration :=
  if p.jitter ≤ 0 then some (p.plainDelay retries)
  else
    let seconds := (p.plainDelay retries).toSeconds * (1 + p.jitter * spread retries)
    Duration.ofSeconds? (if seconds < 0 then 0 else seconds)

end RetryPolicy
end Changefeed
