import Changefeed.Decimal.Binary

/-!
# Durations

A duration is a count of nanoseconds below `2 ^ 64` seconds.  Multiplication stops at the longest
duration instead of wrapping.
-/

namespace Changefeed

/-- A length of time. -/
structure Duration where
  nanos : Nat
deriving DecidableEq, Repr

namespace Duration

/-- Nanoseconds in a second. -/
def second : Nat := 1000000000

/-- Nanoseconds in a millisecond. -/
def millisecond : Nat := 1000000

/-- The longest duration: one nanosecond less than `2 ^ 64` seconds. -/
def longest : Duration := ⟨0x10000000000000000 * second - 1⟩

/-- A whole number of milliseconds. -/
def ofMillis (n : Nat) : Duration := ⟨n * millisecond⟩

/-- Seconds and nanoseconds; surplus nanoseconds carry over.  `none` beyond the longest. -/
def ofParts? (secs nanos : Nat) : Option Duration :=
  let total := secs * second + nanos
  if total ≤ longest.nanos then some ⟨total⟩ else none

/-- The whole seconds. -/
def secs (d : Duration) : Nat := d.nanos / second

/-- The nanoseconds beyond the whole seconds. -/
def subsecNanos (d : Duration) : Nat := d.nanos % second

/-- The whole milliseconds. -/
def millis (d : Duration) : Nat := d.nanos / millisecond

/-- The milliseconds that a timer of millisecond resolution takes: rounded up. -/
def timerMillis (d : Duration) : Nat := (d.nanos + millisecond - 1) / millisecond

/-- The duration taken `n` times, or the longest one where that is too long. -/
def times (d : Duration) (n : Nat) : Duration := ⟨min (d.nanos * n) longest.nanos⟩

/-- The shorter of two durations. -/
def shorter (d e : Duration) : Duration := ⟨min d.nanos e.nanos⟩

/-- The duration in seconds: the whole seconds and the fraction, each as a double. -/
def toSeconds (d : Duration) : Float :=
  Float.ofNat d.secs + Float.ofNat d.subsecNanos / Float.ofNat second

/-- The nearest duration to a finite number of seconds that is not negative, a tie to the even
nanosecond; `none` from `2 ^ 64` seconds on. -/
def ofSeconds? (x : Float) : Option Duration :=
  let exact := Decimal.Binary.ofFloat x
  if exact.floorAt 0 < 0x10000000000000000 then some ⟨exact.roundAt 9⟩ else none

end Duration
end Changefeed
