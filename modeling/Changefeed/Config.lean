import Changefeed.Retry
import Changefeed.Text.Blank

/-!
# Settings of a connector

The settings that all tasks of a connector share.  They are read as they are given; `validate` says
what is wrong with them, the first fault in the order of the settings.
-/

namespace Changefeed

/-- The settings of a connector. -/
structure FetchConfig where
  connectorName : String := "rivven-cdc"
  /-- Snapshot splits deliver every row once, as of one position. -/
  exactlyOnce : Bool := false
  maxQueueSize : Nat := 8192
  maxBatchSize : Nat := 2048
  /-- The byte limit of a queue; none when it is 0. -/
  maxQueueBytes : Nat := 0
  pollIntervalMs : Nat := 500
  maxRetries : Int := 3
  retryDelayMs : Nat := 500
  maxRetryDelayMs : Nat := 30000
deriving DecidableEq, Repr

namespace FetchConfig

/-- The first fault of the settings. -/
def fault? (c : FetchConfig) : Option ConfigFault :=
  if Text.trim c.connectorName.toList = [] then some .connectorNameEmpty
  else if c.maxBatchSize = 0 then some .batchSizeZero
  else if c.maxQueueSize ≤ c.maxBatchSize then
    some (.queueNotLargerThanBatch c.maxQueueSize c.maxBatchSize)
  else if c.pollIntervalMs = 0 then some .pollIntervalZero
  else if c.maxRetries < -1 then some .retriesBelowMinusOne
  else if c.maxRetryDelayMs < c.retryDelayMs then some .retryDelayAboveMaximum
  else none

/-- The settings are usable. -/
def validate (c : FetchConfig) : Outcome Unit :=
  match c.fault? with
  | none => .ok ()
  | some cause => .error (.config cause)

/-- How long a poll waits. -/
def pollInterval (c : FetchConfig) : Duration := .ofMillis c.pollIntervalMs

/-- The retry policy of the settings. -/
def retryPolicy (c : FetchConfig) : RetryPolicy :=
  { maxRetries := c.maxRetries, retryDelay := .ofMillis c.retryDelayMs,
    maxDelay := .ofMillis c.maxRetryDelayMs }

/-- The milliseconds of a duration as a setting holds them: 64 bits. -/
def millisSetting (d : Duration) : Nat := d.millis % 0x10000000000000000

/-- The settings with another poll interval. -/
def withPollInterval (c : FetchConfig) (d : Duration) : FetchConfig :=
  { c with pollIntervalMs := millisSetting d }

/-- The settings with another first retry delay. -/
def withRetryDelay (c : FetchConfig) (d : Duration) : FetchConfig :=
  { c with retryDelayMs := millisSetting d }

/-- The settings with another longest retry delay. -/
def withMaxRetryDelay (c : FetchConfig) (d : Duration) : FetchConfig :=
  { c with maxRetryDelayMs := millisSetting d }

end FetchConfig
end Changefeed
