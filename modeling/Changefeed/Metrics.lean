import Changefeed.Event

/-!
# Counters

What a connector's tasks have done.  All values have 64 bits; counters wrap, gauges hold what was
set last.
-/

namespace Changefeed

/-- The counters and gauges of one connector. -/
structure Metrics where
  events : UInt64 := 0
  bytes : UInt64 := 0
  inserts : UInt64 := 0
  updates : UInt64 := 0
  deletes : UInt64 := 0
  batches : UInt64 := 0
  heartbeats : UInt64 := 0
  schemaChanges : UInt64 := 0
  queueDepth : UInt64 := 0
  queueBytes : UInt64 := 0
  producerBlocked : UInt64 := 0
  splitsStarted : UInt64 := 0
  splitsCompleted : UInt64 := 0
  splitsFailed : UInt64 := 0
  unresumableOffsets : UInt64 := 0
  retries : UInt64 := 0
  checkpoints : UInt64 := 0
deriving DecidableEq, Repr, Inhabited

namespace Metrics

/-- An event of this kind and size was delivered. -/
def recordEvent (m : Metrics) (kind : ChangeKind) (size : Nat) : Metrics :=
  let m := { m with events := m.events + 1, bytes := m.bytes + UInt64.ofNat size }
  match kind with
  | .insert => { m with inserts := m.inserts + 1 }
  | .update => { m with updates := m.updates + 1 }
  | .delete => { m with deletes := m.deletes + 1 }

/-- A batch was handed over. -/
def recordBatch (m : Metrics) : Metrics := { m with batches := m.batches + 1 }

/-- A position went by without data. -/
def recordHeartbeat (m : Metrics) : Metrics := { m with heartbeats := m.heartbeats + 1 }

/-- A table's layout changed. -/
def recordSchemaChange (m : Metrics) : Metrics := { m with schemaChanges := m.schemaChanges + 1 }

/-- The queue holds this many records of this many bytes. -/
def setQueue (m : Metrics) (records bytes : Nat) : Metrics :=
  { m with queueDepth := UInt64.ofNat records, queueBytes := UInt64.ofNat bytes }

/-- The producer had to wait for room. -/
def recordBlocked (m : Metrics) : Metrics := { m with producerBlocked := m.producerBlocked + 1 }

/-- A split was configured. -/
def recordSplitStarted (m : Metrics) : Metrics := { m with splitsStarted := m.splitsStarted + 1 }

/-- A split was read to its end. -/
def recordSplitCompleted (m : Metrics) : Metrics :=
  { m with splitsCompleted := m.splitsCompleted + 1 }

/-- A split failed. -/
def recordSplitFailed (m : Metrics) : Metrics := { m with splitsFailed := m.splitsFailed + 1 }

/-- The server could not serve a position any more. -/
def recordUnresumable (m : Metrics) : Metrics :=
  { m with unresumableOffsets := m.unresumableOffsets + 1 }

/-- An attempt was made again. -/
def recordRetry (m : Metrics) : Metrics := { m with retries := m.retries + 1 }

/-- A checkpoint was saved. -/
def recordCheckpoint (m : Metrics) : Metrics := { m with checkpoints := m.checkpoints + 1 }

/-- The values under their names. -/
def entries (m : Metrics) : List (String × UInt64) :=
  [("events_total", m.events), ("bytes_total", m.bytes), ("inserts", m.inserts),
    ("updates", m.updates), ("deletes", m.deletes), ("batches_total", m.batches),
    ("heartbeats_total", m.heartbeats), ("schema_changes_total", m.schemaChanges),
    ("queue_depth", m.queueDepth), ("queue_bytes", m.queueBytes),
    ("producer_blocked_total", m.producerBlocked), ("splits_started", m.splitsStarted),
    ("splits_completed", m.splitsCompleted), ("splits_failed", m.splitsFailed),
    ("unresumable_offsets", m.unresumableOffsets), ("retries_total", m.retries),
    ("checkpoints_total", m.checkpoints)]

end Metrics
end Changefeed
