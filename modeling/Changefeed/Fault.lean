import Changefeed.Text.Numeral

/-!
# Faults

What can go wrong while a split is fetched, as causes; the wording is in `message?`.  Every fault
has a class, which says how a caller must react: reconfigure, retry, report a bug, or nothing
because the fetch was cancelled.  Transient faults fall into four retry buckets.  A category and a
code label the fault in metrics.
-/

namespace Changefeed

/-! ## Causes -/

/-- A setting or a text form that is not acceptable. -/
inductive ConfigFault where
  /-- An interval whose first transaction comes after its last one. -/
  | reversedInterval (first last : UInt64)
  | segmentWithoutSource (segment : String)
  | segmentWithoutIntervals (segment : String)
  | notATransaction (segment part : String)
  | positionWithoutFile (text : String)
  | badFilePosition (text position : String)
  | badTableId (text : String)
  | chunkSizeNotPositive
  | connectorNameEmpty
  | batchSizeZero
  | queueNotLargerThanBatch (queue batch : Nat)
  | pollIntervalZero
  | retriesBelowMinusOne
  | retryDelayAboveMaximum
  | badCheckpointKey (key : String)
  /-- The two ends of a split are positions of different encodings. -/
  | mixedEncodings (ending endingEncoding start startEncoding : String)
  | other (text : String)
deriving DecidableEq, Repr

/-- A log record that cannot be read as what it claims to be. -/
inductive RecordFault where
  /-- A row of one table, decoded with the layout of another. -/
  | foreignLayout (row layout : String)
  /-- An image that the kind of change requires or excludes; `image` is before or after. -/
  | imageMismatch (kind table position : String) (present : Bool) (image : String)
  | wrongArity (table position : String) (values columns : Nat)
  | notOneLayout (found : Nat)
  /-- A scan of a snapshot split returned something else than an inserted row. -/
  | notAnInsert (split kind : String)
  | rowWithoutKey (table position column : String)
  | other (text : String)
deriving DecidableEq, Repr

/-- A table whose structure does not fit. -/
inductive SchemaFault where
  | foreignRecord (record table : String)
  | foreignBlob (table record : String)
  | noSuchTable (table : String)
  | noSuchColumn (column table : String)
  | keyNotAColumn (key table : String)
  | other (text : String)
deriving DecidableEq, Repr

/-- A call that is not allowed in the state things are in. -/
inductive StateFault where
  | badTransition (split current next : String)
  | alreadyConfigured
  | closed
  | readAlreadyStarted
  | notConfigured
  | configureFailed (split : String)
  | endedWithoutWatermark (split : String)
  | unassignedCompletion (split : String)
  | other (text : String)
deriving DecidableEq, Repr

/-- What an operation of the operating system failed with. -/
inductive SystemFault where
  | connectionReset
  | connectionAborted
  | connectionRefused
  | brokenPipe
  | timedOut
  | interrupted
  | unexpectedEnd
  | notFound
  | notADirectory
  | isADirectory
  | invalidName
  | other
deriving DecidableEq, Repr

/-- Everything a fetch can fail with. -/
inductive Fault where
  | offsetNotAvailable (offset reason : String)
  | duplicateSchema (table : String)
  | schemaUnknown (table position : String)
  | malformedRecord (cause : RecordFault)
  | config (cause : ConfigFault)
  | schema (cause : SchemaFault)
  | serialization (text : String)
  | json
  | system (cause : SystemFault)
  | connection (text : String)
  | timeout (text : String)
  | connectionClosed
  | connectionRefused (text : String)
  | invalidState (cause : StateFault)
  | queueClosed
deriving DecidableEq, Repr

/-! ## Wording -/

namespace ConfigFault

/-- The cause in words. -/
def message : ConfigFault → String
  | .reversedInterval first last =>
    "invalid GTID interval " ++ Text.decimal first.toNat ++ "-" ++ Text.decimal last.toNat
      ++ ": start after end"
  | .segmentWithoutSource segment =>
    "invalid GTID set segment '" ++ segment ++ "': missing source id"
  | .segmentWithoutIntervals segment =>
    "invalid GTID set segment '" ++ segment ++ "': no transaction intervals"
  | .notATransaction segment part =>
    "invalid GTID set segment '" ++ segment ++ "': '" ++ part ++ "' is not a transaction id"
  | .positionWithoutFile text => "invalid offset '" ++ text ++ "': expected file:position"
  | .badFilePosition text position =>
    "invalid offset '" ++ text ++ "': bad position '" ++ position ++ "'"
  | .badTableId text => "invalid table id '" ++ text ++ "': expected database.table"
  | .chunkSizeNotPositive => "snapshot chunk size must be positive"
  | .connectorNameEmpty => "connector_name must not be empty"
  | .batchSizeZero => "max_batch_size must be greater than 0"
  | .queueNotLargerThanBatch queue batch =>
    "max_queue_size (" ++ Text.decimal queue ++ ") must be greater than max_batch_size ("
      ++ Text.decimal batch ++ ")"
  | .pollIntervalZero => "poll_interval_ms must be greater than 0"
  | .retriesBelowMinusOne => "max_retries must be -1, 0 or positive"
  | .retryDelayAboveMaximum => "retry_delay_ms must not exceed max_retry_delay_ms"
  | .badCheckpointKey key => "Invalid checkpoint key '" ++ key ++ "'"
  | .mixedEncodings ending endingEncoding start startEncoding =>
    "ending offset " ++ ending ++ " is a " ++ endingEncoding ++ " offset, starting offset " ++ start
      ++ " is " ++ startEncoding
  | .other text => text

end ConfigFault

namespace RecordFault

/-- The cause in words. -/
def message : RecordFault → String
  | .foreignLayout row layout => "row for " ++ row ++ " decoded with the layout of " ++ layout
  | .imageMismatch kind table position present image =>
    kind ++ " record for " ++ table ++ " at " ++ position ++ (if present then " has " else " lacks ")
      ++ image ++ " image"
  | .wrongArity table position values columns =>
    "row for " ++ table ++ " at " ++ position ++ " has " ++ Text.decimal values
      ++ " values, schema has " ++ Text.decimal columns ++ " columns"
  | .notOneLayout found =>
    "table changes should only have one element, found " ++ Text.decimal found
  | .notAnInsert split kind => "snapshot scan of " ++ split ++ " returned a " ++ kind ++ " record"
  | .rowWithoutKey table position column =>
    "row of " ++ table ++ " at " ++ position ++ " has no value for key column " ++ column
  | .other text => text

end RecordFault

namespace SchemaFault

/-- The cause in words. -/
def message : SchemaFault → String
  | .foreignRecord record table => "record for " ++ record ++ " registered under " ++ table
  | .foreignBlob table record => "schema blob for " ++ table ++ " holds a record for " ++ record
  | .noSuchTable table => "no such table " ++ table
  | .noSuchColumn column table => "no column " ++ column ++ " in " ++ table
  | .keyNotAColumn key table => "chunk key " ++ key ++ " is not a column of " ++ table
  | .other text => text

end SchemaFault

namespace StateFault

/-- The cause in words. -/
def message : StateFault → String
  | .badTransition split current next =>
    "split " ++ split ++ " cannot move from " ++ current ++ " to " ++ next
  | .alreadyConfigured => "fetch context is already configured; build a new one per split"
  | .closed => "fetch context is closed"
  | .readAlreadyStarted => "read already started; build a new context to retry"
  | .notConfigured => "fetch context is not configured"
  | .configureFailed split => "split " ++ split ++ " was not configured successfully"
  | .endedWithoutWatermark split => "snapshot split " ++ split ++ " ended without a watermark"
  | .unassignedCompletion split => "completion for unassigned split " ++ split
  | .other text => text

end StateFault

/-- How a caller must react. -/
inductive FaultClass where
  /-- The operator has to change something; never retried. -/
  | configuration
  /-- Retry on a fresh task from the last checkpoint. -/
  | transient
  /-- A bug in planning or persistence. -/
  | internalConsistency
  /-- The task was closed while someone waited. -/
  | cancelled
deriving DecidableEq, Repr

/-- A coarse group, for metrics. -/
inductive FaultCategory where
  | replication
  | schema
  | configuration
  | network
  | serialization
  | other
deriving DecidableEq, Repr

/-- The bucket that a transient fault is retried under. -/
inductive RetryBucket where
  | connectionLost
  | connectionRefused
  | timeout
  | temporaryFailure
deriving DecidableEq, Repr

namespace RetryBucket

/-- Every bucket. -/
def all : List RetryBucket := [.connectionLost, .connectionRefused, .timeout, .temporaryFailure]

end RetryBucket

/-- The operation may succeed when it is tried again. -/
def SystemFault.isTransient : SystemFault → Bool
  | .connectionReset | .connectionAborted | .connectionRefused | .brokenPipe | .timedOut
  | .interrupted | .unexpectedEnd => true
  | .notFound | .notADirectory | .isADirectory | .invalidName | .other => false

namespace Fault

/-- The fault in words.  Faults of the JSON layer and of the operating system have no wording of
their own. -/
def message? : Fault → Option String
  | .offsetNotAvailable offset reason =>
    some ("offset " ++ offset ++ " cannot be served: " ++ reason)
  | .duplicateSchema table =>
    some ("table " ++ table ++ " registered twice in one schema history batch")
  | .schemaUnknown table position =>
    some ("no schema for table " ++ table ++ " at position " ++ position)
  | .malformedRecord cause => some ("malformed log record: " ++ cause.message)
  | .config cause => some ("invalid fetch configuration: " ++ cause.message)
  | .schema cause => some ("schema: " ++ cause.message)
  | .serialization text => some ("cannot encode or decode: " ++ text)
  | .json => none
  | .system _ => none
  | .connection text => some ("log connection: " ++ text)
  | .timeout text => some ("timed out: " ++ text)
  | .connectionClosed => some "log connection closed"
  | .connectionRefused text => some ("log connection refused: " ++ text)
  | .invalidState cause => some ("illegal state: " ++ cause.message)
  | .queueClosed => some "event queue closed"

/-- How a caller must react. -/
def faultClass : Fault → FaultClass
  | .offsetNotAvailable .. | .duplicateSchema _ | .config _ => .configuration
  | .connection _ | .timeout _ | .connectionClosed | .connectionRefused _ => .transient
  | .system cause => if cause.isTransient then .transient else .internalConsistency
  | .queueClosed => .cancelled
  | .schemaUnknown .. | .malformedRecord _ | .schema _ | .serialization _ | .json
  | .invalidState _ => .internalConsistency

/-- A fresh task may succeed. -/
def isRetriable (f : Fault) : Bool := f.faultClass = .transient

/-- Retrying cannot help. -/
def isFatal (f : Fault) : Bool :=
  f.faultClass = .configuration || f.faultClass = .internalConsistency

/-- The bucket of a transient fault. -/
def retryBucket? (f : Fault) : Option RetryBucket :=
  if f.isRetriable then
    match f with
    | .connectionClosed | .connection _ => some .connectionLost
    | .connectionRefused _ => some .connectionRefused
    | .timeout _ => some .timeout
    | .system .timedOut => some .timeout
    | _ => some .temporaryFailure
  else none

/-- The group and the stable code that label the fault in metrics. -/
def label : Fault → FaultCategory × String
  | .offsetNotAvailable .. => (.configuration, "offset_not_available")
  | .duplicateSchema _ => (.schema, "duplicate_schema_registration")
  | .schemaUnknown .. => (.schema, "schema_unknown")
  | .malformedRecord _ => (.replication, "malformed_record")
  | .config _ => (.configuration, "config_error")
  | .schema _ => (.schema, "schema_error")
  | .serialization _ => (.serialization, "serialization_error")
  | .json => (.serialization, "json_error")
  | .system _ => (.network, "io_error")
  | .connection _ => (.network, "connection_error")
  | .timeout _ => (.network, "timeout")
  | .connectionClosed => (.network, "connection_closed")
  | .connectionRefused _ => (.network, "connection_refused")
  | .invalidState _ => (.other, "invalid_state")
  | .queueClosed => (.other, "queue_closed")

/-- Exactly the transient faults have a bucket. -/
theorem retryBucket?_isSome (f : Fault) : f.retryBucket?.isSome = f.isRetriable := by
  unfold retryBucket?
  split
  · next h => rw [h]; split <;> rfl
  · next h => simp at h; simp [h]

/-- A fault is retriable, fatal or a cancellation, and only one of these. -/
theorem isFatal_iff (f : Fault) :
    f.isFatal = true ↔ f.isRetriable = false ∧ f.faultClass ≠ .cancelled := by
  unfold isFatal isRetriable
  cases f.faultClass <;> simp

end Fault

/-- A result or a fault. -/
abbrev Outcome (α : Type) := Except Fault α

end Changefeed
