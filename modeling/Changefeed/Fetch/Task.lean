import Changefeed.Fetch.Drain

/-!
# Fetch tasks

A task reads one split, once: it is configured, then read, and closed at any time.  A task that
could not be configured is of no more use, and so is one that was closed.

To configure a task binds its split to what it needs.  Layouts come first.  The layout of a
snapshot split's table is asked of the server and has to have the key column.  For every table of
an incremental split, the layout comes with the split, or else from the place where layouts are
kept, or else from the server; one from the server counts from the start of the split on.  All
layouts are found before any is added to the history.  Then the start has to be one that the server
can serve.
-/

namespace Changefeed

/-- What a configured task is about to do. -/
structure Plan where
  producer : Producer
  mode : ReadMode
  start : Offset

namespace Plan

/-- The plan for a snapshot split. -/
def snapshot (config : FetchConfig) (s : SnapshotSplit) : Act Plan := do
  let schema ← Act.ask (Server.querySchema s.tableId)
  Act.require (schema.column? s.keyColumn).isSome
    (.schema (.keyNotAColumn s.keyColumn s.tableId.text))
  let batch ← Act.ofOutcome (SchemaBatch.register {} schema)
  Act.commit batch
  Act.ask (Server.ensureResumable .initial)
  Act.ask Server.resetListeners
  return { producer := .start ⟨s, schema, config.exactlyOnce⟩
           mode := if config.exactlyOnce then .normalize { keyColumn := s.keyColumn }
             else .passThrough
           start := .initial }

/-- The layout of a table as the server has it, counted from a position on. -/
def liveLayout (tableId : TableId) (start : Offset) : Act SchemaRecord := do
  let schema ← Act.ask (Server.querySchema tableId)
  return if start.reached schema.position then schema else { schema with position := start }

/-- Keeps a layout for longer, where there is a place for it. -/
def keepLayout (tableId : TableId) (schema : SchemaRecord) : Act Unit := fun sh =>
  (.ok (), { sh with backend := sh.backend.map fun b => SortedMap.insert b tableId schema.toBlob })

/-- The layout of a table that was kept. -/
def keptLayout (tableId : TableId) : Act (Option Blob) := fun sh =>
  (.ok (sh.backend.bind fun b => SortedMap.find? b tableId), sh)

/-- Adds the layout of a table to a batch. -/
def bindTable (s : IncrementalSplit) (batch : SchemaBatch) (tableId : TableId) :
    Act SchemaBatch := do
  match s.historyRefs.find? tableId with
  | some blob => Act.ofOutcome (batch.registerBlob tableId blob)
  | none =>
    match ← keptLayout tableId with
    | some blob => Act.ofOutcome (batch.registerBlob tableId blob)
    | none =>
      let schema ← liveLayout tableId s.startingOffset
      keepLayout tableId schema
      Act.ofOutcome (batch.register schema)

/-- Adds the layouts of tables to a batch. -/
def bindTables (s : IncrementalSplit) (batch : SchemaBatch) : List TableId → Act SchemaBatch
  | [] => pure batch
  | tableId :: rest => do
    let batch ← bindTable s batch tableId
    bindTables s batch rest

/-- The fault of an end that is a position of another encoding than the start. -/
def encodingFault (s : IncrementalSplit) : Option Fault :=
  s.endingOffset.bind fun ending =>
    if s.startingOffset.isInitial || ending.sameEncoding s.startingOffset then none
    else some (.config (.mixedEncodings ending.text ending.encoding s.startingOffset.text
      s.startingOffset.encoding))

/-- The plan for an incremental split. -/
def incremental (s : IncrementalSplit) : Act Plan := do
  let batch ← bindTables s {} s.tableIds
  Act.commit batch
  Act.ask (Server.ensureResumable s.startingOffset)
  Act.ofOutcome (match encodingFault s with
    | some f => .error f
    | none => .ok ())
  Act.ask Server.resetListeners
  let log ← Act.ask (Server.openStream s.startingOffset)
  return { producer := .stream ⟨⟨s.tableIds⟩, s.endingOffset, s.finishedSplits⟩ log
           mode := .passThrough
           start := s.startingOffset }

/-- The plan for a split. -/
def make (config : FetchConfig) : Split → Act Plan
  | .snapshot s => snapshot config s
  | .incremental s => incremental s

/-- The session that carries out a plan. -/
def session (p : Plan) (config : FetchConfig) (split : Split) : Session :=
  { work := .running p.producer
    queue := { settings := .forSplit config split }
    reader :=
      { mode := p.mode, maxBatchSize := config.maxBatchSize, offset := p.start,
        lifecycle := (Lifecycle.mk split.splitId .assigned).moveIfAllowed .opened } }

end Plan

/-- How far a task has come. -/
inductive Stage where
  | fresh
  /-- The split could not be configured. -/
  | refused (split : Split)
  | prepared (split : Split) (session : Session)
  | reading (split : Split) (session : Session)

/-- A task that reads one split. -/
structure Task where
  config : FetchConfig
  stage : Stage := .fresh
  closed : Bool := false

namespace Task

/-- The split of the task, once it has one. -/
def split? (t : Task) : Option Split :=
  match t.stage with
  | .fresh => none
  | .refused split | .prepared split _ | .reading split _ => some split

/-- The producer, queue and reader of the task, once it is configured. -/
def session? (t : Task) : Option Session :=
  match t.stage with
  | .fresh | .refused _ => none
  | .prepared _ session | .reading _ session => some session

/-- Where the split is in its life. -/
def state? (t : Task) : Option SplitState :=
  match t.stage with
  | .fresh => none
  | .refused _ => some .failed
  | .prepared _ session | .reading _ session => some session.reader.lifecycle.state

/-- The position of the last record taken, or the start. -/
def offset (t : Task) : Offset :=
  match t.session? with
  | none => .initial
  | some session => session.reader.offset

/-- The counters after a split was refused. -/
def countRefusal (m : Metrics) : Fault → Metrics
  | .offsetNotAvailable .. => m.recordUnresumable.recordSplitFailed
  | _ => m.recordSplitFailed

/-- Configures the task for a split. -/
def configure (t : Task) (split : Split) (sh : Shared) : Outcome Unit × Task × Shared :=
  match t.stage with
  | .fresh =>
    if t.closed then (.error (.invalidState .closed), t, sh)
    else
      match Plan.make t.config split { sh with metrics := sh.metrics.recordSplitStarted } with
      | (.ok plan, sh) =>
        (.ok (), { t with stage := .prepared split (plan.session t.config split) }, sh)
      | (.error f, sh) =>
        (.error f, { t with stage := .refused split },
          { sh with metrics := countRefusal sh.metrics f })
  | _ => (.error (.invalidState .alreadyConfigured), t, sh)

/-- Starts reading. -/
def read (t : Task) : Outcome Unit × Task :=
  match t.stage, t.closed with
  | .reading .., _ => (.error (.invalidState .readAlreadyStarted), t)
  | _, true => (.error (.invalidState .closed), t)
  | .fresh, false => (.error (.invalidState .notConfigured), t)
  | .refused split, false => (.error (.invalidState (.configureFailed split.splitId.text)), t)
  | .prepared split session, false =>
    let reader :=
      { session.reader with lifecycle := session.reader.lifecycle.moveIfAllowed .reading }
    (.ok (), { t with stage := .reading split { session with reader } })

/-- The next batch of a task that is being read. -/
def nextBatch (t : Task) (sh : Shared) : Batch × Task × Shared :=
  match t.stage with
  | .reading split session =>
    let (batch, session, sh) := session.nextBatch sh
    (batch, { t with stage := .reading split session }, sh)
  | _ => (.ended, t, sh)

/-- Reads a task that is being read to the end. -/
def drain (t : Task) (sh : Shared) : List (List ChangeEvent) × Session.Stop × Task × Shared :=
  match t.stage with
  | .reading split session =>
    let (batches, stop, session, sh) := session.drain sh
    (batches, stop, { t with stage := .reading split session }, sh)
  | _ => ([], .ended, t, sh)

/-- What the reader reports of a split that it has read to its end. -/
def completion? (t : Task) : Option SplitCompletion :=
  match t.stage with
  | .reading _ session => session.reader.completion
  | _ => none

/-- The stage with its queue closed. -/
def closeStage : Stage → Stage
  | .prepared split session => .prepared split session.close
  | .reading split session => .reading split session.close
  | stage => stage

/-- Closes the task, and its connection once.  That the connection does not close is no fault. -/
def close (t : Task) (sh : Shared) : Task × Shared :=
  let stage := closeStage t.stage
  if t.closed then ({ t with stage }, sh)
  else ({ t with stage, closed := true }, (Act.ask Server.close sh).2)

end Task
end Changefeed
