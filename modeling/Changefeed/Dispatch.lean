import Changefeed.Event
import Changefeed.Schema.History

/-!
# Log records read with their layouts

A row change becomes a change event by the layout that the history holds for its position.  A
change of a layout extends the history, so that later rows are read with it.  Records of tables
that are not captured are skipped.
-/

namespace Changefeed

/-! ## Rows -/

/-- A positional image with its columns named. -/
def SchemaRecord.nameValues (schema : SchemaRecord) (position : Offset)
    (values : List Json.Value) : Outcome Json.Object :=
  if values.length = schema.columns.length then
    .ok (SortedMap.ofEntries (schema.columnNames.zip values))
  else .error (.malformedRecord
    (.wrongArity schema.tableId.text position.text values.length schema.columns.length))

/-- An image with its columns named, when there is one. -/
def SchemaRecord.nameImage (schema : SchemaRecord) (position : Offset) :
    Option (List Json.Value) → Outcome (Option Json.Object)
  | none => .ok none
  | some values => (schema.nameValues position values).map some

/-- The fault of an image that the kind of change does not go with. -/
def RowChange.imageFault (c : RowChange) (present : Bool) (image : String) : Fault :=
  .malformedRecord (.imageMismatch c.kind.name c.tableId.text c.position.text present image)

/-- Reads a row change with a known layout. -/
def RowChange.decodeWith (schema : SchemaRecord) (c : RowChange) : Outcome ChangeEvent :=
  if schema.tableId ≠ c.tableId then
    .error (.malformedRecord (.foreignLayout c.tableId.text schema.tableId.text))
  else if c.kind.hasBefore ≠ c.before.isSome then
    .error (c.imageFault c.before.isSome "a before")
  else if c.kind.hasAfter ≠ c.after.isSome then
    .error (c.imageFault c.after.isSome "an after")
  else do
    let before ← schema.nameImage c.position c.before
    let after ← schema.nameImage c.position c.after
    pure { position := c.position, tableId := c.tableId, kind := c.kind, before, after,
           timestampMs := c.timestampMs }

/-! ## Records -/

/-- What a log record amounts to. -/
inductive Dispatched where
  | event (e : ChangeEvent)
  /-- The history has been extended for this table. -/
  | schemaChanged (tableId : TableId)
  /-- The position moved on without data. -/
  | heartbeat (position : Offset)
  /-- The record belongs to a table that is not captured. -/
  | skipped

/-- The tables of one split. -/
structure Dispatcher where
  tables : List TableId

namespace Dispatcher

/-- The table is one of the split's. -/
def captures (d : Dispatcher) (tableId : TableId) : Bool := d.tables.contains tableId

/-- Reads a row change with the layout at its position. -/
def decode (h : SchemaHistory) (c : RowChange) : Outcome ChangeEvent :=
  match h.schemaAt c.tableId c.position with
  | .ok schema => c.decodeWith schema
  | .error e => .error e

/-- Takes a log record: what it amounts to, and the history after it. -/
def dispatch (d : Dispatcher) (h : SchemaHistory) : LogRecord → Outcome (Dispatched × SchemaHistory)
  | .change c =>
    if d.captures c.tableId then (decode h c).map fun e => (.event e, h) else .ok (.skipped, h)
  | .schemaChange r =>
    if d.captures r.tableId then .ok (.schemaChanged r.tableId, h.append r) else .ok (.skipped, h)
  | .heartbeat position => .ok (.heartbeat position, h)

end Dispatcher
end Changefeed
