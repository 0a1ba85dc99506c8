import Changefeed.Schema.Record

/-!
# Changes and log records

A log record is a row change with positional images, a change of a table's layout, or a heartbeat,
which moves the position and nothing else.  Decoding turns a row change into a change event, whose
images name their columns.
-/

namespace Changefeed

/-- What happened to a row.  A row read by a snapshot counts as inserted. -/
inductive ChangeKind where
  | insert
  | update
  | delete
deriving DecidableEq, Repr

namespace ChangeKind

/-- The kind as messages name it. -/
def name : ChangeKind → String
  | .insert => "Insert"
  | .update => "Update"
  | .delete => "Delete"

/-- The change comes with the row before it. -/
def hasBefore : ChangeKind → Bool
  | .insert => false
  | .update | .delete => true

/-- The change comes with the row after it. -/
def hasAfter : ChangeKind → Bool
  | .insert | .update => true
  | .delete => false

end ChangeKind

/-- A change of a row, with named columns. -/
structure ChangeEvent where
  position : Offset
  tableId : TableId
  kind : ChangeKind
  before : Option Json.Object
  after : Option Json.Object
  /-- Milliseconds since the epoch. -/
  timestampMs : Int

namespace ChangeEvent

/-- An inserted row. -/
def insert (position : Offset) (tableId : TableId) (after : Json.Object) (timestampMs : Int) :
    ChangeEvent :=
  { position, tableId, kind := .insert, before := none, after := some after, timestampMs }

/-- An updated row. -/
def update (position : Offset) (tableId : TableId) (before after : Json.Object)
    (timestampMs : Int) : ChangeEvent :=
  { position, tableId, kind := .update, before := some before, after := some after, timestampMs }

/-- A deleted row. -/
def delete (position : Offset) (tableId : TableId) (before : Json.Object) (timestampMs : Int) :
    ChangeEvent :=
  { position, tableId, kind := .delete, before := some before, after := none, timestampMs }

/-- The image that identifies the row: the one before for a delete, else the one after if there is
one. -/
def row (e : ChangeEvent) : Option Json.Object :=
  match e.kind with
  | .delete => e.before
  | .insert | .update => e.after.or e.before

/-- The value of a column in the image that identifies the row. -/
def keyValue (e : ChangeEvent) (column : String) : Option Json.Value :=
  e.row.bind fun r => r.find? column

end ChangeEvent

/-! ## Sizes -/

mutual

/-- The size of a value: that of its strings and names, eight for a number, one for the rest. -/
def valueSize : Json.Value → Nat
  | .null => 1
  | .bool _ => 1
  | .number _ => 8
  | .string s => s.utf8ByteSize
  | .array items => itemsSize items
  | .object fields => fieldsSize fields

/-- The sizes of values, added up. -/
def itemsSize : List Json.Value → Nat
  | [] => 0
  | v :: vs => valueSize v + itemsSize vs

/-- The sizes of names and values, added up. -/
def fieldsSize : List (String × Json.Value) → Nat
  | [] => 0
  | (name, v) :: rest => name.utf8ByteSize + valueSize v + fieldsSize rest

end

/-- The size of a change event apart from its texts and images. -/
def eventBaseSize : Nat := 160

/-- The size of a position. -/
def offsetSize : Nat := 32

/-- A rough size in memory, which byte limits count. -/
def ChangeEvent.estimatedSize (e : ChangeEvent) : Nat :=
  eventBaseSize + e.tableId.database.utf8ByteSize + e.tableId.table.utf8ByteSize
    + (e.before.elim 0 fieldsSize) + (e.after.elim 0 fieldsSize)

/-! ## Log records -/

/-- A change of a row as the log holds it: the values of the columns in order. -/
structure RowChange where
  position : Offset
  tableId : TableId
  kind : ChangeKind
  before : Option (List Json.Value)
  after : Option (List Json.Value)
  /-- Milliseconds since the epoch. -/
  timestampMs : Int := 0

namespace RowChange

/-- An inserted row. -/
def insert (position : Offset) (tableId : TableId) (after : List Json.Value) : RowChange :=
  { position, tableId, kind := .insert, before := none, after := some after }

/-- An updated row. -/
def update (position : Offset) (tableId : TableId) (before after : List Json.Value) : RowChange :=
  { position, tableId, kind := .update, before := some before, after := some after }

/-- A deleted row. -/
def delete (position : Offset) (tableId : TableId) (before : List Json.Value) : RowChange :=
  { position, tableId, kind := .delete, before := some before, after := none }

/-- The change with a time. -/
def withTimestamp (c : RowChange) (timestampMs : Int) : RowChange := { c with timestampMs }

end RowChange

/-- An entry of the change log. -/
inductive LogRecord where
  | change (c : RowChange)
  | schemaChange (r : SchemaRecord)
  | heartbeat (position : Offset)

/-- Where the entry stands in the log. -/
def LogRecord.position : LogRecord → Offset
  | .change c => c.position
  | .schemaChange r => r.position
  | .heartbeat position => position

end Changefeed
