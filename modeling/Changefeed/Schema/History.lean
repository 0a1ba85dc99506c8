import Changefeed.Schema.Blob

/-!
# Layout histories

Rows of the log are positional, so reading one takes the layout that held where it was written.  A
history keeps the layout records of every table, none of them before one that is strictly later, and
answers which one held at a position: the last one that the position has reached.  Adding a record
that states the same layout at the same position as one already there changes nothing.

A batch gathers the records of one configuration: at most one per table, and nothing reaches the
history before the batch is committed.
-/

namespace Changefeed

/-- The records of one table with one more: before the first one that is strictly later. -/
def SchemaRecord.insertByPosition (r : SchemaRecord) : List SchemaRecord → List SchemaRecord
  | [] => [r]
  | s :: rest =>
    if s.position.after r.position then r :: s :: rest else s :: insertByPosition r rest

/-- The records of one table with one more, unless it is already there. -/
def SchemaRecord.addTo (r : SchemaRecord) (rs : List SchemaRecord) : List SchemaRecord :=
  if rs.any (·.sameLayoutAt r) then rs else r.insertByPosition rs

/-- The layout records of each table. -/
structure SchemaHistory where
  tables : SortedMap TableId (List SchemaRecord)
deriving DecidableEq

namespace SchemaHistory

/-- The history that knows no table. -/
def empty : SchemaHistory := ⟨[]⟩

instance : Inhabited SchemaHistory := ⟨empty⟩

/-- The records of a table, in order. -/
def records (h : SchemaHistory) (tableId : TableId) : List SchemaRecord :=
  (h.tables.find? tableId).getD []

/-- The history with a record more. -/
def append (h : SchemaHistory) (r : SchemaRecord) : SchemaHistory :=
  ⟨h.tables.insert r.tableId (r.addTo (h.records r.tableId))⟩

/-- The history with several records more. -/
def appendAll (h : SchemaHistory) (rs : List SchemaRecord) : SchemaHistory := rs.foldl append h

/-- The history with records of one table more; a record of another table is refused, and then none
is added. -/
def register (h : SchemaHistory) (tableId : TableId) (rs : List SchemaRecord) :
    Outcome SchemaHistory :=
  match rs.find? (·.tableId ≠ tableId) with
  | some foreign => .error (.schema (.foreignRecord foreign.tableId.text tableId.text))
  | none =>
    .ok ⟨h.tables.insert tableId (rs.foldl (fun acc r => r.addTo acc) (h.records tableId))⟩

/-- The last record of a table that a position has reached. -/
def schemaAt? (h : SchemaHistory) (tableId : TableId) (position : Offset) : Option SchemaRecord :=
  (h.records tableId).reverse.find? fun r => position.reached r.position

/-- The layout of a table at a position. -/
def schemaAt (h : SchemaHistory) (tableId : TableId) (position : Offset) : Outcome SchemaRecord :=
  match h.schemaAt? tableId position with
  | some r => .ok r
  | none => .error (.schemaUnknown tableId.text position.text)

/-- The first record of a table. -/
def earliest (h : SchemaHistory) (tableId : TableId) : Option SchemaRecord :=
  (h.records tableId).head?

/-- The last record of a table. -/
def latest (h : SchemaHistory) (tableId : TableId) : Option SchemaRecord :=
  (h.records tableId).getLast?

/-- The table has a record. -/
def contains (h : SchemaHistory) (tableId : TableId) : Bool := !(h.records tableId).isEmpty

/-- The number of records of a table. -/
def count (h : SchemaHistory) (tableId : TableId) : Nat := (h.records tableId).length

/-- The tables that records were added for, in order. -/
def tableIds (h : SchemaHistory) : List TableId := h.tables.keys

end SchemaHistory

/-- The records of one configuration, in the order they were given. -/
structure SchemaBatch where
  pending : List SchemaRecord := []
deriving DecidableEq

namespace SchemaBatch

/-- The batch with a record more; a second one of a table is refused. -/
def register (b : SchemaBatch) (r : SchemaRecord) : Outcome SchemaBatch :=
  if b.pending.any (·.tableId = r.tableId) then .error (.duplicateSchema r.tableId.text)
  else .ok ⟨b.pending ++ [r]⟩

/-- The batch with a serialised record more, which has to be one of the given table. -/
def registerBlob (b : SchemaBatch) (tableId : TableId) (blob : Blob) : Outcome SchemaBatch :=
  match SchemaRecord.ofBlob blob with
  | .error e => .error e
  | .ok r =>
    if r.tableId = tableId then b.register r
    else .error (.schema (.foreignBlob tableId.text r.tableId.text))

/-- The history with the records of the batch. -/
def commit (b : SchemaBatch) (h : SchemaHistory) : SchemaHistory := h.appendAll b.pending

end SchemaBatch

/-- Serialised layout records kept by table. -/
abbrev LayoutBackend := SortedMap TableId Blob

end Changefeed
