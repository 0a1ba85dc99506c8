import Changefeed.Schema.Column
import Changefeed.Split

/-!
# Layout records

A layout record states the columns of one table from a position in the log on.  Making one puts the
columns in the order of their places; columns with the same place keep the order they came in.
-/

namespace Changefeed

/-- The columns of a table, valid from `position` on. -/
structure SchemaRecord where
  tableId : TableId
  columns : List Column
  position : Offset
  /-- The statement that made this layout, when it came from the log. -/
  ddl : Option String := none
  /-- Milliseconds since the epoch. -/
  timestampMs : Int := 0
deriving DecidableEq, Repr

namespace SchemaRecord

/-- Inserts before the first column with a greater place. -/
def insertColumn (c : Column) : List Column → List Column
  | [] => [c]
  | d :: rest => if d.position < c.position then d :: insertColumn c rest else c :: d :: rest

/-- Columns in the order of their places. -/
def sortColumns (cs : List Column) : List Column := cs.foldr insertColumn []

/-- A layout with its columns in order. -/
def make (tableId : TableId) (columns : List Column) (position : Offset) : SchemaRecord :=
  { tableId, columns := sortColumns columns, position }

/-- The names of the columns, in order. -/
def columnNames (r : SchemaRecord) : List String := r.columns.map Column.name

/-- The first column of that name. -/
def column? (r : SchemaRecord) (name : String) : Option Column :=
  r.columns.find? (·.name = name)

/-- The names of the key columns, in order. -/
def primaryKeyColumns (r : SchemaRecord) : List String :=
  (r.columns.filter Column.primaryKey).map Column.name

/-- Both records state the same layout at the same position. -/
def sameLayoutAt (r s : SchemaRecord) : Bool :=
  r.position = s.position && r.columns = s.columns && r.ddl = s.ddl

end SchemaRecord
end Changefeed
