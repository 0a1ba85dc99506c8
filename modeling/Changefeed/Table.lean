import Changefeed.Fault
import Changefeed.Text.Pieces

/-!
# Table names

A table is named by its database and its name in it, written with a point between the two.  Reading
cuts at the first point, so a database name with a point is not read back.
-/

namespace Changefeed

/-- A table of a database. -/
structure TableId where
  database : String
  table : String
deriving DecidableEq, Repr, Inhabited

namespace TableId

/-- Order by database, then by table. -/
instance : Ord TableId where
  compare a b := (compare a.database b.database).then (compare a.table b.table)

/-- The name as characters. -/
def chars (t : TableId) : List Char := t.database.toList ++ '.' :: t.table.toList

/-- The name as text. -/
def text (t : TableId) : String := String.ofList t.chars

/-- The table of a text with a point and something on both sides of it. -/
def parse (text : String) : Outcome TableId :=
  match Text.cutFirst '.' text.toList with
  | some (database, table) =>
    if database = [] ∨ table = [] then .error (.config (.badTableId text))
    else .ok ⟨String.ofList database, String.ofList table⟩
  | none => .error (.config (.badTableId text))

end TableId
end Changefeed
