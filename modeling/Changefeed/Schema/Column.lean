/-!
# Columns

The columns of a table's layout.  A primary key column is never nullable: marking a column as a key
clears the other mark.
-/

namespace Changefeed

/-- A column of a table. -/
structure Column where
  name : String
  /-- The type in the database's own words. -/
  typeName : String
  typeId : Option Int := none
  /-- The place of the column, counted from 1. -/
  position : UInt32
  nullable : Bool := true
  primaryKey : Bool := false
  /-- The expression for a missing value. -/
  defaultValue : Option String := none
deriving DecidableEq, Repr

namespace Column

/-- The column with a type number. -/
def withTypeId (c : Column) (typeId : Int) : Column := { c with typeId := some typeId }

/-- The column with or without the nullable mark. -/
def withNullable (c : Column) (nullable : Bool) : Column := { c with nullable }

/-- The column with or without the key mark; a key is not nullable. -/
def withPrimaryKey (c : Column) (primaryKey : Bool) : Column :=
  { c with primaryKey, nullable := c.nullable && !primaryKey }

/-- The column with a default. -/
def withDefault (c : Column) (expression : String) : Column :=
  { c with defaultValue := some expression }

end Column
end Changefeed
