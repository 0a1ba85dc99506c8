import Changefeed.Json.Value

/-!
# JSON documents

A document is a JSON text as it was written: fields keep their order, and a repeated field is kept
twice.  Two things that a text may hold have no value: a number beyond the range of doubles, and a
string with a lone surrogate or with bytes that are no character.  They stay in the document as
unreadable parts (`none`), and matter only to a reader that looks at them.  Containers nested more
than 127 levels deep have no value either; `room` counts the levels that are left.
-/

namespace Changefeed
namespace Json

/-- A JSON text as a tree. -/
inductive Doc where
  | null
  | bool (b : Bool)
  | number (n : Option Number)
  | string (s : Option String)
  | array (items : List Doc)
  | object (fields : List (Option String × Doc))
deriving Inhabited

/-- The number of levels that a text may nest containers. -/
def maxLevels : Nat := 127

namespace Doc

/-- A readable string. -/
def text (s : String) : Doc := .string (some s)

/-- A readable integer. -/
def int (n : Int) : Doc := .number (some (.int n))

/-- A natural number. -/
def nat (n : Nat) : Doc := int n

/-- An object with these fields in this order. -/
def record (fields : List (String × Doc)) : Doc :=
  .object (fields.map fun (name, d) => (some name, d))

/-- A value that may be absent, written as null. -/
def orNull {α : Type} (write : α → Doc) : Option α → Doc
  | none => .null
  | some a => write a

/-- A field that is left out when its value is absent. -/
def fieldIfSome {α : Type} (name : String) (write : α → Doc) : Option α → List (String × Doc)
  | none => []
  | some a => [(name, write a)]

mutual

/-- Every part of the document is readable, and containers nest at most `room` levels deep. -/
def readable (room : Nat) : Doc → Bool
  | .null => true
  | .bool _ => true
  | .number n => n.isSome
  | .string s => s.isSome
  | .array items => room ≠ 0 && readableItems (room - 1) items
  | .object fields => room ≠ 0 && readableFields (room - 1) fields

/-- All items are readable. -/
def readableItems (room : Nat) : List Doc → Bool
  | [] => true
  | d :: ds => readable room d && readableItems room ds

/-- All fields have readable names and values. -/
def readableFields (room : Nat) : List (Option String × Doc) → Bool
  | [] => true
  | (name, d) :: rest => name.isSome && readable room d && readableFields room rest

end

mutual

/-- The value of a document: of a repeated field the last one counts, and fields are put in order.
-/
def value? (room : Nat) : Doc → Option Value
  | .null => some .null
  | .bool b => some (.bool b)
  | .number n => n.map .number
  | .string s => s.map .string
  | .array items => if room = 0 then none else (values? (room - 1) items).map .array
  | .object fields => if room = 0 then none else (fields? (room - 1) [] fields).map .object

/-- The values of the items, in order. -/
def values? (room : Nat) : List Doc → Option (List Value)
  | [] => some []
  | d :: ds => (value? room d).bind fun v => (values? room ds).map (v :: ·)

/-- The fields added to those already there. -/
def fields? (room : Nat) (sofar : Object) : List (Option String × Doc) → Option Object
  | [] => some sofar
  | (name, d) :: rest =>
    name.bind fun n => (value? room d).bind fun v => fields? room (sofar.insert n v) rest

end

mutual

/-- A value as a document. -/
def ofValue : Value → Doc
  | .null => .null
  | .bool b => .bool b
  | .number n => .number (some n)
  | .string s => .string (some s)
  | .array items => .array (ofValues items)
  | .object fields => .object (ofFields fields)

/-- The items as documents. -/
def ofValues : List Value → List Doc
  | [] => []
  | v :: vs => ofValue v :: ofValues vs

/-- The fields as documents. -/
def ofFields : List (String × Value) → List (Option String × Doc)
  | [] => []
  | (name, v) :: rest => (some name, ofValue v) :: ofFields rest

end

end Doc
end Json
end Changefeed
