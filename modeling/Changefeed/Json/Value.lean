import Changefeed.Decimal.Notation
import Changefeed.SortedMap

/-!
# JSON values

The values that rows, keys and images are made of.  A number is an integer of at most 64 bits or a
double; an object has each name once, in ascending order of the names.
-/

namespace Changefeed
namespace Json

/-- A number: an integer from `-2 ^ 63` to `2 ^ 64 - 1`, or a finite double. -/
inductive Number where
  | int (n : Int)
  | double (x : Float)
deriving DecidableEq

/-- A JSON value. -/
inductive Value where
  | null
  | bool (b : Bool)
  | number (n : Number)
  | string (s : String)
  | array (items : List Value)
  | object (fields : List (String × Value))
deriving Inhabited

/-- The fields of an object. -/
abbrev Object := SortedMap String Value

/-- The least integer that a number can be: `-2 ^ 63`. -/
def Number.minInt : Int := -0x8000000000000000

/-- The greatest integer that a number can be: `2 ^ 64 - 1`. -/
def Number.maxInt : Int := 0xFFFFFFFFFFFFFFFF

/-- The integer, when it is one and fits 63 bits and a sign. -/
def Number.toInt63? : Number → Option Int
  | .int n => if n < 0x8000000000000000 then some n else none
  | .double _ => none

/-- The closest double. -/
def Number.toFloat : Number → Float
  | .int n => Float.ofInt n
  | .double x => x

/-- A number as text. -/
def Number.text : Number → List Char
  | .int n => Text.signedNumeral n
  | .double x => Decimal.floatText x

namespace Value

/-- The value of a field; `null` when the object has no such field or the value is no object. -/
def get (v : Value) (name : String) : Value :=
  match v with
  | .object fields => (SortedMap.find? fields name).getD .null
  | _ => .null

/-- The value is an object with this field. -/
def has (v : Value) (name : String) : Bool :=
  match v with
  | .object fields => SortedMap.contains fields name
  | _ => false

end Value
end Json
end Changefeed
