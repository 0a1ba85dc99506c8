import Changefeed.Json.Value

/-!
# Chunk keys

Tables are read in chunks of a key column.  Two numbers compare by value, two strings by their
characters, and any other two values not at all.  Integers of 63 bits and a sign compare exactly; as
soon as one of two numbers is none of these, both are compared as doubles.  A range has an inclusive
low end and an exclusive high end, either of which may be open, and holds no incomparable key.
-/

namespace Changefeed
namespace Key

/-- The order of two doubles; none when one is not a number. -/
def compareFloats (x y : Float) : Option Ordering :=
  if x < y then some .lt
  else if x == y then some .eq
  else if y < x then some .gt
  else none

/-- The order of two numbers. -/
def compareNumbers (a b : Json.Number) : Option Ordering :=
  match a.toInt63?, b.toInt63? with
  | some x, some y => some (compare x y)
  | _, _ => compareFloats a.toFloat b.toFloat

/-- How key `a` stands to key `b`; `none` when the two are incomparable. -/
def compare? (a b : Json.Value) : Option Ordering :=
  match a, b with
  | .number x, .number y => compareNumbers x y
  | .string s, .string t => some (compare s t)
  | _, _ => none

end Key

/-- A range of keys; an end that is `none` is open. -/
structure KeyRange where
  low : Option Json.Value
  high : Option Json.Value

namespace KeyRange

/-- All keys. -/
def full : KeyRange := ⟨none, none⟩

/-- The key is not below the low end. -/
def aboveLow (r : KeyRange) (key : Json.Value) : Bool :=
  match r.low with
  | none => true
  | some low => Key.compare? key low = some .gt || Key.compare? key low = some .eq

/-- The key is below the high end. -/
def belowHigh (r : KeyRange) (key : Json.Value) : Bool :=
  match r.high with
  | none => true
  | some high => Key.compare? key high = some .lt

/-- The key lies in the range. -/
def contains (r : KeyRange) (key : Json.Value) : Bool := r.aboveLow key && r.belowHigh key

end KeyRange
end Changefeed
