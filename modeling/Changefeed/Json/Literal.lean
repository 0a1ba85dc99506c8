import Changefeed.Json.Value

/-!
# Number literals

A literal without fraction and exponent is an integer as long as it fits 64 bits, signed or
unsigned; `-0` is the negative zero of the doubles.  Every other literal is a double: the leading
digits that fit 64 bits form its significand, and one multiplication or division by a power of ten
scales it (below `1e-308` one more division comes first).  A literal beyond the largest double has
no value.
-/

namespace Changefeed
namespace Json

/-- A number literal in its parts. -/
structure Literal where
  negative : Bool
  /-- The digits before the point, at least one. -/
  whole : List Nat
  /-- The digits after the point, if there is a point. -/
  fraction : Option (List Nat)
  /-- The sign of the exponent (`true` for minus) and its digits, if there is an exponent. -/
  exponent : Option (Bool × List Nat)

namespace Literal

/-- Appends digits to a significand while it fits 64 bits; also counts the digits left over. -/
def gather (significand : Nat) : List Nat → Nat × Nat
  | [] => (significand, 0)
  | d :: ds =>
    if significand * 10 + d < 0x10000000000000000 then gather (significand * 10 + d) ds
    else (significand, ds.length + 1)

/-- The power of ten as a double, for exponents up to 308. -/
def powerOfTen (n : Nat) : Float := Float.ofScientific 1 false n

/-- `x * 10 ^ e` in double arithmetic; `none` beyond the largest double. -/
def scale : Nat → Float → Int → Option Float
  | 0, x, _ => some x
  | steps + 1, x, e =>
    if e.natAbs ≤ 308 then
      if 0 ≤ e then
        let y := x * powerOfTen e.natAbs
        if y.isInf then none else some y
      else some (x / powerOfTen e.natAbs)
    else if x == 0 then some x
    else if 0 ≤ e then none
    else scale steps (x / powerOfTen 308) (e + 308)

/-- The value of an exponent's digits, or `none` when it does not fit 31 bits. -/
def smallExponent (ds : List Nat) : Option Nat :=
  let n := ds.foldl (fun n d => if n < 0x80000000 then n * 10 + d else n) 0
  if n < 0x80000000 then some n else none

/-- The double for a significand, an exponent of ten, and the literal's own exponent. -/
def toDouble? (l : Literal) (significand : Nat) (e : Int) : Option Float :=
  let unsigned := Float.ofNat significand
  let scaled := match l.exponent with
    | none => scale 4 unsigned e
    | some (minus, ds) =>
      match smallExponent ds with
      | some n => scale 4 unsigned (if minus then e - n else e + n)
      | none => if significand ≠ 0 ∧ !minus then none else some 0
  scaled.map fun x => if l.negative then -x else x

/-- The number that a literal stands for. -/
def value? (l : Literal) : Option Number :=
  let (significand, rest) := gather 0 l.whole
  match l.fraction, l.exponent with
  | none, none =>
    if rest = 0 ∧ !l.negative then some (.int significand)
    else if rest = 0 ∧ 0 < significand ∧ significand ≤ 0x8000000000000000 then
      some (.int (-significand))
    else (l.toDouble? significand rest).map .double
  | none, some _ => (l.toDouble? significand rest).map .double
  | some ds, _ =>
    let (significand, unread) := gather significand ds
    (l.toDouble? significand ((rest : Int) - (ds.length - unread : Nat))).map .double

end Literal
end Json
end Changefeed
