/-!
# Doubles as exact numbers

The magnitude of a finite double is `mantissa * 2 ^ exponent`.  The reals that round to it form an
interval around it, whose ends belong to it exactly when the mantissa is even; `readsBack` tests
whether a decimal lies in that interval, by comparing natural numbers.
-/

namespace Changefeed
namespace Decimal

/-- The magnitude of a finite double. -/
structure Binary where
  mantissa : Nat
  exponent : Int
  /-- The gap to the next smaller double is half the gap to the next larger one. -/
  narrowBelow : Bool
deriving DecidableEq, Repr

/-- Decodes the bits of a double; the sign bit is ignored.  The value has to be finite. -/
def Binary.ofBits (bits : UInt64) : Binary :=
  let biased := ((bits >>> 52) &&& 0x7FF).toNat
  let fraction := (bits &&& 0xFFFFFFFFFFFFF).toNat
  if biased = 0 then ⟨fraction, -1074, false⟩
  else ⟨0x10000000000000 + fraction, (biased : Int) - 1075, fraction = 0 && biased > 1⟩

/-- The magnitude of a finite double. -/
def Binary.ofFloat (x : Float) : Binary := Binary.ofBits x.toBits

/-- The double is below zero or is the negative zero. -/
def isNegative (x : Float) : Bool := x.toBits >>> 63 = 1

/-- The number `digits * 10 ^ exponent`. -/
structure Digits where
  digits : Nat
  exponent : Int
deriving DecidableEq, Repr

/-- Compares `a * 10 ^ i` with `b * 2 ^ j`. -/
def compareScaled (a : Nat) (i : Int) (b : Nat) (j : Int) : Ordering :=
  compare (a * Nat.pow 10 i.toNat * Nat.pow 2 (-j).toNat)
    (b * Nat.pow 2 j.toNat * Nat.pow 10 (-i).toNat)

/-- The decimal lies among the reals that round to `x`. -/
def Binary.readsBack (x : Binary) (d : Digits) : Bool :=
  let low := if x.narrowBelow then 4 * x.mantissa - 1 else 4 * x.mantissa - 2
  let high := 4 * x.mantissa + 2
  let closed := x.mantissa % 2 = 0
  let fromLow := compareScaled d.digits d.exponent low (x.exponent - 2)
  let fromHigh := compareScaled d.digits d.exponent high (x.exponent - 2)
  (fromLow = .gt || (closed && fromLow = .eq)) && (fromHigh = .lt || (closed && fromHigh = .eq))

/-- `floor (x * 10 ^ -i)`. -/
def Binary.floorAt (x : Binary) (i : Int) : Nat :=
  x.mantissa * Nat.pow 2 x.exponent.toNat * Nat.pow 10 (-i).toNat /
    (Nat.pow 2 (-x.exponent).toNat * Nat.pow 10 i.toNat)

/-- The quotient `num / den` rounded to the nearest natural number, a tie to the even one. -/
def roundDiv (num den : Nat) : Nat :=
  let q := num / den
  match compare (2 * (num % den)) den with
  | .lt => q
  | .gt => q + 1
  | .eq => if q % 2 = 0 then q else q + 1

/-- `x * 10 ^ places` rounded to the nearest natural number, a tie to the even one. -/
def Binary.roundAt (x : Binary) (places : Nat) : Nat :=
  roundDiv (x.mantissa * Nat.pow 2 x.exponent.toNat * Nat.pow 10 places)
    (Nat.pow 2 (-x.exponent).toNat)

end Decimal
end Changefeed
