import Changefeed.Decimal.Shortest

/-!
# How doubles are written

A double is written with the fewest digits that read back.  From `1e-5` up to, but not including,
`1e16` it is written positionally and always with a point; outside that range with an exponent,
whose sign is always present and whose digits are not padded.
-/

namespace Changefeed
namespace Decimal

/-- The least exponent of a leading digit that is written positionally. -/
def plainFrom : Int := -5

/-- The least exponent of a leading digit that is not written positionally any more. -/
def plainBelow : Int := 16

/-- Digits with a point after the first `n` of them. -/
def pointAfter (n : Nat) (ds : List Char) : List Char :=
  ds.take n ++ '.' :: ds.drop n

/-- A positive number in the notation above. -/
def Digits.text (d : Digits) : List Char :=
  let ds := Text.numeral d.digits
  let leading : Int := ds.length + d.exponent - 1
  if plainFrom ≤ leading ∧ leading < plainBelow then
    if 0 ≤ d.exponent then ds ++ List.replicate d.exponent.toNat '0' ++ ['.', '0']
    else if 0 ≤ leading then pointAfter (leading.toNat + 1) ds
    else '0' :: '.' :: (List.replicate (-leading - 1).toNat '0' ++ ds)
  else
    let mark := if leading < 0 then ['e', '-'] else ['e', '+']
    let head := if ds.length = 1 then ds else pointAfter 1 ds
    head ++ mark ++ Text.numeral leading.natAbs

/-- A finite double as text. -/
def floatText (x : Float) : List Char :=
  let magnitude := Binary.ofFloat x
  let unsigned := if magnitude.mantissa = 0 then ['0', '.', '0'] else magnitude.shortest.text
  if isNegative x then '-' :: unsigned else unsigned

end Decimal
end Changefeed
