import Changefeed.Decimal.Binary
import Changefeed.Text.Numeral

/-!
# The fewest digits that read back

`shortest` searches, for one digit, two digits and so on, the two neighbours of a double on the
decimal grid of that many digits.  The first grid with a neighbour that reads back wins; of two such
neighbours the closer one is taken, and on an exact tie the one with an even last digit.
-/

namespace Changefeed
namespace Decimal

/-- A scale at which every positive double is at least one. -/
def fineScale : Nat := 330

/-- The least `k` with `x < 10 ^ k`, for a positive `x`. -/
def Binary.magnitude (x : Binary) : Int :=
  ((Text.numeral (x.floorAt (-(fineScale : Int)))).length : Int) - fineScale

/-- The neighbours of `x` on the grid of `10 ^ i` that read back: of two the closer one. -/
def Binary.onGrid (x : Binary) (i : Int) : Option Digits :=
  let below : Digits := ⟨x.floorAt i, i⟩
  let above : Digits := ⟨x.floorAt i + 1, i⟩
  match x.readsBack below, x.readsBack above with
  | false, false => none
  | true, false => some below
  | false, true => some above
  | true, true =>
    match compareScaled (2 * below.digits + 1) i x.mantissa (x.exponent + 1) with
    | .gt => some below
    | .lt => some above
    | .eq => some (if below.digits % 2 = 0 then below else above)

/-- The same number without trailing zeros among its digits. -/
def Digits.strip : Nat → Digits → Digits
  | 0, d => d
  | n + 1, d =>
    if d.digits ≠ 0 ∧ d.digits % 10 = 0 then Digits.strip n ⟨d.digits / 10, d.exponent + 1⟩ else d

/-- The shortest decimal that rounds to `x`.  Seventeen digits always suffice. -/
def Binary.shortest (x : Binary) : Digits :=
  let k := x.magnitude
  match (List.range 17).findSome? fun n => x.onGrid (k - (n + 1 : Nat)) with
  | some d => d.strip 17
  | none => ⟨x.floorAt (k - 17), k - 17⟩

end Decimal
end Changefeed
