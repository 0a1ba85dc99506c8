/-!
# Decimal numerals

Natural numbers are written without leading zeros.  They are read from one ASCII digit or more, with
leading zeros allowed; a counting number of 64 bits may also carry a plus sign, and must fit.
-/

namespace Changefeed
namespace Text

/-- The value of an ASCII digit. -/
def digitValue (c : Char) : Option Nat :=
  if '0' ≤ c ∧ c ≤ '9' then some (c.toNat - 48) else none

/-- The character is an ASCII digit. -/
def isDigit (c : Char) : Bool := (digitValue c).isSome

/-- Continues a number of value `acc` with more digits. -/
def readDigits (acc : Nat) : List Char → Option Nat
  | [] => some acc
  | c :: rest => (digitValue c).bind fun d => readDigits (acc * 10 + d) rest

/-- A natural number: one digit or more and nothing else. -/
def readNat : List Char → Option Nat
  | [] => none
  | c :: rest => readDigits 0 (c :: rest)

/-- A natural number below `2 ^ 64`, with or without a plus sign. -/
def readWord (s : List Char) : Option UInt64 :=
  let digits := match s with
    | '+' :: rest => rest
    | _ => s
  match readNat digits with
  | some n => if h : n < UInt64.size then some (UInt64.ofNatLT n h) else none
  | none => none

/-- The decimal digits of a natural number. -/
def numeral (n : Nat) : List Char := Nat.toDigits 10 n

/-- A natural number as text. -/
def decimal (n : Nat) : String := String.ofList (numeral n)

/-- An integer as text. -/
def signedNumeral : Int → List Char
  | .ofNat n => numeral n
  | .negSucc n => '-' :: numeral (n + 1)

/-- A numeral with zeros in front, at least `width` digits long. -/
def padded (width n : Nat) : List Char :=
  List.replicate (width - (numeral n).length) '0' ++ numeral n

end Text
end Changefeed
