import Changefeed.Text.Blank
import Changefeed.Text.Numeral

/-!
# Instants

An instant is a date and a time of day in UTC, down to the nanosecond; second 60 of a minute is a
leap second.  It is written as `2024-01-02T03:04:05.678Z`, with 0, 3, 6 or 9 digits of a second,
whichever is the least that is exact.

Reading is more lenient: the parts of date and time may have fewer digits and blanks in front, the
two may be separated by `T`, `t` or a blank, the offset from UTC is `Z`, `z`, `UTC` or a sign with
hours and minutes, and digits of a second beyond the ninth are dropped.
-/

namespace Changefeed

/-- A day of the calendar. -/
structure Day where
  year : Int
  month : Nat
  day : Nat
deriving DecidableEq, Repr

namespace Day

/-- Every fourth year, except the hundredth ones that are not four-hundredth ones. -/
def isLeap (year : Int) : Bool := year % 4 = 0 && (year % 100 ≠ 0 || year % 400 = 0)

/-- The number of days of a month. -/
def daysIn (year : Int) (month : Nat) : Nat :=
  if month = 2 then (if isLeap year then 29 else 28)
  else if month = 4 ∨ month = 6 ∨ month = 9 ∨ month = 11 then 30 else 31

/-- The first year of the calendar. -/
def firstYear : Int := -262143

/-- The last year of the calendar. -/
def lastYear : Int := 262142

/-- The calendar has this day. -/
def isValid (d : Day) : Bool :=
  firstYear ≤ d.year && d.year ≤ lastYear && 1 ≤ d.month && d.month ≤ 12 && 1 ≤ d.day
    && d.day ≤ daysIn d.year d.month

/-- The day after. -/
def next (d : Day) : Day :=
  if d.day < daysIn d.year d.month then { d with day := d.day + 1 }
  else if d.month < 12 then ⟨d.year, d.month + 1, 1⟩
  else ⟨d.year + 1, 1, 1⟩

/-- The day before. -/
def previous (d : Day) : Day :=
  if 1 < d.day then { d with day := d.day - 1 }
  else if 1 < d.month then ⟨d.year, d.month - 1, daysIn d.year (d.month - 1)⟩
  else ⟨d.year - 1, 12, 31⟩

end Day

/-- A moment, in UTC. -/
structure Instant where
  date : Day
  /-- The minute of the day. -/
  minute : Nat
  /-- The second of the minute, 60 in a leap second. -/
  second : Nat
  nanos : Nat
deriving DecidableEq, Repr

namespace Instant

/-! ## Writing -/

/-- A year: four digits, or a sign and at least four digits outside of 0 to 9999. -/
def yearText (year : Int) : List Char :=
  if 0 ≤ year ∧ year ≤ 9999 then Text.padded 4 year.natAbs
  else (if year < 0 then '-' else '+') :: Text.padded 4 year.natAbs

/-- The digits of a second: none, three, six or nine. -/
def fractionText (nanos : Nat) : List Char :=
  if nanos = 0 then []
  else if nanos % 1000000 = 0 then '.' :: Text.padded 3 (nanos / 1000000)
  else if nanos % 1000 = 0 then '.' :: Text.padded 6 (nanos / 1000)
  else '.' :: Text.padded 9 nanos

/-- The instant as text. -/
def text (t : Instant) : String :=
  String.ofList (yearText t.date.year ++ '-' :: Text.padded 2 t.date.month
    ++ '-' :: Text.padded 2 t.date.day ++ 'T' :: Text.padded 2 (t.minute / 60)
    ++ ':' :: Text.padded 2 (t.minute % 60) ++ ':' :: Text.padded 2 t.second
    ++ fractionText t.nanos ++ ['Z'])

/-! ## Reading -/

/-- Up to `width` digits at the front, at least one: their number, how many, and the rest. -/
def digits (width : Nat) (s : List Char) : Option (Nat × Nat × List Char) :=
  let ds := (s.take width).takeWhile Text.isDigit
  (Text.readNat ds).map fun n => (n, ds.length, s.drop ds.length)

/-- A number of up to `width` digits after blanks, within bounds. -/
def part (width low high : Nat) (s : List Char) : Option (Nat × List Char) :=
  (digits width (Text.trimStart s)).bind fun (n, _, rest) =>
    if low ≤ n ∧ n ≤ high then some (n, rest) else none

/-- A separator after blanks. -/
def separator (c : Char) (s : List Char) : Option (List Char) :=
  match Text.trimStart s with
  | c' :: rest => if c' = c then some rest else none
  | [] => none

/-- A year: four digits at most, or a sign and any number of digits. -/
def year (s : List Char) : Option (Int × List Char) :=
  match Text.trimStart s with
  | '-' :: rest => (digits rest.length rest).map fun (n, _, r) => (-n, r)
  | '+' :: rest => (digits rest.length rest).map fun (n, _, r) => (n, r)
  | s => (digits 4 s).map fun (n, _, r) => (n, r)

/-- A point and the digits of a second, if there is a point. -/
def nanosPart (s : List Char) : Option (Nat × List Char) :=
  match s with
  | '.' :: rest =>
    (digits 9 rest).map fun (n, k, r) => (n * Nat.pow 10 (9 - k), r.dropWhile Text.isDigit)
  | _ => some (0, s)

/-- A two-digit number up to 99 or below 60. -/
def twoDigits (bound : Nat) : List Char → Option (Nat × List Char)
  | a :: b :: rest =>
    (Text.readNat [a, b]).bind fun n => if n < bound then some (n, rest) else none
  | _ => none

/-- Hours and minutes of an offset, in minutes. -/
def offsetMinutes (s : List Char) : Option (Nat × List Char) :=
  (twoDigits 100 s).bind fun (hours, rest) =>
    (twoDigits 60 (rest.dropWhile fun c => c = ':' || Text.isBlank c)).map fun (minutes, r) =>
      (hours * 60 + minutes, r)

/-- The offset from UTC in minutes. -/
def zone (s : List Char) : Option (Int × List Char) :=
  match s with
  | 'Z' :: rest => some (0, rest)
  | 'z' :: rest => some (0, rest)
  | '+' :: rest => (offsetMinutes rest).map fun (n, r) => ((n : Int), r)
  | '-' :: rest => (offsetMinutes rest).map fun (n, r) => (-(n : Int), r)
  | '\u2212' :: rest => (offsetMinutes rest).map fun (n, r) => (-(n : Int), r)
  | a :: b :: c :: rest =>
    if [a, b, c].map Char.toUpper = ['U', 'T', 'C'] then some (0, rest) else none
  | _ => none

/-- A local time at an offset of less than a day, as an instant. -/
def ofLocal (date : Day) (minute second nanos : Nat) (offset : Int) : Option Instant :=
  let utc : Int := minute - offset
  let t : Instant :=
    if utc < 0 then ⟨date.previous, (utc + 1440).toNat, second, nanos⟩
    else if 1440 ≤ utc then ⟨date.next, (utc - 1440).toNat, second, nanos⟩
    else ⟨date, utc.toNat, second, nanos⟩
  if date.isValid && offset.natAbs < 1440 && t.date.isValid then some t else none

/-- The separator between date and time. -/
def dateEnd : List Char → Option (List Char)
  | 'T' :: rest => some rest
  | 't' :: rest => some rest
  | ' ' :: rest => some rest
  | _ => none

/-- The instant that a text names. -/
def parse? (s : String) : Option Instant := do
  let (year, s) ← year s.toList
  let s ← separator '-' s
  let (month, s) ← part 2 1 12 s
  let s ← separator '-' s
  let (day, s) ← part 2 1 31 s
  let s ← dateEnd s
  let (hour, s) ← part 2 0 23 s
  let s ← separator ':' s
  let (minute, s) ← part 2 0 59 s
  let s ← separator ':' s
  let (second, s) ← part 2 0 60 s
  let (nanos, s) ← nanosPart s
  let (offset, s) ← zone (Text.trimStart s)
  if Text.trimStart s = [] then
    ofLocal ⟨year, month, day⟩ (hour * 60 + minute) second nanos offset
  else none

end Instant
end Changefeed
