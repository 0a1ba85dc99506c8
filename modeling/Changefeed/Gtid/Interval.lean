import Changefeed.Fault

/-!
# Transaction intervals

Transactions of one source are numbered from 0 to `2 ^ 64 - 1`.  An interval holds the numbers from
its first to its last, both included.  A list of intervals is *coalesced* when its intervals ascend
and two consecutive ones leave out at least one number between them; `coalesce` brings a list sorted
by first number into that form without changing which numbers it holds.
-/

namespace Changefeed

/-- The numbers from `first` to `last`. -/
structure Interval where
  first : UInt64
  last : UInt64
deriving DecidableEq, Repr

namespace Interval

/-- The greatest transaction number. -/
def maxTxn : UInt64 := 0xFFFFFFFFFFFFFFFF

/-- The next number; the greatest one has itself. -/
def succ (t : UInt64) : UInt64 := if t = maxTxn then t else t + 1

/-- An interval with its ends in order. -/
def make (first last : UInt64) : Outcome Interval :=
  if last < first then .error (.config (.reversedInterval first last)) else .ok ⟨first, last⟩

/-- The number lies in the interval. -/
def contains (i : Interval) (t : UInt64) : Bool := i.first ≤ t && t ≤ i.last

/-- `j` lies inside `i`. -/
def covers (i j : Interval) : Bool := i.first ≤ j.first && j.last ≤ i.last

/-- The two overlap or leave no number out between them. -/
def touches (i j : Interval) : Bool := i.first ≤ succ j.last && j.first ≤ succ i.last

/-- Order by first number, then by last. -/
instance : Ord Interval where
  compare i j := (compare i.first j.first).then (compare i.last j.last)

/-- The interval as text: one number, or two with a dash. -/
def chars (i : Interval) : List Char :=
  if i.first = i.last then Text.numeral i.first.toNat
  else Text.numeral i.first.toNat ++ '-' :: Text.numeral i.last.toNat

/-! ## Lists of intervals -/

/-- Inserts before the first interval that is greater. -/
def insertSorted (i : Interval) : List Interval → List Interval
  | [] => [i]
  | j :: rest => if compare i j = .gt then j :: insertSorted i rest else i :: j :: rest

/-- The intervals in order. -/
def sort (is : List Interval) : List Interval := is.foldr insertSorted []

/-- Extends `current` by the intervals that follow it as long as they touch it. -/
def coalesceFrom (current : Interval) : List Interval → List Interval
  | [] => [current]
  | j :: rest =>
    if current.touches j then coalesceFrom ⟨current.first, max current.last j.last⟩ rest
    else current :: coalesceFrom j rest

/-- Joins the intervals of a sorted list that touch. -/
def coalesce : List Interval → List Interval
  | [] => []
  | i :: rest => coalesceFrom i rest

/-- The coalesced list that holds the same numbers. -/
def normalize (is : List Interval) : List Interval := coalesce (sort is)

/-- What is left of `i` without the numbers of `r`. -/
def remove (i r : Interval) : List Interval :=
  if r.last < i.first || i.last < r.first then [i]
  else
    (if i.first < r.first then [⟨i.first, r.first - 1⟩] else [])
      ++ (if r.last < i.last then [⟨r.last + 1, i.last⟩] else [])

/-- What is left of `i` without the numbers of any of the intervals. -/
def removeAll (i : Interval) (removed : List Interval) : List Interval :=
  removed.foldl (fun pieces r => pieces.flatMap (remove · r)) [i]

end Interval
end Changefeed
