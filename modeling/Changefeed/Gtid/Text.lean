import Changefeed.Gtid.Set
import Changefeed.Text.Blank
import Changefeed.Text.Pieces

/-!
# The text form of transaction sets

A set is written as its sources separated by commas, each followed by its intervals behind colons:
`s1:1-5:7,s2:9`.  In reading, white space is ignored wherever it stands, empty segments are skipped,
and a source may occur several times with intervals in any order.
-/

namespace Changefeed
namespace GtidSet

/-! ## Writing -/

/-- A source and its intervals. -/
def sourceChars (source : String) (is : List Interval) : List Char :=
  source.toList ++ is.flatMap fun i => ':' :: i.chars

/-- The set as characters. -/
def chars (s : GtidSet) : List Char :=
  Text.join ',' (s.sources.map fun (source, is) => sourceChars source is)

/-- The set as text. -/
def text (s : GtidSet) : String := String.ofList s.chars

/-! ## Reading -/

/-- A transaction number within a segment. -/
def readTxn (segment part : List Char) : Outcome UInt64 :=
  match Text.readWord part with
  | some n => .ok n
  | none => .error (.config (.notATransaction (String.ofList segment) (String.ofList part)))

/-- An interval within a segment: one number, or two with a dash. -/
def readInterval (segment part : List Char) : Outcome Interval :=
  match Text.cutFirst '-' part with
  | some (first, last) => do
    let first ← readTxn segment first
    let last ← readTxn segment last
    Interval.make first last
  | none => do
    let n ← readTxn segment part
    Interval.make n n

/-- Adds the intervals of a segment. -/
def readIntervals (segment : List Char) (source : String) (s : GtidSet) :
    List (List Char) → Outcome GtidSet
  | [] => .ok s
  | part :: rest => do
    let i ← readInterval segment part
    readIntervals segment source (s.add source i) rest

/-- Adds the transactions of a segment that is free of white space. -/
def readSegment (s : GtidSet) (segment : List Char) : Outcome GtidSet :=
  match Text.pieces ':' segment with
  | [] => .ok s
  | source :: parts =>
    if source = [] then
      .error (.config (.segmentWithoutSource (String.ofList segment)))
    else if parts = [] then
      .error (.config (.segmentWithoutIntervals (String.ofList segment)))
    else readIntervals segment (String.ofList source) s parts

/-- Adds the transactions of segments, skipping those that hold nothing but white space. -/
def readSegments (s : GtidSet) : List (List Char) → Outcome GtidSet
  | [] => .ok s
  | segment :: rest =>
    match Text.squeeze segment with
    | [] => readSegments s rest
    | squeezed => do
      let s ← readSegment s squeezed
      readSegments s rest

/-- The set of a text. -/
def readChars (cs : List Char) : Outcome GtidSet := readSegments empty (Text.pieces ',' cs)

/-- The set of a text. -/
def parse (text : String) : Outcome GtidSet := readChars text.toList

end GtidSet
end Changefeed
