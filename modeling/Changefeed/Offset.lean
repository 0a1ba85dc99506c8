import Changefeed.Gtid.Text

/-!
# Positions in the change log

A position is either a place in one of the server's log files or the set of transactions that have
been executed.  Positions are partially ordered: the initial position, an empty file name at place
zero, comes before every other one; places in files compare by file name, then by place; transaction
sets compare by inclusion; all other pairs are incomparable.
-/

namespace Changefeed

/-- A position in the change log. -/
inductive Offset where
  | binlog (filename : String) (position : UInt64)
  | gtid (set : GtidSet)
deriving DecidableEq, Repr

namespace Offset

/-- The position that means "start now". -/
def initial : Offset := .binlog "" 0

instance : Inhabited Offset := ⟨initial⟩

/-- The position is the initial one. -/
def isInitial (o : Offset) : Bool := o = initial

/-- The name of the encoding. -/
def encoding : Offset → String
  | .binlog .. => "binlog"
  | .gtid _ => "gtid"

/-- Both positions have the same encoding. -/
def sameEncoding : Offset → Offset → Bool
  | .binlog .., .binlog .. => true
  | .gtid _, .gtid _ => true
  | _, _ => false

/-- How `a` stands to `b`; `none` when the two are incomparable. -/
def compare? (a b : Offset) : Option Ordering :=
  if a = b then some .eq
  else if a.isInitial then some .lt
  else if b.isInitial then some .gt
  else match a, b with
    | .binlog f p, .binlog g q => some ((compare f g).then (compare p q))
    | .gtid s, .gtid t =>
      if s.isContainedWithin t then some .lt
      else if t.isContainedWithin s then some .gt
      else none
    | _, _ => none

/-- `a` comes strictly before `b`. -/
def before (a b : Offset) : Bool := a.compare? b = some .lt

/-- `a` comes strictly after `b`. -/
def after (a b : Offset) : Bool := a.compare? b = some .gt

/-- `a` is at or past `bound`.  Incomparable positions are not. -/
def reached (a bound : Offset) : Bool :=
  a.compare? bound = some .gt || a.compare? bound = some .eq

/-! ## Text form -/

/-- What stands before a transaction set. -/
def gtidMark : List Char := ['g', 't', 'i', 'd', ':']

/-- The position as characters. -/
def chars : Offset → List Char
  | .binlog filename position => filename.toList ++ ':' :: Text.numeral position.toNat
  | .gtid set => gtidMark ++ set.chars

/-- The position as text. -/
def text (o : Offset) : String := String.ofList o.chars

/-- What follows `start`, when the characters begin with it. -/
def afterStart (start cs : List Char) : Option (List Char) :=
  if start.isPrefixOf cs then some (cs.drop start.length) else none

/-- The position of a text; blanks around it are ignored. -/
def readChars (cs : List Char) : Outcome Offset :=
  let cs := Text.trim cs
  match afterStart gtidMark cs with
  | some rest => (GtidSet.readChars rest).map .gtid
  | none =>
    match Text.cutLast ':' cs with
    | none => .error (.config (.positionWithoutFile (String.ofList cs)))
    | some (filename, place) =>
      match Text.readWord place with
      | some n => .ok (.binlog (String.ofList filename) n)
      | none => .error (.config (.badFilePosition (String.ofList cs) (String.ofList place)))

/-- The position of a text; blanks around it are ignored. -/
def parse (text : String) : Outcome Offset := readChars text.toList

end Offset
end Changefeed
