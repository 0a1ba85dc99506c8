import Changefeed.Gtid.Interval
import Changefeed.SortedMap

/-!
# Sets of transactions

A set of transactions maps each source to the intervals of its transactions.  Source names are kept
in lower case, and looked up in any case.  Every operation leaves the intervals of every source
coalesced, so that sets with the same transactions are equal.

The second view of a set is membership: `contains` says whether a source's transaction is in it.
-/

namespace Changefeed

/-- Transactions, by source. -/
structure GtidSet where
  sources : SortedMap String (List Interval)
deriving DecidableEq, Repr

namespace GtidSet

/-- The set without transactions. -/
def empty : GtidSet := ⟨[]⟩

instance : Inhabited GtidSet := ⟨empty⟩

/-- A source name as it is kept: ASCII letters in lower case. -/
def sourceName (source : String) : String := source.map Char.toLower

/-- No transaction is in the set. -/
def isEmpty (s : GtidSet) : Bool := s.sources.isEmpty

/-- The names of the sources, ascending. -/
def sourceIds (s : GtidSet) : List String := s.sources.keys

/-- The intervals under a name as it is kept. -/
def intervalsOf (s : GtidSet) (name : String) : List Interval := (s.sources.find? name).getD []

/-- The intervals of a source, none when it is unknown. -/
def intervals (s : GtidSet) (source : String) : List Interval := s.intervalsOf (sourceName source)

/-- The transaction is in the set. -/
def contains (s : GtidSet) (source : String) (txn : UInt64) : Bool :=
  (s.intervals source).any (·.contains txn)

/-- The set with an interval more. -/
def add (s : GtidSet) (source : String) (i : Interval) : GtidSet :=
  let name := sourceName source
  ⟨s.sources.insert name (Interval.normalize (s.intervalsOf name ++ [i]))⟩

/-- The set with the transactions from `first` to `last` more. -/
def withInterval (s : GtidSet) (source : String) (first last : UInt64) : Outcome GtidSet :=
  (Interval.make first last).map (s.add source)

/-- Every interval lies inside one of the intervals of `t`. -/
def isContainedWithin (s t : GtidSet) : Bool :=
  s.sources.all fun (source, is) => is.all fun i => (t.intervals source).any (·.covers i)

/-- The transactions in either set. -/
def union (s t : GtidSet) : GtidSet :=
  t.sources.foldl (fun acc (source, is) =>
    ⟨acc.sources.insert source (Interval.normalize (acc.intervalsOf source ++ is))⟩) s

/-- The transactions of `s` that are not in `t`. -/
def subtract (s t : GtidSet) : GtidSet :=
  ⟨s.sources.filterMap fun (source, is) =>
    match is.flatMap fun i => i.removeAll (t.intervals source) with
    | [] => none
    | rest => some (source, rest)⟩

/-- The part of the intervals that is not above `top`, up to the first interval that is. -/
def upTo (top : UInt64) : List Interval → List Interval
  | [] => []
  | i :: rest =>
    if i.last ≤ top then i :: upTo top rest
    else if i.first ≤ top then [⟨i.first, top⟩]
    else []

/-- A restored set, completed by what the server knows: for a source of the restored set that the
server knows too, the server's transactions up to the restored set's highest one come in. -/
def fixRestored (server restored : GtidSet) : GtidSet :=
  ⟨restored.sources.filterMap fun (source, is) =>
    match is.getLast?, server.intervals source with
    | none, _ => none
    | some _, [] => some (source, is)
    | some top, known => some (source, Interval.normalize (upTo top.last known ++ is))⟩

/-- Adds, stopping at the greatest number of 64 bits. -/
def addCapped (a b : UInt64) : UInt64 := if a + b < a then Interval.maxTxn else a + b

/-- The number of transactions, or the greatest number of 64 bits where there are more. -/
def transactionCount (s : GtidSet) : UInt64 :=
  (s.sources.values.flatten.map fun i => addCapped (i.last - i.first) 1).foldl addCapped 0

end GtidSet
end Changefeed
