import Changefeed.Key
import Changefeed.Offset
import Changefeed.Table

/-!
# Splits

A table is read in snapshot splits, each one range of its chunk key, and then by an incremental
split, which streams the change log of several tables from a starting position to an ending one or
until it is cancelled.  Splits are values: to resume one is to build a new one with another start.
-/

namespace Changefeed

/-- Serialised layout records travel as bytes. -/
abbrev Blob := List UInt8

/-- What identifies a split: a scope and a number within it. -/
structure SplitId where
  scope : String
  index : UInt32
deriving DecidableEq, Repr, Inhabited

namespace SplitId

/-- Order by scope, then by number. -/
instance : Ord SplitId where
  compare a b := (compare a.scope b.scope).then (compare a.index b.index)

/-- The identity as text. -/
def text (id : SplitId) : String := id.scope ++ ":" ++ Text.decimal id.index.toNat

/-- The scope of all incremental splits. -/
def incrementalScope : String := "incremental"

end SplitId

/-- A read of the rows of one table in one range of keys. -/
structure SnapshotSplit where
  tableId : TableId
  /-- The column that the table is chunked on. -/
  keyColumn : String
  keyRange : KeyRange
  splitIndex : UInt32

namespace SnapshotSplit

/-- The identity: the table's name is the scope. -/
def splitId (s : SnapshotSplit) : SplitId := ⟨s.tableId.text, s.splitIndex⟩

end SnapshotSplit

/-- A snapshot split that has been read, and the position its rows are current as of. -/
structure FinishedSplit where
  tableId : TableId
  keyColumn : String
  keyRange : KeyRange
  watermark : Offset

namespace FinishedSplit

/-- A split with the watermark it finished at. -/
def ofSplit (s : SnapshotSplit) (watermark : Offset) : FinishedSplit :=
  ⟨s.tableId, s.keyColumn, s.keyRange, watermark⟩

/-- A change to this key of this table belongs to the split. -/
def covers (f : FinishedSplit) (tableId : TableId) (key : Json.Value) : Bool :=
  f.tableId = tableId && f.keyRange.contains key

/-- A change at this position is newer than the rows of the split.  An incomparable one counts as
newer. -/
def isPast (f : FinishedSplit) (position : Offset) : Bool :=
  !(position.compare? f.watermark = some .lt || position.compare? f.watermark = some .eq)

end FinishedSplit

/-- A read of the change log for some tables. -/
structure IncrementalSplit where
  splitIndex : UInt32
  tableIds : List TableId
  startingOffset : Offset
  /-- Where to stop; `none` streams until cancelled. -/
  endingOffset : Option Offset := none
  /-- Layout records to register before reading. -/
  historyRefs : SortedMap TableId Blob := []
  /-- Snapshot splits whose changes up to their watermark are not sent again. -/
  finishedSplits : List FinishedSplit := []

namespace IncrementalSplit

/-- The identity, in the scope of all incremental splits. -/
def splitId (s : IncrementalSplit) : SplitId := ⟨SplitId.incrementalScope, s.splitIndex⟩

/-- The split ends by itself. -/
def isBounded (s : IncrementalSplit) : Bool := s.endingOffset.isSome

/-- The same split from another start. -/
def startingAt (s : IncrementalSplit) (offset : Offset) : IncrementalSplit :=
  { s with startingOffset := offset }

/-- The same split with an end. -/
def endingAt (s : IncrementalSplit) (offset : Offset) : IncrementalSplit :=
  { s with endingOffset := some offset }

end IncrementalSplit

/-- A unit of work. -/
inductive Split where
  | snapshot (s : SnapshotSplit)
  | incremental (s : IncrementalSplit)

namespace Split

/-- The identity. -/
def splitId : Split → SplitId
  | .snapshot s => s.splitId
  | .incremental s => s.splitId

/-- The tables that the split reads. -/
def tableIds : Split → List TableId
  | .snapshot s => [s.tableId]
  | .incremental s => s.tableIds

/-- The split reads rows and not the log. -/
def isSnapshot : Split → Bool
  | .snapshot _ => true
  | .incremental _ => false

/-- The kind of split in a word. -/
def kind : Split → String
  | .snapshot _ => "snapshot"
  | .incremental _ => "incremental"

end Split

/-- The report of a finished split. -/
structure SplitCompletion where
  splitId : SplitId
  /-- Where streaming takes over from a snapshot split, or where a bounded stream ended. -/
  finalOffset : Option Offset
deriving DecidableEq, Repr

end Changefeed
