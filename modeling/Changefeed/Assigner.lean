import Changefeed.Schema.History

/-!
# Handing out splits

First the snapshot splits are handed out, and when all of them are finished one incremental split
is.  It starts at the earliest watermark that a snapshot split reported, carries every finished
split, so that what their rows already hold is not sent again, and carries for every table the
layout at its start.  A split that failed is handed out again.
-/

namespace Changefeed

/-- Which splits are waiting, being read and finished. -/
structure SplitAssigner where
  pending : List SnapshotSplit
  inFlight : SortedMap SplitId SnapshotSplit := []
  finished : List FinishedSplit := []
  /-- The tables of the incremental split, in order. -/
  tables : List TableId
  incrementalIndex : UInt32 := 0
  /-- Where the incremental split starts when there is no watermark. -/
  fallback : Offset := .initial
  incrementalAssigned : Bool := false

namespace SplitAssigner

/-- Snapshot splits to be read first. -/
def ofSplits (splits : List SnapshotSplit) : SplitAssigner :=
  { pending := splits, tables := SortedMap.keySet (splits.map SnapshotSplit.tableId) }

/-- An incremental split alone. -/
def streamOnly (tables : List TableId) (offset : Offset) : SplitAssigner :=
  { pending := [], tables := SortedMap.keySet tables, fallback := offset }

/-- No snapshot split is waiting or being read. -/
def snapshotsDone (a : SplitAssigner) : Bool := a.pending.isEmpty && a.inFlight.isEmpty

/-- Every split has been handed out, and all snapshot splits are finished. -/
def isFinished (a : SplitAssigner) : Bool := a.incrementalAssigned && a.snapshotsDone

/-- The earliest of some positions: the first one that no later one is strictly before. -/
def earliest (sofar : Offset) : List Offset → Offset
  | [] => sofar
  | o :: rest => earliest (if o.before sofar then o else sofar) rest

/-- Where the incremental split starts. -/
def start (a : SplitAssigner) : Offset :=
  match a.finished.map FinishedSplit.watermark with
  | [] => a.fallback
  | first :: rest => earliest first rest

/-- The layout of a table at a position; where the history begins later, its first layout is taken
to hold there. -/
def layoutAt (h : SchemaHistory) (tableId : TableId) (start : Offset) : Option SchemaRecord :=
  match h.schemaAt? tableId start with
  | some r => some r
  | none => (h.earliest tableId).map fun r => { r with position := start }

/-- The incremental split. -/
def incremental (a : SplitAssigner) (h : SchemaHistory) : IncrementalSplit :=
  { splitIndex := a.incrementalIndex
    tableIds := a.tables
    startingOffset := a.start
    historyRefs := a.tables.foldl (fun refs t =>
      match layoutAt h t a.start with
      | some r => SortedMap.insert refs t r.toBlob
      | none => refs) []
    finishedSplits := a.finished }

/-- Hands out a split, when there is one. -/
def next (a : SplitAssigner) (h : SchemaHistory) : Option Split × SplitAssigner :=
  match a.pending with
  | s :: rest =>
    (some (.snapshot s), { a with pending := rest, inFlight := a.inFlight.insert s.splitId s })
  | [] =>
    if a.incrementalAssigned || !a.snapshotsDone then (none, a)
    else (some (.incremental (a.incremental h)), { a with incrementalAssigned := true })

/-- Takes the report of a finished split.  A snapshot split has to be one that is being read; one
that reports no watermark is not carried on. -/
def complete (a : SplitAssigner) (c : SplitCompletion) : Outcome SplitAssigner :=
  if c.splitId.scope = SplitId.incrementalScope then .ok a
  else match a.inFlight.find? c.splitId with
    | none => .error (.invalidState (.unassignedCompletion c.splitId.text))
    | some s =>
      .ok { a with
        inFlight := a.inFlight.erase c.splitId
        finished := a.finished ++ (c.finalOffset.map (FinishedSplit.ofSplit s)).toList }

/-- Takes the report of a failed split, which will be handed out again. -/
def fail (a : SplitAssigner) : Split → SplitAssigner
  | .snapshot s =>
    { a with inFlight := a.inFlight.erase s.splitId, pending := a.pending ++ [s] }
  | .incremental _ => { a with incrementalAssigned := false }

end SplitAssigner
end Changefeed
