import Changefeed.Resume
import Changefeed.Schema.History
import Changefeed.Server.Script
import Changefeed.Server.Stream

/-!
# A scripted server

A database server as a connector sees it, given as data: the log it retains, its tables and their
rows, and the failures to come.  A stream opened at a position delivers the records of the log
strictly after it.  A scan delivers the rows of a table whose key lies in a range, in the order of
the table, as inserts without a position.  The server counts what is asked of it.
-/

namespace Changefeed

/-- The calls that can be made to fail. -/
inductive ServerCall where
  | logFiles
  | knownGtids
  | purgedGtids
  | currentPosition
  | openStream
  | scan
  | querySchema
  | resetListeners
deriving DecidableEq, Repr, Ord

/-- A failure of a stream that one call returned, after a number of reads. -/
structure StreamFault where
  /-- The call that returned the stream. -/
  call : ServerCall
  number : Nat
  after : Nat
  fault : Fault
deriving DecidableEq, Repr

/-- A server. -/
structure Server where
  retained : RetainedLog := {}
  /-- The positions to be answered, one for each time it is asked; the last one repeats. -/
  positions : List Offset := []
  lastPosition : Offset := .initial
  schemas : SortedMap TableId SchemaRecord := []
  /-- The change log. -/
  log : List LogRecord := []
  rows : SortedMap TableId (List (List Json.Value)) := []
  /-- Streams end when they are drained. -/
  endsWhenDrained : Bool := false
  /-- How many of the next streams drop, and after how many records. -/
  drops : Nat × Nat := (0, 0)
  failsClose : Bool := false
  script : Script ServerCall := {}
  /-- What scans return instead of rows, of whatever table. -/
  scanned : Option (List LogRecord) := none
  streamFaults : List StreamFault := []
  /-- The positions that streams were opened at, in order. -/
  opened : Array Offset := #[]
  schemaQueries : Nat := 0
  resets : Nat := 0
  closes : Nat := 0

/-- Something that may fail and may change the server. -/
abbrev ServerAct (α : Type) := Server → Outcome α × Server

namespace Server

/-- A call that fails when the script says so, and else does what it does. -/
def call {α : Type} (c : ServerCall) (act : ServerAct α) : ServerAct α := fun s =>
  match s.script.make c with
  | (some f, script) => (.error f, { s with script })
  | (none, script) => act { s with script }

/-- The log files that are retained. -/
def logFiles : ServerAct (List String) := call .logFiles fun s => (.ok s.retained.logFiles, s)

/-- The transactions that the server has executed. -/
def knownGtids : ServerAct GtidSet := call .knownGtids fun s => (.ok s.retained.known, s)

/-- The transactions that the server has purged. -/
def purgedGtids : ServerAct GtidSet := call .purgedGtids fun s => (.ok s.retained.purged, s)

/-- The position of the end of the log. -/
def currentPosition : ServerAct Offset := call .currentPosition fun s =>
  match s.positions with
  | [] => (.ok s.lastPosition, s)
  | o :: rest => (.ok o, { s with positions := rest, lastPosition := o })

/-- The number of the latest call of a kind. -/
def lastNumber (s : Server) (c : ServerCall) : Nat := s.script.count c - 1

/-- The failure that the script has for the stream that the latest call of a kind returns. -/
def streamFault (s : Server) (c : ServerCall) : Option (Nat × Fault) :=
  (s.streamFaults.find? fun f => f.call = c && f.number = s.lastNumber c).map fun f =>
    (f.after, f.fault)

/-- The records of the log strictly after a position. -/
def recordsAfter (s : Server) (o : Offset) : List LogRecord :=
  s.log.filter fun r => r.position.after o

/-- Opens a stream at a position. -/
def openStream (o : Offset) : ServerAct LogStream := call .openStream fun s =>
  (.ok { records := s.recordsAfter o
         endsWhenDrained := s.endsWhenDrained
         dropsAfter := if s.drops.1 = 0 then none else some s.drops.2
         failsAfter := s.streamFault .openStream },
    { s with opened := s.opened.push o, drops := (s.drops.1 - 1, s.drops.2) })

/-- The rows of a split as records. -/
def scanRows (s : Server) (split : SnapshotSplit) : Outcome (List LogRecord) :=
  match s.schemas.find? split.tableId with
  | none => .error (.schema (.noSuchTable split.tableId.text))
  | some schema =>
    match schema.columnNames.findIdx? (· = split.keyColumn) with
    | none => .error (.schema (.noSuchColumn split.keyColumn split.tableId.text))
    | some i =>
      .ok ((((s.rows.find? split.tableId).getD []).filter fun row =>
        row[i]?.any split.keyRange.contains).map fun row =>
          .change (.insert .initial split.tableId row))

/-- Scans a split: its rows, or whatever the server was told to return instead. -/
def scan (split : SnapshotSplit) : ServerAct LogStream := call .scan fun s =>
  match s.scanned.elim (s.scanRows split) .ok with
  | .error f => (.error f, s)
  | .ok records =>
    (.ok { records, endsWhenDrained := true, failsAfter := s.streamFault .scan }, s)

/-- The layout of a table as it is now. -/
def querySchema (tableId : TableId) : ServerAct SchemaRecord := call .querySchema fun s =>
  let s := { s with schemaQueries := s.schemaQueries + 1 }
  match s.schemas.find? tableId with
  | some schema => (.ok schema, s)
  | none => (.error (.schema (.noSuchTable tableId.text)), s)

/-- Resets what listens to the log. -/
def resetListeners : ServerAct Unit := call .resetListeners fun s =>
  (.ok (), { s with resets := s.resets + 1 })

/-- Closes the connection. -/
def close : ServerAct Unit := fun s =>
  let s := { s with closes := s.closes + 1 }
  (if s.failsClose then .error (.connection "socket already closed") else .ok (), s)

/-! ## Whether a position can be served -/

/-- Checks a position, asking only for what the check needs. -/
def checkOffset (o : Offset) : ServerAct (Option Unresumable) := fun s =>
  match o with
  | .binlog filename _ =>
    if filename = "" then (.ok none, s)
    else match logFiles s with
      | (.ok files, s) => (.ok (Resume.checkFile filename files), s)
      | (.error f, s) => (.error f, s)
  | .gtid set =>
    if set.isEmpty then (.ok none, s)
    else match knownGtids s with
      | (.error f, s) => (.error f, s)
      | (.ok known, s) =>
        if known.isEmpty then (.ok (Resume.checkGtidSet set known .empty), s)
        else match purgedGtids s with
          | (.error f, s) => (.error f, s)
          | (.ok purged, s) => (.ok (Resume.checkGtidSet set known purged), s)

/-- A position can be served. -/
def isResumable (o : Offset) : ServerAct Bool := fun s =>
  match checkOffset o s with
  | (.ok reason, s) => (.ok reason.isNone, s)
  | (.error f, s) => (.error f, s)

/-- Fails unless a position can be served. -/
def ensureResumable (o : Offset) : ServerAct Unit := fun s =>
  match checkOffset o s with
  | (.ok none, s) => (.ok (), s)
  | (.ok (some reason), s) => (.error (reason.toFault o), s)
  | (.error f, s) => (.error f, s)

end Server
end Changefeed
