import Changefeed.Server.Basic

/-!
# Servers as JSON

A server is a record of what it retains of its log, its tables and its log; every part may be left
out.  What it has counted is written as another record.
-/

namespace Changefeed

open Json (Doc Decoder Parts)

namespace RetainedLog

/-- The names of the parts. -/
def names : List String := ["log_files", "known", "purged"]

/-- The retained log out of the parts of a record. -/
def ofParts? (p : Parts) : Option RetainedLog := do
  let logFiles ← p.optional "log_files" (Decoder.list Decoder.string)
  let known ← p.optional "known" GtidSet.decode
  let purged ← p.optional "purged" GtidSet.decode
  pure { logFiles := logFiles.getD [], known := known.getD .empty, purged := purged.getD .empty }

instance : Json.FromDoc RetainedLog := ⟨fun a d => (Parts.read names a d).bind ofParts?⟩

end RetainedLog

namespace Server

/-- What was read, or the fault of JSON that cannot be. -/
def orFault {α : Type} : Option α → Outcome α
  | some a => .ok a
  | none => .error .json

/-- Rows by the texts of their tables. -/
def decodeRows : Decoder (SortedMap String (List (List Json.Value))) :=
  Decoder.map (fun name => (.ok name : Outcome String)) (Decoder.list (Decoder.list Decoder.anyValue))

/-- The rows of a table, its name read. -/
def rowsOf (named : String × List (List Json.Value)) : Outcome (TableId × List (List Json.Value)) :=
  (TableId.parse named.1).map fun tableId => (tableId, named.2)

/-- A server without scripted failures. -/
def ofDoc (d : Doc) : Outcome Server := do
  let p ← orFault (Parts.read (RetainedLog.names ++ ["positions", "schemas", "records", "rows",
    "close_when_drained", "fail_streams", "fail_close", "scan_records"]) {} d)
  let retained ← orFault (RetainedLog.ofParts? p)
  let positions ← orFault (p.optional "positions" (Decoder.list Offset.decode))
  let schemas ← orFault (p.optional "schemas" (Decoder.list SchemaRecord.decode))
  let log ← orFault (p.optional "records" (Decoder.list LogRecord.decode))
  let rows ← orFault (p.optional "rows" decodeRows)
  let rows ← (rows.getD []).mapM rowsOf
  let endsWhenDrained ← orFault (p.optional "close_when_drained" Decoder.bool)
  let drops ← orFault (p.optional "fail_streams" (Decoder.pair Decoder.size Decoder.size))
  let failsClose ← orFault (p.optional "fail_close" Decoder.bool)
  let scanned ← orFault (p.optional "scan_records" (Decoder.list LogRecord.decode))
  pure
    { retained, scanned
      positions := positions.getD []
      schemas := SortedMap.ofEntries ((schemas.getD []).map fun r => (r.tableId, r))
      log := log.getD []
      rows := SortedMap.ofEntries rows
      endsWhenDrained := endsWhenDrained.getD false
      drops := drops.getD (0, 0)
      failsClose := failsClose.getD false }

/-- What the server has counted. -/
def counts (s : Server) : Doc :=
  .record [("opened_offsets", .of s.opened.toList), ("schema_queries", .of s.schemaQueries),
    ("resets", .of s.resets), ("closes", .of s.closes)]

end Server
end Changefeed
