import Changefeed.Lifecycle
import Changefeed.Wire.Offset

/-!
# Splits as JSON

Splits are records tagged by `type`.  The layout records of an incremental split are an object from
table to a list of byte numbers.
-/

namespace Changefeed

open Json (Doc Decoder Parts Tagged Access)

namespace SplitId

/-- An identity as a record. -/
def toDoc (id : SplitId) : Doc :=
  .record [("scope", .text id.scope), ("index", .nat id.index.toNat)]

/-- An identity. -/
def decode : Decoder SplitId := fun a d => do
  let p ← Parts.read ["scope", "index"] a d
  let scope ← p.required "scope" Decoder.string
  let index ← p.required "index" Decoder.word32
  pure ⟨scope, index⟩

instance : Json.ToDoc SplitId := ⟨toDoc⟩
instance : Json.FromDoc SplitId := ⟨decode⟩

end SplitId

namespace SnapshotSplit

/-- The fields in order. -/
def fieldDocs (s : SnapshotSplit) : List (String × Doc) :=
  [("table_id", s.tableId.toDoc), ("key_column", .text s.keyColumn),
    ("key_range", s.keyRange.toDoc), ("split_index", .nat s.splitIndex.toNat)]

/-- A snapshot split as a record. -/
def toDoc (s : SnapshotSplit) : Doc := .record s.fieldDocs

/-- A snapshot split. -/
def decode : Decoder SnapshotSplit := fun a d => do
  let p ← Parts.read ["table_id", "key_column", "key_range", "split_index"] a d
  let tableId ← p.required "table_id" TableId.decode
  let keyColumn ← p.required "key_column" Decoder.string
  let keyRange ← p.required "key_range" KeyRange.decode
  let splitIndex ← p.required "split_index" Decoder.word32
  pure ⟨tableId, keyColumn, keyRange, splitIndex⟩

instance : Json.ToDoc SnapshotSplit := ⟨toDoc⟩
instance : Json.FromDoc SnapshotSplit := ⟨decode⟩

end SnapshotSplit

namespace FinishedSplit

/-- A finished split as a record. -/
def toDoc (f : FinishedSplit) : Doc :=
  .record [("table_id", f.tableId.toDoc), ("key_column", .text f.keyColumn),
    ("key_range", f.keyRange.toDoc), ("watermark", f.watermark.toDoc)]

/-- A finished split. -/
def decode : Decoder FinishedSplit := fun a d => do
  let p ← Parts.read ["table_id", "key_column", "key_range", "watermark"] a d
  let tableId ← p.required "table_id" TableId.decode
  let keyColumn ← p.required "key_column" Decoder.string
  let keyRange ← p.required "key_range" KeyRange.decode
  let watermark ← p.required "watermark" Offset.decode
  pure ⟨tableId, keyColumn, keyRange, watermark⟩

instance : Json.ToDoc FinishedSplit := ⟨toDoc⟩
instance : Json.FromDoc FinishedSplit := ⟨decode⟩

end FinishedSplit

/-- A layout record's bytes as a list of numbers. -/
def blobDoc (b : Blob) : Doc := .array (b.map fun byte => .nat byte.toNat)

namespace IncrementalSplit

/-- The fields in order, the layout records written by `refDoc`. -/
def fieldDocsWith (refDoc : Blob → Doc) (s : IncrementalSplit) : List (String × Doc) :=
  [("split_index", .nat s.splitIndex.toNat),
    ("table_ids", .array (s.tableIds.map TableId.toDoc)),
    ("starting_offset", s.startingOffset.toDoc),
    ("ending_offset", .orNull Offset.toDoc s.endingOffset),
    ("history_refs", .record (s.historyRefs.map fun (t, blob) => (t.text, refDoc blob))),
    ("finished_snapshot_splits", .array (s.finishedSplits.map FinishedSplit.toDoc))]

/-- An incremental split as a record. -/
def toDoc (s : IncrementalSplit) : Doc := .record (s.fieldDocsWith blobDoc)

/-- An incremental split. -/
def decode : Decoder IncrementalSplit := fun a d => do
  let p ← Parts.read ["split_index", "table_ids", "starting_offset", "ending_offset",
    "history_refs", "finished_snapshot_splits"] a d
  let splitIndex ← p.required "split_index" Decoder.word32
  let tableIds ← p.required "table_ids" (Decoder.list TableId.decode)
  let startingOffset ← p.required "starting_offset" Offset.decode
  let endingOffset ← p.optional "ending_offset" Offset.decode
  let historyRefs ← p.defaulted "history_refs"
    (Decoder.map TableId.parse (Decoder.list Decoder.byte)) []
  let finishedSplits ← p.defaulted "finished_snapshot_splits"
    (Decoder.list FinishedSplit.decode) []
  pure { splitIndex, tableIds, startingOffset, endingOffset, historyRefs, finishedSplits }

instance : Json.ToDoc IncrementalSplit := ⟨toDoc⟩
instance : Json.FromDoc IncrementalSplit := ⟨decode⟩

end IncrementalSplit

namespace Split

/-- A split as a tagged record, the layout records written by `refDoc`. -/
def toDocWith (refDoc : Blob → Doc) : Split → Doc
  | .snapshot s => .record (("type", .text "snapshot") :: s.fieldDocs)
  | .incremental s => .record (("type", .text "incremental") :: s.fieldDocsWith refDoc)

/-- A split as a tagged record. -/
def toDoc (s : Split) : Doc := s.toDocWith blobDoc

/-- A split of either type. -/
def decode : Decoder Split := fun a d => do
  let t ← Tagged.read "type" ["snapshot", "incremental"] a d
  if t.variant = 0 then (SnapshotSplit.decode t.access t.rest).map .snapshot
  else (IncrementalSplit.decode t.access t.rest).map .incremental

instance : Json.ToDoc Split := ⟨toDoc⟩
instance : Json.FromDoc Split := ⟨decode⟩

end Split

namespace SplitCompletion

/-- A completion as a record. -/
def toDoc (c : SplitCompletion) : Doc :=
  .record [("split_id", c.splitId.toDoc), ("final_offset", .orNull Offset.toDoc c.finalOffset)]

/-- A completion. -/
def decode : Decoder SplitCompletion := fun a d => do
  let p ← Parts.read ["split_id", "final_offset"] a d
  let splitId ← p.required "split_id" SplitId.decode
  let finalOffset ← p.nullable "final_offset" Offset.decode
  pure ⟨splitId, finalOffset⟩

instance : Json.ToDoc SplitCompletion := ⟨toDoc⟩
instance : Json.FromDoc SplitCompletion := ⟨decode⟩

end SplitCompletion

namespace SplitState

/-- The states in the order of a split's life. -/
def all : List SplitState := [.assigned, .opened, .reading, .completed, .failed]

/-- A state as its word. -/
def toDoc (s : SplitState) : Doc := .text s.text

/-- A state. -/
def decode : Decoder SplitState := fun a d =>
  (Decoder.nameIn (all.map text) a d).bind fun i => all[i]?

instance : Json.ToDoc SplitState := ⟨toDoc⟩
instance : Json.FromDoc SplitState := ⟨decode⟩

end SplitState
end Changefeed
