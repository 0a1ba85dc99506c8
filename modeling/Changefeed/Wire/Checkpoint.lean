import Changefeed.Checkpoint.Basic
import Changefeed.Json.Reader
import Changefeed.Json.Writer
import Changefeed.Wire.Split

/-!
# Checkpoints as JSON

A checkpoint is a record; its time is a string.
-/

namespace Changefeed

open Json (Doc Decoder Parts)

/-- An instant from its text. -/
def Instant.decode : Decoder Instant := fun a d => (Decoder.string a d).bind Instant.parse?

namespace Checkpoint

/-- A checkpoint as a record. -/
def toDoc (c : Checkpoint) : Doc :=
  .record [("split_id", c.splitId.toDoc), ("table_ids", .array (c.tableIds.map TableId.toDoc)),
    ("offset", c.offset.toDoc), ("created_at", .text c.createdAt.text)]

/-- A checkpoint. -/
def decode : Decoder Checkpoint := fun a d => do
  let p ← Parts.read ["split_id", "table_ids", "offset", "created_at"] a d
  let splitId ← p.required "split_id" SplitId.decode
  let tableIds ← p.required "table_ids" (Decoder.list TableId.decode)
  let offset ← p.required "offset" Offset.decode
  let createdAt ← p.required "created_at" Instant.decode
  pure { splitId, tableIds, offset, createdAt }

/-- A checkpoint as the text of a file. -/
def fileText (c : Checkpoint) : String := c.toDoc.indented

/-- The checkpoint of a file's text. -/
def ofFileText? (text : String) : Option Checkpoint := (Doc.parse text).bind (decode {})

instance : Json.ToDoc Checkpoint := ⟨toDoc⟩
instance : Json.FromDoc Checkpoint := ⟨decode⟩

end Checkpoint
end Changefeed
