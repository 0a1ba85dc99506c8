import Changefeed.Event
import Changefeed.Wire.Split

/-!
# Layouts, events and log records as JSON

Absent type numbers, defaults, statements and images of events are left out; absent images of row
changes are null.  Log records are tagged by `type`.
-/

namespace Changefeed

open Json (Doc Decoder Parts Tagged Access)

namespace Column

/-- A column as a record. -/
def toDoc (c : Column) : Doc :=
  .record ([("name", .text c.name), ("type_name", .text c.typeName)]
    ++ Doc.fieldIfSome "type_id" Doc.int c.typeId
    ++ [("position", .nat c.position.toNat), ("nullable", .bool c.nullable),
        ("primary_key", .bool c.primaryKey)]
    ++ Doc.fieldIfSome "default_value" Doc.text c.defaultValue)

/-- A column. -/
def decode : Decoder Column := fun a d => do
  let p ← Parts.read ["name", "type_name", "type_id", "position", "nullable", "primary_key",
    "default_value"] a d
  let name ← p.required "name" Decoder.string
  let typeName ← p.required "type_name" Decoder.string
  let typeId ← p.optional "type_id" Decoder.int32
  let position ← p.required "position" Decoder.word32
  let nullable ← p.required "nullable" Decoder.bool
  let primaryKey ← p.required "primary_key" Decoder.bool
  let defaultValue ← p.optional "default_value" Decoder.string
  pure { name, typeName, typeId, position, nullable, primaryKey, defaultValue }

instance : Json.ToDoc Column := ⟨toDoc⟩
instance : Json.FromDoc Column := ⟨decode⟩

end Column

namespace SchemaRecord

/-- The fields in order. -/
def fieldDocs (r : SchemaRecord) : List (String × Doc) :=
  [("table_id", r.tableId.toDoc), ("columns", .array (r.columns.map Column.toDoc)),
    ("position", r.position.toDoc)]
    ++ Doc.fieldIfSome "ddl" Doc.text r.ddl ++ [("timestamp_ms", .int r.timestampMs)]

/-- A layout record as a record. -/
def toDoc (r : SchemaRecord) : Doc := .record r.fieldDocs

/-- A layout record, with its columns in the order given. -/
def decode : Decoder SchemaRecord := fun a d => do
  let p ← Parts.read ["table_id", "columns", "position", "ddl", "timestamp_ms"] a d
  let tableId ← p.required "table_id" TableId.decode
  let columns ← p.required "columns" (Decoder.list Column.decode)
  let position ← p.required "position" Offset.decode
  let ddl ← p.optional "ddl" Decoder.string
  let timestampMs ← p.defaulted "timestamp_ms" Decoder.int64 0
  pure { tableId, columns, position, ddl, timestampMs }

instance : Json.ToDoc SchemaRecord := ⟨toDoc⟩
instance : Json.FromDoc SchemaRecord := ⟨decode⟩

end SchemaRecord

namespace ChangeKind

/-- The kinds in order. -/
def all : List ChangeKind := [.insert, .update, .delete]

/-- The kind as JSON names it. -/
def word : ChangeKind → String
  | .insert => "insert"
  | .update => "update"
  | .delete => "delete"

/-- A kind as its word. -/
def toDoc (k : ChangeKind) : Doc := .text k.word

/-- A kind of change. -/
def decode : Decoder ChangeKind := fun a d =>
  (Decoder.nameIn (all.map word) a d).bind fun i => all[i]?

instance : Json.ToDoc ChangeKind := ⟨toDoc⟩
instance : Json.FromDoc ChangeKind := ⟨decode⟩

end ChangeKind

/-- A row image as a record. -/
def imageDoc (image : Json.Object) : Doc := Doc.ofValue (.object image)

namespace ChangeEvent

/-- An event as a record. -/
def toDoc (e : ChangeEvent) : Doc :=
  .record ([("source_position", e.position.toDoc), ("table_id", e.tableId.toDoc),
      ("kind", e.kind.toDoc)]
    ++ Doc.fieldIfSome "before" imageDoc e.before ++ Doc.fieldIfSome "after" imageDoc e.after
    ++ [("timestamp_ms", .int e.timestampMs)])

/-- An event. -/
def decode : Decoder ChangeEvent := fun a d => do
  let p ← Parts.read ["source_position", "table_id", "kind", "before", "after", "timestamp_ms"] a d
  let position ← p.required "source_position" Offset.decode
  let tableId ← p.required "table_id" TableId.decode
  let kind ← p.required "kind" ChangeKind.decode
  let before ← p.optional "before" Decoder.anyObject
  let after ← p.optional "after" Decoder.anyObject
  let timestampMs ← p.required "timestamp_ms" Decoder.int64
  pure { position, tableId, kind, before, after, timestampMs }

instance : Json.ToDoc ChangeEvent := ⟨toDoc⟩
instance : Json.FromDoc ChangeEvent := ⟨decode⟩

end ChangeEvent

/-- A positional image as a list. -/
def valuesDoc (values : List Json.Value) : Doc := .array (values.map Doc.ofValue)

namespace RowChange

/-- The fields in order. -/
def fieldDocs (c : RowChange) : List (String × Doc) :=
  [("position", c.position.toDoc), ("table_id", c.tableId.toDoc), ("kind", c.kind.toDoc),
    ("before", .orNull valuesDoc c.before), ("after", .orNull valuesDoc c.after),
    ("timestamp_ms", .int c.timestampMs)]

/-- A row change as a record. -/
def toDoc (c : RowChange) : Doc := .record c.fieldDocs

/-- A row change. -/
def decode : Decoder RowChange := fun a d => do
  let p ← Parts.read ["position", "table_id", "kind", "before", "after", "timestamp_ms"] a d
  let position ← p.required "position" Offset.decode
  let tableId ← p.required "table_id" TableId.decode
  let kind ← p.required "kind" ChangeKind.decode
  let before ← p.optional "before" (Decoder.list Decoder.anyValue)
  let after ← p.optional "after" (Decoder.list Decoder.anyValue)
  let timestampMs ← p.defaulted "timestamp_ms" Decoder.int64 0
  pure { position, tableId, kind, before, after, timestampMs }

instance : Json.ToDoc RowChange := ⟨toDoc⟩
instance : Json.FromDoc RowChange := ⟨decode⟩

end RowChange

namespace LogRecord

/-- A log record as a tagged record. -/
def toDoc : LogRecord → Doc
  | .change c => .record (("type", .text "change") :: c.fieldDocs)
  | .schemaChange r => .record (("type", .text "schema_change") :: r.fieldDocs)
  | .heartbeat position => .record [("type", .text "heartbeat"), ("position", position.toDoc)]

/-- A heartbeat's position. -/
def decodeHeartbeat : Decoder Offset := fun a d => do
  let p ← Parts.read ["position"] a d
  p.required "position" Offset.decode

/-- A log record of any type. -/
def decode : Decoder LogRecord := fun a d => do
  let t ← Tagged.read "type" ["change", "schema_change", "heartbeat"] a d
  if t.variant = 0 then (RowChange.decode t.access t.rest).map .change
  else if t.variant = 1 then (SchemaRecord.decode t.access t.rest).map .schemaChange
  else (decodeHeartbeat t.access t.rest).map .heartbeat

instance : Json.ToDoc LogRecord := ⟨toDoc⟩
instance : Json.FromDoc LogRecord := ⟨decode⟩

end LogRecord
end Changefeed
