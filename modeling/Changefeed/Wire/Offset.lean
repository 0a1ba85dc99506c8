import Changefeed.Json.Codec
import Changefeed.Split

/-!
# Positions, tables and keys as JSON

Positions are records tagged by `kind`.  Tables and transaction sets are strings in their text form.
-/

namespace Changefeed

open Json (Doc Decoder Parts Tagged Access)

/-- A transaction set as a string. -/
def GtidSet.toDoc (s : GtidSet) : Doc := .text s.text

/-- A transaction set from its text form. -/
def GtidSet.decode : Decoder GtidSet := Decoder.parsed GtidSet.parse

instance : Json.ToDoc GtidSet := ⟨GtidSet.toDoc⟩
instance : Json.FromDoc GtidSet := ⟨GtidSet.decode⟩

/-- A table as a string. -/
def TableId.toDoc (t : TableId) : Doc := .text t.text

/-- A table from its text form. -/
def TableId.decode : Decoder TableId := Decoder.parsed TableId.parse

instance : Json.ToDoc TableId := ⟨TableId.toDoc⟩
instance : Json.FromDoc TableId := ⟨TableId.decode⟩

/-- An interval as a list of its ends. -/
instance : Json.ToDoc Interval := ⟨fun i => .of (i.first, i.last)⟩

namespace Offset

/-- A position as a tagged record. -/
def toDoc : Offset → Doc
  | .binlog filename position =>
    .record [("kind", .text "binlog"), ("filename", .text filename),
      ("position", .nat position.toNat)]
  | .gtid set => .record [("kind", .text "gtid"), ("gtid_set", set.toDoc)]

/-- A place in a file. -/
def decodeBinlog : Decoder Offset := fun a d => do
  let p ← Parts.read ["filename", "position"] a d
  let filename ← p.required "filename" Decoder.string
  let position ← p.required "position" Decoder.word64
  pure (.binlog filename position)

/-- A set of executed transactions. -/
def decodeGtid : Decoder Offset := fun a d => do
  let p ← Parts.read ["gtid_set"] a d
  let set ← p.required "gtid_set" GtidSet.decode
  pure (.gtid set)

/-- A position of either encoding. -/
def decode : Decoder Offset := fun a d => do
  let t ← Tagged.read "kind" ["binlog", "gtid"] a d
  if t.variant = 0 then decodeBinlog t.access t.rest else decodeGtid t.access t.rest

instance : Json.ToDoc Offset := ⟨toDoc⟩
instance : Json.FromDoc Offset := ⟨decode⟩

end Offset

namespace KeyRange

/-- A range as a record; an open end is null. -/
def toDoc (r : KeyRange) : Doc :=
  .record [("low", .orNull Doc.ofValue r.low), ("high", .orNull Doc.ofValue r.high)]

/-- A range of keys. -/
def decode : Decoder KeyRange := fun a d => do
  let p ← Parts.read ["low", "high"] a d
  let low ← p.nullable "low" Decoder.anyValue
  let high ← p.nullable "high" Decoder.anyValue
  pure ⟨low, high⟩

instance : Json.ToDoc KeyRange := ⟨toDoc⟩
instance : Json.FromDoc KeyRange := ⟨decode⟩

end KeyRange
end Changefeed
