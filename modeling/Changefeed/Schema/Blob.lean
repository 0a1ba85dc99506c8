import Changefeed.Json.Reader
import Changefeed.Json.Writer
import Changefeed.Wire.Event

/-!
# Serialised layout records

A layout record travels as a blob: the bytes of a JSON array that holds exactly one record.  What a
reader of the record skips need not be readable.
-/

namespace Changefeed

open Json (Doc Decoder)

/-- The bytes of a text. -/
def Blob.ofText (text : String) : Blob := Text.encode text.toList

/-- The text of a blob, with a replacement where its bytes are no character. -/
def Blob.text (b : Blob) : String := String.ofList (Text.decode b).replaced

namespace SchemaRecord

/-- The record as the text of a blob. -/
def blobText (r : SchemaRecord) : String := (Doc.array [r.toDoc]).compact

/-- The record as a blob. -/
def toBlob (r : SchemaRecord) : Blob := Blob.ofText r.blobText

/-- The records of a blob. -/
def listOfBlob? (b : Blob) : Option (List SchemaRecord) :=
  (Doc.ofBytes? b).bind (Decoder.list decode {})

/-- The only record of a blob. -/
def ofBlob (b : Blob) : Outcome SchemaRecord :=
  match listOfBlob? b with
  | none => .error .json
  | some [r] => .ok r
  | some rs => .error (.malformedRecord (.notOneLayout rs.length))

end SchemaRecord
end Changefeed
