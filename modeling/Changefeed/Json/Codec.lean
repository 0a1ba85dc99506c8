import Changefeed.Json.Decode

/-!
# Types with a JSON form

One instance for each type that is written as a document, and one for each that is read from
documents.  Numbers are read within the bounds of their type: a natural number has 64 bits, an
integer 63 and a sign.
-/

namespace Changefeed
namespace Json

/-- A type whose values are written as documents. -/
class ToDoc (α : Type) where
  toDoc : α → Doc

/-- A type that is read from documents. -/
class FromDoc (α : Type) where
  decode : Decoder α

/-- A value as a document. -/
def Doc.of {α : Type} [ToDoc α] (a : α) : Doc := ToDoc.toDoc a

/-- The value of the type that a document holds. -/
def Doc.as? {α : Type} [FromDoc α] (d : Doc) : Option α := FromDoc.decode {} d

section Written

variable {α β : Type} [ToDoc α] [ToDoc β]

instance : ToDoc Doc := ⟨id⟩
instance : ToDoc Value := ⟨Doc.ofValue⟩
instance : ToDoc Unit := ⟨fun _ => .null⟩
instance : ToDoc Bool := ⟨Doc.bool⟩
instance : ToDoc String := ⟨Doc.text⟩
instance : ToDoc Nat := ⟨Doc.nat⟩
instance : ToDoc Int := ⟨Doc.int⟩
instance : ToDoc UInt32 := ⟨fun n => .nat n.toNat⟩
instance : ToDoc UInt64 := ⟨fun n => .nat n.toNat⟩
instance : ToDoc (Option α) := ⟨.orNull Doc.of⟩
instance : ToDoc (List α) := ⟨fun as => .array (as.map Doc.of)⟩
instance : ToDoc (α × β) := ⟨fun (a, b) => .array [.of a, .of b]⟩

end Written

section Read

variable {α β : Type} [FromDoc α] [FromDoc β]

instance : FromDoc Value := ⟨Decoder.anyValue⟩
instance : FromDoc Bool := ⟨Decoder.bool⟩
instance : FromDoc String := ⟨Decoder.string⟩
instance : FromDoc Nat := ⟨Decoder.size⟩
instance : FromDoc Int := ⟨Decoder.int64⟩
instance : FromDoc UInt8 := ⟨Decoder.byte⟩
instance : FromDoc UInt32 := ⟨Decoder.word32⟩
instance : FromDoc UInt64 := ⟨Decoder.word64⟩
instance : FromDoc Float := ⟨Decoder.float⟩
instance : FromDoc (Option α) := ⟨Decoder.orNull FromDoc.decode⟩
instance : FromDoc (List α) := ⟨Decoder.list FromDoc.decode⟩
instance : FromDoc (α × β) := ⟨Decoder.pair FromDoc.decode FromDoc.decode⟩

end Read

end Json
end Changefeed
