import Changefeed.Json.Doc

/-!
# Reading typed values out of documents

A decoder looks at the parts of a document that its type names and at no others.

* A record is an object, whose fields may come in any order, of which unknown ones are skipped and
  known ones must not repeat, or an array that lists its fields in order.  An array may be shorter
  than the record only by fields with a default.
* A tagged record is an object with one field more, which names the variant, or an array that starts
  with that name.  It is held as a whole before the variant is read, so all of it must be readable.
* A name out of a fixed list is a string, or an object with that name as its only field and null as
  the value.  Inside something held, a variant of a tagged record may also be given by its number,
  and the value beside a name may be an empty object.
-/

namespace Changefeed
namespace Json

/-- How a part of a document is reached. -/
structure Access where
  /-- Levels of containers that may still be entered. -/
  room : Nat := maxLevels
  /-- The part lies inside a tagged record, which was held as a whole. -/
  held : Bool := false

/-- The access to the parts of a container. -/
def Access.enter (a : Access) : Option Access :=
  if a.room = 0 then none else some { a with room := a.room - 1 }

/-- Reads one type; `none` when the document is no value of it. -/
abbrev Decoder (α : Type) := Access → Doc → Option α

namespace Decoder

/-- A truth value. -/
def bool : Decoder Bool
  | _, .bool b => some b
  | _, _ => none

/-- A string. -/
def string : Decoder String
  | _, .string s => s
  | _, _ => none

/-- An integer within bounds. -/
def intWithin (least greatest : Int) : Decoder Int
  | _, .number (some (.int n)) => if least ≤ n ∧ n ≤ greatest then some n else none
  | _, _ => none

/-- A natural number up to a bound. -/
def natUpTo (greatest : Nat) : Decoder Nat := fun a d =>
  (intWithin 0 greatest a d).map Int.toNat

/-- A size or a count, below `2 ^ 64`. -/
def size : Decoder Nat := natUpTo 0xFFFFFFFFFFFFFFFF

/-- A number below `2 ^ 64`. -/
def word64 : Decoder UInt64 := fun a d => (size a d).map UInt64.ofNat

/-- A number below `2 ^ 32`. -/
def word32 : Decoder UInt32 := fun a d => (natUpTo 0xFFFFFFFF a d).map UInt32.ofNat

/-- A byte. -/
def byte : Decoder UInt8 := fun a d => (natUpTo 255 a d).map UInt8.ofNat

/-- A signed number of 64 bits. -/
def int64 : Decoder Int := intWithin (-0x8000000000000000) 0x7FFFFFFFFFFFFFFF

/-- A signed number of 32 bits. -/
def int32 : Decoder Int := intWithin (-0x80000000) 0x7FFFFFFF

/-- Any number, as the closest double. -/
def float : Decoder Float
  | _, .number (some n) => some n.toFloat
  | _, _ => none

/-- Any value. -/
def anyValue : Decoder Value := fun a d => d.value? a.room

/-- Any object. -/
def anyObject : Decoder Object := fun a d =>
  match d.value? a.room with
  | some (.object fields) => some fields
  | _ => none

/-- Null, or a value of the type. -/
def orNull {α : Type} (decode : Decoder α) : Decoder (Option α)
  | _, .null => some none
  | a, d => (decode a d).map some

/-- A list of values of the type. -/
def list {α : Type} (decode : Decoder α) : Decoder (List α)
  | a, .array items => a.enter.bind fun a => items.mapM (decode a)
  | _, _ => none

/-- A list of two values. -/
def pair {α β : Type} (first : Decoder α) (second : Decoder β) : Decoder (α × β)
  | a, .array [x, y] => a.enter.bind fun a =>
    (first a x).bind fun x => (second a y).map fun y => (x, y)
  | _, _ => none

/-- A string that the type can be read from. -/
def parsed {ε α : Type} (parse : String → Except ε α) : Decoder α := fun a d =>
  (string a d).bind fun s => (parse s).toOption

/-- An object with names that are read as keys; of equal keys the last one counts. -/
def map {ε κ α : Type} [Ord κ] (key : String → Except ε κ) (decode : Decoder α) :
    Decoder (SortedMap κ α)
  | a, .object fields => a.enter.bind fun a =>
    (fields.mapM fun (f : Option String × Doc) =>
      f.1.bind fun name => (key name).toOption.bind fun k => (decode a f.2).map fun v => (k, v)).map
        SortedMap.ofEntries
  | _, _ => none

/-- A name out of a list, as its place in the list. -/
def nameIn (names : List String) : Decoder Nat
  | _, .string s => s.bind fun s => names.findIdx? (· = s)
  | a, .object [(some s, payload)] =>
    let empty := match payload with
      | .null => true
      | .object [] => a.held
      | _ => false
    if a.room ≠ 0 && empty then names.findIdx? (· = s) else none
  | _, _ => none

end Decoder

/-! ## Records -/

/-- The parts of a record that the document gives, by field name. -/
structure Parts where
  access : Access
  /-- The record is written as an array. -/
  listed : Bool
  given : List (String × Doc)

namespace Parts

/-- A known field occurs twice. -/
def repeats (names : List String) : List (Option String × Doc) → Bool
  | [] => false
  | (name, _) :: rest =>
    (names.any fun n => name = some n) && rest.any (fun f => f.1 = name) || repeats names rest

/-- The parts of a record with the given field names. -/
def read (names : List String) (a : Access) (d : Doc) : Option Parts :=
  a.enter.bind fun inner =>
    match d with
    | .object fields =>
      if (fields.all fun f => f.1.isSome) && !repeats names fields then
        some ⟨inner, false, fields.filterMap fun (name, d) => name.map fun n => (n, d)⟩
      else none
    | .array items =>
      if items.length ≤ names.length then some ⟨inner, true, names.zip items⟩ else none
    | _ => none

/-- What the document gives for a field. -/
def find? (p : Parts) (name : String) : Option Doc :=
  (p.given.find? fun f => f.1 = name).map Prod.snd

/-- A field that has to be there. -/
def required {α : Type} (p : Parts) (name : String) (decode : Decoder α) : Option α :=
  (p.find? name).bind (decode p.access)

/-- A field that may be null, and may be missing from an object. -/
def nullable {α : Type} (p : Parts) (name : String) (decode : Decoder α) : Option (Option α) :=
  match p.find? name with
  | some d => decode.orNull p.access d
  | none => if p.listed then none else some none

/-- A field that may be null or missing. -/
def optional {α : Type} (p : Parts) (name : String) (decode : Decoder α) : Option (Option α) :=
  match p.find? name with
  | some d => decode.orNull p.access d
  | none => some none

/-- A field with a default. -/
def defaulted {α : Type} (p : Parts) (name : String) (decode : Decoder α) (default : α) :
    Option α :=
  match p.find? name with
  | some d => decode p.access d
  | none => some default

end Parts

/-! ## Tagged records -/

/-- The place of the variant in the list of variants, and the record without its tag. -/
structure Tagged where
  variant : Nat
  access : Access
  rest : Doc

namespace Tagged

/-- The place of the variant that a tag names. -/
def variantOf (variants : List String) (held : Bool) : Doc → Option Nat
  | .string s => s.bind fun s => variants.findIdx? (· = s)
  | .number (some (.int n)) => if held && 0 ≤ n && n < variants.length then some n.toNat else none
  | _ => none

/-- Splits a tagged record into its variant and the rest. -/
def read (tag : String) (variants : List String) (a : Access) (d : Doc) : Option Tagged :=
  if d.readable a.room then
    match d with
    | .object fields =>
      match fields.filter fun f => f.1 = some tag with
      | [(_, t)] =>
        (variantOf variants a.held t).map fun v =>
          ⟨v, { a with held := true }, .object (fields.filter fun f => f.1 ≠ some tag)⟩
      | _ => none
    | .array (t :: items) =>
      (variantOf variants a.held t).map fun v => ⟨v, { a with held := true }, .array items⟩
    | _ => none
  else none

end Tagged

end Json
end Changefeed
