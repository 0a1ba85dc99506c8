import Changefeed.Proofs.Json.RoundTrip
import Changefeed.Schema.Blob

/-!
# Reading back layouts

What a layout's serialised form is read as has the columns of the layout.  It is the layout itself
when everything in it is read back: numbers have to fit, and the names of the table and of the
sources of transactions have to come back from their text forms.  A table's name does when its
database's name has no point in it.
-/

namespace Changefeed

open Json (Doc Decoder Parts Access Literal Number Tagged)

namespace Json

lemma Doc.readable_nat (room : Nat) (n : UInt64) :
    (Doc.nat n.toNat).reread.readable room = true := by
  have hn := n.toNat_lt
  have hvalue : Literal.value? (Literal.ofInt n.toNat) = some (.int n.toNat) :=
    Literal.value?_ofInt (by simp only [Number.minInt]; omega) (by simp only [Number.maxInt]; omega)
  rw [Doc.nat, Doc.int, Doc.reread, hvalue]
  rfl

namespace Decoder

/-- An integer is read back when it is within the bounds, and nothing is read when it is not. -/
lemma intWithin_reread {least greatest : Int} (hleast : Number.minInt ≤ least)
    (hgreatest : greatest ≤ Number.maxInt) (a : Access) (n : Int) :
    intWithin least greatest a (Doc.int n).reread =
      if least ≤ n ∧ n ≤ greatest then some n else none := by
  change intWithin least greatest a (.number (Literal.value? (Literal.ofInt n))) = _
  by_cases hn : least ≤ n ∧ n ≤ greatest
  · rw [Literal.value?_ofInt (Int.le_trans hleast hn.1) (Int.le_trans hn.2 hgreatest)]
    rfl
  · rw [if_neg hn]
    cases hvalue : Literal.value? (Literal.ofInt n) with
    | none => rfl
    | some x =>
      cases x with
      | int m =>
        obtain rfl := Literal.eq_of_value?_ofInt hvalue
        exact if_neg hn
      | double x => rfl

lemma word32_reread (a : Access) (n : UInt32) :
    word32 a (Doc.nat n.toNat).reread = some n := by
  have hn := n.toNat_lt
  rw [word32, natUpTo, Doc.nat, intWithin_reread (by decide) (by decide), if_pos (by omega)]
  simp

lemma word64_reread (a : Access) (n : UInt64) :
    word64 a (Doc.nat n.toNat).reread = some n := by
  have hn := n.toNat_lt
  rw [word64, size, natUpTo, Doc.nat, intWithin_reread (by decide) (by decide), if_pos (by omega)]
  simp

/-- A list is read back when its items are. -/
lemma list_reread {α : Type} {decode : Decoder α} {write : α → Doc} {P : α → Prop}
    [DecidablePred P] {a inner : Access} (hinner : a.enter = some inner)
    (h : ∀ x, decode inner (write x).reread = if P x then some x else none) (xs : List α) :
    list decode a (Doc.array (xs.map write)).reread = if ∀ x ∈ xs, P x then some xs else none := by
  rw [Doc.reread, Doc.rereadItems_eq, list, hinner, Option.bind_some]
  induction xs with
  | nil => rfl
  | cons x xs ih =>
    rw [List.map_cons, List.map_cons, List.mapM_cons, ih, h x]
    simp only [List.forall_mem_cons]
    by_cases hx : P x
    · by_cases hxs : ∀ x ∈ xs, P x
      · rw [if_pos hx, if_pos hxs, if_pos ⟨hx, hxs⟩]
        rfl
      · rw [if_pos hx, if_neg hxs, if_neg (not_and_of_not_right _ hxs)]
        rfl
    · rw [if_neg hx, if_neg (not_and_of_not_left _ hx)]
      rfl

@[simp] lemma string_text (a : Access) (s : String) : string a (Doc.text s) = some s := rfl

@[simp] theorem bool_bool (a : Access) (b : Bool) : bool a (Doc.bool b) = some b := rfl

@[simp] theorem orNull_text (a : Access) (s : String) :
    orNull string a (Doc.text s) = some (some s) := rfl

@[simp] theorem orNull_int (decode : Decoder Int) (a : Access) (n : Int) :
    orNull decode a (Doc.int n).reread = (decode a (Doc.int n).reread).map some := rfl

end Decoder
end Json

namespace Column

/-- The type number of the column has 32 bits. -/
def Fits (c : Column) : Prop := ∀ t ∈ c.typeId, -0x80000000 ≤ t ∧ t ≤ 0x7FFFFFFF

instance : DecidablePred Fits := fun c => inferInstanceAs (Decidable (∀ t ∈ c.typeId, _))

lemma plain_toDoc (c : Column) : c.toDoc.plain = true := by
  rcases c with ⟨name, typeName, _ | typeId, position, nullable, primaryKey, _ | defaultValue⟩ <;>
    rfl

/-- A column is read back when its type number fits, and nothing is read when it does not. -/
lemma decode_reread {a inner : Access} (hinner : a.enter = some inner) (c : Column) :
    decode a c.toDoc.reread = if c.Fits then some c else none := by
  rcases c with ⟨name, typeName, typeId, position, nullable, primaryKey, defaultValue⟩
  have hfits : ∀ n : Int, Decoder.int32 inner (Doc.int n).reread =
      if -0x80000000 ≤ n ∧ n ≤ 0x7FFFFFFF then some n else none :=
    Decoder.intWithin_reread (by decide) (by decide) inner
  cases typeId with
  | none =>
    rw [if_pos (by simp [Fits])]
    cases defaultValue <;>
      simp [decode, toDoc, Doc.fieldIfSome, Doc.record, Doc.reread, Doc.rereadFields, Parts.read,
        Parts.repeats, hinner, Parts.required, Parts.optional, Parts.find?,
        Decoder.word32_reread]
  | some t =>
    simp only [Fits, Option.mem_some, forall_eq']
    cases defaultValue <;>
      simp [decode, toDoc, Doc.fieldIfSome, Doc.record, Doc.reread, Doc.rereadFields, Parts.read,
        Parts.repeats, hinner, Parts.required, Parts.optional, Parts.find?,
        Decoder.word32_reread, hfits] <;>
      split <;> rfl

end Column

namespace TableId

/-- The table's name is read back from its text. -/
def Legible (t : TableId) : Prop := parse t.text = .ok t

/-- A name is read back when the database has a name without a point and the table has a name. -/
lemma legible_iff {t : TableId} :
    t.Legible ↔ '.' ∉ t.database.toList ∧ t.database ≠ "" ∧ t.table ≠ "" := by
  have hempty : ∀ s : String, s.toList = [] ↔ s = "" := fun s => by simp
  constructor
  · intro h
    unfold Legible parse at h
    split at h
    · next database table hcut =>
      split at h
      · cases h
      · next hparts =>
        obtain ⟨hdatabase, htable⟩ := not_or.mp hparts
        obtain rfl := Except.ok.inj h
        refine ⟨?_, ?_, ?_⟩
        · rw [String.toList_ofList]
          exact Text.not_mem_of_cutFirst hcut
        · rwa [ne_eq, ← hempty, String.toList_ofList]
        · rwa [ne_eq, ← hempty, String.toList_ofList]
    · cases h
  · rintro ⟨hpoint, hdatabase, htable⟩
    have hcut : Text.cutFirst '.' t.text.toList = some (t.database.toList, t.table.toList) := by
      rw [text, String.toList_ofList, chars, Text.cutFirst_append hpoint]
    have hparts : ¬ (t.database.toList = [] ∨ t.table.toList = []) := by
      rw [hempty, hempty]
      exact not_or.mpr ⟨hdatabase, htable⟩
    simp only [Legible, parse, hcut, if_neg hparts, String.ofList_toList]

lemma decode_reread {t : TableId} (h : t.Legible) (a : Access) :
    decode a t.toDoc.reread = some t := by
  change (parse t.text).toOption = some t
  rw [h]
  rfl

end TableId

namespace Offset

/-- The position is read back from its text: a place in a file always is, and a transaction set when
its own text is. -/
def Legible : Offset → Prop
  | .binlog .. => True
  | .gtid s => GtidSet.parse s.text = .ok s

lemma plain_toDoc (o : Offset) : o.toDoc.plain = true := by
  cases o <;> rfl

lemma decode_reread {a inner : Access} (hinner : a.enter = some inner) {o : Offset}
    (ho : o.Legible) : decode a o.toDoc.reread = some o := by
  obtain ⟨room, held⟩ := a
  obtain ⟨n, rfl⟩ : ∃ n, room = n + 1 := by
    cases room with
    | zero => cases hinner
    | succ n => exact ⟨n, rfl⟩
  cases o with
  | binlog filename position =>
    simp [decode, toDoc, Doc.record, Doc.reread, Doc.rereadFields, Tagged.read, Doc.readable,
      Doc.readableFields, Doc.readable_nat, Doc.text, Tagged.variantOf, List.findIdx?,
      List.findIdx?.go, decodeBinlog, Parts.read, Parts.repeats, Access.enter, Parts.required,
      Parts.find?, Decoder.word64_reread]
    rfl
  | gtid s =>
    have hs : GtidSet.parse s.text = .ok s := ho
    simp [decode, toDoc, Doc.record, Doc.reread, Doc.rereadFields, Tagged.read, Doc.readable,
      Doc.readableFields, Doc.text, Tagged.variantOf, List.findIdx?, List.findIdx?.go, decodeGtid,
      Parts.read, Parts.repeats, Access.enter, Parts.required, Parts.find?, GtidSet.toDoc,
      GtidSet.decode, Decoder.parsed]
    change ((GtidSet.parse s.text).toOption.bind fun set => some (gtid set)) = _
    rw [hs]
    rfl

end Offset

namespace SchemaRecord

lemma plain_toDoc (r : SchemaRecord) : r.toDoc.plain = true := by
  have hcolumns := Doc.plainItems_map fun c (_ : c ∈ r.columns) => c.plain_toDoc
  have hposition := r.position.plain_toDoc
  rcases r with ⟨tableId, columns, position, _ | ddl, timestampMs⟩ <;>
    simp [toDoc, fieldDocs, Doc.fieldIfSome, Doc.record, Doc.plain, Doc.plainFields,
      TableId.toDoc, hcolumns, hposition]

/-- A layout is read back part by part. -/
lemma decode_reread {a inner : Access} (hinner : a.enter = some inner) (r : SchemaRecord) :
    decode a r.toDoc.reread =
      (TableId.decode inner r.tableId.toDoc.reread).bind fun tableId =>
        (Decoder.list Column.decode inner (Doc.array (r.columns.map Column.toDoc)).reread).bind
          fun columns =>
            (Offset.decode inner r.position.toDoc.reread).bind fun position =>
              (Decoder.int64 inner (Doc.int r.timestampMs).reread).bind fun timestampMs =>
                some { tableId, columns, position, ddl := r.ddl, timestampMs } := by
  rcases r with ⟨tableId, columns, position, _ | ddl, timestampMs⟩ <;>
    simp [decode, toDoc, fieldDocs, Doc.fieldIfSome, Doc.record, Doc.reread, Doc.rereadFields,
      Parts.read, Parts.repeats, hinner, Parts.required, Parts.optional, Parts.defaulted,
      Parts.find?]

/-- The access to a layout in a blob. -/
def blobAccess : Access := { room := Json.maxLevels - 1 }

lemma listOfBlob?_toBlob (r : SchemaRecord) :
    listOfBlob? r.toBlob = (decode blobAccess r.toDoc.reread).map fun r' => [r'] := by
  have hplain : (Doc.array [r.toDoc]).plain = true := by
    simp [Doc.plain, Doc.plainItems, r.plain_toDoc]
  rw [listOfBlob?, toBlob, Blob.ofText, blobText, Doc.ofBytes?_compact hplain, Option.bind_some]
  change [r.toDoc.reread].mapM (decode blobAccess) = _
  rw [List.mapM_cons]
  cases decode blobAccess r.toDoc.reread <;> rfl

lemma decode_of_ofBlob {r r' : SchemaRecord} (h : ofBlob r.toBlob = .ok r') :
    decode blobAccess r.toDoc.reread = some r' := by
  rw [ofBlob, listOfBlob?_toBlob] at h
  cases hdecode : decode blobAccess r.toDoc.reread with
  | none =>
    rw [hdecode] at h
    cases h
  | some found =>
    rw [hdecode] at h
    exact congrArg some (Except.ok.inj h)

/-- A layout that is read back from its serialised form has its columns. -/
lemma columns_of_ofBlob {r r' : SchemaRecord} (h : ofBlob r.toBlob = .ok r') :
    r'.columns = r.columns := by
  have hdecode := decode_of_ofBlob h
  rw [decode_reread rfl] at hdecode
  obtain ⟨tableId, -, hdecode⟩ := Option.bind_eq_some_iff.mp hdecode
  obtain ⟨columns, hcolumns, hdecode⟩ := Option.bind_eq_some_iff.mp hdecode
  obtain ⟨position, -, hdecode⟩ := Option.bind_eq_some_iff.mp hdecode
  obtain ⟨timestampMs, -, hdecode⟩ := Option.bind_eq_some_iff.mp hdecode
  rw [Decoder.list_reread rfl (Column.decode_reread rfl)] at hcolumns
  split at hcolumns
  · rw [← Option.some.inj hdecode, ← Option.some.inj hcolumns]
  · cases hcolumns

/-- Everything in the layout is read back. -/
structure Legible (r : SchemaRecord) : Prop where
  table : r.tableId.Legible
  columns : ∀ c ∈ r.columns, c.Fits
  position : r.position.Legible
  timestamp : -0x8000000000000000 ≤ r.timestampMs ∧ r.timestampMs ≤ 0x7FFFFFFFFFFFFFFF

/-- A layout of which everything is read back is read back from its serialised form. -/
lemma ofBlob_toBlob {r : SchemaRecord} (h : r.Legible) : ofBlob r.toBlob = .ok r := by
  have hdecode : decode blobAccess r.toDoc.reread = some r := by
    rw [decode_reread rfl, TableId.decode_reread h.table, Option.bind_some,
      Decoder.list_reread rfl (Column.decode_reread rfl), if_pos h.columns, Option.bind_some,
      Offset.decode_reread rfl h.position, Option.bind_some, Decoder.int64,
      Decoder.intWithin_reread (by decide) (by decide), if_pos h.timestamp, Option.bind_some]
  rw [ofBlob, listOfBlob?_toBlob, hdecode]
  rfl

end SchemaRecord

end Changefeed
