import Changefeed.Proofs.Dispatch
import Changefeed.Proofs.SortedMap

/-!
# Rows with their columns named

A row change is decoded with a layout exactly when the two are of one table, the change has the
images that go with its kind, and each image has a value for every column.  The event has the images
with the values under the names of their columns, and all else as it was.

When no two columns have the same name, an image of the event has those names and no other, and the
value that stands under the name of a column is the one that the row has in its place.  Nothing is
lost or moved, so the row can be read back in the order of the columns.
-/

namespace Changefeed

/-! ## Images -/

namespace SchemaRecord

/-- The values of a row under the names of the columns. -/
def named (schema : SchemaRecord) (values : List Json.Value) : Json.Object :=
  SortedMap.ofEntries (schema.columnNames.zip values)

/-- The image has the names of the columns and no other, and the values under them, in the order of
the columns, are the given ones. -/
structure Names (schema : SchemaRecord) (values : List Json.Value) (image : Json.Object) : Prop where
  keys : image.keys.Perm schema.columnNames
  values : schema.columnNames.map image.find? = values.map some

variable {schema : SchemaRecord} {position : Offset} {values : List Json.Value}

/-- An image is named when it is missing or has a value for every column. -/
lemma nameImage_eq_ok_iff {image : Option (List Json.Value)} {result : Option Json.Object} :
    schema.nameImage position image = .ok result ↔
      (∀ values ∈ image, values.length = schema.columns.length) ∧
        result = image.map schema.named := by
  cases image with
  | none =>
    rw [nameImage]
    simp [eq_comm]
  | some values =>
    rw [nameImage, nameValues]
    by_cases hlength : values.length = schema.columns.length
    · simp [hlength, Except.map, named, eq_comm]
    · simp [hlength, Except.map]

lemma map_fst_zip_names (hlength : values.length = schema.columns.length) :
    (schema.columnNames.zip values).map Prod.fst = schema.columnNames :=
  List.map_fst_zip (by simp [columnNames, hlength])

lemma map_snd_zip_names (hlength : values.length = schema.columns.length) :
    (schema.columnNames.zip values).map Prod.snd = values :=
  List.map_snd_zip (by simp [columnNames, hlength])

lemma find?_named (hdistinct : schema.columnNames.Nodup)
    (hlength : values.length = schema.columns.length) {name : String} {value : Json.Value} :
    (schema.named values).find? name = some value ↔
      (name, value) ∈ schema.columnNames.zip values := by
  have hkeys : ((schema.columnNames.zip values).map Prod.fst).Nodup := by
    rwa [map_fst_zip_names hlength]
  rw [named, SortedMap.ofEntries, SortedMap.find?_foldl_insert hkeys]
  simp [SortedMap.find?]

/-- Distinct names keep the values of a row apart and in order. -/
lemma names_named (hdistinct : schema.columnNames.Nodup)
    (hlength : values.length = schema.columns.length) :
    schema.Names values (schema.named values) where
  keys := by
    have hascending : SortedMap.Ascending (schema.named values) := SortedMap.ascending_ofEntries _
    refine (List.perm_ext_iff_of_nodup hascending.nodup_keys hdistinct).mpr fun name => ?_
    have hentry : ∀ value, (name, value) ∈ schema.named values ↔
        (name, value) ∈ schema.columnNames.zip values := fun value => by
      rw [← SortedMap.find?_eq_some_iff hascending, find?_named hdistinct hlength]
    calc name ∈ (schema.named values).map Prod.fst
      _ ↔ ∃ value, (name, value) ∈ schema.named values := by simp
      _ ↔ ∃ value, (name, value) ∈ schema.columnNames.zip values := exists_congr hentry
      _ ↔ name ∈ (schema.columnNames.zip values).map Prod.fst := by simp
      _ ↔ name ∈ schema.columnNames := by rw [map_fst_zip_names hlength]
  values := by
    have hfound : ∀ entry ∈ schema.columnNames.zip values,
        (schema.named values).find? entry.1 = some entry.2 := fun entry hentry =>
      (find?_named hdistinct hlength).mpr hentry
    calc schema.columnNames.map (schema.named values).find?
      _ = ((schema.columnNames.zip values).map Prod.fst).map (schema.named values).find? := by
        rw [map_fst_zip_names hlength]
      _ = (schema.columnNames.zip values).map fun entry => (schema.named values).find? entry.1 :=
        List.map_map
      _ = (schema.columnNames.zip values).map fun entry => some entry.2 :=
        List.map_congr_left hfound
      _ = ((schema.columnNames.zip values).map Prod.snd).map some := List.map_map.symm
      _ = values.map some := by rw [map_snd_zip_names hlength]

end SchemaRecord

/-! ## Changes -/

namespace RowChange

variable {schema : SchemaRecord} {c : RowChange} {e : ChangeEvent}

/-- The change is one of the layout's table, has the images of its kind, and has a value for every
column in each of them. -/
structure WellFormed (schema : SchemaRecord) (c : RowChange) : Prop where
  table : schema.tableId = c.tableId
  before : c.before.isSome = true ↔ c.kind = .update ∨ c.kind = .delete
  after : c.after.isSome = true ↔ c.kind = .insert ∨ c.kind = .update
  beforeLength : ∀ values ∈ c.before, values.length = schema.columns.length
  afterLength : ∀ values ∈ c.after, values.length = schema.columns.length

/-- The change with the columns of its images named. -/
def named (schema : SchemaRecord) (c : RowChange) : ChangeEvent :=
  { position := c.position, tableId := c.tableId, kind := c.kind,
    before := c.before.map schema.named, after := c.after.map schema.named,
    timestampMs := c.timestampMs }

lemma hasBefore_eq_isSome_iff :
    c.kind.hasBefore = c.before.isSome ↔
      (c.before.isSome = true ↔ c.kind = .update ∨ c.kind = .delete) := by
  cases c.kind <;> cases c.before <;> simp [ChangeKind.hasBefore]

lemma hasAfter_eq_isSome_iff :
    c.kind.hasAfter = c.after.isSome ↔
      (c.after.isSome = true ↔ c.kind = .insert ∨ c.kind = .update) := by
  cases c.kind <;> cases c.after <;> simp [ChangeKind.hasAfter]

/-- A change is decoded when it is well-formed, and as the change with its columns named. -/
lemma decodeWith_eq_ok_iff :
    c.decodeWith schema = .ok e ↔ c.WellFormed schema ∧ e = c.named schema := by
  constructor
  · intro h
    have hread := readAs_of_decodeWith h
    obtain ⟨hbefore, hbeforeNamed⟩ := SchemaRecord.nameImage_eq_ok_iff.mp hread.before
    obtain ⟨hafter, hafterNamed⟩ := SchemaRecord.nameImage_eq_ok_iff.mp hread.after
    refine ⟨⟨hread.table, hasBefore_eq_isSome_iff.mp hread.hasBefore,
      hasAfter_eq_isSome_iff.mp hread.hasAfter, hbefore, hafter⟩, ?_⟩
    rw [hread.event, hbeforeNamed, hafterNamed]
    rfl
  · rintro ⟨h, rfl⟩
    have hbefore : schema.nameImage c.position c.before = .ok (c.before.map schema.named) :=
      SchemaRecord.nameImage_eq_ok_iff.mpr ⟨h.beforeLength, rfl⟩
    have hafter : schema.nameImage c.position c.after = .ok (c.after.map schema.named) :=
      SchemaRecord.nameImage_eq_ok_iff.mpr ⟨h.afterLength, rfl⟩
    rw [decodeWith, if_neg (not_not.mpr h.table),
      if_neg (not_not.mpr (hasBefore_eq_isSome_iff.mpr h.before)),
      if_neg (not_not.mpr (hasAfter_eq_isSome_iff.mpr h.after)), hbefore, hafter]
    rfl

/-- A change is decoded exactly when it is well-formed, and is reported as malformed otherwise.  The
event has the position, the table, the kind and the time of the change and an image where that has
one.  When the names of the columns are distinct, each image names the values of the row: it has the
names of the columns alone, and the row is read back from it in the order of the columns. -/
theorem decodes_exactly (schema : SchemaRecord) (c : RowChange) :
    ((∃ e, c.decodeWith schema = .ok e) ↔ c.WellFormed schema) ∧
    (¬ c.WellFormed schema → ∃ cause, c.decodeWith schema = .error (.malformedRecord cause)) ∧
    ∀ e, c.decodeWith schema = .ok e →
      e.position = c.position ∧ e.tableId = c.tableId ∧ e.kind = c.kind ∧
      e.timestampMs = c.timestampMs ∧
      e.before.isSome = c.before.isSome ∧ e.after.isSome = c.after.isSome ∧
      (schema.columnNames.Nodup → ∀ values image,
        c.before = some values ∧ e.before = some image ∨
            c.after = some values ∧ e.after = some image →
          schema.Names values image) := by
  have hiff : (∃ e, c.decodeWith schema = .ok e) ↔ c.WellFormed schema := by
    simp [decodeWith_eq_ok_iff]
  refine ⟨hiff, fun hnot => ?_, fun e he => ?_⟩
  · rcases decodeWith_cases schema c with ⟨e, he, -⟩ | hmalformed
    · exact absurd (hiff.mp ⟨e, he⟩) hnot
    · exact hmalformed
  · obtain ⟨h, rfl⟩ := decodeWith_eq_ok_iff.mp he
    refine ⟨rfl, rfl, rfl, rfl, Option.isSome_map, Option.isSome_map, ?_⟩
    rintro hdistinct values image (⟨hvalues, himage⟩ | ⟨hvalues, himage⟩)
    · rw [named, hvalues] at himage
      rw [← Option.some.inj himage]
      exact SchemaRecord.names_named hdistinct (h.beforeLength values hvalues)
    · rw [named, hvalues] at himage
      rw [← Option.some.inj himage]
      exact SchemaRecord.names_named hdistinct (h.afterLength values hvalues)

end RowChange
end Changefeed
