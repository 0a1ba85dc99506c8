import Changefeed.Proofs.Gtid.Text
import Changefeed.Proofs.Json.Codec
import Changefeed.Proofs.Schema.Blob
import Changefeed.Proofs.Time.Instant
import Changefeed.Wire.Checkpoint

/-!
# Reading back what is stored and sent

Splits, layouts, checkpoints and log records are read back from their texts just as they were.
They can be written down when the names of their tables and of the sources of transactions come
back from their text forms, when no end of a range of keys is null, and when all numbers are
integers that fit.
-/

namespace Changefeed

open Json (Doc Decoder Parts Tagged Access Reads ReadsBack Value)

/-! ## Names, positions and keys -/

/-- The table has a name, and so has its database, without a point. -/
structure TableId.Writable (t : TableId) : Prop where
  database : t.database ≠ ""
  point : '.' ∉ t.database.toList
  table : t.table ≠ ""

lemma TableId.Writable.legible {t : TableId} (h : t.Writable) : t.Legible :=
  legible_iff.mpr ⟨h.point, h.database, h.table⟩

lemma TableId.Legible.reads {t : TableId} (h : t.Legible) : Reads TableId.decode t.toDoc t :=
  Decoder.reads_parsed h

/-- The sources of a transaction set can stand in its text. -/
def Offset.Writable : Offset → Prop
  | .binlog .. => True
  | .gtid s => s.Normal ∧ ∀ e ∈ s.sources, GtidSet.Writable e.1

namespace Offset

lemma reads_binlog (filename : String) (position : UInt64) :
    Reads decodeBinlog
      (.record [("filename", .text filename), ("position", .nat position.toNat)])
      (.binlog filename position) := by
  have hfilename := Decoder.reads_string filename
  have hposition := Decoder.reads_word64 position
  refine Reads.record (fun _ _ => rfl) (by simp)
    (by simpa using ⟨hfilename.exact, hposition.exact⟩) fun p hp => ?_
  simp [hp.required "filename" rfl hfilename, hp.required "position" rfl hposition]

lemma reads_gtid {s : GtidSet} (h : GtidSet.parse s.text = .ok s) :
    Reads decodeGtid (.record [("gtid_set", s.toDoc)]) (.gtid s) := by
  have hset : Reads GtidSet.decode s.toDoc s := Decoder.reads_parsed h
  refine Reads.record (fun _ _ => rfl) (by simp) (by simpa using hset.exact) fun p hp => ?_
  simp [hp.required "gtid_set" rfl hset]

lemma Writable.legible {o : Offset} (h : o.Writable) : o.Legible := by
  cases o with
  | binlog filename position => trivial
  | gtid s => exact GtidSet.parse_text h.1 h.2

lemma Legible.reads {o : Offset} (h : o.Legible) : Reads decode o.toDoc o := by
  cases o with
  | binlog filename position =>
    have hbinlog := reads_binlog filename position
    exact Reads.tagged (v := 0) (fun _ _ => rfl) rfl (by simp) hbinlog.exact hbinlog.decode_eq
  | gtid s =>
    have hgtid := reads_gtid h
    exact Reads.tagged (v := 1) (fun _ _ => rfl) rfl (by simp) hgtid.exact hgtid.decode_eq

end Offset

namespace KeyRange

/-- The ends of the range are not null, and their numbers are integers that fit. -/
structure Writable (r : KeyRange) : Prop where
  low : ∀ v ∈ r.low, v ≠ .null ∧ v.Integral
  high : ∀ v ∈ r.high, v ≠ .null ∧ v.Integral

lemma Writable.reads {r : KeyRange} (h : r.Writable) : Reads decode r.toDoc r := by
  have hend : ∀ bound : Option Value, (∀ v ∈ bound, v ≠ .null ∧ v.Integral) →
      Reads (Decoder.orNull Decoder.anyValue) (.orNull Doc.ofValue bound) bound := fun _ hbound =>
    Decoder.reads_orNull (fun v hv => Decoder.reads_anyValue (hbound v hv).2)
      fun v hv => Doc.ofValue_ne_null (hbound v hv).1
  have hlow := hend r.low h.low
  have hhigh := hend r.high h.high
  refine Reads.record (fun _ _ => rfl) (by simp) (by simpa using ⟨hlow.exact, hhigh.exact⟩)
    fun p hp => ?_
  simp [hp.nullable "low" rfl hlow, hp.nullable "high" rfl hhigh]

end KeyRange

/-! ## Splits -/

lemma SplitId.reads (id : SplitId) : Reads decode id.toDoc id := by
  have hscope := Decoder.reads_string id.scope
  have hindex := Decoder.reads_word32 id.index
  refine Reads.record (fun _ _ => rfl) (by simp) (by simpa using ⟨hscope.exact, hindex.exact⟩)
    fun p hp => ?_
  simp [hp.required "scope" rfl hscope, hp.required "index" rfl hindex]

namespace SnapshotSplit

/-- The table's name and the ends of the range are read back. -/
structure Writable (s : SnapshotSplit) : Prop where
  tableId : s.tableId.Writable
  keyRange : s.keyRange.Writable

lemma Writable.reads {s : SnapshotSplit} (h : s.Writable) : Reads decode s.toDoc s := by
  have htable := h.tableId.legible.reads
  have hcolumn := Decoder.reads_string s.keyColumn
  have hrange := h.keyRange.reads
  have hindex := Decoder.reads_word32 s.splitIndex
  refine Reads.record (fun _ _ => rfl) (by simp [fieldDocs])
    (by simpa [fieldDocs] using ⟨htable.exact, hcolumn.exact, hrange.exact, hindex.exact⟩)
    fun p hp => ?_
  simp [hp.required "table_id" rfl htable, hp.required "key_column" rfl hcolumn,
    hp.required "key_range" rfl hrange, hp.required "split_index" rfl hindex]

end SnapshotSplit

namespace FinishedSplit

/-- The table's name, the ends of the range and the watermark are read back. -/
structure Writable (f : FinishedSplit) : Prop where
  tableId : f.tableId.Writable
  keyRange : f.keyRange.Writable
  watermark : f.watermark.Writable

lemma Writable.reads {f : FinishedSplit} (h : f.Writable) : Reads decode f.toDoc f := by
  have htable := h.tableId.legible.reads
  have hcolumn := Decoder.reads_string f.keyColumn
  have hrange := h.keyRange.reads
  have hwatermark := h.watermark.legible.reads
  refine Reads.record (fun _ _ => rfl) (by simp)
    (by simpa using ⟨htable.exact, hcolumn.exact, hrange.exact, hwatermark.exact⟩) fun p hp => ?_
  simp [hp.required "table_id" rfl htable, hp.required "key_column" rfl hcolumn,
    hp.required "key_range" rfl hrange, hp.required "watermark" rfl hwatermark]

end FinishedSplit

lemma Offset.toDoc_ne_null (o : Offset) : o.toDoc ≠ .null := by
  cases o <;> simp [toDoc, Doc.record]

lemma Offset.reads_orNull {o : Option Offset} (h : ∀ p ∈ o, p.Writable) :
    Reads (Decoder.orNull decode) (.orNull toDoc o) o :=
  Decoder.reads_orNull (fun p hp => (h p hp).legible.reads) fun p _ => p.toDoc_ne_null

lemma reads_blob (b : Blob) : Reads (Decoder.list Decoder.byte) (blobDoc b) b :=
  Decoder.reads_list fun byte _ => Decoder.reads_byte byte

namespace IncrementalSplit

/-- The names of all tables, the positions and the finished splits are read back, and the layout
records are in the order of their tables. -/
structure Writable (s : IncrementalSplit) : Prop where
  tableIds : ∀ t ∈ s.tableIds, t.Writable
  startingOffset : s.startingOffset.Writable
  endingOffset : ∀ o ∈ s.endingOffset, o.Writable
  ascending : SortedMap.Ascending s.historyRefs
  historyRefs : ∀ e ∈ s.historyRefs, e.1.Writable
  finishedSplits : ∀ f ∈ s.finishedSplits, f.Writable

/-- A split is read, in whatever order its layout records were written. -/
lemma Writable.reads {s : IncrementalSplit} (h : s.Writable) {refs : List (TableId × Blob)}
    (hrefs : refs.Perm s.historyRefs) : Reads decode { s with historyRefs := refs }.toDoc s := by
  have hindex := Decoder.reads_word32 s.splitIndex
  have htables := Decoder.reads_list fun t ht => (h.tableIds t ht).legible.reads
  have hstarting := h.startingOffset.legible.reads
  have hending := Offset.reads_orNull h.endingOffset
  have hhistory := Decoder.reads_map h.ascending hrefs (fun e he => (h.historyRefs e he).legible)
    fun e _ => reads_blob e.2
  have hfinished := Decoder.reads_list fun f hf => (h.finishedSplits f hf).reads
  refine Reads.record (fun _ _ => rfl) (by simp [fieldDocsWith])
    (by simpa [fieldDocsWith] using ⟨hindex.exact, htables.exact, hstarting.exact, hending.exact,
      hhistory.exact, hfinished.exact⟩) fun p hp => ?_
  simp [hp.required "split_index" rfl hindex, hp.required "table_ids" rfl htables,
    hp.required "starting_offset" rfl hstarting, hp.optional "ending_offset" rfl hending,
    hp.defaulted "history_refs" rfl hhistory, hp.defaulted "finished_snapshot_splits" rfl hfinished]

end IncrementalSplit

namespace Split

/-- Everything in the split is read back. -/
def Writable : Split → Prop
  | .snapshot s => s.Writable
  | .incremental s => s.Writable

lemma reads_incremental {s : IncrementalSplit} (h : s.Writable) {refs : List (TableId × Blob)}
    (hrefs : refs.Perm s.historyRefs) :
    Reads decode (toDoc (.incremental { s with historyRefs := refs })) (.incremental s) := by
  have hbody := h.reads hrefs
  exact Reads.tagged (v := 1) (fun _ _ => rfl) rfl (by simp [IncrementalSplit.fieldDocsWith])
    hbody.exact fun a ha => congrArg (Option.map incremental) (hbody.decode_eq a ha)

lemma Writable.reads {s : Split} (h : s.Writable) : Reads decode s.toDoc s := by
  cases s with
  | snapshot s =>
    have hbody := SnapshotSplit.Writable.reads h
    exact Reads.tagged (v := 0) (fun _ _ => rfl) rfl (by simp [SnapshotSplit.fieldDocs])
      hbody.exact fun a ha => congrArg (Option.map snapshot) (hbody.decode_eq a ha)
  | incremental s => exact reads_incremental h (.refl _)

end Split

/-! ## Layouts and log records -/

lemma Column.Fits.reads {c : Column} (h : c.Fits) : Reads decode c.toDoc c := by
  have hname := Decoder.reads_string c.name
  have htypeName := Decoder.reads_string c.typeName
  have htypeId : Reads (Decoder.orNull Decoder.int32) (.orNull Doc.int c.typeId) c.typeId :=
    Decoder.reads_orNull
      (fun t ht => Decoder.reads_intWithin (by decide) (by decide) (h t ht)) (by simp [Doc.int])
  have hposition := Decoder.reads_word32 c.position
  have hnullable := Decoder.reads_bool c.nullable
  have hprimaryKey := Decoder.reads_bool c.primaryKey
  have hdefault : Reads (Decoder.orNull Decoder.string) (.orNull Doc.text c.defaultValue)
      c.defaultValue :=
    Decoder.reads_orNull (fun s _ => Decoder.reads_string s) (by simp [Doc.text])
  refine Reads.record (fun _ _ => rfl) ?_ ?_ fun p hp => ?_
  · cases c.typeId <;> cases c.defaultValue <;> simp [Doc.fieldIfSome]
  · simpa [or_imp, forall_and] using ⟨hname.exact, htypeName.exact,
      Doc.exact_fieldIfSome htypeId.exact, hposition.exact, hnullable.exact, hprimaryKey.exact,
      Doc.exact_fieldIfSome hdefault.exact⟩
  · have htypeId' := hp.optional_ifSome "type_id"
      (by cases c.typeId <;> cases c.defaultValue <;> rfl) htypeId
    have hposition' := hp.required "position" (by cases c.typeId <;> rfl) hposition
    have hnullable' := hp.required "nullable" (by cases c.typeId <;> rfl) hnullable
    have hprimaryKey' := hp.required "primary_key" (by cases c.typeId <;> rfl) hprimaryKey
    have hdefault' := hp.optional_ifSome "default_value"
      (by cases c.typeId <;> cases c.defaultValue <;> rfl) hdefault
    simp [hp.required "name" rfl hname, hp.required "type_name" rfl htypeName, htypeId',
      hposition', hnullable', hprimaryKey', hdefault']

namespace SchemaRecord

/-- Everything in the layout is read back: its names, its position, and its numbers, which fit. -/
structure Writable (r : SchemaRecord) : Prop where
  tableId : r.tableId.Writable
  columns : ∀ c ∈ r.columns, c.Fits
  position : r.position.Writable
  timestamp : -0x8000000000000000 ≤ r.timestampMs ∧ r.timestampMs ≤ 0x7FFFFFFFFFFFFFFF

lemma Writable.legible {r : SchemaRecord} (h : r.Writable) : r.Legible :=
  ⟨h.tableId.legible, h.columns, h.position.legible, h.timestamp⟩

lemma Writable.reads {r : SchemaRecord} (h : r.Writable) : Reads decode r.toDoc r := by
  have htable := h.tableId.legible.reads
  have hcolumns := Decoder.reads_list fun c hc => (h.columns c hc).reads
  have hposition := h.position.legible.reads
  have hddl : Reads (Decoder.orNull Decoder.string) (.orNull Doc.text r.ddl) r.ddl :=
    Decoder.reads_orNull (fun s _ => Decoder.reads_string s) (by simp [Doc.text])
  have htimestamp := Decoder.reads_int64 h.timestamp
  refine Reads.record (fun _ _ => rfl) ?_ ?_ fun p hp => ?_
  · rw [fieldDocs]
    cases r.ddl <;> simp [Doc.fieldIfSome]
  · simpa [fieldDocs, or_imp, forall_and] using ⟨htable.exact, hcolumns.exact, hposition.exact,
      Doc.exact_fieldIfSome hddl.exact, htimestamp.exact⟩
  · have hddl' := hp.optional_ifSome "ddl" (by rw [fieldDocs]; cases r.ddl <;> rfl) hddl
    have hfound : r.fieldDocs.find? (fun f => f.1 = "timestamp_ms") =
        some ("timestamp_ms", .int r.timestampMs) := by
      rw [fieldDocs]
      cases r.ddl <;> rfl
    simp [hp.required "table_id" rfl htable, hp.required "columns" rfl hcolumns,
      hp.required "position" rfl hposition, hddl', hp.defaulted "timestamp_ms" hfound htimestamp]

end SchemaRecord

lemma ChangeKind.reads (k : ChangeKind) : Reads decode k.toDoc k := by
  refine ⟨Doc.exact_text k.word, fun a _ => ?_⟩
  cases k <;> rfl

namespace RowChange

/-- Everything in the change is read back: its names, its position, and its numbers, which fit. -/
structure Writable (c : RowChange) : Prop where
  position : c.position.Writable
  tableId : c.tableId.Writable
  before : ∀ image ∈ c.before, ∀ v ∈ image, v.Integral
  after : ∀ image ∈ c.after, ∀ v ∈ image, v.Integral
  timestamp : -0x8000000000000000 ≤ c.timestampMs ∧ c.timestampMs ≤ 0x7FFFFFFFFFFFFFFF

lemma Writable.reads {c : RowChange} (h : c.Writable) : Reads decode (.record c.fieldDocs) c := by
  have himage : ∀ image : Option (List Value), (∀ vs ∈ image, ∀ v ∈ vs, v.Integral) →
      Reads (Decoder.orNull (Decoder.list Decoder.anyValue)) (.orNull valuesDoc image) image :=
    fun _ hvalues => Decoder.reads_orNull
      (fun vs hvs => Decoder.reads_list fun v hv => Decoder.reads_anyValue (hvalues vs hvs v hv))
      (by simp [valuesDoc])
  have hposition := h.position.legible.reads
  have htable := h.tableId.legible.reads
  have hkind := c.kind.reads
  have hbefore := himage c.before h.before
  have hafter := himage c.after h.after
  have htimestamp := Decoder.reads_int64 h.timestamp
  refine Reads.record (fun _ _ => rfl) (by simp [fieldDocs])
    (by simpa [fieldDocs] using ⟨hposition.exact, htable.exact, hkind.exact, hbefore.exact,
      hafter.exact, htimestamp.exact⟩) fun p hp => ?_
  simp [hp.required "position" rfl hposition, hp.required "table_id" rfl htable,
    hp.required "kind" rfl hkind, hp.optional "before" rfl hbefore,
    hp.optional "after" rfl hafter, hp.defaulted "timestamp_ms" rfl htimestamp]

end RowChange

namespace LogRecord

/-- Everything in the entry is read back. -/
def Writable : LogRecord → Prop
  | .change c => c.Writable
  | .schemaChange r => r.Writable
  | .heartbeat position => position.Writable

lemma reads_heartbeat {position : Offset} (h : position.Writable) :
    Reads decodeHeartbeat (.record [("position", position.toDoc)]) position := by
  have hposition := h.legible.reads
  refine Reads.record (fun _ _ => rfl) (by simp) (by simpa using hposition.exact) fun p hp => ?_
  exact hp.required "position" rfl hposition

lemma Writable.reads {r : LogRecord} (h : r.Writable) : Reads decode r.toDoc r := by
  cases r with
  | change c =>
    have hbody := RowChange.Writable.reads h
    exact Reads.tagged (v := 0) (fun _ _ => rfl) rfl (by simp [RowChange.fieldDocs])
      hbody.exact fun a ha => congrArg (Option.map change) (hbody.decode_eq a ha)
  | schemaChange r =>
    have hbody := SchemaRecord.Writable.reads h
    refine Reads.tagged (v := 1) (fun _ _ => rfl) rfl ?_
      hbody.exact fun a ha => congrArg (Option.map schemaChange) (hbody.decode_eq a ha)
    rw [SchemaRecord.fieldDocs]
    cases r.ddl <;> simp [Doc.fieldIfSome]
  | heartbeat position =>
    have hbody := reads_heartbeat h
    exact Reads.tagged (v := 2) (fun _ _ => rfl) rfl (by simp)
      hbody.exact fun a ha => congrArg (Option.map heartbeat) (hbody.decode_eq a ha)

end LogRecord

/-! ## Checkpoints -/

lemma Instant.Valid.reads {t : Instant} (h : t.Valid) : Reads Instant.decode (.text t.text) t :=
  ⟨Doc.exact_text t.text, fun a _ => by
    rw [Instant.decode, Decoder.string_text, Option.bind_some, parse?_text h]⟩

namespace Checkpoint

/-- The names of the tables, the position and the time are read back. -/
structure Legible (c : Checkpoint) : Prop where
  tableIds : ∀ t ∈ c.tableIds, t.Legible
  offset : c.offset.Legible
  createdAt : c.createdAt.Valid

lemma Legible.reads {c : Checkpoint} (h : c.Legible) : Reads decode c.toDoc c := by
  have hsplit := c.splitId.reads
  have htables := Decoder.reads_list fun t ht => (h.tableIds t ht).reads
  have hoffset := h.offset.reads
  have hcreated := h.createdAt.reads
  refine Reads.record (fun _ _ => rfl) (by simp)
    (by simpa using ⟨hsplit.exact, htables.exact, hoffset.exact, hcreated.exact⟩) fun p hp => ?_
  simp [hp.required "split_id" rfl hsplit, hp.required "table_ids" rfl htables,
    hp.required "offset" rfl hoffset, hp.required "created_at" rfl hcreated]

/-- The names of the tables and of the sources of transactions come back from their text forms, and
the time is one. -/
structure Writable (c : Checkpoint) : Prop where
  tableIds : ∀ t ∈ c.tableIds, t.Writable
  offset : c.offset.Writable
  createdAt : c.createdAt.Valid

lemma Writable.legible {c : Checkpoint} (h : c.Writable) : c.Legible :=
  ⟨fun t ht => (h.tableIds t ht).legible, h.offset.legible, h.createdAt⟩

end Checkpoint

/-! ## Texts -/

lemma Offset.levels_toDoc (o : Offset) : o.toDoc.levels ≤ 1 := by
  cases o <;> exact Doc.levels_record_le (by simp [GtidSet.toDoc])

lemma Column.levels_toDoc (c : Column) : c.toDoc.levels ≤ 1 := by
  refine Doc.levels_record_le ?_
  cases c.typeId <;> cases c.defaultValue <;> simp [Doc.fieldIfSome]

lemma SchemaRecord.levels_toDoc (r : SchemaRecord) : r.toDoc.levels ≤ 3 := by
  have hcolumns : (Doc.array (r.columns.map Column.toDoc)).levels ≤ 2 :=
    Doc.levels_array_le (List.forall_mem_map.mpr fun c _ => c.levels_toDoc)
  have hposition : r.position.toDoc.levels ≤ 2 :=
    Nat.le_trans r.position.levels_toDoc (by decide)
  refine Doc.levels_record_le ?_
  rw [fieldDocs]
  cases r.ddl <;> simpa [Doc.fieldIfSome, TableId.toDoc] using ⟨hcolumns, hposition⟩

lemma Checkpoint.levels_toDoc (c : Checkpoint) : c.toDoc.levels ≤ 2 := by
  have hsplit : c.splitId.toDoc.levels ≤ 1 := Doc.levels_record_le (by simp)
  have htables : (Doc.array (c.tableIds.map TableId.toDoc)).levels ≤ 1 :=
    Doc.levels_array_le (List.forall_mem_map.mpr fun t _ => Nat.le_refl 0)
  refine Doc.levels_record_le ?_
  simpa using ⟨hsplit, htables, c.offset.levels_toDoc⟩

lemma Checkpoint.Legible.ofFileText? {c : Checkpoint} (h : c.Legible) :
    Checkpoint.ofFileText? c.fileText = some c :=
  h.reads.readsBack Json.maxLevels (Nat.le_trans c.levels_toDoc (by decide)) _ (.inr rfl)

namespace SchemaRecord

lemma listOfBlob?_ofText {rs : List SchemaRecord} (h : ∀ r ∈ rs, r.Writable) {text : String}
    (htext : text = (Doc.array (rs.map toDoc)).compact ∨
      text = (Doc.array (rs.map toDoc)).indented) :
    listOfBlob? (Blob.ofText text) = some rs := by
  have hlevels : (Doc.array (rs.map toDoc)).levels ≤ 4 :=
    Doc.levels_array_le (List.forall_mem_map.mpr fun r _ => r.levels_toDoc)
  have hreads : Reads (Decoder.list decode) (.array (rs.map toDoc)) rs :=
    Decoder.reads_list fun r hr => (h r hr).reads
  rw [listOfBlob?, Blob.ofText, Doc.ofBytes?_encode]
  exact hreads.readsBack Json.maxLevels (Nat.le_trans hlevels (by decide)) text htext

/-- A blob with more layouts than one, or with none, is malformed. -/
lemma ofBlob_ofText {rs : List SchemaRecord} (hcount : rs.length ≠ 1)
    (h : ∀ r ∈ rs, r.Writable) {text : String}
    (htext : text = (Doc.array (rs.map toDoc)).compact ∨
      text = (Doc.array (rs.map toDoc)).indented) :
    ofBlob (Blob.ofText text) = .error (.malformedRecord (.notOneLayout rs.length)) := by
  have hread := listOfBlob?_ofText h htext
  unfold ofBlob
  split
  · next hnone => rw [hread] at hnone; cases hnone
  · next r hone =>
    rw [hread] at hone
    obtain rfl := Option.some.inj hone
    exact absurd rfl hcount
  · next rs' _ hsome =>
    rw [hread] at hsome
    rw [Option.some.inj hsome]

end SchemaRecord

/-- Whatever can be written down is read back as it was: splits, with their layout records in any
order, layouts, checkpoints and log records.  A layout also comes back from its blob, while a blob
of any other number of layouts than one is malformed. -/
theorem readsBack_of_writable :
    (∀ s : Split, s.Writable → ReadsBack Split.decode s.toDoc s) ∧
    (∀ (s : IncrementalSplit) (refs : List (TableId × Blob)), s.Writable →
      refs.Perm s.historyRefs →
      ReadsBack Split.decode (Split.toDoc (.incremental { s with historyRefs := refs }))
        (.incremental s)) ∧
    (∀ r : SchemaRecord, r.Writable → ReadsBack SchemaRecord.decode r.toDoc r) ∧
    (∀ c : Checkpoint, c.Writable → ReadsBack Checkpoint.decode c.toDoc c) ∧
    (∀ r : LogRecord, r.Writable → ReadsBack LogRecord.decode r.toDoc r) ∧
    (∀ r : SchemaRecord, r.Writable → SchemaRecord.ofBlob r.toBlob = .ok r) ∧
    (∀ (rs : List SchemaRecord) (text : String), rs.length ≠ 1 → (∀ r ∈ rs, r.Writable) →
      (text = (Doc.array (rs.map SchemaRecord.toDoc)).compact ∨
        text = (Doc.array (rs.map SchemaRecord.toDoc)).indented) →
      SchemaRecord.ofBlob (Blob.ofText text) =
        .error (.malformedRecord (.notOneLayout rs.length))) :=
  ⟨fun _ h => h.reads.readsBack,
    fun _ _ h hrefs => (Split.reads_incremental h hrefs).readsBack,
    fun _ h => h.reads.readsBack,
    fun _ h => h.legible.reads.readsBack,
    fun _ h => h.reads.readsBack,
    fun _ h => SchemaRecord.ofBlob_toBlob h.legible,
    fun _ _ hcount h htext => SchemaRecord.ofBlob_ofText hcount h htext⟩

/-- A table with a point in its name. -/
def dottedTable : TableId := ⟨"shop", "orders.v2"⟩

/-- Transactions of two sources, up to the last one there is. -/
def wideSet : GtidSet := ⟨[("a-1", [⟨1, 3⟩, ⟨5, 0xFFFFFFFFFFFFFFFF⟩]), ("b", [⟨7, 7⟩])]⟩

/-- A split with something in every field. -/
def fullSplit : IncrementalSplit where
  splitIndex := 0xFFFFFFFF
  tableIds := [dottedTable, ⟨"shop", "orders"⟩]
  startingOffset := .gtid wideSet
  endingOffset := some (.binlog "log \"1\"" 0xFFFFFFFFFFFFFFFF)
  historyRefs := [(⟨"shop", "orders"⟩, []), (dottedTable, [0, 34, 255])]
  finishedSplits := [⟨dottedTable, "id",
    ⟨some (.number (.int (-0x8000000000000000))),
      some (.array [.object [("high", .null), ("low", .number (.int 0xFFFFFFFFFFFFFFFF))],
        .string "é\n"])⟩, .gtid ⟨[]⟩⟩]

/-- A layout whose columns are not in the order of their places. -/
def fullLayout : SchemaRecord where
  tableId := dottedTable
  columns := [{ name := "note", typeName := "text", position := 2, defaultValue := some "" },
    { name := "id", typeName := "bigint", typeId := some (-0x80000000), position := 1,
      nullable := false, primaryKey := true }]
  position := .gtid wideSet
  ddl := some "ALTER TABLE"
  timestampMs := -1

/-- A checkpoint made in a leap second. -/
def leapCheckpoint : Checkpoint :=
  ⟨⟨"a_b", 7⟩, [dottedTable], .gtid wideSet, ⟨⟨2016, 12, 31⟩, 1439, 60, 999999999⟩⟩

/-- A change with both images, one of which is empty. -/
def emptiedRow : RowChange :=
  ⟨.binlog "" 0, dottedTable, .update, some [.null, .number (.int 1)], some [], 5⟩

/-- Everything that is full of edges comes back: with layout records written in another order, and
from blobs of one layout, of two and of none. -/
theorem readsBack_of_writable_full :
    ReadsBack Split.decode (Split.toDoc (.incremental fullSplit)) (.incremental fullSplit) ∧
    ReadsBack Split.decode
      (Split.toDoc (.incremental { fullSplit with historyRefs := fullSplit.historyRefs.reverse }))
      (.incremental fullSplit) ∧
    ReadsBack SchemaRecord.decode fullLayout.toDoc fullLayout ∧
    ReadsBack Checkpoint.decode leapCheckpoint.toDoc leapCheckpoint ∧
    ReadsBack LogRecord.decode (LogRecord.change emptiedRow).toDoc (.change emptiedRow) ∧
    SchemaRecord.ofBlob fullLayout.toBlob = .ok fullLayout ∧
    SchemaRecord.ofBlob (Blob.ofText (Doc.array [fullLayout.toDoc, fullLayout.toDoc]).indented) =
      .error (.malformedRecord (.notOneLayout 2)) ∧
    SchemaRecord.ofBlob (Blob.ofText (Doc.array []).compact) =
      .error (.malformedRecord (.notOneLayout 0)) := by
  have hparse : GtidSet.parse "a-1:1-3:5-18446744073709551615,b:7" = .ok wideSet := by
    decide +kernel
  have hwide : (Offset.gtid wideSet).Writable := ⟨.parse hparse, by decide⟩
  have hdotted : dottedTable.Writable := ⟨by decide, by decide, by decide⟩
  have horders : TableId.Writable ⟨"shop", "orders"⟩ := ⟨by decide, by decide, by decide⟩
  have hrange : (fullSplit.finishedSplits.head (by simp [fullSplit])).keyRange.Writable := by
    have hnames : compare "high" "low" = .lt := by decide
    constructor <;> simp [fullSplit, Value.Integral, Value.IntegralItems, Value.IntegralFields,
      Json.Number.minInt, Json.Number.maxInt, SortedMap.Ascending, hnames]
  have hsplit : fullSplit.Writable := {
    tableIds := by simp [fullSplit, hdotted, horders]
    startingOffset := hwide
    endingOffset := by simp [fullSplit, Offset.Writable]
    ascending := by
      have htables : compare (TableId.mk "shop" "orders") dottedTable = .lt := by decide
      simp [fullSplit, SortedMap.Ascending, htables]
    historyRefs := by simp [fullSplit, hdotted, horders]
    finishedSplits := by
      simp only [fullSplit, List.mem_singleton, forall_eq]
      exact ⟨hdotted, hrange, GtidSet.normal_empty, by simp⟩ }
  have hlayout : fullLayout.Writable :=
    ⟨hdotted, by decide, hwide, by decide⟩
  have hcheckpoint : leapCheckpoint.Writable :=
    ⟨by simp [leapCheckpoint, hdotted], hwide, ⟨by decide, by decide, by decide, by decide⟩⟩
  have hrow : emptiedRow.Writable :=
    ⟨trivial, hdotted,
      by simp [emptiedRow, Value.Integral, Json.Number.minInt, Json.Number.maxInt],
      by simp [emptiedRow], by decide⟩
  obtain ⟨hsplits, hrefs, hlayouts, hcheckpoints, hrecords, hblob, hblobs⟩ :=
    readsBack_of_writable
  refine ⟨hsplits _ hsplit, hrefs _ _ hsplit (List.reverse_perm _), hlayouts _ hlayout,
    hcheckpoints _ hcheckpoint, hrecords (.change emptiedRow) hrow, hblob _ hlayout, ?_, ?_⟩
  · exact hblobs [fullLayout, fullLayout] _ (by decide) (by simp [hlayout]) (.inr rfl)
  · exact hblobs [] _ (by decide) (by simp) (.inl rfl)

end Changefeed
