import Changefeed.Proofs.Checkpoint.Files
import Changefeed.Proofs.Wire.RoundTrip
import Changefeed.Schema.History

/-!
# What a table's text tells

A table is written as its database and its name with a point between them, and read by cutting at
the first point.  The table's name may hold further points, the database's may not: two tables share
a text exactly when they cut it at different points, and the later cut leaves a point in the
database.

The text is all that is kept of a table in the scope of its snapshot splits, in the keys of their
checkpoints, in the names of the layout records of a written split and inside a layout's blob.  For
tables whose databases have no point in their names none of these takes one table for another.
-/

namespace Changefeed

open Json (Doc Decoder Reads)

namespace TableId

variable {t u : TableId}

/-! ## Texts -/

/-- The text of `t`, cut at a later point, is that of `u`. -/
def CutsLater (t u : TableId) : Prop :=
  ∃ part, u.database.toList = t.database.toList ++ '.' :: part ∧
    t.table.toList = part ++ '.' :: u.table.toList

/-- A later cut leaves a point in the database. -/
lemma CutsLater.point (h : t.CutsLater u) : '.' ∈ u.database.toList := by
  obtain ⟨part, hdatabase, -⟩ := h
  simp [hdatabase]

/-- One table's text goes on where the other one's database ends: with its point, or with a part of
the database behind a point. -/
lemma eq_or_cutsLater {l : List Char} (hdatabase : u.database.toList = t.database.toList ++ l)
    (htable : '.' :: t.table.toList = l ++ '.' :: u.table.toList) : t = u ∨ t.CutsLater u := by
  cases l with
  | nil =>
    cases t
    cases u
    simp only [List.append_nil, List.nil_append, List.cons.injEq, true_and,
      String.toList_inj] at hdatabase htable
    exact .inl (by rw [hdatabase, htable])
  | cons c part =>
    rw [List.cons_append] at htable
    obtain ⟨rfl, hrest⟩ := List.cons.inj htable
    exact .inr ⟨part, hdatabase, hrest⟩

/-- Two tables with one text are the same or cut it at different points. -/
lemma text_eq_iff : t.text = u.text ↔ t = u ∨ t.CutsLater u ∨ u.CutsLater t := by
  rw [text, text, String.ofList_inj, chars, chars]
  constructor
  · intro h
    rcases List.append_eq_append_iff.mp h with ⟨l, hdatabase, htable⟩ | ⟨l, hdatabase, htable⟩
    · exact (eq_or_cutsLater hdatabase htable).imp_right .inl
    · exact (eq_or_cutsLater hdatabase htable).imp Eq.symm .inr
  · rintro (rfl | ⟨part, hdatabase, htable⟩ | ⟨part, hdatabase, htable⟩)
    · rfl
    · simp [hdatabase, htable]
    · simp [hdatabase, htable]

lemma text_inj (ht : '.' ∉ t.database.toList) (hu : '.' ∉ u.database.toList)
    (h : t.text = u.text) : t = u :=
  (text_eq_iff.mp h).resolve_right fun hcut => hcut.elim (hu ·.point) (ht ·.point)

end TableId

/-! ## Where texts stand for tables -/

/-- The layout records of a written split have different names, and are read back under their
tables. -/
lemma IncrementalSplit.exists_historyRefs {s : IncrementalSplit}
    (hascending : SortedMap.Ascending s.historyRefs) (hrefs : ∀ e ∈ s.historyRefs, e.1.Writable) :
    ∃ fields, ("history_refs", Doc.record fields) ∈ s.fieldDocsWith blobDoc ∧
      (fields.map Prod.fst).Nodup ∧
      Reads (Decoder.map TableId.parse (Decoder.list Decoder.byte)) (.record fields)
        s.historyRefs := by
  refine ⟨_, by simp [fieldDocsWith], ?_, Decoder.reads_map hascending (.refl _)
    (fun e he => (hrefs e he).legible) fun e _ => reads_blob e.2⟩
  rw [List.map_map]
  refine List.pairwise_map.mpr
    ((List.pairwise_map.mp hascending.nodup_keys).imp_of_mem fun {e f} he hf hne heq => ?_)
  exact hne (TableId.text_inj (hrefs e he).point (hrefs f hf).point heq)

lemma SchemaRecord.tableId_of_ofBlob {r r' : SchemaRecord} (ht : r.tableId.Legible)
    (h : ofBlob r.toBlob = .ok r') : r'.tableId = r.tableId := by
  have hdecode := decode_of_ofBlob h
  rw [decode_reread rfl, TableId.decode_reread ht, Option.bind_some] at hdecode
  obtain ⟨columns, -, hdecode⟩ := Option.bind_eq_some_iff.mp hdecode
  obtain ⟨position, -, hdecode⟩ := Option.bind_eq_some_iff.mp hdecode
  obtain ⟨timestampMs, -, hdecode⟩ := Option.bind_eq_some_iff.mp hdecode
  rw [← Option.some.inj hdecode]

namespace SchemaBatch

variable {b : SchemaBatch} {r : SchemaRecord}

lemma registerBlob_toBlob {r' : SchemaRecord} (ht : r.tableId.Legible)
    (h : SchemaRecord.ofBlob r.toBlob = .ok r') :
    b.registerBlob r.tableId r.toBlob = b.register r' := by
  rw [registerBlob, h]
  exact if_pos (SchemaRecord.tableId_of_ofBlob ht h)

lemma registerBlob_of_ne {t : TableId} (ht : r.tableId.Legible) (hne : t ≠ r.tableId) :
    ∃ f, b.registerBlob t r.toBlob = .error f := by
  rw [registerBlob]
  cases hread : SchemaRecord.ofBlob r.toBlob with
  | error f => exact ⟨f, rfl⟩
  | ok r' =>
    have htable : r'.tableId ≠ t := by
      rw [SchemaRecord.tableId_of_ofBlob ht hread]
      exact hne.symm
    exact ⟨_, if_neg htable⟩

end SchemaBatch

/-! ## One table for one text -/

namespace TableId

/-- A table with a name, and with a database whose name has no point, is read back from its text,
which is that of no other such table, and no other tables are read back.  So snapshot splits of
different tables have different identities and different keys for their checkpoints; the layout
records of a written split have different names and come back under their tables; and a layout's
blob registers under the layout's table and under no other, without fail when the layout is one that
is read back. -/
theorem text_names_one_table {a b : TableId} (ha : a.Writable) (hb : b.Writable) :
    (∀ t : TableId, parse t.text = .ok t ↔ t.Writable) ∧
    parse a.text = .ok a ∧
    (a.text = b.text → a = b) ∧
    (∀ s t : SnapshotSplit, s.tableId = a → t.tableId = b → a ≠ b →
      s.splitId ≠ t.splitId ∧ s.splitId.checkpointKey ≠ t.splitId.checkpointKey) ∧
    (∀ s : IncrementalSplit, SortedMap.Ascending s.historyRefs →
      (∀ e ∈ s.historyRefs, e.1.Writable) →
      ∃ fields, ("history_refs", Doc.record fields) ∈ s.fieldDocsWith blobDoc ∧
        (fields.map Prod.fst).Nodup ∧
        Reads (Decoder.map parse (Decoder.list Decoder.byte)) (.record fields) s.historyRefs) ∧
    (∀ (r : SchemaRecord) (batch : SchemaBatch), r.tableId = a →
      (∀ r', SchemaRecord.ofBlob r.toBlob = .ok r' →
        r'.tableId = a ∧ batch.registerBlob a r.toBlob = batch.register r') ∧
      (r.Legible → batch.registerBlob a r.toBlob = batch.register r) ∧
      ∀ t, t ≠ a → ∃ f, batch.registerBlob t r.toBlob = .error f) := by
  have hwritable : ∀ t : TableId, t.Legible ↔ t.Writable := fun t =>
    ⟨fun h => ⟨(legible_iff.mp h).2.1, (legible_iff.mp h).1, (legible_iff.mp h).2.2⟩,
      Writable.legible⟩
  refine ⟨hwritable, ha.legible, text_inj ha.point hb.point, ?_, ?_, ?_⟩
  · rintro s t rfl rfl hne
    have hid : s.splitId ≠ t.splitId := fun heq =>
      hne (text_inj ha.point hb.point (SplitId.mk.inj heq).1)
    exact ⟨hid, fun hkey => hid (SplitId.checkpointKey_inj hkey)⟩
  · exact fun s => s.exists_historyRefs
  · rintro r batch rfl
    exact ⟨fun r' hr' => ⟨SchemaRecord.tableId_of_ofBlob ha.legible hr',
        SchemaBatch.registerBlob_toBlob ha.legible hr'⟩,
      fun hr => SchemaBatch.registerBlob_toBlob ha.legible (SchemaRecord.ofBlob_toBlob hr),
      fun t hne => SchemaBatch.registerBlob_of_ne ha.legible hne⟩

/-- A table and the table whose name begins with its name and a point: snapshot splits of both with
the same number, a written split with layout records of both, and the blob of a layout. -/
theorem text_names_one_table_dotted :
    let orders : TableId := ⟨"shop", "orders"⟩
    let whole (t : TableId) : SnapshotSplit := ⟨t, "id", .full, 0⟩
    let layout : SchemaRecord := { fullLayout with position := .binlog "log" 4 }
    dottedTable.Writable ∧ orders.Writable ∧ parse dottedTable.text = .ok dottedTable ∧
      dottedTable.text ≠ orders.text ∧ (whole dottedTable).splitId ≠ (whole orders).splitId ∧
      (whole dottedTable).splitId.checkpointKey ≠ (whole orders).splitId.checkpointKey ∧
      (∃ fields, ("history_refs", Doc.record fields) ∈ fullSplit.fieldDocsWith blobDoc ∧
        (fields.map Prod.fst).Nodup ∧
        Reads (Decoder.map parse (Decoder.list Decoder.byte)) (.record fields)
          fullSplit.historyRefs) ∧
      layout.Legible ∧ SchemaBatch.registerBlob {} dottedTable layout.toBlob = .ok ⟨[layout]⟩ ∧
      ∃ f, SchemaBatch.registerBlob {} orders layout.toBlob = .error f := by
  intro orders whole layout
  have hdotted : dottedTable.Writable := ⟨by decide, by decide, by decide⟩
  have horders : orders.Writable := ⟨by decide, by decide, by decide⟩
  have hne : dottedTable ≠ orders := by decide
  have hlayout : layout.Legible := ⟨hdotted.legible, by decide, trivial, by decide⟩
  have hascending : SortedMap.Ascending fullSplit.historyRefs := by
    have hbefore : compare orders dottedTable = .lt := by decide
    simpa [fullSplit, SortedMap.Ascending] using hbefore
  have hrefs : ∀ e ∈ fullSplit.historyRefs, e.1.Writable := by
    simpa [fullSplit] using ⟨horders, hdotted⟩
  obtain ⟨-, hparse, hinj, hsplits, hfields, hblobs⟩ := text_names_one_table hdotted horders
  obtain ⟨hid, hkey⟩ := hsplits (whole dottedTable) (whole orders) rfl rfl hne
  obtain ⟨-, hregister, hrefused⟩ := hblobs layout {} rfl
  exact ⟨hdotted, horders, hparse, fun h => hne (hinj h), hid, hkey,
    hfields fullSplit hascending hrefs, hlayout, (hregister hlayout).trans rfl,
    hrefused orders hne.symm⟩

/-- A database with a point in its name: the table is taken for one of another database.  Snapshot
splits of the two have one identity and one key, and a layout of the first table is no longer
registered under it. -/
theorem dotted_database_taken_apart :
    let eu : TableId := ⟨"shop.eu", "orders"⟩
    let shop : TableId := ⟨"shop", "eu.orders"⟩
    let layout : SchemaRecord := { tableId := eu, columns := [], position := .binlog "log" 4 }
    eu ≠ shop ∧ eu.text = shop.text ∧ parse eu.text = .ok shop ∧
      (SnapshotSplit.mk eu "id" .full 0).splitId = (SnapshotSplit.mk shop "id" .full 0).splitId ∧
      (SnapshotSplit.mk eu "id" .full 0).splitId.checkpointKey =
        (SnapshotSplit.mk shop "id" .full 0).splitId.checkpointKey ∧
      SchemaBatch.registerBlob {} eu layout.toBlob =
        .error (.schema (.foreignBlob eu.text shop.text)) := by
  decide +kernel

end TableId
end Changefeed
