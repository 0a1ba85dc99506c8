import Changefeed.Proofs.Assigner
import Changefeed.Proofs.Schema.Order
import Changefeed.Proofs.Wire.RoundTrip

/-!
# Layouts that cover a stream

Where a table has a layout that the start of a stream has reached, every position of the stream has
reached it too, so a lookup there has an answer.  Layouts that are added later do not change that,
whatever their positions.

The incremental split carries such a layout for every table that the history knows: the one that
holds at its start or, where the start has reached none of the table's layouts, the first of them,
counted from the start on.  A history that is given nothing but what was carried answers with it
throughout the stream, whether the start lies before the recorded layouts, behind them, or is not
comparable with them.
-/

namespace Changefeed

lemma Offset.Writable.normal {o : Offset} (h : o.Writable) : o.Normal := by
  cases o with
  | binlog filename position => trivial
  | gtid s => exact h.1

/-! ## Covering -/

namespace SchemaHistory

variable {h : SchemaHistory} {ins : List SchemaRecord} {r x : SchemaRecord} {t : TableId}
  {start : Offset}

/-- The table has a layout that the position has reached. -/
def Covers (h : SchemaHistory) (t : TableId) (start : Offset) : Prop :=
  ∃ r ∈ h.records t, r.position.Normal ∧ start.reached r.position = true

/-- A lookup has an answer wherever a covered position has been reached. -/
lemma Covers.schemaAt (hcovers : h.Covers t start) (hstart : start.Normal) {q : Offset}
    (hq : q.Normal) (hreached : q.reached start = true) : ∃ r, h.schemaAt t q = .ok r := by
  obtain ⟨x, hx, hnormal, hfrom⟩ := hcovers
  have hanswer : (h.schemaAt? t q).isSome = true := by
    rw [schemaAt?, List.find?_isSome]
    exact ⟨x, List.mem_reverse.mpr hx, Offset.reached_trans hq hstart hnormal hreached hfrom⟩
  obtain ⟨r, hr⟩ := Option.isSome_iff_exists.mp hanswer
  exact ⟨r, by rw [SchemaHistory.schemaAt, hr]⟩

lemma Covers.appendAll (hcovers : h.Covers t start) (rs : List SchemaRecord) :
    (h.appendAll rs).Covers t start := by
  obtain ⟨x, hx, hfrom⟩ := hcovers
  exact ⟨x, mem_records_appendAll_of_mem rs hx, hfrom⟩

/-- Every record of a history is filed under its own table. -/
lemma Grown.tableId_eq (hg : Grown h ins) (hr : r ∈ h.records t) : r.tableId = t := by
  have hadded : ∀ {g : SchemaHistory} (rs : List SchemaRecord),
      (r ∈ g.records t → r.tableId = t) → r ∈ (g.appendAll rs).records t → r.tableId = t := by
    intro g rs hold hmem
    rcases mem_records_appendAll hmem with hmem | ⟨-, ht⟩
    · exact hold hmem
    · exact ht
  induction hg with
  | empty =>
    rw [records_empty] at hr
    contradiction
  | append r' _ ih => exact hadded [r'] ih hr
  | register _ hregister ih => exact hadded _ ih (records_of_register hregister _ ▸ hr)
  | commit b _ ih => exact hadded b.pending ih hr

lemma schemaAt_alone {q : Offset} (hreached : q.reached r.position = true) :
    (SchemaBatch.commit ⟨[r]⟩ empty).schemaAt r.tableId q = .ok r := by
  have halone : (SchemaBatch.commit ⟨[r]⟩ empty).records r.tableId = [r] :=
    records_append_only (.inl (records_empty _))
  rw [schemaAt, schemaAt?, halone]
  simp [hreached]

end SchemaHistory

/-! ## The layouts of an incremental split -/

namespace SplitAssigner

variable {a a' : SplitAssigner} {h : SchemaHistory} {t : TableId}

/-- The layouts that are carried for some tables, beside those that there are. -/
lemma find?_carried (h : SchemaHistory) (start : Offset) (t : TableId) (tables : List TableId)
    (refs : SortedMap TableId Blob) :
    (tables.foldl (fun refs t =>
      match layoutAt h t start with
      | some r => SortedMap.insert refs t r.toBlob
      | none => refs) refs).find? t =
      if t ∈ tables then ((layoutAt h t start).map SchemaRecord.toBlob).or (refs.find? t)
      else refs.find? t := by
  induction tables generalizing refs with
  | nil => rfl
  | cons t' tables ih =>
    rw [List.foldl_cons, ih]
    by_cases ht : t = t'
    · subst ht
      cases hlayout : layoutAt h t start with
      | none => simp
      | some r => simp
    · have hother : (match layoutAt h t' start with
          | some r => SortedMap.insert refs t' r.toBlob
          | none => refs).find? t = refs.find? t := by
        cases layoutAt h t' start with
        | none => rfl
        | some r => exact SortedMap.find?_insert_of_ne _ _ ht
      simp [ht, hother]

lemma find?_historyRefs (a : SplitAssigner) (h : SchemaHistory) (t : TableId) :
    (a.incremental h).historyRefs.find? t =
      if t ∈ (a.incremental h).tableIds then
        (layoutAt h t (a.incremental h).startingOffset).map SchemaRecord.toBlob
      else none := by
  refine (find?_carried h a.start t a.tables []).trans (if_congr Iff.rfl ?_ rfl)
  exact Option.or_none

/-- For a table with records the layout at the start is carried, or the first one, counted from the
start on. -/
lemma layoutAt_cases (start : Offset) (hne : h.records t ≠ []) :
    (∃ r, h.schemaAt t start = .ok r ∧ layoutAt h t start = some r) ∨
      ∃ r, h.schemaAt t start = .error (.schemaUnknown t.text start.text) ∧
        h.earliest t = some r ∧ layoutAt h t start = some { r with position := start } := by
  cases hanswer : h.schemaAt? t start with
  | some r => exact .inl ⟨r, by rw [SchemaHistory.schemaAt, hanswer], by rw [layoutAt, hanswer]⟩
  | none =>
    obtain ⟨r, rest, hrecords⟩ := List.exists_cons_of_ne_nil hne
    have hfirst : h.earliest t = some r := by rw [SchemaHistory.earliest, hrecords, List.head?_cons]
    refine .inr ⟨r, SchemaHistory.schemaAt_eq_error_iff.mpr hanswer, hfirst, ?_⟩
    rw [layoutAt, hanswer, hfirst]
    rfl

/-- What is carried for a table has the columns at the start, or the first ones; it is a layout of
the table that the start has reached, and it is read back. -/
lemma layoutAt_covers {ins : List SchemaRecord} {start : Offset} (hg : h.Grown ins)
    (hne : h.records t ≠ []) (hwritable : ∀ r ∈ h.records t, r.Writable) (hstart : start.Writable) :
    ∃ carried r, layoutAt h t start = some carried ∧ carried.columns = r.columns ∧
      (h.schemaAt t start = .ok r ∨
        h.schemaAt t start = .error (.schemaUnknown t.text start.text) ∧ h.earliest t = some r) ∧
      carried.tableId = t ∧ start.reached carried.position = true ∧ carried.Writable := by
  rcases layoutAt_cases start hne with ⟨r, hanswer, hlayout⟩ | ⟨r, hnone, hfirst, hlayout⟩
  · have hfound : h.schemaAt? t start = some r := by
      rw [SchemaHistory.schemaAt] at hanswer
      split at hanswer
      · next found hfound => rw [hfound, Except.ok.inj hanswer]
      · cases hanswer
    obtain ⟨hmem, hreached⟩ := SchemaHistory.schemaAt?_some hfound
    exact ⟨r, r, hlayout, rfl, .inl hanswer, hg.tableId_eq hmem, hreached, hwritable r hmem⟩
  · have hmem : r ∈ h.records t := List.mem_of_head? hfirst
    have htable := hg.tableId_eq hmem
    have hr := hwritable r hmem
    exact ⟨_, r, hlayout, rfl, .inr ⟨hnone, hfirst⟩, htable, Offset.reached_self start,
      hr.tableId, hr.columns, hstart, hr.timestamp⟩

/-- The incremental split carries a layout for every one of its tables that the history knows.  A
history that is given it alone answers at every position that has reached the start, and with the
columns that the whole history has at the start, or else with the first ones that it has. -/
theorem next_carries_covering_layout {ins : List SchemaRecord} {i : IncrementalSplit}
    (hg : h.Grown ins) (hnext : a.next h = (some (.incremental i), a')) (ht : t ∈ i.tableIds)
    (hne : h.records t ≠ []) (hwritable : ∀ r ∈ h.records t, r.Writable)
    (hstart : i.startingOffset.Writable) :
    ∃ blob b, i.historyRefs.find? t = some blob ∧ SchemaBatch.registerBlob {} t blob = .ok b ∧
      ∀ q : Offset, q.Normal → q.reached i.startingOffset = true →
        ∃ carried r, (b.commit .empty).schemaAt t q = .ok carried ∧ carried.columns = r.columns ∧
          (h.schemaAt t i.startingOffset = .ok r ∨
            h.schemaAt t i.startingOffset =
                .error (.schemaUnknown t.text i.startingOffset.text) ∧
              h.earliest t = some r) := by
  obtain ⟨-, -, rfl⟩ := next_incremental hnext
  obtain ⟨carried, r, hlayout, hcolumns, horigin, htable, hreached, hcarried⟩ :=
    layoutAt_covers hg hne hwritable hstart
  have hblob : (a.incremental h).historyRefs.find? t = some carried.toBlob := by
    rw [find?_historyRefs, if_pos ht, hlayout, Option.map_some]
  have hregister : SchemaBatch.registerBlob {} t carried.toBlob = .ok ⟨[carried]⟩ := by
    rw [SchemaBatch.registerBlob, SchemaRecord.ofBlob_toBlob hcarried.legible]
    exact if_pos htable
  refine ⟨carried.toBlob, ⟨[carried]⟩, hblob, hregister, fun q hq hfrom => ?_⟩
  have hposition := Offset.reached_trans hq hstart.normal hcarried.position.normal hfrom hreached
  subst htable
  exact ⟨carried, r, SchemaHistory.schemaAt_alone hposition, hcolumns, horigin⟩

/-- The layouts of the orders at two sets of transactions of one source. -/
def orderLayouts : List SchemaRecord :=
  [{ tableId := ⟨"shop", "orders"⟩, columns := [⟨"id", "int", some 3, 1, false, true, none⟩],
     position := .gtid ⟨[("a", [⟨1, 2⟩])]⟩ },
   { tableId := ⟨"shop", "orders"⟩, columns := [], position := .gtid ⟨[("a", [⟨1, 7⟩])]⟩ }]

/-- A stream that starts at transactions of another source, with which no layout is comparable, is
covered with the first layout, also where it has come to transactions of both. -/
theorem next_carries_covering_layout_incomparable :
    ∃ blob b,
      ((streamOnly [⟨"shop", "orders"⟩] (.gtid ⟨[("b", [⟨1, 3⟩])]⟩)).incremental
        (SchemaHistory.empty.appendAll orderLayouts)).historyRefs.find? ⟨"shop", "orders"⟩ =
          some blob ∧
      SchemaBatch.registerBlob {} ⟨"shop", "orders"⟩ blob = .ok b ∧
      ∃ carried, (b.commit .empty).schemaAt ⟨"shop", "orders"⟩
          (.gtid ⟨[("a", [⟨1, 9⟩]), ("b", [⟨1, 4⟩])]⟩) = .ok carried ∧
        carried.columnNames = ["id"] := by
  have hgrown : (SchemaHistory.empty.appendAll orderLayouts).Grown _ :=
    .commit ⟨orderLayouts⟩ .empty
  have horders : TableId.Writable ⟨"shop", "orders"⟩ := ⟨by decide, by decide, by decide⟩
  have hfirst : (Offset.gtid ⟨[("a", [⟨1, 2⟩])]⟩).Writable :=
    ⟨.parse (show GtidSet.parse "a:1-2" = _ by decide +kernel), by decide⟩
  have hsecond : (Offset.gtid ⟨[("a", [⟨1, 7⟩])]⟩).Writable :=
    ⟨.parse (show GtidSet.parse "a:1-7" = _ by decide +kernel), by decide⟩
  have hstart : (Offset.gtid ⟨[("b", [⟨1, 3⟩])]⟩).Writable :=
    ⟨.parse (show GtidSet.parse "b:1-3" = _ by decide +kernel), by decide⟩
  have hlater : (Offset.gtid ⟨[("a", [⟨1, 9⟩]), ("b", [⟨1, 4⟩])]⟩).Normal :=
    .parse (show GtidSet.parse "a:1-9,b:1-4" = _ by decide +kernel)
  have hrecords : (SchemaHistory.empty.appendAll orderLayouts).records ⟨"shop", "orders"⟩ =
      orderLayouts := by
    decide +kernel
  have hwritable : ∀ r ∈ (SchemaHistory.empty.appendAll orderLayouts).records ⟨"shop", "orders"⟩,
      r.Writable := by
    rw [hrecords, orderLayouts]
    simp only [List.forall_mem_cons, List.not_mem_nil, false_imp_iff, implies_true, and_true]
    exact ⟨⟨horders, by decide, hfirst, by decide⟩, ⟨horders, by decide, hsecond, by decide⟩⟩
  have hnone : (SchemaHistory.empty.appendAll orderLayouts).schemaAt? ⟨"shop", "orders"⟩
      (.gtid ⟨[("b", [⟨1, 3⟩])]⟩) = none := by
    decide +kernel
  obtain ⟨blob, b, hblob, hregister, hanswers⟩ :=
    next_carries_covering_layout (a := streamOnly [⟨"shop", "orders"⟩] _) (t := ⟨"shop", "orders"⟩)
      hgrown rfl (.head _) (by rw [hrecords]; exact List.cons_ne_nil _ _) hwritable hstart
  obtain ⟨carried, r, hanswer, hcolumns, horigin⟩ := hanswers _ hlater (by decide +kernel)
  refine ⟨blob, b, hblob, hregister, carried, hanswer, ?_⟩
  rw [SchemaRecord.columnNames, hcolumns]
  rcases horigin with hthere | ⟨-, hearliest⟩
  · have hmissing := SchemaHistory.schemaAt_eq_error_iff.mpr hnone
    exact absurd (hthere.symm.trans hmissing) (by simp)
  · rw [SchemaHistory.earliest, hrecords] at hearliest
    rw [← Option.some.inj hearliest]
    rfl

end SplitAssigner
end Changefeed
