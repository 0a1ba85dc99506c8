import Changefeed.Proofs.SortedMap
import Changefeed.Schema.History

/-!
# What a history holds

A record that is added to a history lands among the records of its own table and nowhere else, so a
history holds nothing that was not added to it, and what it answers for a table is a record of that
table.  A layout that it holds is not added a second time.  A batch takes records one after the
other, those of different tables only.
-/

namespace Changefeed

namespace SchemaRecord

lemma mem_insertByPosition {r x : SchemaRecord} {rs : List SchemaRecord} :
    x ∈ r.insertByPosition rs ↔ x = r ∨ x ∈ rs := by
  induction rs with
  | nil => simp [insertByPosition]
  | cons s rest ih =>
    rw [insertByPosition]
    split
    · simp
    · rw [List.mem_cons, ih, List.mem_cons]
      exact or_left_comm

lemma mem_of_mem_addTo {r x : SchemaRecord} {rs : List SchemaRecord} (h : x ∈ r.addTo rs) :
    x = r ∨ x ∈ rs := by
  unfold addTo at h
  split at h
  · exact .inr h
  · exact mem_insertByPosition.mp h

lemma addTo_of_mem {r : SchemaRecord} {rs : List SchemaRecord}
    (hr : r ∈ rs ∨ ∃ s ∈ rs, s.sameLayoutAt r = true) : r.addTo rs = rs := by
  rw [addTo, if_pos]
  rw [List.any_eq_true]
  rcases hr with hr | hr
  · exact ⟨r, hr, by simp [sameLayoutAt]⟩
  · exact hr

lemma exists_mem_addTo (r : SchemaRecord) (rs : List SchemaRecord) :
    ∃ x ∈ r.addTo rs, x.position = r.position := by
  unfold addTo
  split
  · next hany =>
    obtain ⟨x, hx, hsame⟩ := List.any_eq_true.mp hany
    simp only [sameLayoutAt, Bool.and_eq_true, decide_eq_true_eq] at hsame
    exact ⟨x, hx, hsame.1.1⟩
  · exact ⟨r, mem_insertByPosition.mpr (.inl rfl), rfl⟩

end SchemaRecord

namespace SchemaHistory

variable {h : SchemaHistory} {r x : SchemaRecord} {t : TableId}

@[simp] lemma records_empty (t : TableId) : records empty t = [] := rfl

@[simp] lemma records_append_self (h : SchemaHistory) (r : SchemaRecord) :
    (h.append r).records r.tableId = r.addTo (h.records r.tableId) := by
  simp [append, records]

/-- A table that has no other record than one has that one when it is added. -/
lemma records_append_only (hr : h.records r.tableId = [] ∨ h.records r.tableId = [r]) :
    (h.append r).records r.tableId = [r] := by
  rw [records_append_self]
  rcases hr with hr | hr
  · rw [hr]
    rfl
  · rw [hr]
    simp [SchemaRecord.addTo, SchemaRecord.sameLayoutAt]

lemma find?_append_of_ne (h : SchemaHistory) (hr : t ≠ r.tableId) :
    (h.append r).tables.find? t = h.tables.find? t :=
  SortedMap.find?_insert_of_ne _ _ hr

lemma records_append_of_ne (h : SchemaHistory) (hr : t ≠ r.tableId) :
    (h.append r).records t = h.records t := by
  rw [records, find?_append_of_ne h hr, records]

lemma append_of_held {rs : List SchemaRecord} (hne : rs ≠ [])
    (hrecords : h.records r.tableId = rs) (hheld : r.addTo rs = rs) : h.append r = h := by
  have hfind : h.tables.find? r.tableId = some rs := by
    rw [records] at hrecords
    cases hfind : h.tables.find? r.tableId with
    | none => exact absurd (by rw [← hrecords, hfind]; rfl) hne
    | some found => rw [← hrecords, hfind]; rfl
  rw [append, hrecords, hheld, SortedMap.insert_of_find? hfind]

lemma mem_records_append (hx : x ∈ (h.append r).records t) :
    x ∈ h.records t ∨ x = r ∧ r.tableId = t := by
  by_cases ht : t = r.tableId
  · subst ht
    rw [records_append_self] at hx
    exact (SchemaRecord.mem_of_mem_addTo hx).symm.imp_right fun hxr => ⟨hxr, rfl⟩
  · rw [records_append_of_ne h ht] at hx
    exact .inl hx

lemma mem_records_appendAll {rs : List SchemaRecord} (hx : x ∈ (h.appendAll rs).records t) :
    x ∈ h.records t ∨ x ∈ rs ∧ x.tableId = t := by
  induction rs generalizing h with
  | nil => exact .inl hx
  | cons r rs ih =>
    rcases ih hx with hx | ⟨hx, ht⟩
    · rcases mem_records_append hx with hx | ⟨rfl, ht⟩
      · exact .inl hx
      · exact .inr ⟨.head _, ht⟩
    · exact .inr ⟨.tail _ hx, ht⟩

lemma mem_records_append_of_mem (r : SchemaRecord) (hx : x ∈ h.records t) :
    x ∈ (h.append r).records t := by
  by_cases ht : t = r.tableId
  · subst ht
    rw [records_append_self, SchemaRecord.addTo]
    split
    · exact hx
    · exact SchemaRecord.mem_insertByPosition.mpr (.inr hx)
  · rwa [records_append_of_ne h ht]

lemma mem_records_appendAll_of_mem (rs : List SchemaRecord) (hx : x ∈ h.records t) :
    x ∈ (h.appendAll rs).records t := by
  induction rs generalizing h with
  | nil => exact hx
  | cons r rs ih => exact ih (mem_records_append_of_mem r hx)

lemma exists_same_mem_append (h : SchemaHistory) (r : SchemaRecord) :
    ∃ x ∈ (h.append r).records r.tableId, x.sameLayoutAt r = true := by
  rw [records_append_self, SchemaRecord.addTo]
  split
  · next hany => exact List.any_eq_true.mp hany
  · exact ⟨r, SchemaRecord.mem_insertByPosition.mpr (.inl rfl), by simp [SchemaRecord.sameLayoutAt]⟩

lemma exists_same_mem_appendAll {rs : List SchemaRecord} (hr : r ∈ rs) :
    ∃ x ∈ (h.appendAll rs).records r.tableId, x.sameLayoutAt r = true := by
  induction rs generalizing h with
  | nil => contradiction
  | cons r' rs ih =>
    rcases List.mem_cons.mp hr with rfl | hr
    · obtain ⟨x, hx, hsame⟩ := exists_same_mem_append h r
      exact ⟨x, mem_records_appendAll_of_mem rs hx, hsame⟩
    · exact ih hr

lemma find?_appendAll_of_ne {rs : List SchemaRecord} (hother : ∀ r ∈ rs, t ≠ r.tableId) :
    (h.appendAll rs).tables.find? t = h.tables.find? t := by
  induction rs generalizing h with
  | nil => rfl
  | cons r rs ih =>
    calc ((h.append r).appendAll rs).tables.find? t
      _ = (h.append r).tables.find? t := ih fun x hx => hother x (List.mem_cons_of_mem _ hx)
      _ = h.tables.find? t := find?_append_of_ne h (hother r List.mem_cons_self)

lemma records_appendAll_of_ne {rs : List SchemaRecord} (hother : ∀ r ∈ rs, t ≠ r.tableId) :
    (h.appendAll rs).records t = h.records t := by
  rw [records, find?_appendAll_of_ne hother, records]

/-- Of records of distinct tables each one is added to the ones that its table had. -/
lemma records_appendAll_distinct {rs : List SchemaRecord}
    (hdistinct : (rs.map SchemaRecord.tableId).Nodup) (hr : r ∈ rs) :
    (h.appendAll rs).records r.tableId = r.addTo (h.records r.tableId) := by
  induction rs generalizing h with
  | nil => contradiction
  | cons r' rs ih =>
    obtain ⟨hfresh, hrest⟩ := List.nodup_cons.mp hdistinct
    rcases List.mem_cons.mp hr with rfl | hr
    · have hother : ∀ x ∈ rs, r.tableId ≠ x.tableId := fun x hx heq =>
        hfresh (heq ▸ List.mem_map_of_mem hx)
      exact (records_appendAll_of_ne hother).trans (records_append_self h r)
    · have hne : r.tableId ≠ r'.tableId := fun heq => hfresh (heq ▸ List.mem_map_of_mem hr)
      rw [← records_append_of_ne h hne]
      exact ih hrest hr

lemma schemaAt?_some {position : Offset} (hr : h.schemaAt? t position = some r) :
    r ∈ h.records t ∧ position.reached r.position = true := by
  have hmem := List.mem_of_find?_eq_some hr
  have hreached := List.find?_some hr
  exact ⟨List.mem_reverse.mp hmem, hreached⟩

lemma schemaAt?_append (h : SchemaHistory) {position : Offset}
    (hreached : position.reached r.position = true) :
    ∃ x, (h.append r).schemaAt? r.tableId position = some x := by
  obtain ⟨x, hx, hposition⟩ := r.exists_mem_addTo (h.records r.tableId)
  refine Option.isSome_iff_exists.mp ?_
  rw [schemaAt?, records_append_self, List.find?_isSome]
  exact ⟨x, List.mem_reverse.mpr hx, hposition ▸ hreached⟩

end SchemaHistory

namespace SchemaBatch

variable {b b' : SchemaBatch} {r : SchemaRecord}

lemma register_ok (h : b.register r = .ok b') : b'.pending = b.pending ++ [r] := by
  unfold register at h
  split at h
  · simp at h
  · rw [← Except.ok.inj h]

lemma registerBlob_ok {t : TableId} {blob : Blob} (h : b.registerBlob t blob = .ok b') :
    ∃ r, SchemaRecord.ofBlob blob = .ok r ∧ r.tableId = t ∧ b'.pending = b.pending ++ [r] := by
  unfold registerBlob at h
  split at h
  · simp at h
  · next r hr =>
    split at h
    · next ht => exact ⟨r, hr, ht, register_ok h⟩
    · simp at h

/-- All records are of different tables. -/
def Distinct (b : SchemaBatch) : Prop := (b.pending.map SchemaRecord.tableId).Nodup

lemma distinct_empty : Distinct {} := List.nodup_nil

lemma Distinct.concat (hb : b.Distinct) (hfresh : ∀ p ∈ b.pending, p.tableId ≠ r.tableId) :
    Distinct ⟨b.pending ++ [r]⟩ := by
  rw [Distinct, List.map_append, List.nodup_append]
  exact ⟨hb, by simp, by simpa using hfresh⟩

lemma register_distinct (hb : b.Distinct) (h : b.register r = .ok b') : b'.Distinct := by
  unfold register at h
  split at h
  · cases h
  · next hnew =>
    rw [← Except.ok.inj h]
    exact hb.concat (by simpa using hnew)

lemma registerBlob_distinct {t : TableId} {blob : Blob} (hb : b.Distinct)
    (h : b.registerBlob t blob = .ok b') : b'.Distinct := by
  unfold registerBlob at h
  split at h
  · cases h
  · split at h
    · exact register_distinct hb h
    · cases h

end SchemaBatch
end Changefeed
