import Changefeed.Proofs.Schema.Order

/-!
# Registering layouts in batches

A batch is begun for a history and is offered layouts, some as records and some serialised.  It
takes a layout of a table that it has none of, and refuses everything else; what is refused leaves
the batch as it was.  Nothing of this shows in the history, which changes when the batch is
committed and not before.

A committed batch has one record at most of each table.  It adds that record to the table's ones,
unless the same layout stands there at its position, and leaves the other tables alone.  What it has
added stays, so committing the batch once more changes nothing, whatever was added in between.
-/

namespace Changefeed

/-! ## One record -/

namespace SchemaRecord

lemma exists_insertByPosition_eq (r : SchemaRecord) (rs : List SchemaRecord) :
    ∃ older newer, rs = older ++ newer ∧ r.insertByPosition rs = older ++ r :: newer := by
  induction rs with
  | nil => exact ⟨[], [], rfl, rfl⟩
  | cons s rest ih =>
    rw [insertByPosition]
    split
    · exact ⟨[], s :: rest, rfl, rfl⟩
    · obtain ⟨older, newer, hrest, hinsert⟩ := ih
      exact ⟨s :: older, newer, by rw [hrest, List.cons_append], by rw [hinsert, List.cons_append]⟩

lemma addTo_cases (r : SchemaRecord) (rs : List SchemaRecord) :
    ((∃ x ∈ rs, x.sameLayoutAt r = true) ∧ r.addTo rs = rs) ∨
      ∃ older newer, rs = older ++ newer ∧ r.addTo rs = older ++ r :: newer := by
  rw [addTo]
  split
  · next hany => exact .inl ⟨List.any_eq_true.mp hany, rfl⟩
  · exact .inr (exists_insertByPosition_eq r rs)

end SchemaRecord

/-! ## Histories with records that are there -/

namespace SchemaHistory

variable {h : SchemaHistory} {r : SchemaRecord} {rs : List SchemaRecord} {t : TableId}

lemma append_of_same (hsame : ∃ x ∈ h.records r.tableId, x.sameLayoutAt r = true) :
    h.append r = h := by
  obtain ⟨x, hx, -⟩ := id hsame
  exact append_of_held (List.ne_nil_of_mem hx) rfl (SchemaRecord.addTo_of_mem (.inr hsame))

lemma appendAll_of_same
    (hsame : ∀ r ∈ rs, ∃ x ∈ h.records r.tableId, x.sameLayoutAt r = true) :
    h.appendAll rs = h := by
  induction rs with
  | nil => rfl
  | cons r rs ih =>
    rw [appendAll, List.foldl_cons, append_of_same (hsame r (.head _))]
    exact ih fun x hx => hsame x (.tail _ hx)

lemma appendAll_again (h : SchemaHistory) (rs later : List SchemaRecord) :
    ((h.appendAll rs).appendAll later).appendAll rs = (h.appendAll rs).appendAll later := by
  refine appendAll_of_same fun r hr => ?_
  obtain ⟨x, hx, hsame⟩ := exists_same_mem_appendAll (h := h) hr
  exact ⟨x, mem_records_appendAll_of_mem later hx, hsame⟩

/-- The answer to a call that registers records of a table, and the history after it. -/
def seed (h : SchemaHistory) (t : TableId) (rs : List SchemaRecord) : Outcome Unit × SchemaHistory :=
  match h.register t rs with
  | .ok h' => (.ok (), h')
  | .error f => (.error f, h)

lemma seed_of_foreign (hforeign : ∃ r ∈ rs, r.tableId ≠ t) :
    ∃ r ∈ rs, r.tableId ≠ t ∧
      h.seed t rs = (.error (.schema (.foreignRecord r.tableId.text t.text)), h) := by
  cases hfind : rs.find? (·.tableId ≠ t) with
  | none =>
    obtain ⟨r, hr, hne⟩ := hforeign
    exact absurd (List.find?_eq_none.mp hfind r hr) (by simpa using hne)
  | some r =>
    refine ⟨r, List.mem_of_find?_eq_some hfind, by simpa using List.find?_some hfind, ?_⟩
    rw [seed, register, hfind]

end SchemaHistory

/-! ## Offers -/

/-- What a batch is offered: a record, or a blob that should hold one of a table. -/
inductive SchemaOffer where
  | record (r : SchemaRecord)
  | blob (tableId : TableId) (bytes : Blob)

/-- The record that is offered.  That of a blob stands there alone and is one of the table. -/
def SchemaOffer.Brings : SchemaOffer → SchemaRecord → Prop
  | .record r', r => r' = r
  | .blob t bytes, r => SchemaRecord.listOfBlob? bytes = some [r] ∧ r.tableId = t

namespace SchemaBatch

/-- The batch with what is offered. -/
def take (b : SchemaBatch) : SchemaOffer → Outcome SchemaBatch
  | .record r => b.register r
  | .blob t bytes => b.registerBlob t bytes

/-- Why a batch refuses an offer: the blob holds no records, it does not hold exactly one, that one
is of another table, or the batch has a record of the table. -/
inductive Refusal (b : SchemaBatch) : SchemaOffer → Fault → Prop
  | unreadable {t : TableId} {bytes : Blob} :
      SchemaRecord.listOfBlob? bytes = none → Refusal b (.blob t bytes) .json
  | notOne {t : TableId} {bytes : Blob} {rs : List SchemaRecord} :
      SchemaRecord.listOfBlob? bytes = some rs → rs.length ≠ 1 →
        Refusal b (.blob t bytes) (.malformedRecord (.notOneLayout rs.length))
  | foreign {t : TableId} {bytes : Blob} {r : SchemaRecord} :
      SchemaRecord.listOfBlob? bytes = some [r] → r.tableId ≠ t →
        Refusal b (.blob t bytes) (.schema (.foreignBlob t.text r.tableId.text))
  | duplicate {o : SchemaOffer} {r p : SchemaRecord} :
      o.Brings r → p ∈ b.pending → p.tableId = r.tableId →
        Refusal b o (.duplicateSchema r.tableId.text)

variable {b : SchemaBatch} {r : SchemaRecord} {o : SchemaOffer} {f : Fault}

lemma take_of_brings (hr : o.Brings r) : b.take o = b.register r := by
  cases o with
  | record r' => rw [take, show r' = r from hr]
  | blob t bytes =>
    obtain ⟨hbytes, ht⟩ := hr
    rw [take, registerBlob, SchemaRecord.ofBlob, hbytes]
    exact if_pos ht

/-- An offer brings a record, or the blob is one that is refused whatever the batch has. -/
lemma brings_or_refused (b : SchemaBatch) (o : SchemaOffer) :
    (∃ r, o.Brings r) ∨ ∃ f, b.Refusal o f ∧ b.take o = .error f := by
  cases o with
  | record r => exact .inl ⟨r, rfl⟩
  | blob t bytes =>
    rw [take, registerBlob, SchemaRecord.ofBlob]
    cases hbytes : SchemaRecord.listOfBlob? bytes with
    | none => exact .inr ⟨_, .unreadable hbytes, rfl⟩
    | some rs =>
      rcases rs with _ | ⟨r, _ | ⟨r', rest⟩⟩
      · exact .inr ⟨_, .notOne hbytes (by simp), rfl⟩
      · by_cases ht : r.tableId = t
        · exact .inl ⟨r, hbytes, ht⟩
        · exact .inr ⟨_, .foreign hbytes ht, if_neg ht⟩
      · exact .inr ⟨_, .notOne hbytes (by simp), rfl⟩

/-- An offer is taken when it brings a record of a table that the batch has none of, and refused for
one of the causes otherwise. -/
lemma take_cases (b : SchemaBatch) (o : SchemaOffer) :
    (∃ r, o.Brings r ∧ (∀ p ∈ b.pending, p.tableId ≠ r.tableId) ∧
        b.take o = .ok ⟨b.pending ++ [r]⟩) ∨
      ∃ f, b.Refusal o f ∧ b.take o = .error f := by
  rcases brings_or_refused b o with ⟨r, hr⟩ | hrefused
  · rw [take_of_brings hr, register]
    split
    · next hany =>
      obtain ⟨p, hp, hsame⟩ := List.any_eq_true.mp hany
      exact .inr ⟨_, .duplicate hr hp (by simpa using hsame), rfl⟩
    · next hfresh => exact .inl ⟨r, hr, by simpa using hfresh, rfl⟩
  · exact .inr hrefused

/-- Each cause makes the batch refuse. -/
lemma Refusal.take_eq (h : b.Refusal o f) : b.take o = .error f := by
  cases h with
  | unreadable hbytes => rw [take, registerBlob, SchemaRecord.ofBlob, hbytes]
  | @notOne t bytes rs hbytes hlength =>
    rw [take, registerBlob, SchemaRecord.ofBlob, hbytes]
    rcases rs with _ | ⟨r, _ | ⟨r', rest⟩⟩
    · rfl
    · exact absurd rfl hlength
    · rfl
  | foreign hbytes ht =>
    rw [take, registerBlob, SchemaRecord.ofBlob, hbytes]
    exact if_neg ht
  | duplicate hr hp ht =>
    rw [take_of_brings hr, register]
    exact if_pos (List.any_eq_true.mpr ⟨_, hp, by simpa using ht⟩)

end SchemaBatch

/-! ## Registrations -/

/-- A history, and the batch that has been begun for it. -/
structure Registration where
  history : SchemaHistory
  batch : SchemaBatch := {}

namespace Registration

/-- A history for which an empty batch has been begun. -/
def begun (h : SchemaHistory) : Registration := { history := h }

/-- The answer to an offer, and what it leaves. -/
def offer (x : Registration) (o : SchemaOffer) : Outcome Unit × Registration :=
  match x.batch.take o with
  | .ok b => (.ok (), { x with batch := b })
  | .error f => (.error f, x)

/-- What offers leave, one after the other. -/
def offerAll (x : Registration) (os : List SchemaOffer) : Registration :=
  os.foldl (fun x o => (x.offer o).2) x

/-- The history once the batch has been committed. -/
def commit (x : Registration) : SchemaHistory := x.batch.commit x.history

variable {x : Registration} {h : SchemaHistory}

lemma offer_cases (x : Registration) (o : SchemaOffer) :
    (∃ r, o.Brings r ∧ (∀ p ∈ x.batch.pending, p.tableId ≠ r.tableId) ∧
        x.offer o = (.ok (), ⟨x.history, ⟨x.batch.pending ++ [r]⟩⟩)) ∨
      ∃ f, x.batch.Refusal o f ∧ x.offer o = (.error f, x) := by
  rcases x.batch.take_cases o with ⟨r, hr, hfresh, htake⟩ | ⟨f, hf, htake⟩
  · exact .inl ⟨r, hr, hfresh, by rw [offer, htake]⟩
  · exact .inr ⟨f, hf, by rw [offer, htake]⟩

/-- What offers keep: the history, and that the batch has one record at most of each table. -/
structure Gathers (h : SchemaHistory) (x : Registration) : Prop where
  history : x.history = h
  distinct : x.batch.Distinct

lemma gathers_begun (h : SchemaHistory) : (begun h).Gathers h :=
  ⟨rfl, SchemaBatch.distinct_empty⟩

lemma Gathers.offer (hx : x.Gathers h) (o : SchemaOffer) : (x.offer o).2.Gathers h := by
  rcases x.offer_cases o with ⟨r, -, hfresh, hoffer⟩ | ⟨f, -, hoffer⟩
  · rw [hoffer]
    exact ⟨hx.history, hx.distinct.concat hfresh⟩
  · rw [hoffer]
    exact hx

lemma Gathers.offerAll (hx : x.Gathers h) (os : List SchemaOffer) : (x.offerAll os).Gathers h := by
  induction os generalizing x with
  | nil => exact hx
  | cons o os ih => exact ih (hx.offer o)

lemma Gathers.records_commit (hx : x.Gathers h) {r : SchemaRecord} (hr : r ∈ x.batch.pending) :
    ((∃ s ∈ h.records r.tableId, s.sameLayoutAt r = true) ∧
        x.commit.records r.tableId = h.records r.tableId) ∨
      ∃ older newer, h.records r.tableId = older ++ newer ∧
        x.commit.records r.tableId = older ++ r :: newer := by
  have hrecords : x.commit.records r.tableId = r.addTo (h.records r.tableId) := by
    rw [commit, SchemaBatch.commit, hx.history]
    exact SchemaHistory.records_appendAll_distinct hx.distinct hr
  rw [hrecords]
  exact r.addTo_cases (h.records r.tableId)

/-- A batch that was begun for any history and was offered anything.  A further offer is taken when
it brings a record of a table that the batch has none of; otherwise it is refused for one of the
causes and changes nothing.  The history is as it was, and stays so without a commit.  The batch has
one record at most of each table; committing it adds that one to the records of the table, unless
the same layout stands there at its position, and touches no other table; committing it again
changes nothing, whatever was added in between.  Records that are registered under another table
without a batch are refused and change nothing. -/
theorem registers_all_or_nothing (h : SchemaHistory) (os : List SchemaOffer) :
    let x := (begun h).offerAll os
    x.history = h ∧
    (∀ o, (∃ r, o.Brings r ∧ (∀ p ∈ x.batch.pending, p.tableId ≠ r.tableId) ∧
          x.offer o = (.ok (), ⟨h, ⟨x.batch.pending ++ [r]⟩⟩)) ∨
        ∃ f, x.batch.Refusal o f ∧ x.offer o = (.error f, x)) ∧
    (∀ o f, x.batch.Refusal o f → x.offer o = (.error f, x)) ∧
    (x.batch.pending.map SchemaRecord.tableId).Nodup ∧
    (∀ r ∈ x.batch.pending,
      ((∃ s ∈ h.records r.tableId, s.sameLayoutAt r = true) ∧
          x.commit.records r.tableId = h.records r.tableId) ∨
        ∃ older newer, h.records r.tableId = older ++ newer ∧
          x.commit.records r.tableId = older ++ r :: newer) ∧
    (∀ t, (∀ r ∈ x.batch.pending, r.tableId ≠ t) →
      x.commit.tables.find? t = h.tables.find? t) ∧
    (∀ later, x.batch.commit (x.commit.appendAll later) = x.commit.appendAll later) ∧
    ∀ t rs, (∃ r ∈ rs, r.tableId ≠ t) →
      ∃ r ∈ rs, r.tableId ≠ t ∧
        h.seed t rs = (.error (.schema (.foreignRecord r.tableId.text t.text)), h) := by
  intro x
  have hx : x.Gathers h := (gathers_begun h).offerAll os
  refine ⟨hx.history, fun o => ?_, fun o f hf => ?_, hx.distinct, fun r hr => hx.records_commit hr,
    fun t ht => ?_, fun later => ?_, fun t rs hforeign => SchemaHistory.seed_of_foreign hforeign⟩
  · have hcases := x.offer_cases o
    rwa [hx.history] at hcases
  · rw [offer, hf.take_eq]
  · rw [commit, hx.history]
    exact SchemaHistory.find?_appendAll_of_ne fun r hr => (ht r hr).symm
  · exact SchemaHistory.appendAll_again x.history x.batch.pending later

end Registration
end Changefeed
