import Mathlib.Tactic.SplitIfs
import Mathlib.Logic.Basic
import Changefeed.Dispatch

/-!
# Reading rows

A row is read when the layout is one of its table, the images are those that its kind of change has
and each of them has as many values as the layout has columns.  The event then takes everything but
the names of the columns from the row.  A row that is not read is reported as malformed, and one
without a layout as such.
-/

namespace Changefeed

variable {schema : SchemaRecord} {c : RowChange}

/-! ## Images -/

lemma nameImage_fault {position : Offset} {image : Option (List Json.Value)} {f : Fault}
    (h : schema.nameImage position image = .error f) : ∃ cause, f = .malformedRecord cause := by
  cases image with
  | none => simp [SchemaRecord.nameImage] at h
  | some values =>
    simp only [SchemaRecord.nameImage, SchemaRecord.nameValues] at h
    split at h
    · simp [Except.map] at h
    · exact ⟨_, (Except.error.inj h).symm⟩

/-! ## Rows -/

/-- What it takes to read a row, and the event that comes of it. -/
structure ReadAs (schema : SchemaRecord) (c : RowChange) (e : ChangeEvent) : Prop where
  table : schema.tableId = c.tableId
  hasBefore : c.kind.hasBefore = c.before.isSome
  hasAfter : c.kind.hasAfter = c.after.isSome
  before : schema.nameImage c.position c.before = .ok e.before
  after : schema.nameImage c.position c.after = .ok e.after
  event : e = { e with
    position := c.position, tableId := c.tableId, kind := c.kind, timestampMs := c.timestampMs }

/-- A row is read in one way, or it is malformed. -/
lemma decodeWith_cases (schema : SchemaRecord) (c : RowChange) :
    (∃ e, c.decodeWith schema = .ok e ∧ ReadAs schema c e) ∨
      ∃ cause, c.decodeWith schema = .error (.malformedRecord cause) := by
  unfold RowChange.decodeWith
  split_ifs with htable hbefore hafter
  · exact .inr ⟨_, rfl⟩
  · exact .inr ⟨_, rfl⟩
  · exact .inr ⟨_, rfl⟩
  · cases hb : schema.nameImage c.position c.before with
    | error f =>
      obtain ⟨cause, rfl⟩ := nameImage_fault hb
      exact .inr ⟨cause, rfl⟩
    | ok before =>
      cases ha : schema.nameImage c.position c.after with
      | error f =>
        obtain ⟨cause, rfl⟩ := nameImage_fault ha
        exact .inr ⟨cause, rfl⟩
      | ok after =>
        exact .inl ⟨_, rfl, not_not.mp htable, not_not.mp hbefore, not_not.mp hafter, hb, ha, rfl⟩

lemma readAs_of_decodeWith {e : ChangeEvent} (h : c.decodeWith schema = .ok e) :
    ReadAs schema c e := by
  rcases decodeWith_cases schema c with ⟨e', he', hread⟩ | ⟨cause, hcause⟩
  · rw [he'] at h
    exact Except.ok.inj h ▸ hread
  · rw [hcause] at h
    cases h

/-- Only the table and the columns of a layout matter to how a row is read. -/
lemma decodeWith_congr {schema' : SchemaRecord} (htable : schema.tableId = schema'.tableId)
    (hcolumns : schema.columns = schema'.columns) (c : RowChange) :
    c.decodeWith schema = c.decodeWith schema' := by
  have hname : ∀ position image,
      schema.nameImage position image = schema'.nameImage position image := by
    intro position image
    cases image with
    | none => rfl
    | some values =>
      simp [SchemaRecord.nameImage, SchemaRecord.nameValues, SchemaRecord.columnNames, htable,
        hcolumns]
  simp [RowChange.decodeWith, htable, hname]

/-! ## Records -/

/-- A record that cannot be read does not look like a closed queue. -/
lemma dispatch_ne_queueClosed {d : Dispatcher} {h : SchemaHistory} {r : LogRecord} {f : Fault}
    (hf : d.dispatch h r = .error f) : f ≠ .queueClosed := by
  rintro rfl
  unfold Dispatcher.dispatch at hf
  cases r with
  | change c =>
    dsimp only at hf
    split at hf
    · unfold Dispatcher.decode SchemaHistory.schemaAt at hf
      cases hschema : h.schemaAt? c.tableId c.position with
      | none => simp [hschema, Except.map] at hf
      | some schema =>
        rw [hschema] at hf
        rcases decodeWith_cases schema c with ⟨e, he, -⟩ | ⟨cause, hcause⟩
        · simp [he, Except.map] at hf
        · simp [hcause, Except.map] at hf
    · simp at hf
  | schemaChange r =>
    dsimp only at hf
    split at hf <;> simp at hf
  | heartbeat position => simp at hf

end Changefeed
