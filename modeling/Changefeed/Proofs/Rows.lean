import Mathlib.Logic.Function.Basic
import Changefeed.Proofs.Dispatch

/-!
# The rows of a table

A table whose key column holds integers is a map from keys to rows.  Whoever receives change events
keeps a copy of it: an insert or an update puts the row under its key, and a delete removes it.
Only the last change of a key counts, so applying the same changes twice is the same as applying
them once, and changes of one key do not show under another.

In the table itself an update takes the row before it away from its own key.  The two agree as long
as no update moves a row to another key.
-/

namespace Changefeed

/-- The rows of a table by their keys. -/
abbrev Rows := Int → Option Json.Object

/-- The integer that a row has in a column. -/
def intKey? (column : String) (row : Json.Object) : Option Int :=
  match row.find? column with
  | some (.number (.int k)) => some k
  | _ => none

namespace ChangeEvent

/-- The integer key of the row that is changed. -/
def intKey? (e : ChangeEvent) (column : String) : Option Int :=
  e.row.bind (Changefeed.intKey? column)

/-- The row that a change leaves behind. -/
def image (e : ChangeEvent) : Option Json.Object :=
  match e.kind with
  | .delete => none
  | .insert | .update => e.after

/-- The change has the images that its kind goes with, and an integer key. -/
structure Keyed (column : String) (e : ChangeEvent) (k : Int) : Prop where
  hasBefore : e.kind.hasBefore = e.before.isSome
  hasAfter : e.kind.hasAfter = e.after.isSome
  key : e.intKey? column = some k

/-- The change leaves the row under its key. -/
def KeepsKey (column : String) (e : ChangeEvent) : Prop :=
  ∀ before after, e.before = some before → e.after = some after →
    Changefeed.intKey? column before = Changefeed.intKey? column after

variable {column : String} {e : ChangeEvent} {k : Int}

lemma KeepsKey.of_before_none (h : e.before = none) : e.KeepsKey column :=
  fun _ _ hbefore => by simp [h] at hbefore

lemma KeepsKey.of_after_none (h : e.after = none) : e.KeepsKey column :=
  fun _ _ _ hafter => by simp [h] at hafter

/-- The integer key of a change is its key value. -/
lemma intKey?_eq_some_iff :
    e.intKey? column = some k ↔ e.keyValue column = some (.number (.int k)) := by
  unfold intKey? keyValue
  cases e.row with
  | none => simp
  | some row =>
    simp only [Option.bind_some, Changefeed.intKey?]
    split
    · next h => simp [h]
    · next hother =>
      constructor
      · simp
      · intro h
        exact absurd h (hother k)

end ChangeEvent

namespace Rows

/-- The table that has no rows. -/
def empty : Rows := fun _ => none

/-- The rows with a change applied: by its key, the row after it is put or the row is removed. -/
def apply (column : String) (rows : Rows) (e : ChangeEvent) : Rows :=
  match e.intKey? column with
  | some k => Function.update rows k e.image
  | none => rows

/-- The rows with changes applied one after the other. -/
def applyAll (column : String) (rows : Rows) (es : List ChangeEvent) : Rows :=
  es.foldl (apply column) rows

/-- The rows without the one of an image. -/
def without (column : String) (rows : Rows) (image : Option Json.Object) : Rows :=
  match image.bind (intKey? column) with
  | some k => Function.update rows k none
  | none => rows

/-- The rows with the one of an image. -/
def store (column : String) (rows : Rows) (image : Option Json.Object) : Rows :=
  match image.bind (intKey? column) with
  | some k => Function.update rows k image
  | none => rows

/-- The table after a change: the row before it is gone and the row after it is there. -/
def evolve (column : String) (rows : Rows) (e : ChangeEvent) : Rows :=
  store column (without column rows e.before) e.after

variable {column : String} {rows rows' : Rows} {e : ChangeEvent} {es es' : List ChangeEvent}
  {k : Int}

/-! ## Changes of one key -/

lemma apply_at (column : String) (rows : Rows) (e : ChangeEvent) (k : Int) :
    apply column rows e k = if e.intKey? column = some k then e.image else rows k := by
  unfold apply
  cases e.intKey? column with
  | none => simp
  | some k' =>
    simp only [Function.update_apply, Option.some.injEq]
    exact if_congr eq_comm rfl rfl

@[simp] theorem applyAll_nil (column : String) (rows : Rows) : applyAll column rows [] = rows := rfl

lemma applyAll_cons (column : String) (rows : Rows) (e : ChangeEvent) (es : List ChangeEvent) :
    applyAll column rows (e :: es) = applyAll column (apply column rows e) es := rfl

lemma applyAll_append (column : String) (rows : Rows) (es es' : List ChangeEvent) :
    applyAll column rows (es ++ es') = applyAll column (applyAll column rows es) es' :=
  List.foldl_append

lemma applyAll_congr (h : rows k = rows' k) :
    applyAll column rows es k = applyAll column rows' es k := by
  induction es generalizing rows rows' with
  | nil => exact h
  | cons e es ih =>
    rw [applyAll_cons, applyAll_cons]
    exact ih (by rw [apply_at, apply_at, h])

lemma applyAll_untouched (h : ∀ e ∈ es, e.intKey? column ≠ some k) :
    applyAll column rows es k = rows k := by
  induction es generalizing rows with
  | nil => rfl
  | cons e es ih =>
    rw [applyAll_cons, ih fun e he => h e (.tail _ he), apply_at, if_neg (h e (.head _))]

/-- Where a key is changed, the row that was there does not matter. -/
lemma applyAll_touched (h : ∃ e ∈ es, e.intKey? column = some k) :
    applyAll column rows es k = applyAll column rows' es k := by
  induction es generalizing rows rows' with
  | nil =>
    obtain ⟨e, he, -⟩ := h
    cases he
  | cons e es ih =>
    rw [applyAll_cons, applyAll_cons]
    by_cases hrest : ∃ e ∈ es, e.intKey? column = some k
    · exact ih hrest
    · have hkey : e.intKey? column = some k := by
        obtain ⟨e', he', hkey⟩ := h
        rcases List.mem_cons.mp he' with rfl | he'
        · exact hkey
        · exact absurd ⟨e', he', hkey⟩ hrest
      exact applyAll_congr (by rw [apply_at, apply_at, if_pos hkey, if_pos hkey])

lemma applyAll_map_position (column : String) (rows : Rows) (es : List ChangeEvent) (o : Offset) :
    applyAll column rows (es.map fun e => { e with position := o }) = applyAll column rows es := by
  induction es generalizing rows with
  | nil => rfl
  | cons e es ih => exact ih (rows.apply column e)

/-- Where all changes of a key leave the same row behind, that is the row. -/
lemma applyAll_agree {row : Option Json.Object} (h : ∃ e ∈ es, e.intKey? column = some k)
    (hrow : ∀ e ∈ es, e.intKey? column = some k → e.image = row) :
    applyAll column rows es k = row := by
  induction es generalizing rows with
  | nil =>
    obtain ⟨e, he, -⟩ := h
    cases he
  | cons e es ih =>
    rw [applyAll_cons]
    by_cases hrest : ∃ e ∈ es, e.intKey? column = some k
    · exact ih hrest fun e he => hrow e (.tail _ he)
    · obtain ⟨e', he', hkey⟩ := h
      rcases List.mem_cons.mp he' with rfl | he'
      · rw [applyAll_untouched fun e he hkey => hrest ⟨e, he, hkey⟩, apply_at, if_pos hkey]
        exact hrow e' (.head _) hkey
      · exact absurd ⟨e', he', hkey⟩ hrest

lemma applyAll_again (column : String) (rows : Rows) (es : List ChangeEvent) :
    applyAll column (applyAll column rows es) es = applyAll column rows es := by
  funext k
  by_cases h : ∃ e ∈ es, e.intKey? column = some k
  · exact applyAll_touched h
  · refine applyAll_untouched fun e he hkey => h ⟨e, he, hkey⟩

/-- Two selections of changes that agree on a key are the same for it. -/
lemma applyAll_filter_congr {p q : ChangeEvent → Bool}
    (h : ∀ e ∈ es, e.intKey? column = some k → p e = q e) :
    applyAll column rows (es.filter p) k = applyAll column rows (es.filter q) k := by
  induction es generalizing rows with
  | nil => rfl
  | cons e es ih =>
    have hrest := fun rows => @ih rows fun e he => h e (.tail _ he)
    by_cases hkey : e.intKey? column = some k
    · have hpq := h e (.head _) hkey
      rw [List.filter_cons, List.filter_cons, hpq]
      split
      · exact hrest _
      · exact hrest _
    · have hskip : ∀ b : Bool, ∀ es : List ChangeEvent,
          applyAll column rows (if b then e :: es else es) k = applyAll column rows es k := by
        intro b es
        cases b with
        | false => rfl
        | true =>
          have hsame : apply column rows e k = rows k := by rw [apply_at, if_neg hkey]
          exact applyAll_congr hsame
      rw [List.filter_cons, List.filter_cons, hskip, hskip, hrest]

lemma applyAll_filter {p : ChangeEvent → Bool}
    (h : ∀ e ∈ es, e.intKey? column = some k → p e = true) :
    applyAll column rows (es.filter p) k = applyAll column rows es k := by
  have hall : es.filter (fun _ => true) = es := List.filter_eq_self.mpr fun _ _ => rfl
  rw [applyAll_filter_congr h, hall]

/-! ## The table itself -/

/-- A table evolves as its copy does when rows keep their keys. -/
lemma evolve_eq_apply (he : e.Keyed column k) (hkeeps : e.KeepsKey column) :
    evolve column rows e = apply column rows e := by
  obtain ⟨position, tableId, kind, before, after, timestampMs⟩ := e
  obtain ⟨hasBefore, hasAfter, hkey⟩ := he
  unfold apply
  rw [hkey]
  cases kind with
  | insert =>
    obtain rfl : before = none :=
      Option.not_isSome_iff_eq_none.mp (by simp [← hasBefore, ChangeKind.hasBefore])
    obtain ⟨row, rfl⟩ := Option.isSome_iff_exists.mp hasAfter.symm
    have hrow : intKey? column row = some k := hkey
    simp [evolve, store, without, hrow, ChangeEvent.image]
  | update =>
    obtain ⟨row, rfl⟩ := Option.isSome_iff_exists.mp hasBefore.symm
    obtain ⟨row', rfl⟩ := Option.isSome_iff_exists.mp hasAfter.symm
    have hrow' : intKey? column row' = some k := hkey
    have hrow : intKey? column row = some k := (hkeeps row row' rfl rfl).trans hrow'
    simp [evolve, store, without, hrow, hrow', ChangeEvent.image]
  | delete =>
    obtain ⟨row, rfl⟩ := Option.isSome_iff_exists.mp hasBefore.symm
    obtain rfl : after = none :=
      Option.not_isSome_iff_eq_none.mp (by simp [← hasAfter, ChangeKind.hasAfter])
    have hrow : intKey? column row = some k := hkey
    simp [evolve, store, without, hrow, ChangeEvent.image]

lemma foldl_evolve (h : ∀ e ∈ es, ∃ k, e.Keyed column k ∧ e.KeepsKey column) :
    es.foldl (evolve column) rows = applyAll column rows es := by
  induction es generalizing rows with
  | nil => rfl
  | cons e es ih =>
    obtain ⟨k, hkeyed, hkeeps⟩ := h e (.head _)
    rw [List.foldl_cons, evolve_eq_apply hkeyed hkeeps, ih fun e he => h e (.tail _ he)]
    rfl

end Rows

/-! ## Rows that are read -/

/-- A change that is read has the images that its kind goes with. -/
lemma ReadAs.images {schema : SchemaRecord} {c : RowChange} {e : ChangeEvent}
    (h : ReadAs schema c e) :
    e.kind.hasBefore = e.before.isSome ∧ e.kind.hasAfter = e.after.isSome := by
  have hnamed : ∀ {image : Option (List Json.Value)} {named : Option Json.Object},
      schema.nameImage c.position image = .ok named → named.isSome = image.isSome := by
    intro image named hnamed
    cases image with
    | none =>
      rw [← Except.ok.inj hnamed]
      rfl
    | some values =>
      simp only [SchemaRecord.nameImage] at hnamed
      cases hvalues : schema.nameValues c.position values with
      | error f => simp [hvalues, Except.map] at hnamed
      | ok row =>
        rw [hvalues] at hnamed
        rw [← Except.ok.inj hnamed]
        rfl
  have hkind : e.kind = c.kind := by rw [h.event]
  rw [hkind, hnamed h.before, hnamed h.after]
  exact ⟨h.hasBefore, h.hasAfter⟩

end Changefeed
