import Mathlib.Data.List.Induction
import Changefeed.Json.Writer
import Changefeed.Proofs.Rows

/-!
# Rows told apart by the text of their key

Whatever a key is made of, rows are told apart by how it is written.  Under each key the last change
decides: in the table the last one whose row had the key before or has it after, in a copy the last
one that is filed under the key, which is that of the row after an insert or an update and of the
row before a delete.

A copy therefore misses that an update takes a row away from its key.  It shows the row until a
change that is filed under the old key comes along, and this is all that it misses.
-/

namespace Changefeed

/-- The text of a row's key; a null key is none. -/
def keyText? (column : String) (row : Json.Object) : Option String :=
  match row.find? column with
  | none | some .null => none
  | some key => some key.compact

namespace ChangeEvent

/-- The text of the key that a change is filed under. -/
def keyText? (e : ChangeEvent) (column : String) : Option String :=
  e.row.bind (Changefeed.keyText? column)

/-- The change is filed under the key. -/
def names (column key : String) (e : ChangeEvent) : Bool := e.keyText? column = some key

/-- The row before the change or the one after it has the key. -/
def touches (column key : String) (e : ChangeEvent) : Bool :=
  e.before.bind (Changefeed.keyText? column) = some key ||
    e.after.bind (Changefeed.keyText? column) = some key

/-- The row that the table has under a key that the change touches. -/
def rowUnder (column key : String) (e : ChangeEvent) : Option Json.Object :=
  if e.after.bind (Changefeed.keyText? column) = some key then e.after else none

/-- The change has the images that its kind goes with. -/
structure Imaged (e : ChangeEvent) : Prop where
  hasBefore : e.kind.hasBefore = e.before.isSome
  hasAfter : e.kind.hasAfter = e.after.isSome

variable {column key : String} {e : ChangeEvent}

/-- The row that identifies a change is one of its images. -/
lemma Imaged.exists_row (he : e.Imaged) :
    ∃ row, e.row = some row ∧ (e.before = some row ∨ e.after = some row) := by
  obtain ⟨position, tableId, kind, before, after, timestampMs⟩ := e
  obtain ⟨hasBefore, hasAfter⟩ := he
  cases kind with
  | delete =>
    obtain ⟨row, rfl⟩ := Option.isSome_iff_exists.mp hasBefore.symm
    exact ⟨row, rfl, .inl rfl⟩
  | insert =>
    obtain ⟨row, rfl⟩ := Option.isSome_iff_exists.mp hasAfter.symm
    exact ⟨row, rfl, .inr rfl⟩
  | update =>
    obtain ⟨row, rfl⟩ := Option.isSome_iff_exists.mp hasAfter.symm
    exact ⟨row, rfl, .inr rfl⟩

lemma Imaged.row_of_after (he : e.Imaged) (hafter : e.after.isSome) : e.row = e.after := by
  have hkind : e.kind.hasAfter = true := he.hasAfter.trans hafter
  obtain ⟨after, hrow⟩ := Option.isSome_iff_exists.mp hafter
  unfold row
  cases hk : e.kind with
  | delete =>
    rw [hk] at hkind
    cases hkind
  | insert => rw [hrow, Option.some_or]
  | update => rw [hrow, Option.some_or]

lemma Imaged.row_of_before (he : e.Imaged) (hbefore : e.before.isSome) (hne : e.kind ≠ .update) :
    e.row = e.before := by
  have hkind : e.kind.hasBefore = true := he.hasBefore.trans hbefore
  unfold row
  cases hk : e.kind with
  | delete => rfl
  | insert =>
    rw [hk] at hkind
    cases hkind
  | update => exact absurd hk hne

/-- What is filed under a key touches it. -/
lemma touches_of_names (h : e.names column key = true) : e.touches column key = true := by
  rw [names, decide_eq_true_eq, keyText?, row] at h
  rw [touches, Bool.or_eq_true, decide_eq_true_eq, decide_eq_true_eq]
  cases hkind : e.kind with
  | delete =>
    rw [hkind] at h
    exact .inl h
  | insert =>
    rw [hkind] at h
    cases hafter : e.after with
    | none => exact .inl (by simpa [hafter] using h)
    | some row => exact .inr (by simpa [hafter] using h)
  | update =>
    rw [hkind] at h
    cases hafter : e.after with
    | none => exact .inl (by simpa [hafter] using h)
    | some row => exact .inr (by simpa [hafter] using h)

/-- Under a key that a change touches the table has the row that the change leaves, when the change
is filed there, and else none. -/
lemma rowUnder_eq (he : e.Imaged) :
    e.rowUnder column key = if e.names column key then e.image else none := by
  obtain ⟨position, tableId, kind, before, after, timestampMs⟩ := e
  obtain ⟨-, hasAfter⟩ := he
  cases kind with
  | delete =>
    obtain rfl : after = none :=
      Option.not_isSome_iff_eq_none.mp (by simp [← hasAfter, ChangeKind.hasAfter])
    simp [rowUnder, image]
  | insert =>
    obtain ⟨row, rfl⟩ := Option.isSome_iff_exists.mp hasAfter.symm
    by_cases hkey : Changefeed.keyText? column row = some key <;>
      simp [rowUnder, names, keyText?, ChangeEvent.row, image, hkey]
  | update =>
    obtain ⟨row, rfl⟩ := Option.isSome_iff_exists.mp hasAfter.symm
    by_cases hkey : Changefeed.keyText? column row = some key <;>
      simp [rowUnder, names, keyText?, ChangeEvent.row, image, hkey]

end ChangeEvent

/-! ## The last change decides -/

/-- The row that the last of some changes leaves, among those that concern it. -/
def lastRow (concerns : ChangeEvent → Bool) (leaves : ChangeEvent → Option Json.Object)
    (row : Option Json.Object) (es : List ChangeEvent) : Option Json.Object :=
  es.foldl (fun row e => if concerns e then leaves e else row) row

section LastRow

variable {concerns : ChangeEvent → Bool} {leaves : ChangeEvent → Option Json.Object}
  {row : Option Json.Object} {e : ChangeEvent} {es more : List ChangeEvent}

lemma lastRow_append :
    lastRow concerns leaves row (es ++ more) =
      lastRow concerns leaves (lastRow concerns leaves row es) more :=
  List.foldl_append

lemma lastRow_eq :
    lastRow concerns leaves row es = (es.filter concerns).getLast?.elim row leaves := by
  induction es using List.reverseRecOn with
  | nil => rfl
  | append_singleton es e ih =>
    rw [lastRow_append, ih, List.filter_append]
    cases he : concerns e with
    | true => simp [lastRow, he]
    | false => simp [lastRow, he]

lemma lastRow_of_none (h : ∀ e ∈ es, concerns e = false) :
    lastRow concerns leaves row es = row := by
  rw [lastRow_eq, List.filter_eq_nil_iff.mpr fun e he => by simp [h e he]]
  rfl

lemma lastRow_of_some (h : ∃ e ∈ es, concerns e = true) (row row' : Option Json.Object) :
    lastRow concerns leaves row es = lastRow concerns leaves row' es := by
  obtain ⟨e, he, hconcerns⟩ := h
  have hne : es.filter concerns ≠ [] :=
    List.ne_nil_of_mem (List.mem_filter.mpr ⟨he, hconcerns⟩)
  rw [lastRow_eq, lastRow_eq, List.getLast?_eq_some_getLast hne]
  rfl

lemma lastRow_filter {p : ChangeEvent → Bool} (h : ∀ e ∈ es, concerns e = true → p e = true) :
    lastRow concerns leaves row (es.filter p) = lastRow concerns leaves row es := by
  have hsame : (es.filter p).filter concerns = es.filter concerns := by
    rw [List.filter_filter]
    refine List.filter_congr fun e he => ?_
    cases hc : concerns e with
    | false => rfl
    | true => rw [h e he hc]; rfl
  rw [lastRow_eq, lastRow_eq, hsame]

lemma lastRow_again :
    lastRow concerns leaves (lastRow concerns leaves row es) es =
      lastRow concerns leaves row es := by
  by_cases h : ∃ e ∈ es, concerns e = true
  · exact lastRow_of_some h _ _
  · exact lastRow_of_none fun e he => Bool.eq_false_iff.mpr fun hc => h ⟨e, he, hc⟩

end LastRow

/-! ## The table and its copy -/

/-- The row that the table has under a key behind some changes. -/
def rowBehind (column key : String) (row : Option Json.Object) (es : List ChangeEvent) :
    Option Json.Object :=
  lastRow (ChangeEvent.touches column key) (ChangeEvent.rowUnder column key) row es

/-- The row that a copy made of some changes has under a key. -/
def filed (column : String) (es : List ChangeEvent) (key : String) : Option Json.Object :=
  lastRow (ChangeEvent.names column key) ChangeEvent.image none es

lemma filed_append (column : String) (es more : List ChangeEvent) (key : String) :
    filed column (es ++ more) key =
      lastRow (ChangeEvent.names column key) ChangeEvent.image (filed column es key) more :=
  lastRow_append

lemma filed_map_position (column : String) (es : List ChangeEvent) (o : Offset) :
    filed column (es.map fun e => { e with position := o }) = filed column es := by
  funext key
  rw [filed, lastRow, List.foldl_map]
  rfl

/-- The last of the changes that touch a key takes the row away: it is filed under another key. -/
def MovedAway (column key : String) (es : List ChangeEvent) : Prop :=
  ∃ e, (es.filter (ChangeEvent.touches column key)).getLast? = some e ∧ e.names column key = false

variable {column key : String} {row : Option Json.Object} {es more : List ChangeEvent}

lemma rowBehind_append :
    rowBehind column key row (es ++ more) =
      rowBehind column key (rowBehind column key row es) more :=
  lastRow_append

lemma rowBehind_of_touched (h : ∃ e ∈ es, e.touches column key = true)
    (row row' : Option Json.Object) : rowBehind column key row es = rowBehind column key row' es :=
  lastRow_of_some h row row'

lemma rowBehind_of_untouched (h : ∀ e ∈ es, e.touches column key = false) :
    rowBehind column key row es = row :=
  lastRow_of_none h

lemma rowBehind_again :
    rowBehind column key (rowBehind column key row es) es = rowBehind column key row es :=
  lastRow_again

/-- The last change that touches a key is the last one that is filed there, if it is. -/
lemma getLast?_filter_names {e : ChangeEvent}
    (he : (es.filter (ChangeEvent.touches column key)).getLast? = some e)
    (hnames : e.names column key = true) :
    (es.filter (ChangeEvent.names column key)).getLast? = some e := by
  have hsub : (es.filter (ChangeEvent.touches column key)).filter (ChangeEvent.names column key) =
      es.filter (ChangeEvent.names column key) := by
    rw [List.filter_filter]
    refine List.filter_congr fun x _ => ?_
    cases hx : x.names column key with
    | false => rfl
    | true => simp [ChangeEvent.touches_of_names hx]
  obtain ⟨before, hbefore⟩ := List.getLast?_eq_some_iff.mp he
  rw [← hsub, hbefore, List.filter_append, List.filter_cons_of_pos hnames, List.filter_nil,
    List.getLast?_concat]

/-- A copy that has the table's row under a key has it behind more changes too, unless the last of
them takes the row away and the copy still shows one. -/
lemma filed_eq_rowBehind_iff (hmore : ∀ e ∈ more, e.Imaged) :
    filed column (es ++ more) key = rowBehind column key (filed column es key) more ↔
      (MovedAway column key more → filed column (es ++ more) key = none) := by
  have hfiled := filed_append column es more key
  cases hlast : (more.filter (ChangeEvent.touches column key)).getLast? with
  | none =>
    have htouches : ∀ e ∈ more, e.touches column key = false := by
      rw [List.getLast?_eq_none_iff, List.filter_eq_nil_iff] at hlast
      simpa using hlast
    have hnames : ∀ e ∈ more, e.names column key = false := fun e he =>
      Bool.eq_false_iff.mpr fun h => by
        have h' := ChangeEvent.touches_of_names h
        rw [htouches e he] at h'
        contradiction
    have hstays : ¬ MovedAway column key more := by
      rintro ⟨e, he, -⟩
      rw [hlast] at he
      cases he
    rw [hfiled, lastRow_of_none hnames, rowBehind, lastRow_of_none htouches]
    exact iff_of_true rfl fun hmoved => absurd hmoved hstays
  | some e =>
    have he : e.Imaged := hmore e (List.mem_filter.mp (List.mem_of_getLast? hlast)).1
    rw [rowBehind, lastRow_eq, hlast, Option.elim_some, ChangeEvent.rowUnder_eq he]
    cases hnames : e.names column key with
    | true =>
      have hstays : ¬ MovedAway column key more := by
        rintro ⟨e', he', hnot⟩
        obtain rfl := Option.some.inj (hlast.symm.trans he')
        rw [hnames] at hnot
        contradiction
      rw [hfiled, lastRow_eq, getLast?_filter_names hlast hnames]
      exact iff_of_true rfl fun hmoved => absurd hmoved hstays
    | false => exact ⟨fun h _ => h, fun h => h ⟨e, hlast, hnames⟩⟩

end Changefeed
