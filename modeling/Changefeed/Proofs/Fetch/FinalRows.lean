import Mathlib.Data.List.Basic
import Changefeed.Proofs.Fetch.Normalizer
import Changefeed.Proofs.KeyedRows

/-!
# The rows that are given out

A normalizer takes every change whose row has a key.  It has one slot for each key, in the order in
which the keys are first seen, and holds there what the last change under the key leaves.  So it
gives out one insert for each row that a copy made of the changes has, as of the watermark.
-/

namespace Changefeed

/-- One insert for each row of a table with a key among some, as of a position. -/
structure Delivers (tableId : TableId) (column : String) (within : String → Prop)
    (rows : String → Option Json.Object) (w : Offset) (es : List ChangeEvent) : Prop where
  once : es.Pairwise fun e e' => e.keyText? column ≠ e'.keyText? column
  inserts : ∀ e ∈ es, e.tableId = tableId ∧ e.kind = .insert ∧ e.before = none ∧ e.position = w
  placed : ∀ e ∈ es, ∃ key, within key ∧ e.keyText? column = some key ∧ e.after = rows key
  complete : ∀ key, within key → (rows key).isSome → ∃ e ∈ es, e.keyText? column = some key

/-- The same events are the rows of two tables when these have the same rows. -/
lemma Delivers.iff_rows_eq {tableId : TableId} {column : String} {within : String → Prop}
    {rows rows' : String → Option Json.Object} {w : Offset} {es : List ChangeEvent}
    (h : Delivers tableId column within rows w es) :
    Delivers tableId column within rows' w es ↔ ∀ key, within key → rows key = rows' key := by
  have hplaced : ∀ {rows key e}, Delivers tableId column within rows w es → e ∈ es →
      e.keyText? column = some key → e.after = rows key ∧ (rows key).isSome := by
    intro rows key e h he hkey
    obtain ⟨key', -, hkey', hafter⟩ := h.placed e he
    obtain rfl := Option.some.inj (hkey.symm.trans hkey')
    obtain ⟨-, hkind, hbefore, -⟩ := h.inserts e he
    refine ⟨hafter, ?_⟩
    rw [← hafter]
    cases he : e.after with
    | none => simp [ChangeEvent.keyText?, ChangeEvent.row, hkind, hbefore, he] at hkey
    | some row => rfl
  constructor
  · intro h' key hkey
    cases hrow : rows key with
    | some row =>
      obtain ⟨e, he, hat⟩ := h.complete key hkey (by simp [hrow])
      rw [← hrow, ← (hplaced h he hat).1, ← (hplaced h' he hat).1]
    | none =>
      cases hrow' : rows' key with
      | none => rfl
      | some row =>
        obtain ⟨e, he, hat⟩ := h'.complete key hkey (by simp [hrow'])
        have hsome := (hplaced h he hat).2
        simp [hrow] at hsome
  · intro hrows
    refine { h with placed := fun e he => ?_, complete := fun key hkey hsome => ?_ }
    · obtain ⟨key, hkey, hat, hafter⟩ := h.placed e he
      exact ⟨key, hkey, hat, hafter.trans (hrows key hkey)⟩
    · exact h.complete key hkey (hrows key hkey ▸ hsome)

namespace Normalizer

variable {n : Normalizer} {column key : String} {image : Option ChangeEvent}
  {e kept : ChangeEvent} {es : List ChangeEvent} {slots : RowSlots}

/-! ## The order of the keys -/

/-- The keys of the rows that some changes concern, in the order in which they are first seen. -/
def keysOf (column : String) (es : List ChangeEvent) : List String :=
  (es.filterMap fun e => e.keyText? column).eraseDups

lemma keysOf_append (he : e.keyText? column = some key) :
    keysOf column (es ++ [e]) =
      if key ∈ keysOf column es then keysOf column es else keysOf column es ++ [key] := by
  rw [keysOf, List.filterMap_append, List.eraseDups_append, keysOf]
  generalize es.filterMap (fun e => e.keyText? column) = keys
  by_cases hkey : key ∈ keys
  · simp [he, List.removeAll, hkey]
  · simp [he, List.removeAll, hkey, List.eraseDups_cons]

lemma mem_keysOf_iff : key ∈ keysOf column es ↔ ∃ e ∈ es, e.keyText? column = some key := by
  simp [keysOf]

/-! ## What the slots hold -/

/-- Under each key, in the order in which the keys are first seen, what the last change leaves. -/
def entriesOf (column : String) (es : List ChangeEvent) : List (String × Option ChangeEvent) :=
  (keysOf column es).map fun key =>
    (key, (es.filter (ChangeEvent.names column key)).getLast?.bind imageOf)

lemma keys_entriesOf (column : String) (es : List ChangeEvent) :
    (entriesOf column es).map Prod.fst = keysOf column es := by
  simp [entriesOf, Function.comp_def]

/-- An entry that is set among others, which stay what they are. -/
lemma setEntry_map {f g : String → Option ChangeEvent} (hkey : g key = image)
    (hother : ∀ k, k ≠ key → g k = f k) {keys : List String} (hkeys : keys.Nodup) :
    setEntry key image (keys.map fun k => (k, f k)) =
      (if key ∈ keys then keys else keys ++ [key]).map fun k => (k, g k) := by
  induction keys with
  | nil => simp [setEntry, hkey]
  | cons k keys ih =>
    obtain ⟨hnew, hrest⟩ := List.nodup_cons.mp hkeys
    rw [List.map_cons, setEntry]
    by_cases hk : k = key
    · subst hk
      have hsame : (keys.map fun k => (k, f k)) = keys.map fun k => (k, g k) :=
        List.map_congr_left fun k' hk' => by rw [hother k' fun heq => hnew (heq ▸ hk')]
      rw [if_pos rfl, if_pos List.mem_cons_self, hsame, List.map_cons, hkey]
    · rw [if_neg hk, ih hrest]
      by_cases hmem : key ∈ keys
      · simp [hmem, hother k hk]
      · simp [hmem, Ne.symm hk, hother k hk]

/-- One more change sets the entry of its key. -/
lemma entriesOf_append (he : e.keyText? column = some key) (hkeys : (keysOf column es).Nodup) :
    entriesOf column (es ++ [e]) = setEntry key (imageOf e) (entriesOf column es) := by
  have hkey : ((es ++ [e]).filter (ChangeEvent.names column key)).getLast?.bind imageOf =
      imageOf e := by
    simp [List.filter_append, ChangeEvent.names, he]
  have hother : ∀ k, k ≠ key →
      ((es ++ [e]).filter (ChangeEvent.names column k)).getLast?.bind imageOf =
        (es.filter (ChangeEvent.names column k)).getLast?.bind imageOf := by
    intro k hk
    simp [List.filter_append, ChangeEvent.names, he, Ne.symm hk]
  rw [entriesOf, entriesOf, keysOf_append he, setEntry_map hkey hother hkeys]

/-- The slots hold what some changes leave. -/
def Files (column : String) (slots : RowSlots) (es : List ChangeEvent) : Prop :=
  Lists slots (entriesOf column es)

lemma files_nil (column : String) : Files column {} [] := lists_empty

lemma Files.nodup (h : Files column slots es) : (keysOf column es).Nodup := by
  rw [← keys_entriesOf]
  exact Lists.nodup h

lemma Files.setSlot (h : Files column slots es) (he : e.keyText? column = some key) :
    Files column (setSlot key (imageOf e) slots) (es ++ [e]) := by
  rw [Files, entriesOf_append he h.nodup]
  exact Lists.setSlot h key (imageOf e)

lemma apply_ok (he : e.keyText? n.keyColumn = some key) :
    n.apply e = .ok { n with slots := setSlot key (imageOf e) n.slots } := by
  have hkey : n.keyText e = some key := by
    rw [← he, keyText, ChangeEvent.keyValue, ChangeEvent.keyText?]
    cases e.row <;> rfl
  rw [apply, hkey]

lemma apply_error (he : e.keyText? n.keyColumn = none) :
    n.apply e = .error
      (.malformedRecord (.rowWithoutKey e.tableId.text e.position.text n.keyColumn)) := by
  have hkey : n.keyText e = none := by
    rw [← he, keyText, ChangeEvent.keyValue, ChangeEvent.keyText?]
    cases e.row <;> rfl
  rw [apply, hkey]

/-- Changes of rows with keys are all taken, and the slots hold what they leave. -/
lemma applyAll_files {done : List ChangeEvent} (h : Files n.keyColumn n.slots done)
    (hes : ∀ e ∈ es, ∃ key, e.keyText? n.keyColumn = some key) :
    ∃ n', n.applyAll es = .ok n' ∧ n'.keyColumn = n.keyColumn ∧
      Files n.keyColumn n'.slots (done ++ es) := by
  induction es generalizing n done with
  | nil => exact ⟨n, rfl, rfl, by rwa [List.append_nil]⟩
  | cons e es ih =>
    obtain ⟨key, hkey⟩ := hes e (.head _)
    obtain ⟨n', happly, hcolumn, hfiles⟩ :=
      ih (n := { n with slots := Normalizer.setSlot key (imageOf e) n.slots }) (h.setSlot hkey)
        fun e he => hes e (.tail _ he)
    refine ⟨n', ?_, hcolumn, ?_⟩
    · rw [applyAll, apply_ok hkey]
      exact happly
    · rwa [List.append_cons]

/-- Changes that are all taken are of rows with keys. -/
lemma keyed_of_applyAll {n' : Normalizer} (h : n.applyAll es = .ok n') :
    ∀ e ∈ es, ∃ key, e.keyText? n.keyColumn = some key := by
  induction es generalizing n with
  | nil => simp
  | cons e es ih =>
    rw [applyAll] at h
    cases hkey : e.keyText? n.keyColumn with
    | some key =>
      rw [apply_ok hkey] at h
      have hrest := ih (n := { n with slots := setSlot key (imageOf e) n.slots }) h
      exact List.forall_mem_cons.mpr ⟨⟨key, hkey⟩, hrest⟩
    | none =>
      rw [apply_error hkey] at h
      cases h

/-! ## What is given out -/

/-- The rows that some changes leave behind, as of a watermark: under each key, in the order in
which the keys are first seen, what the last change under it leaves. -/
def finalRows (column : String) (es : List ChangeEvent) (w : Offset) : List ChangeEvent :=
  (keysOf column es).filterMap fun key =>
    ((es.filter (ChangeEvent.names column key)).getLast?.bind imageOf).map fun e =>
      { e with position := w }

lemma Files.finish (h : Files column n.slots es) (w : Offset) :
    n.finish w = finalRows column es w := by
  rw [Lists.finish h, entriesOf, List.filterMap_map]
  rfl

lemma finish_applyAll {n' : Normalizer} (h : applyAll { keyColumn := column } es = .ok n')
    (w : Offset) : n'.finish w = finalRows column es w ∧ Files column n'.slots es ∧
      n'.keyColumn = column := by
  obtain ⟨n'', happly, hcolumn, hfiles⟩ :=
    applyAll_files (files_nil column) (keyed_of_applyAll h)
  obtain rfl := Except.ok.inj (happly.symm.trans h)
  exact ⟨Files.finish hfiles w, hfiles, hcolumn⟩

/-! ## The rows of a copy -/

/-- What is kept of a change is its row, as an insert under the same key. -/
lemma imageOf_eq_some (column : String) (he : e.Imaged) (h : imageOf e = some kept) :
    kept = { e with kind := .insert, before := none } ∧ e.image = e.after ∧
      kept.keyText? column = e.keyText? column := by
  obtain ⟨position, tableId, kind, before, after, timestampMs⟩ := e
  cases kind with
  | delete => cases h
  | insert =>
    obtain ⟨row, rfl⟩ := Option.isSome_iff_exists.mp he.hasAfter.symm
    obtain rfl := Option.some.inj h
    exact ⟨rfl, rfl, rfl⟩
  | update =>
    obtain ⟨row, rfl⟩ := Option.isSome_iff_exists.mp he.hasAfter.symm
    obtain rfl := Option.some.inj h
    exact ⟨rfl, rfl, rfl⟩

lemma exists_imageOf (h : e.image.isSome) : ∃ kept, imageOf e = some kept := by
  obtain ⟨position, tableId, kind, before, after, timestampMs⟩ := e
  cases kind with
  | delete => cases h
  | insert => exact ⟨_, rfl⟩
  | update => exact ⟨_, rfl⟩

lemma filed_eq_image (he : (es.filter (ChangeEvent.names column key)).getLast? = some e) :
    filed column es key = e.image := by
  rw [filed, lastRow_eq, he]
  rfl

/-- What is given out under a key stands for the change that was filed there last. -/
lemma given_of_last (hes : ∀ e ∈ es, e.Imaged) {w : Offset} {given : ChangeEvent}
    (hgiven : (((es.filter (ChangeEvent.names column key)).getLast?.bind imageOf).map
      fun e => { e with position := w }) = some given) :
    given.keyText? column = some key ∧ given.after = filed column es key ∧
      ∃ e ∈ es, e.keyText? column = some key ∧
        given = { e with position := w, kind := .insert, before := none } := by
  obtain ⟨kept, hlast, rfl⟩ := Option.map_eq_some_iff.mp hgiven
  obtain ⟨e, he, hkept⟩ := Option.bind_eq_some_iff.mp hlast
  obtain ⟨hmem, hnames⟩ := List.mem_filter.mp (List.mem_of_getLast? he)
  rw [ChangeEvent.names, decide_eq_true_eq] at hnames
  obtain ⟨rfl, himage, hkey⟩ := imageOf_eq_some column (hes e hmem) hkept
  exact ⟨hkey.trans hnames, himage.symm.trans (filed_eq_image he).symm, e, hmem, hnames, rfl⟩

variable {tableId : TableId} {within : String → Prop}

lemma Files.once (h : Files n.keyColumn n.slots es) (hes : ∀ e ∈ es, e.Imaged) (w : Offset) :
    (n.finish w).Pairwise fun e e' => e.keyText? n.keyColumn ≠ e'.keyText? n.keyColumn := by
  rw [h.finish]
  refine List.Pairwise.filterMap _ ?_ h.nodup
  intro key key' hne given hgiven given' hgiven' heq
  rw [(given_of_last hes hgiven).1, (given_of_last hes hgiven').1] at heq
  exact hne (Option.some.inj heq)

/-- What is given out is one insert for each row that a copy made of the changes has, as of the
watermark. -/
lemma Files.delivers (h : Files n.keyColumn n.slots es) (hes : ∀ e ∈ es, e.Imaged)
    (htable : ∀ e ∈ es, e.tableId = tableId)
    (hwithin : ∀ e ∈ es, ∀ key, e.keyText? n.keyColumn = some key → within key) (w : Offset) :
    Delivers tableId n.keyColumn within (filed n.keyColumn es) w (n.finish w) where
  once := h.once hes w
  inserts given hgiven := by
    rw [h.finish] at hgiven
    obtain ⟨key, -, hgiven⟩ := List.mem_filterMap.mp hgiven
    obtain ⟨-, -, e, he, -, rfl⟩ := given_of_last hes hgiven
    exact ⟨htable e he, rfl, rfl, rfl⟩
  placed given hgiven := by
    rw [h.finish] at hgiven
    obtain ⟨key, -, hgiven⟩ := List.mem_filterMap.mp hgiven
    obtain ⟨hkey, hafter, e, he, hnames, -⟩ := given_of_last hes hgiven
    exact ⟨key, hwithin e he key hnames, hkey, hafter⟩
  complete key _ hsome := by
    cases hlast : (es.filter (ChangeEvent.names n.keyColumn key)).getLast? with
    | none => simp [filed, lastRow_eq, hlast] at hsome
    | some e =>
      rw [filed_eq_image hlast] at hsome
      obtain ⟨kept, hkept⟩ := exists_imageOf hsome
      obtain ⟨hmem, hnames⟩ := List.mem_filter.mp (List.mem_of_getLast? hlast)
      rw [ChangeEvent.names, decide_eq_true_eq] at hnames
      have hgiven : (((es.filter (ChangeEvent.names n.keyColumn key)).getLast?.bind imageOf).map
          fun e => { e with position := w }) = some { kept with position := w } := by
        rw [hlast, Option.bind_some, hkept, Option.map_some]
      refine ⟨{ kept with position := w }, ?_, (given_of_last hes hgiven).1⟩
      rw [h.finish]
      exact List.mem_filterMap.mpr ⟨key, mem_keysOf_iff.mpr ⟨e, hmem, hnames⟩, hgiven⟩

end Normalizer
end Changefeed
