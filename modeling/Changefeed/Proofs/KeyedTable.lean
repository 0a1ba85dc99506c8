import Changefeed.Proofs.Fetch.Replaying
import Changefeed.Proofs.KeyedRows

/-!
# A table with any keys, and the records that a replay passes over

The positions of a log need not tell its records apart: the changes of one transaction may share
one.  A replay up to a position ends with the first record that has reached it, so the records up to
that position are those that are replayed and, behind them, those that stand at the position too and
are passed over.

A row that was taken at some point of the log between two positions catches up with the second one
by all changes between them.  By those that are replayed alone it catches up as long as none of the
others touches it, and as a copy it does unless the last one that touches it takes the row away.
-/

namespace Changefeed

/-! ## Records that share a position -/

/-- The records up to a position that a replay passes over: those behind the first one that has
reached it. -/
def passedOver (high : Offset) : List LogRecord → List LogRecord
  | [] => []
  | r :: rest =>
    if r.position.after high then []
    else if r.position.reached high then upTo rest high
    else passedOver high rest

namespace Rising

variable {records : List LogRecord} {high : Offset}

/-- The records up to a position are those that are replayed and those that are passed over. -/
lemma upTo_eq_append (h : Rising records) (hhigh : high.Normal) :
    upTo records high = replayedRecords high records ++ passedOver high records := by
  induction records with
  | nil => rfl
  | cons r records ih =>
    rw [replayedRecords, passedOver]
    by_cases hafter : r.position.after high = true
    · rw [if_pos hafter, if_pos hafter]
      refine List.filter_eq_nil_iff.mpr fun x hx => ?_
      rcases List.mem_cons.mp hx with rfl | hx
      · simp [hafter]
      · simp [h.after_of_after hhigh hafter x hx]
    · have hwithin : upTo (r :: records) high = r :: upTo records high :=
        List.filter_cons_of_pos (by simp [hafter])
      rw [if_neg hafter, if_neg hafter, hwithin]
      split
      · rfl
      · rw [ih (h.sublist (List.sublist_cons_self ..))]
        rfl

/-- What is passed over stands at the position itself. -/
lemma position_of_mem_passedOver (h : Rising records) (hhigh : high.Normal) {x : LogRecord}
    (hx : x ∈ passedOver high records) : x.position = high := by
  induction records with
  | nil => cases hx
  | cons r records ih =>
    rw [passedOver] at hx
    split at hx
    · cases hx
    · split at hx
      · next hat =>
        obtain ⟨hmem, hnot⟩ := mem_upTo.mp hx
        have hreached := Offset.reached_trans (h.normal x (.tail _ hmem)) (h.normal r (.head _))
          hhigh ((List.pairwise_cons.mp h.rising).1 x hmem) hat
        refine (Offset.reached_iff.mp hreached).resolve_right ?_
        simp [hnot]
      · exact ih (h.sublist (List.sublist_cons_self ..)) hx

end Rising

/-! ## The table -/

/-- A table whose rows are told apart by the text of their key, and the log of its database. -/
structure KeyedTable where
  /-- The only layout of the table. -/
  layout : SchemaRecord
  keyColumn : String
  /-- The values that a key can be. -/
  keys : Json.Value → Prop
  /-- The rows before the log by the text of their key. -/
  rows : String → Option Json.Object
  log : List LogRecord

namespace KeyedTable

variable {T : KeyedTable} {r : LogRecord} {e : ChangeEvent} {key : String} {low high : Offset}

/-- The table's name. -/
def tableId (T : KeyedTable) : TableId := T.layout.tableId

/-- The events of the table among some records. -/
def events (T : KeyedTable) (records : List LogRecord) : List ChangeEvent :=
  T.layout.events records

/-- The table behind some records of its log. -/
def behind (T : KeyedTable) (records : List LogRecord) (key : String) : Option Json.Object :=
  rowBehind T.keyColumn key (T.rows key) (T.events records)

/-- The table as of a position. -/
def asOf (T : KeyedTable) (o : Offset) : String → Option Json.Object := T.behind (upTo T.log o)

/-- The row has a key. -/
def HasKey (T : KeyedTable) (row : Json.Object) : Prop :=
  ∃ v, row.find? T.keyColumn = some v ∧ T.keys v

/-- What can be relied on: the table has its key column, keys are not null and different ones are
written differently, positions do not descend, the layout was recorded before the log and does not
change, and every change of the table has images that fit the layout and have keys. -/
structure Regular (T : KeyedTable) : Prop where
  keyed : (T.layout.column? T.keyColumn).isSome
  notNull : ¬ T.keys .null
  told : ∀ v v', T.keys v → T.keys v' → v.compact = v'.compact → v = v'
  rising : Rising T.log
  recorded : ∀ r ∈ T.log, r.position.reached T.layout.position = true
  stable : ∀ r, .schemaChange r ∈ T.log → r.tableId ≠ T.tableId
  readable : ∀ c, .change c ∈ T.log → c.tableId = T.tableId →
    ∃ e, c.decodeWith T.layout = .ok e ∧
      ∀ row, e.before = some row ∨ e.after = some row → T.HasKey row

/-- The key belongs to a split. -/
def Within (T : KeyedTable) (s : SnapshotSplit) (key : String) : Prop :=
  ∃ v, T.keys v ∧ v.compact = key ∧ s.keyRange.contains v = true

/-- The row of a key at some point of the log between two positions: all changes up to the first one
come before the point, and none behind the second one does. -/
def Between (T : KeyedTable) (low high : Offset) (key : String) (row : Option Json.Object) : Prop :=
  ∃ past future, T.log = past ++ future ∧ (∀ r ∈ past, r.position.after high = false) ∧
    (∀ r ∈ future, r.position.after low = true) ∧ T.behind past key = row

/-- The changes that a replay between two positions takes. -/
def replayed (T : KeyedTable) (low high : Offset) : List ChangeEvent :=
  T.events (replayedRecords high (recordsAfter T.log low))

/-- The changes between two positions that a replay passes over. -/
def missed (T : KeyedTable) (low high : Offset) : List ChangeEvent :=
  T.events (passedOver high (recordsAfter T.log low))

/-! ## Events -/

lemma events_append (T : KeyedTable) (records more : List LogRecord) :
    T.events (records ++ more) = T.events records ++ T.events more :=
  T.layout.events_append records more

lemma imaged_of_mem {records : List LogRecord} (he : e ∈ T.events records) :
    e.Imaged ∧ e.tableId = T.tableId := by
  obtain ⟨r, -, he⟩ := SchemaRecord.mem_events.mp he
  obtain ⟨c, -, -, hread⟩ := SchemaRecord.event?_eq_some he
  exact ⟨⟨hread.images.1, hread.images.2⟩, (SchemaRecord.event?_place he).1⟩

lemma Regular.keyText?_eq (hT : T.Regular) {v : Json.Value} (hv : T.keys v)
    (he : e.keyValue T.keyColumn = some v) : e.keyText? T.keyColumn = some v.compact := by
  rw [ChangeEvent.keyValue] at he
  obtain ⟨row, hrow, hfind⟩ := Option.bind_eq_some_iff.mp he
  rw [ChangeEvent.keyText?, hrow, Option.bind_some, keyText?, hfind]
  cases v with
  | null => exact absurd hv hT.notNull
  | _ => rfl

lemma Regular.exists_key (hT : T.Regular) {records : List LogRecord} (hsub : records ⊆ T.log)
    (he : e ∈ T.events records) : ∃ v, e.keyValue T.keyColumn = some v ∧ T.keys v := by
  have himaged := (imaged_of_mem he).1
  obtain ⟨r, hr, he⟩ := SchemaRecord.mem_events.mp he
  obtain ⟨c, rfl, hdecode, hread⟩ := SchemaRecord.event?_eq_some he
  obtain ⟨e', hdecode', hkeys⟩ := hT.readable c (hsub hr) hread.table.symm
  obtain rfl := Except.ok.inj (hdecode'.symm.trans hdecode)
  obtain ⟨row, hrow, himage⟩ := himaged.exists_row
  obtain ⟨v, hfind, hv⟩ := hkeys row himage
  exact ⟨v, by rw [ChangeEvent.keyValue, hrow]; exact hfind, hv⟩

lemma replayedRecords_subset (T : KeyedTable) (low high : Offset) :
    replayedRecords high (recordsAfter T.log low) ⊆ T.log := fun _ hr =>
  (mem_recordsAfter.mp ((replayedRecords_sublist high _).subset hr)).1

/-! ## Catching up -/

/-- A row that was taken between two positions catches up with the second one by the changes
between them. -/
lemma Regular.catch_up (hT : T.Regular) (hlow : low.Normal) {row : Option Json.Object}
    (hrow : T.Between low high key row) :
    rowBehind T.keyColumn key row (T.events (upTo (recordsAfter T.log low) high)) =
      T.asOf high key := by
  obtain ⟨past, future, hlog, hpast, hfuture, rfl⟩ := hrow
  have hrising : Rising past := hT.rising.sublist (hlog ▸ List.sublist_append_left ..)
  obtain ⟨hupTo, hsince⟩ := upTo_of_cut hpast hfuture
  rw [← hlog] at hupTo hsince
  have hcut : T.events past = T.events (upTo past low) ++ T.events (recordsAfter past low) := by
    rw [← events_append, hrising.upTo_append_recordsAfter hlow]
  -- The changes of the past that are applied again change nothing.
  have hagain : rowBehind T.keyColumn key (T.behind past key) (T.events (recordsAfter past low)) =
      T.behind past key := by
    rw [behind, hcut, rowBehind_append, rowBehind_again]
  rw [hsince, events_append, rowBehind_append, hagain, asOf, hupTo, behind, behind, events_append,
    rowBehind_append]

/-- By the changes that a replay takes, a copy catches up where it passes none over that touches the
row, unless the last one takes the row away and the copy still shows one.  Where it passes some
over, the row is what these leave. -/
lemma Regular.filed_eq_asOf_iff (hT : T.Regular) (hlow : low.Normal) (hhigh : high.Normal)
    {scan : List ChangeEvent} (hscan : T.Between low high key (filed T.keyColumn scan key)) :
    filed T.keyColumn (scan ++ T.replayed low high) key = T.asOf high key ↔
      ((∀ e ∈ T.missed low high, e.touches T.keyColumn key = false) →
        MovedAway T.keyColumn key (T.replayed low high) →
          filed T.keyColumn (scan ++ T.replayed low high) key = none) ∧
      ((∃ e ∈ T.missed low high, e.touches T.keyColumn key = true) →
        filed T.keyColumn (scan ++ T.replayed low high) key =
          rowBehind T.keyColumn key none (T.missed low high)) := by
  have hrising : Rising (recordsAfter T.log low) := hT.rising.sublist List.filter_sublist
  have hcaught := hT.catch_up hlow hscan
  rw [hrising.upTo_eq_append hhigh, events_append] at hcaught
  change rowBehind _ _ _ (T.replayed low high ++ T.missed low high) = _ at hcaught
  rw [← hcaught, rowBehind_append]
  by_cases hmissed : ∃ e ∈ T.missed low high, e.touches T.keyColumn key = true
  · rw [rowBehind_of_touched hmissed _ none]
    constructor
    · intro h
      refine ⟨fun hnone => ?_, fun _ => h⟩
      obtain ⟨e, he, htouches⟩ := hmissed
      rw [hnone e he] at htouches
      contradiction
    · exact fun h => h.2 hmissed
  · have hnone : ∀ e ∈ T.missed low high, e.touches T.keyColumn key = false := fun e he =>
      Bool.eq_false_iff.mpr fun h => hmissed ⟨e, he, h⟩
    have himaged : ∀ e ∈ T.replayed low high, e.Imaged := fun e he => (imaged_of_mem he).1
    rw [rowBehind_of_untouched hnone, filed_eq_rowBehind_iff himaged]
    exact ⟨fun h => ⟨fun _ => h, fun h' => absurd h' hmissed⟩, fun h => h.1 hnone⟩

end KeyedTable
end Changefeed
