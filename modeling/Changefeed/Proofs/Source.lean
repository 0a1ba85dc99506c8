import Changefeed.Proofs.Fetch.Evolution
import Changefeed.Proofs.Rows

/-!
# A table and its log

A table evolves with the changes of the log, and at a position it is what the records up to there
have made of it.  Whoever has a row as it was at some point of the log can catch up: all changes of
the row since a position before that point are applied to it, those that it has already among them,
and the row is then the one at the position where the changes end.
-/

namespace Changefeed

/-- A table whose key column holds integers, and the log of its database. -/
structure Source where
  /-- The only layout of the table. -/
  layout : SchemaRecord
  keyColumn : String
  /-- The integers that a key can be. -/
  keys : Int → Prop
  /-- The rows before the log. -/
  rows : Rows
  log : List LogRecord
  /-- The positions of the database: those of the log and those that it answers when it is asked. -/
  timeline : Offset → Prop

/-- The records that do not lie behind a position. -/
def upTo (records : List LogRecord) (o : Offset) : List LogRecord :=
  records.filter fun r => !r.position.after o

lemma mem_upTo {records : List LogRecord} {o : Offset} {r : LogRecord} :
    r ∈ upTo records o ↔ r ∈ records ∧ r.position.after o = false := by
  simp [upTo]

/-- Where a log is cut at a point between two positions, all that comes before the point is up to
the second one, and all that comes after it is behind the first one. -/
lemma upTo_of_cut {past future : List LogRecord} {low o : Offset}
    (hpast : ∀ r ∈ past, r.position.after o = false)
    (hfuture : ∀ r ∈ future, r.position.after low = true) :
    upTo (past ++ future) o = past ++ upTo future o ∧
      upTo (recordsAfter (past ++ future) low) o = recordsAfter past low ++ upTo future o := by
  have hwhole : ∀ records ⊆ past, upTo records o = records := fun records hsub =>
    List.filter_eq_self.mpr fun r hr => by simp [hpast r (hsub hr)]
  have hbehind : recordsAfter future low = future := List.filter_eq_self.mpr hfuture
  have hsub : recordsAfter past low ⊆ past := List.filter_sublist.subset
  constructor
  · rw [upTo, List.filter_append, ← upTo, hwhole past (List.Subset.refl past), ← upTo]
  · rw [recordsAfter, List.filter_append, ← recordsAfter, ← recordsAfter, hbehind, upTo,
      List.filter_append, ← upTo, ← upTo, hwhole _ hsub]

lemma Ordered.upTo_eq_nil {r : LogRecord} {records : List LogRecord} {o : Offset}
    (h : Ordered (r :: records)) (ho : o.Normal) (hat : r.position.reached o = true) :
    upTo records o = [] := by
  refine List.filter_eq_nil_iff.mpr fun x hx => ?_
  have hnormal := h.normal x (.tail _ hx)
  have hbefore := (List.pairwise_cons.mp h.ascending).1 x hx
  have hafter : x.position.after o = true :=
    (Offset.after_iff_before ho hnormal).mpr
      (Offset.before_of_reached ho (h.normal r (.head _)) hnormal hat hbefore)
  simp [hafter]

/-- Positions in normal form that do not descend; several records may share one. -/
structure Rising (log : List LogRecord) : Prop where
  normal : ∀ r ∈ log, r.position.Normal
  rising : log.Pairwise fun a b => b.position.reached a.position = true

lemma Ordered.toRising {log : List LogRecord} (h : Ordered log) : Rising log where
  normal := h.normal
  rising := by
    refine h.ascending.imp_of_mem fun ha hb hab => ?_
    have hafter := (Offset.after_iff_before (h.normal _ ha) (h.normal _ hb)).mpr hab
    exact Offset.reached_iff.mpr (.inr hafter)

namespace Rising

variable {log : List LogRecord} {o : Offset}

lemma sublist {log' : List LogRecord} (h : Rising log) (hsub : log'.Sublist log) : Rising log' :=
  ⟨fun r hr => h.normal r (hsub.subset hr), h.rising.sublist hsub⟩

lemma after_of_after {r : LogRecord} (h : Rising (r :: log)) (ho : o.Normal)
    (hr : r.position.after o = true) : ∀ x ∈ log, x.position.after o = true := fun x hx =>
  Offset.after_of_reached (h.normal r (.head _)) (h.normal x (.tail _ hx)) ho
    ((List.pairwise_cons.mp h.rising).1 x hx) hr

/-- A log is cut in two at every position. -/
lemma upTo_append_recordsAfter (h : Rising log) (ho : o.Normal) :
    upTo log o ++ recordsAfter log o = log := by
  induction log with
  | nil => rfl
  | cons r log ih =>
    have hrest := ih (h.sublist (List.sublist_cons_self ..))
    unfold upTo recordsAfter at hrest ⊢
    cases hr : r.position.after o with
    | false => simp [hr, hrest]
    | true =>
      -- From here on every record lies behind the position.
      have hall := h.after_of_after ho hr
      have hnone : log.filter (fun x => !x.position.after o) = [] :=
        List.filter_eq_nil_iff.mpr fun x hx => by simp [hall x hx]
      have hself : log.filter (fun x => x.position.after o) = log :=
        List.filter_eq_self.mpr hall
      simp [hr, hnone, hself]

end Rising

/-- The event that a record amounts to. -/
def Dispatched.event? : Dispatched → Option ChangeEvent
  | .event e => some e
  | .schemaChanged _ | .heartbeat _ | .skipped => none

/-! ## Records read with one layout -/

/-- The event of a record that is read with a layout. -/
def SchemaRecord.event? (layout : SchemaRecord) : LogRecord → Option ChangeEvent
  | .change c => (c.decodeWith layout).toOption
  | .schemaChange _ | .heartbeat _ => none

/-- The events of some records that are read with a layout. -/
def SchemaRecord.events (layout : SchemaRecord) (records : List LogRecord) : List ChangeEvent :=
  records.filterMap layout.event?

section Layout

variable {layout : SchemaRecord} {records : List LogRecord} {r : LogRecord} {e : ChangeEvent}
  {h : SchemaHistory}

lemma SchemaRecord.events_append (layout : SchemaRecord) (records more : List LogRecord) :
    layout.events (records ++ more) = layout.events records ++ layout.events more :=
  List.filterMap_append

lemma SchemaRecord.events_cons (layout : SchemaRecord) (r : LogRecord)
    (records : List LogRecord) :
    layout.events (r :: records) = (layout.event? r).toList ++ layout.events records := by
  rw [events, List.filterMap_cons]
  cases layout.event? r <;> rfl

lemma SchemaRecord.mem_events :
    e ∈ layout.events records ↔ ∃ r ∈ records, layout.event? r = some e :=
  List.mem_filterMap

/-- The event of a record is one of a row that is read with the layout. -/
lemma SchemaRecord.event?_eq_some (h : layout.event? r = some e) :
    ∃ c, r = .change c ∧ c.decodeWith layout = .ok e ∧ ReadAs layout c e := by
  cases r with
  | schemaChange r => cases h
  | heartbeat position => cases h
  | change c =>
    have h : (c.decodeWith layout).toOption = some e := h
    cases hdecode : c.decodeWith layout with
    | error f =>
      rw [hdecode] at h
      cases h
    | ok e' =>
      rw [hdecode] at h
      obtain rfl : e' = e := Option.some.inj h
      exact ⟨c, rfl, hdecode, readAs_of_decodeWith hdecode⟩

lemma SchemaRecord.event?_place (h : layout.event? r = some e) :
    e.tableId = layout.tableId ∧ e.position = r.position := by
  obtain ⟨c, rfl, -, hread⟩ := event?_eq_some h
  rw [hread.event]
  exact ⟨hread.table.symm, rfl⟩

lemma Dispatcher.decode_only (hh : h.records layout.tableId = [layout]) {c : RowChange}
    (htable : c.tableId = layout.tableId) (hreached : c.position.reached layout.position = true) :
    decode h c = c.decodeWith layout := by
  have hschema : h.schemaAt? layout.tableId c.position = some layout :=
    SchemaHistory.schemaAt?_of_last (hh.trans (List.nil_append _).symm) hreached
  rw [decode, SchemaHistory.schemaAt, htable, hschema]

/-- A record is dispatched to its event, if it has one, and changes nothing, where changes of the
table are read with one layout and the table is not changed. -/
lemma Dispatcher.dispatch_only
    (hread : ∀ c, r = .change c → c.tableId = layout.tableId →
      ∃ e, c.decodeWith layout = .ok e ∧ decode h c = .ok e)
    (hstable : ∀ s, r = .schemaChange s → s.tableId ≠ layout.tableId) :
    ∃ d, dispatch ⟨[layout.tableId]⟩ h r = .ok (d, h) ∧ (∀ t, d ≠ .schemaChanged t) ∧
      d.event? = layout.event? r := by
  have hcaptures : ∀ t, captures ⟨[layout.tableId]⟩ t = decide (t = layout.tableId) := by
    simp [captures]
  cases r with
  | change c =>
    simp only [dispatch, hcaptures, decide_eq_true_eq]
    by_cases htable : c.tableId = layout.tableId
    · obtain ⟨e, hdecode, hread⟩ := hread c rfl htable
      refine ⟨.event e, ?_, by simp, ?_⟩
      · rw [if_pos htable, hread]
        rfl
      · rw [SchemaRecord.event?, hdecode]
        rfl
    · refine ⟨.skipped, if_neg htable, by simp, ?_⟩
      cases he : layout.event? (.change c) with
      | none => rfl
      | some e =>
        obtain ⟨c', hc', -, hread⟩ := SchemaRecord.event?_eq_some he
        obtain rfl := LogRecord.change.inj hc'
        exact absurd hread.table.symm htable
  | schemaChange s =>
    refine ⟨.skipped, ?_, by simp, rfl⟩
    simp [dispatch, hcaptures, hstable s rfl]
  | heartbeat position => exact ⟨.heartbeat position, rfl, by simp, rfl⟩

end Layout

namespace Source

variable {src : Source} {records : List LogRecord} {r : LogRecord} {e : ChangeEvent} {k : Int}

/-- The table. -/
def tableId (src : Source) : TableId := src.layout.tableId

/-- The events of the table among some records. -/
def events (src : Source) (records : List LogRecord) : List ChangeEvent :=
  src.layout.events records

/-- The table behind some records of its log. -/
def behind (src : Source) (records : List LogRecord) : Rows :=
  (src.events records).foldl (Rows.evolve src.keyColumn) src.rows

/-- The table as of a position. -/
def asOf (src : Source) (o : Offset) : Rows := src.behind (upTo src.log o)

/-- What can be relied on: something can be a key, the table has its key column, positions ascend
and stand in some order to one another, the layout was recorded before the log and does not change,
and every change of the table has images that fit the layout, a key that can be one, and leaves its
row under that key. -/
structure Regular (src : Source) : Prop where
  inhabited : ∃ k, src.keys k
  keyed : (src.layout.column? src.keyColumn).isSome
  ordered : Ordered src.log
  logged : ∀ r ∈ src.log, src.timeline r.position
  normal : ∀ o, src.timeline o → o.Normal
  comparable : ∀ o o', src.timeline o → src.timeline o' → o.Comparable o'
  recorded : ∀ r ∈ src.log, r.position.reached src.layout.position = true
  stable : ∀ r, .schemaChange r ∈ src.log → r.tableId ≠ src.tableId
  readable : ∀ c, .change c ∈ src.log → c.tableId = src.tableId →
    ∃ e k, c.decodeWith src.layout = .ok e ∧ e.intKey? src.keyColumn = some k ∧ src.keys k ∧
      e.KeepsKey src.keyColumn
  populated : ∀ k, ¬ src.keys k → src.rows k = none

/-! ## Events -/

lemma events_append (src : Source) (records more : List LogRecord) :
    src.events (records ++ more) = src.events records ++ src.events more :=
  src.layout.events_append records more

lemma keyed_of_event? (h : src.layout.event? r = some e) (hkey : e.intKey? src.keyColumn = some k) :
    e.Keyed src.keyColumn k := by
  obtain ⟨c, -, -, hread⟩ := SchemaRecord.event?_eq_some h
  exact ⟨hread.images.1, hread.images.2, hkey⟩

namespace Regular

lemma keyed_event (hsrc : src.Regular) (hr : r ∈ src.log) (h : src.layout.event? r = some e) :
    ∃ k, e.Keyed src.keyColumn k ∧ src.keys k ∧ e.KeepsKey src.keyColumn := by
  obtain ⟨c, rfl, hdecode, hread⟩ := SchemaRecord.event?_eq_some h
  obtain ⟨e', k, hdecode', hkey, hk, hkeeps⟩ := hsrc.readable c hr hread.table.symm
  obtain rfl := Except.ok.inj (hdecode'.symm.trans hdecode)
  exact ⟨k, keyed_of_event? h hkey, hk, hkeeps⟩

lemma decode_eq (hsrc : src.Regular) {h : SchemaHistory}
    (hh : h.records src.tableId = [src.layout]) {c : RowChange} (hc : .change c ∈ src.log)
    (htable : c.tableId = src.tableId) :
    Dispatcher.decode h c = c.decodeWith src.layout :=
  Dispatcher.decode_only hh htable (hsrc.recorded _ hc)

/-- A record of the log is dispatched to its event, if it has one, and changes nothing, where a
change of the table is read with its layout. -/
lemma dispatch_eq (hsrc : src.Regular) {h : SchemaHistory} (hr : r ∈ src.log)
    (hdecode : ∀ c, r = .change c → c.tableId = src.tableId →
      Dispatcher.decode h c = c.decodeWith src.layout) :
    ∃ d, Dispatcher.dispatch ⟨[src.tableId]⟩ h r = .ok (d, h) ∧ (∀ t, d ≠ .schemaChanged t) ∧
      d.event? = src.layout.event? r := by
  have hread : ∀ c, r = .change c → c.tableId = src.tableId →
      ∃ e, c.decodeWith src.layout = .ok e ∧ Dispatcher.decode h c = .ok e := by
    intro c hc htable
    obtain ⟨e, k, hread, -⟩ := hsrc.readable c (hc ▸ hr) htable
    exact ⟨e, hread, (hdecode c hc htable).trans hread⟩
  exact Dispatcher.dispatch_only hread fun s hs => hsrc.stable s (hs ▸ hr)

lemma behind_eq_applyAll (hsrc : src.Regular) (hrecords : records ⊆ src.log) :
    src.behind records = src.rows.applyAll src.keyColumn (src.events records) := by
  refine Rows.foldl_evolve fun e he => ?_
  obtain ⟨r, hr, he⟩ := SchemaRecord.mem_events.mp he
  obtain ⟨k, hkeyed, -, hkeeps⟩ := hsrc.keyed_event (hrecords hr) he
  exact ⟨k, hkeyed, hkeeps⟩

lemma asOf_of_not_key (hsrc : src.Regular) (hk : ¬ src.keys k) (o : Offset) :
    src.asOf o k = none := by
  have hlog : upTo src.log o ⊆ src.log := fun r hr => (mem_upTo.mp hr).1
  rw [asOf, hsrc.behind_eq_applyAll hlog, ← hsrc.populated k hk]
  refine Rows.applyAll_untouched fun e he hkey => ?_
  obtain ⟨r, hr, he⟩ := SchemaRecord.mem_events.mp he
  obtain ⟨k', hkeyed, hk', -⟩ := hsrc.keyed_event (hlog hr) he
  exact hk (Option.some.inj (hkeyed.key.symm.trans hkey) ▸ hk')

end Regular

/-! ## What a history has of the table -/

/-- The history has nothing but the table's layout, wherever it counts from. -/
def Knows (src : Source) (h : SchemaHistory) : Prop :=
  ∀ t, ∀ r ∈ h.records t, r.tableId = src.tableId ∧ r.columns = src.layout.columns

lemma knows_empty (src : Source) : src.Knows .empty := by simp [Knows]

namespace Knows

variable {h : SchemaHistory} {ref : SchemaRecord}

lemma append (hknows : src.Knows h) (htable : ref.tableId = src.tableId)
    (hcolumns : ref.columns = src.layout.columns) : src.Knows (h.append ref) := by
  intro t r hr
  rcases SchemaHistory.mem_records_append hr with hr | ⟨rfl, -⟩
  · exact hknows t r hr
  · exact ⟨htable, hcolumns⟩

lemma reads (hknows : src.Knows h) : StreamJob.Reads h fun _ => some src.layout := by
  intro t position schema hschema
  obtain ⟨hmem, -⟩ := SchemaHistory.schemaAt?_some hschema
  obtain ⟨htable, hcolumns⟩ := hknows t schema hmem
  exact ⟨src.layout, rfl, htable.symm, hcolumns.symm⟩

lemma decode_append (hknows : src.Knows h) (htable : ref.tableId = src.tableId)
    (hcolumns : ref.columns = src.layout.columns) {c : RowChange} (hc : c.tableId = src.tableId)
    (hreached : c.position.reached ref.position = true) :
    Dispatcher.decode (h.append ref) c = c.decodeWith src.layout := by
  obtain ⟨x, hx⟩ := h.schemaAt?_append hreached
  obtain ⟨hmem, -⟩ := SchemaHistory.schemaAt?_some hx
  obtain ⟨htable', hcolumns'⟩ := hknows.append htable hcolumns _ x hmem
  rw [htable, ← hc] at hx
  rw [Dispatcher.decode, SchemaHistory.schemaAt, hx]
  exact decodeWith_congr htable' hcolumns' c

end Knows

/-! ## Catching up -/

/-- The row of a key at some point of the log between two positions: what comes before the point
does not lie behind the second one, and what comes after it lies behind the first one. -/
def Between (src : Source) (low high : Offset) (k : Int) (row : Option Json.Object) : Prop :=
  ∃ past future, src.log = past ++ future ∧ (∀ r ∈ past, r.position.after high = false) ∧
    (∀ r ∈ future, r.position.after low = true) ∧ src.behind past k = row

lemma Regular.between_asOf (hsrc : src.Regular) {o : Offset} (ho : o.Normal) (k : Int) :
    src.Between o o k (src.asOf o k) :=
  ⟨upTo src.log o, recordsAfter src.log o, (hsrc.ordered.toRising.upTo_append_recordsAfter ho).symm,
    fun _ hr => (mem_upTo.mp hr).2, fun _ hr => (mem_recordsAfter.mp hr).2, rfl⟩

/-- A row that was taken between two positions catches up by the changes behind the first one, up
to any position that the second one does not lie behind. -/
lemma Regular.catch_up (hsrc : src.Regular) {low high o : Offset} (hlow : low.Normal)
    (hhigh : high.Normal) (ho : o.Normal) (hreached : o.reached high = true) {rows : Rows}
    (h : src.Between low high k (rows k)) :
    rows.applyAll src.keyColumn (src.events (upTo (recordsAfter src.log low) o)) k =
      src.asOf o k := by
  obtain ⟨past, future, hlog, hpast, hfuture, hrow⟩ := h
  have hsub : past ⊆ src.log := fun r hr => hlog ▸ List.mem_append_left _ hr
  have hordered : Ordered past := hsrc.ordered.sublist (hlog ▸ List.sublist_append_left ..)
  have hwithin : ∀ r ∈ past, r.position.after o = false := by
    intro r hr
    have hnormal := hsrc.ordered.normal r (hsub hr)
    by_contra hafter
    rw [Bool.not_eq_false, Offset.after_iff_before ho hnormal] at hafter
    have hbehind : r.position.after high = true :=
      (Offset.after_iff_before hhigh hnormal).mpr
        (Offset.before_of_reached hhigh ho hnormal hreached hafter)
    simp [hpast r hr] at hbehind
  obtain ⟨hupTo, hsince⟩ := upTo_of_cut hwithin hfuture
  rw [← hlog] at hupTo hsince
  -- The changes of the past that are applied again change nothing.
  have hagain : (src.behind past).applyAll src.keyColumn (src.events (recordsAfter past low)) =
      src.behind past := by
    have hevents : src.events past =
        src.events (upTo past low) ++ src.events (recordsAfter past low) := by
      rw [← events_append, hordered.toRising.upTo_append_recordsAfter hlow]
    rw [hsrc.behind_eq_applyAll hsub, hevents, Rows.applyAll_append, Rows.applyAll_again]
  have hlogged : past ++ upTo future o ⊆ src.log := by
    rw [← hupTo]
    exact fun r hr => (mem_upTo.mp hr).1
  calc rows.applyAll src.keyColumn (src.events (upTo (recordsAfter src.log low) o)) k
      = (src.behind past).applyAll src.keyColumn
          (src.events (upTo (recordsAfter src.log low) o)) k :=
        Rows.applyAll_congr hrow.symm
    _ = (src.behind past).applyAll src.keyColumn (src.events (upTo future o)) k := by
        rw [hsince, events_append, Rows.applyAll_append, hagain]
    _ = src.asOf o k := by
        rw [asOf, hupTo, hsrc.behind_eq_applyAll hsub, hsrc.behind_eq_applyAll hlogged,
          events_append, Rows.applyAll_append]

end Source
end Changefeed
