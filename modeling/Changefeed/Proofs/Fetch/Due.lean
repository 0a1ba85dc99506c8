import Changefeed.Proofs.Fetch.Streaming
import Changefeed.Proofs.Offset

/-!
# What is due from a position on

In a log whose positions ascend, the records after a position are a final part of the log, and the
records after one of those are a final part of that.  The events that are *due* from a position on
therefore begin with those that a stream from there has made so far, and go on with those that are
due from the last of its records on.  This is why a stream can be stopped at any record and another
one opened there.
-/

namespace Changefeed

/-- Positions in normal form that ascend. -/
structure Ordered (log : List LogRecord) : Prop where
  normal : ∀ r ∈ log, r.position.Normal
  ascending : log.Pairwise fun a b => a.position.before b.position = true

/-- The records of a log strictly after a position. -/
def recordsAfter (log : List LogRecord) (o : Offset) : List LogRecord :=
  log.filter fun r => r.position.after o

lemma mem_recordsAfter {log : List LogRecord} {o : Offset} {r : LogRecord} :
    r ∈ recordsAfter log o ↔ r ∈ log ∧ r.position.after o = true :=
  List.mem_filter

namespace Ordered

variable {log : List LogRecord} {o : Offset}

lemma sublist {log' : List LogRecord} (h : Ordered log) (hsub : log'.Sublist log) :
    Ordered log' :=
  ⟨fun r hr => h.normal r (hsub.subset hr), h.ascending.sublist hsub⟩

lemma ordered_after (h : Ordered log) (o : Offset) : Ordered (recordsAfter log o) :=
  h.sublist List.filter_sublist

/-- The records after one of them are those behind it. -/
lemma recordsAfter_record {before rest : List LogRecord} {r : LogRecord}
    (h : Ordered (before ++ r :: rest)) :
    recordsAfter (before ++ r :: rest) r.position = rest := by
  obtain ⟨-, hrest, hbefore⟩ := List.pairwise_append.mp h.ascending
  have hr : r.position.Normal := h.normal r (by simp)
  have hnone : recordsAfter before r.position = [] :=
    List.filter_eq_nil_iff.mpr fun x hx => by
      simpa using Offset.not_after_of_before (hbefore x hx r (.head _))
  have hall : recordsAfter rest r.position = rest :=
    List.filter_eq_self.mpr fun x hx =>
      (Offset.after_iff_before hr (h.normal x (by simp [hx]))).mpr
        ((List.pairwise_cons.mp hrest).1 x hx)
  unfold recordsAfter at hnone hall ⊢
  rw [List.filter_append, hnone, List.filter_cons_of_neg (by simp), hall, List.nil_append]

/-- The records after a position that has reached another one are among those after that one. -/
lemma recordsAfter_recordsAfter (h : Ordered log) (ho : o.Normal) {o' : Offset} (ho' : o'.Normal)
    (hreached : o'.reached o = true) :
    recordsAfter (recordsAfter log o) o' = recordsAfter log o' := by
  unfold recordsAfter
  rw [List.filter_filter]
  refine List.filter_congr fun x hx => ?_
  have hnx := h.normal x hx
  cases hxo : x.position.after o' with
  | false => rfl
  | true =>
    have hbefore : o.before x.position = true :=
      Offset.before_of_reached ho ho' hnx hreached ((Offset.after_iff_before ho' hnx).mp hxo)
    simpa using (Offset.after_iff_before ho hnx).mpr hbefore

lemma recordsAfter_split (h : Ordered log) (ho : o.Normal) {before rest : List LogRecord}
    {r : LogRecord} (hsplit : recordsAfter log o = before ++ r :: rest) :
    recordsAfter log r.position = rest := by
  have hmem : r ∈ recordsAfter log o := by simp [hsplit]
  obtain ⟨hr, hafter⟩ := mem_recordsAfter.mp hmem
  have hordered := h.ordered_after o
  rw [hsplit] at hordered
  have hreached : r.position.reached o = true := Offset.reached_iff.mpr (.inr hafter)
  rw [← h.recordsAfter_recordsAfter ho (h.normal r hr) hreached, hsplit,
    hordered.recordsAfter_record]

end Ordered

namespace StreamJob

variable {job : StreamJob} {layout : TableId → Option SchemaRecord} {h : SchemaHistory}

/-- The event of a row that is read with the layout of its table, when it is to be sent. -/
def rowEvent (job : StreamJob) (layout : TableId → Option SchemaRecord) (c : RowChange) :
    Option ChangeEvent :=
  match (layout c.tableId).map c.decodeWith with
  | some (.ok e) => if job.shouldEmit e then some e else none
  | some (.error _) | none => none

/-- The event of a record that is to be sent. -/
def eventOf (job : StreamJob) (layout : TableId → Option SchemaRecord) :
    LogRecord → Option ChangeEvent
  | .change c => if job.dispatcher.captures c.tableId then job.rowEvent layout c else none
  | .schemaChange _ | .heartbeat _ => none

/-- The events of some records that are to be sent, up to the end. -/
def due (job : StreamJob) (layout : TableId → Option SchemaRecord) (records : List LogRecord) :
    List ChangeEvent :=
  (records.filter fun r => !job.isBeyond r.position).filterMap (job.eventOf layout)

/-- The history answers with the layouts, whatever the position. -/
def Reads (h : SchemaHistory) (layout : TableId → Option SchemaRecord) : Prop :=
  ∀ t position schema, h.schemaAt? t position = some schema →
    ∃ s, layout t = some s ∧ s.tableId = schema.tableId ∧ s.columns = schema.columns

/-- None of the records changes the layout of a captured table. -/
def Stable (job : StreamJob) (records : List LogRecord) : Prop :=
  ∀ s, .schemaChange s ∈ records → job.dispatcher.captures s.tableId = false

/-- A row that is read by the history makes the event that its layout gives. -/
lemma rowEvent_of_decode (job : StreamJob) (hreads : Reads h layout) {c : RowChange}
    {e : ChangeEvent} (he : Dispatcher.decode h c = .ok e) :
    job.rowEvent layout c = if job.shouldEmit e then some e else none := by
  unfold Dispatcher.decode SchemaHistory.schemaAt at he
  cases hschema : h.schemaAt? c.tableId c.position with
  | none => simp [hschema] at he
  | some schema =>
    rw [hschema] at he
    obtain ⟨s, hs, htable, hcolumns⟩ := hreads _ _ _ hschema
    have hdecode : c.decodeWith s = .ok e := (decodeWith_congr htable hcolumns c).trans he
    simp [rowEvent, hs, hdecode]

lemma position_of_decode {c : RowChange} {e : ChangeEvent} (he : Dispatcher.decode h c = .ok e) :
    e.position = c.position := by
  unfold Dispatcher.decode at he
  split at he
  · rw [(readAs_of_decodeWith he).event]
  · simp at he

/-- What a stream makes of a record that is no layout change. -/
lemma streamed_stable (hreads : Reads h layout) {r : LogRecord} {rest : List LogRecord}
    (hstable : job.Stable (r :: rest)) {d : Dispatched} {h' : SchemaHistory}
    (hd : job.dispatcher.dispatch h r = .ok (d, h')) :
    h' = h ∧ (Producer.streamed job r.position d).change? = job.eventOf layout r ∧
      (Producer.streamed job r.position d).position = r.position := by
  cases r with
  | change c =>
    simp only [Dispatcher.dispatch] at hd
    split at hd
    · next hcaptured =>
      cases he : Dispatcher.decode h c with
      | error f => simp [he, Except.map] at hd
      | ok e =>
        simp only [he, Except.map, Except.ok.injEq, Prod.mk.injEq] at hd
        obtain ⟨rfl, rfl⟩ := hd
        have hrow := rowEvent_of_decode job hreads he
        have hposition := position_of_decode he
        simp only [Producer.streamed, eventOf, if_pos hcaptured, hrow]
        split
        · exact ⟨trivial, rfl, hposition⟩
        · exact ⟨trivial, rfl, rfl⟩
    · next hskipped =>
      obtain ⟨rfl, rfl⟩ := Prod.mk.inj (Except.ok.inj hd)
      simp only [Producer.streamed, eventOf, if_neg hskipped]
      exact ⟨trivial, rfl, rfl⟩
  | schemaChange s =>
    have hskipped := hstable s (.head _)
    simp only [Dispatcher.dispatch, hskipped] at hd
    obtain ⟨rfl, rfl⟩ := Prod.mk.inj (Except.ok.inj hd)
    exact ⟨rfl, rfl, rfl⟩
  | heartbeat position =>
    obtain ⟨rfl, rfl⟩ := Prod.mk.inj (Except.ok.inj hd)
    exact ⟨rfl, rfl, rfl⟩

/-- Queue records that stand for the first records of a log, of which none lies behind the end. -/
structure StandFor (job : StreamJob) (layout : TableId → Option SchemaRecord)
    (rs : List QueueRecord) (first : List LogRecord) : Prop where
  positions : rs.map QueueRecord.position = first.map LogRecord.position
  changes : changesOf rs = first.filterMap (job.eventOf layout)
  within : ∀ r ∈ first, job.isBeyond r.position = false

lemma standFor_nil : StandFor job layout [] [] :=
  ⟨rfl, rfl, by simp⟩

lemma StandFor.cons {q : QueueRecord} {rs : List QueueRecord} {r : LogRecord}
    {first : List LogRecord} (h : StandFor job layout rs first)
    (hchange : q.change? = job.eventOf layout r) (hposition : q.position = r.position)
    (hwithin : job.isBeyond r.position = false) :
    StandFor job layout (q :: rs) (r :: first) where
  positions := by rw [List.map_cons, List.map_cons, hposition, h.positions]
  changes := by
    have hchanges := h.changes
    unfold changesOf at hchanges ⊢
    rw [List.filterMap_cons, List.filterMap_cons, hchange, hchanges]
  within x hx := by
    rcases List.mem_cons.mp hx with rfl | hx
    · exact hwithin
    · exact h.within x hx

/-- What a stream has made so far stands for the first records of the log. -/
lemma trace_prefix (hreads : Reads h layout) {records : List LogRecord}
    (hstable : job.Stable records) {rs : List QueueRecord} (hrs : rs <+: (job.trace h records).1) :
    ∃ first rest, records = first ++ rest ∧ StandFor job layout rs first := by
  induction records generalizing rs with
  | nil =>
    obtain rfl := List.prefix_nil.mp hrs
    exact ⟨[], [], rfl, standFor_nil⟩
  | cons r records ih =>
    cases rs with
    | nil => exact ⟨[], _, rfl, standFor_nil⟩
    | cons q rs =>
      have htail : job.Stable records := fun s hs => hstable s (.tail _ hs)
      rw [trace] at hrs
      split at hrs
      · simp at hrs
      · next hbeyond =>
        have hwithin : job.isBeyond r.position = false := by simpa using hbeyond
        cases hd : job.dispatcher.dispatch h r with
        | error f => simp [hd] at hrs
        | ok result =>
          obtain ⟨d, h'⟩ := result
          obtain ⟨rfl, hchange, hposition⟩ := streamed_stable hreads hstable hd
          rw [hd] at hrs
          dsimp only at hrs
          split at hrs
          · obtain ⟨rfl, hnil⟩ := List.cons_prefix_cons.mp hrs
            obtain rfl := List.prefix_nil.mp hnil
            exact ⟨[r], records, rfl, standFor_nil.cons hchange hposition hwithin⟩
          · obtain ⟨rfl, hrest⟩ := List.cons_prefix_cons.mp hrs
            obtain ⟨first, rest, rfl, hstand⟩ := ih htail hrest
            exact ⟨r :: first, rest, rfl, hstand.cons hchange hposition hwithin⟩

/-- A record behind one that lies behind the end or at it lies behind the end. -/
lemma isBeyond_of_before (hend : ∀ e ∈ job.ending, e.Normal) {p q : Offset} (hp : p.Normal)
    (hq : q.Normal) (hpq : p.before q = true)
    (hreached : job.isBeyond p = true ∨ job.isAtEnd p = true) : job.isBeyond q = true := by
  unfold isBeyond isAtEnd at *
  cases hending : job.ending with
  | none => simp [hending] at hreached
  | some e =>
    have he : e.Normal := hend e hending
    simp only [hending, Option.any_some] at hreached ⊢
    rw [Offset.after_iff_before he hq]
    rcases hreached with hafter | hat
    · exact Offset.before_trans he hp hq ((Offset.after_iff_before he hp).mp hafter) hpq
    · rcases Offset.reached_iff.mp hat with rfl | hafter
      · exact hpq
      · exact Offset.before_trans he hp hq ((Offset.after_iff_before he hp).mp hafter) hpq

lemma rest_beyond (job : StreamJob) (hend : ∀ e ∈ job.ending, e.Normal) {r : LogRecord}
    {records : List LogRecord} (hordered : Ordered (r :: records))
    (hreached : job.isBeyond r.position = true ∨ job.isAtEnd r.position = true) :
    ∀ x ∈ records, job.isBeyond x.position = true := fun x hx =>
  isBeyond_of_before hend (hordered.normal r (.head _)) (hordered.normal x (.tail _ hx))
    ((List.pairwise_cons.mp hordered.ascending).1 x hx) hreached

/-- A stream that does not fail has made all records up to its end. -/
lemma trace_complete (hreads : Reads h layout) (hend : ∀ e ∈ job.ending, e.Normal)
    {records : List LogRecord} (hordered : Ordered records) (hstable : job.Stable records)
    (hfinish : ∀ f, (job.trace h records).2 ≠ .fails f) :
    ∃ first rest, records = first ++ rest ∧ StandFor job layout (job.trace h records).1 first ∧
      ∀ r ∈ rest, job.isBeyond r.position = true := by
  induction records with
  | nil => exact ⟨[], [], rfl, standFor_nil, by simp⟩
  | cons r records ih =>
    have htail : job.Stable records := fun s hs => hstable s (.tail _ hs)
    have hbehind := rest_beyond job hend hordered
    rw [trace] at hfinish ⊢
    split
    · next hbeyond =>
      refine ⟨[], r :: records, rfl, standFor_nil, fun x hx => ?_⟩
      rcases List.mem_cons.mp hx with rfl | hx
      · exact hbeyond
      · exact hbehind (.inl hbeyond) x hx
    · next hbeyond =>
      have hwithin : job.isBeyond r.position = false := by simpa using hbeyond
      rw [if_neg hbeyond] at hfinish
      cases hd : job.dispatcher.dispatch h r with
      | error f =>
        rw [hd] at hfinish
        exact absurd rfl (hfinish f)
      | ok result =>
        obtain ⟨d, h'⟩ := result
        obtain ⟨rfl, hchange, hposition⟩ := streamed_stable hreads hstable hd
        rw [hd] at hfinish
        dsimp only at hfinish ⊢
        split
        · next hat =>
          exact ⟨[r], records, rfl, standFor_nil.cons hchange hposition hwithin, hbehind (.inr hat)⟩
        · next hat =>
          rw [if_neg hat] at hfinish
          obtain ⟨first, rest, hrecords, hstand, hrest⟩ :=
            ih (hordered.sublist (List.sublist_cons_self ..)) htail hfinish
          exact ⟨r :: first, rest, by rw [hrecords]; rfl, hstand.cons hchange hposition hwithin,
            hrest⟩

/-! ## What is due -/

lemma due_beyond {records : List LogRecord} (h : ∀ r ∈ records, job.isBeyond r.position = true) :
    job.due layout records = [] := by
  have hnone : records.filter (fun r => !job.isBeyond r.position) = [] :=
    List.filter_eq_nil_iff.mpr fun r hr => by simp [h r hr]
  rw [due, hnone, List.filterMap_nil]

lemma due_append {rs : List QueueRecord} {first : List LogRecord}
    (h : StandFor job layout rs first) (rest : List LogRecord) :
    job.due layout (first ++ rest) = changesOf rs ++ job.due layout rest := by
  have hall : first.filter (fun r => !job.isBeyond r.position) = first :=
    List.filter_eq_self.mpr fun r hr => by simp [h.within r hr]
  rw [due, List.filter_append, List.filterMap_append, hall, ← h.changes, due]

lemma positions_ascend (hreads : Reads h layout) {records : List LogRecord}
    (hordered : Ordered records) (hstable : job.Stable records) {rs : List QueueRecord}
    (hrs : rs <+: (job.trace h records).1) :
    (rs.map QueueRecord.position).Pairwise fun a b => a.before b = true := by
  obtain ⟨first, rest, rfl, hstand⟩ := trace_prefix hreads hstable hrs
  rw [hstand.positions, List.pairwise_map]
  exact hordered.ascending.sublist (List.sublist_append_left ..)

/-- A position that a stream has come to: one of a record after the start that does not lie behind
the end. -/
structure Visits (job : StreamJob) (log : List LogRecord) (start p : Offset) : Prop where
  record : ∃ r ∈ log, r.position = p
  later : start.before p = true
  within : job.isBeyond p = false

lemma Visits.normal {log : List LogRecord} {start p : Offset} (h : job.Visits log start p)
    (hlog : Ordered log) : p.Normal := by
  obtain ⟨r, hr, hposition⟩ := h.record
  exact hposition ▸ hlog.normal r hr

/-- What is due from a position on begins with the changes that a stream has made so far, and goes
on with what is due from its last record on. -/
lemma due_of_prefix (hreads : Reads h layout) {log : List LogRecord} (hlog : Ordered log)
    (hstable : job.Stable log) {start : Offset} (hstart : start.Normal) {rs : List QueueRecord}
    (hrs : rs <+: (job.trace h (recordsAfter log start)).1) {p : Offset}
    (hp : rs.getLast?.map QueueRecord.position = some p) :
    job.Visits log start p ∧
      job.due layout (recordsAfter log start) =
        changesOf rs ++ job.due layout (recordsAfter log p) := by
  have hstable' : job.Stable (recordsAfter log start) := fun s hs =>
    hstable s (mem_recordsAfter.mp hs).1
  obtain ⟨first, rest, hsplit, hstand⟩ := trace_prefix hreads hstable' hrs
  have hlast : first.getLast?.map LogRecord.position = some p := by
    rw [← hp, ← List.getLast?_map, ← List.getLast?_map, hstand.positions]
  obtain ⟨r, hr, rfl⟩ := Option.map_eq_some_iff.mp hlast
  obtain ⟨before, rfl⟩ : ∃ before, first = before ++ [r] :=
    ⟨_, (List.dropLast_append_getLast? r hr).symm⟩
  have hmem : r ∈ recordsAfter log start := by simp [hsplit]
  obtain ⟨hrlog, hafter⟩ := mem_recordsAfter.mp hmem
  have hcut : recordsAfter log start = before ++ r :: rest := by simp [hsplit]
  refine ⟨⟨⟨r, hrlog, rfl⟩, ?_, hstand.within r (by simp)⟩, ?_⟩
  · exact (Offset.after_iff_before hstart (hlog.normal r hrlog)).mp hafter
  · rw [hlog.recordsAfter_split hstart hcut, hsplit, due_append hstand]

lemma due_of_complete (hreads : Reads h layout) (hend : ∀ e ∈ job.ending, e.Normal)
    {records : List LogRecord} (hordered : Ordered records) (hstable : job.Stable records)
    (hfinish : ∀ f, (job.trace h records).2 ≠ .fails f) :
    job.due layout records = changesOf (job.trace h records).1 := by
  obtain ⟨first, rest, hrecords, hstand, hrest⟩ :=
    trace_complete hreads hend hordered hstable hfinish
  have hdue := due_append hstand rest
  rw [← hrecords, due_beyond hrest, List.append_nil] at hdue
  exact hdue

end StreamJob
end Changefeed
