import Changefeed.Checkpoint.Basic
import Changefeed.Proofs.Fetch.Configure
import Changefeed.Proofs.Fetch.Evolution

/-!
# Restarts in the presence of layout changes

A split that is resumed from a checkpoint keeps the layouts that came with it, which held at its
first start.  The layouts that the log changed on the way to the checkpoint are known to the run
that read them and to nobody else, and the log is not read again up to the checkpoint.

So a later row is read as it would have been without the restart exactly when its table is changed
once more before it, or when the layout that came with the split and the one behind the checkpoint
happen to read it alike.  Where that holds for all rows the restart is not to be noticed.
-/

namespace Changefeed

/-! ## Traces -/

namespace StreamJob

variable {job : StreamJob} {h h' : SchemaHistory}

/-- Records that two histories read alike are dispatched alike. -/
lemma dispatch_congr {d : Dispatcher} {r : LogRecord}
    (hrow : ∀ c, r = .change c → d.captures c.tableId = true →
      Dispatcher.decode h' c = Dispatcher.decode h c) :
    d.dispatch h' r = (d.dispatch h r).map fun (x, _) => (x, d.learn h' r) := by
  cases r with
  | change c =>
    simp only [Dispatcher.dispatch]
    split
    · next hcaptured =>
      rw [hrow c rfl hcaptured]
      cases Dispatcher.decode h c <;> rfl
    · rfl
  | schemaChange r =>
    simp only [Dispatcher.dispatch, Dispatcher.learn]
    split <;> rfl
  | heartbeat position => rfl

/-- Histories that read all rows alike have the same trace. -/
lemma trace_congr {records : List LogRecord}
    (hrows : ∀ before c after, records = before ++ .change c :: after →
      job.dispatcher.captures c.tableId = true →
      Dispatcher.decode (job.dispatcher.learnAll h' before) c =
        Dispatcher.decode (job.dispatcher.learnAll h before) c) :
    job.trace h' records = job.trace h records := by
  induction records generalizing h h' with
  | nil => rfl
  | cons r rest ih =>
    have hdispatch : job.dispatcher.dispatch h' r =
        (job.dispatcher.dispatch h r).map fun (x, _) => (x, job.dispatcher.learn h' r) :=
      dispatch_congr fun c hr hcaptured => hrows [] c rest (hr ▸ rfl) hcaptured
    have hrest : job.trace (job.dispatcher.learn h' r) rest =
        job.trace (job.dispatcher.learn h r) rest :=
      ih fun before c after hsplit hcaptured =>
        hrows (r :: before) c after (hsplit ▸ rfl) hcaptured
    rw [trace, trace, hdispatch]
    cases hd : job.dispatcher.dispatch h r with
    | error f => rfl
    | ok result =>
      obtain ⟨x, h₁⟩ := result
      obtain rfl := Dispatcher.history_of_dispatch hd
      simp only [Except.map, hrest]

/-- What a stream makes behind a record is the trace of the rest, read with what was learnt. -/
lemma trace_behind {visited rest : List LogRecord} {r : LogRecord} {qs more : List QueueRecord}
    {q : QueueRecord} (hgo : job.isAtEnd r.position = false)
    (hmade : (job.trace h (visited ++ r :: rest)).1 = qs ++ q :: more)
    (hlength : qs.length = visited.length) :
    job.trace (job.dispatcher.learnAll h (visited ++ [r])) rest =
      (more, (job.trace h (visited ++ r :: rest)).2) := by
  induction visited generalizing h qs with
  | nil =>
    obtain rfl := List.eq_nil_of_length_eq_zero hlength
    simp only [List.nil_append, trace] at hmade ⊢
    split at hmade
    · cases hmade
    · next hbeyond =>
      rw [if_neg hbeyond]
      cases hd : job.dispatcher.dispatch h r with
      | error f =>
        rw [hd] at hmade
        cases hmade
      | ok result =>
        obtain ⟨x, h₁⟩ := result
        rw [hd] at hmade
        simp only [hgo, Bool.false_eq_true, if_false] at hmade ⊢
        obtain rfl := Dispatcher.history_of_dispatch hd
        obtain ⟨-, rfl⟩ := List.cons.inj hmade
        rfl
  | cons v visited ih =>
    obtain ⟨q', qs, rfl⟩ := List.exists_cons_of_length_eq_add_one hlength
    simp only [List.cons_append, trace] at hmade ⊢
    split at hmade
    · cases hmade
    · next hbeyond =>
      rw [if_neg hbeyond]
      cases hd : job.dispatcher.dispatch h v with
      | error f =>
        rw [hd] at hmade
        cases hmade
      | ok result =>
        obtain ⟨x, h₁⟩ := result
        rw [hd] at hmade
        dsimp only at hmade ⊢
        split at hmade
        · have hnone := (List.cons.inj hmade).2
          exact absurd hnone.symm (by simp)
        · next hmore =>
          rw [if_neg hmore]
          obtain rfl := Dispatcher.history_of_dispatch hd
          exact ih (List.cons.inj hmade).2 (Nat.succ.inj hlength)

end StreamJob

/-! ## Layouts that come with a split -/

/-- For each of its tables, a split comes with a layout that holds at its start. -/
structure IncrementalSplit.Referenced (s : IncrementalSplit) (ref : TableId → SchemaRecord) :
    Prop where
  blobs : ∀ t ∈ s.tableIds, ∃ blob, s.historyRefs.find? t = some blob ∧
    SchemaRecord.ofBlob blob = .ok (ref t)
  tables : ∀ t ∈ s.tableIds, (ref t).tableId = t
  normal : ∀ t ∈ s.tableIds, (ref t).position.Normal
  begun : ∀ t ∈ s.tableIds, s.startingOffset.reached (ref t).position = true

namespace Plan

variable {s : IncrementalSplit} {ref : TableId → SchemaRecord}

/-- The layouts that come with a split are taken as they are. -/
lemma bindTables_referenced {tables : List TableId}
    (hrefs : ∀ t ∈ tables, ∃ blob, s.historyRefs.find? t = some blob ∧
      SchemaRecord.ofBlob blob = .ok (ref t)) {b b' : SchemaBatch} {sh sh' : Shared}
    (hb : b.Distinct) (hbind : bindTables s b tables sh = (.ok b', sh')) :
    sh' = sh ∧ b'.pending = b.pending ++ tables.map ref ∧ b'.Distinct := by
  induction tables generalizing b sh with
  | nil =>
    obtain ⟨rfl, rfl⟩ := Act.pure_eq_ok hbind
    exact ⟨rfl, (List.append_nil _).symm, hb⟩
  | cons t tables ih =>
    obtain ⟨blob, hfind, hblob⟩ := hrefs t List.mem_cons_self
    obtain ⟨b₁, sh₁, hbind₁, hrest⟩ := Act.bind_eq_ok hbind
    have hregister : b.registerBlob t blob = .ok b₁ ∧ sh₁ = sh := by
      unfold bindTable at hbind₁
      rw [hfind] at hbind₁
      exact Act.ofOutcome_eq_ok hbind₁
    obtain ⟨r, hr, -, hpending⟩ := SchemaBatch.registerBlob_ok hregister.1
    obtain rfl := Except.ok.inj (hr.symm.trans hblob)
    obtain rfl := hregister.2
    obtain ⟨hshared, hpending', hdistinct⟩ := ih (fun t ht => hrefs t (List.mem_cons_of_mem _ ht))
      (SchemaBatch.registerBlob_distinct hb hregister.1) hrest
    refine ⟨hshared, ?_, hdistinct⟩
    rw [hpending', hpending, List.append_assoc]
    rfl

/-- A split that comes with its layouts is configured with those, and reads the log behind its
start. -/
lemma incremental_referenced (hrefs : s.Referenced ref) {sh sh' : Shared} {plan : Plan}
    (hempty : sh.history = .empty) (hplan : incremental s sh = (.ok plan, sh')) :
    (∀ t ∈ s.tableIds, sh'.history.records t = [ref t]) ∧ ∃ log : LogStream,
      plan = { producer := .stream s.job log, mode := .passThrough, start := s.startingOffset } ∧
        log.records = recordsAfter sh.server.log s.startingOffset := by
  rw [incremental_eq] at hplan
  obtain ⟨batch, sh₁, hbind, hopen⟩ := Act.bind_eq_ok hplan
  obtain ⟨rfl, hpending, hdistinct⟩ :=
    bindTables_referenced hrefs.blobs SchemaBatch.distinct_empty hbind
  obtain ⟨hhistory, log, hlog, hrecords⟩ := openLog_ok hopen
  refine ⟨fun t ht => ?_, log, hlog, hrecords⟩
  have hmem : ref t ∈ batch.pending := by
    rw [hpending]
    exact List.mem_map_of_mem ht
  have hrecords := SchemaHistory.records_appendAll_distinct (h := .empty) hdistinct hmem
  rw [hrefs.tables t ht, SchemaHistory.records_empty] at hrecords
  rw [hhistory, hempty]
  exact hrecords

end Plan

/-! ## Restarts -/

/-- The layouts that come with a split hold at its checkpoints too. -/
lemma IncrementalSplit.Referenced.applyTo {s : IncrementalSplit} {ref : TableId → SchemaRecord}
    (hrefs : s.Referenced ref) {c : Checkpoint} (htables : c.tableIds = s.tableIds)
    (hstart : s.startingOffset.Normal) (hoffset : c.offset.Normal)
    (hbefore : s.startingOffset.before c.offset = true) : (c.applyTo s).Referenced ref where
  blobs t ht := hrefs.blobs t (htables ▸ ht)
  tables t ht := hrefs.tables t (htables ▸ ht)
  normal t ht := hrefs.normal t (htables ▸ ht)
  begun t ht := by
    have hnormal := hrefs.normal t (htables ▸ ht)
    have hlater := Offset.before_of_reached hnormal hstart hoffset
      (hrefs.begun t (htables ▸ ht)) hbefore
    exact Offset.reached_iff.mpr (.inr ((Offset.after_iff_before hnormal hoffset).mpr hlater))

namespace IncrementalSplit

variable {s : IncrementalSplit} {ref : TableId → SchemaRecord}

/-- How a run that began with the layouts of its split reads a row behind some records. -/
lemma decode_behind (hrefs : s.Referenced ref) (hstart : s.startingOffset.Normal)
    {h : SchemaHistory} (hfirst : ∀ t ∈ s.tableIds, h.records t = [ref t])
    {log before after : List LogRecord} {row : RowChange} (hlog : Ordered log)
    (hsplit : recordsAfter log s.startingOffset = before ++ .change row :: after)
    (hcaptured : s.job.dispatcher.captures row.tableId = true) :
    Dispatcher.decode (s.job.dispatcher.learnAll h before) row =
      row.decodeWith (layoutBehind (ref row.tableId) before row.tableId) := by
  have htable : row.tableId ∈ s.tableIds := by
    simpa [Dispatcher.captures, job] using hcaptured
  have hnormal := hrefs.normal row.tableId htable
  have hreached : ∀ x ∈ before ++ .change row :: after,
      x.position.reached (ref row.tableId).position = true := by
    intro x hx
    rw [← hsplit] at hx
    obtain ⟨hx, hafter⟩ := mem_recordsAfter.mp hx
    have hlater := Offset.before_of_reached hnormal hstart (hlog.normal x hx)
      (hrefs.begun _ htable) ((Offset.after_iff_before hstart (hlog.normal x hx)).mp hafter)
    exact Offset.reached_iff.mpr (.inr ((Offset.after_iff_before hnormal (hlog.normal x hx)).mpr
      hlater))
  have hordered : Ordered (before ++ .change row :: after) :=
    hsplit ▸ hlog.ordered_after s.startingOffset
  have hread := Dispatcher.decode_learnAll hcaptured (hfirst _ htable) (hrefs.tables _ htable)
    hnormal hreached hordered (List.nil_sublist _)
  rwa [List.append_nil] at hread

end IncrementalSplit

namespace Checkpoint

/-- The table of a row is changed between the checkpoint and the row, or the row reads the same
with the layout that came with the split as with the one behind what was visited up to the
checkpoint. -/
def ReadsAlike (ref : TableId → SchemaRecord) (visited before : List LogRecord)
    (row : RowChange) : Prop :=
  layoutChanges row.tableId before ≠ [] ∨
    row.decodeWith (ref row.tableId) =
      row.decodeWith (layoutBehind (ref row.tableId) visited row.tableId)

/-- A split is read from its start and again from a checkpoint at one of the records behind it,
each time with a history of its own.  From the checkpoint on, a row is read as the first time
exactly when its table is changed between the checkpoint and the row, or when it reads the same
with the layout that came with the split as with the one behind the checkpoint.  When that is so
for every row, the stream from the checkpoint makes what the first one made behind it, and ends the
same way. -/
theorem reads_alike_iff {s : IncrementalSplit} {ref : TableId → SchemaRecord}
    (hrefs : s.Referenced ref) (hstart : s.startingOffset.Normal) {sh sh' sr sr' : Shared}
    {plan plan' : Plan} (hlog : Ordered sh.server.log) (hsame : sr.server.log = sh.server.log)
    (hempty : sh.history = .empty) (hempty' : sr.history = .empty)
    {visited rest : List LogRecord} {r : LogRecord}
    (hsplit : recordsAfter sh.server.log s.startingOffset = visited ++ r :: rest)
    {c : Checkpoint} (htables : c.tableIds = s.tableIds) (hoffset : c.offset = r.position)
    (hplan : Plan.incremental s sh = (.ok plan, sh'))
    (hplan' : Plan.incremental (c.applyTo s) sr = (.ok plan', sr')) :
    let learnt := s.job.dispatcher.learnAll
    (∃ log : LogStream, plan'.producer = .stream s.job log ∧ log.records = rest) ∧
      (∀ before row after, rest = before ++ .change row :: after →
        s.job.dispatcher.captures row.tableId = true →
        (Dispatcher.decode (learnt sr'.history before) row =
            Dispatcher.decode (learnt sh'.history (visited ++ r :: before)) row ↔
          ReadsAlike ref (visited ++ [r]) before row)) ∧
      ((∀ before row after, rest = before ++ .change row :: after →
          s.job.dispatcher.captures row.tableId = true →
          ReadsAlike ref (visited ++ [r]) before row) →
        ∀ qs q more, (s.job.trace sh'.history (visited ++ r :: rest)).1 = qs ++ q :: more →
          qs.length = visited.length → s.job.isAtEnd r.position = false →
          s.job.trace sr'.history rest =
            (more, (s.job.trace sh'.history (visited ++ r :: rest)).2)) := by
  intro learnt
  have hmem : r ∈ recordsAfter sh.server.log s.startingOffset := by simp [hsplit]
  obtain ⟨hr, hafter⟩ := mem_recordsAfter.mp hmem
  have hnormal : c.offset.Normal := hoffset ▸ hlog.normal r hr
  have hbefore : s.startingOffset.before c.offset = true := by
    rw [hoffset]
    exact (Offset.after_iff_before hstart (hlog.normal r hr)).mp hafter
  have hrefs' := hrefs.applyTo htables hstart hnormal hbefore
  have hjob : (c.applyTo s).job = s.job := by
    rw [applyTo, htables]
    rfl
  obtain ⟨hfirst, -⟩ := Plan.incremental_referenced hrefs hempty hplan
  obtain ⟨hfirst', log, rfl, hrecords⟩ := Plan.incremental_referenced hrefs' hempty' hplan'
  have hrest : recordsAfter sh.server.log c.offset = rest := by
    rw [hoffset]
    exact hlog.recordsAfter_split hstart hsplit
  have hreads : ∀ before row after, rest = before ++ .change row :: after →
      s.job.dispatcher.captures row.tableId = true →
      (Dispatcher.decode (learnt sr'.history before) row =
          Dispatcher.decode (learnt sh'.history (visited ++ r :: before)) row ↔
        ReadsAlike ref (visited ++ [r]) before row) := by
    intro before row after hrow hcaptured
    have hfull : recordsAfter sh.server.log s.startingOffset =
        (visited ++ r :: before) ++ .change row :: after := by
      rw [hsplit, hrow, List.append_assoc, List.cons_append]
    have hread := s.decode_behind hrefs hstart hfirst hlog hfull hcaptured
    have hread' := (c.applyTo s).decode_behind hrefs' hnormal hfirst' hlog
      (hrest.trans hrow) (hjob ▸ hcaptured)
    rw [hjob] at hread'
    rw [hread, hread', List.append_cons, layoutBehind_append]
    by_cases hchanged : layoutChanges row.tableId before = []
    · rw [layoutBehind_of_unchanged hchanged, layoutBehind_of_unchanged hchanged]
      exact ⟨.inr, fun halike => halike.resolve_left fun h => h hchanged⟩
    · rw [layoutBehind_of_changed hchanged]
      exact ⟨fun _ => .inl hchanged, fun _ => rfl⟩
  refine ⟨⟨log, hjob ▸ rfl, ?_⟩, hreads, fun halike qs q more hmade hlength hgo => ?_⟩
  · rw [hrecords, hsame]
    exact hrest
  · rw [← StreamJob.trace_behind hgo hmade hlength]
    refine StreamJob.trace_congr fun before row after hrow hcaptured => ?_
    rw [← Dispatcher.learnAll_append, ← List.append_cons]
    exact (hreads before row after hrow hcaptured).mpr (halike before row after hrow hcaptured)

/-- The orders before they have notes. -/
def plainOrders : SchemaRecord :=
  .make ⟨"shop", "orders"⟩ [{ name := "id", typeName := "int", position := 1, primaryKey := true },
    { name := "amount", typeName := "int", position := 2 }] (.binlog "log.1" 4)

/-- The orders with notes. -/
def notedOrders : SchemaRecord :=
  .make ⟨"shop", "orders"⟩ [{ name := "id", typeName := "int", position := 1, primaryKey := true },
    { name := "amount", typeName := "int", position := 2 },
    { name := "note", typeName := "text", position := 3 }] (.binlog "log.1" 150)

/-- An order with a note. -/
def notedOrder (place : UInt64) (id : Int) : RowChange :=
  .insert (.binlog "log.1" place) ⟨"shop", "orders"⟩
    [.number (.int id), .number (.int 10), .string "gift"]

/-- A log in which orders get notes. -/
def notesServer : Server :=
  { retained := { logFiles := ["log.1"] }
    log := [.schemaChange notedOrders, .change (notedOrder 160 2), .change (notedOrder 170 3)] }

/-- The orders from a start before the notes. -/
def notesSplit : IncrementalSplit :=
  { splitIndex := 0
    tableIds := [⟨"shop", "orders"⟩]
    startingOffset := .binlog "log.1" 100
    historyRefs := [(⟨"shop", "orders"⟩, plainOrders.toBlob)] }

lemma legible_plainOrders : plainOrders.Legible where
  table := TableId.legible_iff.mpr (by decide)
  columns := by decide
  position := trivial
  timestamp := by decide

lemma referenced_notes : notesSplit.Referenced fun _ => plainOrders where
  blobs t ht := by
    obtain rfl := List.mem_singleton.mp ht
    exact ⟨_, rfl, SchemaRecord.ofBlob_toBlob legible_plainOrders⟩
  tables t ht := (List.mem_singleton.mp ht).symm
  normal _ _ := trivial
  begun _ _ := by decide

/-- The split is configured at every place of the log. -/
lemma configured_notes (place : UInt64) :
    ∃ plan sh', Plan.incremental (notesSplit.startingAt (.binlog "log.1" place))
      { server := notesServer } = (.ok plan, sh') := by
  generalize hs : notesSplit.startingAt (.binlog "log.1" place) = s
  have hregister : SchemaBatch.registerBlob {} ⟨"shop", "orders"⟩ plainOrders.toBlob =
      .ok ⟨[plainOrders]⟩ := by
    rw [SchemaBatch.registerBlob, SchemaRecord.ofBlob_toBlob legible_plainOrders]
    rfl
  have hbind : Plan.bindTables s {} s.tableIds { server := notesServer } =
      (.ok ⟨[plainOrders]⟩, { server := notesServer }) := by
    subst hs
    have htable : Plan.bindTable (notesSplit.startingAt (.binlog "log.1" place)) {}
        ⟨"shop", "orders"⟩ { server := notesServer } =
          (.ok ⟨[plainOrders]⟩, { server := notesServer }) :=
      congrArg (·, ({ server := notesServer } : Shared)) hregister
    exact Act.bind_of_ok htable
  rw [Plan.incremental_eq, Act.bind_of_ok hbind]
  subst hs
  exact ⟨_, _, rfl⟩

/-- An order whose note the log made room for before the checkpoint is not read alike behind it. -/
theorem reads_alike_iff_notes :
    ∃ plan plan' sh' sr', Plan.incremental notesSplit { server := notesServer } = (.ok plan, sh') ∧
      Plan.incremental (notesSplit.startingAt (.binlog "log.1" 160)) { server := notesServer } =
        (.ok plan', sr') ∧
      Dispatcher.decode sr'.history (notedOrder 170 3) ≠
        Dispatcher.decode (notesSplit.job.dispatcher.learnAll sh'.history
          [.schemaChange notedOrders, .change (notedOrder 160 2)]) (notedOrder 170 3) := by
  obtain ⟨plan, sh', hplan⟩ := configured_notes 100
  obtain ⟨plan', sr', hplan'⟩ := configured_notes 160
  have hordered : Ordered notesServer.log := by
    refine ⟨fun r hr => ?_, by decide⟩
    simp only [notesServer, List.mem_cons, List.not_mem_nil, or_false] at hr
    rcases hr with rfl | rfl | rfl <;> trivial
  let c : Checkpoint := ⟨notesSplit.splitId, notesSplit.tableIds, .binlog "log.1" 160,
    ⟨⟨2024, 1, 1⟩, 0, 0, 0⟩⟩
  have hsplit : recordsAfter notesServer.log notesSplit.startingOffset =
      [.schemaChange notedOrders] ++ .change (notedOrder 160 2) :: [.change (notedOrder 170 3)] :=
    List.filter_eq_self.mpr (by decide)
  have htables : c.tableIds = notesSplit.tableIds := rfl
  have hoffset : c.offset = (LogRecord.change (notedOrder 160 2)).position := rfl
  obtain ⟨-, hreads, -⟩ := reads_alike_iff referenced_notes trivial hordered rfl rfl rfl hsplit
    htables hoffset hplan hplan'
  refine ⟨plan, plan', sh', sr', hplan, hplan', fun halike => ?_⟩
  rcases (hreads [] (notedOrder 170 3) [] rfl rfl).mp halike with hchanged | hsame
  · exact hchanged rfl
  · have hread := congrArg Except.isOk hsame
    revert hread
    decide +kernel

end Checkpoint
end Changefeed
