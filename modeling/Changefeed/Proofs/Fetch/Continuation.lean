import Changefeed.Proofs.Assigner
import Changefeed.Proofs.Fetch.Configure
import Changefeed.Proofs.Fetch.Task
import Changefeed.Proofs.Source

/-!
# What the incremental split delivers

An incremental split of one table that comes with the table's layout delivers the events of the log
behind its start and up to its end that no finished split has already.  It can go wrong when the
layout does not survive being written down, and then it delivers nothing wrong; where the layout
survives, nothing goes wrong.
-/

namespace Changefeed

/-- A position that has reached another one has the same encoding, unless that one is the initial
one. -/
lemma Offset.sameEncoding_of_reached {a b : Offset} (h : a.reached b = true) :
    b.isInitial = true ∨ a.sameEncoding b = true := by
  cases a with
  | binlog f p =>
    cases b with
    | binlog g q => exact .inr rfl
    | gtid t =>
      simp only [reached, compare?_binlog_gtid] at h
      split at h <;> simp at h
  | gtid s =>
    cases b with
    | gtid t => exact .inr rfl
    | binlog g q =>
      simp only [reached, compare?_gtid_binlog] at h
      split at h
      · next hinitial => exact .inl hinitial
      · simp at h

namespace StreamJob

variable {job : StreamJob} {h : SchemaHistory}

/-- A stream whose records are all dispatched does not fail, and it ends when one of them reaches
the end. -/
lemma trace_dispatched {records : List LogRecord}
    (hdispatch : ∀ r ∈ records, ∃ d, job.dispatcher.dispatch h r = .ok (d, h)) :
    (∀ f, (job.trace h records).2 ≠ .fails f) ∧
      ((∃ r ∈ records, job.isAtEnd r.position = true) → (job.trace h records).2 = .ends) := by
  induction records with
  | nil =>
    refine ⟨by simp [trace], ?_⟩
    rintro ⟨r, hr, -⟩
    cases hr
  | cons r records ih =>
    obtain ⟨d, hd⟩ := hdispatch r (.head _)
    obtain ⟨hrest, hends⟩ := ih fun x hx => hdispatch x (.tail _ hx)
    rw [trace, hd]
    split
    · exact ⟨by simp, fun _ => rfl⟩
    · dsimp only
      split
      · exact ⟨by simp, fun _ => rfl⟩
      · next hat =>
        refine ⟨hrest, ?_⟩
        rintro ⟨x, hx, hxat⟩
        rcases List.mem_cons.mp hx with rfl | hx
        · exact absurd hxat hat
        · exact hends ⟨x, hx, hxat⟩

end StreamJob

namespace Plan

variable {s : IncrementalSplit} {sh : Shared}

lemma encodingFault_none {ending : Offset} (hend : s.endingOffset = some ending)
    (hreached : ending.reached s.startingOffset = true) : encodingFault s = none := by
  unfold encodingFault
  rw [hend, Option.bind_some]
  refine if_pos ?_
  rcases Offset.sameEncoding_of_reached hreached with h | h <;> simp [h]

/-- A log is opened behind a start that can be served. -/
lemma openLog_quiet (sh : Shared) (hs : sh.server.Quiet)
    (hserved : (Server.ensureResumable s.startingOffset sh.server).1 = .ok ())
    (hencoding : encodingFault s = none) (batch : SchemaBatch) :
    ∃ sh', openLog s batch sh =
        (.ok { producer := .stream s.job { records := recordsAfter sh.server.log s.startingOffset
                                           endsWhenDrained := sh.server.endsWhenDrained }
               mode := .passThrough
               start := s.startingOffset }, sh') ∧
      sh'.history = batch.commit sh.history := by
  have hcounted := Server.counts_ensureResumable s.startingOffset sh.server
  generalize hserver : (Server.ensureResumable s.startingOffset sh.server).2 = server at hcounted
  have hreset := Server.resetListeners_quiet (hs.congr hcounted)
  have hcounted' := (Server.counts_resetListeners server).trans hcounted
  generalize hserver' : (Server.resetListeners server).2 = server' at hcounted'
  have hopen := (Server.openStream_quiet (hs.congr hcounted') s.startingOffset).1
  have hlog : server'.log = sh.server.log := Server.log_congr hcounted'
  have hdrained : server'.endsWhenDrained = sh.server.endsWhenDrained := by
    have hsame := congrArg Server.endsWhenDrained hcounted'
    exact hsame
  have hcommitted : Act.commit batch sh =
      (.ok (), { sh with history := batch.commit sh.history }) := rfl
  have hresumable : Act.ask (Server.ensureResumable s.startingOffset)
      { sh with history := batch.commit sh.history } =
        (.ok (), { sh with server, history := batch.commit sh.history }) := by
    rw [← hserver]
    exact Act.ask_of_ok hserved
  have hencoded : Act.ofOutcome (.ok ()) { sh with server, history := batch.commit sh.history } =
      (.ok (), { sh with server, history := batch.commit sh.history }) := rfl
  have hlistening : Act.ask Server.resetListeners
      { sh with server, history := batch.commit sh.history } =
        (.ok (), { sh with server := server', history := batch.commit sh.history }) := by
    rw [← hserver']
    exact Act.ask_of_ok hreset
  refine ⟨{ sh with
    server := (Server.openStream s.startingOffset server').2, history := batch.commit sh.history },
    ?_, rfl⟩
  unfold openLog
  rw [hencoding]
  dsimp only
  rw [Act.bind_of_ok hcommitted, Act.bind_of_ok hresumable, Act.bind_of_ok hencoded,
    Act.bind_of_ok hlistening, Act.bind_of_ok (Act.ask_of_ok hopen), Server.recordsAfter, hlog,
    hdrained]
  rfl

/-- A split of one table that comes with a layout is refused when the layout is, and else opens the
log. -/
lemma incremental_single {t : TableId} {blob : Blob} (htables : s.tableIds = [t])
    (hblob : s.historyRefs.find? t = some blob) (sh : Shared) :
    incremental s sh =
      match SchemaBatch.registerBlob {} t blob with
      | .ok batch => openLog s batch sh
      | .error f => (.error f, sh) := by
  have hbind : bindTables s {} s.tableIds =
      (Act.ofOutcome (SchemaBatch.registerBlob {} t blob) >>= fun batch => pure batch) := by
    rw [htables, bindTables, bindTable, hblob]
    rfl
  rw [incremental_eq, hbind]
  cases SchemaBatch.registerBlob {} t blob <;> rfl

end Plan

lemma SplitAssigner.legible_layoutFrom {layout : SchemaRecord} {start : Offset}
    (hlayout : layout.Legible) (hstart : start.Legible) : (layoutFrom layout start).Legible := by
  unfold layoutFrom
  split
  · exact hlayout
  · exact { hlayout with position := hstart }

lemma Pipeline.readSplit_refused {config : FetchConfig} {split : Split} {sh sh₁ : Shared}
    {f : Fault}
    (hplan : Plan.make config split { sh with metrics := sh.metrics.recordSplitStarted } =
      (.error f, sh₁)) : (readSplit config split sh).1 = .error f := by
  unfold readSplit
  rw [Task.configure_fresh, hplan]

namespace Source

variable {src : Source} {s : IncrementalSplit} {ending : Offset} {config : FetchConfig}

/-- What the rest of the log is read from: a server that fails no call, has the log and can still
serve the start. -/
structure Serves (src : Source) (start : Offset) (server : Server) : Prop where
  quiet : server.Quiet
  log : server.log = src.log
  retained : (Server.ensureResumable start server).1 = .ok ()

/-- The split streams the table alone, up to an end, and comes with its layout. -/
structure Streams (src : Source) (s : IncrementalSplit) (ending : Offset) : Prop where
  tables : s.tableIds = [src.tableId]
  ending : s.endingOffset = some ending
  layout : s.historyRefs.find? src.tableId =
    some (SplitAssigner.layoutFrom src.layout s.startingOffset).toBlob

/-- The events behind the start of a split and up to an end that no finished split has already. -/
def remainder (src : Source) (s : IncrementalSplit) (ending : Offset) : List ChangeEvent :=
  (src.events (upTo (recordsAfter src.log s.startingOffset) ending)).filter s.job.shouldEmit

/-- What is due of the log is the remainder. -/
lemma Streams.due_eq (h : src.Streams s ending) :
    s.job.due (fun _ => some src.layout) (recordsAfter src.log s.startingOffset) =
      src.remainder s ending := by
  have hevent : ∀ r, s.job.eventOf (fun _ => some src.layout) r =
      (src.layout.event? r).filter s.job.shouldEmit := by
    intro r
    cases r with
    | schemaChange r => rfl
    | heartbeat position => rfl
    | change c =>
      have hcaptures : s.job.dispatcher.captures c.tableId = decide (c.tableId = src.tableId) := by
        simp [IncrementalSplit.job, Dispatcher.captures, h.tables]
      rw [StreamJob.eventOf, hcaptures]
      by_cases htable : c.tableId = src.tableId
      · rw [if_pos (by simpa using htable), StreamJob.rowEvent, SchemaRecord.event?, Option.map_some]
        cases c.decodeWith src.layout with
        | error f => rfl
        | ok e => exact (Option.filter_some ..).symm
      · rw [if_neg (by simpa using htable)]
        cases he : src.layout.event? (.change c) with
        | none => rfl
        | some e =>
          obtain ⟨c', hc', -, hread⟩ := SchemaRecord.event?_eq_some he
          obtain rfl := LogRecord.change.inj hc'
          exact absurd hread.table.symm htable
  have hend : ∀ r : LogRecord, s.job.isBeyond r.position = r.position.after ending := fun r => by
    simp [StreamJob.isBeyond, IncrementalSplit.job, h.ending]
  rw [StreamJob.due, remainder, events, SchemaRecord.events, List.filter_filterMap, upTo]
  simp only [hend, hevent]

/-- A session that streams the rest of the log delivers the remainder, unless it fails. -/
lemma Regular.drained_stream (hsrc : src.Regular) (hstreams : src.Streams s ending)
    (hending : ending.Normal) {session : Session} {sh : Shared} (hattached : session.Attached)
    (hpassing : session.reader.Passing) (hpending : session.reader.pending = [])
    (hreads : StreamJob.Reads sh.history (fun _ => some src.layout)) {endsWhenDrained : Bool}
    (hout : session.output sh = (Producer.stream s.job
      { records := recordsAfter src.log s.startingOffset, endsWhenDrained }).output sh) :
    let trace := s.job.trace sh.history (recordsAfter src.log s.startingOffset)
    ((∀ f, trace.2 ≠ .fails f) → (session.drain sh).1.flatten = src.remainder s ending) ∧
      (session.drain sh).2.1 = (StreamJob.drainedFinish endsWhenDrained trace.2).stop ∧
      (trace.2 = .ends →
        ∃ o, (session.drain sh).2.2.1.reader.completion =
          some ⟨session.reader.splitId, some o⟩) := by
  intro trace
  have hwhole : Producer.Uninterrupted
      { records := recordsAfter src.log s.startingOffset, endsWhenDrained } := ⟨rfl, rfl⟩
  obtain ⟨hrecords, hfinish⟩ := Producer.output_stream_uninterrupted s.job hwhole sh
  rw [← hout] at hrecords hfinish
  have hdrained := Session.drain_drained session sh hattached hpassing
  refine ⟨fun hgood => ?_, ?_, fun hends => ?_⟩
  · have hstable : s.job.Stable (recordsAfter src.log s.startingOffset) := by
      intro r hr
      have hother := hsrc.stable r (mem_recordsAfter.mp hr).1
      simp [IncrementalSplit.job, Dispatcher.captures, hstreams.tables, hother]
    have hnormal : ∀ e ∈ s.job.ending, e.Normal := by
      intro e he
      obtain rfl := Option.some.inj (hstreams.ending.symm.trans he)
      exact hending
    rw [hdrained.events, hpending, hrecords, List.nil_append, ← hstreams.due_eq]
    have hordered := hsrc.ordered.ordered_after s.startingOffset
    exact (StreamJob.due_of_complete hreads hnormal hordered hstable hgood).symm
  · rw [hdrained.stop_eq, hfinish]
  · have hended : (session.output sh).finish = .ends := by
      rw [hfinish, hends]
      rfl
    have hid : (session.reader.passAll (session.output sh).records).splitId =
        session.reader.splitId :=
      congrArg Lifecycle.splitId (Reader.passAll_lifecycle ..)
    exact ⟨_, (hdrained.completion hended).trans (by rw [Reader.report, hid])⟩

/-- A change behind the start is read with the layout that comes with the split. -/
lemma Regular.decode_from (hsrc : src.Regular) {start : Offset} {h : SchemaHistory}
    (hknows : src.Knows h) {c : RowChange} (hc : .change c ∈ recordsAfter src.log start)
    (htable : c.tableId = src.tableId) :
    Dispatcher.decode (h.append (SplitAssigner.layoutFrom src.layout start)) c =
      c.decodeWith src.layout := by
  obtain ⟨hlogged, hafter⟩ := mem_recordsAfter.mp hc
  refine hknows.decode_append (SplitAssigner.layoutFrom_tableId ..)
    (SplitAssigner.layoutFrom_columns ..) htable ?_
  rw [SplitAssigner.layoutFrom]
  split
  · exact hsrc.recorded _ hlogged
  · exact Offset.reached_iff.mpr (.inr hafter)

/-- A log that has reached a position behind the start has done so behind the start. -/
lemma reached_behind {log : List LogRecord} (hlog : Ordered log) {start ending : Offset}
    (hstart : start.Normal) (hending : ending.Normal) (hbefore : start.before ending = true)
    (h : ∃ r ∈ log, r.position.reached ending = true) :
    ∃ r ∈ recordsAfter log start, r.position.reached ending = true := by
  obtain ⟨r, hr, hat⟩ := h
  have hnormal := hlog.normal r hr
  have hlater : start.before r.position = true := by
    rcases Offset.reached_iff.mp hat with heq | hafter
    · exact heq ▸ hbefore
    · exact Offset.before_trans hstart hending hnormal hbefore
        ((Offset.after_iff_before hending hnormal).mp hafter)
  exact ⟨r, mem_recordsAfter.mpr ⟨hr, (Offset.after_iff_before hstart hnormal).mpr hlater⟩, hat⟩

/-- Where its layout survives being written down, a split fails at no record, and comes to its end
when a record behind its start has reached it. -/
lemma Regular.trace_stream (hsrc : src.Regular) (hstreams : src.Streams s ending)
    {h h' : SchemaHistory} (hknows : src.Knows h)
    (hh : h' = h.append (SplitAssigner.layoutFrom src.layout s.startingOffset)) :
    let trace := s.job.trace h' (recordsAfter src.log s.startingOffset)
    (∀ f, trace.2 ≠ .fails f) ∧
      ((∃ r ∈ recordsAfter src.log s.startingOffset, r.position.reached ending = true) →
        trace.2 = .ends) := by
  intro trace
  have hdispatch : ∀ r ∈ recordsAfter src.log s.startingOffset,
      ∃ d, s.job.dispatcher.dispatch h' r = .ok (d, h') := by
    intro r hr
    obtain ⟨d, hd, -⟩ := hsrc.dispatch_eq (mem_recordsAfter.mp hr).1
      fun c hc htable => hh ▸ hsrc.decode_from hknows (hc ▸ hr) htable
    rw [← hstreams.tables] at hd
    exact ⟨d, hd⟩
  obtain ⟨hgood, hends⟩ := StreamJob.trace_dispatched hdispatch
  refine ⟨hgood, ?_⟩
  rintro ⟨r, hr, hat⟩
  refine hends ⟨r, hr, ?_⟩
  simpa [StreamJob.isAtEnd, IncrementalSplit.job, hstreams.ending] using hat

/-- A split that streams the rest of the log delivers the remainder whenever it is read without a
failure, and it is read without one where its layout survives being written down; it comes to its
end unless that is its start. -/
lemma readSplit_stream (hsrc : src.Regular) (hconfig : config.fault? = none)
    (hstreams : src.Streams s ending) (hstart : s.startingOffset.Normal) (hending : ending.Normal)
    (hreached : ending.reached s.startingOffset = true)
    (hlogged : ∃ r ∈ src.log, r.position.reached ending = true) {sh : Shared}
    (hserves : src.Serves s.startingOffset sh.server) (hknows : src.Knows sh.history) :
    (∀ es stop c task sh', Pipeline.readSplit config (.incremental s) sh =
        (.ok (es, stop, c), task, sh') → (∀ f, stop ≠ .failed f) → es = src.remainder s ending) ∧
      ((SplitAssigner.layoutFrom src.layout s.startingOffset).Legible →
        ∃ stop c task sh', Pipeline.readSplit config (.incremental s) sh =
            (.ok (src.remainder s ending, stop, c), task, sh') ∧
          (s.startingOffset.before ending = true →
            stop = .ended ∧ ∃ o, c = some ⟨s.splitId, some o⟩)) := by
  generalize href : SplitAssigner.layoutFrom src.layout s.startingOffset = ref
  have hsingle := Plan.incremental_single hstreams.tables hstreams.layout
    { sh with metrics := sh.metrics.recordSplitStarted }
  rw [href] at hsingle
  cases hregister : SchemaBatch.registerBlob {} src.tableId ref.toBlob with
  | error f =>
    rw [hregister] at hsingle
    have hplan : Plan.make config (.incremental s)
        { sh with metrics := sh.metrics.recordSplitStarted } = (.error f, _) := hsingle
    have hrefused := Pipeline.readSplit_refused hplan
    refine ⟨fun es stop c task sh' hread => ?_, fun hlegible => ?_⟩
    · rw [hread] at hrefused
      cases hrefused
    · have hreft : ref.tableId = src.tableId := by
        rw [← href, SplitAssigner.layoutFrom_tableId]
        rfl
      rw [SchemaBatch.registerBlob, SchemaRecord.ofBlob_toBlob hlegible] at hregister
      dsimp only at hregister
      rw [if_pos hreft] at hregister
      cases hregister
  | ok batch =>
    rw [hregister] at hsingle
    obtain ⟨r, hblob, hr, hpending⟩ := SchemaBatch.registerBlob_ok hregister
    have hcolumns : r.columns = src.layout.columns := by
      rw [SchemaRecord.columns_of_ofBlob hblob, ← href, SplitAssigner.layoutFrom_columns]
    obtain ⟨sh₁, hopen, hhistory⟩ :=
      Plan.openLog_quiet { sh with metrics := sh.metrics.recordSplitStarted } hserves.quiet
        hserves.retained (Plan.encodingFault_none hstreams.ending hreached) batch
    have hh : sh₁.history = sh.history.append r := by
      rw [hhistory, SchemaBatch.commit, hpending]
      rfl
    have hknows₁ : src.Knows sh₁.history := hh ▸ hknows.append hr hcolumns
    have hlog : ({ sh with metrics := sh.metrics.recordSplitStarted } : Shared).server.log =
        src.log := hserves.log
    rw [hlog] at hopen
    let plan : Plan :=
      { producer := .stream s.job { records := recordsAfter src.log s.startingOffset
                                    endsWhenDrained := sh.server.endsWhenDrained }
        mode := .passThrough
        start := s.startingOffset }
    have hplan : Plan.make config (.incremental s)
        { sh with metrics := sh.metrics.recordSplitStarted } = (.ok plan, sh₁) :=
      hsingle.trans hopen
    obtain ⟨task, sh', hread, -⟩ := Pipeline.readSplit_of_plan hplan
    have hattached : (plan.begun config (.incremental s)).Attached := Plan.begun_attached hconfig
    have hpassing : (plan.begun config (.incremental s)).reader.Passing := Plan.begun_passing rfl
    obtain ⟨hevents, hstop, hcompletion⟩ := hsrc.drained_stream hstreams hending hattached hpassing
      rfl hknows₁.reads (Plan.begun_output sh₁)
    refine ⟨fun es stop c task' sh'' hread' hgood => ?_, fun hlegible => ?_⟩
    · obtain ⟨hresult, -⟩ := Prod.mk.inj (hread.symm.trans hread')
      obtain ⟨rfl, hrest⟩ := Prod.mk.inj (Except.ok.inj hresult)
      obtain ⟨rfl, -⟩ := Prod.mk.inj hrest
      refine hevents fun f hf => hgood f ?_
      rw [hstop, hf]
      rfl
    · obtain rfl : r = ref := Except.ok.inj (hblob.symm.trans (SchemaRecord.ofBlob_toBlob hlegible))
      obtain ⟨hgood, hends⟩ := hsrc.trace_stream hstreams hknows (href ▸ hh)
      refine ⟨_, _, task, sh', by rw [hread, hevents hgood], fun hbefore => ?_⟩
      have hended := hends (reached_behind hsrc.ordered hstart hending hbefore hlogged)
      exact ⟨by rw [hstop, hended]; rfl, hcompletion hended⟩

end Source
end Changefeed
