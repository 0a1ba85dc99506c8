import Changefeed.Proofs.Fetch.Held
import Changefeed.Proofs.Fetch.Shared
import Changefeed.Proofs.Fetch.Streaming
import Changefeed.Proofs.Fetch.Task
import Changefeed.Proofs.Source

/-!
# What a snapshot split makes

A snapshot split makes an insert of every row of its scan, counted as of the low watermark.  When it
is delivered exactly once and the database has moved on, it goes on with the changes of its rows in
the log behind the low watermark.  It takes the records one by one and stops at the first one that
has reached the high watermark, which it still takes unless it lies behind that.  What comes behind
this record at the same position is not looked at any more.  At the end stands the watermark.

This holds of every table, scan and log, as long as each row of the scan is an insert that is read
with the layout, each record behind the low watermark is dispatched with it, and one of these has
reached the high watermark, so that the replay does not wait.
-/

namespace Changefeed

/-- The records that a replay takes. -/
def replayedRecords (high : Offset) : List LogRecord → List LogRecord
  | [] => []
  | r :: rest =>
    if r.position.after high then []
    else if r.position.reached high then [r]
    else r :: replayedRecords high rest

lemma replayedRecords_sublist (high : Offset) (records : List LogRecord) :
    (replayedRecords high records).Sublist records := by
  induction records with
  | nil => exact .slnil
  | cons r records ih =>
    rw [replayedRecords]
    split
    · exact List.nil_sublist _
    · split
      · exact List.cons_sublist_cons.mpr (List.nil_sublist _)
      · exact List.cons_sublist_cons.mpr ih

lemma replayedRecords_self (log : List LogRecord) (o : Offset) :
    replayedRecords o (recordsAfter log o) = [] := by
  cases hrecords : recordsAfter log o with
  | nil => rfl
  | cons r rest =>
    have hr : r ∈ recordsAfter log o := hrecords ▸ .head _
    rw [replayedRecords, if_pos (mem_recordsAfter.mp hr).2]

/-- A record of a log that has reached a position behind another one lies behind that one. -/
lemma exists_reached_behind {log : List LogRecord} (hnormal : ∀ r ∈ log, r.position.Normal)
    {low high : Offset} (hlow : low.Normal) (hhigh : high.Normal)
    (hascending : high.reached low = true)
    (hreached : ∃ r ∈ log, r.position.reached high = true) :
    high = low ∨ ∃ r ∈ recordsAfter log low, r.position.reached high = true := by
  refine (Offset.reached_iff.mp hascending).imp_right fun hafter => ?_
  obtain ⟨r, hr, hat⟩ := hreached
  have hbefore := (Offset.after_iff_before hlow hhigh).mp hafter
  have hbehind := Offset.before_of_reached hlow hhigh (hnormal r hr) hascending
  refine ⟨r, mem_recordsAfter.mpr ⟨hr, (Offset.after_iff_before hlow (hnormal r hr)).mpr ?_⟩, hat⟩
  rcases Offset.reached_iff.mp hat with heq | hafter
  · exact heq ▸ hbefore
  · exact hbehind ((Offset.after_iff_before hhigh (hnormal r hr)).mp hafter)

namespace SnapshotJob

/-- The watermark of a split. -/
def watermark (job : SnapshotJob) (low high : Offset) : Offset :=
  if job.exactlyOnce then high else low

/-- The changes that a split replays: those of its rows in the log between the watermarks. -/
def replays (job : SnapshotJob) (log : List LogRecord) (low high : Offset) : List ChangeEvent :=
  if job.exactlyOnce then
    (job.schema.events (replayedRecords high (recordsAfter log low))).filter job.holds
  else []

/-- The changes that a split makes: its rows as of the low watermark, and behind them what it
replays. -/
def makes (job : SnapshotJob) (log : List LogRecord) (low high : Offset)
    (records : List LogRecord) : List ChangeEvent :=
  (job.schema.events records).map (fun e => { e with position := low }) ++ job.replays log low high

/-- A row of a scan that can be read. -/
def Scans (job : SnapshotJob) (r : LogRecord) : Prop :=
  ∃ c e, r = .change c ∧ c.kind = .insert ∧ c.decodeWith job.schema = .ok e

/-- A record that is dispatched to its event, if it has one, and changes nothing. -/
def Dispatches (job : SnapshotJob) (h : SchemaHistory) (r : LogRecord) : Prop :=
  ∃ d, job.dispatcher.dispatch h r = .ok (d, h) ∧ (∀ t, d ≠ .schemaChanged t) ∧
    d.event? = job.schema.event? r

/-- What lets a split run to its end: a server that fails no call, a scan of rows that can be read,
and behind the first position that the server answers a log that can be dispatched and has a record
that has reached the second one. -/
structure Runs (job : SnapshotJob) (server : Server) (h : SchemaHistory)
    (records : List LogRecord) : Prop where
  quiet : server.Quiet
  scan : server.scanned.elim (server.scanRows job.split) .ok = .ok records
  scans : ∀ r ∈ records, job.Scans r
  dispatches : ∀ r ∈ recordsAfter server.log server.answer, job.Dispatches h r
  reached : server.nextAnswer = server.answer ∨
    ∃ r ∈ recordsAfter server.log server.answer, r.position.reached server.nextAnswer = true

end SnapshotJob

namespace Producer

variable {job : SnapshotJob} {sh : Shared}

/-! ## One phase after the other -/

lemma output_mark (w : Offset) (sh : Shared) :
    (mark w).output sh = ⟨[.watermark w], .ends, sh.source⟩ := by
  have hstep : (mark w).step sh = (.ok (.push (.watermark w) .done), sh) := rfl
  rw [output_push hstep, output_done]
  rfl

/-- Scanned rows are inserts as of the low watermark. -/
lemma output_scan (low : Offset) {records : List LogRecord} (hrows : ∀ r ∈ records, job.Scans r) :
    (scan job low { records, endsWhenDrained := true }).output sh =
      ((measure job low).output sh).after
        ((job.schema.events records).map fun e => .change { e with position := low }) := by
  induction records with
  | nil => exact output_quiet rfl
  | cons r records ih =>
    obtain ⟨c, e, rfl, hkind, hdecode⟩ := hrows r (.head _)
    have hnext : LogStream.next { records := .change c :: records, endsWhenDrained := true } =
        (.record (.change c), { records, endsWhenDrained := true }) := rfl
    have hstep :
        (scan job low { records := .change c :: records, endsWhenDrained := true }).step sh =
        (.ok (.push (.change { e with position := low })
          (.scan job low { records, endsWhenDrained := true })), sh) := by
      simp [step, scanStep, hnext, hkind, hdecode]
    have hevents : job.schema.events (.change c :: records) = e :: job.schema.events records := by
      simp [SchemaRecord.events_cons, SchemaRecord.event?, hdecode, Except.toOption]
    rw [output_push hstep, ih fun r hr => hrows r (.tail _ hr), Output.after_after, hevents]
    rfl

/-- Without a replay a split ends as of the low watermark. -/
lemma output_measure_low {low : Offset} (hs : sh.server.Quiet)
    (h : job.exactlyOnce = false ∨ sh.server.answer = low) :
    ∃ source, (measure job low).output sh = ⟨[.watermark low], .ends, source⟩ ∧
      source.history = sh.history ∧
      source.server.uncounted = sh.server.answered.uncounted := by
  obtain ⟨hposition, hanswered⟩ := Server.currentPosition_quiet hs
  have hstep : (measure job low).step sh = (.ok (.quiet (.mark low)),
      { sh with server := (Server.currentPosition sh.server).2 }) := by
    have hnone : (!job.exactlyOnce || decide (sh.server.answer = low)) = true := by
      rcases h with h | h <;> simp [h]
    simp only [step, measureStep, Act.ask, hposition]
    rw [if_pos hnone]
  rw [output_quiet hstep, output_mark]
  exact ⟨_, rfl, rfl, hanswered⟩

/-- With one it goes on with the log behind the low watermark. -/
lemma output_measure_replay {low : Offset} (hs : sh.server.Quiet) (h : job.exactlyOnce = true)
    (hmoved : sh.server.answer ≠ low) :
    ∃ sh' endsWhenDrained, (measure job low).output sh =
        (replay job sh.server.answer
          { records := recordsAfter sh.server.log low, endsWhenDrained }).output sh' ∧
      sh'.history = sh.history ∧ sh'.server.uncounted = sh.server.answered.uncounted := by
  obtain ⟨hposition, hanswered⟩ := Server.currentPosition_quiet hs
  have hlog : (Server.currentPosition sh.server).2.log = sh.server.log :=
    (Server.log_congr hanswered).trans rfl
  obtain ⟨hopen, hopened⟩ := Server.openStream_quiet (hs.answered.congr hanswered) low
  have hmore : ¬ (!job.exactlyOnce || decide (sh.server.answer = low)) = true := by
    simp [h, hmoved]
  have hstep : (measure job low).step sh = (.ok (.quiet (.replay job sh.server.answer
      { records := recordsAfter sh.server.log low
        endsWhenDrained := (Server.currentPosition sh.server).2.endsWhenDrained })),
      { sh with server := (Server.openStream low (Server.currentPosition sh.server).2).2 }) := by
    simp only [step, measureStep, Act.ask, hposition]
    rw [if_neg hmore, hopen, Server.recordsAfter, hlog]
    rfl
  exact ⟨_, _, output_quiet hstep, rfl, hopened.trans hanswered⟩

/-! ## The replay -/

/-- What a replay makes of a record is its event, if the split holds it. -/
lemma replayed_eq (job : SnapshotJob) (next : Producer) (d : Dispatched) :
    replayed job next d =
      match (d.event?.filter job.holds) with
      | some e => .push (.change e) next
      | none => .quiet next := by
  cases d with
  | event e =>
    simp only [replayed, Dispatched.event?, Option.filter_some]
    split <;> rfl
  | schemaChanged t => rfl
  | heartbeat position => rfl
  | skipped => rfl

lemma countDispatched_eq (m : Metrics) {d : Dispatched} (h : ∀ t, d ≠ .schemaChanged t) :
    countDispatched m d = m := by
  cases d with
  | schemaChanged t => exact absurd rfl (h t)
  | event e => rfl
  | heartbeat position => rfl
  | skipped => rfl

lemma step_replay_past {r : LogRecord} {high : Offset} (h : r.position.after high = true)
    (records : List LogRecord) (endsWhenDrained : Bool) :
    (replay job high { records := r :: records, endsWhenDrained }).step sh =
      (.ok (.quiet (.mark high)), sh) := by
  have hnext : LogStream.next { records := r :: records, endsWhenDrained } =
      (.record r, { records, endsWhenDrained }) := rfl
  simp [step, replayStep, hnext, h]

lemma step_replay_record {r : LogRecord} {high : Offset} (h : ¬ r.position.after high = true)
    {d : Dispatched} (hdispatch : job.dispatcher.dispatch sh.history r = .ok (d, sh.history))
    (hkind : ∀ t, d ≠ .schemaChanged t) (records : List LogRecord) (endsWhenDrained : Bool) :
    (replay job high { records := r :: records, endsWhenDrained }).step sh =
      (.ok (replayed job (afterReplay job high { records, endsWhenDrained } r.position) d),
        sh) := by
  have hnext : LogStream.next { records := r :: records, endsWhenDrained } =
      (.record r, { records, endsWhenDrained }) := rfl
  simp [step, replayStep, hnext, h, hdispatch, countDispatched_eq _ hkind]

/-- A replay makes the events of the split among the records that it takes. -/
lemma output_replay {high : Offset} {records : List LogRecord}
    (hdispatch : ∀ r ∈ records, job.Dispatches sh.history r)
    (hreached : ∃ r ∈ records, r.position.reached high = true) (endsWhenDrained : Bool) :
    (replay job high { records, endsWhenDrained }).output sh =
      ⟨((job.schema.events (replayedRecords high records)).filter job.holds).map .change ++
        [.watermark high], .ends, sh.source⟩ := by
  induction records with
  | nil =>
    obtain ⟨r, hr, -⟩ := hreached
    cases hr
  | cons r records ih =>
    by_cases hafter : r.position.after high = true
    · rw [output_quiet (step_replay_past hafter records endsWhenDrained), output_mark,
        replayedRecords, if_pos hafter]
      rfl
    · obtain ⟨d, hd, hkind, hevent⟩ := hdispatch r (.head _)
      have hstep := step_replay_record hafter hd hkind records endsWhenDrained
      -- What comes behind the record: nothing when it has reached the watermark, else the rest.
      obtain ⟨taken, htaken, hrest⟩ : ∃ taken,
          replayedRecords high (r :: records) = r :: taken ∧
          (afterReplay job high { records, endsWhenDrained } r.position).output sh =
            ⟨((job.schema.events taken).filter job.holds).map .change ++ [.watermark high],
              .ends, sh.source⟩ := by
        rw [replayedRecords, if_neg hafter, afterReplay]
        by_cases hat : r.position.reached high = true
        · rw [if_pos hat, if_pos hat]
          exact ⟨[], rfl, output_mark high sh⟩
        · rw [if_neg hat, if_neg hat]
          refine ⟨_, rfl, ih (fun x hx => hdispatch x (.tail _ hx)) ?_⟩
          obtain ⟨x, hx, hxhigh⟩ := hreached
          rcases List.mem_cons.mp hx with rfl | hx
          · exact absurd hxhigh hat
          · exact ⟨x, hx, hxhigh⟩
      rw [replayed_eq, hevent] at hstep
      rw [htaken, SchemaRecord.events_cons, List.filter_append]
      cases he : job.schema.event? r with
      | none =>
        rw [he] at hstep
        rw [output_quiet hstep, hrest]
        rfl
      | some e =>
        rw [he, Option.filter_some] at hstep
        by_cases hholds : job.holds e = true
        · rw [if_pos hholds] at hstep
          rw [output_push hstep, hrest]
          simp [Output.after, hholds]
        · rw [if_neg hholds] at hstep
          rw [output_quiet hstep, hrest]
          simp [hholds]

/-! ## The whole split -/

/-- After its scan a split makes what it replays and then its watermark. -/
lemma output_measure (hs : sh.server.Quiet) {low : Offset}
    (hdispatch : ∀ r ∈ recordsAfter sh.server.log low, job.Dispatches sh.history r)
    (hreached : sh.server.answer = low ∨
      ∃ r ∈ recordsAfter sh.server.log low, r.position.reached sh.server.answer = true) :
    ∃ source, (measure job low).output sh =
        ⟨(job.replays sh.server.log low sh.server.answer).map .change ++
          [.watermark (job.watermark low sh.server.answer)], .ends, source⟩ ∧
      source.history = sh.history ∧
      source.server.uncounted = sh.server.answered.uncounted := by
  unfold SnapshotJob.watermark SnapshotJob.replays
  cases honce : job.exactlyOnce with
  | false => exact output_measure_low hs (.inl honce)
  | true =>
    by_cases hmoved : sh.server.answer = low
    · obtain ⟨source, hout, hsame⟩ := output_measure_low hs (.inr hmoved)
      refine ⟨source, ?_, hsame⟩
      rw [hout, hmoved, replayedRecords_self]
      rfl
    · obtain ⟨sh', endsWhenDrained, hout, hhistory, hserver⟩ :=
        output_measure_replay hs honce hmoved
      refine ⟨sh'.source, ?_, hhistory, hserver⟩
      rw [hout]
      exact output_replay (hhistory ▸ hdispatch) (hreached.resolve_left hmoved) endsWhenDrained

/-- A split makes its changes and then its watermark. -/
lemma output_start {records : List LogRecord} (hruns : job.Runs sh.server sh.history records) :
    ∃ source, (start job).output sh =
        ⟨(job.makes sh.server.log sh.server.answer sh.server.nextAnswer records).map .change ++
          [.watermark (job.watermark sh.server.answer sh.server.nextAnswer)], .ends, source⟩ ∧
      source.history = sh.history ∧
      source.server.uncounted = sh.server.answered.answered.uncounted := by
  obtain ⟨hposition, hanswered⟩ := Server.currentPosition_quiet hruns.quiet
  generalize hfirst : (Server.currentPosition sh.server).2 = first at hanswered
  have hanswering := hruns.quiet.answered
  have hscan₁ : first.scanned.elim (first.scanRows job.split) .ok = .ok records := by
    have hsame := congrArg (fun s : Server => s.scanned.elim (s.scanRows job.split) .ok) hanswered
    exact hsame.trans hruns.scan
  have hrun := Server.scan_quiet (hanswering.congr hanswered) hscan₁
  have hscanned := (Server.counts_scan job.split first).trans hanswered
  obtain ⟨sh₂, hserver, hhistory₂, hstep⟩ : ∃ sh₂ : Shared,
      sh₂.server = (Server.scan job.split first).2 ∧ sh₂.history = sh.history ∧
        (start job).step sh =
          (.ok (.quiet (.scan job sh.server.answer { records, endsWhenDrained := true })),
            sh₂) := by
    refine ⟨{ sh with server := (Server.scan job.split first).2 }, rfl, rfl, ?_⟩
    simp only [step, startStep, Act.ask, hposition, hfirst, hrun]
  rw [← hserver] at hscanned
  have hhigh : sh₂.server.answer = sh.server.nextAnswer := by
    have hsame := congrArg Server.answer hscanned
    exact hsame
  have hlog : sh₂.server.log = sh.server.log := (Server.log_congr hscanned).trans rfl
  obtain ⟨source, hout, hhistory, hserver₃⟩ := output_measure (hanswering.congr hscanned)
    (hlog ▸ hhistory₂ ▸ hruns.dispatches) (hlog ▸ hhigh ▸ hruns.reached)
  refine ⟨source, ?_, hhistory.trans hhistory₂, hserver₃.trans (Server.answered_congr hscanned)⟩
  rw [output_quiet hstep, output_scan _ hruns.scans, hout, hhigh, hlog, SnapshotJob.makes,
    List.map_append, List.map_map, List.append_assoc]
  rfl

end Producer

/-! ## Reading the split -/

/-- The plan for a snapshot split, where nothing is in its way. -/
lemma Plan.snapshot_ok (config : FetchConfig) {s : SnapshotSplit} (sh : Shared)
    {layout : SchemaRecord} (hs : sh.server.Quiet)
    (hlayout : sh.server.schemas.find? s.tableId = some layout)
    (hkey : (layout.column? s.keyColumn).isSome) :
    ∃ sh', snapshot config s sh =
        (.ok { producer := .start ⟨s, layout, config.exactlyOnce⟩
               mode := if config.exactlyOnce then .normalize { keyColumn := s.keyColumn }
                 else .passThrough
               start := .initial }, sh') ∧
      sh'.server.uncounted = sh.server.uncounted ∧ sh'.history = sh.history.append layout := by
  have hschema := Server.querySchema_quiet hs hlayout
  have hcounted := Server.counts_querySchema s.tableId sh.server
  generalize hserver : (Server.querySchema s.tableId sh.server).2 = server at hcounted
  have hreset := Server.resetListeners_quiet (hs.congr hcounted)
  have hcounted' := (Server.counts_resetListeners server).trans hcounted
  refine ⟨{ sh with
    server := (Server.resetListeners server).2, history := sh.history.append layout },
    ?_, hcounted', rfl⟩
  unfold snapshot
  rw [Act.bind_of_ok (Act.ask_of_ok hschema), hserver]
  have hrequired : Act.require (layout.column? s.keyColumn).isSome
      (.schema (.keyNotAColumn s.keyColumn s.tableId.text)) { sh with server } =
        (.ok (), { sh with server }) := by
    rw [Act.require, hkey]
    rfl
  have hregistered : Act.ofOutcome (SchemaBatch.register {} layout) { sh with server } =
      (.ok ⟨[layout]⟩, { sh with server }) := rfl
  have hcommitted : Act.commit ⟨[layout]⟩ { sh with server } =
      (.ok (), { sh with server, history := sh.history.append layout }) := rfl
  have hresumable : Act.ask (Server.ensureResumable .initial)
      { sh with server, history := sh.history.append layout } =
        (.ok (), { sh with server, history := sh.history.append layout }) := rfl
  have hlistening : Act.ask Server.resetListeners
      { sh with server, history := sh.history.append layout } =
        (.ok (), { sh with
          server := (Server.resetListeners server).2, history := sh.history.append layout }) :=
    Act.ask_of_ok hreset
  rw [Act.bind_of_ok hrequired, Act.bind_of_ok hregistered, Act.bind_of_ok hcommitted,
    Act.bind_of_ok hresumable, Act.bind_of_ok hlistening]
  rfl

/-- What lets a split run does not depend on what the server has counted. -/
lemma SnapshotJob.Runs.congr {job : SnapshotJob} {server server' : Server} {h : SchemaHistory}
    {records : List LogRecord} (hruns : job.Runs server h records)
    (heq : server'.uncounted = server.uncounted) : job.Runs server' h records := by
  have hanswer : server'.answer = server.answer := by
    have hsame := congrArg Server.answer heq
    exact hsame
  have hnextAnswer : server'.nextAnswer = server.nextAnswer := by
    have hsame := congrArg Server.nextAnswer heq
    exact hsame
  have hscan : server'.scanned.elim (server'.scanRows job.split) .ok =
      server.scanned.elim (server.scanRows job.split) .ok := by
    have hsame := congrArg
      (fun server : Server => server.scanned.elim (server.scanRows job.split) .ok) heq
    exact hsame
  have hlog := Server.log_congr heq
  exact
    { quiet := hruns.quiet.congr heq
      scan := hscan.trans hruns.scan
      scans := hruns.scans
      dispatches := by rw [hlog, hanswer]; exact hruns.dispatches
      reached := by rw [hlog, hanswer, hnextAnswer]; exact hruns.reached }

/-- A split that can run is read to its end and completed at its watermark.  Its changes are
delivered as they are, or the normalizer gives out the final rows. -/
lemma Pipeline.readSplit_of_runs {config : FetchConfig} (hconfig : config.fault? = none)
    {s : SnapshotSplit} {layout : SchemaRecord} {sh : Shared} {records : List LogRecord}
    (hlayout : sh.server.schemas.find? s.tableId = some layout)
    (hkey : (layout.column? s.keyColumn).isSome)
    (hruns : SnapshotJob.Runs ⟨s, layout, config.exactlyOnce⟩ sh.server (sh.history.append layout)
      records) :
    let job : SnapshotJob := ⟨s, layout, config.exactlyOnce⟩
    let low := sh.server.answer
    let high := sh.server.nextAnswer
    let changes := job.makes sh.server.log low high records
    (config.exactlyOnce = true →
      ∃ n, Normalizer.applyAll { keyColumn := s.keyColumn } changes = .ok n) →
    ∃ es task sh', readSplit config (.snapshot s) sh =
        (.ok (es, .ended, some ⟨s.splitId, some (job.watermark low high)⟩), task, sh') ∧
      sh'.history = sh.history.append layout ∧
      sh'.server.uncounted = sh.server.answered.answered.uncounted ∧
      if config.exactlyOnce then
        ∃ n, Normalizer.applyAll { keyColumn := s.keyColumn } changes = .ok n ∧
          es = n.finish (job.watermark low high)
      else es = changes := by
  intro job low high changes hkept
  obtain ⟨sh₁, hplan, hcounted, hhistory⟩ :=
    Plan.snapshot_ok config { sh with metrics := sh.metrics.recordSplitStarted } hruns.quiet
      hlayout hkey
  have hanswer : sh₁.server.answer = low := by
    have hsame := congrArg Server.answer hcounted
    exact hsame
  have hnextAnswer : sh₁.server.nextAnswer = high := by
    have hsame := congrArg Server.nextAnswer hcounted
    exact hsame
  have hlog : sh₁.server.log = sh.server.log := Server.log_congr hcounted
  have hruns₁ : job.Runs sh₁.server sh₁.history records := hhistory ▸ hruns.congr hcounted
  obtain ⟨source, hout, hsource, hserver⟩ := Producer.output_start hruns₁
  rw [hanswer, hnextAnswer, hlog] at hout
  let plan : Plan :=
    { producer := .start job
      mode := if config.exactlyOnce then .normalize { keyColumn := s.keyColumn } else .passThrough
      start := .initial }
  have hmade : Plan.make config (.snapshot s) { sh with metrics := sh.metrics.recordSplitStarted } =
      (.ok plan, sh₁) := hplan
  obtain ⟨task, sh', hread, hhistory', hserver'⟩ := Pipeline.readSplit_of_plan hmade
  have hattached : (plan.begun config (.snapshot s)).Attached := Plan.begun_attached hconfig
  have hend : ((plan.begun config (.snapshot s)).drain sh₁).2.2.2.source = source →
      sh'.history = sh.history.append layout ∧
        sh'.server.uncounted = sh.server.answered.answered.uncounted := by
    intro hdrained
    rw [← hdrained] at hsource hserver
    have htwice := Server.answered_congr (Server.answered_congr hcounted)
    exact ⟨hhistory'.trans (hsource.trans hhistory), hserver'.trans (hserver.trans htwice)⟩
  cases honce : config.exactlyOnce with
  | false =>
    have hmode : plan.mode = .passThrough := if_neg (by simp [honce])
    obtain ⟨hevents, hstop, hcompletion, hdrained⟩ :=
      Session.drain_passing hattached (Plan.begun_passing hmode) rfl hout
    refine ⟨changes, task, sh', ?_, (hend hdrained).1, (hend hdrained).2, rfl⟩
    rw [hread, hevents, hstop, hcompletion]
    rfl
  | true =>
    have hmode : plan.mode = .normalize { keyColumn := s.keyColumn } := if_pos honce
    obtain ⟨n, happly⟩ := hkept honce
    obtain ⟨hevents, hstop, hcompletion, hdrained⟩ :=
      Session.drain_holding hattached ⟨hmode, rfl, rfl, rfl⟩ happly hout
    refine ⟨n.finish (job.watermark low high), task, sh', ?_, (hend hdrained).1, (hend hdrained).2,
      n, happly, rfl⟩
    rw [hread, hevents, hstop, hcompletion]
    rfl

end Changefeed
