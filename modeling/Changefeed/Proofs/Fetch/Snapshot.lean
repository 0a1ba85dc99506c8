import Changefeed.Proofs.Fetch.Replaying

/-!
# What a snapshot split delivers

The rows of a scan are the rows of the table as they were at points of the log between the low and
the high watermark, each of them perhaps at another point.  Delivered as they are, they are current
as of the low watermark at least.  With the changes between the watermarks applied to them, they
have caught up with the high one.  Either way the report of the split names a watermark such that
every row delivered lies between it and the high one, which is all that is asked of a row for it to
catch up later.
-/

namespace Changefeed

namespace Source

variable {src : Source} {s : SnapshotSplit}

/-- A record that a scan of a split may return: an inserted row of the table with a key of its
range. -/
def Scanned (src : Source) (s : SnapshotSplit) (r : LogRecord) : Prop :=
  ∃ c e k, r = .change c ∧ c.kind = .insert ∧ c.decodeWith src.layout = .ok e ∧
    e.intKey? src.keyColumn = some k ∧ src.keys k ∧ s.keyRange.contains (.number (.int k)) = true

/-- What a split meets when it is read: a server that fails no call and has the log and the layout
of the table, that answers two positions one after the other, the second one reached by the log,
and whose scan returns, for every key of the range, the row at some point of the log between the
two. -/
structure Meets (src : Source) (s : SnapshotSplit) (server : Server) : Prop where
  quiet : server.Quiet
  log : server.log = src.log
  layout : server.schemas.find? src.tableId = some src.layout
  low : src.timeline server.answer
  high : src.timeline server.nextAnswer
  ascending : server.nextAnswer.reached server.answer = true
  reached : ∃ r ∈ src.log, r.position.reached server.nextAnswer = true
  scan : ∃ records, server.scanned.elim (server.scanRows s) .ok = .ok records ∧
    (∀ r ∈ records, src.Scanned s r) ∧
    ∀ k, src.keys k → s.keyRange.contains (.number (.int k)) = true →
      src.Between server.answer server.nextAnswer k
        (Rows.empty.applyAll src.keyColumn (src.events records) k)

/-- The events make a copy of the rows of a split, each of them as it was between two positions. -/
structure Captures (src : Source) (s : SnapshotSplit) (low high : Offset) (es : List ChangeEvent) :
    Prop where
  within : ∀ e ∈ es, ∃ k, e.intKey? src.keyColumn = some k ∧ src.keys k ∧
    s.keyRange.contains (.number (.int k)) = true
  rows : ∀ k, src.keys k → s.keyRange.contains (.number (.int k)) = true →
    src.Between low high k (Rows.empty.applyAll src.keyColumn es k)

lemma Scanned.event? {r : LogRecord} (h : src.Scanned s r) :
    ∃ e k, src.layout.event? r = some e ∧ e.Keyed src.keyColumn k ∧ src.keys k ∧
      s.keyRange.contains (.number (.int k)) = true := by
  obtain ⟨c, e, k, rfl, -, hdecode, hkey, hk, hcontains⟩ := h
  have he : src.layout.event? (.change c) = some e := by
    rw [SchemaRecord.event?, hdecode]
    rfl
  exact ⟨e, k, he, keyed_of_event? he hkey, hk, hcontains⟩

end Source

/-! ## Rows and changes -/

namespace SnapshotJob

/-- The changes that a split replays: those of its rows between the watermarks. -/
def replayed (job : SnapshotJob) (src : Source) (low high : Offset) : List ChangeEvent :=
  if job.exactlyOnce then (src.events (upTo (recordsAfter src.log low) high)).filter job.holds
  else []

/-- The changes that a split makes: its rows as of the low watermark, and behind them what it
replays. -/
def changes (job : SnapshotJob) (src : Source) (low high : Offset) (records : List LogRecord) :
    List ChangeEvent :=
  (src.events records).map (fun e => { e with position := low }) ++ job.replayed src low high

variable {src : Source} {job : SnapshotJob} {low high : Offset} {records : List LogRecord}

lemma holds_eq (htable : job.split.tableId = src.tableId)
    (hcolumn : job.split.keyColumn = src.keyColumn) {e : ChangeEvent} {k : Int}
    (hplace : e.tableId = src.tableId) (hkey : e.intKey? src.keyColumn = some k) :
    job.holds e = job.split.keyRange.contains (.number (.int k)) := by
  have hvalue := ChangeEvent.intKey?_eq_some_iff.mp hkey
  simp [holds, htable, hcolumn, hplace, hvalue]

/-- Every change has a key of the split. -/
lemma changes_keyed (hsrc : src.Regular) (htable : job.split.tableId = src.tableId)
    (hcolumn : job.split.keyColumn = src.keyColumn)
    (hrows : ∀ r ∈ records, src.Scanned job.split r) :
    ∀ e ∈ job.changes src low high records, ∃ k, e.Keyed src.keyColumn k ∧ src.keys k ∧
      job.split.keyRange.contains (.number (.int k)) = true := by
  intro e he
  rcases List.mem_append.mp he with hscanned | hreplayed
  · obtain ⟨e, hevent, rfl⟩ := List.mem_map.mp hscanned
    obtain ⟨r, hr, hevent⟩ := SchemaRecord.mem_events.mp hevent
    obtain ⟨e', k, hevent', hkeyed, hk, hcontains⟩ := (hrows r hr).event?
    obtain rfl := Option.some.inj (hevent'.symm.trans hevent)
    exact ⟨k, ⟨hkeyed.hasBefore, hkeyed.hasAfter, hkeyed.key⟩, hk, hcontains⟩
  · unfold replayed at hreplayed
    split at hreplayed
    · obtain ⟨he, hholds⟩ := List.mem_filter.mp hreplayed
      obtain ⟨r, hr, he⟩ := SchemaRecord.mem_events.mp he
      have hlogged : r ∈ src.log := (mem_recordsAfter.mp (mem_upTo.mp hr).1).1
      obtain ⟨k, hkeyed, hk, -⟩ := hsrc.keyed_event hlogged he
      rw [holds_eq htable hcolumn (SchemaRecord.event?_place he).1 hkeyed.key] at hholds
      exact ⟨k, hkeyed, hk, hholds⟩
    · cases hreplayed

/-- The changes make the rows of the split as they were between its watermark and the high one. -/
lemma changes_captures (hsrc : src.Regular) (htable : job.split.tableId = src.tableId)
    (hcolumn : job.split.keyColumn = src.keyColumn) (hlow : src.timeline low)
    (hhigh : src.timeline high) (hrows : ∀ r ∈ records, src.Scanned job.split r)
    (hscan : ∀ k, src.keys k → job.split.keyRange.contains (.number (.int k)) = true →
      src.Between low high k (Rows.empty.applyAll src.keyColumn (src.events records) k)) :
    src.Captures job.split (job.watermark low high) high (job.changes src low high records) where
  within e he := by
    obtain ⟨k, hkeyed, hk, hcontains⟩ := changes_keyed hsrc htable hcolumn hrows e he
    exact ⟨k, hkeyed.key, hk, hcontains⟩
  rows k hk hcontains := by
    have hbetween := hscan k hk hcontains
    rw [changes, Rows.applyAll_append, Rows.applyAll_map_position]
    unfold watermark replayed
    cases job.exactlyOnce with
    | false => exact hbetween
    | true =>
      have hlow' := hsrc.normal low hlow
      have hhigh' := hsrc.normal high hhigh
      have hheld : ∀ e ∈ src.events (upTo (recordsAfter src.log low) high),
          e.intKey? src.keyColumn = some k → job.holds e = true := by
        intro e he hkey
        obtain ⟨r, -, he⟩ := SchemaRecord.mem_events.mp he
        rw [holds_eq htable hcolumn (SchemaRecord.event?_place he).1 hkey]
        exact hcontains
      simp only [if_true]
      rw [Rows.applyAll_filter hheld,
        hsrc.catch_up hlow' hhigh' hhigh' (Offset.reached_iff.mpr (.inl rfl)) hbetween]
      exact hsrc.between_asOf hhigh' k

end SnapshotJob

/-! ## The records that are replayed -/

/-- Where positions ascend, a replay takes the records up to the high watermark. -/
lemma Ordered.replayedRecords_eq {records : List LogRecord} {high : Offset}
    (hordered : Ordered records) (hhigh : high.Normal) :
    replayedRecords high records = upTo records high := by
  induction records with
  | nil => rfl
  | cons r records ih =>
    have hbehind := hordered.upTo_eq_nil hhigh
    rw [replayedRecords, ih (hordered.sublist (List.sublist_cons_self ..))]
    by_cases hafter : r.position.after high = true
    · have hnone : upTo (r :: records) high = upTo records high :=
        List.filter_cons_of_neg (by simp [hafter])
      rw [if_pos hafter, hnone, hbehind (Offset.reached_iff.mpr (.inr hafter))]
    · have hwithin : upTo (r :: records) high = r :: upTo records high :=
        List.filter_cons_of_pos (by simp [hafter])
      rw [if_neg hafter, hwithin]
      split
      · next hat => rw [hbehind hat]
      · rfl

lemma SnapshotJob.makes_eq_changes {src : Source} {job : SnapshotJob} (hsrc : src.Regular)
    (hschema : job.schema = src.layout) {low high : Offset} (hhigh : src.timeline high)
    (records : List LogRecord) :
    job.makes src.log low high records = job.changes src low high records := by
  have hreplayed : job.replays src.log low high = job.replayed src low high := by
    rw [replays, (hsrc.ordered.ordered_after low).replayedRecords_eq (hsrc.normal high hhigh),
      hschema]
    rfl
  rw [makes, changes, hreplayed, hschema]
  rfl

namespace Source

variable {src : Source} {s : SnapshotSplit} {config : FetchConfig}

/-- What a split meets lets it run. -/
lemma Meets.runs (hsrc : src.Regular) (htable : s.tableId = src.tableId) (exactlyOnce : Bool)
    {server : Server} (hmeets : src.Meets s server) {h : SchemaHistory}
    (hhistory : h.records src.tableId = [src.layout]) {records : List LogRecord}
    (hscan : server.scanned.elim (server.scanRows s) .ok = .ok records)
    (hrows : ∀ r ∈ records, src.Scanned s r) :
    SnapshotJob.Runs ⟨s, src.layout, exactlyOnce⟩ server h records where
  quiet := hmeets.quiet
  scan := hscan
  scans r hr := by
    obtain ⟨c, e, -, rfl, hkind, hdecode, -⟩ := hrows r hr
    exact ⟨c, e, rfl, hkind, hdecode⟩
  dispatches r hr := by
    rw [hmeets.log] at hr
    have hlogged := (mem_recordsAfter.mp hr).1
    obtain ⟨d, hdispatch, hkind, hevent⟩ :=
      hsrc.dispatch_eq hlogged fun c hc => hsrc.decode_eq hhistory (hc ▸ hlogged)
    rw [← htable] at hdispatch
    exact ⟨d, hdispatch, hkind, hevent⟩
  reached := hmeets.log ▸ exists_reached_behind hsrc.ordered.normal
    (hsrc.normal _ hmeets.low) (hsrc.normal _ hmeets.high) hmeets.ascending hmeets.reached

/-- The rows that a normalizer gives out are those of the changes that it has taken. -/
lemma Captures.finish {low high : Offset} {es : List ChangeEvent} {n : Normalizer}
    (h : src.Captures s low high es)
    (hcolumn : n.keyColumn = src.keyColumn)
    (hholds : Normalizer.Holds src.keyColumn n.slots (Rows.empty.applyAll src.keyColumn es))
    (w : Offset) : src.Captures s low high (n.finish w) := by
  rw [← hcolumn] at hholds
  have hrows := hholds.applyAll_finish w
  rw [hcolumn] at hrows
  refine ⟨fun e he => ?_, fun k hk hcontains => ?_⟩
  · obtain ⟨k, hkey, -, hsome⟩ := hholds.of_mem_finish he
    rw [hcolumn] at hkey hsome
    -- A row that is there was put there by one of the changes.
    obtain ⟨e', he', hkey'⟩ : ∃ e' ∈ es, e'.intKey? src.keyColumn = some k := by
      by_contra hnone
      have hempty : Rows.empty.applyAll src.keyColumn es k = none :=
        Rows.applyAll_untouched fun e he hkey => hnone ⟨e, he, hkey⟩
      simp [hempty] at hsome
    obtain ⟨k', hkey'', hk', hcontains⟩ := h.within e' he'
    obtain rfl := Option.some.inj (hkey'.symm.trans hkey'')
    exact ⟨k, hkey, hk', hcontains⟩
  · rw [hrows]
    exact h.rows k hk hcontains

/-- A split is read to its end, its report names its watermark, and its events make a copy of its
rows, each of them as it was between the watermark and the position that the server answered last.
-/
lemma readSplit_captures (hsrc : src.Regular) (hconfig : config.fault? = none)
    (htable : s.tableId = src.tableId) (hcolumn : s.keyColumn = src.keyColumn) {sh : Shared}
    (hmeets : src.Meets s sh.server)
    (hhistory : sh.history.records src.tableId = [] ∨
      sh.history.records src.tableId = [src.layout]) :
    let job : SnapshotJob := ⟨s, src.layout, config.exactlyOnce⟩
    let watermark := job.watermark sh.server.answer sh.server.nextAnswer
    ∃ es task sh', Pipeline.readSplit config (.snapshot s) sh =
        (.ok (es, .ended, some ⟨s.splitId, some watermark⟩), task, sh') ∧
      sh'.history = sh.history.append src.layout ∧
      sh'.server.uncounted = sh.server.answered.answered.uncounted ∧
      src.Captures s watermark sh.server.nextAnswer es := by
  intro job watermark
  obtain ⟨records, hscan, hrows, hbetween⟩ := hmeets.scan
  have hlayout : (sh.history.append src.layout).records src.tableId = [src.layout] :=
    SchemaHistory.records_append_only hhistory
  have hcaptures := job.changes_captures hsrc htable hcolumn hmeets.low hmeets.high hrows hbetween
  have hkeyed : ∀ e ∈ job.changes src sh.server.answer sh.server.nextAnswer records,
      ∃ k, e.Keyed s.keyColumn k := by
    intro e he
    obtain ⟨k, hkeyed, -⟩ := job.changes_keyed hsrc htable hcolumn hrows e he
    exact ⟨k, hcolumn ▸ hkeyed⟩
  obtain ⟨n, happly, hcolumn', hholds⟩ := Normalizer.applyAll_keyed
    (n := { keyColumn := s.keyColumn }) (Normalizer.holds_empty s.keyColumn) hkeyed
  have hmade : job.makes sh.server.log sh.server.answer sh.server.nextAnswer records =
      job.changes src sh.server.answer sh.server.nextAnswer records := by
    rw [hmeets.log]
    exact job.makes_eq_changes hsrc rfl hmeets.high records
  obtain ⟨es, task, sh', hread, hhistory', hserver, hes⟩ := Pipeline.readSplit_of_runs hconfig
    (htable ▸ hmeets.layout) (hcolumn ▸ hsrc.keyed)
    (hmeets.runs hsrc htable config.exactlyOnce hlayout hscan hrows)
    fun _ => ⟨n, hmade ▸ happly⟩
  refine ⟨es, task, sh', hread, hhistory', hserver, ?_⟩
  split at hes
  · obtain ⟨n', happly', rfl⟩ := hes
    rw [hmade, happly] at happly'
    obtain rfl := Except.ok.inj happly'
    exact hcaptures.finish (hcolumn'.trans hcolumn) (hcolumn ▸ hholds) watermark
  · rw [hes, hmade]
    exact hcaptures

end Source
end Changefeed
