import Changefeed.Proofs.Fetch.FinalRows
import Changefeed.Proofs.KeyedTable

/-!
# A snapshot split as of its high watermark

A split that is delivered exactly once gives out one insert for each row that its scan and its
replay leave in a copy of the table.  This is the table as of the high watermark, but for two kinds
of keys.  The replay passes over the changes that stand at the high watermark behind the first
record there, and the stream that follows begins behind that position, so nothing makes up for them.
And an update that moves a row to another key is filed under the new key alone: the row stays under
the old one, unless neither the scan nor an earlier change left one there or a later change is filed
there.

Which keys are wrong is told by the changes alone, and whether the events are the table as of the
high watermark is told by the keys.
-/

namespace Changefeed
namespace KeyedTable

variable {T : KeyedTable} {s : SnapshotSplit} {server : Server} {records : List LogRecord}
  {key : String} {low high : Offset}

/-- A record that a scan of a split may return: an inserted row of the table with a key of its
range. -/
def Scanned (T : KeyedTable) (s : SnapshotSplit) (r : LogRecord) : Prop :=
  ∃ c e v, r = .change c ∧ c.kind = .insert ∧ c.decodeWith T.layout = .ok e ∧
    e.keyValue T.keyColumn = some v ∧ T.keys v ∧ s.keyRange.contains v = true

/-- What a split meets when it is read: a server that fails no call and has the log and the layout
of the table, that answers two positions one after the other, the second one reached by the log,
and whose scan returns, for every key of the range, the row at some point of the log between the
two. -/
structure Meets (T : KeyedTable) (s : SnapshotSplit) (server : Server)
    (records : List LogRecord) : Prop where
  quiet : server.Quiet
  log : server.log = T.log
  layout : server.schemas.find? T.tableId = some T.layout
  low : server.answer.Normal
  high : server.nextAnswer.Normal
  ascending : server.nextAnswer.reached server.answer = true
  reached : ∃ r ∈ T.log, r.position.reached server.nextAnswer = true
  scan : server.scanned.elim (server.scanRows s) .ok = .ok records
  scanned : ∀ r ∈ records, T.Scanned s r
  between : ∀ key, T.Within s key →
    T.Between server.answer server.nextAnswer key (filed T.keyColumn (T.events records) key)

/-- What a split meets lets it run. -/
lemma Meets.runs (hT : T.Regular) (htable : s.tableId = T.tableId)
    (hmeets : T.Meets s server records) {h : SchemaHistory}
    (hhistory : h.records T.tableId = [T.layout]) (exactlyOnce : Bool) :
    SnapshotJob.Runs ⟨s, T.layout, exactlyOnce⟩ server h records where
  quiet := hmeets.quiet
  scan := hmeets.scan
  scans r hr := by
    obtain ⟨c, e, -, rfl, hkind, hdecode, -⟩ := hmeets.scanned r hr
    exact ⟨c, e, rfl, hkind, hdecode⟩
  dispatches r hr := by
    rw [hmeets.log] at hr
    have hlogged := (mem_recordsAfter.mp hr).1
    have hread : ∀ c, r = .change c → c.tableId = T.layout.tableId →
        ∃ e, c.decodeWith T.layout = .ok e ∧ Dispatcher.decode h c = .ok e := by
      rintro c rfl hc
      obtain ⟨e, hdecode, -⟩ := hT.readable c hlogged hc
      refine ⟨e, hdecode, ?_⟩
      rw [Dispatcher.decode_only hhistory hc (hT.recorded _ hlogged), hdecode]
    obtain ⟨d, hdispatch, hkind, hevent⟩ :=
      Dispatcher.dispatch_only hread fun s hs => hT.stable s (hs ▸ hlogged)
    have hsame : SnapshotJob.dispatcher ⟨s, T.layout, exactlyOnce⟩ = ⟨[T.layout.tableId]⟩ := by
      rw [SnapshotJob.dispatcher, htable]
      rfl
    exact ⟨d, hsame ▸ hdispatch, hkind, hevent⟩
  reached := hmeets.log ▸ exists_reached_behind hT.rising.normal hmeets.low hmeets.high
    hmeets.ascending hmeets.reached

/-! ## The changes of a split -/

lemma holds_iff (htable : s.tableId = T.tableId) (hcolumn : s.keyColumn = T.keyColumn)
    {e : ChangeEvent} (he : e.tableId = T.tableId) {v : Json.Value}
    (hv : e.keyValue T.keyColumn = some v) :
    SnapshotJob.holds ⟨s, T.layout, true⟩ e = s.keyRange.contains v := by
  simp [SnapshotJob.holds, htable, hcolumn, he, hv]

/-- Every change that a split makes is one of the table and has a key of the split. -/
lemma within_of_mem_makes (hT : T.Regular) (htable : s.tableId = T.tableId)
    (hcolumn : s.keyColumn = T.keyColumn) (hscanned : ∀ r ∈ records, T.Scanned s r)
    {e : ChangeEvent} (he : e ∈ SnapshotJob.makes ⟨s, T.layout, true⟩ T.log low high records) :
    e.Imaged ∧ e.tableId = T.tableId ∧
      ∃ key, e.keyText? T.keyColumn = some key ∧ T.Within s key := by
  rcases List.mem_append.mp he with hscan | hreplayed
  · obtain ⟨e, hevent, rfl⟩ := List.mem_map.mp hscan
    obtain ⟨himaged, hplace⟩ := imaged_of_mem (T := T) hevent
    obtain ⟨r, hr, hread⟩ := SchemaRecord.mem_events.mp hevent
    obtain ⟨c, e', v, rfl, -, hdecode, hkey, hv, hcontains⟩ := hscanned r hr
    obtain ⟨c', hc', hdecode', -⟩ := SchemaRecord.event?_eq_some hread
    obtain rfl := LogRecord.change.inj hc'
    obtain rfl := Except.ok.inj (hdecode.symm.trans hdecode')
    exact ⟨⟨himaged.hasBefore, himaged.hasAfter⟩, hplace, v.compact, hT.keyText?_eq hv hkey,
      v, hv, rfl, hcontains⟩
  · obtain ⟨hevent, hholds⟩ := List.mem_filter.mp hreplayed
    obtain ⟨himaged, hplace⟩ := imaged_of_mem (T := T) hevent
    obtain ⟨v, hkey, hv⟩ := hT.exists_key (T.replayedRecords_subset low high) hevent
    rw [holds_iff htable hcolumn hplace hkey] at hholds
    exact ⟨himaged, hplace, v.compact, hT.keyText?_eq hv hkey, v, hv, rfl, hholds⟩

/-- Under a key of the split, a copy made of its changes has what the scan and the replay leave. -/
lemma filed_makes (hT : T.Regular) (htable : s.tableId = T.tableId)
    (hcolumn : s.keyColumn = T.keyColumn) (hwithin : T.Within s key) :
    filed T.keyColumn (SnapshotJob.makes ⟨s, T.layout, true⟩ T.log low high records) key =
      filed T.keyColumn (T.events records ++ T.replayed low high) key := by
  have hheld : ∀ e ∈ T.replayed low high, e.names T.keyColumn key = true →
      SnapshotJob.holds ⟨s, T.layout, true⟩ e = true := by
    intro e he hnames
    obtain ⟨v, hvalue, hv⟩ := hT.exists_key (T.replayedRecords_subset low high) he
    obtain ⟨v', hv', rfl, hcontains⟩ := hwithin
    rw [ChangeEvent.names, decide_eq_true_eq, hT.keyText?_eq hv hvalue, Option.some.injEq] at hnames
    obtain rfl := hT.told v v' hv hv' hnames
    rw [holds_iff htable hcolumn (imaged_of_mem he).2 hvalue]
    exact hcontains
  have hmakes : SnapshotJob.makes ⟨s, T.layout, true⟩ T.log low high records =
      (T.events records).map (fun e => { e with position := low }) ++
        (T.replayed low high).filter (SnapshotJob.holds ⟨s, T.layout, true⟩) := rfl
  rw [hmakes, filed_append, filed_append, filed_map_position, lastRow_filter hheld]

/-- A split that is delivered exactly once is read to its end and completed at the high watermark.
Its events are one insert for each row that the scan and the replay leave, and they are the table as
of the high watermark exactly when under every key of the split
- no change is passed over that touches it, and the last change replayed that touches it does not
  take a row away that the copy still shows,
- or changes are passed over that touch it and the copy happens to have what they leave.

Changes that are passed over stand at the high watermark itself. -/
theorem readSplit_delivers_asOf_iff (hT : T.Regular) {config : FetchConfig}
    (hconfig : config.fault? = none) (honce : config.exactlyOnce = true)
    (htable : s.tableId = T.tableId) (hcolumn : s.keyColumn = T.keyColumn) {sh : Shared}
    (hmeets : T.Meets s sh.server records)
    (hhistory : sh.history.records T.tableId = [] ∨ sh.history.records T.tableId = [T.layout]) :
    let low := sh.server.answer
    let high := sh.server.nextAnswer
    let copy := filed T.keyColumn (T.events records ++ T.replayed low high)
    ∃ es task sh', Pipeline.readSplit config (.snapshot s) sh =
        (.ok (es, .ended, some ⟨s.splitId, some high⟩), task, sh') ∧
      Delivers T.tableId T.keyColumn (T.Within s) copy high es ∧
      (Delivers T.tableId T.keyColumn (T.Within s) (T.asOf high) high es ↔
        ∀ key, T.Within s key →
          ((∀ e ∈ T.missed low high, e.touches T.keyColumn key = false) →
            MovedAway T.keyColumn key (T.replayed low high) → copy key = none) ∧
          ((∃ e ∈ T.missed low high, e.touches T.keyColumn key = true) →
            copy key = rowBehind T.keyColumn key none (T.missed low high))) ∧
      ∀ r ∈ passedOver high (recordsAfter T.log low), r.position = high := by
  intro low high copy
  let job : SnapshotJob := ⟨s, T.layout, true⟩
  have hlayout : (sh.history.append T.layout).records T.tableId = [T.layout] :=
    SchemaHistory.records_append_only hhistory
  have hmade : ∀ e ∈ job.makes T.log low high records, e.Imaged ∧ e.tableId = T.tableId ∧
      ∃ key, e.keyText? T.keyColumn = some key ∧ T.Within s key := fun e he =>
    within_of_mem_makes hT htable hcolumn hmeets.scanned he
  have hkeyed : ∀ e ∈ job.makes T.log low high records,
      ∃ key, e.keyText? s.keyColumn = some key := by
    intro e he
    obtain ⟨-, -, key, hkey, -⟩ := hmade e he
    exact ⟨key, hcolumn ▸ hkey⟩
  obtain ⟨n, happly, hn, hfiles⟩ := Normalizer.applyAll_files (n := { keyColumn := s.keyColumn })
    (Normalizer.files_nil s.keyColumn) hkeyed
  have hruns := hmeets.runs hT htable hlayout config.exactlyOnce
  obtain ⟨es, task, sh', hread, -, -, hes⟩ := Pipeline.readSplit_of_runs hconfig
    (htable ▸ hmeets.layout) (hcolumn ▸ hT.keyed) hruns
    fun _ => ⟨n, by rw [honce, hmeets.log]; exact happly⟩
  rw [honce] at hread hes
  obtain ⟨n', happly', rfl⟩ := hes
  rw [hmeets.log, happly] at happly'
  obtain rfl := Except.ok.inj happly'
  have hgiven : Delivers T.tableId T.keyColumn (T.Within s)
      (filed T.keyColumn (job.makes T.log low high records)) high (n.finish high) := by
    have hcolumn' : n.keyColumn = T.keyColumn := hn.trans hcolumn
    rw [List.nil_append, ← hn] at hfiles
    rw [← hcolumn']
    refine hfiles.delivers (fun e he => (hmade e he).1) (fun e he => (hmade e he).2.1) ?_ high
    intro e he key hkey
    obtain ⟨-, -, key', hkey', hwithin⟩ := hmade e he
    rw [hcolumn'] at hkey
    exact Option.some.inj (hkey'.symm.trans hkey) ▸ hwithin
  have hcopy : Delivers T.tableId T.keyColumn (T.Within s) copy high (n.finish high) :=
    hgiven.iff_rows_eq.mpr fun key hkey => filed_makes hT htable hcolumn hkey
  refine ⟨n.finish high, task, sh', hread, hcopy, ?_, fun r hr => ?_⟩
  · rw [hcopy.iff_rows_eq]
    refine forall_congr' fun key => imp_congr_right fun hkey => ?_
    exact hT.filed_eq_asOf_iff hmeets.low hmeets.high (hmeets.between key hkey)
  · have hrising : Rising (recordsAfter T.log low) := hT.rising.sublist List.filter_sublist
    exact hrising.position_of_mem_passedOver hmeets.high hr

/-! ## A stock whose articles move -/

/-- The values of an article. -/
def article (id amount : Int) : List Json.Value := [.number (.int id), .number (.int amount)]

/-- The row of an article. -/
def articleRow (id amount : Int) : Json.Object :=
  [("amount", .number (.int amount)), ("id", .number (.int id))]

/-- A stock of three articles: the second one gets another number, and after it the first and the
third one are booked at one position. -/
def movingStock : KeyedTable where
  layout := .make ⟨"shop", "stock"⟩
    [{ name := "id", typeName := "int", position := 1, primaryKey := true },
      { name := "amount", typeName := "int", position := 2 }] (.binlog "log.1" 4)
  keyColumn := "id"
  keys v := ∃ k : Int, v = .number (.int k)
  rows key := if key = "1" then some (articleRow 1 10) else
    if key = "2" then some (articleRow 2 20) else
    if key = "3" then some (articleRow 3 30) else none
  log := [.change (.update (.binlog "log.1" 200) ⟨"shop", "stock"⟩ (article 2 20) (article 4 20)),
    .change (.update (.binlog "log.1" 300) ⟨"shop", "stock"⟩ (article 1 10) (article 1 11)),
    .change (.update (.binlog "log.1" 300) ⟨"shop", "stock"⟩ (article 3 30) (article 3 31)),
    .change (.insert (.binlog "log.1" 400) ⟨"shop", "stock"⟩ (article 9 90))]

lemma regular_movingStock : movingStock.Regular where
  keyed := rfl
  notNull := by
    rintro ⟨k, hk⟩
    contradiction
  told := by
    rintro _ _ ⟨k, rfl⟩ ⟨k', rfl⟩ h
    rw [Normalizer.intText_inj h]
  rising := by
    refine ⟨fun r hr => ?_, by decide⟩
    simp only [movingStock, List.mem_cons, List.not_mem_nil, or_false] at hr
    rcases hr with rfl | rfl | rfl | rfl <;> trivial
  recorded r hr := by
    simp only [movingStock, List.mem_cons, List.not_mem_nil, or_false] at hr
    rcases hr with rfl | rfl | rfl | rfl <;> decide
  stable r hr := by simp [movingStock] at hr
  readable c hc _ := by
    have hrow : ∀ id amount : Int, movingStock.HasKey (articleRow id amount) := fun id _ =>
      ⟨.number (.int id), rfl, id, rfl⟩
    have hupdate : ∀ o id amount id' amount', ∃ e,
        (RowChange.update o ⟨"shop", "stock"⟩ (article id amount)
          (article id' amount')).decodeWith movingStock.layout = .ok e ∧
        ∀ row, e.before = some row ∨ e.after = some row → movingStock.HasKey row := by
      intro o id amount id' amount'
      refine ⟨_, rfl, fun row h => ?_⟩
      rcases h with h | h
      · exact Option.some.inj h ▸ hrow id amount
      · exact Option.some.inj h ▸ hrow id' amount'
    simp only [movingStock, List.mem_cons, LogRecord.change.injEq, List.not_mem_nil, or_false] at hc
    rcases hc with rfl | rfl | rfl | rfl
    · exact hupdate ..
    · exact hupdate ..
    · exact hupdate ..
    · refine ⟨_, rfl, fun row h => ?_⟩
      exact Option.some.inj (h.resolve_left nofun) ▸ hrow 9 90

/-- The whole stock as one split. -/
def stockSplit : SnapshotSplit := ⟨⟨"shop", "stock"⟩, "id", ⟨none, none⟩, 0⟩

/-- A server that scans the stock before any of the changes. -/
def stockServer : Server :=
  { retained := { logFiles := ["log.1"] }
    positions := [.binlog "log.1" 100, .binlog "log.1" 300]
    schemas := [(⟨"shop", "stock"⟩, movingStock.layout)]
    log := movingStock.log
    rows := [(⟨"shop", "stock"⟩, [article 1 10, article 2 20, article 3 30])] }

/-- What the scan of the stock returns. -/
def stockScan : List LogRecord :=
  [.change (.insert .initial ⟨"shop", "stock"⟩ (article 1 10)),
    .change (.insert .initial ⟨"shop", "stock"⟩ (article 2 20)),
    .change (.insert .initial ⟨"shop", "stock"⟩ (article 3 30))]

lemma meets_stock : movingStock.Meets stockSplit stockServer stockScan where
  quiet := ⟨rfl, rfl, rfl⟩
  log := rfl
  layout := rfl
  low := trivial
  high := trivial
  ascending := by decide
  reached := ⟨_, .tail _ (.tail _ (.tail _ (.head _))), by decide⟩
  scan := rfl
  scanned r hr := by
    simp only [stockScan, List.mem_cons, List.not_mem_nil, or_false] at hr
    rcases hr with rfl | rfl | rfl
    · exact ⟨_, _, _, rfl, rfl, rfl, rfl, ⟨1, rfl⟩, rfl⟩
    · exact ⟨_, _, _, rfl, rfl, rfl, rfl, ⟨2, rfl⟩, rfl⟩
    · exact ⟨_, _, _, rfl, rfl, rfl, rfl, ⟨3, rfl⟩, rfl⟩
  between key _ := by
    refine ⟨[], movingStock.log, rfl, by simp, by decide, ?_⟩
    by_cases h1 : key = "1"
    · subst h1
      rfl
    by_cases h2 : key = "2"
    · subst h2
      rfl
    by_cases h3 : key = "3"
    · subst h3
      rfl
    have hnone : movingStock.rows key = none := by simp [movingStock, h1, h2, h3]
    refine hnone.trans (lastRow_of_none fun e he => ?_).symm
    obtain ⟨r, hr, hread⟩ := SchemaRecord.mem_events.mp he
    simp only [stockScan, List.mem_cons, List.not_mem_nil, or_false] at hr
    rcases hr with rfl | rfl | rfl
    · obtain rfl := Option.some.inj hread
      exact decide_eq_false fun h => h1 (Option.some.inj h).symm
    · obtain rfl := Option.some.inj hread
      exact decide_eq_false fun h => h2 (Option.some.inj h).symm
    · obtain rfl := Option.some.inj hread
      exact decide_eq_false fun h => h3 (Option.some.inj h).symm

/-- As of the high watermark nothing has the second number, and the third article was booked.  The
events still have the second article, and the third one as it was. -/
theorem readSplit_delivers_asOf_iff_stock :
    ∃ es task sh', Pipeline.readSplit { exactlyOnce := true } (.snapshot stockSplit)
        { server := stockServer } =
        (.ok (es, .ended, some ⟨stockSplit.splitId, some (.binlog "log.1" 300)⟩), task, sh') ∧
      ¬ Delivers movingStock.tableId "id" (movingStock.Within stockSplit)
        (movingStock.asOf (.binlog "log.1" 300)) (.binlog "log.1" 300) es ∧
      (∃ e ∈ es, e.keyText? "id" = some "2") ∧
        movingStock.asOf (.binlog "log.1" 300) "2" = none ∧
      (∃ e ∈ es, e.keyText? "id" = some "3" ∧ e.after = some (articleRow 3 30)) ∧
        movingStock.asOf (.binlog "log.1" 300) "3" = some (articleRow 3 31) := by
  have hwithin : ∀ k : Int, movingStock.Within stockSplit (Normalizer.intText k) := fun k =>
    ⟨.number (.int k), ⟨k, rfl⟩, rfl, rfl⟩
  have hconfig : ({ exactlyOnce := true } : FetchConfig).fault? = none := by decide
  have htable : stockSplit.tableId = movingStock.tableId := rfl
  have hcolumn : stockSplit.keyColumn = movingStock.keyColumn := rfl
  have hmeets : movingStock.Meets stockSplit ({ server := stockServer } : Shared).server
      stockScan := meets_stock
  obtain ⟨es, task, sh', hread, hcopy, hiff, -⟩ :=
    readSplit_delivers_asOf_iff regular_movingStock hconfig rfl htable hcolumn hmeets (.inl rfl)
  have hthird : ∃ e ∈ es, e.keyText? "id" = some "3" ∧ e.after = some (articleRow 3 30) := by
    obtain ⟨e, he, hkey⟩ := hcopy.complete "3" (hwithin 3) rfl
    obtain ⟨key, -, hkey', hafter⟩ := hcopy.placed e he
    obtain rfl := Option.some.inj (hkey.symm.trans hkey')
    exact ⟨e, he, hkey, hafter⟩
  refine ⟨es, task, sh', hread, fun hdelivers => ?_, hcopy.complete "2" (hwithin 2) rfl, rfl,
    hthird, rfl⟩
  have hmoved : MovedAway "id" "2" (movingStock.replayed (.binlog "log.1" 100)
      (.binlog "log.1" 300)) := ⟨_, rfl, by decide⟩
  have hnone := (hiff.mp hdelivers "2" (hwithin 2)).1 (by decide) hmoved
  contradiction

end KeyedTable
end Changefeed
