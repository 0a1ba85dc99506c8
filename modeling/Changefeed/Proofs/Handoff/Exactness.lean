import Mathlib.Data.List.Nodup
import Changefeed.Proofs.Fetch.Continuation
import Changefeed.Proofs.Handoff.Steps
import Changefeed.Proofs.Key

/-!
# The hand-off is exact

When all splits are finished, the copy has every row as its split has captured it: as it was at
some point of the log between the watermark of the split and the position that was answered last.
The incremental split starts at the earliest of the watermarks, so no change behind the watermark
of a row's split is missed, and those at or before it are left out.  What remains for a row are all
changes behind the watermark of its split, up to the ending, and with them the row catches up.
-/

namespace Changefeed

lemma FinishedSplit.isPast_eq {f : FinishedSplit} {position : Offset}
    (h : position.Comparable f.watermark) : f.isPast position = position.after f.watermark := by
  obtain ⟨o, ho⟩ := Option.isSome_iff_exists.mp h
  cases o <;> simp [isPast, Offset.after, ho]

namespace Source

variable {src : Source}

lemma recordsAfter_upTo (records : List LogRecord) (o ending : Offset) :
    recordsAfter (upTo records ending) o = upTo (recordsAfter records o) ending := by
  unfold recordsAfter upTo
  rw [List.filter_filter, List.filter_filter]
  exact List.filter_congr fun r _ => Bool.and_comm ..

lemma filter_events (src : Source) (records : List LogRecord) (o : Offset) :
    (src.events records).filter (fun e => e.position.after o) =
      src.events (recordsAfter records o) := by
  rw [events, events, SchemaRecord.events, SchemaRecord.events, recordsAfter, List.filter_filterMap,
    List.filterMap_filter]
  refine List.filterMap_congr fun r _ => ?_
  cases he : src.layout.event? r with
  | none => simp
  | some e => rw [Option.filter_some, (SchemaRecord.event?_place he).2]

lemma Regular.events_behind (hsrc : src.Regular) {o o' : Offset} (ho : o.Normal) (ho' : o'.Normal)
    (hreached : o'.reached o = true) (ending : Offset) :
    (src.events (upTo (recordsAfter src.log o) ending)).filter (fun e => e.position.after o') =
      src.events (upTo (recordsAfter src.log o') ending) := by
  rw [filter_events, recordsAfter_upTo, hsrc.ordered.recordsAfter_recordsAfter ho ho' hreached]

/-- An ending that no watermark of a split lies behind, and that a record has reached. -/
structure Ends (src : Source) (splits : List SnapshotSplit) (meets : SnapshotSplit → Shared)
    (ending : Offset) : Prop where
  normal : ending.Normal
  past : ∀ s ∈ splits, ending.reached (meets s).server.nextAnswer = true
  reached : ∃ r ∈ src.log, r.position.reached ending = true

end Source

namespace Handoff

variable {src : Source} {config : FetchConfig} {splits : List SnapshotSplit}
  {meets : SnapshotSplit → Shared} {h : Handoff} {s : SnapshotSplit} {es : List ChangeEvent}
  {done : List (SnapshotSplit × List ChangeEvent)} {ending : Offset} {k : Int}

/-- A hand-off of a regular table whose splits are all finished. -/
structure Complete (src : Source) (config : FetchConfig) (splits : List SnapshotSplit)
    (meets : SnapshotSplit → Shared) (h : Handoff)
    (done : List (SnapshotSplit × List ChangeEvent)) : Prop where
  source : src.Regular
  chunked : src.Chunked splits meets
  progress : Progress src config splits meets h done
  all : (done.map Prod.fst).Perm splits

/-! ## The watermarks -/

lemma mark_reached (hchunked : src.Chunked splits meets) (hs : s ∈ splits) :
    src.timeline (mark config meets s) ∧
      (meets s).server.nextAnswer.reached (mark config meets s) = true := by
  have hmeets := hchunked.meets s hs
  unfold mark
  split
  · exact ⟨hmeets.high, Offset.reached_self _⟩
  · exact ⟨hmeets.low, hmeets.ascending⟩

/-- The incremental split starts at the watermark of a split, and all watermarks have reached it. -/
lemma Complete.start_reached (hdone : Complete src config splits meets h done) :
    (∃ s ∈ splits, mark config meets s = h.assigner.start) ∧
      ∀ s ∈ splits, (mark config meets s).reached h.assigner.start = true := by
  have hfinished : ∀ f, f ∈ h.assigner.finished ↔
      ∃ s ∈ splits, FinishedSplit.ofSplit s (mark config meets s) = f := by
    intro f
    rw [hdone.progress.finished]
    constructor
    · intro hf
      obtain ⟨d, hd, rfl⟩ := List.mem_map.mp hf
      exact ⟨d.1, hdone.all.mem_iff.mp (List.mem_map_of_mem hd), rfl⟩
    · rintro ⟨s, hs, rfl⟩
      obtain ⟨d, hd, rfl⟩ := List.mem_map.mp (hdone.all.mem_iff.mpr hs)
      exact List.mem_map_of_mem hd
  have htimeline : ∀ f ∈ h.assigner.finished, src.timeline f.watermark := by
    intro f hf
    obtain ⟨s, hs, rfl⟩ := (hfinished f).mp hf
    exact (mark_reached hdone.chunked hs).1
  have hsome : h.assigner.finished ≠ [] := by
    obtain ⟨k, hk⟩ := hdone.source.inhabited
    obtain ⟨s, howner⟩ := hdone.chunked.partition k hk
    exact List.ne_nil_of_mem ((hfinished _).mpr ⟨s, howner.mem, rfl⟩)
  obtain ⟨⟨f, hf, hstart⟩, hreached⟩ :=
    SplitAssigner.start_reached hdone.source.normal hdone.source.comparable htimeline hsome
  refine ⟨?_, fun s hs => hreached _ ((hfinished _).mpr ⟨s, hs, rfl⟩)⟩
  obtain ⟨s, hs, rfl⟩ := (hfinished f).mp hf
  exact ⟨s, hs, hstart⟩

/-! ## One row -/

/-- Of the row of a key the copy has what its split has captured. -/
lemma Complete.row_eq (hdone : Complete src config splits meets h done)
    (howner : Owner splits k s) (hread : (s, es) ∈ done) :
    Rows.empty.applyAll src.keyColumn h.events k = Rows.empty.applyAll src.keyColumn es k := by
  obtain ⟨before, after, rfl⟩ := List.append_of_mem hread
  have hnodup : ((before ++ (s, es) :: after).map Prod.fst).Nodup :=
    hdone.all.nodup_iff.mpr (List.Nodup.of_map _ hdone.chunked.ids)
  rw [List.map_append, List.map_cons, List.nodup_middle] at hnodup
  -- No other split has delivered anything of the row.
  have hother : ∀ d ∈ before ++ after, ∀ e ∈ d.2, e.intKey? src.keyColumn ≠ some k := by
    intro d hd e he hkey
    have hd' : d ∈ before ++ (s, es) :: after := by
      rcases List.mem_append.mp hd with hd | hd <;> simp [hd]
    obtain ⟨k', hkey', -, hcontains⟩ := (hdone.progress.captures d hd').within e he
    obtain rfl := Option.some.inj (hkey.symm.trans hkey')
    have hsplit : d.1 ∈ splits := hdone.all.mem_iff.mp (List.mem_map_of_mem hd')
    have hself : d.1 = s := howner.unique d.1 hsplit hcontains
    have hagain : d.1 ∈ (before ++ after).map Prod.fst := List.mem_map_of_mem hd
    rw [hself, List.map_append] at hagain
    exact (List.nodup_cons.mp hnodup).1 hagain
  have huntouched : ∀ ds ⊆ before ++ after, ∀ rows : Rows,
      rows.applyAll src.keyColumn (ds.map Prod.snd).flatten k = rows k := by
    intro ds hsub rows
    refine Rows.applyAll_untouched fun e he => ?_
    obtain ⟨es', hes', he⟩ := List.mem_flatten.mp he
    obtain ⟨d, hd, rfl⟩ := List.mem_map.mp hes'
    exact hother d (hsub hd) e he
  rw [hdone.progress.events, List.map_append, List.map_cons, List.flatten_append, List.flatten_cons,
    Rows.applyAll_append, Rows.applyAll_append, huntouched after (List.subset_append_right ..)]
  exact Rows.applyAll_congr (huntouched before (List.subset_append_left ..) _)

/-- Of the changes of a row the incremental split sends those behind the watermark of the row's
split. -/
lemma Complete.shouldEmit_eq (hdone : Complete src config splits meets h done)
    (howner : Owner splits k s) {r : LogRecord} (hr : r ∈ src.log) {e : ChangeEvent}
    (he : src.layout.event? r = some e) (hkey : e.intKey? src.keyColumn = some k) {job : StreamJob}
    (hjob : job.finished = h.assigner.finished) :
    job.shouldEmit e = e.position.after (mark config meets s) := by
  have hvalue := ChangeEvent.intKey?_eq_some_iff.mp hkey
  have htable : e.tableId = src.tableId := (SchemaRecord.event?_place he).1
  have hcovering : job.covering e = some (.ofSplit s (mark config meets s)) := by
    have hcovers : ∀ d ∈ done, ((e.keyValue d.1.keyColumn).any
        ((FinishedSplit.ofSplit d.1 (mark config meets d.1)).covers e.tableId) = true ↔
          d.1 = s) := by
      intro d hd
      have hsplit : d.1 ∈ splits := hdone.all.mem_iff.mp (List.mem_map_of_mem hd)
      rw [hdone.chunked.columns d.1 hsplit, hvalue, Option.any_some]
      have hplace := hdone.chunked.tables d.1 hsplit
      simp only [FinishedSplit.covers, FinishedSplit.ofSplit, hplace, htable, decide_true,
        Bool.true_and]
      exact ⟨howner.unique d.1 hsplit, fun hd => hd ▸ howner.contains⟩
    rw [StreamJob.covering, hjob, hdone.progress.finished, List.find?_map]
    cases hfind : done.find? _ with
    | none =>
      obtain ⟨d, hd, hs⟩ := List.mem_map.mp (hdone.all.mem_iff.mpr howner.mem)
      exact absurd ((hcovers d hd).mpr hs) (List.find?_eq_none.mp hfind d hd)
    | some d =>
      have hfound := List.find?_some hfind
      have hs : d.1 = s := (hcovers d (List.mem_of_find?_eq_some hfind)).mp hfound
      rw [Option.map_some, hs]
  have hlogged : src.timeline e.position := by
    rw [(SchemaRecord.event?_place he).2]
    exact hdone.source.logged r hr
  have hcomparable : e.position.Comparable (mark config meets s) :=
    hdone.source.comparable _ _ hlogged (mark_reached hdone.chunked howner.mem).1
  rw [StreamJob.shouldEmit, hcovering]
  exact FinishedSplit.isPast_eq hcomparable

/-! ## The whole copy -/

/-- What a row misses in the copy is what remains for it, and with that it has caught up. -/
lemma Complete.caught_up (hdone : Complete src config splits meets h done)
    (hends : src.Ends splits meets ending) (howner : Owner splits k s) (hk : src.keys k)
    {i : IncrementalSplit} (hstart : i.startingOffset = h.assigner.start)
    (hfinished : i.finishedSplits = h.assigner.finished) :
    Rows.empty.applyAll src.keyColumn (h.events ++ src.remainder i ending) k =
      src.asOf ending k := by
  obtain ⟨⟨s, es⟩, hread, rfl⟩ := List.mem_map.mp (hdone.all.mem_iff.mpr howner.mem)
  obtain ⟨⟨c, hc, hcstart⟩, hreached⟩ := hdone.start_reached
  have hstart' : i.startingOffset.Normal := by
    rw [hstart, ← hcstart]
    exact hdone.source.normal _ (mark_reached hdone.chunked hc).1
  have hmark : (mark config meets s).Normal :=
    hdone.source.normal _ (mark_reached hdone.chunked howner.mem).1
  have hlast : (meets s).server.nextAnswer.Normal :=
    hdone.source.normal _ (hdone.chunked.meets s howner.mem).high
  have hlogged : ∀ e ∈ src.events (upTo (recordsAfter src.log i.startingOffset) ending),
      e.intKey? src.keyColumn = some k →
        i.job.shouldEmit e = e.position.after (mark config meets s) := by
    intro e he hkey
    obtain ⟨r, hr, he⟩ := SchemaRecord.mem_events.mp he
    have hr' : r ∈ src.log := (mem_recordsAfter.mp (mem_upTo.mp hr).1).1
    exact hdone.shouldEmit_eq howner hr' he hkey hfinished
  have hcaptured := (hdone.progress.captures _ hread).rows k hk howner.contains
  calc Rows.empty.applyAll src.keyColumn (h.events ++ src.remainder i ending) k
      = (Rows.empty.applyAll src.keyColumn es).applyAll src.keyColumn
          (src.remainder i ending) k := by
        rw [Rows.applyAll_append]
        exact Rows.applyAll_congr (hdone.row_eq howner hread)
    _ = (Rows.empty.applyAll src.keyColumn es).applyAll src.keyColumn
          (src.events (upTo (recordsAfter src.log (mark config meets s)) ending)) k := by
        rw [Source.remainder, Rows.applyAll_filter_congr hlogged,
          hdone.source.events_behind hstart' hmark (hstart ▸ hreached s howner.mem)]
    _ = src.asOf ending k :=
        hdone.source.catch_up hmark hlast hends.normal (hends.past s howner.mem) hcaptured

/-- What the splits have delivered, and then what remains, is the table as of the ending. -/
lemma Complete.exact (hdone : Complete src config splits meets h done)
    (hends : src.Ends splits meets ending) {i : IncrementalSplit}
    (hstart : i.startingOffset = h.assigner.start)
    (hfinished : i.finishedSplits = h.assigner.finished) :
    Rows.empty.applyAll src.keyColumn (h.events ++ src.remainder i ending) = src.asOf ending := by
  funext k
  by_cases hk : src.keys k
  · obtain ⟨s, howner⟩ := hdone.chunked.partition k hk
    exact hdone.caught_up hends howner hk hstart hfinished
  · rw [hdone.source.asOf_of_not_key hk]
    refine Rows.applyAll_untouched fun e he hkey => hk ?_
    rcases List.mem_append.mp he with he | he
    · rw [hdone.progress.events] at he
      obtain ⟨es, hes, he⟩ := List.mem_flatten.mp he
      obtain ⟨d, hd, rfl⟩ := List.mem_map.mp hes
      obtain ⟨k', hkey', hk', -⟩ := (hdone.progress.captures d hd).within e he
      exact Option.some.inj (hkey'.symm.trans hkey) ▸ hk'
    · obtain ⟨r, hr, he⟩ := SchemaRecord.mem_events.mp (List.mem_filter.mp he).1
      obtain ⟨k', hkeyed, hk', -⟩ :=
        hdone.source.keyed_event (mem_recordsAfter.mp (mem_upTo.mp hr).1).1 he
      exact Option.some.inj (hkeyed.key.symm.trans hkey) ▸ hk'

/-! ## The incremental split -/

/-- The incremental split streams the table alone and comes with its layout. -/
lemma Complete.streams (hdone : Complete src config splits meets h done)
    (ending : Offset) :
    src.Streams ((h.assigner.incremental h.history).endingAt ending) ending := by
  obtain ⟨k, hk⟩ := hdone.source.inhabited
  obtain ⟨s, howner⟩ := hdone.chunked.partition k hk
  have htables : h.assigner.tables = [src.tableId] := by
    rw [hdone.progress.tables]
    refine SortedMap.keySet_of_forall_eq ?_ fun t ht => ?_
    · exact List.ne_nil_of_mem (List.mem_map_of_mem howner.mem)
    · obtain ⟨c, hc, rfl⟩ := List.mem_map.mp ht
      exact hdone.chunked.tables c hc
  have hlayout : h.history.records src.tableId = [src.layout] := by
    refine hdone.progress.layouts.resolve_left fun hnone => ?_
    have hnone' : splits = [] := by
      have hall := hdone.all
      rw [hnone.2] at hall
      exact hall.nil_eq.symm
    exact List.ne_nil_of_mem howner.mem hnone'
  rw [SplitAssigner.incremental_only htables hlayout]
  refine ⟨rfl, rfl, ?_⟩
  simp [IncrementalSplit.endingAt, Source.tableId, SortedMap.find?]

/-- Read up to an ending, the incremental split fails or delivers what makes a copy of the table as
of the ending. -/
lemma Complete.readSplit (hdone : Complete src config splits meets h done)
    (hconfig : config.fault? = none) (hends : src.Ends splits meets ending) {sh : Shared}
    (hserves : src.Serves h.assigner.start sh.server) (hknows : src.Knows sh.history) :
    let i := h.assigner.incremental h.history
    let read := Pipeline.readSplit config (.incremental (i.endingAt ending)) sh
    (∀ es stop c task sh', read = (.ok (es, stop, c), task, sh') → (∀ f, stop ≠ .failed f) →
        Rows.empty.applyAll src.keyColumn (h.events ++ es) = src.asOf ending) ∧
      (src.layout.Legible → i.startingOffset.Legible →
        ∃ es stop c task sh', read = (.ok (es, stop, c), task, sh') ∧
          Rows.empty.applyAll src.keyColumn (h.events ++ es) = src.asOf ending ∧
          (i.startingOffset.before ending = true →
            stop = .ended ∧ ∃ o, c = some ⟨i.splitId, some o⟩)) := by
  intro i read
  have hexact := hdone.exact hends (i := i.endingAt ending) rfl rfl
  obtain ⟨⟨s, hs, hmark⟩, -⟩ := hdone.start_reached
  have hstart : src.timeline (mark config meets s) := (mark_reached hdone.chunked hs).1
  have hmarked : (meets s).server.nextAnswer.reached (mark config meets s) = true :=
    (mark_reached hdone.chunked hs).2
  rw [hmark] at hstart hmarked
  have hstartnormal := hdone.source.normal _ hstart
  have hlast := hdone.source.normal _ (hdone.chunked.meets s hs).high
  have hreached : ending.reached h.assigner.start = true :=
    Offset.reached_trans hends.normal hlast hstartnormal (hends.past s hs) hmarked
  obtain ⟨hgood, hlegible⟩ := Source.readSplit_stream hdone.source hconfig
    (hdone.streams ending) hstartnormal hends.normal hreached hends.reached hserves hknows
  refine ⟨fun es stop c task sh' hread hstop => ?_, fun hlayout hstart' => ?_⟩
  · rw [hgood es stop c task sh' hread hstop]
    exact hexact
  · obtain ⟨stop, c, task, sh', hread, hended⟩ :=
      hlegible (SplitAssigner.legible_layoutFrom hlayout hstart')
    exact ⟨_, stop, c, task, sh', hread, hexact, hended⟩

/-- However the splits of a table are handed out, read and reported, the incremental split can be
handed out in the end.  Read up to an ending that all watermarks lie at or before, it fails or
delivers, behind what the splits have delivered, what makes a copy of the table as of the ending;
and it does not fail if the table's layout survives being written down. -/
theorem run_exact (hsrc : src.Regular) (hconfig : config.fault? = none)
    (hchunked : src.Chunked splits meets) (hrun : Run config meets (start splits) h) :
    (h.assigner.incrementalAssigned = false → ∃ h', Run config meets h h' ∧ h'.Ready) ∧
      ∀ i a, h.assigner.next h.history = (some (.incremental i), a) →
        ∀ ending, src.Ends splits meets ending →
        ∀ sh, src.Serves i.startingOffset sh.server →
          (sh.history = .empty ∨ sh.history = h.history) →
          let read := Pipeline.readSplit config (.incremental (i.endingAt ending)) sh
          (∀ es stop c task sh', read = (.ok (es, stop, c), task, sh') → (∀ f, stop ≠ .failed f) →
            Rows.empty.applyAll src.keyColumn (h.events ++ es) = src.asOf ending) ∧
          (src.layout.Legible → i.startingOffset.Legible →
            ∃ es stop c task sh', read = (.ok (es, stop, c), task, sh') ∧
              Rows.empty.applyAll src.keyColumn (h.events ++ es) = src.asOf ending ∧
              (i.startingOffset.before ending = true →
                stop = .ended ∧ ∃ o, c = some ⟨i.splitId, some o⟩)) := by
  obtain ⟨done, hprogress⟩ := progress_run hsrc hconfig hchunked hrun
  refine ⟨hprogress.run_ready hsrc hconfig hchunked, ?_⟩
  intro i a hnext ending hends sh hserves hhistory
  obtain ⟨hpending, hflight, rfl⟩ := SplitAssigner.next_incremental hnext
  have hdone : Complete src config splits meets h done :=
    ⟨hsrc, hchunked, hprogress, hprogress.accounts.all_done hpending hflight⟩
  have hknows : src.Knows sh.history := by
    rcases hhistory with heq | heq <;> rw [heq]
    · exact src.knows_empty
    · exact hprogress.knows
  exact hdone.readSplit hconfig hends hserves hknows

/-! ## A hand-off of orders -/

/-- The orders. -/
def ordersTable : TableId := ⟨"shop", "orders"⟩

/-- The row of an order. -/
def orderRow (k : Int) : Json.Object := [("id", .number (.int k))]

/-- Orders: one is there before the log, one comes while the first split is read, the first one
goes while the second split is read, and one comes behind that. -/
def ordersSource : Source where
  layout := .make ordersTable
    [{ name := "id", typeName := "int", position := 1, primaryKey := true }] (.binlog "log.1" 4)
  keyColumn := "id"
  keys k := k < 0x8000000000000000
  rows k := if k = 60 then some (orderRow 60) else none
  log := [.change (.insert (.binlog "log.1" 110) ordersTable [.number (.int 1)]),
    .change (.delete (.binlog "log.1" 150) ordersTable [.number (.int 60)]),
    .change (.insert (.binlog "log.1" 180) ordersTable [.number (.int 70)]),
    .heartbeat (.binlog "log.1" 200)]
  timeline o := ∃ n, o = .binlog "log.1" n

lemma regular_ordersSource : ordersSource.Regular where
  inhabited := ⟨0, by simp [ordersSource]⟩
  keyed := rfl
  ordered := by
    refine ⟨fun r hr => ?_, by decide⟩
    simp only [ordersSource, List.mem_cons, List.not_mem_nil, or_false] at hr
    rcases hr with rfl | rfl | rfl | rfl <;> trivial
  logged r hr := by
    simp only [ordersSource, List.mem_cons, List.not_mem_nil, or_false] at hr
    rcases hr with rfl | rfl | rfl | rfl <;> exact ⟨_, rfl⟩
  normal o ho := by
    obtain ⟨n, rfl⟩ := ho
    trivial
  comparable o o' ho ho' := by
    obtain ⟨n, rfl⟩ := ho
    obtain ⟨n', rfl⟩ := ho'
    rw [Offset.Comparable, Offset.compare?_binlog]
    rfl
  recorded r hr := by
    simp only [ordersSource, List.mem_cons, List.not_mem_nil, or_false] at hr
    rcases hr with rfl | rfl | rfl | rfl <;> decide
  stable r hr := by simp [ordersSource] at hr
  readable c hc _ := by
    simp only [ordersSource, List.mem_cons, LogRecord.change.injEq, List.not_mem_nil, or_false,
      reduceCtorEq] at hc
    rcases hc with rfl | rfl | rfl
    · exact ⟨_, 1, rfl, rfl, by simp [ordersSource], .of_before_none rfl⟩
    · exact ⟨_, 60, rfl, rfl, by simp [ordersSource], .of_after_none rfl⟩
    · exact ⟨_, 70, rfl, rfl, by simp [ordersSource], .of_before_none rfl⟩
  populated k hk := by
    refine if_neg ?_
    rintro rfl
    exact hk (by simp [ordersSource])

/-- The orders in two splits. -/
def orderSplits : List SnapshotSplit :=
  [⟨ordersTable, "id", .ofInts none (some 50), 0⟩, ⟨ordersTable, "id", .ofInts (some 50) none, 1⟩]

/-- A server with the orders, before any of the changes. -/
def ordersServer (positions : List Offset) : Server :=
  { retained := { logFiles := ["log.1"] }
    positions
    schemas := [(ordersTable, ordersSource.layout)]
    log := ordersSource.log
    rows := [(ordersTable, [[.number (.int 60)]])] }

/-- What the splits meet, one after the other. -/
def orderMeets (s : SnapshotSplit) : Shared :=
  { server := ordersServer (if s.splitIndex = 0 then [.binlog "log.1" 100, .binlog "log.1" 120]
      else [.binlog "log.1" 140, .binlog "log.1" 170]) }

lemma mem_orderSplits {s : SnapshotSplit} (hs : s ∈ orderSplits) :
    s = ⟨ordersTable, "id", .ofInts none (some 50), 0⟩ ∨
      s = ⟨ordersTable, "id", .ofInts (some 50) none, 1⟩ := by
  simpa [orderSplits] using hs

lemma contains_orderSplits {k : Int} (hk : k < 0x8000000000000000) :
    ((KeyRange.ofInts none (some 50)).contains (.number (.int k)) = true ↔ k < 50) ∧
      ((KeyRange.ofInts (some 50) none).contains (.number (.int k)) = true ↔ 50 ≤ k) := by
  constructor
  · rw [KeyRange.contains_ofInts_iff (by simp) (by simp) hk]
    simp
  · rw [KeyRange.contains_ofInts_iff (by simp) (by simp) hk]
    simp

lemma meets_below : ordersSource.Meets ⟨ordersTable, "id", .ofInts none (some 50), 0⟩
    (ordersServer [.binlog "log.1" 100, .binlog "log.1" 120]) where
  quiet := ⟨rfl, rfl, rfl⟩
  log := rfl
  layout := rfl
  low := ⟨_, rfl⟩
  high := ⟨_, rfl⟩
  ascending := by decide
  reached := ⟨.heartbeat (.binlog "log.1" 200), by simp [ordersSource], by decide⟩
  scan := by
    refine ⟨[], rfl, by simp, fun k hk hcontains => ?_⟩
    refine ⟨[], ordersSource.log, rfl, by simp, by decide, ?_⟩
    have hless : k < 50 := (contains_orderSplits hk).1.mp hcontains
    exact if_neg (by omega)

lemma meets_above : ordersSource.Meets ⟨ordersTable, "id", .ofInts (some 50) none, 1⟩
    (ordersServer [.binlog "log.1" 140, .binlog "log.1" 170]) where
  quiet := ⟨rfl, rfl, rfl⟩
  log := rfl
  layout := rfl
  low := ⟨_, rfl⟩
  high := ⟨_, rfl⟩
  ascending := by decide
  reached := ⟨.heartbeat (.binlog "log.1" 200), by simp [ordersSource], by decide⟩
  scan := by
    refine ⟨[.change (.insert .initial ordersTable [.number (.int 60)])], rfl, ?_, ?_⟩
    · intro r hr
      obtain rfl := List.mem_singleton.mp hr
      exact ⟨_, _, 60, rfl, rfl, rfl, rfl, by simp [ordersSource], rfl⟩
    · intro k hk hcontains
      refine ⟨ordersSource.log.take 1, ordersSource.log.drop 1, rfl, by decide, by decide, ?_⟩
      have hmore : 50 ≤ k := (contains_orderSplits hk).2.mp hcontains
      have hother : k ≠ 1 := by omega
      change Function.update ordersSource.rows 1 (some (orderRow 1)) k =
        Function.update Rows.empty 60 (some (orderRow 60)) k
      rw [Function.update_of_ne hother, Function.update_apply]
      rfl

lemma chunked_orderSplits : ordersSource.Chunked orderSplits orderMeets where
  ids := by decide
  tables s hs := by rcases mem_orderSplits hs with rfl | rfl <;> rfl
  columns s hs := by rcases mem_orderSplits hs with rfl | rfl <;> rfl
  partition k hk := by
    obtain ⟨hbelow, habove⟩ := contains_orderSplits hk
    by_cases hless : k < 50
    · refine ⟨_, .head _, hbelow.mpr hless, fun s hs hcontains => ?_⟩
      rcases mem_orderSplits hs with rfl | rfl
      · rfl
      · exact absurd (habove.mp hcontains) (by omega)
    · refine ⟨_, .tail _ (.head _), habove.mpr (by omega), fun s hs hcontains => ?_⟩
      rcases mem_orderSplits hs with rfl | rfl
      · exact absurd (hbelow.mp hcontains) hless
      · rfl
  meets s hs := by
    rcases mem_orderSplits hs with rfl | rfl
    · exact meets_below
    · exact meets_above

lemma ends_orders : ordersSource.Ends orderSplits orderMeets (.binlog "log.1" 200) where
  normal := trivial
  past s hs := by rcases mem_orderSplits hs with rfl | rfl <;> decide
  reached := ⟨.heartbeat (.binlog "log.1" 200), by simp [ordersSource], by decide⟩

lemma legible_orders : ordersSource.layout.Legible :=
  ⟨TableId.legible_iff.mpr (by decide), by decide, trivial, by decide⟩

/-- Every change of the orders once. -/
def ordersConfig : FetchConfig := { exactlyOnce := true }

/-- The orders are handed off: their splits are read in some order, and behind them the rest of the
log. -/
theorem run_exact_orders : ∃ h i a es c task sh',
    Run ordersConfig orderMeets (start orderSplits) h ∧
      h.assigner.next h.history = (some (.incremental i), a) ∧
      Pipeline.readSplit ordersConfig (.incremental (i.endingAt (.binlog "log.1" 200)))
        { server := ordersServer [], history := h.history } = (.ok (es, .ended, c), task, sh') ∧
      Rows.empty.applyAll "id" (h.events ++ es) = ordersSource.asOf (.binlog "log.1" 200) := by
  have hconfig : ordersConfig.fault? = none := by decide
  obtain ⟨h, hrun, hready⟩ :=
    (progress_start ordersSource ordersConfig orderSplits orderMeets).run_ready
      regular_ordersSource hconfig chunked_orderSplits rfl
  obtain ⟨done, hprogress⟩ :=
    progress_run regular_ordersSource hconfig chunked_orderSplits hrun
  have hdone : Complete ordersSource ordersConfig orderSplits orderMeets h done :=
    ⟨regular_ordersSource, chunked_orderSplits, hprogress,
      hprogress.accounts.all_done hready.1 hready.2.1⟩
  obtain ⟨⟨s, hs, hmark⟩, -⟩ := hdone.start_reached
  obtain ⟨n, hn, hstart⟩ : ∃ n, (Offset.binlog "log.1" n).before (.binlog "log.1" 200) = true ∧
      h.assigner.start = .binlog "log.1" n := by
    rw [← hmark]
    rcases mem_orderSplits hs with rfl | rfl
    · exact ⟨120, by decide, rfl⟩
    · exact ⟨170, by decide, rfl⟩
  have hserves : ordersSource.Serves h.assigner.start (ordersServer []) := by
    refine ⟨⟨rfl, rfl, rfl⟩, rfl, ?_⟩
    rw [hstart]
    rfl
  have hlegible : h.assigner.start.Legible := by
    rw [hstart]
    trivial
  obtain ⟨-, hexact⟩ := run_exact regular_ordersSource hconfig chunked_orderSplits hrun
  obtain ⟨-, hread⟩ := hexact _ _ hready.next _ ends_orders
    { server := ordersServer [], history := h.history } hserves (.inr rfl)
  obtain ⟨es, stop, c, task, sh', hread, hsame, hended⟩ := hread legible_orders hlegible
  have hbefore : h.assigner.start.before (.binlog "log.1" 200) = true := by rw [hstart, hn]
  obtain ⟨rfl, -⟩ := hended hbefore
  exact ⟨h, _, _, es, c, task, sh', hrun, hready.next, hread, hsame⟩

end Handoff
end Changefeed
