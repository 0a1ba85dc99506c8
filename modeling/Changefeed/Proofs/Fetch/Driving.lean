import Changefeed.Proofs.Fetch.Attempts
import Changefeed.Proofs.Fetch.Configure
import Changefeed.Proofs.Fetch.Passing

/-!
# What one attempt delivers

What the sink holds, followed by what is due after the position of the last checkpoint, is what was
due at the start.  A batch moves events from the one to the other and the position along with them,
and a poll interval that goes by moves nothing.  So an attempt keeps this up, however the turns of
its producer and its reader come; and where it comes to the end of its stream, nothing is due any
more.
-/

namespace Changefeed

namespace Runner

variable {s : IncrementalSplit} {layout : TableId → Option SchemaRecord} {log : List LogRecord}
  {st : RunState} {p p' : Offset}

/-- How far a split has been delivered: up to the position of the last checkpoint. -/
structure Delivered (s : IncrementalSplit) (layout : TableId → Option SchemaRecord)
    (log : List LogRecord) (st : RunState) (p : Offset) : Prop where
  /-- No call to the sink or to the checkpoints fails. -/
  quiet : st.script.faults = []
  events : st.sink.events ++ s.job.due layout (recordsAfter log p) =
    s.job.due layout (recordsAfter log s.startingOffset)
  last : (st.saved.getLast?.map Checkpoint.offset).getD s.startingOffset = p
  ascending : (st.saved.map Checkpoint.offset).Pairwise fun a b => a.before b = true
  visited : ∀ c ∈ st.saved, s.job.Visits log s.startingOffset c.offset
  stored : st.checkpoints.load s.splitId = st.saved.getLast?
  tables : ∀ c ∈ st.saved, c.tableIds = s.tableIds

lemma delivered_start (s : IncrementalSplit) (layout : TableId → Option SchemaRecord)
    (log : List LogRecord) (sh : Shared) :
    Delivered s layout log { shared := sh } s.startingOffset :=
  ⟨rfl, rfl, rfl, .nil, by simp, rfl, by simp⟩

lemma Delivered.share (h : Delivered s layout log st p) (sh : Shared) :
    Delivered s layout log { st with shared := sh } p :=
  ⟨h.quiet, h.events, h.last, h.ascending, h.visited, h.stored, h.tables⟩

/-- All checkpoints come before a position that comes after the last one. -/
lemma Delivered.saved_before (h : Delivered s layout log st p) (hlog : Ordered log)
    (hp' : p'.Normal) (hbefore : p.before p' = true) :
    ∀ c ∈ st.saved, c.offset.before p' = true := by
  have hnormal : ∀ c ∈ st.saved, c.offset.Normal := fun c hc => (h.visited c hc).normal hlog
  have hlast := h.last
  have hascending := h.ascending
  rcases List.eq_nil_or_concat st.saved with hnil | ⟨init, last, hsaved⟩
  · rw [hnil]
    simp
  · rw [List.concat_eq_append] at hsaved
    rw [hsaved] at hlast hascending hnormal ⊢
    simp only [List.getLast?_concat, Option.map_some, Option.getD_some] at hlast
    intro c hc
    rcases List.mem_append.mp hc with hinit | hlast'
    · have hcl : c.offset.before last.offset = true := by
        rw [List.map_append, List.pairwise_append] at hascending
        exact hascending.2.2 _ (List.mem_map_of_mem hinit) _ (by simp)
      exact Offset.before_trans (hnormal c hc) (hnormal last (by simp)) hp' hcl (hlast ▸ hbefore)
    · rw [List.mem_singleton.mp hlast', hlast]
      exact hbefore

/-- What a state becomes when events are delivered and checkpoints saved. -/
structure Moved (st st' : RunState) (es : List ChangeEvent) (cs : List Checkpoint) : Prop where
  quiet : st'.script.faults = []
  sink : st'.sink.events = st.sink.events ++ es
  saved : st'.saved = st.saved ++ cs
  checkpoints : st'.checkpoints = cs.foldl MemoryCheckpoints.save st.checkpoints
  source : st'.shared.source = st.shared.source

lemma Moved.trans {st st' st'' : RunState} {es es' : List ChangeEvent} {cs cs' : List Checkpoint}
    (h : Moved st st' es cs) (h' : Moved st' st'' es' cs') :
    Moved st st'' (es ++ es') (cs ++ cs') where
  quiet := h'.quiet
  sink := by rw [h'.sink, h.sink, List.append_assoc]
  saved := by rw [h'.saved, h.saved, List.append_assoc]
  checkpoints := by rw [h'.checkpoints, h.checkpoints, List.foldl_append]
  source := h'.source.trans h.source

lemma deliver_moved (es : List ChangeEvent) (h : st.script.faults = []) :
    ∃ st', deliver es st = (.ok (), st') ∧ Moved st st' es [] := by
  unfold deliver
  split
  · next hes =>
    refine ⟨st, rfl, h, ?_, (List.append_nil _).symm, rfl, rfl⟩
    rw [hes, List.append_nil]
  · exact ⟨_, RunState.call_quiet h .write _, (Script.make_quiet h .write).2, rfl,
      (List.append_nil _).symm, rfl, rfl⟩

lemma flush_moved (h : st.script.faults = []) :
    ∃ st', RunState.flush st = (.ok (), st') ∧ Moved st st' [] [] :=
  ⟨_, RunState.call_quiet h .flush _, (Script.make_quiet h .flush).2, (List.append_nil _).symm,
    (List.append_nil _).symm, rfl, rfl⟩

lemma save_moved (c : Checkpoint) (h : st.script.faults = []) :
    ∃ st', RunState.save c st = (.ok (), st') ∧ Moved st st' [] [c] :=
  ⟨_, RunState.call_quiet h .save _, (Script.make_quiet h .save).2, (List.append_nil _).symm, rfl,
    rfl, rfl⟩

lemma checkpoint_moved (r : Runner) (s : IncrementalSplit) (offset : Offset)
    (h : st.script.faults = []) :
    ∃ st', r.checkpoint s offset st = (.ok (), st') ∧
      Moved st st' [] [⟨s.splitId, s.tableIds, offset, r.stamp⟩] := by
  obtain ⟨st₁, hflush, hmoved₁⟩ := flush_moved h
  obtain ⟨st₂, hsave, hmoved₂⟩ := save_moved ⟨s.splitId, s.tableIds, offset, r.stamp⟩ hmoved₁.quiet
  have hmoved := hmoved₁.trans hmoved₂
  refine ⟨st₂.countCheckpoint, ?_, hmoved.quiet, hmoved.sink, hmoved.saved, hmoved.checkpoints,
    hmoved.source⟩
  rw [checkpoint, hflush]
  dsimp only
  rw [hsave]

/-- A batch of events and a checkpoint behind it move what has been delivered on. -/
lemma Delivered.advance (h : Delivered s layout log st p) (hlog : Ordered log)
    {es : List ChangeEvent} (hvisits : s.job.Visits log s.startingOffset p')
    (hbefore : p.before p' = true)
    (hdue : s.job.due layout (recordsAfter log p) =
      es ++ s.job.due layout (recordsAfter log p')) {st' : RunState} {stamp : Instant}
    (hmoved : Moved st st' es [⟨s.splitId, s.tableIds, p', stamp⟩]) :
    Delivered s layout log st' p' := by
  have hp' : p'.Normal := hvisits.normal hlog
  refine ⟨hmoved.quiet, ?_, ?_, ?_, ?_, ?_, ?_⟩
  · rw [hmoved.sink, List.append_assoc, ← hdue, h.events]
  · rw [hmoved.saved, List.getLast?_concat]
    rfl
  · rw [hmoved.saved, List.map_append, List.pairwise_append]
    refine ⟨h.ascending, List.pairwise_singleton .., fun a ha b hb => ?_⟩
    obtain ⟨c, hc, rfl⟩ := List.mem_map.mp ha
    obtain rfl := List.mem_singleton.mp hb
    exact h.saved_before hlog hp' hbefore c hc
  · rw [hmoved.saved]
    intro c hc
    rcases List.mem_append.mp hc with hc | hc
    · exact h.visited c hc
    · exact List.mem_singleton.mp hc ▸ hvisits
  · rw [hmoved.saved, hmoved.checkpoints, List.getLast?_concat]
    exact SortedMap.find?_insert_self ..
  · rw [hmoved.saved]
    intro c hc
    rcases List.mem_append.mp hc with hc | hc
    · exact h.tables c hc
    · rw [List.mem_singleton.mp hc]

/-- What has been delivered stays so when nothing is. -/
lemma Delivered.unmoved (h : Delivered s layout log st p) {st' : RunState}
    (hmoved : Moved st st' [] []) : Delivered s layout log st' p := by
  have hsink : st'.sink.events = st.sink.events := hmoved.sink.trans (List.append_nil _)
  have hsaved : st'.saved = st.saved := hmoved.saved.trans (List.append_nil _)
  have hstored : st'.checkpoints = st.checkpoints := hmoved.checkpoints
  refine ⟨hmoved.quiet, ?_, ?_, ?_, ?_, ?_, ?_⟩
  · rw [hsink, h.events]
  · rw [hsaved, h.last]
  · rw [hsaved]
    exact h.ascending
  · rw [hsaved]
    exact h.visited
  · rw [hsaved, hstored, h.stored]
  · rw [hsaved]
    exact h.tables

/-! ## One attempt -/

/-- The position of the last of some records, or another one when there is none. -/
def lastPosition (rs : List QueueRecord) (o : Offset) : Offset :=
  (rs.getLast?.map QueueRecord.position).getD o

/-- A part of a log that a session reads: it begins at the start of the split or behind one of its
records, and the output of the session follows its trace. -/
structure Stretch (s : IncrementalSplit) (layout : TableId → Option SchemaRecord)
    (log : List LogRecord) (h : SchemaHistory) (start : Offset) (o : Output) : Prop where
  reads : StreamJob.Reads h layout
  ordered : Ordered log
  stable : s.job.Stable log
  normal : s.startingOffset.Normal
  ending : ∀ e ∈ s.endingOffset, e.Normal
  begins : start = s.startingOffset ∨ s.job.Visits log s.startingOffset start
  follows : o.Follows (s.job.trace h (recordsAfter log start))

namespace Stretch

variable {h : SchemaHistory} {start : Offset} {o : Output}

lemma start_normal (hstretch : Stretch s layout log h start o) : start.Normal := by
  rcases hstretch.begins with rfl | hvisits
  · exact hstretch.normal
  · exact hvisits.normal hstretch.ordered

lemma stable_after (hstretch : Stretch s layout log h start o) :
    s.job.Stable (recordsAfter log start) := fun r hr =>
  hstretch.stable r (mem_recordsAfter.mp hr).1

end Stretch

/-- A session on the way: some records of its output have been taken and delivered, and what it goes
on to make are the records behind them. -/
structure Driving (s : IncrementalSplit) (layout : TableId → Option SchemaRecord)
    (log : List LogRecord) (o : Output) (start : Offset) (session : Session) (st : RunState)
    (p : Offset) (rs : List QueueRecord) : Prop where
  passes : session.Passes
  ongoing : session.reader.done = false
  linked : session.work.Linked session.queue
  offset : session.reader.offset = p
  last : lastPosition rs start = p
  output : (session.output st.shared).after rs = o
  delivered : Delivered s layout log st p

section

variable {h : SchemaHistory} {start : Offset} {o : Output} {session session' : Session}
  {rs : List QueueRecord}

/-- What was due at the start of a session is what it has made so far and what is due behind it. -/
lemma Driving.due (hdriving : Driving s layout log o start session st p rs)
    (hstretch : Stretch s layout log h start o) :
    s.job.due layout (recordsAfter log start) =
      changesOf rs ++ s.job.due layout (recordsAfter log p) := by
  have hpart : rs <+: (s.job.trace h (recordsAfter log start)).1 := by
    have hrecords := hstretch.follows.records
    rw [← hdriving.output] at hrecords
    exact (List.prefix_append ..).trans hrecords
  have hlast := hdriving.last
  rcases List.eq_nil_or_concat rs with rfl | ⟨before, y, hrs⟩
  · obtain rfl : start = p := hlast
    rfl
  · rw [List.concat_eq_append] at hrs
    have hy : rs.getLast?.map QueueRecord.position = some p := by
      rw [← hlast, lastPosition, hrs, List.getLast?_concat]
      rfl
    exact (StreamJob.due_of_prefix hstretch.reads hstretch.ordered hstretch.stable
      hstretch.start_normal hpart hy).2

/-- The records that a reader takes next move it on. -/
lemma Driving.moves (hdriving : Driving s layout log o start session st p rs)
    (hstretch : Stretch s layout log h start o) {rs' : List QueueRecord} (hrs' : rs' ≠ [])
    {o' : Output} (hout : o'.after rs' = session.output st.shared) :
    ∃ p', rs'.getLast?.map QueueRecord.position = some p' ∧
      lastPosition (rs ++ rs') start = p' ∧
      s.job.Visits log s.startingOffset p' ∧ p.before p' = true ∧
      s.job.due layout (recordsAfter log p) =
        changesOf rs' ++ s.job.due layout (recordsAfter log p') := by
  obtain ⟨init, x, rfl⟩ : ∃ init x, rs' = init ++ [x] :=
    ⟨_, _, (List.dropLast_append_getLast hrs').symm⟩
  have hstart := hstretch.start_normal
  have hwhole : rs ++ (init ++ [x]) <+: (s.job.trace h (recordsAfter log start)).1 := by
    have hrecords := hstretch.follows.records
    rw [← hdriving.output, ← hout, Output.after_after, Output.after_records] at hrecords
    exact (List.prefix_append ..).trans hrecords
  have hx : (rs ++ (init ++ [x])).getLast?.map QueueRecord.position = some x.position := by
    rw [← List.append_assoc, List.getLast?_concat]
    rfl
  obtain ⟨hvisits, hdue'⟩ :=
    StreamJob.due_of_prefix hstretch.reads hstretch.ordered hstretch.stable hstart hwhole hx
  have hbefore : p.before x.position = true := by
    have hlast := hdriving.last
    rcases List.eq_nil_or_concat rs with rfl | ⟨before, y, hrs⟩
    · obtain rfl : start = p := hlast
      exact hvisits.later
    · rw [List.concat_eq_append] at hrs
      obtain rfl : y.position = p := by
        rw [← hlast, lastPosition, hrs, List.getLast?_concat]
        rfl
      have hascend := StreamJob.positions_ascend hstretch.reads
        (hstretch.ordered.ordered_after start) hstretch.stable_after hwhole
      rw [List.map_append, List.pairwise_append] at hascend
      exact hascend.2.2 _ (List.mem_map_of_mem (by simp [hrs])) _ (by simp)
  refine ⟨x.position, by rw [List.getLast?_concat]; rfl, by rw [lastPosition, hx]; rfl, ?_, hbefore,
    ?_⟩
  · rcases hstretch.begins with rfl | hfrom
    · exact hvisits
    · have hlater := Offset.before_trans hstretch.normal hstart (hvisits.normal hstretch.ordered)
        hfrom.later hvisits.later
      exact ⟨hvisits.record, hlater, hvisits.within⟩
  · rw [hdriving.due hstretch, changesOf_append, List.append_assoc] at hdue'
    exact List.append_cancel_left hdue'

/-- When the output of a session has come to its end, nothing is left to deliver. -/
lemma Driving.nothing_due (hdriving : Driving s layout log o start session st p rs)
    (hstretch : Stretch s layout log h start o) {source : Shared}
    (hout : session.output st.shared = ⟨[], .ends, source⟩) :
    s.job.due layout (recordsAfter log p) = [] := by
  have hwhole := hdriving.output
  rw [hout] at hwhole
  obtain ⟨hrecords, hends⟩ := hstretch.follows.ends (by rw [← hwhole]; rfl)
  have hall : rs = (s.job.trace h (recordsAfter log start)).1 := by
    rw [← hrecords, ← hwhole, Output.after_records, List.append_nil]
  have hfinish : ∀ f, (s.job.trace h (recordsAfter log start)).2 ≠ .fails f := fun f => by
    rw [hends]
    simp
  have hdue := StreamJob.due_of_complete hstretch.reads hstretch.ending
    (hstretch.ordered.ordered_after start) hstretch.stable_after hfinish
  rw [hdriving.due hstretch, ← hall] at hdue
  exact List.append_cancel_left (hdue.trans (List.append_nil _).symm)

/-- The producer takes a turn. -/
lemma Driving.work (hdriving : Driving s layout log o start session st p rs) :
    Driving s layout log o start (session.advance st.shared).1
      { st with shared := (session.advance st.shared).2 } p rs where
  passes :=
    { hdriving.passes with
      sized := (congrArg QueueSettings.maxBatchSize
        (Work.advance_queue session.work session.queue st.shared).1).trans hdriving.passes.sized }
  ongoing := hdriving.ongoing
  linked := (Work.advance_linked hdriving.linked st.shared).2
  offset := hdriving.offset
  last := hdriving.last
  output := (congrArg (Output.after rs)
    (Work.advance_linked hdriving.linked st.shared).1).trans hdriving.output
  delivered := hdriving.delivered.share _

lemma Driving.count (hdriving : Driving s layout log o start session st p rs) (m : Metrics) :
    Driving s layout log o start session { st with shared := { st.shared with metrics := m } } p
      rs :=
  { hdriving with
    output := (congrArg (Output.after rs) (Session.output_metrics ..)).trans hdriving.output
    delivered := hdriving.delivered.share _ }

/-- A batch that a session gives is delivered and checkpointed, and the session goes on behind it.
A poll interval that goes by leaves the position where it is, and then nothing is saved. -/
lemma Driving.batch (r : Runner) (hdriving : Driving s layout log o start session st p rs)
    (hstretch : Stretch s layout log h start o) {rs' : List QueueRecord} {b : Batch}
    {es : List ChangeEvent} (hp : session.Passed rs' b session') (hes : b.events? = some es)
    (m : Metrics) :
    ∃ st₁ st₂, deliver es { st with shared := { st.shared with metrics := m } } = (.ok (), st₁) ∧
      r.checkpointIfMoved (.incremental (s.startingAt start)) p session'.reader.offset st₁ =
        (.ok (), st₂) ∧
      Driving s layout log o start session' st₂ session'.reader.offset (rs ++ rs') ∧
      st.saved <+: st₂.saved := by
  obtain ⟨hpasses, -⟩ := hdriving.passes.passed hp
  cases hp with
  | records hdone hopen hbuffer =>
    obtain rfl : changesOf session.queue.batch = es := Option.some.inj hes
    have hsized : 1 ≤ session.queue.settings.maxBatchSize :=
      hdriving.passes.sized ▸ Nat.le_max_right ..
    have hrs' := EventQueue.batch_ne_nil hsized hbuffer
    have hout := Session.output_dropBatch session.work session.queue st.shared
    obtain ⟨p', hp', hlast, hvisits, hbefore, hdue⟩ := hdriving.moves hstretch hrs' hout
    have hoffset : (session.reader.passAll session.queue.batch).offset = p' := by
      rw [Reader.passAll_offset, hp']
      rfl
    have hne : p' ≠ p := by
      rintro rfl
      simp at hbefore
    obtain ⟨st₁, hdeliver, hmoved₁⟩ := deliver_moved (changesOf session.queue.batch)
      (hdriving.delivered.share { st.shared with metrics := m }).quiet
    obtain ⟨st₂, hcheckpoint, hmoved₂⟩ := r.checkpoint_moved (s.startingAt start) p' hmoved₁.quiet
    have hmoved := hmoved₁.trans hmoved₂
    rw [List.append_nil, List.nil_append] at hmoved
    refine ⟨st₁, st₂, hdeliver, ?_, ⟨hpasses, ?_, ⟨hdriving.linked.opened, hdriving.linked.unended⟩,
      rfl, ?_, ?_, ?_⟩, ?_⟩
    · rw [hoffset, checkpointIfMoved, if_neg hne, hcheckpoint]
    · rw [Reader.passAll_eq]
      exact hdone
    · rw [hoffset, hlast]
    · rw [Session.output_congr _ hmoved.source, ← Output.after_after]
      exact (congrArg (Output.after rs)
        ((congrArg _ (Session.output_metrics ..)).trans hout)).trans hdriving.output
    · rw [hoffset]
      exact (hdriving.delivered.share _).advance hstretch.ordered hvisits hbefore hdue hmoved
    · rw [hmoved.saved]
      exact List.prefix_append ..
  | idle hdone =>
    obtain rfl : [] = es := Option.some.inj hes
    refine ⟨_, _, rfl, if_pos hdriving.offset, ?_, List.prefix_rfl⟩
    rw [List.append_nil, hdriving.offset]
    exact hdriving.count m
  | failed => cases hes
  | completed => cases hes
  | past => cases hes
  | stopped => cases hes

/-- What an attempt leaves behind. -/
structure Left (s : IncrementalSplit) (layout : TableId → Option SchemaRecord)
    (log : List LogRecord) (st : RunState) (result : Attempt) (st' : RunState) : Prop where
  delivered : ∃ p, Delivered s layout log st' p ∧
    ∀ c, result = .finished c → s.job.due layout (recordsAfter log p) = []
  saved : st.saved <+: st'.saved

/-- However the turns of its producer and its reader come, a session is delivered up to its end or to
where it fails. -/
lemma ReadCourse.left {r : Runner} {result : Attempt} {st' : RunState}
    (hcourse : ReadCourse r (.incremental (s.startingAt start)) session p st result session' st')
    (hstretch : Stretch s layout log h start o)
    (hdriving : Driving s layout log o start session st p rs) :
    Left s layout log st result st' ∧
      ∀ f, result = .failed f → st'.shared.source = o.source := by
  generalize hsplit : Split.incremental (s.startingAt start) = split at hcourse
  induction hcourse generalizing rs with
  | paused session p st =>
    exact ⟨⟨⟨p, hdriving.delivered, by simp⟩, List.prefix_rfl⟩, by simp⟩
  | work _ ih =>
    obtain ⟨hleft, hsource⟩ := ih hdriving.work
    exact ⟨⟨hleft.delivered, hleft.saved⟩, hsource⟩
  | @silent session _ _ _ st _ _ _ hturn _ ih =>
    obtain ⟨b, s', m, hpassed, -⟩ := Session.turn_passed hdriving.passes st.shared
    cases hturn.symm.trans hpassed
  | @batch session s₁ s' p st st₁ st₂ st' shared b es result hturn hes hdeliver hcheckpoint _ ih =>
    obtain ⟨m, rfl, hp⟩ := hdriving.passes.of_turn hturn
    obtain ⟨st₁', st₂', hdeliver', hcheckpoint', hdriving', hsaved⟩ :=
      hdriving.batch r hstretch hp hes m
    subst hsplit
    cases hdeliver.symm.trans hdeliver'
    cases hcheckpoint.symm.trans hcheckpoint'
    obtain ⟨hleft, hsource⟩ := ih hdriving'
    exact ⟨⟨hleft.delivered, hsaved.trans hleft.saved⟩, hsource⟩
  | @undelivered session s₁ p st st₁ shared b es f hturn hes hdeliver =>
    obtain ⟨m, rfl, hp⟩ := hdriving.passes.of_turn hturn
    obtain ⟨st₁', st₂', hdeliver', -⟩ := hdriving.batch r hstretch hp hes m
    cases hdeliver.symm.trans hdeliver'
  | @unsaved session s₁ p st st₁ st₂ shared b es f hturn hes hdeliver hcheckpoint =>
    obtain ⟨m, rfl, hp⟩ := hdriving.passes.of_turn hturn
    obtain ⟨st₁', st₂', hdeliver', hcheckpoint', -⟩ := hdriving.batch r hstretch hp hes m
    subst hsplit
    cases hdeliver.symm.trans hdeliver'
    cases hcheckpoint.symm.trans hcheckpoint'
  | @ended session s₁ p st st₁ shared hturn hflush =>
    obtain ⟨m, rfl, hp⟩ := hdriving.passes.of_turn hturn
    have hcounted := hdriving.delivered.share { st.shared with metrics := m }
    obtain ⟨st₂, hst₂, hmoved⟩ := flush_moved hcounted.quiet
    cases hflush.symm.trans hst₂
    have hnone : s.job.due layout (recordsAfter log p) = [] := by
      generalize session.takes = taken at hp
      cases hp with
      | completed _ _ hbuffer herror hfinished =>
        exact hdriving.nothing_due hstretch
          (hdriving.linked.output_of_finished hbuffer herror hfinished st.shared)
      | past hdone => simp [hdriving.ongoing] at hdone
      | stopped hclosed => simp [hdriving.linked.opened] at hclosed
    have hsaved : st₁.saved = st.saved := hmoved.saved.trans (List.append_nil _)
    exact ⟨⟨⟨p, hcounted.unmoved hmoved, fun _ _ => hnone⟩, by rw [hsaved]⟩, by simp⟩
  | @unflushed session s₁ p st st₁ shared f hturn hflush =>
    obtain ⟨st₂, hst₂, -⟩ := flush_moved (hdriving.delivered.share shared).quiet
    cases hflush.symm.trans hst₂
  | @failed session s₁ p st shared f hturn =>
    obtain ⟨m, rfl, hp⟩ := hdriving.passes.of_turn hturn
    refine ⟨⟨⟨p, hdriving.delivered.share _, by simp⟩, List.prefix_rfl⟩, fun _ _ => ?_⟩
    generalize session.takes = taken at hp
    cases hp with
    | failed _ _ hbuffer herror =>
      rw [← hdriving.output, Session.output,
        hdriving.linked.output_of_error hbuffer herror st.shared]
      rfl

end

end Runner
end Changefeed
