import Mathlib.Tactic.SplitIfs
import Changefeed.Proofs.Fetch.Takings

/-!
# Reading in any order of turns

One statement is kept by every turn of the producer and of the reader: what was given out and what
is ready are the events of the records that were taken, and the records taken and those that are
left are all the records of the split.  When the reader reports that the split is completed, nothing
is left and nothing is ready, so all the events of the split have been given out.

Closing the queue ends the statement, for what is in the queue is dropped then.  But nothing is
reported after it either.
-/

namespace Changefeed

namespace Work

variable {w : Work} {q : EventQueue} {sh : Shared}

/-- The queue is open, and has been ended by nobody but a producer that has stopped. -/
structure Linked (w : Work) (q : EventQueue) : Prop where
  opened : q.closed = false
  unended : w = .stopped ∨ q.finished = false ∧ q.error = none

lemma Linked.output_of_error (h : w.Linked q) (hbuffer : q.buffer = []) {f : Fault}
    (herror : q.error = some f) (sh : Shared) : w.output q sh = ⟨[], .fails f, sh.source⟩ := by
  have hstopped : w = .stopped := h.unended.resolve_right fun hgoing => by simp [herror] at hgoing
  rw [hstopped, output, hbuffer, EventQueue.outcome, herror]

lemma Linked.output_of_finished (h : w.Linked q) (hbuffer : q.buffer = []) (herror : q.error = none)
    (hfinished : q.finished = true) (sh : Shared) : w.output q sh = ⟨[], .ends, sh.source⟩ := by
  have hstopped : w = .stopped := h.unended.resolve_right fun hgoing => by
    simp [hfinished] at hgoing
  rw [hstopped, output, hbuffer, EventQueue.outcome, herror, hfinished]
  rfl

/-- A turn of the producer neither closes the queue nor changes its settings. -/
lemma advance_queue (w : Work) (q : EventQueue) (sh : Shared) :
    (w.advance q sh).2.1.settings = q.settings ∧ (w.advance q sh).2.1.closed = q.closed := by
  cases w with
  | running p =>
    unfold advance
    dsimp only
    split
    · next f sh' _ =>
      unfold failQueue EventQueue.fail
      split_ifs <;> exact ⟨rfl, rfl⟩
    all_goals exact ⟨rfl, rfl⟩
  | blocked r p =>
    have hoffered := q.offered r
    unfold advance
    dsimp only
    generalize q.offer r = offered at hoffered ⊢
    cases hoffered <;> exact ⟨rfl, rfl⟩
  | stopped => exact ⟨rfl, rfl⟩

/-- A turn of the producer keeps what is buffered and what will be. -/
lemma advance_linked (h : w.Linked q) (sh : Shared) :
    (w.advance q sh).1.output (w.advance q sh).2.1 (w.advance q sh).2.2 = w.output q sh ∧
      (w.advance q sh).1.Linked (w.advance q sh).2.1 := by
  cases w with
  | running p =>
    obtain ⟨hfinished, herror⟩ := h.unended.resolve_left (by simp)
    have hlinked : ∀ w : Work, w.Linked q := fun w => ⟨h.opened, .inr ⟨hfinished, herror⟩⟩
    unfold advance
    dsimp only
    split
    · next f sh' hstep =>
      refine ⟨?_, ?_⟩
      · rw [output_failQueue h.opened hfinished herror, output, Producer.output_fails hstep]
        simp [Output.after]
      · unfold failQueue
        split
        · exact hlinked _
        · rw [EventQueue.fail_of_open h.opened]
          exact ⟨h.opened, .inl rfl⟩
    · next sh' hstep =>
      refine ⟨?_, h.opened, .inl rfl⟩
      rw [output, output, Producer.output_ends hstep]
      simp [Output.after, EventQueue.outcome, EventQueue.finish, herror]
    · next sh' hstep =>
      obtain rfl := Producer.step_waits hstep
      exact ⟨rfl, h⟩
    · next next sh' hstep =>
      refine ⟨?_, hlinked _⟩
      rw [output, output, Producer.output_quiet hstep]
    · next r next sh' hstep =>
      refine ⟨?_, hlinked _⟩
      rw [output, output, Producer.output_push hstep, Output.after_after]
  | blocked r p =>
    obtain ⟨hfinished, herror⟩ := h.unended.resolve_left (by simp)
    have hoffered := q.offered r
    unfold advance
    dsimp only
    generalize q.offer r = offered at hoffered ⊢
    cases hoffered with
    | ended hended => simp [h.opened, hfinished] at hended
    | full => exact ⟨rfl, h⟩
    | accepted => exact ⟨rfl, h.opened, .inr ⟨hfinished, herror⟩⟩
  | stopped => exact ⟨rfl, h⟩

end Work

namespace Session

variable {s s' : Session} {sh sh' : Shared} {mode : ReadMode} {o : Output}
  {given : List ChangeEvent}

/-! ## Sessions that are sound stay so -/

lemma Sound.unreported (hs : s.Sound) (hdone : s.reader.done = false) :
    s.reader.completion = none := by
  by_contra hsome
  have hcompleted := hs.reported.mpr (Option.isSome_iff_ne_none.mpr hsome)
  rw [hs.reading hdone] at hcompleted
  contradiction

lemma Sound.requeue (hs : s.Sound) (w : Work) {q : EventQueue}
    (hq : q.settings = s.queue.settings) : Sound { s with work := w, queue := q } where
  sized := (congrArg QueueSettings.maxBatchSize hq).trans hs.sized
  reading := hs.reading
  delivered := hs.delivered
  reported := hs.reported
  held := hs.held

/-- A reader whose split fails stays sound. -/
lemma Sound.fail (hs : s.Sound) (hpending : s.reader.pending = [])
    (hdone : s.reader.done = false) (m : Metrics) :
    Sound { s with reader := (s.reader.fail m).1 } where
  sized := hs.sized
  reading hgoing := by cases hgoing
  delivered _ := hpending
  reported := by
    have hstate : ((s.reader.fail m).1.lifecycle).state = .failed := by
      simp [Reader.fail, Lifecycle.moveIfAllowed, hs.reading hdone, SplitState.canMoveTo]
    have hnone : (s.reader.fail m).1.completion = none := hs.unreported hdone
    simp [hstate, hnone]
  held _ := hpending

/-- A reader that takes records stays sound. -/
lemma Sound.absorbed (hs : s.Sound) (hpending : s.reader.pending = [])
    (hdone : s.reader.done = false) {r : Reader} {rs : List QueueRecord}
    {rows out : List ChangeEvent} (h : s.reader.Absorbed rs rows out r) :
    Sound { s with reader := r } where
  sized := by rw [hs.sized, h.maxBatchSize]
  reading _ := h.lifecycle ▸ hs.reading hdone
  delivered hover := by
    rw [h.done, hdone] at hover
    contradiction
  reported := by
    rw [h.lifecycle, h.completion]
    exact hs.reported
  held hheld := by rw [h.pending, hpending, h.held hheld, List.append_nil]

lemma Sound.passing (hs : s.Sound) (hdone : s.reader.done = false)
    (hmode : s.reader.mode.isPassThrough = true) : s.reader.Passing where
  mode := ReadMode.eq_passThrough hmode
  ongoing := hdone
  reading := hs.reading hdone

lemma Sound.absorbs (hs : s.Sound) (hdone : s.reader.done = false) {rs : List QueueRecord}
    (hrs : MarkedLast rs) {m m' : Metrics} {r : Reader} {out : List ChangeEvent}
    (h : s.reader.absorbAll m rs = (.ok out, r, m')) : ∃ rows, s.reader.Absorbed rs rows out r := by
  cases hmode : s.reader.mode with
  | passThrough => exact ⟨[], Reader.absorbed_passing (hs.passing hdone (by rw [hmode]; rfl)) h⟩
  | normalize n => exact Reader.absorbed_holding hmode hrs h

/-- What comes of records of which a sound session refuses one. -/
lemma Sound.refuses (hs : s.Sound) (hdone : s.reader.done = false) {rs : List QueueRecord}
    (hrs : MarkedLast rs) {m m' : Metrics} {r : Reader} {f : Fault}
    (h : s.reader.absorbAll m rs = (.error f, r, m')) :
    s.reader.mode.takeAll rs = .error f ∧
      ∃ n o, r = { s.reader with mode := .normalize n, offset := o } := by
  cases hmode : s.reader.mode with
  | passThrough =>
    obtain ⟨m₁, hpass⟩ :=
      Reader.absorbAll_passing (hs.passing hdone (by rw [hmode]; rfl)) m rs
    rw [hpass] at h
    cases congrArg Prod.fst h
  | normalize n =>
    rw [← hmode]
    exact Reader.absorbAll_refused hmode hrs h

/-! ## What has been given out -/

/-- The events that come of a turn. -/
def eventsOf : Option Batch → List ChangeEvent
  | some (.events es) => es
  | some .idle | some .ended | some (.failed _) | none => []

/-- What was given out and what is ready are the events of the records that were taken, and the
records that are left follow them. -/
structure Following (mode : ReadMode) (o : Output) (given : List ChangeEvent) (s : Session)
    (sh : Shared) : Prop where
  linked : s.work.Linked s.queue
  left : ∃ taken, (s.output sh).after taken = o ∧
    mode.takeAll taken = .ok (given ++ s.reader.pending, s.reader.mode) ∧
    s.reader.watermark = lastMark taken

/-- A report of all that a producer makes: what was given out are the events of its records. -/
structure Whole (mode : ReadMode) (o : Output) (given : List ChangeEvent) (c : SplitCompletion) :
    Prop where
  ends : o.finish = .ends
  events : mode.takeAll o.records = .ok (given, .passThrough)
  marked : ∀ w, lastMark o.records = some w → c.finalOffset = some w

/-- What holds of a session at any time, when its reader began in a mode and its producer had an
output before it. -/
structure Reads (mode : ReadMode) (o : Output) (given : List ChangeEvent) (s : Session)
    (sh : Shared) : Prop where
  markedLast : MarkedLast o.records
  sound : s.Sound
  following : s.reader.done = false → s.queue.closed = false → Following mode o given s sh
  whole : ∀ c, s.reader.completion = some c → Whole mode o given c

lemma Following.count (h : Following mode o given s sh) (m : Metrics) :
    Following mode o given s { sh with metrics := m } where
  linked := h.linked
  left := by
    obtain ⟨taken, hout, hrest⟩ := h.left
    exact ⟨taken, (congrArg (Output.after taken) (output_metrics s sh m)).trans hout, hrest⟩

lemma Following.batch_markedLast (h : Following mode o given s sh) (ho : MarkedLast o.records) :
    MarkedLast s.queue.batch := by
  obtain ⟨taken, hout, -⟩ := h.left
  have hbatch := output_dropBatch s.work s.queue sh
  have hrecords : taken ++ (s.queue.batch ++ (s.work.output s.queue.dropBatch sh).records) =
      o.records := by
    rw [← hout, output, ← hbatch]
    rfl
  refine ho.sublist (hrecords ▸ ?_)
  exact (List.sublist_append_left ..).trans (List.sublist_append_right ..)

/-- The reader takes the next records. -/
lemma Following.absorbed (h : Following mode o given s sh) (hpending : s.reader.pending = [])
    {r : Reader} {rows out : List ChangeEvent} (hr : s.reader.Absorbed s.queue.batch rows out r) :
    Following mode o (given ++ out) { s with queue := s.queue.dropBatch, reader := r } sh where
  linked := ⟨h.linked.opened, h.linked.unended⟩
  left := by
    obtain ⟨taken, hout, htaken, hmark⟩ := h.left
    rw [hpending, List.append_nil] at htaken
    refine ⟨taken ++ s.queue.batch, ?_, ?_, ?_⟩
    · rw [← hout, ← Output.after_after]
      exact congrArg (Output.after taken) (output_dropBatch s.work s.queue sh)
    · rw [ReadMode.takeAll_append htaken hr.taken, hr.pending, hpending]
      rcases hr.apart with rfl | rfl <;> simp
    · rw [hr.watermark, hmark, lastMark_append]

/-- Where the output has nothing more to give, all of its records have been taken. -/
lemma Following.exhausted (h : Following mode o given s sh) (hpending : s.reader.pending = [])
    {finish : Finish} (hnothing : s.output sh = ⟨[], finish, sh.source⟩) :
    o.finish = finish ∧ o.source = sh.source ∧
      mode.takeAll o.records = .ok (given, s.reader.mode) ∧
      s.reader.watermark = lastMark o.records := by
  obtain ⟨taken, hout, htaken, hmark⟩ := h.left
  rw [hpending, List.append_nil] at htaken
  rw [hnothing] at hout
  subst hout
  refine ⟨rfl, rfl, ?_⟩
  rw [Output.after_records, List.append_nil]
  exact ⟨htaken, hmark⟩

/-- A reader that finds the end of the queue has taken all that there is. -/
lemma Following.whole (h : Following mode o given s sh) (hpending : s.reader.pending = [])
    (hbuffer : s.queue.buffer = []) (herror : s.queue.error = none)
    (hfinished : s.queue.finished = true) (hmode : s.reader.mode.isPassThrough = true) :
    Whole mode o given s.reader.report := by
  obtain ⟨hends, -, htaken, hmark⟩ :=
    h.exhausted hpending (h.linked.output_of_finished hbuffer herror hfinished sh)
  rw [ReadMode.eq_passThrough hmode] at htaken
  refine ⟨hends, htaken, fun w hw => ?_⟩
  rw [Reader.report, hmark, hw]
  rfl

/-! ## Turns -/

/-- The producer takes a turn. -/
lemma Reads.advance (h : Reads mode o given s sh) :
    Reads mode o given (s.advance sh).1 (s.advance sh).2 where
  markedLast := h.markedLast
  sound := h.sound.requeue _ (Work.advance_queue s.work s.queue sh).1
  following hdone hopen := by
    have hqueue := (Work.advance_queue s.work s.queue sh).2
    have hfollowing := h.following hdone (hqueue.symm.trans hopen)
    obtain ⟨taken, hout, hrest⟩ := hfollowing.left
    obtain ⟨houtput, hlinked⟩ := Work.advance_linked hfollowing.linked sh
    exact ⟨hlinked, taken, (congrArg (Output.after taken) houtput).trans hout, hrest⟩
  whole := h.whole

lemma Reads.close (h : Reads mode o given s sh) (sh' : Shared) :
    Reads mode o given s.close sh' where
  markedLast := h.markedLast
  sound := h.sound.requeue _ rfl
  following _ hopen := by cases hopen
  whole := h.whole

lemma Reads.share (h : Reads mode o given s sh) (hclosed : s.queue.closed = true)
    (sh' : Shared) : Reads mode o given s sh' :=
  { h with following := fun _ hopen => by simp [hclosed] at hopen }

lemma Reads.of_unreported (h : Reads mode o given s sh) (hs : s'.Sound)
    (hdone : s'.reader.done = true) (hnone : s'.reader.completion = none)
    (given' : List ChangeEvent) : Reads mode o given' s' sh' where
  markedLast := h.markedLast
  sound := hs
  following hgoing := by simp [hdone] at hgoing
  whole c hc := by simp [hnone] at hc

/-- The reader takes records. -/
lemma Reads.absorbed (h : Reads mode o given s sh) (hpending : s.reader.pending = [])
    (hdone : s.reader.done = false) (hopen : s.queue.closed = false) {m m' : Metrics} {r : Reader}
    {out : List ChangeEvent} (hr : s.reader.absorbAll m s.queue.batch = (.ok out, r, m'))
    (m'' : Metrics) :
    Reads mode o (given ++ out) { s with queue := s.queue.dropBatch, reader := r }
      { sh with metrics := m'' } := by
  have hfollowing := h.following hdone hopen
  obtain ⟨rows, habsorbed⟩ :=
    h.sound.absorbs hdone (hfollowing.batch_markedLast h.markedLast) hr
  refine ⟨h.markedLast, ?_, fun _ _ => ?_, fun c hc => ?_⟩
  · exact (h.sound.absorbed hpending hdone habsorbed).requeue _ rfl
  · exact (hfollowing.absorbed hpending habsorbed).count m''
  · rw [habsorbed.completion, h.sound.unreported hdone] at hc
    cases hc

/-- The reader takes a turn. -/
lemma Reads.turned (h : Reads mode o given s sh) {b : Option Batch} (hb : Turned s sh b s' sh') :
    Reads mode o (given ++ eventsOf b) s' sh' := by
  have hs := h.sound
  cases hb with
  | @ready es rest hpending hes hsize =>
    have hdone : s.reader.done = false := by
      by_contra hover
      have hnil := hs.delivered (by simpa using hover)
      simp [hnil, hes] at hpending
    refine ⟨h.markedLast, ⟨hs.sized, hs.reading, fun hover => ?_, hs.reported, fun hheld => ?_⟩,
      fun _ hopen => ?_, fun c hc => ?_⟩
    · simp [hdone] at hover
    · have hnil := hs.held hheld
      simp [hnil, hes] at hpending
    · obtain ⟨hlinked, taken, hout, htaken, hmark⟩ :=
        (h.following hdone hopen).count (Reader.countBatch sh.metrics es)
      rw [hpending, ← List.append_assoc] at htaken
      exact ⟨hlinked, taken, hout, htaken, hmark⟩
    · rw [hs.unreported hdone] at hc
      cases hc
  | past hpending hdone => rwa [eventsOf, List.append_nil]
  | idle hpending hdone hopen => rwa [eventsOf, List.append_nil]
  | stopped hpending hdone hclosed =>
    have hsound : Sound { s with reader := s.reader.stop } :=
      ⟨hs.sized, fun hgoing => (nomatch hgoing), fun _ => hpending, hs.reported, hs.held⟩
    exact h.of_unreported hsound rfl (hs.unreported hdone) _
  | completed hpending hdone hopen hbuffer herror hfinished hmode =>
    have hwhole := (h.following hdone hopen).whole hpending hbuffer herror hfinished hmode
    refine ⟨h.markedLast, ⟨hs.sized, ?_, fun _ => hpending, by simp, fun _ => hpending⟩,
      fun hgoing => ?_, fun c hc => ?_⟩
    · intro hgoing
      cases hgoing
    · cases hgoing
    · obtain rfl := Option.some.inj hc
      rwa [eventsOf, List.append_nil]
  | broken hpending hdone hopen hbuffer herror =>
    have hsound := (hs.fail hpending hdone sh.metrics).requeue s.work
      (q := { s.queue with error := none }) rfl
    exact h.of_unreported hsound rfl (hs.unreported hdone) _
  | unmarked hpending hdone =>
    exact h.of_unreported (hs.fail hpending hdone sh.metrics) rfl (hs.unreported hdone) _
  | @refused f reader m hpending hdone hopen habsorb =>
    have hbatch := (h.following hdone hopen).batch_markedLast h.markedLast
    obtain ⟨-, n, position, rfl⟩ := hs.refuses hdone hbatch habsorb
    have hrefused : Sound { s with
        reader := { s.reader with mode := .normalize n, offset := position } } :=
      ⟨hs.sized, hs.reading, hs.delivered, hs.reported, fun _ => hpending⟩
    have hsound := (hrefused.fail hpending hdone m).requeue s.work
      (q := s.queue.dropBatch.close) rfl
    exact h.of_unreported hsound rfl (hs.unreported hdone) _
  | passed hpending hdone hopen hbuffer habsorb hes =>
    exact h.absorbed hpending hdone hopen habsorb _
  | @taken _ reader m hpending hdone hopen hbuffer habsorb hb =>
    have hnothing : eventsOf b = [] := by
      rcases hb with rfl | ⟨rfl, -⟩ <;> rfl
    rw [hnothing]
    exact h.absorbed hpending hdone hopen habsorb m

/-- The reader changes what is shared in the counters alone. -/
lemma Turned.source {b : Option Batch} (h : Turned s sh b s' sh') : sh'.source = sh.source := by
  cases h <;> rfl

lemma Turned.server {b : Option Batch} (h : Turned s sh b s' sh') : sh'.server = sh.server :=
  (Shared.source_eq_iff.mp h.source).1

/-- A queue that is closed stays closed. -/
lemma Turned.closed {b : Option Batch} (h : Turned s sh b s' sh')
    (hclosed : s.queue.closed = true) : s'.queue.closed = true := by
  cases h with
  | refused => rfl
  | _ => exact hclosed

/-- A turn leaves the split where it is in its life, or moves it on by an allowed transition. -/
lemma Reads.lifecycle (h : Reads mode o given s sh) {b : Option Batch}
    (hb : Turned s sh b s' sh') :
    s'.reader.lifecycle = s.reader.lifecycle ∨
      s.reader.lifecycle.state.canMoveTo s'.reader.lifecycle.state = true := by
  have hfails : ∀ r : Reader, ∀ m, r.lifecycle = s.reader.lifecycle → s.reader.done = false →
      s.reader.lifecycle.state.canMoveTo (r.fail m).1.lifecycle.state = true := by
    intro r m hr hdone
    simp [Reader.fail, hr, Lifecycle.moveIfAllowed, h.sound.reading hdone, SplitState.canMoveTo]
  cases hb with
  | ready => exact .inl rfl
  | past => exact .inl rfl
  | idle => exact .inl rfl
  | stopped => exact .inl rfl
  | completed _ hdone =>
    exact .inr (by simp [h.sound.reading hdone, SplitState.canMoveTo])
  | broken _ hdone => exact .inr (hfails s.reader sh.metrics rfl hdone)
  | unmarked _ hdone => exact .inr (hfails s.reader sh.metrics rfl hdone)
  | @refused f r m _ hdone hopen habsorb =>
    have hbatch := (h.following hdone hopen).batch_markedLast h.markedLast
    obtain ⟨-, n, position, rfl⟩ := h.sound.refuses hdone hbatch habsorb
    exact .inr (hfails _ m rfl hdone)
  | passed _ hdone hopen _ habsorb =>
    have hbatch := (h.following hdone hopen).batch_markedLast h.markedLast
    obtain ⟨rows, habsorbed⟩ := h.sound.absorbs hdone hbatch habsorb
    exact .inl habsorbed.lifecycle
  | taken _ hdone hopen _ habsorb =>
    have hbatch := (h.following hdone hopen).batch_markedLast h.markedLast
    obtain ⟨rows, habsorbed⟩ := h.sound.absorbs hdone hbatch habsorb
    exact .inl habsorbed.lifecycle

lemma Reads.turn (h : Reads mode o given s sh) :
    Reads mode o (given ++ eventsOf (s.turn sh).1) (s.turn sh).2.1 (s.turn sh).2.2 :=
  h.turned (Session.turned h.sound sh)

end Session
end Changefeed
