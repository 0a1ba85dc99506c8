import Mathlib.Data.List.Induction
import Changefeed.Fetch.Drain
import Changefeed.Proofs.Fetch.Polling

/-!
# Reading what passes through

A reader that lets changes pass delivers the changes of the session's output in order, moves its
position along with the records and ends as the output does.  How the output is cut into batches
does not show in what is delivered, because each batch comes off the front of the output and leaves
the rest to be read.

The same reader delivers what it had ready before, which is how the final rows of a snapshot split
leave it.
-/

namespace Changefeed

/-- The change that a record carries. -/
def QueueRecord.change? : QueueRecord → Option ChangeEvent
  | .change e => some e
  | .heartbeat _ | .watermark _ => none

/-- The changes among some records. -/
def changesOf (rs : List QueueRecord) : List ChangeEvent := rs.filterMap QueueRecord.change?

@[simp] theorem changesOf_nil : changesOf [] = [] := rfl

@[simp] lemma changesOf_append (rs ss : List QueueRecord) :
    changesOf (rs ++ ss) = changesOf rs ++ changesOf ss :=
  List.filterMap_append ..

/-- How reading stops when the records end so. -/
def Finish.stop : Finish → Session.Stop
  | .ends => .ended
  | .waits => .idle
  | .fails f => .failed f

namespace Reader

/-! ## Records that pass -/

/-- The reader lets changes pass and has not come to an end. -/
structure Passing (r : Reader) : Prop where
  mode : r.mode = .passThrough
  ongoing : r.done = false
  reading : r.lifecycle.state = .reading

/-- The reader after a record has passed. -/
def pass (r : Reader) : QueueRecord → Reader
  | .change e => { r with offset := e.position }
  | .heartbeat position => { r with offset := position }
  | .watermark position => { r with offset := position, watermark := some position }

/-- The reader after records have passed. -/
def passAll (r : Reader) (rs : List QueueRecord) : Reader := rs.foldl pass r

/-- What the reader reports at the end of the records. -/
def report (r : Reader) : SplitCompletion := ⟨r.splitId, some (r.watermark.getD r.offset)⟩

variable {r : Reader}

@[simp] lemma passAll_nil (r : Reader) : r.passAll [] = r := rfl

@[simp] lemma passAll_append (r : Reader) (rs ss : List QueueRecord) :
    r.passAll (rs ++ ss) = (r.passAll rs).passAll ss :=
  List.foldl_append

@[simp] lemma pass_pending (r : Reader) (record : QueueRecord) :
    (r.pass record).pending = r.pending := by
  cases record <;> rfl

@[simp] lemma pass_lifecycle (r : Reader) (record : QueueRecord) :
    (r.pass record).lifecycle = r.lifecycle := by
  cases record <;> rfl

@[simp] lemma pass_offset (r : Reader) (record : QueueRecord) :
    (r.pass record).offset = record.position := by
  cases record <;> rfl

lemma Passing.pass (h : r.Passing) (record : QueueRecord) : (r.pass record).Passing := by
  cases record <;> exact ⟨h.mode, h.ongoing, h.reading⟩

@[simp] lemma passAll_pending (r : Reader) (rs : List QueueRecord) :
    (r.passAll rs).pending = r.pending := by
  induction rs generalizing r with
  | nil => rfl
  | cons record rs ih => exact (ih (r.pass record)).trans (pass_pending r record)

@[simp] lemma passAll_lifecycle (r : Reader) (rs : List QueueRecord) :
    (r.passAll rs).lifecycle = r.lifecycle := by
  induction rs generalizing r with
  | nil => rfl
  | cons record rs ih => exact (ih (r.pass record)).trans (pass_lifecycle r record)

lemma Passing.passAll (h : r.Passing) (rs : List QueueRecord) : (r.passAll rs).Passing := by
  induction rs generalizing r with
  | nil => exact h
  | cons record rs ih => exact ih (h.pass record)

lemma passAll_offset (r : Reader) (rs : List QueueRecord) :
    (r.passAll rs).offset = (rs.getLast?.map QueueRecord.position).getD r.offset := by
  induction rs using List.reverseRecOn with
  | nil => rfl
  | append_singleton rs record ih =>
    rw [passAll_append, List.getLast?_concat, Option.map_some, Option.getD_some]
    exact pass_offset _ record

lemma report_passAll_pending (r : Reader) (es : List ChangeEvent) (rs : List QueueRecord) :
    (passAll { r with pending := es } rs).report = (r.passAll rs).report := by
  induction rs generalizing r with
  | nil => rfl
  | cons record rs ih =>
    have hpass : pass { r with pending := es } record = { r.pass record with pending := es } := by
      cases record <;> rfl
    exact (congrArg (fun r : Reader => (r.passAll rs).report) hpass).trans (ih (r.pass record))

lemma absorb_passing (h : r.Passing) (record : QueueRecord) :
    r.absorb record = .ok (changesOf [record], r.pass record) := by
  obtain ⟨mode, maxBatchSize, lifecycle, offset, pending, watermark, completion, done⟩ := r
  obtain rfl : mode = .passThrough := h.mode
  cases record with
  | change e => rfl
  | heartbeat position => rfl
  | watermark position => simp [absorb, absorbWatermark, pass, changesOf, QueueRecord.change?]

/-- A reader that lets changes pass delivers the changes of records right away. -/
lemma absorbAll_passing (h : r.Passing) (m : Metrics) (rs : List QueueRecord) :
    ∃ m', r.absorbAll m rs = (.ok (changesOf rs), r.passAll rs, m') := by
  induction rs generalizing r m with
  | nil => exact ⟨m, rfl⟩
  | cons record rs ih =>
    obtain ⟨m', hrest⟩ := ih (h.pass record) (countRecord m record)
    refine ⟨m', ?_⟩
    rw [absorbAll, absorb_passing h]
    dsimp only
    rw [hrest]
    dsimp only
    rw [← changesOf_append]
    rfl

lemma complete_passing (h : r.Passing) (m : Metrics) :
    r.complete m =
      (.ok (), { r with
        done := true, lifecycle := { r.lifecycle with state := .completed },
        completion := some r.report }, m.recordSplitCompleted) := by
  simp [complete, h.mode, ReadMode.isPassThrough, Lifecycle.move, h.reading, SplitState.canMoveTo,
    report]

end Reader

namespace Session

/-- What a batch is, for a reader that lets changes pass, and what is left after it. -/
inductive Turn (s : Session) (sh : Shared) : Batch → Session → Shared → Prop where
  /-- Events that were ready come first. -/
  | ready {es rest : List ChangeEvent} {s' : Session} {sh' : Shared} (hattached : s'.Attached)
      (hpending : s.reader.pending = es ++ rest) (hes : es ≠ [])
      (hreader : s'.reader = { s.reader with pending := rest })
      (hout : s'.output sh' = s.output sh) (hsource : sh'.source = sh.source) :
      Turn s sh (.events es) s' sh'
  | passed {rs : List QueueRecord} {s' : Session} {sh' : Shared} (hattached : s'.Attached)
      (hpending : s.reader.pending = []) (hrs : rs ≠ []) (hreader : s'.reader = s.reader.passAll rs)
      (hout : (s'.output sh').after rs = s.output sh) : Turn s sh (.events (changesOf rs)) s' sh'
  | idle {s' : Session} {sh' : Shared} (hpending : s.reader.pending = [])
      (hreader : s'.reader = s.reader) (hout : s.output sh = ⟨[], .waits, sh'.source⟩) :
      Turn s sh .idle s' sh'
  | ended {s' : Session} {sh' : Shared} (hpending : s.reader.pending = [])
      (hcompletion : s'.reader.completion = some s.reader.report)
      (hout : s.output sh = ⟨[], .ends, sh'.source⟩) : Turn s sh .ended s' sh'
  | failed {s' : Session} {sh' : Shared} {f : Fault} (hpending : s.reader.pending = [])
      (hcompletion : s'.reader.completion = s.reader.completion)
      (hout : s.output sh = ⟨[], .fails f, sh'.source⟩) : Turn s sh (.failed f) s' sh'

lemma finish_turn {s s₁ : Session} {sh sh₁ : Shared} (hattached : s₁.Attached)
    (hr : s.reader.Passing) (hpending : s.reader.pending = []) (hreader : s₁.reader = s.reader)
    (hout : s.output sh = ⟨[], .ends, sh₁.source⟩) :
    Turn s sh (s₁.finish sh₁).1 (s₁.finish sh₁).2.1 (s₁.finish sh₁).2.2 := by
  have hclosed : s₁.queue.closed = false := hattached.opened
  have hcomplete := Reader.complete_passing hr sh₁.metrics
  unfold finish
  rw [if_neg (by simp [hclosed]), hreader, hcomplete]
  exact .ended hpending rfl hout

/-- A reader that lets changes pass takes one of the listed turns. -/
lemma nextBatch_turn (s : Session) (sh : Shared) (hs : s.Attached) (hr : s.reader.Passing) :
    Turn s sh (s.nextBatch sh).1 (s.nextBatch sh).2.1 (s.nextBatch sh).2.2 := by
  unfold nextBatch
  by_cases hpending : s.reader.pending = []
  · rw [if_neg (by simpa using hpending), if_neg (by simp [hr.ongoing])]
    have hpolls := poll_polls s sh hs
    generalize s.poll sh = polled at hpolls ⊢
    obtain ⟨polled, s₁, sh₁⟩ := polled
    dsimp only at hpolls ⊢
    cases hpolls with
    | nothing _ hreader hout => exact .idle hpending hreader hout
    | ended hattached hreader hout => exact finish_turn hattached hr hpending hreader hout
    | failed hreader hout =>
      refine .failed hpending ?_ hout
      simp [failWith, Reader.fail, hreader]
    | @records _ _ rs hrs hattached hreader hout =>
      obtain ⟨m', habsorb⟩ := Reader.absorbAll_passing hr sh₁.metrics rs
      have hpassed := hr.passAll rs
      dsimp only
      rw [dif_neg hrs, hreader, habsorb]
      have hturn : ∀ m, Turn s sh (.events (changesOf rs))
          { s₁ with reader := s.reader.passAll rs } { sh₁ with metrics := m } := fun m =>
        .passed hattached hpending hrs rfl
          ((congrArg (Output.after rs) (output_metrics ..)).trans hout)
      cases hchanges : changesOf rs with
      | nil =>
        rw [hchanges] at hturn
        dsimp only
        rw [if_pos ⟨by rw [Reader.passAll_pending, hpending], by rw [hpassed.mode]; rfl⟩]
        exact hturn m'
      | cons e out =>
        rw [hchanges] at hturn
        exact hturn _
  · rw [if_pos hpending]
    refine .ready hs (List.take_append_drop ..).symm ?_ rfl ?_ rfl
    · intro hnil
      rcases List.take_eq_nil_iff.mp hnil with hzero | hempty
      · omega
      · exact hpending hempty
    · exact output_metrics _ _ _

lemma Attached.turn {s : Session} (hs : s.Attached) (hr : s.reader.Passing) {batch : Batch}
    {s' : Session} {sh sh' : Shared} (hbatch : s.nextBatch sh = (batch, s', sh')) :
    Turn s sh batch s' sh' := by
  have hturn := nextBatch_turn s sh hs hr
  rwa [hbatch] at hturn

/-- What reading to the end amounts to. -/
structure Drained (s : Session) (sh : Shared) (batches : List (List ChangeEvent)) (stop : Stop)
    (s' : Session) (sh' : Shared) : Prop where
  events : batches.flatten = s.reader.pending ++ changesOf (s.output sh).records
  stop_eq : stop = (s.output sh).finish.stop
  source : sh'.source = (s.output sh).source
  completion : (s.output sh).finish = .ends →
    s'.reader.completion = some (s.reader.passAll (s.output sh).records).report

/-- A reader that lets changes pass delivers what was ready and then the changes of the output. -/
lemma drain_drained (s : Session) (sh : Shared) (hs : s.Attached) (hr : s.reader.Passing) :
    Drained s sh (s.drain sh).1 (s.drain sh).2.1 (s.drain sh).2.2.1 (s.drain sh).2.2.2 := by
  fun_induction drain s sh with
  | case1 s sh es s₁ sh₁ hbatch batches stop s₂ sh₂ hrest ih =>
    rw [hrest] at ih
    cases hs.turn hr hbatch with
    | @ready _ rest _ _ hattached hpending hes hreader hout hsource =>
      have hpassing : s₁.reader.Passing := by
        rw [hreader]
        exact ⟨hr.mode, hr.ongoing, hr.reading⟩
      obtain ⟨hevents, hstop, hsource', hcompletion⟩ := ih hattached hpassing
      rw [hout] at hevents hstop hsource' hcompletion
      refine ⟨?_, hstop, hsource', fun hends => ?_⟩
      · rw [List.flatten_cons, hevents, hpending, hreader, List.append_assoc]
      · rw [hcompletion hends, hreader, Reader.report_passAll_pending]
    | @passed rs _ _ hattached hpending hrs hreader hout =>
      have hpassing : s₁.reader.Passing := by
        rw [hreader]
        exact hr.passAll rs
      obtain ⟨hevents, hstop, hsource', hcompletion⟩ := ih hattached hpassing
      rw [hreader] at hevents hcompletion
      rw [Reader.passAll_pending, hpending] at hevents
      refine ⟨?_, ?_, ?_, fun hends => ?_⟩
      · rw [List.flatten_cons, hevents, hpending, ← hout, Output.after_records, changesOf_append]
        rfl
      · rw [hstop, ← hout, Output.after_finish]
      · rw [hsource', ← hout, Output.after_source]
      · rw [← hout, Output.after_finish] at hends
        rw [hcompletion hends, ← hout, Output.after_records, Reader.passAll_append]
  | case2 s sh s₁ sh₁ hbatch =>
    cases hs.turn hr hbatch with
    | idle hpending hreader hout =>
      exact ⟨by simp [hpending, hout], by rw [hout]; rfl, by rw [hout],
        fun hends => by simp [hout] at hends⟩
  | case3 s sh s₁ sh₁ hbatch =>
    cases hs.turn hr hbatch with
    | ended hpending hcompletion hout =>
      refine ⟨by simp [hpending, hout], by rw [hout]; rfl, by rw [hout], fun _ => ?_⟩
      rw [hcompletion, hout, Reader.passAll_nil]
  | case4 s sh f s₁ sh₁ hbatch =>
    cases hs.turn hr hbatch with
    | failed hpending hcompletion hout =>
      exact ⟨by simp [hpending, hout], by rw [hout]; rfl, by rw [hout],
        fun hends => by simp [hout] at hends⟩

end Session
end Changefeed
