import Changefeed.Proofs.Fetch.Interleaving

/-!
# A reader that lets changes pass

The reader of an incremental split gives every change on as it takes it.  A turn of it comes to one
of few things, whoever fills the queue: it takes the next records and gives the changes among them,
finds nothing, fails with the fault that ended the queue, or comes to an end.  Where the queue
belongs to a producer, what it takes comes off the front of what the producer makes in all.
-/

namespace Changefeed

namespace Session

variable {s s' : Session} {rs : List QueueRecord} {b : Batch}

/-- The records that the reader takes in its turn. -/
def takes (s : Session) : List QueueRecord :=
  if s.reader.pending ≠ [] then []
  else if s.reader.done then []
  else match s.queue.take.1 with
    | some (.records rs) => rs
    | some .ended | some (.failed _) | none => []

/-- The reader lets changes pass and has nothing ready, and it reads until it is done. -/
structure Passes (s : Session) : Prop where
  sized : s.queue.settings.maxBatchSize = max s.reader.maxBatchSize 1
  mode : s.reader.mode = .passThrough
  pending : s.reader.pending = []
  reading : s.reader.done = false → s.reader.lifecycle.state = .reading

/-- What comes of a turn of such a reader: the records that it takes, the batch that it gives, and
what it leaves. -/
inductive Passed (s : Session) : List QueueRecord → Batch → Session → Prop where
  | records (hdone : s.reader.done = false) (hopen : s.queue.closed = false)
      (hbuffer : s.queue.buffer ≠ []) :
      Passed s s.queue.batch (.events (changesOf s.queue.batch))
        { s with queue := s.queue.dropBatch, reader := s.reader.passAll s.queue.batch }
  | idle (hdone : s.reader.done = false) : Passed s [] .idle s
  | failed {f : Fault} {m : Metrics} (hdone : s.reader.done = false)
      (hopen : s.queue.closed = false) (hbuffer : s.queue.buffer = [])
      (herror : s.queue.error = some f) :
      Passed s [] (.failed f)
        { s with queue := { s.queue with error := none }, reader := (s.reader.fail m).1 }
  | completed (hdone : s.reader.done = false) (hopen : s.queue.closed = false)
      (hbuffer : s.queue.buffer = []) (herror : s.queue.error = none)
      (hfinished : s.queue.finished = true) :
      Passed s [] .ended
        { s with reader :=
          { s.reader with
            done := true, lifecycle := { s.reader.lifecycle with state := .completed },
            completion := some s.reader.report } }
  /-- The sequence was over before. -/
  | past (hdone : s.reader.done = true) : Passed s [] .ended s
  /-- The queue was closed. -/
  | stopped (hclosed : s.queue.closed = true) :
      Passed s [] .ended { s with reader := s.reader.stop }

/-- As long as it reads from an open queue, such a reader takes the next batch. -/
lemma takes_eq (h : s.Passes) (hdone : s.reader.done = false)
    (hopen : s.queue.closed = false) : s.takes = s.queue.batch := by
  have hnone : s.queue.buffer = [] → [] = s.queue.batch := fun hbuffer => by
    rw [EventQueue.batch, hbuffer, List.take_nil]
  have htaken := s.queue.taken
  unfold takes
  rw [if_neg (by simp [h.pending]), if_neg (by simp [hdone])]
  generalize s.queue.take = take at htaken ⊢
  obtain ⟨polled, queue⟩ := take
  dsimp only at htaken ⊢
  cases htaken with
  | closed hclosed => simp [hopen] at hclosed
  | records => rfl
  | failed _ hbuffer => exact hnone hbuffer
  | finished _ hbuffer => exact hnone hbuffer
  | nothing _ hbuffer => exact hnone hbuffer

/-- What such a reader makes of the records that it takes. -/
lemma receive_passed (h : s.Passes) (hdone : s.reader.done = false)
    (hopen : s.queue.closed = false) (hbuffer : s.queue.buffer ≠ []) (sh : Shared) :
    ∃ b s' m, { s with queue := s.queue.dropBatch }.receive sh (.records s.queue.batch) =
        (some b, s', { sh with metrics := m }) ∧
      s.Passed s.queue.batch b s' := by
  have hpassing : s.reader.Passing := ⟨h.mode, hdone, h.reading hdone⟩
  have hsized : 1 ≤ s.queue.settings.maxBatchSize := h.sized ▸ Nat.le_max_right ..
  obtain ⟨m, habsorb⟩ := Reader.absorbAll_passing hpassing sh.metrics s.queue.batch
  have hrecords := Passed.records hdone hopen hbuffer
  simp only [receive]
  rw [if_neg (EventQueue.batch_ne_nil hsized hbuffer), habsorb]
  cases hchanges : changesOf s.queue.batch with
  | nil =>
    rw [hchanges] at hrecords
    have hquiet : (s.reader.passAll s.queue.batch).pending = [] ∧
        (s.reader.passAll s.queue.batch).mode.isPassThrough = true := by
      rw [Reader.passAll_pending, (hpassing.passAll _).mode]
      exact ⟨h.pending, rfl⟩
    dsimp only
    rw [if_pos hquiet]
    exact ⟨_, _, m, rfl, hrecords⟩
  | cons e out =>
    rw [hchanges] at hrecords
    exact ⟨_, _, _, rfl, hrecords⟩

/-- A turn of such a reader comes to one of the listed things, and counts on the side. -/
lemma turn_passed (h : s.Passes) (sh : Shared) :
    ∃ b s' m, s.turn sh = (some b, s', { sh with metrics := m }) ∧ s.Passed s.takes b s' := by
  have hpending : ¬s.reader.pending ≠ [] := by simp [h.pending]
  unfold turn takes
  rw [if_neg hpending, if_neg hpending]
  cases hdone : s.reader.done with
  | true => exact ⟨.ended, s, sh.metrics, rfl, .past hdone⟩
  | false =>
    have htaken := s.queue.taken
    rw [if_neg (by simp), if_neg (by simp)]
    generalize s.queue.take = take at htaken ⊢
    obtain ⟨polled, queue⟩ := take
    dsimp only at htaken ⊢
    cases htaken with
    | closed hclosed =>
      have hfinish : s.finish sh = (.ended, { s with reader := s.reader.stop }, sh) :=
        if_pos hclosed
      simp only [receive, hfinish]
      exact ⟨.ended, _, sh.metrics, rfl, .stopped hclosed⟩
    | records hopen hbuffer => exact receive_passed h hdone hopen hbuffer sh
    | failed hopen hbuffer herror =>
      exact ⟨_, _, _, rfl, .failed (m := sh.metrics) hdone hopen hbuffer herror⟩
    | finished hopen hbuffer herror hfinished =>
      have hcomplete := Reader.complete_passing ⟨h.mode, hdone, h.reading hdone⟩ sh.metrics
      simp only [receive, finish]
      rw [if_neg (by simp [hopen]), hcomplete]
      exact ⟨.ended, _, _, rfl, .completed hdone hopen hbuffer herror hfinished⟩
    | nothing => exact ⟨.idle, s, sh.metrics, rfl, .idle hdone⟩

lemma Passes.of_turn (h : s.Passes) {sh sh' : Shared} (hturn : s.turn sh = (some b, s', sh')) :
    ∃ m, sh' = { sh with metrics := m } ∧ s.Passed s.takes b s' := by
  obtain ⟨b', s₁, m, hturn', hp⟩ := turn_passed h sh
  cases hturn.symm.trans hturn'
  exact ⟨m, rfl, hp⟩

/-- The reader lets changes pass after its turn too. -/
lemma Passes.passed (h : s.Passes) (hp : s.Passed rs b s') :
    s'.Passes ∧ s'.reader.maxBatchSize = s.reader.maxBatchSize := by
  cases hp with
  | records hdone =>
    have hpassing := (Reader.Passing.mk h.mode hdone (h.reading hdone)).passAll s.queue.batch
    have hsize : (s.reader.passAll s.queue.batch).maxBatchSize = s.reader.maxBatchSize := by
      rw [Reader.passAll_eq]
    refine ⟨⟨?_, hpassing.mode, ?_, fun _ => hpassing.reading⟩, hsize⟩
    · rw [hsize]
      exact h.sized
    · rw [Reader.passAll_pending]
      exact h.pending
  | idle => exact ⟨h, rfl⟩
  | past => exact ⟨h, rfl⟩
  | _ => exact ⟨⟨h.sized, h.mode, h.pending, fun hgoing => (nomatch hgoing)⟩, rfl⟩

/-- The reader gives the changes among the records that it takes, and no more events than it
may. -/
lemma Passed.events (hp : s.Passed rs b s') (h : s.Passes) :
    eventsOf (some b) = changesOf rs ∧
      (eventsOf (some b)).length ≤ max s.reader.maxBatchSize 1 := by
  cases hp with
  | records =>
    refine ⟨rfl, ?_⟩
    calc (changesOf s.queue.batch).length
        ≤ s.queue.batch.length := List.length_filterMap_le ..
      _ ≤ s.queue.settings.maxBatchSize := s.queue.length_batch_le
      _ = max s.reader.maxBatchSize 1 := h.sized
  | _ => exact ⟨rfl, Nat.zero_le _⟩

/-- The position moves on to the last record that is taken. -/
lemma Passed.offset (hp : s.Passed rs b s') :
    s'.reader.offset = (rs.getLast?.map QueueRecord.position).getD s.reader.offset := by
  cases hp with
  | records => exact Reader.passAll_offset _ _
  | _ => rfl

/-! ## The queue of a producer -/

lemma Passed.after (hp : s.Passed rs b s') (hlinked : s.work.Linked s.queue)
    (hdone : s'.reader.done = false) (sh : Shared) :
    (s'.output sh).after rs = s.output sh ∧ s'.work.Linked s'.queue := by
  cases hp with
  | records => exact ⟨output_dropBatch .., hlinked.opened, hlinked.unended⟩
  | idle => exact ⟨rfl, hlinked⟩
  | past hover => simp [hdone] at hover
  | _ => cases hdone

end Session
end Changefeed
