import Changefeed.Proofs.Fetch.Binding
import Changefeed.Proofs.Fetch.Delivery

/-!
# Running a finished split again

A bounded split that has been delivered to its end and is run again starts behind its last
checkpoint, where nothing of it is left.  Such a run delivers nothing and moves no checkpoint,
whatever fails meanwhile.

That it is finished it learns from the log alone: the end is compared with the positions of the
records that the stream delivers, and with nothing else.  So it reports the same completion again
when the log goes on behind the checkpoint, and when it does not, it waits for a record that shows
it that the end has been passed.
-/

namespace Changefeed

/-! ## Streams behind the end -/

/-- What the first batch of a session comes to when all records of its stream lie behind its end, by
the first read of the stream. -/
inductive Glance (c : SplitCompletion) (sh : Shared) :
    StreamRead → Batch × Session × Shared → Prop where
  /-- A record shows that the end has been passed. -/
  | passed {rec : LogRecord} {s : Session} {m : Metrics} (h : s.reader.completion = some c) :
      Glance c sh (.record rec) (.ended, s, { sh with metrics := m })
  | waits {s : Session} (hoffset : c.finalOffset = some s.reader.offset) :
      Glance c sh .waits (.idle, s, sh)
  | broken {first : StreamRead} {b : Batch} {s : Session} {m : Metrics}
      (hfirst : first = .ended ∨ ∃ f, first = .failed f)
      (hb : b = .idle ∧ c.finalOffset = some s.reader.offset ∨ ∃ f, b = .failed f) :
      Glance c sh first (b, s, { sh with metrics := m })

variable {job : StreamJob} {log : LogStream}

/-- A producer whose stream lies behind the end stops at the first record. -/
lemma Work.produce_past (hpast : ∀ rec ∈ log.records, job.isBeyond rec.position = true)
    (q : EventQueue) (sh : Shared) :
    produce (.stream job log) q sh =
      match log.next.1 with
      | .record _ => (.stopped, q.finish, sh)
      | .waits => (.running (.stream job log), q, sh)
      | .ended => (.stopped, failQueue q .connectionClosed, sh)
      | .failed f => (.stopped, failQueue q f, sh) := by
  rw [produce_step, Producer.step, Producer.streamStep]
  rcases hnext : log.next with ⟨rec | _ | _ | f, rest⟩
  · have hbeyond := hpast rec (by simp [LogStream.next_record hnext])
    simp only [hbeyond, if_true]
    rw [produce_step]
    rfl
  · rfl
  · rfl
  · rfl

/-- The next batch of a session that has nothing left and finds no records, by what its producer
goes on to buffer. -/
lemma Session.nextBatch_of_resumed {s : Session} {sh sh' : Shared} {queue q : EventQueue}
    {work : Work} (hpending : s.reader.pending = []) (hdone : s.reader.done = false)
    (htake : s.queue.take = (none, queue)) (hresume : s.work.resume queue sh = (work, q, sh')) :
    let left := { s with work, queue := q.take.2 }
    (q.take.1 = none → s.nextBatch sh = (.idle, left, sh')) ∧
      (q.take.1 = some .ended → s.nextBatch sh = left.finish sh') ∧
      ∀ f, q.take.1 = some (.failed f) → s.nextBatch sh = left.failWith sh' f := by
  intro left
  have hpoll : s.poll sh = (q.take.1, left, sh') := by
    unfold poll
    rw [htake]
    simp only [hresume, left]
  rw [nextBatch, if_neg (by simp [hpending]), if_neg (by simp [hdone])]
  refine ⟨fun hpolled => ?_, fun hpolled => ?_, fun f hpolled => ?_⟩
  all_goals
    rw [hpolled] at hpoll
    split <;> next heq => cases hpoll.symm.trans heq <;> rfl

/-- The first batch of a session whose stream lies behind its end. -/
lemma Plan.begun_glance {plan : Plan} (config : FetchConfig) (split : Split)
    (hmode : plan.mode = .passThrough) (hproducer : plan.producer = .stream job log)
    (hpast : ∀ rec ∈ log.records, job.isBeyond rec.position = true) (sh : Shared) :
    Glance ⟨split.splitId, some plan.start⟩ sh log.next.1
      ((plan.begun config split).nextBatch sh) := by
  obtain ⟨_, mode, start⟩ := plan
  obtain rfl := hmode
  obtain rfl := hproducer
  let s := begun ⟨.stream job log, .passThrough, start⟩ config split
  have hproduced := Work.produce_past hpast s.queue sh
  cases hnext : log.next.1 with
  | record rec =>
    rw [hnext] at hproduced
    rw [(Session.nextBatch_of_resumed (s := s) rfl rfl rfl hproduced).2.1 rfl]
    exact .passed rfl
  | waits =>
    rw [hnext] at hproduced
    rw [(Session.nextBatch_of_resumed (s := s) rfl rfl rfl hproduced).1 rfl]
    exact .waits rfl
  | ended =>
    rw [hnext] at hproduced
    rw [(Session.nextBatch_of_resumed (s := s) rfl rfl rfl hproduced).2.2 _ rfl]
    exact .broken (.inl rfl) (.inr ⟨_, rfl⟩)
  | failed f =>
    rw [hnext] at hproduced
    by_cases hclosed : f = .queueClosed
    · subst hclosed
      rw [(Session.nextBatch_of_resumed (s := s) rfl rfl rfl hproduced).1 rfl]
      exact .broken (.inr ⟨_, rfl⟩) (.inl ⟨rfl, rfl⟩)
    · have hfail : Work.failQueue s.queue f = s.queue.fail f := if_neg hclosed
      dsimp only at hproduced
      rw [hfail] at hproduced
      rw [(Session.nextBatch_of_resumed (s := s) rfl rfl rfl hproduced).2.2 f rfl]
      exact .broken (.inr ⟨_, rfl⟩) (.inr ⟨_, rfl⟩)

/-! ## Splits that can be bound -/

/-- A split can be bound: the layouts of its tables are found, its start can be served, and its end
goes with its start. -/
structure Split.Bindable (split : Split) (sh : Shared) : Prop where
  resolves : split.Resolves sh
  served : Resume.check split.start sh.server.retained = none
  encoded : split.encodingFault = none

/-- An incremental split that can be bound could be bound before. -/
lemma Split.Bindable.of_steady {s : IncrementalSplit} {sh sh' : Shared}
    (h : (Split.incremental s).Bindable sh') (hsteady : Plan.Steady s sh sh') :
    (Split.incremental s).Bindable sh where
  resolves := by
    refine ⟨h.resolves.1, fun t ht => ?_⟩
    obtain ⟨r', hr'⟩ := Option.isSome_iff_exists.mp (h.resolves.2 t ht)
    obtain ⟨r, hr, -⟩ := hsteady.layouts t r' hr'
    rw [hr]
    rfl
  served := hsteady.server.retained ▸ h.served
  encoded := h.encoded

namespace Runner

open RunState

variable {r : Runner} {s : IncrementalSplit} {st st' st'' : RunState}

/-! ## Attempts that move nothing -/

/-- Nothing was delivered, no checkpoint has changed, and a split finds no layouts that it did not
find before. -/
structure Unmoved (s : IncrementalSplit) (st st' : RunState) : Prop where
  events : st'.sink.events = st.sink.events
  writes : st'.sink.writes = st.sink.writes
  checkpoints : st'.checkpoints = st.checkpoints
  steady : Plan.Steady s st.shared st'.shared

namespace Unmoved

lemma trans (h : Unmoved s st st') (h' : Unmoved s st' st'') : Unmoved s st st'' where
  events := h'.events.trans h.events
  writes := h'.writes.trans h.writes
  checkpoints := h'.checkpoints.trans h.checkpoints
  steady := (Plan.steady_chain s).trans h.steady h'.steady

lemma share {sh : Shared} (h : Plan.Steady s st.shared sh) :
    Unmoved s st { st with shared := sh } :=
  ⟨rfl, rfl, rfl, h⟩

lemma refl (s : IncrementalSplit) (st : RunState) : Unmoved s st st :=
  share ((Plan.steady_chain s).refl st.shared)

/-- A call that moves nothing when it is let through moves nothing. -/
lemma call {α : Type} {c : RunCall} {act : RunState → α × RunState}
    (h : ∀ st, Unmoved s st (act st).2) (st : RunState) : Unmoved s st (call c act st).2 := by
  unfold RunState.call
  split
  · exact ⟨rfl, rfl, rfl, (Plan.steady_chain s).refl _⟩
  · next script _ =>
    have hact := h { st with script }
    exact ⟨hact.events, hact.writes, hact.checkpoints, hact.steady⟩

lemma create (st : RunState) : Unmoved s st (RunState.call .create (fun st => ((), st)) st).2 :=
  call (refl s) st

lemma load (id : SplitId) (st : RunState) : Unmoved s st (load id st).2 :=
  call (refl s) st

lemma flush (st : RunState) : Unmoved s st (flush st).2 :=
  call (fun st => ⟨rfl, rfl, rfl, (Plan.steady_chain s).refl st.shared⟩) st

lemma closeTask (t : Task) (st : RunState) : Unmoved s st (closeTask t st) :=
  share (closeTask_steady t ((Plan.steady_chain s).refl st.shared))

end Unmoved

/-- A session that looks at one record at most is driven without moving anything.  It ends where it
finds a record. -/
lemma drive_glance (r : Runner) (split : Split) (session : Session) (last : Offset)
    {c : SplitCompletion} {first : StreamRead} (hlast : c.finalOffset = some last)
    (h : Glance c st.shared first (session.nextBatch st.shared)) :
    Unmoved s st (r.drive split session last st).2.2 ∧
      (∀ x, (r.drive split session last st).1 = .finished x →
        x = some c ∧ ∃ rec, first = .record rec) ∧
      (first = .waits → (r.drive split session last st).1 = .idle) ∧
      (st.Quiet → (∃ rec, first = .record rec) →
        (r.drive split session last st).1 = .finished (some c)) := by
  have hcount : ∀ m, Unmoved s st { st with shared := { st.shared with metrics := m } } := fun m =>
    .share (((Plan.steady_chain s).refl st.shared).congr rfl rfl)
  rw [drive]
  generalize hlooked : session.nextBatch st.shared = looked at h
  cases h with
  | @passed rec s' m hcompletion =>
    dsimp only
    have hflushed := (hcount m).trans (.flush { st with shared := { st.shared with metrics := m } })
    split
    · next f st₁ hflush =>
      rw [hflush] at hflushed
      refine ⟨hflushed, by simp, by simp, fun hquiet _ => ?_⟩
      exact absurd hflush (hands_flush.ne_error (hquiet.share _) f)
    · next st₁ hflush =>
      rw [hflush] at hflushed
      rw [hcompletion]
      exact ⟨hflushed, fun x hx => ⟨(Attempt.finished.inj hx).symm, rec, rfl⟩, by simp,
        fun _ _ => rfl⟩
  | waits hoffset =>
    obtain rfl := Option.some.inj (hlast.symm.trans hoffset)
    dsimp only
    rw [checkpointIfMoved_self]
    exact ⟨.share ((Plan.steady_chain s).refl _), by simp, fun _ => rfl, by simp⟩
  | @broken first b s' m hfirst hb =>
    have hnone : ¬ ∃ rec, first = .record rec := by
      rintro ⟨rec, rfl⟩
      simp at hfirst
    have hwaits : first ≠ .waits := by
      rintro rfl
      simp at hfirst
    rcases hb with ⟨rfl, hoffset⟩ | ⟨f, rfl⟩
    · obtain rfl := Option.some.inj (hlast.symm.trans hoffset)
      dsimp only
      rw [checkpointIfMoved_self]
      exact ⟨hcount m, by simp, fun h => absurd h hwaits, fun _ h => absurd h hnone⟩
    · exact ⟨hcount m, by simp, fun h => absurd h hwaits, fun _ h => absurd h hnone⟩

/-- A split whose stream lies behind its end is read without moving anything. -/
lemma readTask_past {plan : Plan} {log : LogStream} (hmode : plan.mode = .passThrough)
    (hproducer : plan.producer = .stream s.job log)
    (hpast : ∀ rec ∈ log.records, s.job.isBeyond rec.position = true) (r : Runner)
    (st : RunState) :
    let read := r.readTask (.incremental s)
      { config := r.config,
        stage := .prepared (.incremental s) (plan.session r.config (.incremental s)) } st
    Unmoved s st read.2 ∧
      (∀ x, read.1 = .finished x →
        x = some ⟨s.splitId, some plan.start⟩ ∧ ∃ rec, log.next.1 = .record rec) ∧
      (st.sleptMs < r.patienceMs →
        (log.next.1 = .waits → read.1 = .idle) ∧
        (st.Quiet → (∃ rec, log.next.1 = .record rec) →
          read.1 = .finished (some ⟨s.splitId, some plan.start⟩))) := by
  intro read
  have hread : read = r.readTask (.incremental s)
    { config := r.config,
      stage := .prepared (.incremental s) (plan.session r.config (.incremental s)) } st := rfl
  have hglance := plan.begun_glance r.config (.incremental s) hmode hproducer hpast st.shared
  obtain ⟨hunmoved, hfinished, hwaits, hquiet⟩ :=
    drive_glance (s := s) r (.incremental s) _ plan.start rfl hglance
  rcases r.readTask_cases (.incremental s) plan st with
    ⟨himpatient, hidle⟩ | ⟨-, hresult, hleft⟩
  · rw [hread, hidle]
    exact ⟨.refl s st, by simp, fun hpatient => absurd himpatient (Nat.not_le.mpr hpatient)⟩
  · rw [← hread] at hresult hleft
    rw [hresult]
    refine ⟨?_, hfinished, fun _ => ⟨hwaits, hquiet⟩⟩
    rcases hleft with hleft | ⟨t, hleft⟩
    · exact hleft ▸ hunmoved
    · exact hleft ▸ hunmoved.trans (.closeTask t _)

/-- All that the log has behind the start of a split lies behind its end. -/
def Past (s : IncrementalSplit) (log : List LogRecord) : Prop :=
  ∀ rec ∈ recordsAfter log s.startingOffset, s.job.isBeyond rec.position = true

lemma found_data (r : Runner) (st : RunState) :
    (r.found st).server = st.shared.server ∧ (r.found st).backend = st.shared.backend := by
  unfold found
  split <;> exact ⟨rfl, rfl⟩

/-- An attempt at a split that has nothing left before its end moves nothing.  It finishes only
where the split can be bound and the log goes on. -/
lemma attempt_past (r : Runner) (hnamed : st.shared.server.Named)
    (hpast : Past s st.shared.server.log) :
    Unmoved s st (r.attempt (.incremental s) st).2 ∧
      ∀ x, (r.attempt (.incremental s) st).1 = .finished x →
        x = some ⟨s.splitId, some s.startingOffset⟩ ∧
          (Split.incremental s).Bindable st.shared ∧
          recordsAfter st.shared.server.log s.startingOffset ≠ [] := by
  have hcreated := Unmoved.create (s := s) st
  cases hcreate : call .create (fun st => ((), st)) st with
  | mk created st₁ =>
    rw [hcreate] at hcreated
    cases created with
    | error f =>
      rw [attempt_of_uncreated hcreate]
      exact ⟨hcreated, by simp⟩
    | ok u =>
      obtain ⟨hserver, hbackend⟩ := r.found_data st₁
      have hfound : Plan.Steady s st₁.shared (r.found st₁) :=
        ((Plan.steady_chain s).refl _).congr hserver hbackend
      have hsteady := (Plan.steady_chain s).trans hcreated.steady hfound
      have hnamed₁ : (r.found st₁).server.Named := fun t layout hlayout =>
        hnamed t layout (hsteady.server.schemas ▸ hlayout)
      obtain ⟨hplanned, hconfigured⟩ := Plan.incremental_configured s hnamed₁
      have hmake : Plan.make r.config (.incremental s) (r.found st₁) =
          Plan.incremental s (r.found st₁) := rfl
      rw [attempt_of_created hcreate]
      cases hplan : Plan.make r.config (.incremental s) (r.found st₁) with
      | mk planned sh =>
        rw [← hmake, hplan] at hplanned hconfigured
        have hleft := (Plan.steady_chain s).trans hfound hplanned
        cases planned with
        | error f =>
          have hrefused : Plan.Steady s st₁.shared
              { sh with metrics := Task.countRefusal sh.metrics f } := hleft.congr rfl rfl
          exact ⟨hcreated.trans ((Unmoved.share hrefused).trans (.closeTask _ _)), by simp⟩
        | ok plan =>
          obtain ⟨log, hproducer, hrecords⟩ := (hconfigured plan rfl).producer
          rw [hsteady.server.log] at hrecords
          obtain ⟨hunmoved, hfinished, -⟩ := readTask_past (hconfigured plan rfl).mode hproducer
            (hrecords ▸ hpast) r { st₁ with shared := sh }
          refine ⟨hcreated.trans ((Unmoved.share hleft).trans hunmoved), fun x hx => ?_⟩
          obtain ⟨hreport, rec, hrec⟩ := hfinished x hx
          rw [(hconfigured plan rfl).start] at hreport
          have hmade := Plan.make_made hnamed₁ hplan
          have hbindable : (Split.incremental s).Bindable (r.found st₁) :=
            ⟨hmade.resolves, hmade.served, hmade.encoded⟩
          refine ⟨hreport, hbindable.of_steady hsteady, ?_⟩
          rw [← hrecords, LogStream.next_record (Prod.ext hrec rfl)]
          simp

/-- Where nothing fails and there is patience, an attempt at a split that can be bound and has
nothing left before its end finishes when the log goes on.  When it does not, the attempt is idle on
a log that waits for more. -/
lemma attempt_past_quiet (hquiet : st.Quiet) (hserver : st.shared.server.Quiet)
    (hnamed : st.shared.server.Named) (hpatient : st.sleptMs < r.patienceMs)
    (hbindable : (Split.incremental s).Bindable st.shared)
    (hpast : Past s st.shared.server.log) :
    (recordsAfter st.shared.server.log s.startingOffset ≠ [] →
        (r.attempt (.incremental s) st).1 = .finished (some ⟨s.splitId, some s.startingOffset⟩)) ∧
      (recordsAfter st.shared.server.log s.startingOffset = [] →
        st.shared.server.endsWhenDrained = false → (r.attempt (.incremental s) st).1 = .idle) := by
  have hcreate := call_quiet hquiet .create fun st => ((), st)
  generalize hst₁ : ({ st with script := (st.script.make .create).2 } : RunState) = st₁ at hcreate
  have hquiet₁ : st₁.Quiet := hst₁ ▸ (Script.make_quiet hquiet .create).2
  have hpatient₁ : st₁.sleptMs < r.patienceMs := hst₁ ▸ hpatient
  have hshared : st₁.shared = st.shared := hst₁ ▸ rfl
  obtain ⟨hfound, hbackend⟩ := r.found_data st₁
  rw [hshared] at hfound hbackend
  have hbound : (Split.incremental s).Bindable (r.found st₁) :=
    hbindable.of_steady (((Plan.steady_chain s).refl _).congr hfound.symm hbackend.symm)
  let log : LogStream :=
    { records := recordsAfter st.shared.server.log s.startingOffset
      endsWhenDrained := st.shared.server.endsWhenDrained }
  let plan : Plan :=
    { producer := .stream s.job log, mode := .passThrough, start := s.startingOffset }
  obtain ⟨sh, hplan⟩ :
      ∃ sh, Plan.make r.config (.incremental s) (r.found st₁) = (.ok plan, sh) := by
    have hopened := Plan.incremental_quiet (s := s) (hfound ▸ hserver) (hfound ▸ hnamed)
      hbound.resolves hbound.served hbound.encoded
    rwa [hfound] at hopened
  have hmode : plan.mode = .passThrough := rfl
  have hproducer : plan.producer = .stream s.job log := rfl
  obtain ⟨-, -, hread⟩ := readTask_past hmode hproducer hpast r { st₁ with shared := sh }
  obtain ⟨hwaits, hfinished⟩ := hread hpatient₁
  rw [attempt_of_created hcreate, hplan]
  refine ⟨fun hne => hfinished (hquiet₁.share sh) ?_, fun hnil hwait => hwaits ?_⟩
  · obtain ⟨rec, rest, hrecords⟩ := List.exists_cons_of_ne_nil hne
    exact ⟨rec, by simp [log, LogStream.next, LogStream.deliver, hrecords]⟩
  · simp [log, LogStream.next, LogStream.deliver, hnil, hwait]

/-! ## All attempts -/

variable {ck : Checkpoint}

/-- A split whose checkpoint is stored is resumed behind it, or not at all, and nothing is moved. -/
lemma resume_stored {t : IncrementalSplit} (hload : st.checkpoints.load s.splitId = some ck) :
    Unmoved t st (resume (.incremental s) st).2 ∧
      ∀ split, (resume (.incremental s) st).1 = .ok split →
        split = .incremental (ck.applyTo s) := by
  have hunmoved := Unmoved.load (s := t) s.splitId st
  have hloaded : ∀ found, (RunState.load s.splitId st).1 = .ok found → found = some ck := by
    intro found hfound
    unfold RunState.load RunState.call at hfound
    split at hfound
    · cases hfound
    · exact (Except.ok.inj hfound).symm.trans hload
  unfold resume
  dsimp only
  generalize RunState.load s.splitId st = loaded at hunmoved hloaded ⊢
  obtain ⟨result, st₁⟩ := loaded
  cases result with
  | error f => exact ⟨hunmoved, by simp⟩
  | ok found =>
    obtain rfl := hloaded found rfl
    exact ⟨hunmoved, fun split hsplit => (Except.ok.inj hsplit).symm⟩

/-- What is known of a run of a split that has nothing left before its end. -/
structure Settled (s : IncrementalSplit) (st : RunState) (ran : Result × RunState) : Prop where
  unmoved : Unmoved s st ran.2
  completes : ∀ x, ran.1 = .returned (.ok x) →
    x = some ⟨s.splitId, some s.startingOffset⟩ ∧ (Split.incremental s).Bindable st.shared ∧
      recordsAfter st.shared.server.log s.startingOffset ≠ []

lemma Settled.after {ran : Result × RunState} (h : Settled s st' ran)
    (hmoved : Unmoved s st st') : Settled s st ran where
  unmoved := hmoved.trans h.unmoved
  completes x hx := by
    obtain ⟨hreport, hbindable, hgoes⟩ := h.completes x hx
    exact ⟨hreport, hbindable.of_steady hmoved.steady, hmoved.steady.server.log ▸ hgoes⟩

/-- The checkpoint of a split is stored, and leaves nothing before the end of the split. -/
structure Over (s : IncrementalSplit) (ck : Checkpoint) (st : RunState) : Prop where
  stored : st.checkpoints.load s.splitId = some ck
  named : st.shared.server.Named
  past : Past (ck.applyTo s) st.shared.server.log

lemma Over.unmoved {t : IncrementalSplit} (h : Over s ck st) (hmoved : Unmoved t st st') :
    Over s ck st' where
  stored := by rw [hmoved.checkpoints, h.stored]
  named t layout hlayout := h.named t layout (hmoved.steady.server.schemas ▸ hlayout)
  past := by
    rw [hmoved.steady.server.log]
    exact h.past

/-- Attempts at a split that is over, each from its checkpoint, move nothing, and finish only where
the split can be bound and the log goes on. -/
lemma runFrom_settled (r : Runner) (attempts retries : Nat) (h : Over s ck st) :
    Settled (ck.applyTo s) st (r.runFrom (.incremental (ck.applyTo s)) st retries attempts) := by
  induction attempts generalizing retries st with
  | zero => exact ⟨.refl _ st, by simp [runFrom]⟩
  | succ attempts ih =>
    obtain ⟨hunmoved, hfinished⟩ := attempt_past r h.named h.past
    rw [runFrom]
    generalize r.attempt (.incremental (ck.applyTo s)) st = attempted at hunmoved hfinished ⊢
    obtain ⟨result, st₁⟩ := attempted
    cases result with
    | idle => exact ⟨hunmoved, by simp⟩
    | finished c => exact ⟨hunmoved, fun x hx => by cases hx; exact hfinished _ rfl⟩
    | failed f =>
      have hcounted : ∀ n, Unmoved (ck.applyTo s) st { st₁.countRetry with sleptMs := n } :=
        fun n => hunmoved.trans ⟨rfl, rfl, rfl, ((Plan.steady_chain _).refl _).congr rfl rfl⟩
      dsimp only
      split
      · split
        · exact ⟨hunmoved, by simp⟩
        · next delay _ =>
          split
          · exact ⟨hcounted st₁.sleptMs, by simp⟩
          · generalize hslept : ({ st₁.countRetry with
              sleptMs := st₁.sleptMs + delay.timerMillis } : RunState) = st₂
            have hunmoved₂ : Unmoved (ck.applyTo s) st st₂ := hslept ▸ hcounted _
            obtain ⟨hresumed, hsplit⟩ :=
              resume_stored (s := ck.applyTo s) (h.unmoved hunmoved₂).stored
            replace hresumed := hunmoved₂.trans hresumed
            generalize resume (.incremental (ck.applyTo s)) st₂ = resumed at hresumed hsplit ⊢
            obtain ⟨again, st₃⟩ := resumed
            cases again with
            | error f => exact ⟨hresumed, by simp⟩
            | ok split =>
              obtain rfl := hsplit split rfl
              exact (ih (retries + 1) (h.unmoved hresumed)).after hresumed
      · exact ⟨hunmoved, by simp⟩

/-! ## Runs of a split that is finished -/

/-- What has reached the end of a split leaves nothing before its end. -/
lemma past_of_reached {log : List LogRecord} {e : Offset} (hend : s.endingOffset = some e)
    (hreached : ck.offset.reached e = true) (he : e.Normal) (hck : ck.offset.Normal)
    (hlog : ∀ rec ∈ log, rec.position.Normal) : Past (ck.applyTo s) log := by
  intro rec hrec
  obtain ⟨hmem, hafter⟩ := mem_recordsAfter.mp hrec
  have hbefore := (Offset.after_iff_before hck (hlog rec hmem)).mp hafter
  have hbeyond : rec.position.after e = true :=
    (Offset.after_iff_before he (hlog rec hmem)).mpr
      (Offset.before_of_reached he hck (hlog rec hmem) hreached hbefore)
  show s.endingOffset.any rec.position.after = true
  rw [hend]
  exact hbeyond

/-- A run of a split that is over. -/
lemma run_settled (r : Runner) (attempts : Nat) (h : Over s ck st) :
    Settled (ck.applyTo s) st (r.run (.incremental s) st attempts) := by
  obtain ⟨hunmoved, hsplit⟩ := resume_stored (t := ck.applyTo s) h.stored
  rw [run]
  generalize resume (.incremental s) st = resumed at hunmoved hsplit ⊢
  obtain ⟨result, st₁⟩ := resumed
  cases result with
  | error f => exact ⟨hunmoved, by simp⟩
  | ok split =>
    obtain rfl := hsplit split rfl
    exact (runFrom_settled r attempts 0 (h.unmoved hunmoved)).after hunmoved

/-- Where nothing fails and there is patience, a run of such a split comes to what its first attempt
comes to. -/
lemma run_settled_quiet (h : Over s ck st)
    (hquiet : st.Quiet) (hserver : st.shared.server.Quiet) (hpatient : st.sleptMs < r.patienceMs)
    (hbindable : (Split.incremental (ck.applyTo s)).Bindable st.shared) (attempts : Nat) :
    (recordsAfter st.shared.server.log ck.offset ≠ [] →
        (r.run (.incremental s) st (attempts + 1)).1 =
          .returned (.ok (some ⟨s.splitId, some ck.offset⟩))) ∧
      (recordsAfter st.shared.server.log ck.offset = [] →
        st.shared.server.endsWhenDrained = false →
          (r.run (.incremental s) st (attempts + 1)).1 = .running) := by
  have hresume : resume (.incremental s) st = (.ok (.incremental (ck.applyTo s)),
      { st with script := (st.script.make .load).2 }) := by
    unfold resume
    dsimp only
    rw [RunState.load, call_quiet hquiet, h.stored]
  generalize hst₁ : ({ st with script := (st.script.make .load).2 } : RunState) = st₁ at hresume
  have hquiet₁ : st₁.Quiet := hst₁ ▸ (Script.make_quiet hquiet .load).2
  have hpatient₁ : st₁.sleptMs < r.patienceMs := hst₁ ▸ hpatient
  have hshared : st₁.shared = st.shared := hst₁ ▸ rfl
  have hover : Over s ck st₁ := ⟨hst₁ ▸ h.stored, hshared ▸ h.named, hshared ▸ h.past⟩
  rw [← hshared] at hserver hbindable ⊢
  obtain ⟨hgoes, hwaits⟩ :=
    attempt_past_quiet hquiet₁ hserver hover.named hpatient₁ hbindable hover.past
  rw [run, hresume]
  dsimp only
  rw [runFrom]
  generalize r.attempt (.incremental (ck.applyTo s)) st₁ = attempted at hgoes hwaits ⊢
  obtain ⟨result, st₂⟩ := attempted
  refine ⟨fun hne => ?_, fun hnil hwait => ?_⟩
  · obtain rfl : result = _ := hgoes hne
    rfl
  · obtain rfl : result = _ := hwaits hnil hwait
    rfl

/-- A bounded split that is run again after it was finished moves nothing, whatever fails meanwhile,
and a report that it returns is the same one.  Where nothing fails it returns the report if and only
if the split can be bound at its checkpoint and the log goes on behind that.  When the log does not
go on and waits for more, the run is still running. -/
theorem rerun_completes_iff {n : Nat} {c : SplitCompletion} {e : Offset}
    (hfirst : (r.run (.incremental s) st n).1 = .returned (.ok (some c)))
    (hload : st'.checkpoints.load s.splitId = some ck) (hfinal : c.finalOffset = some ck.offset)
    (hend : s.endingOffset = some e) (hreached : ck.offset.reached e = true)
    (he : e.Normal) (hck : ck.offset.Normal)
    (hlog : ∀ rec ∈ st'.shared.server.log, rec.position.Normal)
    (hnamed : st'.shared.server.Named) (attempts : Nat) :
    let again := r.run (.incremental s) st' attempts
    let bindable := (Split.incremental (ck.applyTo s)).Bindable st'.shared
    let goesOn := ∃ rec ∈ st'.shared.server.log, rec.position.after ck.offset = true
    (again.2.sink.events = st'.sink.events ∧ again.2.sink.writes = st'.sink.writes ∧
        again.2.checkpoints = st'.checkpoints) ∧
      (∀ x, again.1 = .returned (.ok x) → x = some c ∧ bindable ∧ goesOn) ∧
      (st'.Quiet → st'.shared.server.Quiet → st'.sleptMs < r.patienceMs → 0 < attempts →
        (again.1 = .returned (.ok (some c)) ↔ bindable ∧ goesOn) ∧
          (bindable → ¬ goesOn → st'.shared.server.endsWhenDrained = false →
            again.1 = .running)) := by
  intro again bindable goesOn
  have hgoes : goesOn ↔ recordsAfter st'.shared.server.log ck.offset ≠ [] := by
    simp [goesOn, recordsAfter]
  have hreport : c = ⟨s.splitId, some ck.offset⟩ := by
    obtain ⟨id, final⟩ := c
    obtain rfl : final = some ck.offset := hfinal
    obtain rfl : id = s.splitId := (r.run_course (.incremental s) st n).reports _ hfirst
    rfl
  have hover : Over s ck st' := ⟨hload, hnamed, past_of_reached hend hreached he hck hlog⟩
  obtain ⟨hunmoved, hcompletes⟩ := run_settled r attempts hover
  have hreturned : ∀ x, again.1 = .returned (.ok x) → x = some c ∧ bindable ∧ goesOn := by
    intro x hx
    obtain ⟨rfl, hbindable, hne⟩ := hcompletes x hx
    exact ⟨by rw [hreport]; rfl, hbindable, hgoes.mpr hne⟩
  refine ⟨⟨hunmoved.events, hunmoved.writes, hunmoved.checkpoints⟩, hreturned, ?_⟩
  intro hquiet hserver hpatient hattempts
  obtain ⟨attempts, rfl⟩ := Nat.exists_eq_add_one_of_ne_zero (Nat.ne_of_gt hattempts)
  have hsettled := fun hbindable =>
    run_settled_quiet hover hquiet hserver hpatient hbindable attempts
  refine ⟨⟨fun h => (hreturned _ h).2, fun hboth => ?_⟩, fun hbindable hgoing hwait => ?_⟩
  · rw [hreport]
    exact (hsettled hboth.1).1 (hgoes.mp hboth.2)
  · have hnil : recordsAfter st'.shared.server.log ck.offset = [] := by
      by_contra hne
      exact hgoing (hgoes.mpr hne)
    exact (hsettled hbindable).2 hnil hwait

/-- The orders on a connection that holds, and what the log has behind them. -/
def ordersThen (more : List LogRecord) : Server :=
  { ordersServer with drops := (0, 0), log := ordersServer.log ++ more }

/-- The orders are delivered at the first attempt, whatever comes behind them. -/
lemma run_ordersThen (more : List LogRecord) :
    (ordersRunner.run (.incremental ordersSplit) { shared := { server := ordersThen more } } 1).1 =
      .returned (.ok (some ⟨ordersSplit.splitId, some (.binlog "log.1" 20)⟩)) := by
  let split := Split.incremental ordersSplit
  let log : LogStream :=
    { records := recordsAfter (ordersThen more).log ordersSplit.startingOffset
      endsWhenDrained := false }
  let plan : Plan :=
    { producer := .stream ordersSplit.job log, mode := .passThrough
      start := ordersSplit.startingOffset }
  obtain ⟨st, hresume, hquiet, hslept, hshared⟩ :
      ∃ st, resume split { shared := { server := ordersThen more } } = (.ok split, st) ∧
        st.Quiet ∧ st.sleptMs = 0 ∧ st.shared = { server := ordersThen more } :=
    ⟨_, rfl, rfl, rfl, rfl⟩
  obtain ⟨sh, hplan, e, next, sh₁, hfirst, e', sh₂, hsecond, hposition⟩ :
      ∃ sh, Plan.make ordersRunner.config split (ordersRunner.found st) = (.ok plan, sh) ∧
        ∃ e next sh₁, plan.producer.step sh = (.ok (.push (.change e) next), sh₁) ∧
          ∃ e' sh₂, next.step sh₁ = (.ok (.push (.change e') .done), sh₂) ∧
            e'.position = .binlog "log.1" 20 := by
    unfold found
    rw [hshared]
    exact ⟨_, rfl, _, _, _, rfl, _, _, rfl, rfl⟩
  have hattempt := attempt_result hquiet (by decide +kernel)
    (by rw [hslept]; decide : st.sleptMs < ordersRunner.patienceMs) hplan rfl
  have hdone : Producer.done.output sh₂ = ⟨[], .ends, sh₂.source⟩ := Producer.output_ends rfl
  rw [Producer.output_push hfirst, Producer.output_push hsecond, hdone] at hattempt
  rw [run, hresume]
  dsimp only
  rw [runFrom]
  generalize ordersRunner.attempt split st = attempted at hattempt ⊢
  obtain ⟨result, st'⟩ := attempted
  obtain rfl : result = _ := hattempt
  show Result.returned (.ok (some ⟨ordersSplit.splitId, some e'.position⟩)) = _
  rw [hposition]

/-- The checkpoint that such a run leaves. -/
def ordersDone : Checkpoint :=
  ⟨ordersSplit.splitId, ordersSplit.tableIds, .binlog "log.1" 20, ordersRunner.stamp⟩

/-- The orders once more. -/
def ordersAgain (more : List LogRecord) : RunState :=
  { shared := { server := ordersThen more }
    checkpoints := ({} : MemoryCheckpoints).save ordersDone }

lemma bindable_ordersAgain (more : List LogRecord) :
    (Split.incremental (ordersDone.applyTo ordersSplit)).Bindable (ordersAgain more).shared where
  resolves := by
    refine ⟨List.pairwise_singleton .., fun t ht => ?_⟩
    obtain rfl := List.mem_singleton.mp ht
    rfl
  served := by
    have hserved : Resume.check ordersDone.offset ordersServer.retained = none := by decide +kernel
    exact hserved
  encoded := rfl

/-- Run again, the orders are reported again when one more has come behind them, and else the run
does not come back. -/
theorem rerun_completes_iff_orders :
    let c : SplitCompletion := ⟨ordersSplit.splitId, some (.binlog "log.1" 20)⟩
    let more : LogRecord :=
      .change (.insert (.binlog "log.1" 30) ⟨"shop", "orders"⟩ [.number (.int 3)])
    let first := fun log => ordersRunner.run (.incremental ordersSplit)
      { shared := { server := ordersThen log } } 1
    let again := fun log => ordersRunner.run (.incremental ordersSplit) (ordersAgain log) 1
    ((first []).1 = .returned (.ok (some c)) ∧
        (again []).1 = .running ∧ (again []).2.sink.events = []) ∧
      (first [more]).1 = .returned (.ok (some c)) ∧
        (again [more]).1 = .returned (.ok (some c)) ∧ (again [more]).2.sink.events = [] := by
  intro c more first again
  have hload : ∀ log, (ordersAgain log).checkpoints.load ordersSplit.splitId = some ordersDone :=
    fun _ => rfl
  have hserver : ∀ log, (ordersAgain log).shared.server.Quiet := fun _ => ⟨rfl, rfl, rfl⟩
  have hnormal : ∀ log : List LogRecord, (∀ r ∈ log, r.position.Normal) →
      ∀ r ∈ (ordersAgain log).shared.server.log, r.position.Normal := fun log hlog r hr => by
    rcases List.mem_append.mp hr with hr | hr
    · exact setting_orders.ordered.normal r hr
    · exact hlog r hr
  obtain ⟨⟨hevents, -⟩, -, hquiet⟩ :=
    rerun_completes_iff (run_ordersThen []) (hload []) rfl rfl (by decide) trivial trivial
      (hnormal [] (by simp)) setting_orders.named 1
  obtain ⟨⟨hevents', -⟩, -, hquiet'⟩ :=
    rerun_completes_iff (run_ordersThen [more]) (hload [more]) rfl rfl (by decide) trivial trivial
      (hnormal [more] fun r hr => List.mem_singleton.mp hr ▸ trivial) setting_orders.named 1
  refine ⟨⟨run_ordersThen [], ?_, hevents⟩, run_ordersThen [more], ?_, hevents'⟩
  · exact (hquiet rfl (hserver []) (by decide) Nat.one_pos).2 (bindable_ordersAgain [])
      (by decide) rfl
  · exact (hquiet' rfl (hserver [more]) (by decide) Nat.one_pos).1.mpr
      ⟨bindable_ordersAgain [more], by decide⟩

end Runner
end Changefeed
