import Changefeed.Proofs.Fetch.Courses
import Changefeed.Proofs.Fetch.Protocol
import Changefeed.Proofs.SortedMap

/-!
# Attempts of a run

A run makes one attempt after the other, and an attempt reads one session, batch by batch.  Here are
the points that a run goes through: the attempts that it begins, each of them after a failure that
is tried again, and within an attempt the batches that it hands to the sink.  What a run returns is
what came of its last attempt.

Where only the connection fails, a batch that was read is delivered and a split can be resumed.
Then an attempt fails only where its split was refused or its reader has failed, and it finishes
only where its reader has come to the end.
-/

namespace Changefeed

/-! ## Calls that are let through -/

namespace Script

lemma make_quiet {κ : Type} [Ord κ] [DecidableEq κ] {script : Script κ} (h : script.faults = [])
    (c : κ) : (script.make c).1 = none ∧ (script.make c).2.faults = [] := by
  simp [make, h]

end Script

namespace RunState

lemma call_quiet {α : Type} {st : RunState} (h : st.script.faults = []) (c : RunCall)
    (act : RunState → α × RunState) :
    call c act st = (.ok (act { st with script := (st.script.make c).2 }).1,
      (act { st with script := (st.script.make c).2 }).2) := by
  have hmake : st.script.make c = (none, (st.script.make c).2) :=
    Prod.ext (Script.make_quiet h c).1 rfl
  unfold call
  rw [hmake]

end RunState

/-! ## Calls that are counted -/

instance : Std.TransOrd RunCall where
  eq_swap {a b} := by cases a <;> cases b <;> rfl
  isLE_trans {a b c} := by cases a <;> cases b <;> cases c <;> decide

instance : Std.LawfulEqOrd RunCall where
  eq_of_compare {a b} := by cases a <;> cases b <;> decide

lemma Script.count_make {κ : Type} [Ord κ] [Std.TransOrd κ] [Std.LawfulEqOrd κ] [DecidableEq κ]
    (script : Script κ) (c c' : κ) :
    (script.make c).2.count c' = if c' = c then script.count c + 1 else script.count c' := by
  simp only [count, make, SortedMap.find?_insert]
  split <;> rfl

namespace RunState

/-- The number of tasks that were created. -/
def created (st : RunState) : Nat := st.script.count .create

/-- Only the connection can fail. -/
def Quiet (st : RunState) : Prop := st.script.faults = []

lemma Quiet.share {st : RunState} (h : st.Quiet) (shared : Shared) :
    Quiet { st with shared } :=
  h

/-- What has happened to a state in which nothing was counted but events were delivered. -/
structure Handed (st st' : RunState) (es : List ChangeEvent) : Prop where
  quiet : st'.Quiet
  events : st'.sink.events = st.sink.events ++ es
  created : st'.created = st.created
  slept : st'.sleptMs = st.sleptMs
  tally : st'.shared.tally = st.shared.tally

variable {st st' st'' : RunState} {es es' : List ChangeEvent}

lemma Handed.refl (h : st.Quiet) : Handed st st [] :=
  ⟨h, (List.append_nil _).symm, rfl, rfl, rfl⟩

lemma Handed.trans (h : Handed st st' es) (h' : Handed st' st'' es') :
    Handed st st'' (es ++ es') where
  quiet := h'.quiet
  events := by rw [h'.events, h.events, List.append_assoc]
  created := h'.created.trans h.created
  slept := h'.slept.trans h.slept
  tally := h'.tally.trans h.tally

/-- A call that hands events over and that nothing but the script can make fail.  What is shared
stays as it was but for the counters. -/
def Hands {α : Type} (act : RunAct α) (es : List ChangeEvent) : Prop := ∀ st : RunState, st.Quiet →
  ∃ a st', act st = (.ok a, st') ∧ Handed st st' es ∧
    ∃ m, st'.shared = { st.shared with metrics := m }

section

variable {α : Type} {act : RunAct α}

lemma Hands.handed (h : Hands act es) (hquiet : st.Quiet) {a : α} (heq : act st = (.ok a, st')) :
    Handed st st' es ∧ ∃ m, st'.shared = { st.shared with metrics := m } := by
  obtain ⟨a', st₁, hact, hhanded⟩ := h st hquiet
  obtain rfl : st₁ = st' := congrArg Prod.snd (hact.symm.trans heq)
  exact hhanded

lemma Hands.ne_error (h : Hands act es) (hquiet : st.Quiet) (f : Fault) :
    act st ≠ (.error f, st') := by
  obtain ⟨a, st₁, hact, -⟩ := h st hquiet
  rw [hact]
  simp

/-- A call to the sink or to the checkpoints hands over what it does. -/
lemma hands_call {c : RunCall} {act : RunState → α × RunState} (hc : RunCall.create ≠ c)
    (hact : ∀ st, (act st).2.script = st.script ∧ (act st).2.sink.events = st.sink.events ++ es ∧
      (act st).2.sleptMs = st.sleptMs ∧ (act st).2.shared = st.shared) : Hands (call c act) es := by
  intro st h
  obtain ⟨hscript, hevents, hslept, hshared⟩ := hact { st with script := (st.script.make c).2 }
  refine ⟨_, _, call_quiet h c act, ⟨?_, hevents, ?_, hslept, ?_⟩, st.shared.metrics, hshared⟩
  · exact (congrArg Script.faults hscript).trans (Script.make_quiet h c).2
  · rw [created, hscript, Script.count_make, if_neg hc]
    rfl
  · rw [hshared]

end

lemma hands_write (es : List ChangeEvent) : Hands (write es) es :=
  hands_call (by decide) fun _ => ⟨rfl, rfl, rfl, rfl⟩

lemma hands_flush : Hands flush [] :=
  hands_call (by decide) fun _ => ⟨rfl, (List.append_nil _).symm, rfl, rfl⟩

lemma hands_save (c : Checkpoint) : Hands (save c) [] :=
  hands_call (by decide) fun _ => ⟨rfl, (List.append_nil _).symm, rfl, rfl⟩

lemma hands_load (id : SplitId) : Hands (load id) [] :=
  hands_call (by decide) fun _ => ⟨rfl, (List.append_nil _).symm, rfl, rfl⟩

end RunState

namespace Runner

open RunState

variable {r : Runner} {split : Split} {st st' : RunState} {es : List ChangeEvent}

lemma hands_deliver (es : List ChangeEvent) : Hands (deliver es) es := by
  intro st h
  unfold deliver
  split
  · next hes => exact ⟨(), st, rfl, hes ▸ .refl h, _, rfl⟩
  · exact hands_write es st h

lemma hands_checkpoint (r : Runner) (s : IncrementalSplit) (offset : Offset) :
    Hands (r.checkpoint s offset) [] := by
  intro st h
  obtain ⟨⟨⟩, st₁, hflush, hhanded, m, hshared⟩ := hands_flush st h
  obtain ⟨⟨⟩, st₂, hsave, hhanded', m', hshared'⟩ :=
    hands_save ⟨s.splitId, s.tableIds, offset, r.stamp⟩ st₁ hhanded.quiet
  have hboth := hhanded.trans hhanded'
  refine ⟨(), st₂.countCheckpoint, ?_,
    ⟨hboth.quiet, hboth.events, hboth.created, hboth.slept, hboth.tally⟩,
    st₂.shared.metrics.recordCheckpoint, ?_⟩
  · rw [checkpoint, hflush]
    dsimp only
    rw [hsave]
  · rw [countCheckpoint, hshared', hshared]

lemma hands_checkpointIfMoved (r : Runner) (split : Split) (last offset : Offset) :
    Hands (r.checkpointIfMoved split last offset) [] := by
  intro st h
  cases split with
  | snapshot s => exact ⟨(), st, rfl, .refl h, _, rfl⟩
  | incremental s =>
    unfold checkpointIfMoved
    dsimp only
    split
    · exact ⟨(), st, rfl, .refl h, _, rfl⟩
    · exact r.hands_checkpoint s offset st h

/-! ## Batches of an attempt -/

/-- Reading on from a session, a position that was checkpointed and a state, an attempt comes to
others by handing over some batches. -/
inductive Drives (r : Runner) (split : Split) :
    Session → Offset → RunState → Session → Offset → RunState → Prop where
  | refl (s : Session) (last : Offset) (st : RunState) : Drives r split s last st s last st
  | batch {s s₁ s' : Session} {last last' : Offset} {st st₁ st₂ st' : RunState} {shared : Shared}
      {es : List ChangeEvent} (hbatch : s.nextBatch st.shared = (.events es, s₁, shared))
      (hdeliver : deliver es { st with shared } = (.ok (), st₁))
      (hcheckpoint : r.checkpointIfMoved split last s₁.reader.offset st₁ = (.ok (), st₂))
      (hrest : Drives r split s₁ s₁.reader.offset st₂ s' last' st') :
      Drives r split s last st s' last' st'

/-- How reading stops where only the connection can fail. -/
inductive Stops (s : Session) (st : RunState) : Attempt → Session → RunState → Prop where
  | idle {s' : Session} {shared : Shared} {st' : RunState}
      (hbatch : s.nextBatch st.shared = (.idle, s', shared))
      (hhanded : Handed { st with shared } st' []) (hsource : st'.shared.source = shared.source) :
      Stops s st .idle s' st'
  | failed {f : Fault} {s' : Session} {shared : Shared}
      (hbatch : s.nextBatch st.shared = (.failed f, s', shared)) :
      Stops s st (.failed f) s' { st with shared }
  | ended {s' : Session} {shared : Shared} {st' : RunState}
      (hbatch : s.nextBatch st.shared = (.ended, s', shared))
      (hflush : flush { st with shared } = (.ok (), st')) :
      Stops s st (.finished s'.reader.completion) s' st'

/-- Reading hands over some batches and then stops. -/
lemma drive_stops (r : Runner) (split : Split) (s : Session) (last : Offset) (h : st.Quiet) :
    ∃ s₁ last₁ st₁, Drives r split s last st s₁ last₁ st₁ ∧
      Stops s₁ st₁ (r.drive split s last st).1 (r.drive split s last st).2.1
        (r.drive split s last st).2.2 := by
  fun_induction drive r split s last st with
  | case1 s last st s' shared hbatch f st' hcheckpoint =>
    exact absurd hcheckpoint ((r.hands_checkpointIfMoved split _ _).ne_error (h.share _) f)
  | case2 s last st s' shared hbatch st' hcheckpoint =>
    have hhanded := ((r.hands_checkpointIfMoved split _ _).handed (h.share _) hcheckpoint).1
    have hsource := (source_checkpointIfMoved hcheckpoint).symm
    exact ⟨s, last, st, .refl .., .idle hbatch hhanded hsource⟩
  | case3 s last st f s' shared hbatch => exact ⟨s, last, st, .refl .., .failed hbatch⟩
  | case4 s last st s' shared hbatch f st' hflush =>
    exact absurd hflush (hands_flush.ne_error (h.share _) f)
  | case5 s last st s' shared hbatch st' hflush =>
    exact ⟨s, last, st, .refl .., .ended hbatch hflush⟩
  | case6 s last st es s' shared hbatch f st' hdeliver =>
    exact absurd hdeliver ((hands_deliver es).ne_error (h.share _) f)
  | case7 s last st es s' shared hbatch st₁ hdeliver f st₂ hcheckpoint =>
    have hquiet := ((hands_deliver es).handed (h.share _) hdeliver).1.quiet
    exact absurd hcheckpoint ((r.hands_checkpointIfMoved split _ _).ne_error hquiet f)
  | case8 s last st es s' shared hbatch st₁ hdeliver st₂ hcheckpoint ih =>
    have hquiet := ((hands_deliver es).handed (h.share _) hdeliver).1.quiet
    have hquiet' := ((r.hands_checkpointIfMoved split _ _).handed hquiet hcheckpoint).1.quiet
    obtain ⟨s₁, last₁, st₃, hdrives, hstops⟩ := ih hquiet'
    exact ⟨s₁, last₁, st₃, .batch hbatch hdeliver hcheckpoint hdrives, hstops⟩

end Runner

/-! ## Sessions that are being read -/

namespace Session

variable {mode : ReadMode} {o : Output} {given : List ChangeEvent} {s s' : Session}
  {sh sh' : Shared}

/-- A session of which events have been given out and that goes on. -/
structure Going (mode : ReadMode) (o : Output) (size : Nat) (given : List ChangeEvent) (s : Session)
    (sh : Shared) : Prop where
  reads : s.Reads mode o given sh
  ongoing : s.reader.done = false
  opened : s.queue.closed = false
  sized : s.reader.maxBatchSize = size

variable {size : Nat}

lemma Going.following (h : Going mode o size given s sh) : Following mode o given s sh :=
  h.reads.following h.ongoing h.opened

lemma Going.count (h : Going mode o size given s sh) (m : Metrics) :
    Going mode o size given s { sh with metrics := m } where
  reads := { h.reads with following := fun _ _ => h.following.count m }
  ongoing := h.ongoing
  opened := h.opened
  sized := h.sized

/-- A turn that comes to events or to nothing leaves a session that goes on. -/
lemma Going.turned (h : Going mode o size given s sh) {b : Option Batch}
    (hturned : Turned s sh b s' sh') (hb : b = none ∨ ∃ es, b = some (.events es)) :
    Going mode o size (given ++ eventsOf b) s' sh' := by
  have habsorbed : ∀ {out reader m}, s.reader.absorbAll sh.metrics s.queue.batch =
      (.ok out, reader, m) → ∃ rows, s.reader.Absorbed s.queue.batch rows out reader :=
    fun habsorb => h.reads.sound.absorbs h.ongoing
      (h.following.batch_markedLast h.reads.markedLast) habsorb
  refine ⟨h.reads.turned hturned, ?_, ?_, ?_⟩
  all_goals
    cases hturned with
    | ready => first | exact h.ongoing | exact h.opened | exact h.sized
    | passed _ _ hopen _ habsorb =>
      obtain ⟨rows, hrows⟩ := habsorbed habsorb
      first
        | exact hrows.done.trans h.ongoing
        | exact hopen
        | exact hrows.maxBatchSize.trans h.sized
    | taken _ _ hopen _ habsorb =>
      obtain ⟨rows, hrows⟩ := habsorbed habsorb
      first
        | exact hrows.done.trans h.ongoing
        | exact hopen
        | exact hrows.maxBatchSize.trans h.sized
    | _ => rcases hb with hb | ⟨es, hb⟩ <;> cases hb

/-- Turns that no batch comes of leave a session that goes on, and count nothing. -/
lemma Going.leads (h : Going mode o size given s sh) (hleads : Leads s sh s' sh') :
    Going mode o size given s' sh' ∧ sh'.tally = sh.tally := by
  induction hleads with
  | refl => exact ⟨h, rfl⟩
  | @work s s' sh sh' hrest ih =>
    have hqueue := (Work.advance_queue s.work s.queue sh).2
    obtain ⟨hgoing, htally⟩ := ih ⟨h.reads.advance, h.ongoing, hqueue.trans h.opened, h.sized⟩
    exact ⟨hgoing, htally.trans (Work.tally_advance s.work s.queue sh)⟩
  | @turn s s₁ s' sh sh₁ sh' hturn hrest ih =>
    have hturned := Session.turned h.reads.sound sh
    rw [hturn] at hturned
    have hgoing := h.turned hturned (.inl rfl)
    rw [eventsOf, List.append_nil] at hgoing
    obtain ⟨hgoing', htally⟩ := ih hgoing
    exact ⟨hgoing', htally.trans (tally_turned hturned h.ongoing h.opened)⟩

lemma Going.next (h : Going mode o size given s sh) : ∃ s₁ sh₁,
    Going mode o size given s₁ sh₁ ∧ sh₁.tally = sh.tally ∧
      Turned s₁ sh₁ (some (s.nextBatch sh).1) (s.nextBatch sh).2.1 (s.nextBatch sh).2.2 := by
  obtain ⟨s₁, sh₁, hleads, hturn⟩ := nextBatch_leads s sh
  obtain ⟨hgoing, htally⟩ := h.leads hleads
  have hturned := Session.turned hgoing.reads.sound sh₁
  rw [hturn] at hturned
  exact ⟨s₁, sh₁, hgoing, htally, hturned⟩

lemma Going.tally_nextBatch (h : Going mode o size given s sh) {b : Batch}
    (hbatch : s.nextBatch sh = (b, s', sh')) : sh'.tally = countTurn sh.tally (some b) := by
  obtain ⟨s₁, sh₁, hgoing, htally, hturned⟩ := h.next
  rw [hbatch] at hturned
  rw [tally_turned hturned hgoing.ongoing hgoing.opened, htally]

lemma Going.events (h : Going mode o size given s sh) {es : List ChangeEvent}
    (hbatch : s.nextBatch sh = (.events es, s', sh')) :
    Going mode o size (given ++ es) s' sh' := by
  obtain ⟨s₁, sh₁, hgoing, -, hturned⟩ := h.next
  rw [hbatch] at hturned
  exact hgoing.turned hturned (.inr ⟨es, rfl⟩)

/-- Where a session ends, all of its events have been given out. -/
lemma Going.ended (h : Going mode o size given s sh)
    (hbatch : s.nextBatch sh = (.ended, s', sh')) :
    ∃ c, s'.reader.completion = some c ∧ Whole mode o given c := by
  obtain ⟨s₁, sh₁, hgoing, -, hturned⟩ := h.next
  rw [hbatch] at hturned
  have hreads := hgoing.reads.turned hturned
  rw [eventsOf, List.append_nil] at hreads
  cases hturned with
  | completed => exact ⟨_, rfl, hreads.whole _ rfl⟩
  | past _ hdone => cases hgoing.ongoing.symm.trans hdone
  | stopped _ _ hclosed => cases hgoing.opened.symm.trans hclosed
  | taken _ _ _ _ _ hb => rcases hb with hb | ⟨hb, -⟩ <;> cases hb

end Session

lemma Plan.begun_going (plan : Plan) (config : FetchConfig) (split : Split) (sh : Shared) :
    (plan.begun config split).Going plan.mode (plan.producer.output sh) config.maxBatchSize [] sh :=
  ⟨Usage.begun_reads plan config split sh, rfl, rfl, rfl⟩

namespace Runner

open RunState

variable {r : Runner} {split split' : Split} {st st' st₁ : RunState}

/-- What was given out of a session is handed to the sink. -/
lemma Drives.going {mode : ReadMode} {o : Output} {size : Nat} {given : List ChangeEvent}
    {s s' : Session} {last last' : Offset} (h : Drives r split s last st s' last' st')
    (hgoing : s.Going mode o size given st.shared) (hquiet : st.Quiet) :
    ∃ es, s'.Going mode o size (given ++ es) st'.shared ∧ Handed st st' es := by
  induction h generalizing given with
  | refl s last st => exact ⟨[], by rwa [List.append_nil], .refl hquiet⟩
  | @batch s s₁ s' last last' st st₁ st₂ st' shared es hbatch hdeliver hcheckpoint _ ih =>
    have htally := hgoing.tally_nextBatch hbatch
    have hstart : Handed st { st with shared } [] :=
      ⟨hquiet, (List.append_nil _).symm, rfl, rfl, htally⟩
    obtain ⟨hhanded₁, m, hshared₁⟩ := (hands_deliver es).handed (hquiet.share _) hdeliver
    obtain ⟨hhanded₂, m', hshared₂⟩ :=
      (r.hands_checkpointIfMoved split _ _).handed hhanded₁.quiet hcheckpoint
    have hgoing₂ := (hgoing.events hbatch).count m'
    rw [hshared₁] at hshared₂
    obtain ⟨more, hgoing', hhanded'⟩ := ih (hshared₂ ▸ hgoing₂) hhanded₂.quiet
    refine ⟨es ++ more, by rwa [← List.append_assoc], ?_⟩
    have hall := hstart.trans (hhanded₁.trans (hhanded₂.trans hhanded'))
    simpa using hall

/-! ## One attempt -/

/-- An attempt has created and configured its task, and begins to read by its plan. -/
inductive Begins (r : Runner) (split : Split) (st : RunState) : Plan → RunState → Prop where
  | intro {st₁ : RunState} {plan : Plan} {shared : Shared}
      (hcreate : call .create (fun st => ((), st)) st = (.ok (), st₁))
      (hplan : Plan.make r.config split (r.found st₁) = (.ok plan, shared))
      (hpatient : st₁.sleptMs < r.patienceMs) : Begins r split st plan { st₁ with shared }

/-- What comes of an attempt where only the connection can fail. -/
inductive Attempted (r : Runner) (split : Split) (st : RunState) : Attempt → RunState → Prop where
  | refused {st₁ : RunState} {shared : Shared} {f : Fault}
      (hcreate : call .create (fun st => ((), st)) st = (.ok (), st₁))
      (hplan : Plan.make r.config split (r.found st₁) = (.error f, shared)) :
      Attempted r split st (.failed f)
        (closeTask { config := r.config, stage := .refused split }
          { st₁ with
            shared := { shared with metrics := Task.countRefusal shared.metrics f } })
  | idle {st' : RunState} : Attempted r split st .idle st'
  | read {plan : Plan} {st₁ st₂ st₃ : RunState} {s s' : Session} {last : Offset} {result : Attempt}
      (hbegins : Begins r split st plan st₁)
      (hdrives : Drives r split (plan.begun r.config split) plan.start st₁ s last st₂)
      (hstops : Stops s st₂ result s' st₃) :
      Attempted r split st result (closeTask { config := r.config, stage := .reading split s' } st₃)

lemma create_quiet (h : st.Quiet) : ∃ st₁,
    call .create (fun st => ((), st)) st = (.ok (), st₁) ∧ st₁.Quiet ∧
      st₁.created = st.created + 1 ∧ st₁.sink = st.sink ∧ st₁.shared = st.shared := by
  refine ⟨_, call_quiet h .create _, (Script.make_quiet h .create).2, ?_, rfl, rfl⟩
  rw [created, Script.count_make, if_pos rfl]
  rfl

/-- An attempt comes to one of the listed things. -/
lemma attempt_attempted (r : Runner) (split : Split) (h : st.Quiet) :
    Attempted r split st (r.attempt split st).1 (r.attempt split st).2 := by
  obtain ⟨st₁, hcreate, hquiet, -⟩ := create_quiet h
  rw [attempt_of_created hcreate]
  cases hplan : Plan.make r.config split (r.found st₁) with
  | mk planned sh =>
    cases planned with
    | error f => exact .refused hcreate hplan
    | ok plan =>
      dsimp only
      rw [readTask_prepared]
      split
      · exact .idle
      · next hpatient =>
        have hbegins : Begins r split st plan { st₁ with shared := sh } :=
          .intro hcreate hplan (Nat.lt_of_not_le hpatient)
        obtain ⟨s, last, st₂, hdrives, hstops⟩ :=
          drive_stops r split (plan.begun r.config split) plan.start (hquiet.share sh)
        generalize r.drive split (plan.begun r.config split) plan.start
          { st₁ with shared := sh } = driven at hstops ⊢
        obtain ⟨result, s', st₃⟩ := driven
        cases result with
        | idle => exact .idle
        | finished c => exact .read hbegins hdrives hstops
        | failed f => exact .read hbegins hdrives hstops

/-! ## What an attempt counts -/

/-- What is counted when reading stops. -/
def count (t : Tally) : Attempt → Tally
  | .finished _ => t.complete
  | .failed _ => t.fail
  | .idle => t

lemma tally_make (r : Runner) (split : Split) (st : RunState) :
    (Plan.make r.config split (r.found st)).2.tally = st.shared.tally.start := by
  rw [(Plan.opens_make r.config split (r.found st)).1]
  unfold found
  split <;> rfl

/-- What holds of a state where an attempt begins to read. -/
lemma Begins.begun {plan : Plan} (h : Begins r split st plan st₁) (hquiet : st.Quiet) :
    st₁.Quiet ∧ st₁.created = st.created + 1 ∧ st₁.sink = st.sink ∧
      st₁.shared.tally = st.shared.tally.start := by
  obtain ⟨hcreate, hplan, -⟩ := h
  obtain ⟨st₀, hst₀, hquiet₀, hcreated, hsink, hshared⟩ := create_quiet hquiet
  obtain rfl := congrArg Prod.snd (hst₀.symm.trans hcreate)
  have htally := r.tally_make split st₀
  rw [hplan] at htally
  exact ⟨hquiet₀, hcreated, hsink, htally.trans (by rw [hshared])⟩

/-- A session stops, and that is counted. -/
lemma Stops.counted {mode : ReadMode} {o : Output} {size : Nat} {given : List ChangeEvent}
    {s s' : Session} {result : Attempt} (h : Stops s st result s' st')
    (hgoing : s.Going mode o size given st.shared) (hquiet : st.Quiet) :
    st'.Quiet ∧ st'.created = st.created ∧ st'.sink.events = st.sink.events ∧
      st'.sleptMs = st.sleptMs ∧ st'.shared.tally = count st.shared.tally result := by
  cases h with
  | idle hbatch hhanded =>
    exact ⟨hhanded.quiet, hhanded.created, hhanded.events.trans (List.append_nil _), hhanded.slept,
      hhanded.tally.trans (hgoing.tally_nextBatch hbatch)⟩
  | failed hbatch => exact ⟨hquiet, rfl, rfl, rfl, hgoing.tally_nextBatch hbatch⟩
  | ended hbatch hflush =>
    obtain ⟨hhanded, -⟩ := hands_flush.handed (hquiet.share _) hflush
    exact ⟨hhanded.quiet, hhanded.created, hhanded.events.trans (List.append_nil _), hhanded.slept,
      hhanded.tally.trans (hgoing.tally_nextBatch hbatch)⟩

/-- An attempt that comes to an end creates one task, starts one split, counts how that came out,
and closes one connection. -/
lemma Attempted.counted {result : Attempt} (h : Attempted r split st result st')
    (hquiet : st.Quiet) (hresult : result ≠ .idle) :
    st'.Quiet ∧ st'.created = st.created + 1 ∧
      st'.shared.tally = (count st.shared.tally.start result).close := by
  cases h with
  | @refused st₁ shared f hcreate hplan =>
    obtain ⟨st₀, hst₀, hquiet₀, hcreated, -, hshared⟩ := create_quiet hquiet
    obtain rfl := congrArg Prod.snd (hst₀.symm.trans hcreate)
    have htally := r.tally_make split st₀
    rw [hplan, hshared] at htally
    refine ⟨hquiet₀, hcreated, ?_⟩
    rw [count, ← htally]
    cases f <;> rfl
  | idle => exact absurd rfl hresult
  | read hbegins hdrives hstops =>
    obtain ⟨hquiet₁, hcreated₁, -, htally₁⟩ := hbegins.begun hquiet
    obtain ⟨es, hgoing, hhanded⟩ := hdrives.going (Plan.begun_going _ _ _ _) hquiet₁
    obtain ⟨hquiet₂, hcreated₂, -, -, htally₂⟩ := hstops.counted hgoing hhanded.quiet
    rw [hhanded.tally, htally₁] at htally₂
    exact ⟨hquiet₂, hcreated₂.trans (hhanded.created.trans hcreated₁), congrArg Tally.close htally₂⟩

/-- An attempt that finishes has a report. -/
lemma Attempted.completed {c : Option SplitCompletion} (h : Attempted r split st (.finished c) st')
    (hquiet : st.Quiet) : c.isSome = true := by
  cases h with
  | read hbegins hdrives hstops =>
    obtain ⟨es, hgoing, -⟩ :=
      hdrives.going (Plan.begun_going _ _ _ _) (hbegins.begun hquiet).1
    cases hstops with
    | ended hbatch hflush =>
      obtain ⟨c, hc, -⟩ := hgoing.ended hbatch
      rw [hc]
      rfl

/-! ## All attempts -/

/-- A split can always be resumed where only the connection fails. -/
lemma hands_resume (split : Split) : Hands (resume split) [] := by
  intro st h
  cases split with
  | snapshot s => exact ⟨_, st, rfl, .refl h, _, rfl⟩
  | incremental s =>
    obtain ⟨c, st', hload, hhanded⟩ := hands_load s.splitId st h
    unfold resume
    dsimp only
    rw [hload]
    cases c with
    | none => exact ⟨_, st', rfl, hhanded⟩
    | some c => exact ⟨_, st', rfl, hhanded⟩

/-- A run begins an attempt after a number of retries. -/
inductive Tries (r : Runner) (split : Split) (st : RunState) : Nat → Split → RunState → Prop where
  | first {split₁ : Split} {st₁ : RunState} (hresume : resume split st = (.ok split₁, st₁)) :
      Tries r split st 0 split₁ st₁
  | again {retries : Nat} {split₁ split₂ : Split} {st₁ st₂ st₃ : RunState} {f : Fault}
      {delay : Duration} (htries : Tries r split st retries split₁ st₁)
      (hfailed : r.attempt split₁ st₁ = (.failed f, st₂))
      (hretries : r.retry.retries retries f = true) (hdelay : r.retry.delay retries = some delay)
      (hpatient : st₂.sleptMs + delay.timerMillis ≤ r.patienceMs)
      (hresume : resume split₁ { st₂.countRetry with sleptMs := st₂.sleptMs + delay.timerMillis } =
        (.ok split₂, st₃)) :
      Tries r split st (retries + 1) split₂ st₃

/-- A run goes on with each attempt that it begins. -/
lemma Tries.run_eq {retries : Nat} (h : Tries r split st retries split' st') (attempts : Nat) :
    r.run split st (retries + attempts) = r.runFrom split' st' retries attempts := by
  induction h generalizing attempts with
  | first hresume =>
    rw [Nat.zero_add, run, hresume]
  | @again retries split₁ split₂ st₁ st₂ st₃ f delay _ hfailed hretries hdelay hpatient hresume
      ih =>
    rw [Nat.add_assoc, Nat.add_comm 1, ih, runFrom, hfailed]
    dsimp only
    rw [if_pos hretries, hdelay]
    dsimp only
    rw [if_neg (Nat.not_lt.mpr hpatient), hresume]

lemma Tries.returned {retries : Nat} (h : Tries r split st retries split' st')
    {c : Option SplitCompletion} (hattempt : r.attempt split' st' = (.finished c, st₁))
    (attempts : Nat) : r.run split st (retries + (attempts + 1)) = (.returned (.ok c), st₁) := by
  rw [h.run_eq, runFrom, hattempt]

/-- How the last attempt of a run that returns comes out where only the connection can fail. -/
inductive Ends (r : Runner) (retries : Nat) (split : Split) (st : RunState) :
    Outcome (Option SplitCompletion) → RunState → Prop where
  | finished {c : Option SplitCompletion} {st' : RunState}
      (hattempt : r.attempt split st = (.finished c, st')) : Ends r retries split st (.ok c) st'
  | failed {f : Fault} {st' : RunState} (hattempt : r.attempt split st = (.failed f, st'))
      (hretries : r.retry.retries retries f = false) : Ends r retries split st (.error f) st'

lemma attempted_of_eq {result : Attempt} (h : st.Quiet)
    (heq : r.attempt split st = (result, st')) :
    Attempted r split st result st' := by
  have hattempted := r.attempt_attempted split h
  rwa [heq] at hattempted

lemma Tries.quiet {retries : Nat} (h : Tries r split st retries split' st') (hquiet : st.Quiet) :
    st'.Quiet := by
  induction h with
  | first hresume => exact ((hands_resume _).handed hquiet hresume).1.quiet
  | @again retries split₁ split₂ st₁ st₂ st₃ f delay _ hfailed _ _ _ hresume ih =>
    have hquiet₂ := ((attempted_of_eq ih hfailed).counted ih (by simp)).1
    have hslept : Quiet { st₂.countRetry with sleptMs := st₂.sleptMs + delay.timerMillis } :=
      hquiet₂
    exact ((hands_resume _).handed hslept hresume).1.quiet

/-- Attempts that are made until the run returns come to a last one. -/
lemma Tries.ends {retries : Nat} (h : Tries r split st retries split' st') (hquiet : st.Quiet)
    {attempts : Nat} {result : Outcome (Option SplitCompletion)} {last : RunState}
    (hrun : r.runFrom split' st' retries attempts = (.returned result, last)) :
    ∃ retries' split₁ st₁, Tries r split st retries' split₁ st₁ ∧ retries' < retries + attempts ∧
      Ends r retries' split₁ st₁ result last := by
  induction attempts generalizing retries split' st' with
  | zero => cases hrun
  | succ attempts ih =>
    rw [runFrom] at hrun
    cases hattempt : r.attempt split' st' with
    | mk outcome st₂ =>
      rw [hattempt] at hrun
      cases outcome with
      | idle => cases hrun
      | finished c =>
        dsimp only at hrun
        cases hrun
        exact ⟨retries, split', st', h, by omega, .finished hattempt⟩
      | failed f =>
        dsimp only at hrun
        split at hrun
        · next hretries =>
          split at hrun
          · cases hrun
          · next delay hdelay =>
            split at hrun
            · cases hrun
            · next hpatient =>
              have hquiet₂ := ((attempted_of_eq (h.quiet hquiet) hattempt).counted
                (h.quiet hquiet) (by simp)).1
              have hslept : Quiet
                  { st₂.countRetry with sleptMs := st₂.sleptMs + delay.timerMillis } := hquiet₂
              split at hrun
              · next hresume => exact absurd hresume ((hands_resume split').ne_error hslept _)
              · next split₂ st₃ hresume =>
                have hagain :=
                  Tries.again h hattempt hretries hdelay (Nat.le_of_not_lt hpatient) hresume
                obtain ⟨retries', split₁, st₁, htries, hlt, hends⟩ := ih hagain hrun
                exact ⟨retries', split₁, st₁, htries, by omega, hends⟩
        · next hretries =>
          cases hrun
          exact ⟨retries, split', st', h, by omega, .failed hattempt (by simpa using hretries)⟩

lemma run_ends {attempts : Nat} {result : Outcome (Option SplitCompletion)} {last : RunState}
    (hquiet : st.Quiet) (hrun : r.run split st attempts = (.returned result, last)) :
    ∃ retries split₁ st₁, Tries r split st retries split₁ st₁ ∧ retries < attempts ∧
      Ends r retries split₁ st₁ result last := by
  obtain ⟨split₀, st₀, hresume, -⟩ := hands_resume split st hquiet
  have hfirst : Tries r split st 0 split₀ st₀ := .first hresume
  rw [← Nat.zero_add attempts, hfirst.run_eq] at hrun
  simpa using hfirst.ends hquiet hrun

end Runner
end Changefeed
