import Changefeed.Proofs.Fetch.Configure
import Changefeed.Proofs.Fetch.Driving
import Changefeed.Proofs.Fetch.Results

/-!
# Delivery across attempts

A run of an incremental split delivers what is due in order and once, however often its stream
fails.  One statement is kept from the first attempt to the last: what the sink holds, followed by
what is due after the position of the last checkpoint, is what was due at the start.  A failure
moves nothing, and an attempt that starts at the last checkpoint has to make exactly what is still
due.

When a stream comes to its end there is nothing due any more, and the sink holds everything.
-/

namespace Changefeed

namespace Runner

variable {s : IncrementalSplit} {layout : TableId → Option SchemaRecord} {log : List LogRecord}
  {st : RunState} {p p' : Offset}

/-! ## All attempts -/

lemma Delivered.start_or_visits (h : Delivered s layout log st p) :
    p = s.startingOffset ∨ s.job.Visits log s.startingOffset p := by
  have hlast := h.last
  cases hc : st.saved.getLast? with
  | none => exact .inl (by simpa [hc] using hlast.symm)
  | some c =>
    obtain rfl : c.offset = p := by simpa [hc] using hlast
    exact .inr (h.visited c (List.mem_of_getLast? hc))

lemma closeTask_steady {sh : Shared} (t : Task) (h : Plan.Steady s sh st.shared) :
    Plan.Steady s sh (closeTask t st).shared := by
  rcases t.close_shared st.shared with hclose | hclose
  · rwa [closeTask, hclose]
  · rw [closeTask, hclose]
    exact (Plan.steady_chain s).trans h
      (Plan.keeps_ask s Server.counts_close.keeps st.shared)

lemma Left.closeTask {st st' : RunState} {result : Attempt} (h : Left s layout log st result st')
    (t : Task) : Left s layout log st result (closeTask t st') where
  delivered := by
    obtain ⟨p, hdelivered, hfinished⟩ := h.delivered
    exact ⟨p, hdelivered.share _, hfinished⟩
  saved := h.saved

/-- The setting of a run: a log in order without layout changes of the split's tables, layouts
stored under their own names, and usable settings, with a history of its own for each attempt. -/
structure Setting (r : Runner) (s : IncrementalSplit) (sh : Shared) : Prop where
  config : r.config.fault? = none
  history : r.sharesHistory = false
  ordered : Ordered sh.server.log
  start : s.startingOffset.Normal
  ending : ∀ e ∈ s.endingOffset, e.Normal
  named : sh.server.Named
  stable : s.job.Stable sh.server.log

/-- A session that begins to read a split from where it has been delivered to. -/
lemma driving_begun {r : Runner} {sh : Shared} (hset : Setting r s sh)
    (hdelivered : Delivered s (s.layoutOf sh) sh.server.log st p)
    (hsteady : Plan.Steady s sh st.shared) {plan : Plan} (hmode : plan.mode = .passThrough)
    (hplan : plan.start = p) {stream : LogStream} (hproducer : plan.producer = .stream s.job stream)
    (hrecords : stream.records = recordsAfter sh.server.log p)
    (hreads : StreamJob.Reads st.shared.history (s.layoutOf sh)) :
    ∃ o, Stretch s (s.layoutOf sh) sh.server.log st.shared.history p o ∧
      Driving s (s.layoutOf sh) sh.server.log o p
        (plan.begun r.config (.incremental (s.startingAt p))) st p [] ∧
      ∀ sh', sh'.source = o.source → Plan.Steady s sh sh' := by
  obtain ⟨hfollows, hserver, hbackend⟩ :=
    Producer.output_stream_follows s.job stream st.shared
  rw [hrecords] at hfollows
  refine ⟨(Producer.stream s.job stream).output st.shared,
    ⟨hreads, hset.ordered, hset.stable, hset.start, hset.ending, hdelivered.start_or_visits,
      hfollows⟩,
    ⟨⟨rfl, hmode, rfl, fun _ => rfl⟩, rfl, ⟨rfl, .inr ⟨rfl, rfl⟩⟩, hplan, rfl, ?_, hdelivered⟩,
    fun sh' hsource => ?_⟩
  · rw [Output.after_nil, Plan.begun_output, hproducer]
  · have hserver' : sh'.server = _ := (congrArg Shared.server hsource).trans hserver
    have hbackend' : sh'.backend = _ := (congrArg Shared.backend hsource).trans hbackend
    exact hsteady.congr hserver' hbackend'

/-- An attempt from the last checkpoint on. -/
lemma AttemptCourse.left {r : Runner} {sh : Shared} {result : Attempt} {st' : RunState}
    (hcourse : AttemptCourse r (.incremental (s.startingAt p)) st result st')
    (hset : Setting r s sh) (hdelivered : Delivered s (s.layoutOf sh) sh.server.log st p)
    (hsteady : Plan.Steady s sh st.shared) :
    Left s (s.layoutOf sh) sh.server.log st result st' ∧
      ∀ f, result = .failed f → Plan.Steady s sh st'.shared := by
  have hquiet := (Script.make_quiet hdelivered.quiet .create).2
  generalize hscript : (st.script.make .create).2 = script at hquiet
  have hcall : RunState.call .create (fun st => ((), st)) st = (.ok (), { st with script }) := by
    rw [RunState.call_quiet hdelivered.quiet, hscript]
  -- The layouts are looked up with an empty history, on the server as the last attempt left it.
  let shared : Shared := { st.shared with
    history := .empty, metrics := st.shared.metrics.recordSplitStarted }
  have hfound : r.found { st with script } = shared := found_eq hset.history _
  have hshared : Plan.Steady s sh shared := hsteady.congr rfl rfl
  have hnamed : shared.server.Named := fun t r hr =>
    hset.named t r (hsteady.server.schemas ▸ hr)
  obtain ⟨hplanned, hconfigured⟩ := Plan.incremental_configured (s.startingAt p) hnamed
  have hplan : Plan.Steady s sh (Plan.incremental (s.startingAt p) shared).2 :=
    (Plan.steady_chain s).trans hshared hplanned.of_startingAt
  have hquieted : ∀ sh', Delivered s (s.layoutOf sh) sh.server.log
      { st with script, shared := sh' } p := fun sh' =>
    ⟨hquiet, hdelivered.events, hdelivered.last, hdelivered.ascending, hdelivered.visited,
      hdelivered.stored, hdelivered.tables⟩
  have hread : ∀ {plan sh₁ result s' st₂},
      Plan.make r.config (.incremental (s.startingAt p)) shared = (.ok plan, sh₁) →
      ReadCourse r (.incremental (s.startingAt p))
        (plan.begun r.config (.incremental (s.startingAt p))) plan.start
        { st with script, shared := sh₁ } result s' st₂ →
      Left s (s.layoutOf sh) sh.server.log st result st₂ ∧
        ∀ f, result = .failed f → Plan.Steady s sh st₂.shared := by
    intro plan sh₁ result s' st₂ hmake hcourse
    have hincremental : Plan.incremental (s.startingAt p) shared = (.ok plan, sh₁) := hmake
    rw [hincremental] at hplan hconfigured
    have hsplit := hconfigured plan rfl
    obtain ⟨stream, hproducer, hrecords⟩ := hsplit.producer
    have hlog : stream.records = recordsAfter sh.server.log p := by
      rw [hrecords, ← hshared.server.log]
      rfl
    obtain ⟨o, hstretch, hdriving, hafter⟩ := driving_begun hset (hquieted sh₁) hplan hsplit.mode
      hsplit.start hproducer hlog (hshared.reads hset.named (hsplit.reads rfl))
    rw [hsplit.start] at hcourse
    obtain ⟨hleft, hsource⟩ := hcourse.left hstretch hdriving
    exact ⟨⟨hleft.delivered, hleft.saved⟩, fun f hf => hafter _ (hsource f hf)⟩
  cases hcourse with
  | uncreated hcreate => cases hcall.symm.trans hcreate
  | refused hcreate hmake =>
    cases hcall.symm.trans hcreate
    rw [hfound] at hmake
    have hincremental : Plan.incremental (s.startingAt p) shared = _ := hmake
    rw [hincremental] at hplan
    refine ⟨⟨⟨p, (hquieted _).share _, by simp⟩, List.prefix_rfl⟩, fun _ _ => ?_⟩
    exact closeTask_steady _ (hplan.congr rfl rfl)
  | reading hcreate hmake hcourse =>
    cases hcall.symm.trans hcreate
    rw [hfound] at hmake
    exact hread hmake hcourse
  | read hcreate hmake hcourse =>
    cases hcall.symm.trans hcreate
    rw [hfound] at hmake
    obtain ⟨hleft, hfailed⟩ := hread hmake hcourse
    exact ⟨hleft.closeTask _, fun f hf => closeTask_steady _ (hfailed f hf)⟩

/-- What a run leaves behind: events up to a position, and when it has come to an end there is
nothing due any more. -/
def Finished (s : IncrementalSplit) (layout : TableId → Option SchemaRecord)
    (log : List LogRecord) (result : Result) (st : RunState) : Prop :=
  ∃ p, Delivered s layout log st p ∧
    ∀ c, result = .returned (.ok c) → s.job.due layout (recordsAfter log p) = []

/-- A split that was delivered up to a checkpoint is resumed behind it. -/
lemma Delivered.resume (h : Delivered s layout log st p) {start : Offset}
    (hstart : st.saved = [] → start = p) :
    ∃ st', resume (.incremental (s.startingAt start)) st =
        (.ok (.incremental (s.startingAt p)), st') ∧
      Delivered s layout log st' p ∧ st'.saved = st.saved ∧ st'.shared = st.shared := by
  have hquiet := (Script.make_quiet h.quiet .load).2
  generalize hscript : (st.script.make .load).2 = script at hquiet
  have hload : RunState.load s.splitId st = (.ok st.saved.getLast?, { st with script }) := by
    rw [RunState.load, RunState.call_quiet h.quiet, hscript, ← h.stored]
  refine ⟨{ st with script }, ?_, ⟨hquiet, h.events, h.last, h.ascending, h.visited, h.stored,
    h.tables⟩, rfl, rfl⟩
  have hlast := h.last
  unfold Runner.resume
  dsimp only
  rw [show (s.startingAt start).splitId = s.splitId from rfl, hload]
  cases hc : st.saved.getLast? with
  | none =>
    rw [hstart (List.getLast?_eq_none_iff.mp hc)]
  | some c =>
    obtain rfl : c.offset = p := by simpa [hc] using hlast
    have htables := h.tables c (List.mem_of_getLast? hc)
    dsimp only
    rw [Checkpoint.applyTo, htables]
    rfl

lemma Delivered.slept (h : Delivered s layout log st p) (ms : Nat) :
    Delivered s layout log { st.countRetry with sleptMs := st.sleptMs + ms } p :=
  ⟨h.quiet, h.events, h.last, h.ascending, h.visited, h.stored, h.tables⟩

lemma Delivered.at_start (h : Delivered s layout log st p) (hsaved : st.saved = []) :
    s.startingOffset = p := by
  have hlast := h.last
  rwa [hsaved] at hlast

lemma Delivered.stays (h : Delivered s layout log st p) {st' : RunState}
    (h' : Delivered s layout log st' p') (hsaved : st.saved <+: st'.saved)
    (hnone : st'.saved = []) : p = p' :=
  (h.at_start (List.prefix_nil.mp (hnone ▸ hsaved))).symm.trans (h'.at_start hnone)

/-- A run from the last checkpoint on. -/
lemma RetryCourse.left {r : Runner} {sh : Shared} {split : Split} {retries : Nat} {result : Result}
    {st' : RunState} (hcourse : RetryCourse r split retries st result st') (hset : Setting r s sh)
    {p : Offset} (hsplit : split = .incremental (s.startingAt p))
    (hdelivered : Delivered s (s.layoutOf sh) sh.server.log st p)
    (hsteady : Plan.Steady s sh st.shared) :
    Finished s (s.layoutOf sh) sh.server.log result st' := by
  induction hcourse generalizing p with
  | running => exact ⟨p, hdelivered, by simp⟩
  | reading hattempt =>
    subst hsplit
    obtain ⟨⟨⟨p₁, hdelivered₁, -⟩, -⟩, -⟩ := hattempt.left hset hdelivered hsteady
    exact ⟨p₁, hdelivered₁, by simp⟩
  | finished hattempt =>
    subst hsplit
    obtain ⟨⟨⟨p₁, hdelivered₁, hfinished⟩, -⟩, -⟩ := hattempt.left hset hdelivered hsteady
    exact ⟨p₁, hdelivered₁, fun _ _ => hfinished _ rfl⟩
  | failed hattempt =>
    subst hsplit
    obtain ⟨⟨⟨p₁, hdelivered₁, -⟩, -⟩, -⟩ := hattempt.left hset hdelivered hsteady
    exact ⟨p₁, hdelivered₁, by simp⟩
  | overlong hattempt =>
    subst hsplit
    obtain ⟨⟨⟨p₁, hdelivered₁, -⟩, -⟩, -⟩ := hattempt.left hset hdelivered hsteady
    exact ⟨p₁, hdelivered₁, by simp⟩
  | waiting hattempt =>
    subst hsplit
    obtain ⟨⟨⟨p₁, hdelivered₁, -⟩, -⟩, -⟩ := hattempt.left hset hdelivered hsteady
    exact ⟨p₁, hdelivered₁.share _, by simp⟩
  | unresumed hattempt hretries hdelay hresume =>
    subst hsplit
    obtain ⟨⟨⟨p₁, hdelivered₁, -⟩, hsaved⟩, -⟩ := hattempt.left hset hdelivered hsteady
    obtain ⟨st₂, hresume₂, -⟩ :=
      (hdelivered₁.slept _).resume fun hnone => hdelivered.stays hdelivered₁ hsaved hnone
    cases hresume.symm.trans hresume₂
  | again hattempt hretries hdelay hresume _ ih =>
    subst hsplit
    obtain ⟨⟨⟨p₁, hdelivered₁, -⟩, hsaved⟩, hfailed⟩ := hattempt.left hset hdelivered hsteady
    obtain ⟨st₂, hresume₂, hdelivered₂, -, hshared₂⟩ :=
      (hdelivered₁.slept _).resume fun hnone => hdelivered.stays hdelivered₁ hsaved hnone
    cases hresume.symm.trans hresume₂
    refine ih rfl hdelivered₂ ?_
    rw [hshared₂]
    exact (hfailed _ rfl).congr rfl rfl

/-- What a run of an incremental split has delivered exactly once: the sink holds an initial part of
the events that were due, and all of them when the run has come to its end; the positions of the
checkpoints ascend, and each of them is the position of a record of the split; and what the sink
holds is what was due up to the last of them. -/
structure DeliveredOnce (s : IncrementalSplit) (sh : Shared) (result : Result) (st : RunState) :
    Prop where
  part : st.sink.events <+: s.job.due (s.layoutOf sh) (recordsAfter sh.server.log s.startingOffset)
  whole : ∀ c, result = .returned (.ok c) →
    st.sink.events = s.job.due (s.layoutOf sh) (recordsAfter sh.server.log s.startingOffset)
  ascending : (st.saved.map Checkpoint.offset).Pairwise (fun a b => a.before b = true)
  visited : ∀ c ∈ st.saved, s.job.Visits sh.server.log s.startingOffset c.offset
  upTo : ∀ c, st.saved.getLast? = some c →
    st.sink.events ++ s.job.due (s.layoutOf sh) (recordsAfter sh.server.log c.offset) =
      s.job.due (s.layoutOf sh) (recordsAfter sh.server.log s.startingOffset)

/-- Whatever course a run of an incremental split takes, it delivers what is due exactly once. -/
lemma RunCourse.delivers_once {r : Runner} {sh : Shared} {result : Result} {st' : RunState}
    (hcourse : RunCourse r (.incremental s) { shared := sh } result st') (hset : Setting r s sh) :
    DeliveredOnce s sh result st' := by
  have hdelivered := delivered_start s (s.layoutOf sh) sh.server.log sh
  have hsteady : Plan.Steady s sh sh := (Plan.steady_chain s).refl sh
  obtain ⟨st₁, hresume₁, hdelivered₁, -, hshared₁⟩ := hdelivered.resume (fun _ => rfl)
  obtain ⟨p, hfinal, hfinished⟩ : Finished s (s.layoutOf sh) sh.server.log result st' := by
    cases hcourse with
    | unresumed hresume => cases hresume.symm.trans hresume₁
    | resumed hresume hrest =>
      cases hresume.symm.trans hresume₁
      exact hrest.left hset rfl hdelivered₁ (hshared₁ ▸ hsteady)
  refine ⟨⟨_, hfinal.events⟩, fun c hc => ?_, hfinal.ascending, hfinal.visited, fun c hc => ?_⟩
  · have hevents := hfinal.events
    rwa [hfinished c hc, List.append_nil] at hevents
  · obtain rfl : c.offset = p := by
      have hlast := hfinal.last
      simpa [hc] using hlast
    exact hfinal.events

/-- A run of an incremental split delivers what is due exactly once.  Whatever it comes to, the sink
holds an initial part of the events that were due; it holds all of them when the run has come to its
end; the positions of the checkpoints ascend, and each of them is the position of a record of the
split; and what the sink holds is what was due up to the last of them. -/
theorem run_delivers_once {r : Runner} {sh : Shared} (hset : Setting r s sh)
    (attempts : Nat) :
    let due := s.job.due (s.layoutOf sh) (recordsAfter sh.server.log s.startingOffset)
    let ran := r.run (.incremental s) { shared := sh } attempts
    ran.2.sink.events <+: due ∧
      (∀ c, ran.1 = .returned (.ok c) → ran.2.sink.events = due) ∧
      (ran.2.saved.map Checkpoint.offset).Pairwise (fun a b => a.before b = true) ∧
      (∀ c ∈ ran.2.saved, s.job.Visits sh.server.log s.startingOffset c.offset) ∧
      ∀ c, ran.2.saved.getLast? = some c →
        ran.2.sink.events ++ s.job.due (s.layoutOf sh) (recordsAfter sh.server.log c.offset) =
          due := by
  intro due ran
  obtain ⟨hpart, hwhole, hascending, hvisited, hupTo⟩ :=
    (r.run_course (.incremental s) { shared := sh } attempts).delivers_once hset
  exact ⟨hpart, hwhole, hascending, hvisited, hupTo⟩

/-- A log of two orders, whose first stream drops after one record. -/
def ordersServer : Server :=
  { schemas := [(⟨"shop", "orders"⟩, .make ⟨"shop", "orders"⟩
      [{ name := "id", typeName := "int", position := 1, primaryKey := true }] (.binlog "log.1" 4))]
    log := [.change (.insert (.binlog "log.1" 10) ⟨"shop", "orders"⟩ [.number (.int 1)]),
      .change (.insert (.binlog "log.1" 20) ⟨"shop", "orders"⟩ [.number (.int 2)])]
    retained := { logFiles := ["log.1"] }
    drops := (1, 1) }

/-- The orders of the log. -/
def ordersSplit : IncrementalSplit :=
  { splitIndex := 0
    tableIds := [⟨"shop", "orders"⟩]
    startingOffset := .binlog "log.1" 4
    endingOffset := some (.binlog "log.1" 20) }

/-- A run with the usual settings. -/
def ordersRunner : Runner := { config := {}, stamp := ⟨⟨2024, 1, 1⟩, 0, 0, 0⟩ }

lemma setting_orders : Setting ordersRunner ordersSplit { server := ordersServer } where
  config := by decide +kernel
  history := rfl
  ordered :=
    { normal := fun r hr => by
        rcases List.mem_pair.mp hr with rfl | rfl <;> trivial
      ascending := by decide }
  start := trivial
  ending e he := Option.some.inj he ▸ trivial
  named t r hr := by
    simp only [ordersServer, SortedMap.find?] at hr
    split at hr
    · cases hr
    · next h =>
      rw [← Option.some.inj hr, Std.LawfulEqOrd.eq_of_compare h]
      rfl
    · cases hr
  stable s hs := by simp [ordersServer] at hs

/-- An event of the orders has been delivered when the first of them has. -/
lemma Delivered.behind_first
    (h : Delivered ordersSplit (ordersSplit.layoutOf { server := ordersServer }) ordersServer.log
      st p) (hone : st.sink.events.length = 1) : p = .binlog "log.1" 10 := by
  have hlength := congrArg List.length h.events
  rw [List.length_append, hone] at hlength
  rcases h.start_or_visits with rfl | hvisits
  · exact absurd hlength (by decide +kernel)
  · obtain ⟨rec, hrec, rfl⟩ := hvisits.record
    rcases List.mem_pair.mp hrec with rfl | rfl
    · rfl
    · exact absurd hlength (by decide +kernel)

/-- The server of the orders when their first stream has dropped and its connection is closed. -/
def ordersDropped : Server :=
  (Server.close (Plan.make ordersRunner.config (.incremental ordersSplit)
    { server := ordersServer }).2.server).2

/-- The first attempt at the orders delivers one of them and fails. -/
lemma attempt_orders (hquiet : st.Quiet) (hslept : st.sleptMs = 0)
    (hshared : st.shared = { server := ordersServer }) :
    ∃ e st₁, ordersRunner.attempt (.incremental ordersSplit) st =
        (.failed .connectionClosed, st₁) ∧
      st₁.sink.events = st.sink.events ++ [e] ∧ st₁.sleptMs = 0 ∧
      st₁.shared.server = ordersDropped ∧ st₁.shared.backend = none := by
  obtain ⟨plan, sh, hplan, hmode, e, next, sh₁, hpush, sh₂, hdrop, hserver, hbackend⟩ :
      ∃ plan sh, Plan.make ordersRunner.config (.incremental ordersSplit) (ordersRunner.found st) =
          (.ok plan, sh) ∧
        plan.mode = .passThrough ∧
        ∃ e next sh₁, plan.producer.step sh = (.ok (.push (.change e) next), sh₁) ∧
          ∃ sh₂, next.step sh₁ = (.error .connectionClosed, sh₂) ∧
            (Server.close sh₂.server).2 = ordersDropped ∧ sh₂.backend = none := by
    rw [found_eq rfl, hshared]
    exact ⟨_, _, rfl, rfl, _, _, _, rfl, _, rfl, rfl, rfl⟩
  have hout : plan.producer.output sh = ⟨[.change e], .fails .connectionClosed, sh₂.source⟩ := by
    rw [Producer.output_push hpush, Producer.output_fails hdrop]
    rfl
  have hpatient : st.sleptMs < ordersRunner.patienceMs := by
    rw [hslept]
    decide
  obtain ⟨st₁, hfailed, -, hevents, hslept₁, hserver₁, -, hbackend₁⟩ :=
    attempt_failed hquiet setting_orders.config hpatient hplan hout rfl
      (by rw [hmode]; exact ReadMode.takeAll_passThrough _)
  exact ⟨e, st₁, hfailed, hevents, hslept₁.trans hslept, hserver₁.trans hserver,
    hbackend₁.trans hbackend⟩

/-- An attempt at what is left of the orders finishes. -/
lemma attempt_orders_rest (hquiet : st.Quiet) (hpatient : st.sleptMs < ordersRunner.patienceMs)
    (hserver : st.shared.server = ordersDropped) (hbackend : st.shared.backend = none) :
    ∃ c st₁, ordersRunner.attempt (.incremental (ordersSplit.startingAt (.binlog "log.1" 10))) st =
      (.finished (some c), st₁) := by
  obtain ⟨m, hfound⟩ := found_unshared (r := ordersRunner) rfl hserver hbackend
  obtain ⟨plan, sh, hplan, hmode, e, sh₁, hpush⟩ :
      ∃ plan sh, Plan.make ordersRunner.config
          (.incremental (ordersSplit.startingAt (.binlog "log.1" 10))) (ordersRunner.found st) =
          (.ok plan, sh) ∧
        plan.mode = .passThrough ∧
        ∃ e sh₁, plan.producer.step sh = (.ok (.push (.change e) .done), sh₁) := by
    rw [hfound]
    exact ⟨_, _, rfl, rfl, _, _, rfl⟩
  have hout : plan.producer.output sh = ⟨[.change e], .ends, sh₁.source⟩ := by
    rw [Producer.output_push hpush, Producer.output_ends rfl]
    rfl
  exact attempt_finished hquiet setting_orders.config hpatient hplan hout rfl
    (by rw [hmode]; exact ReadMode.takeAll_passThrough _)

lemma delay_orders :
    ∃ d, ordersRunner.retry.delay 0 = some d ∧ d.timerMillis < ordersRunner.patienceMs :=
  ⟨_, rfl, by decide⟩

/-- The run of the orders fails once, behind the first of them, and finishes from there. -/
lemma tries_orders :
    let split := Split.incremental ordersSplit
    let rest := Split.incremental (ordersSplit.startingAt (.binlog "log.1" 10))
    ∃ c st₁ st₂, Tries ordersRunner split { shared := { server := ordersServer } } 1 rest st₁ ∧
      ordersRunner.attempt rest st₁ = (.finished (some c), st₂) := by
  intro split rest
  have hdelivered := delivered_start ordersSplit (ordersSplit.layoutOf { server := ordersServer })
    ordersServer.log { server := ordersServer }
  obtain ⟨st, hresume, hdelivered₁, -, hshared⟩ := hdelivered.resume fun _ => rfl
  obtain ⟨hsink, hslept⟩ : st.sink = {} ∧ st.sleptMs = 0 := by
    cases hresume
    exact ⟨rfl, rfl⟩
  obtain ⟨e, st₁, hfailed, hevents₁, hslept₁, hserver₁, hbackend₁⟩ :=
    attempt_orders hdelivered₁.quiet hslept hshared
  -- One event in the sink tells that the checkpoint is the one behind the first order.
  have hcourse := ordersRunner.attempt_course split st
  rw [hfailed] at hcourse
  obtain ⟨⟨⟨p, hdelivered₂, -⟩, hsaved⟩, -⟩ := AttemptCourse.left hcourse setting_orders hdelivered₁
    (hshared ▸ (Plan.steady_chain ordersSplit).refl _)
  have hone : st₁.sink.events.length = 1 := by
    rw [hevents₁, hsink]
    rfl
  obtain rfl : p = .binlog "log.1" 10 := hdelivered₂.behind_first hone
  obtain ⟨delay, hdelay, hshort⟩ := delay_orders
  have hslept₂ : st₁.sleptMs + delay.timerMillis < ordersRunner.patienceMs := by
    rw [hslept₁, Nat.zero_add]
    exact hshort
  obtain ⟨st₂, hresume₂, hdelivered₃, -, hshared₂⟩ :=
    (hdelivered₂.slept delay.timerMillis).resume fun hnone =>
      show ordersSplit.startingOffset = _ from hdelivered₁.stays hdelivered₂ hsaved hnone
  have hpatient : st₂.sleptMs < ordersRunner.patienceMs := by
    rw [((hands_resume split).handed (hdelivered₂.slept _).quiet hresume₂).1.slept]
    exact hslept₂
  obtain ⟨c, st₃, hfinished⟩ := attempt_orders_rest hdelivered₃.quiet hpatient
    ((congrArg Shared.server hshared₂).trans hserver₁)
    ((congrArg Shared.backend hshared₂).trans hbackend₁)
  exact ⟨c, st₂, st₃, .again (.first hresume) hfailed (by decide +kernel) hdelay
    (Nat.le_of_lt hslept₂) hresume₂, hfinished⟩

/-- The two orders are delivered once, although the first stream drops. -/
theorem run_delivers_once_orders :
    let due := ordersSplit.job.due (ordersSplit.layoutOf { server := ordersServer })
      (recordsAfter ordersServer.log ordersSplit.startingOffset)
    let ran :=
      ordersRunner.run (.incremental ordersSplit) { shared := { server := ordersServer } } 3
    Setting ordersRunner ordersSplit { server := ordersServer } ∧
      due.map ChangeEvent.position = [.binlog "log.1" 10, .binlog "log.1" 20] ∧
      (∃ c, ran.1 = .returned (.ok (some c))) ∧ ran.2.sink.events = due := by
  intro due ran
  obtain ⟨c, st₁, st₂, htries, hfinished⟩ := tries_orders
  have hran : ran = (.returned (.ok (some c)), st₂) := htries.returned hfinished 1
  have hreturned : ran.1 = .returned (.ok (some c)) := congrArg Prod.fst hran
  have hdelivers := run_delivers_once setting_orders 3
  exact ⟨setting_orders, by decide +kernel, ⟨c, hreturned⟩, hdelivers.2.1 (some c) hreturned⟩

end Runner
end Changefeed
