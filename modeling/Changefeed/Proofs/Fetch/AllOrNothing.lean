import Changefeed.Proofs.Fetch.Delivery
import Changefeed.Proofs.Fetch.FinalRows

/-!
# All or nothing

A snapshot split that is delivered exactly once reaches the sink as a whole or not at all.  Its
changes are held until the watermark.  What comes before the watermark may fail, and then nothing
has been delivered yet; behind it the producer only comes to its end, so nothing fails any more.

A run therefore finds an empty sink whenever it begins an attempt, and the rows in the sink at the
end are those of the last attempt alone.
-/

namespace Changefeed

/-! ## Events of changes that are held -/

lemma lastMark_eq_none {rs : List QueueRecord} (h : ∀ r ∈ rs, r.mark? = none) :
    lastMark rs = none := by
  rw [lastMark, List.getLast?_eq_none_iff]
  exact List.filterMap_eq_nil_iff.mpr h

namespace ReadMode

variable {n : Normalizer} {mode : ReadMode} {rs : List QueueRecord} {es out : List ChangeEvent}
  {w : Offset}

/-- While changes are held, no event has come of them. -/
lemma takeAll_held (h : (normalize n).takeAll rs = .ok (out, mode))
    (hmode : mode.isPassThrough = false) : out = [] := by
  induction rs generalizing n out with
  | nil => exact (Prod.mk.inj (Except.ok.inj h)).1.symm
  | cons r rs ih =>
    rw [takeAll] at h
    split at h
    · cases h
    · next es₁ mode₁ htake =>
      split at h
      · cases h
      · next es₂ mode₂ hrest =>
        obtain ⟨rfl, rfl⟩ := Prod.mk.inj (Except.ok.inj h)
        cases hmark : r.mark? with
        | none =>
          obtain ⟨rfl, n', rfl⟩ := take_unmarked hmark htake
          exact ih hrest
        | some w =>
          obtain rfl : r = .watermark w := by
            cases r with
            | watermark position => exact congrArg _ (Option.some.inj hmark)
            | change e => cases hmark
            | heartbeat position => cases hmark
          obtain ⟨-, rfl⟩ := Prod.mk.inj (Except.ok.inj htake)
          rw [takeAll_passThrough] at hrest
          obtain ⟨-, rfl⟩ := Prod.mk.inj (Except.ok.inj hrest)
          cases hmode

/-- The watermark behind some changes turns them into rows. -/
lemma takeAll_changes
    (h : (normalize n).takeAll (es.map .change ++ [.watermark w]) = .ok (out, mode)) :
    ∃ n', n.applyAll es = .ok n' ∧ out = n'.finish w := by
  induction es generalizing n out with
  | nil =>
    obtain ⟨rfl, -⟩ := Prod.mk.inj (Except.ok.inj h)
    exact ⟨n, rfl, List.append_nil _⟩
  | cons e es ih =>
    rw [List.map_cons, List.cons_append, takeAll, take] at h
    rw [Normalizer.applyAll]
    cases happly : n.apply e with
    | error f =>
      rw [happly] at h
      cases h
    | ok n₁ =>
      rw [happly] at h
      dsimp only [Except.map] at h
      split at h
      · cases h
      · next out₁ mode₁ hrest =>
        obtain ⟨rfl, rfl⟩ := Prod.mk.inj (Except.ok.inj h)
        exact ih hrest

end ReadMode

/-! ## Sessions that hold changes -/

namespace Session

variable {n : Normalizer} {mode : ReadMode} {o : Output} {size : Nat} {given : List ChangeEvent}
  {s s' : Session} {sh sh' : Shared}

/-- A batch keeps to its size. -/
lemma Going.short (h : Going mode o size given s sh) {es : List ChangeEvent}
    (hbatch : s.nextBatch sh = (.events es, s', sh')) : es.length ≤ max size 1 := by
  obtain ⟨s₁, sh₁, hgoing, -, hturned⟩ := h.next
  rw [hbatch] at hturned
  rw [← hgoing.sized]
  cases hturned with
  | ready _ _ hsize => exact hsize
  | passed _ _ _ _ habsorb =>
    have hmarked := hgoing.following.batch_markedLast hgoing.reads.markedLast
    obtain ⟨rows, hrows⟩ := hgoing.reads.sound.absorbs hgoing.ongoing hmarked habsorb
    rw [← hgoing.reads.sound.sized]
    exact hrows.short.trans s₁.queue.length_batch_le
  | taken _ _ _ _ _ hb =>
    rcases hb with hb | ⟨hb, -⟩
    · cases hb
    · cases hb
      exact Nat.zero_le _

lemma Going.marked (h : Going (.normalize n) o size given s sh) (hgiven : given ≠ []) :
    s.reader.watermark.isSome = true := by
  obtain ⟨-, taken, -, htaken, hmark⟩ := h.following
  rw [hmark]
  cases hlast : lastMark taken with
  | some w => rfl
  | none =>
    have hnothing := ReadMode.takeAll_unmarked hlast htaken
    exact absurd (List.append_eq_nil_iff.mp hnothing).1 hgiven

/-- Where a producer has failed, nothing has been given out. -/
lemma Going.nothing_of_error (h : Going (.normalize n) o size given s sh)
    (ho : Producer.Backfilled o) (hpending : s.reader.pending = []) (hbuffer : s.queue.buffer = [])
    {f : Fault} (herror : s.queue.error = some f) : given = [] := by
  have hfollowing := h.following
  obtain ⟨hfails, -, htaken, -⟩ :=
    hfollowing.exhausted hpending (hfollowing.linked.output_of_error hbuffer herror sh)
  cases ho with
  | whole => cases hfails
  | part es hes hnot =>
    have hunmarked : lastMark (es.map QueueRecord.change) = none := lastMark_eq_none fun r hr => by
      obtain ⟨e, -, rfl⟩ := List.mem_map.mp hr
      rfl
    exact ReadMode.takeAll_unmarked hunmarked htaken

/-- Where a session fails, nothing has been given out. -/
lemma Going.nothing (h : Going (.normalize n) o size given s sh) (ho : Producer.Backfilled o)
    {f : Fault} (hbatch : s.nextBatch sh = (.failed f, s', sh')) : given = [] := by
  obtain ⟨s₁, sh₁, hgoing, -, hturned⟩ := h.next
  rw [hbatch] at hturned
  have hheld : s₁.reader.mode.isPassThrough = false → given = [] := fun hmode => by
    obtain ⟨-, taken, -, htaken, -⟩ := hgoing.following
    exact (List.append_eq_nil_iff.mp (ReadMode.takeAll_held htaken hmode)).1
  cases hturned with
  | broken hpending _ _ hbuffer herror => exact hgoing.nothing_of_error ho hpending hbuffer herror
  | unmarked _ _ _ _ _ _ hmode => exact hheld hmode
  | refused _ hdone _ habsorb =>
    refine hheld (Bool.eq_false_iff.mpr fun hmode => ?_)
    obtain ⟨m, hpass⟩ := Reader.absorbAll_passing (hgoing.reads.sound.passing hdone hmode)
      sh₁.metrics s₁.queue.batch
    rw [hpass] at habsorb
    cases congrArg Prod.fst habsorb
  | taken _ _ _ _ _ hb => rcases hb with hb | ⟨hb, -⟩ <;> cases hb

/-- Where a session ends, the rows that its changes leave have been given out. -/
lemma Going.rows {column : String}
    (h : Going (.normalize { keyColumn := column }) o size given s sh)
    (ho : Producer.Backfilled o) (hbatch : s.nextBatch sh = (.ended, s', sh')) :
    ∃ c w changes source, s'.reader.completion = some c ∧ c.finalOffset = some w ∧
      o = ⟨changes.map .change ++ [.watermark w], .ends, source⟩ ∧
      given = Normalizer.finalRows column changes w ∧
      given.Pairwise fun e e' => e.keyText? column ≠ e'.keyText? column := by
  obtain ⟨c, hc, hwhole⟩ := h.ended hbatch
  cases ho with
  | part _ _ hnot => exact absurd hwhole.ends hnot
  | @whole es w source hes =>
    obtain ⟨n', happly, hgiven⟩ := ReadMode.takeAll_changes hwhole.events
    obtain ⟨hrows, hfiles, hcolumn⟩ := Normalizer.finish_applyAll happly w
    have hmark : lastMark (es.map QueueRecord.change ++ [.watermark w]) = some w := by
      rw [lastMark_append]
      rfl
    refine ⟨c, w, es, source, hc, hwhole.marked w hmark, rfl, hgiven.trans hrows, ?_⟩
    subst hcolumn
    rw [hgiven]
    exact hfiles.once hes w

end Session

/-- What a snapshot split is planned to be read with when it is delivered exactly once. -/
lemma Plan.snapshot_planned {config : FetchConfig} {s : SnapshotSplit} {sh sh' : Shared}
    {plan : Plan} (hexact : config.exactlyOnce = true)
    (h : Plan.make config (.snapshot s) sh = (.ok plan, sh')) :
    plan.mode = .normalize { keyColumn := s.keyColumn } ∧ plan.producer.Unmarked := by
  obtain ⟨schema, sh₁, -, h⟩ := Act.bind_eq_ok h
  obtain ⟨_, sh₂, -, h⟩ := Act.bind_eq_ok h
  obtain ⟨batch, sh₃, -, h⟩ := Act.bind_eq_ok h
  obtain ⟨_, sh₄, -, h⟩ := Act.bind_eq_ok h
  obtain ⟨_, sh₅, -, h⟩ := Act.bind_eq_ok h
  obtain ⟨_, sh₆, -, h⟩ := Act.bind_eq_ok h
  obtain ⟨rfl, -⟩ := Act.pure_eq_ok h
  exact ⟨if_pos hexact, trivial⟩

namespace Runner

open RunState

variable {r : Runner} {s : SnapshotSplit} {split split' : Split} {st st' st₁ : RunState}

/-! ## One attempt -/

/-- An attempt that has begun to read by its plan has come to a session and a state between two
batches. -/
structure Arrives (r : Runner) (split : Split) (st : RunState) (plan : Plan) (begun : RunState)
    (session : Session) (st' : RunState) : Prop where
  begins : Begins r split st plan begun
  drives : ∃ last, Drives r split (plan.begun r.config split) plan.start begun session last st'

/-- What is in the sink between two batches has been given out by the session. -/
lemma Arrives.going {plan : Plan} {begun : RunState} {session : Session}
    (h : Arrives r (.snapshot s) st plan begun session st') (hexact : r.config.exactlyOnce = true)
    (hquiet : st.Quiet) (hempty : st.sink.events = []) :
    session.Going (.normalize { keyColumn := s.keyColumn }) (plan.producer.output begun.shared)
        r.config.maxBatchSize st'.sink.events st'.shared ∧
      Producer.Backfilled (plan.producer.output begun.shared) ∧ st'.Quiet := by
  obtain ⟨hbegins, last, hdrives⟩ := h
  obtain ⟨hquiet₁, -, hsink, -⟩ := hbegins.begun hquiet
  obtain ⟨hmode, hunmarked⟩ : plan.mode = .normalize { keyColumn := s.keyColumn } ∧
      plan.producer.Unmarked := by
    obtain ⟨-, hplan, -⟩ := hbegins
    exact Plan.snapshot_planned hexact hplan
  obtain ⟨es, hgoing, hhanded⟩ := hdrives.going (Plan.begun_going _ _ _ _) hquiet₁
  have hevents : st'.sink.events = es := by rw [hhanded.events, hsink, hempty, List.nil_append]
  rw [hevents, ← hmode]
  exact ⟨hgoing, Producer.output_backfilled _ _ hunmarked, hhanded.quiet⟩

/-- An attempt that fails has delivered nothing. -/
lemma Attempted.nothing {f : Fault} (h : Attempted r (.snapshot s) st (.failed f) st')
    (hexact : r.config.exactlyOnce = true) (hquiet : st.Quiet) (hempty : st.sink.events = []) :
    st'.sink.events = [] := by
  cases h with
  | refused hcreate hplan =>
    obtain ⟨st₁, hst₁, -, -, hsink, -⟩ := create_quiet hquiet
    obtain rfl := congrArg Prod.snd (hst₁.symm.trans hcreate)
    exact (congrArg Sink.events hsink).trans hempty
  | read hbegins hdrives hstops =>
    obtain ⟨hgoing, hbackfilled, hquiet₂⟩ :=
      Arrives.going ⟨hbegins, _, hdrives⟩ hexact hquiet hempty
    have hevents := (hstops.counted hgoing hquiet₂).2.2.1
    cases hstops with
    | failed hbatch => exact hevents.trans (hgoing.nothing hbackfilled hbatch)

/-- An attempt has read changes with a watermark behind them, and has delivered the rows that the
changes leave: each once, as of the watermark that it reports. -/
structure Backfills (r : Runner) (s : SnapshotSplit) (st : RunState) (c : Option SplitCompletion)
    (st' : RunState) (changes : List ChangeEvent) (w : Offset) : Prop where
  read : ∃ plan begun source, Begins r (.snapshot s) st plan begun ∧
    plan.producer.output begun.shared = ⟨changes.map .change ++ [.watermark w], .ends, source⟩
  report : ∃ report, c = some report ∧ report.finalOffset = some w
  events : st'.sink.events = Normalizer.finalRows s.keyColumn changes w
  once : st'.sink.events.Pairwise fun e e' => e.keyText? s.keyColumn ≠ e'.keyText? s.keyColumn
  stamped : ∀ e ∈ st'.sink.events, e.position = w

/-- An attempt that finishes has delivered the rows of its split. -/
lemma Attempted.backfills {c : Option SplitCompletion}
    (h : Attempted r (.snapshot s) st (.finished c) st') (hexact : r.config.exactlyOnce = true)
    (hquiet : st.Quiet) (hempty : st.sink.events = []) :
    ∃ changes w, Backfills r s st c st' changes w := by
  cases h with
  | read hbegins hdrives hstops =>
    obtain ⟨hgoing, hbackfilled, hquiet₂⟩ :=
      Arrives.going ⟨hbegins, _, hdrives⟩ hexact hquiet hempty
    have hevents := (hstops.counted hgoing hquiet₂).2.2.1
    cases hstops with
    | ended hbatch hflush =>
      obtain ⟨report, w, changes, source, hc, hw, hout, hrows, honce⟩ :=
        hgoing.rows hbackfilled hbatch
      rw [← hevents] at hrows honce
      refine ⟨changes, w, ⟨_, _, source, hbegins, hout⟩, ⟨report, hc, hw⟩, hrows, honce, ?_⟩
      intro e he
      have hrow : e ∈ Normalizer.finalRows s.keyColumn changes w := hrows ▸ he
      obtain ⟨key, -, hkey⟩ := List.mem_filterMap.mp hrow
      obtain ⟨kept, -, rfl⟩ := Option.map_eq_some_iff.mp hkey
      rfl

/-! ## All attempts -/

/-- A run of a snapshot split finds an empty sink when it begins an attempt, and has the whole split
to read. -/
lemma Tries.nothing {retries : Nat} (h : Tries r split st retries split' st')
    (hsplit : split = .snapshot s) (hexact : r.config.exactlyOnce = true) (hquiet : st.Quiet)
    (hempty : st.sink.events = []) : split' = .snapshot s ∧ st'.sink.events = [] := by
  induction h with
  | first hresume =>
    subst hsplit
    cases hresume
    exact ⟨rfl, hempty⟩
  | again htries hfailed _ _ _ hresume ih =>
    obtain ⟨rfl, hnothing⟩ := ih
    have hquiet₁ := htries.quiet hquiet
    have hnothing₂ := (attempted_of_eq hquiet₁ hfailed).nothing hexact hquiet₁ hnothing
    cases hresume
    exact ⟨rfl, hnothing₂⟩

/-- What holds of a run of a snapshot split that is delivered exactly once. -/
structure AllOrNothing (r : Runner) (s : SnapshotSplit) (st : RunState) (result : Result)
    (st' : RunState) : Prop where
  /-- In every attempt, batches keep to their size, and there are no events before the watermark. -/
  held : ∀ {retries split₁ st₁ plan begun session st₂},
    Tries r (.snapshot s) st retries split₁ st₁ → Arrives r split₁ st₁ plan begun session st₂ →
      (st₂.sink.events ≠ [] → session.reader.watermark.isSome = true) ∧
      ∀ {es session' shared}, session.nextBatch st₂.shared = (.events es, session', shared) →
        es.length ≤ r.config.maxBatchSize ∧
          (es ≠ [] → session'.reader.watermark.isSome = true)
  failed : ∀ f, result = .returned (.error f) → st'.sink.events = []
  /-- What is in the sink at the end has been read by the last attempt alone. -/
  finished : ∀ c, result = .returned (.ok c) → ∃ retries st₁ changes w,
    Tries r (.snapshot s) st retries (.snapshot s) st₁ ∧ st₁.sink.events = [] ∧
      r.attempt (.snapshot s) st₁ = (.finished c, st') ∧ Backfills r s st₁ c st' changes w

/-- Where only the connection can fail, a snapshot split that is delivered exactly once reaches the
sink as a whole or not at all. -/
theorem run_all_or_nothing (hconfig : r.config.fault? = none) (hexact : r.config.exactlyOnce = true)
    (hquiet : st.Quiet) (hempty : st.sink.events = []) (attempts : Nat) :
    AllOrNothing r s st (r.run (.snapshot s) st attempts).1 (r.run (.snapshot s) st attempts).2 where
  held htries harrives := by
    obtain ⟨rfl, hnothing⟩ := htries.nothing rfl hexact hquiet hempty
    obtain ⟨hgoing, -, -⟩ := harrives.going hexact (htries.quiet hquiet) hnothing
    refine ⟨hgoing.marked, fun hbatch => ⟨?_, fun hes => ?_⟩⟩
    · have hshort := hgoing.short hbatch
      have hsize := FetchConfig.maxBatchSize_pos hconfig
      omega
    · exact (hgoing.events hbatch).marked (List.append_ne_nil_of_right_ne_nil _ hes)
  failed f hresult := by
    obtain ⟨retries, split₁, st₁, htries, -, hends⟩ := run_ends hquiet (Prod.ext hresult rfl)
    obtain ⟨rfl, hnothing⟩ := htries.nothing rfl hexact hquiet hempty
    have hquiet₁ := htries.quiet hquiet
    cases hends with
    | failed hattempt => exact (attempted_of_eq hquiet₁ hattempt).nothing hexact hquiet₁ hnothing
  finished c hresult := by
    obtain ⟨retries, split₁, st₁, htries, -, hends⟩ := run_ends hquiet (Prod.ext hresult rfl)
    obtain ⟨rfl, hnothing⟩ := htries.nothing rfl hexact hquiet hempty
    have hquiet₁ := htries.quiet hquiet
    cases hends with
    | finished hattempt =>
      obtain ⟨changes, w, hbackfills⟩ :=
        (attempted_of_eq hquiet₁ hattempt).backfills hexact hquiet₁ hnothing
      exact ⟨retries, st₁, changes, w, htries, hnothing, hattempt, hbackfills⟩

/-- A server whose first scan of the shelves breaks off after one row. -/
def shelfServer : Server :=
  { retained := { logFiles := ["log.1"] }
    positions := [.binlog "log.1" 100, .binlog "log.1" 300]
    schemas := [(⟨"shop", "shelves"⟩, .make ⟨"shop", "shelves"⟩
      [{ name := "id", typeName := "int", position := 1, primaryKey := true }] .initial)]
    rows := [(⟨"shop", "shelves"⟩, [[.number (.int 1)], [.number (.int 2)]])]
    streamFaults := [⟨.scan, 0, 1, .connectionClosed⟩] }

/-- All shelves as one split. -/
def shelfSplit : SnapshotSplit := ⟨⟨"shop", "shelves"⟩, "id", ⟨none, none⟩, 0⟩

/-- A run with the usual settings that delivers exactly once. -/
def shelfRunner : Runner := { ordersRunner with config := { exactlyOnce := true } }

lemma shelfRunner_config : shelfRunner.config.fault? = none := by decide +kernel

/-- The server of the shelves when their first scan has broken off and its connection is closed. -/
def shelfDropped : Server :=
  let planned := Plan.make shelfRunner.config (.snapshot shelfSplit) { server := shelfServer }
  let measured := Server.currentPosition planned.2.server
  let scanned := Server.scan shelfSplit measured.2
  (Server.close scanned.2).2

/-- The first attempt at the shelves reads one row and fails. -/
lemma attempt_shelves (hquiet : st.Quiet) (hslept : st.sleptMs = 0)
    (hshared : st.shared = { server := shelfServer }) :
    ∃ st₁, shelfRunner.attempt (.snapshot shelfSplit) st = (.failed .connectionClosed, st₁) ∧
      st₁.Quiet ∧ st₁.sleptMs = 0 ∧ st₁.shared.server = shelfDropped ∧
      st₁.shared.backend = none := by
  obtain ⟨plan, sh, hplan, p₁, sh₁, hstart, e, p₂, sh₂, hrow, sh₃, hbreak, hserver, hbackend, n,
      htaken⟩ :
      ∃ plan sh, Plan.make shelfRunner.config (.snapshot shelfSplit) (shelfRunner.found st) =
          (.ok plan, sh) ∧
        ∃ p₁ sh₁, plan.producer.step sh = (.ok (.quiet p₁), sh₁) ∧
        ∃ e p₂ sh₂, p₁.step sh₁ = (.ok (.push (.change e) p₂), sh₂) ∧
        ∃ sh₃, p₂.step sh₂ = (.error .connectionClosed, sh₃) ∧
          (Server.close sh₃.server).2 = shelfDropped ∧ sh₃.backend = none ∧
          ∃ n, plan.mode.takeAll [.change e] = .ok ([], .normalize n) := by
    rw [found_eq rfl, hshared]
    exact ⟨_, _, rfl, _, _, rfl, _, _, _, rfl, _, rfl, rfl, rfl, _, rfl⟩
  have hout : plan.producer.output sh = ⟨[.change e], .fails .connectionClosed, sh₃.source⟩ := by
    rw [Producer.output_quiet hstart, Producer.output_push hrow, Producer.output_fails hbreak]
    rfl
  have hpatient : st.sleptMs < shelfRunner.patienceMs := by
    rw [hslept]
    decide
  obtain ⟨st₁, hfailed, hquiet₁, -, hslept₁, hserver₁, -, hbackend₁⟩ :=
    attempt_failed hquiet shelfRunner_config hpatient hplan hout rfl htaken
  exact ⟨st₁, hfailed, hquiet₁, hslept₁.trans hslept, hserver₁.trans hserver,
    hbackend₁.trans hbackend⟩

/-- The next attempt at the shelves reads both rows, and a watermark behind them. -/
lemma attempt_shelves_again (hquiet : st.Quiet) (hpatient : st.sleptMs < shelfRunner.patienceMs)
    (hserver : st.shared.server = shelfDropped) (hbackend : st.shared.backend = none) :
    ∃ c st₁, shelfRunner.attempt (.snapshot shelfSplit) st = (.finished (some c), st₁) := by
  obtain ⟨m, hfound⟩ := found_unshared (r := shelfRunner) rfl hserver hbackend
  obtain ⟨plan, sh, hplan, p₁, sh₁, hstart, e, p₂, sh₂, hrow, e', p₃, sh₃, hrow', p₄, sh₄, hend,
      p₅, sh₅, hmeasure, w, sh₆, hmark, given, htaken⟩ :
      ∃ plan sh, Plan.make shelfRunner.config (.snapshot shelfSplit) (shelfRunner.found st) =
          (.ok plan, sh) ∧
        ∃ p₁ sh₁, plan.producer.step sh = (.ok (.quiet p₁), sh₁) ∧
        ∃ e p₂ sh₂, p₁.step sh₁ = (.ok (.push (.change e) p₂), sh₂) ∧
        ∃ e' p₃ sh₃, p₂.step sh₂ = (.ok (.push (.change e') p₃), sh₃) ∧
        ∃ p₄ sh₄, p₃.step sh₃ = (.ok (.quiet p₄), sh₄) ∧
        ∃ p₅ sh₅, p₄.step sh₄ = (.ok (.quiet p₅), sh₅) ∧
        ∃ w sh₆, p₅.step sh₅ = (.ok (.push (.watermark w) .done), sh₆) ∧
          ∃ given, plan.mode.takeAll [.change e, .change e', .watermark w] =
            .ok (given, .passThrough) := by
    rw [hfound]
    exact ⟨_, _, rfl, _, _, rfl, _, _, _, rfl, _, _, _, rfl, _, _, rfl, _, _, rfl, _, _, rfl, _,
      rfl⟩
  have hout : plan.producer.output sh =
      ⟨[.change e, .change e', .watermark w], .ends, sh₆.source⟩ := by
    rw [Producer.output_quiet hstart, Producer.output_push hrow, Producer.output_push hrow',
      Producer.output_quiet hend, Producer.output_quiet hmeasure, Producer.output_push hmark,
      Producer.output_ends rfl]
    rfl
  exact attempt_finished hquiet shelfRunner_config hpatient hplan hout rfl htaken

/-- The shelves are delivered as a whole, although their first scan breaks off. -/
theorem run_all_or_nothing_shelves :
    let st : RunState := { shared := { server := shelfServer } }
    let ran := shelfRunner.run (.snapshot shelfSplit) st 3
    shelfRunner.config.fault? = none ∧
      (∃ plan begun, Begins shelfRunner (.snapshot shelfSplit) st plan begun) ∧
      (∃ c, ran.1 = .returned (.ok (some c))) ∧
      AllOrNothing shelfRunner shelfSplit st ran.1 ran.2 := by
  intro st ran
  have hbegins : ∃ plan begun, Begins shelfRunner (.snapshot shelfSplit) st plan begun :=
    ⟨_, _, .intro rfl rfl (by decide)⟩
  have hquiet : st.Quiet := rfl
  obtain ⟨st₁, hfailed, hquiet₁, hslept₁, hserver₁, hbackend₁⟩ := attempt_shelves hquiet rfl rfl
  obtain ⟨delay, hdelay, hshort⟩ := delay_orders
  have hslept : st₁.sleptMs + delay.timerMillis < shelfRunner.patienceMs := by
    rw [hslept₁, Nat.zero_add]
    exact hshort
  let st₂ : RunState := { st₁.countRetry with sleptMs := st₁.sleptMs + delay.timerMillis }
  have htries : Tries shelfRunner (.snapshot shelfSplit) st 1 (.snapshot shelfSplit) st₂ :=
    .again (.first rfl) hfailed (by decide +kernel) hdelay (Nat.le_of_lt hslept) rfl
  have hquiet₂ : st₂.Quiet := hquiet₁
  obtain ⟨c, st₃, hfinished⟩ := attempt_shelves_again hquiet₂ hslept hserver₁ hbackend₁
  have hran : ran = (.returned (.ok (some c)), st₃) := htries.returned hfinished 1
  exact ⟨shelfRunner_config, hbegins, ⟨c, congrArg Prod.fst hran⟩,
    run_all_or_nothing shelfRunner_config rfl hquiet rfl 3⟩

end Runner
end Changefeed
