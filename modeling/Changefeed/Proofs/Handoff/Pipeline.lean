import Changefeed.Fetch.Pipeline
import Changefeed.Proofs.Fetch.Results
import Changefeed.Proofs.Handoff.Exactness

/-!
# A pipeline copies a table

A pipeline reads the splits of a table in turn, all on one server: each of them finds the two
positions that follow those of the splits before it.  On a server that fails no call every split
completes when it is read for the first time, so none is handed out twice, and the run is one of
the hand-offs: its events, the incremental split's among them, make a copy of the table as of the
ending.
-/

namespace Changefeed

namespace Server

variable {s s' : Server}

/-- The server after a number of splits were read, each of which has asked for two positions. -/
def afterSplits (s : Server) : Nat → Server
  | 0 => s
  | n + 1 => (s.afterSplits n).answered.answered

lemma sameData_afterSplits (s : Server) (n : Nat) : s.SameData (s.afterSplits n) := by
  induction n with
  | zero => exact .refl s
  | succ n ih =>
    have htwice : (s.afterSplits n).SameData (s.afterSplits (n + 1)) := ⟨rfl, rfl, rfl, rfl⟩
    exact ih.trans htwice

lemma Quiet.afterSplits (h : s.Quiet) (n : Nat) : (s.afterSplits n).Quiet := by
  induction n with
  | zero => exact h
  | succ n ih => exact ih.answered.answered

/-- What a split finds on the second server is what it finds on the first one. -/
structure Alike (s s' : Server) : Prop where
  data : s.SameData s'
  scanned : s'.scanned = s.scanned
  answer : s'.answer = s.answer
  next : s'.nextAnswer = s.nextAnswer

/-- A split finds the same on servers that differ in their counts alone. -/
lemma Alike.of_uncounted_eq {s'' : Server} (h : s.Alike s') (heq : s''.uncounted = s'.uncounted) :
    s.Alike s'' where
  data := h.data.trans (.of_uncounted_eq heq)
  scanned := by
    have hscanned := congrArg Server.scanned heq
    exact hscanned.trans h.scanned
  answer := by
    have hanswer := congrArg Server.answer heq
    exact hanswer.trans h.answer
  next := by
    have hnext := congrArg Server.nextAnswer heq
    exact hnext.trans h.next

end Server

namespace Source

variable {src : Source} {s : SnapshotSplit} {server server' : Server}

lemma Meets.congr (h : src.Meets s server) (halike : server.Alike server')
    (hquiet : server'.Quiet) : src.Meets s server' where
  quiet := hquiet
  log := halike.data.log.trans h.log
  layout := by
    rw [halike.data.schemas]
    exact h.layout
  low := by
    rw [halike.answer]
    exact h.low
  high := by
    rw [halike.next]
    exact h.high
  ascending := by
    rw [halike.answer, halike.next]
    exact h.ascending
  reached := by
    rw [halike.next]
    exact h.reached
  scan := by
    have hrows : server'.scanRows s = server.scanRows s := by
      rw [Server.scanRows, Server.scanRows, halike.data.schemas, halike.data.rows]
    rw [halike.scanned, hrows, halike.answer, halike.next]
    exact h.scan

lemma Serves.congr {start : Offset} (h : src.Serves start server) (hdata : server.SameData server')
    (hquiet : server'.Quiet) : src.Serves start server' where
  quiet := hquiet
  log := hdata.log.trans h.log
  retained := Server.ensureResumable_congr hquiet hdata.retained h.retained

/-- One server for the splits of a regular table, which are read in turn with a valid configuration:
a split finds there what it has to meet when those before it have been read, and the log can still
be read from every watermark. -/
structure InTurn (src : Source) (config : FetchConfig) (splits : List SnapshotSplit)
    (meets : SnapshotSplit → Shared) (server : Server) : Prop where
  regular : src.Regular
  valid : config.fault? = none
  chunked : src.Chunked splits meets
  alike : ∀ before s behind, splits = before ++ s :: behind →
    (meets s).server.Alike (server.afterSplits before.length)
  serves : ∀ s ∈ splits, src.Serves (Handoff.mark config meets s) server

lemma InTurn.quiet {config : FetchConfig} {splits : List SnapshotSplit}
    {meets : SnapshotSplit → Shared} (h : src.InTurn config splits meets server)
    (hs : s ∈ splits) : server.Quiet := (h.serves s hs).quiet

end Source

/-- The events that reading a split has given. -/
def SplitRun.events (entry : SplitRun) : List ChangeEvent :=
  match entry.result with
  | .ok (es, _, _) => es
  | .error _ => []

/-- The split was read to its end and reported. -/
def SplitRun.Completed (entry : SplitRun) : Prop :=
  ∃ es c, entry.result = .ok (es, .ended, some c)

namespace Pipeline

/-! ## One split -/

/-- After a split that completes, and whose report is taken, the pipeline goes on to the next. -/
lemma runSplits_of_completed {p : Pipeline} {assigned : Split} {a a' : SplitAssigner}
    {es : List ChangeEvent} {stop : Session.Stop} {c : SplitCompletion} {task : Task} {sh : Shared}
    (hnext : p.assigner.next p.shared.history = (some assigned, a))
    (hread : readSplit p.config (p.bound assigned)
        { p.shared with history := p.historyFor (p.bound assigned) } =
      (.ok (es, stop, some c), task, sh))
    (hreport : a.complete c = .ok a') (hfew : p.failures < maxFailures) (runs : Nat) :
    p.runSplits (runs + 1) =
      (runSplits { p with assigner := a', shared := p.keepHistory (p.bound assigned) sh } runs).map
        fun (entries, q) =>
          (⟨p.bound assigned, .ok (es, stop, some c), task.state?, a'.isFinished⟩ :: entries, q) := by
  rw [runSplits, hnext]
  dsimp only
  rw [hread]
  dsimp only [completionOf, report]
  rw [hreport]
  exact if_neg (Nat.not_le.mpr hfew)

lemma runSplits_of_none {p : Pipeline} {a : SplitAssigner}
    (hnext : p.assigner.next p.shared.history = (none, a)) (runs : Nat) :
    p.runSplits runs = .ok ([], p) := by
  cases runs with
  | zero => rfl
  | succ runs => rw [runSplits, hnext]

/-! ## Whatever the server does -/

/-- A split that is read reports itself, if it reports at all. -/
lemma readSplit_reports (config : FetchConfig) (split : Split) (sh : Shared) {c : SplitCompletion}
    (h : completionOf (readSplit config split sh).1 = some c) : c.splitId = split.splitId := by
  cases hplan : Plan.make config split { sh with metrics := sh.metrics.recordSplitStarted } with
  | mk result sh₁ =>
    cases result with
    | error f =>
      rw [readSplit_refused hplan] at h
      cases h
    | ok plan =>
      obtain ⟨task, sh', hread, -⟩ := readSplit_of_plan hplan
      rw [hread] at h
      exact ((plan.begun_of config split).drain sh₁).reports c h

/-- The snapshot split that a report finishes. -/
def finishedBy : Split → Option SplitCompletion → List SnapshotSplit
  | .snapshot s, some _ => [s]
  | .snapshot _, none | .incremental _, _ => []

/-- The snapshot split that an entry finishes. -/
def finishes (entry : SplitRun) : List SnapshotSplit :=
  finishedBy entry.split (completionOf entry.result)

/-- Where a run comes to its end, nothing was handed out, or one split was read and reported, after
which the run has stopped or gone on. -/
lemma runSplits_cases {p q : Pipeline} {entries : List SplitRun} {runs : Nat}
    (h : p.runSplits (runs + 1) = .ok (entries, q)) :
    (entries = [] ∧ q = p) ∨
      ∃ assigned a found sh entry after, p.assigner.next p.shared.history = (some assigned, a) ∧
        entry.split = p.bound assigned ∧
        entry.result = (readSplit p.config entry.split found).1 ∧
        report { p with assigner := a, shared := sh } assigned (completionOf entry.result) =
          .ok after ∧
        (entries = [entry] ∧ q = after ∨
          ∃ rest, after.failures < maxFailures ∧ after.runSplits runs = .ok (rest, q) ∧
            entries = entry :: rest) := by
  rw [runSplits] at h
  split at h
  · obtain ⟨rfl, rfl⟩ := Prod.mk.inj (Except.ok.inj h)
    exact .inl ⟨rfl, rfl⟩
  · next assigned a hnext =>
    refine .inr ⟨assigned, a, { p.shared with history := p.historyFor (p.bound assigned) }, ?_⟩
    dsimp only at h
    generalize hread : readSplit p.config (p.bound assigned) _ = read at h
    obtain ⟨result, task, sh⟩ := read
    dsimp only at h
    split at h
    · cases h
    · next after hreport =>
      refine ⟨_, ⟨p.bound assigned, result, task.state?, after.assigner.isFinished⟩, after, hnext,
        rfl, (congrArg Prod.fst hread).symm, hreport, ?_⟩
      split at h
      · obtain ⟨rfl, rfl⟩ := Prod.mk.inj (Except.ok.inj h)
        exact .inl ⟨rfl, rfl⟩
      · next hfew =>
        cases hrest : after.runSplits runs with
        | error f =>
          rw [hrest] at h
          cases h
        | ok r =>
          obtain ⟨rest, q'⟩ := r
          rw [hrest] at h
          obtain ⟨rfl, rfl⟩ := Prod.mk.inj (Except.ok.inj h)
          exact .inr ⟨rest, Nat.not_le.mp hfew, rfl, rfl⟩

/-- A report finishes the split that it is about, and without one a failure is counted and the split
waits again. -/
lemma report_accounts {splits finished : List SnapshotSplit} {p after : Pipeline} {assigned : Split}
    {c : Option SplitCompletion} (haccounts : p.assigner.Accounts splits finished)
    (hflight : ∀ s, assigned = .snapshot s → p.assigner.inFlight.find? s.splitId = some s)
    (hid : ∀ c', c = some c' → c'.splitId = assigned.splitId)
    (h : p.report assigned c = .ok after) :
    after.assigner.Accounts splits (finished ++ finishedBy assigned c) ∧
      after.failures = p.failures + if c.isNone then 1 else 0 := by
  cases c with
  | none =>
    obtain rfl := Except.ok.inj h
    cases assigned with
    | snapshot s =>
      rw [finishedBy, List.append_nil]
      exact ⟨haccounts.fail (hflight s rfl), rfl⟩
    | incremental i =>
      rw [finishedBy, List.append_nil]
      exact ⟨⟨haccounts.places, haccounts.named⟩, rfl⟩
  | some c =>
    have hid := hid c rfl
    have h : (p.assigner.complete c).map (fun assigner => { p with assigner }) = .ok after := h
    cases hcomplete : p.assigner.complete c with
    | error f =>
      rw [hcomplete] at h
      cases h
    | ok a =>
      rw [hcomplete] at h
      obtain rfl := Except.ok.inj h
      cases assigned with
      | snapshot s => exact ⟨haccounts.of_complete (hflight s rfl) hid hcomplete, rfl⟩
      | incremental i =>
        have hkept : p.assigner.complete c = .ok p.assigner := if_pos (congrArg SplitId.scope hid)
        obtain rfl := Except.ok.inj (hkept.symm.trans hcomplete)
        rw [finishedBy, List.append_nil]
        exact ⟨haccounts, rfl⟩

/-- Readings finish the splits that have completed, and each one that did not complete is counted. -/
lemma runSplits_accounts {splits finished : List SnapshotSplit}
    (hids : (splits.map SnapshotSplit.splitId).Nodup) {p q : Pipeline} {entries : List SplitRun}
    {runs : Nat} (hrun : p.runSplits runs = .ok (entries, q))
    (haccounts : p.assigner.Accounts splits finished) (hfew : p.failures < maxFailures) :
    q.assigner.Accounts splits (finished ++ entries.flatMap finishes) ∧ entries.length ≤ runs ∧
      q.failures = p.failures + entries.countP (fun entry => (completionOf entry.result).isNone) ∧
      q.failures ≤ maxFailures := by
  induction runs generalizing p entries finished with
  | zero =>
    obtain ⟨rfl, rfl⟩ := Prod.mk.inj (Except.ok.inj hrun)
    refine ⟨?_, le_rfl, rfl, hfew.le⟩
    rw [List.flatMap_nil, List.append_nil]
    exact haccounts
  | succ runs ih =>
    rcases runSplits_cases hrun with
      ⟨rfl, rfl⟩ | ⟨assigned, a, found, sh, entry, after, hnext, hsplit, hresult, hreport, h⟩
    · refine ⟨?_, Nat.zero_le _, rfl, hfew.le⟩
      rw [List.flatMap_nil, List.append_nil]
      exact haccounts
    · have hflight : ∀ s, assigned = .snapshot s → a.inFlight.find? s.splitId = some s := by
        rintro s rfl
        rcases SplitAssigner.next_cases hnext with ⟨s', rest, -, hs, rfl⟩ | ⟨-, -, hs, -⟩
        · obtain rfl := Split.snapshot.inj hs
          exact SortedMap.find?_insert_self ..
        · cases hs
      have hid : ∀ c, completionOf entry.result = some c → c.splitId = assigned.splitId := by
        intro c hc
        rw [hresult] at hc
        have hread := readSplit_reports p.config entry.split found hc
        rw [hread, hsplit]
        cases assigned <;> rfl
      obtain ⟨haccounts', hfailures⟩ :=
        report_accounts (haccounts.next hids hnext) hflight hid hreport
      have hfailures : after.failures =
          p.failures + if (completionOf entry.result).isNone then 1 else 0 := hfailures
      have hfinishes : finishedBy assigned (completionOf entry.result) = finishes entry := by
        rw [finishes, hsplit]
        cases assigned <;> cases completionOf entry.result <;> rfl
      rw [hfinishes] at haccounts'
      rcases h with ⟨rfl, rfl⟩ | ⟨rest, hmore, hrest, rfl⟩
      · refine ⟨?_, by simp, ?_, ?_⟩
        · rw [List.flatMap_singleton]
          exact haccounts'
        · rw [hfailures, List.countP_singleton]
        · rw [hfailures]
          split <;> omega
      · obtain ⟨hkept, hlength, hcount, hbound⟩ := ih hrest haccounts' hmore
        refine ⟨?_, Nat.succ_le_succ hlength, ?_, hbound⟩
        · rw [List.flatMap_cons, ← List.append_assoc]
          exact hkept
        · rw [hcount, hfailures, List.countP_cons]
          omega

/-- However a run over some snapshot splits comes to its end, no split is lost: those are finished
that have completed, and the others still wait or are being read.  Few readings have not completed,
and each of them has been counted. -/
theorem run_loses_no_split {splits : List SnapshotSplit}
    (hids : (splits.map SnapshotSplit.splitId).Nodup) {config : FetchConfig}
    {ending : Option Offset} {sh : Shared} {entries : List SplitRun} {q : Pipeline}
    (hrun : run { config, ending, assigner := .ofSplits splits, shared := sh } =
      .ok (entries, q)) :
    q.assigner.Accounts splits (entries.flatMap finishes) ∧
      entries.length ≤ splits.length + 1 + maxFailures ∧
      q.failures = entries.countP (fun entry => (completionOf entry.result).isNone) ∧
      q.failures ≤ maxFailures := by
  have hfew : 0 < maxFailures := by decide
  obtain ⟨hkept, hlength, hcount, hbound⟩ :=
    runSplits_accounts hids hrun (SplitAssigner.accounts_ofSplits splits) hfew
  rw [Nat.zero_add] at hcount
  exact ⟨hkept, hlength, hcount, hbound⟩

/-! ## The snapshot splits -/

variable {src : Source} {config : FetchConfig} {splits : List SnapshotSplit}
  {meets : SnapshotSplit → Shared} {server : Server} {ending : Offset} {p : Pipeline}
  {done : List (SnapshotSplit × List ChangeEvent)} {s : SnapshotSplit}

/-- A pipeline between two snapshot splits: those before are finished, each with the events that it
has delivered, the others wait, and nothing has failed. -/
structure Copying (src : Source) (config : FetchConfig) (splits : List SnapshotSplit)
    (meets : SnapshotSplit → Shared) (server : Server) (ending : Offset)
    (done : List (SnapshotSplit × List ChangeEvent)) (p : Pipeline) : Prop where
  configured : p.config = config
  bounded : p.ending = some ending
  unfailed : p.failures = 0
  progress : Handoff.Progress src config splits meets
    ⟨p.assigner, p.shared.history, (done.map Prod.snd).flatten⟩ done
  flight : p.assigner.inFlight = []
  waiting : splits = done.map Prod.fst ++ p.assigner.pending
  unassigned : p.assigner.incrementalAssigned = false
  served : p.shared.server.uncounted = (server.afterSplits done.length).uncounted

lemma Copying.alike (h : Copying src config splits meets server ending done p)
    (hturn : src.InTurn config splits meets server) {rest : List SnapshotSplit}
    (hpending : p.assigner.pending = s :: rest) :
    (meets s).server.Alike p.shared.server := by
  have hwaiting := h.waiting
  rw [hpending] at hwaiting
  have halike := hturn.alike _ s rest hwaiting
  rw [List.length_map] at halike
  exact halike.of_uncounted_eq h.served

/-- The next split that waits is read to its end. -/
lemma Copying.read_ok (h : Copying src config splits meets server ending done p)
    (hturn : src.InTurn config splits meets server) {rest : List SnapshotSplit}
    (hpending : p.assigner.pending = s :: rest) :
    ∃ es task sh, readSplit p.config (.snapshot s) p.shared =
        (.ok (es, .ended, some ⟨s.splitId, some (Handoff.mark config meets s)⟩), task, sh) ∧
      sh.history.records src.tableId = [src.layout] ∧ src.Knows sh.history ∧
      sh.server.uncounted = (server.afterSplits (done.length + 1)).uncounted ∧
      src.Captures s (Handoff.mark config meets s) (meets s).server.nextAnswer es := by
  have halike := h.alike hturn hpending
  have hs : s ∈ splits := by
    rw [h.waiting, hpending]
    simp
  have hquiet := ((hturn.quiet hs).afterSplits done.length).congr h.served
  have hmeets := (hturn.chunked.meets s hs).congr halike hquiet
  have hlayouts : p.shared.history.records src.tableId = [] ∨
      p.shared.history.records src.tableId = [src.layout] :=
    h.progress.layouts.imp_left And.left
  obtain ⟨es, task, sh, hread, hhistory, hserver, hcaptures⟩ :=
    Source.readSplit_captures hturn.regular hturn.valid (hturn.chunked.tables s hs)
      (hturn.chunked.columns s hs) hmeets hlayouts
  rw [halike.answer, halike.next] at hread hcaptures
  rw [h.configured]
  refine ⟨es, task, sh, hread, ?_, ?_, ?_, hcaptures⟩
  · rw [hhistory]
    exact SchemaHistory.records_append_only hlayouts
  · rw [hhistory]
    exact h.progress.knows.append rfl rfl
  · rw [hserver]
    exact Server.answered_congr (Server.answered_congr h.served)

/-- The next split that waits is read and finished, and the pipeline goes on behind it. -/
lemma Copying.step (h : Copying src config splits meets server ending done p)
    (hturn : src.InTurn config splits meets server) {rest : List SnapshotSplit}
    (hpending : p.assigner.pending = s :: rest) :
    ∃ es entry p', Copying src config splits meets server ending (done ++ [(s, es)]) p' ∧
      p'.assigner.pending = rest ∧ entry.split = .snapshot s ∧ entry.Completed ∧
      entry.events = es ∧
      ∀ runs, p.runSplits (runs + 1) =
        (p'.runSplits runs).map fun (entries, q) => (entry :: entries, q) := by
  obtain ⟨es, task, sh, hread, hlayout, hknows, hserver, hcaptures⟩ :=
    h.read_ok hturn hpending
  let reading : SplitAssigner := { p.assigner with
    pending := rest, inFlight := p.assigner.inFlight.insert s.splitId s }
  have hnext : p.assigner.next p.shared.history = (some (.snapshot s), reading) := by
    rw [SplitAssigner.next, hpending]
  have hfind : reading.inFlight.find? s.splitId = some s := SortedMap.find?_insert_self ..
  let finished : SplitAssigner := { reading with
    inFlight := reading.inFlight.erase s.splitId
    finished := reading.finished ++ [.ofSplit s (Handoff.mark config meets s)] }
  have hreport : reading.complete ⟨s.splitId, some (Handoff.mark config meets s)⟩ = .ok finished :=
    SplitAssigner.complete_ok hfind _
  have hfew : p.failures < maxFailures := by
    rw [h.unfailed]
    decide
  have hprogress := (h.progress.assigned hturn.chunked.ids hnext).completed hfind hlayout hknows
    hcaptures
  have hwaiting := h.waiting
  rw [hpending] at hwaiting
  refine ⟨es, ⟨.snapshot s, _, task.state?, finished.isFinished⟩,
    { p with assigner := finished, shared := sh },
    ⟨h.configured, h.bounded, h.unfailed, ?_, ?_, ?_, h.unassigned, ?_⟩, rfl, rfl,
    ⟨es, _, rfl⟩, rfl, runSplits_of_completed hnext hread hreport hfew⟩
  · rw [List.map_append, List.flatten_append]
    simpa using hprogress
  · show (p.assigner.inFlight.insert s.splitId s).erase s.splitId = []
    rw [h.flight, SortedMap.insert, SortedMap.erase, Std.ReflOrd.compare_self]
  · simpa using hwaiting
  · simpa using hserver

/-- All splits that wait are read and finished, one after the other. -/
lemma Copying.steps (h : Copying src config splits meets server ending done p)
    (hturn : src.InTurn config splits meets server) :
    ∃ entries more p', Copying src config splits meets server ending (done ++ more) p' ∧
      p'.assigner.pending = [] ∧
      entries.map SplitRun.split = p.assigner.pending.map Split.snapshot ∧
      (∀ entry ∈ entries, entry.Completed) ∧
      entries.flatMap SplitRun.events = (more.map Prod.snd).flatten ∧
      ∀ runs, p.runSplits (runs + p.assigner.pending.length) =
        (p'.runSplits runs).map fun (rest, q) => (entries ++ rest, q) := by
  generalize hpending : p.assigner.pending = pending
  induction pending generalizing done p with
  | nil =>
    refine ⟨[], [], p, ?_, hpending, rfl, by simp, rfl, fun runs => ?_⟩
    · rw [List.append_nil]
      exact h
    · show p.runSplits runs = (p.runSplits runs).map id
      cases p.runSplits runs <;> rfl
  | cons s rest ih =>
    obtain ⟨es, entry, p₁, h₁, hrest, hsplit, hcompleted, hevents, hstep⟩ :=
      h.step hturn hpending
    obtain ⟨entries, more, p', h', hnone, hsplits, hall, hmore, hsteps⟩ := ih h₁ hrest
    refine ⟨entry :: entries, (s, es) :: more, p', ?_, hnone, ?_, ?_, ?_, fun runs => ?_⟩
    · rw [List.append_assoc, List.singleton_append] at h'
      exact h'
    · rw [List.map_cons, List.map_cons, hsplit, hsplits]
    · intro x hx
      rcases List.mem_cons.mp hx with rfl | hx
      · exact hcompleted
      · exact hall x hx
    · rw [List.flatMap_cons, hevents, hmore]
      rfl
    · have hcount : runs + (s :: rest).length = runs + rest.length + 1 := rfl
      rw [hcount, hstep, hsteps]
      cases p'.runSplits runs <;> rfl

/-! ## The incremental split -/

/-- When no split waits any more, the incremental split is read to its end. -/
lemma Copying.read_rest (h : Copying src config splits meets server ending done p)
    (hturn : src.InTurn config splits meets server) (hpending : p.assigner.pending = [])
    (hends : src.Ends splits meets ending)
    (hmarks : ∀ s ∈ splits, (Handoff.mark config meets s).Legible ∧
      (Handoff.mark config meets s).before ending = true)
    (hlayout : src.layout.Legible) :
    let i := p.assigner.incremental p.shared.history
    ∃ es o task sh, readSplit p.config (.incremental (i.endingAt ending))
        { p.shared with history := .empty } =
          (.ok (es, .ended, some ⟨i.splitId, some o⟩), task, sh) ∧
      Rows.empty.applyAll src.keyColumn ((done.map Prod.snd).flatten ++ es) = src.asOf ending := by
  have hdone : Handoff.Complete src config splits meets
      ⟨p.assigner, p.shared.history, (done.map Prod.snd).flatten⟩ done :=
    ⟨hturn.regular, hturn.chunked, h.progress, h.progress.accounts.all_done hpending h.flight⟩
  obtain ⟨⟨s, hs, hstart⟩, -⟩ := hdone.start_reached
  let fresh : Shared := { p.shared with history := .empty }
  have hserves : src.Serves p.assigner.start fresh.server := by
    have hdata := (Server.sameData_afterSplits server done.length).trans
      (.of_uncounted_eq h.served)
    have hquiet := ((hturn.quiet hs).afterSplits done.length).congr h.served
    exact hstart ▸ (hturn.serves s hs).congr hdata hquiet
  obtain ⟨hlegible, hbefore⟩ := hmarks s hs
  rw [hstart] at hlegible hbefore
  have hknows : src.Knows fresh.history := src.knows_empty
  obtain ⟨-, hread⟩ := hdone.readSplit hturn.valid hends hserves hknows
  obtain ⟨es, stop, c, task, sh, hread, hexact, hended⟩ := hread hlayout hlegible
  obtain ⟨rfl, o, rfl⟩ := hended hbefore
  rw [h.configured]
  exact ⟨es, o, task, sh, hread, hexact⟩

/-- Behind the incremental split the pipeline stops. -/
lemma Copying.finish (h : Copying src config splits meets server ending done p)
    (hturn : src.InTurn config splits meets server) (hpending : p.assigner.pending = [])
    (hends : src.Ends splits meets ending)
    (hmarks : ∀ s ∈ splits, (Handoff.mark config meets s).Legible ∧
      (Handoff.mark config meets s).before ending = true)
    (hlayout : src.layout.Legible) :
    ∃ i entry p', entry.split = .incremental i ∧ entry.Completed ∧
      Rows.empty.applyAll src.keyColumn ((done.map Prod.snd).flatten ++ entry.events) =
        src.asOf ending ∧
      p'.failures = 0 ∧ p'.assigner.isFinished = true ∧
      ∀ runs, p.runSplits (runs + 1) = .ok ([entry], p') := by
  obtain ⟨es, o, task, sh, hread, hexact⟩ :=
    h.read_rest hturn hpending hends hmarks hlayout
  let i := p.assigner.incremental p.shared.history
  let assigned : SplitAssigner := { p.assigner with incrementalAssigned := true }
  have hready : (⟨p.assigner, p.shared.history, []⟩ : Handoff).Ready :=
    ⟨hpending, h.flight, h.unassigned⟩
  have hnext : p.assigner.next p.shared.history = (some (.incremental i), assigned) := hready.next
  have hbound : p.bound (.incremental i) = .incremental (i.endingAt ending) := by
    rw [bound, h.bounded]
    rfl
  have hread' : readSplit p.config (p.bound (.incremental i))
      { p.shared with history := p.historyFor (p.bound (.incremental i)) } =
        (.ok (es, .ended, some ⟨i.splitId, some o⟩), task, sh) := by
    rw [hbound]
    exact hread
  have hreport : assigned.complete ⟨i.splitId, some o⟩ = .ok assigned := if_pos rfl
  have hfew : p.failures < maxFailures := by
    rw [h.unfailed]
    decide
  let entry : SplitRun := ⟨p.bound (.incremental i), .ok (es, .ended, some ⟨i.splitId, some o⟩),
    task.state?, assigned.isFinished⟩
  let after : Pipeline :=
    { p with assigner := assigned, shared := p.keepHistory (p.bound (.incremental i)) sh }
  have hnone : after.assigner.next after.shared.history = (none, assigned) := by
    show assigned.next after.shared.history = (none, assigned)
    rw [SplitAssigner.next, show assigned.pending = [] from hpending]
    rfl
  refine ⟨i.endingAt ending, entry, after, hbound, ⟨es, _, rfl⟩, hexact, h.unfailed, ?_,
    fun runs => ?_⟩
  · show (p.assigner.pending.isEmpty && p.assigner.inFlight.isEmpty) = true
    rw [hpending, h.flight]
    rfl
  · rw [runSplits_of_completed hnext hread' hreport hfew, runSplits_of_none hnone]
    rfl

/-! ## The whole run -/

/-- A pipeline reads each snapshot split of a table once, in turn, and then the incremental split:
all of them complete, none fails, and what they deliver makes a copy of the table as of the ending,
which all watermarks have to lie before. -/
theorem run_copies {sh : Shared} (hturn : src.InTurn config splits meets sh.server)
    (hhistory : sh.history = .empty) (hends : src.Ends splits meets ending)
    (hmarks : ∀ s ∈ splits, (Handoff.mark config meets s).Legible ∧
      (Handoff.mark config meets s).before ending = true)
    (hlayout : src.layout.Legible) :
    ∃ entries i p',
      run { config, ending := some ending, assigner := .ofSplits splits, shared := sh } =
          .ok (entries, p') ∧
        entries.map SplitRun.split = splits.map Split.snapshot ++ [.incremental i] ∧
        (∀ entry ∈ entries, entry.Completed) ∧ p'.failures = 0 ∧ p'.assigner.isFinished = true ∧
        Rows.empty.applyAll src.keyColumn (entries.flatMap SplitRun.events) = src.asOf ending := by
  generalize hp : ({ config, ending := some ending, assigner := .ofSplits splits, shared := sh } :
    Pipeline) = p
  have hstart : Copying src config splits meets sh.server ending [] p := by
    subst hp
    refine ⟨rfl, rfl, rfl, ?_, rfl, rfl, rfl, rfl⟩
    have hprogress := Handoff.progress_start src config splits meets
    rw [Handoff.start, ← hhistory] at hprogress
    exact hprogress
  have hpending : p.assigner.pending = splits := hp ▸ rfl
  obtain ⟨entries, more, q, hq, hnone, hsplits, hall, hevents, hruns⟩ :=
    hstart.steps hturn
  obtain ⟨i, entry, p', hsplit, hcompleted, hexact, hunfailed, hfinished, hlast⟩ :=
    hq.finish hturn hnone hends hmarks hlayout
  rw [hpending] at hsplits
  refine ⟨entries ++ [entry], i, p', ?_, ?_, ?_, hunfailed, hfinished, ?_⟩
  · have hcount : p.assigner.pending.length + 1 + maxFailures =
        (maxFailures + 1) + p.assigner.pending.length := by omega
    rw [run, hcount, hruns, hlast]
    rfl
  · rw [List.map_append, hsplits, ← hsplit]
    rfl
  · intro x hx
    rcases List.mem_append.mp hx with hx | hx
    · exact hall x hx
    · rw [List.mem_singleton.mp hx]
      exact hcompleted
  · rw [List.flatMap_append, hevents, List.flatMap_singleton]
    exact hexact

/-! ## A run over the orders -/

/-- The server of the orders for both splits: the first one finds the first two positions, and the
second one those behind them. -/
def ordersServer : Server := Handoff.ordersServer
  [.binlog "log.1" 100, .binlog "log.1" 120, .binlog "log.1" 140, .binlog "log.1" 170]

lemma inTurn_orders : Handoff.ordersSource.InTurn Handoff.ordersConfig Handoff.orderSplits
    Handoff.orderMeets ordersServer where
  regular := Handoff.regular_ordersSource
  valid := by decide
  chunked := Handoff.chunked_orderSplits
  alike before s behind hsplits := by
    rcases before with - | ⟨x, - | ⟨y, before⟩⟩
    · obtain ⟨rfl, -⟩ := List.cons.inj hsplits
      exact ⟨⟨rfl, rfl, rfl, rfl⟩, rfl, rfl, rfl⟩
    · obtain ⟨-, hrest⟩ := List.cons.inj hsplits
      obtain ⟨rfl, -⟩ := List.cons.inj hrest
      exact ⟨⟨rfl, rfl, rfl, rfl⟩, rfl, rfl, rfl⟩
    · have hlength := congrArg List.length hsplits
      simp [Handoff.orderSplits] at hlength
  serves s hs := by
    rcases Handoff.mem_orderSplits hs with rfl | rfl
    · exact ⟨⟨rfl, rfl, rfl⟩, rfl, rfl⟩
    · exact ⟨⟨rfl, rfl, rfl⟩, rfl, rfl⟩

/-- The orders are copied by a run of three entries: their two splits and the rest of the log. -/
theorem run_copies_orders : ∃ entries p',
    run { config := Handoff.ordersConfig
          ending := some (.binlog "log.1" 200)
          assigner := .ofSplits Handoff.orderSplits
          shared := { server := ordersServer } } = .ok (entries, p') ∧
      entries.length = 3 ∧ p'.assigner.isFinished = true ∧
      Rows.empty.applyAll "id" (entries.flatMap SplitRun.events) =
        Handoff.ordersSource.asOf (.binlog "log.1" 200) := by
  have hmarks : ∀ s ∈ Handoff.orderSplits,
      (Handoff.mark Handoff.ordersConfig Handoff.orderMeets s).Legible ∧
        (Handoff.mark Handoff.ordersConfig Handoff.orderMeets s).before (.binlog "log.1" 200) =
          true := by
    intro s hs
    rcases Handoff.mem_orderSplits hs with rfl | rfl
    · exact ⟨trivial, by decide⟩
    · exact ⟨trivial, by decide⟩
  have hhistory : ({ server := ordersServer } : Shared).history = .empty := rfl
  obtain ⟨entries, i, p', hrun, hsplits, -, -, hfinished, hexact⟩ :=
    run_copies inTurn_orders hhistory Handoff.ends_orders hmarks Handoff.legible_orders
  refine ⟨entries, p', hrun, ?_, hfinished, hexact⟩
  have hlength := congrArg List.length hsplits
  rwa [List.length_map] at hlength

end Pipeline
end Changefeed
