import Mathlib.Tactic.SplitIfs
import Changefeed.Fetch.Session

/-!
# What a producer goes on to make

A producer makes its records one step at a time, whenever there is room for them.  Its *output* is
what it makes in the end: the records, how they end, and what is shared when they do.  The steps
read the server and the history and count on the side, so the output does not depend on the
counters, which the reader changes while the producer is at work.
-/

namespace Changefeed

/-- How the records of a producer end. -/
inductive Finish where
  | ends
  /-- Nothing more will come, and no end. -/
  | waits
  | fails (f : Fault)

/-- How records end with a fault: a producer that finds the queue closed stops silently. -/
def Finish.ofFault (f : Fault) : Finish := if f = .queueClosed then .waits else .fails f

/-- What is shared, apart from the counters. -/
def Shared.source (sh : Shared) : Shared := { sh with metrics := {} }

/-- The records that are still to come, how they end, and what is shared then. -/
structure Output where
  records : List QueueRecord
  finish : Finish
  source : Shared

namespace Output

/-- The output with records before it. -/
def after (rs : List QueueRecord) (o : Output) : Output := { o with records := rs ++ o.records }

@[simp] lemma after_records (rs : List QueueRecord) (o : Output) :
    (o.after rs).records = rs ++ o.records := rfl

@[simp] lemma after_finish (rs : List QueueRecord) (o : Output) :
    (o.after rs).finish = o.finish := rfl

@[simp] lemma after_source (rs : List QueueRecord) (o : Output) :
    (o.after rs).source = o.source := rfl

@[simp] lemma after_nil (o : Output) : o.after [] = o := rfl

@[simp] lemma after_after (rs ss : List QueueRecord) (o : Output) :
    (o.after ss).after rs = o.after (rs ++ ss) := by
  simp [after]

end Output

namespace Shared

variable {sh sh' : Shared}

lemma source_eq_iff :
    sh.source = sh'.source ↔
      sh.server = sh'.server ∧ sh.history = sh'.history ∧ sh.backend = sh'.backend := by
  simp [source]

end Shared

namespace Producer

/-! ## A step does not read the counters -/

/-- Two results are the same but for the counters. -/
def Agree {α : Type} (x y : Outcome α × Shared) : Prop := x.1 = y.1 ∧ x.2.source = y.2.source

/-- Two steps of a producer that share the same but for the counters have the same result but for
the counters. -/
lemma step_agree (p : Producer) {sh sh' : Shared} (h : sh.source = sh'.source) :
    Agree (p.step sh) (p.step sh') := by
  obtain ⟨server, history, backend, m⟩ := sh
  obtain ⟨server', history', backend', m'⟩ := sh'
  obtain ⟨rfl, rfl, rfl⟩ := Shared.source_eq_iff.mp h
  dsimp only at *
  cases p with
  | start job =>
    simp only [step, startStep, Act.ask]
    rcases server.currentPosition with ⟨_ | low, server₁⟩
    · exact ⟨rfl, rfl⟩
    · dsimp only
      rcases server₁.scan job.split with ⟨_ | rows, server₂⟩ <;> exact ⟨rfl, rfl⟩
  | scan job low rows =>
    simp only [step, scanStep]
    rcases rows.next with ⟨_ | _ | _ | _, rest⟩
    · next r =>
      cases r with
      | change c =>
        dsimp only
        split_ifs
        · cases c.decodeWith job.schema <;> exact ⟨rfl, rfl⟩
        · exact ⟨rfl, rfl⟩
      | schemaChange r => exact ⟨rfl, rfl⟩
      | heartbeat position => exact ⟨rfl, rfl⟩
    all_goals exact ⟨rfl, rfl⟩
  | measure job low =>
    simp only [step, measureStep, Act.ask]
    rcases server.currentPosition with ⟨_ | high, server₁⟩
    · exact ⟨rfl, rfl⟩
    · dsimp only
      split_ifs
      · exact ⟨rfl, rfl⟩
      · rcases server₁.openStream low with ⟨_ | log, server₂⟩ <;> exact ⟨rfl, rfl⟩
  | replay job high log =>
    simp only [step, replayStep]
    rcases log.next with ⟨_ | _ | _ | _, rest⟩
    · next r =>
      dsimp only
      split_ifs
      · exact ⟨rfl, rfl⟩
      · rcases job.dispatcher.dispatch history r with _ | ⟨d, history₁⟩ <;> exact ⟨rfl, rfl⟩
    all_goals exact ⟨rfl, rfl⟩
  | mark watermark => exact ⟨rfl, rfl⟩
  | stream job log =>
    simp only [step, streamStep]
    rcases log.next with ⟨_ | _ | _ | _, rest⟩
    · next r =>
      dsimp only
      split_ifs
      · exact ⟨rfl, rfl⟩
      · rcases job.dispatcher.dispatch history r with _ | ⟨d, history₁⟩ <;> exact ⟨rfl, rfl⟩
    all_goals exact ⟨rfl, rfl⟩
  | done => exact ⟨rfl, rfl⟩

lemma step_congr {p : Producer} {sh sh' sh₁ : Shared} {r : Outcome Produced}
    (h : sh.source = sh'.source) (hstep : p.step sh = (r, sh₁)) :
    ∃ sh₁', p.step sh' = (r, sh₁') ∧ sh₁.source = sh₁'.source := by
  obtain ⟨hresult, hsource⟩ := step_agree p h
  rw [hstep] at hresult hsource
  exact ⟨(p.step sh').2, Prod.ext hresult.symm rfl, hsource⟩

lemma replayed_ne_waits (job : SnapshotJob) (next : Producer) (d : Dispatched) :
    replayed job next d ≠ .waits := by
  cases d with
  | event e =>
    simp only [replayed]
    split_ifs <;> simp
  | schemaChanged _ => simp [replayed]
  | heartbeat _ => simp [replayed]
  | skipped => simp [replayed]

/-- A producer with nothing to read leaves what is shared alone. -/
lemma step_waits {p : Producer} {sh sh' : Shared} (h : p.step sh = (.ok .waits, sh')) :
    sh' = sh := by
  cases p with
  | start job =>
    simp only [step, startStep] at h
    split at h
    · simp at h
    · split at h <;> simp at h
  | scan job low rows =>
    simp only [step, scanStep] at h
    split at h
    · simp at h
    · exact (Prod.mk.inj h).2.symm
    · simp at h
    · split at h
      · split at h <;> simp at h
      · simp at h
    · simp at h
  | measure job low =>
    simp only [step, measureStep] at h
    split at h
    · simp at h
    · split at h
      · simp at h
      · split at h <;> simp at h
  | replay job high log =>
    simp only [step, replayStep] at h
    split at h
    · simp at h
    · exact (Prod.mk.inj h).2.symm
    · simp at h
    · split at h
      · simp at h
      · split at h
        · simp at h
        · exact absurd (Except.ok.inj (Prod.mk.inj h).1) (replayed_ne_waits _ _ _)
  | mark watermark => simp [step] at h
  | stream job log =>
    simp only [step, streamStep] at h
    split at h
    · simp at h
    · exact (Prod.mk.inj h).2.symm
    · simp at h
    · split at h
      · simp at h
      · split at h <;> simp at h
  | done => simp [step] at h

/-! ## The output -/

/-- What the producer goes on to make. -/
def output (p : Producer) (sh : Shared) : Output :=
  match _h : p.step sh with
  | (.error f, sh) => ⟨[], .ofFault f, sh.source⟩
  | (.ok .ends, sh) => ⟨[], .ends, sh.source⟩
  | (.ok .waits, sh) => ⟨[], .waits, sh.source⟩
  | (.ok (.quiet next), sh) => next.output sh
  | (.ok (.push r next), sh) => (next.output sh).after [r]
termination_by (p.phase, p.left)
decreasing_by
  all_goals
    rcases Producer.step_less _h rfl with h | ⟨h, h'⟩
    · exact .left _ _ h
    · rw [h]; exact .right _ h'

variable {p next : Producer} {sh sh' : Shared}

lemma output_fails {f : Fault} (h : p.step sh = (.error f, sh')) :
    p.output sh = ⟨[], .ofFault f, sh'.source⟩ := by
  rw [output, h]

lemma output_ends (h : p.step sh = (.ok .ends, sh')) :
    p.output sh = ⟨[], .ends, sh'.source⟩ := by
  rw [output, h]

lemma output_waits (h : p.step sh = (.ok .waits, sh')) :
    p.output sh = ⟨[], .waits, sh'.source⟩ := by
  rw [output, h]

lemma output_quiet (h : p.step sh = (.ok (.quiet next), sh')) :
    p.output sh = next.output sh' := by
  rw [output, h]

lemma output_push {r : QueueRecord} (h : p.step sh = (.ok (.push r next), sh')) :
    p.output sh = (next.output sh').after [r] := by
  rw [output, h]

/-- The output does not depend on the counters. -/
lemma output_congr (h : sh.source = sh'.source) : p.output sh = p.output sh' := by
  fun_induction output p sh generalizing sh' with
  | case1 p sh f sh₁ hstep =>
    obtain ⟨sh₁', hstep', hsource⟩ := step_congr h hstep
    rw [output_fails hstep', hsource]
  | case2 p sh sh₁ hstep =>
    obtain ⟨sh₁', hstep', hsource⟩ := step_congr h hstep
    rw [output_ends hstep', hsource]
  | case3 p sh sh₁ hstep =>
    obtain ⟨sh₁', hstep', hsource⟩ := step_congr h hstep
    rw [output_waits hstep', hsource]
  | case4 p sh next sh₁ hstep ih =>
    obtain ⟨sh₁', hstep', hsource⟩ := step_congr h hstep
    rw [output_quiet hstep', ih hsource]
  | case5 p sh r next sh₁ hstep ih =>
    obtain ⟨sh₁', hstep', hsource⟩ := step_congr h hstep
    rw [output_push hstep', ih hsource]

end Producer
end Changefeed
