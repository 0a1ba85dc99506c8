import Changefeed.Fetch.Pipeline
import Changefeed.Proofs.Fetch.Reading
import Changefeed.Proofs.Server

/-!
# Tasks that are read once

A fresh task that is configured has the session of its plan, and reading begins on that session
with a queue that is open and has room and a reader that is at the start.
-/

namespace Changefeed

lemma FetchConfig.maxBatchSize_pos {config : FetchConfig} (h : config.fault? = none) :
    0 < config.maxBatchSize := by
  unfold fault? at h
  split at h
  · cases h
  · split at h
    · cases h
    · omega

lemma FetchConfig.maxQueueSize_pos {config : FetchConfig} (h : config.fault? = none) :
    0 < config.maxQueueSize := by
  unfold fault? at h
  split at h
  · cases h
  · split at h
    · cases h
    · split at h
      · cases h
      · omega

namespace Plan

/-- The session of a plan once reading has begun. -/
def begun (p : Plan) (config : FetchConfig) (split : Split) : Session :=
  let session := p.session config split
  { session with reader :=
      { session.reader with lifecycle := session.reader.lifecycle.moveIfAllowed .reading } }

variable {p : Plan} {config : FetchConfig} {split : Split}

/-- The queue of a session that begins is open and has room. -/
lemma begun_attached (hconfig : config.fault? = none) : (p.begun config split).Attached where
  opened := rfl
  roomy := by
    have hsize := FetchConfig.maxQueueSize_pos hconfig
    simp only [begun, session, QueueSettings.forSplit]
    split
    · simp
    · simp only [ne_eq, Option.some.injEq]
      omega
  sized := Nat.le_max_right ..
  unended := .inr ⟨rfl, rfl⟩

lemma begun_passing (h : p.mode = .passThrough) : (p.begun config split).reader.Passing :=
  ⟨h, rfl, rfl⟩

lemma begun_output (sh : Shared) : (p.begun config split).output sh = p.producer.output sh := rfl

end Plan

namespace Task

lemma configure_fresh (config : FetchConfig) (split : Split) (sh : Shared) :
    ({ config } : Task).configure split sh =
      match Plan.make config split { sh with metrics := sh.metrics.recordSplitStarted } with
      | (.ok plan, sh') =>
        (.ok (), { config, stage := .prepared split (plan.session config split) }, sh')
      | (.error f, sh') =>
        (.error f, { config, stage := .refused split },
          { sh' with metrics := countRefusal sh'.metrics f }) :=
  rfl

lemma read_prepared (plan : Plan) (config : FetchConfig) (split : Split) :
    ({ config, stage := .prepared split (plan.session config split) } : Task).read =
      (.ok (), { config, stage := .reading split (plan.begun config split) }) :=
  rfl

lemma close_shared (t : Task) (sh : Shared) :
    (t.close sh).2 = sh ∨ (t.close sh).2 = { sh with server := (Server.close sh.server).2 } := by
  unfold close
  split
  · exact .inl rfl
  · exact .inr rfl

end Task

/-- A split for which a plan could be made is read to the end of the plan's session. -/
lemma Pipeline.readSplit_of_plan {config : FetchConfig} {split : Split} {sh sh₁ : Shared}
    {plan : Plan}
    (hplan : Plan.make config split { sh with metrics := sh.metrics.recordSplitStarted } =
      (.ok plan, sh₁)) :
    let drained := (plan.begun config split).drain sh₁
    ∃ task sh', readSplit config split sh =
        (.ok (drained.1.flatten, drained.2.1, drained.2.2.1.reader.completion), task, sh') ∧
      sh'.history = drained.2.2.2.history ∧
      sh'.server.uncounted = drained.2.2.2.server.uncounted := by
  intro drained
  let task : Task := { config, stage := .reading split drained.2.2.1 }
  refine ⟨(task.close drained.2.2.2).1, (task.close drained.2.2.2).2, ?_, ?_⟩
  · unfold readSplit
    rw [Task.configure_fresh, hplan]
    dsimp only
    rw [Task.read_prepared]
    rfl
  · rcases Task.close_shared task drained.2.2.2 with hclose | hclose
    · rw [hclose]
      exact ⟨rfl, rfl⟩
    · rw [hclose]
      exact ⟨rfl, rfl⟩

end Changefeed
