import Changefeed.Assigner
import Changefeed.Fetch.Task

/-!
# Snapshot and streaming together

A pipeline hands out the splits of some tables one after the other and reads each of them with a
task of its own, all on one server.  The snapshot splits share the layout history that the
incremental split's layouts are taken from; the incremental split itself is read with a history of
its own.  A split that does not complete is handed out again, and after a number of such failures
the pipeline stops.
-/

namespace Changefeed

/-- What became of one split. -/
structure SplitRun where
  /-- The split as it was read. -/
  split : Split
  /-- The events, how reading stopped and the report, or why the split could not be read. -/
  result : Outcome (List ChangeEvent × Session.Stop × Option SplitCompletion)
  state : Option SplitState
  /-- All splits had been handed out and read after this one. -/
  finished : Bool

/-- A pipeline at work. -/
structure Pipeline where
  config : FetchConfig
  /-- Where the incremental split ends. -/
  ending : Option Offset
  assigner : SplitAssigner
  /-- The server and the history that the snapshot splits share. -/
  shared : Shared
  failures : Nat := 0

namespace Pipeline

/-- The failures after which a pipeline stops. -/
def maxFailures : Nat := 4

/-- The split as it is read: the incremental one gets its end. -/
def bound (p : Pipeline) : Split → Split
  | .snapshot s => .snapshot s
  | .incremental s => .incremental { s with endingOffset := p.ending }

/-- The history that a split is read with. -/
def historyFor (p : Pipeline) : Split → SchemaHistory
  | .snapshot _ => p.shared.history
  | .incremental _ => .empty

/-- What is shared after a split was read: the history changes by snapshot splits alone. -/
def keepHistory (p : Pipeline) (split : Split) (sh : Shared) : Shared :=
  match split with
  | .snapshot _ => sh
  | .incremental _ => { sh with history := p.shared.history }

/-- Reads a split with a task of its own. -/
def readSplit (config : FetchConfig) (split : Split) (sh : Shared) :
    Outcome (List ChangeEvent × Session.Stop × Option SplitCompletion) × Task × Shared :=
  match ({ config } : Task).configure split sh with
  | (.error f, t, sh) => (.error f, t.close sh)
  | (.ok (), t, sh) =>
    match t.read with
    | (.error f, t) => (.error f, t.close sh)
    | (.ok (), t) =>
      match t.drain sh with
      | (batches, stop, t, sh) => (.ok (batches.flatten, stop, t.completion?), t.close sh)

/-- Reports a split to the assigner: what it completed with, if it did. -/
def report (p : Pipeline) (assigned : Split) : Option SplitCompletion → Outcome Pipeline
  | some c => (p.assigner.complete c).map fun assigner => { p with assigner }
  | none =>
    .ok { p with assigner := p.assigner.fail assigned, failures := p.failures + 1 }

/-- The report of a split that was read. -/
def completionOf :
    Outcome (List ChangeEvent × Session.Stop × Option SplitCompletion) → Option SplitCompletion
  | .ok (_, _, completion) => completion
  | .error _ => none

/-- Reads splits, at most `runs` of them. -/
def runSplits (p : Pipeline) : Nat → Outcome (List SplitRun × Pipeline)
  | 0 => .ok ([], p)
  | runs + 1 =>
    match p.assigner.next p.shared.history with
    | (none, _) => .ok ([], p)
    | (some assigned, assigner) =>
      let split := p.bound assigned
      match readSplit p.config split { p.shared with history := p.historyFor split } with
      | (result, task, sh) =>
        let after := { p with assigner, shared := p.keepHistory split sh }
        match after.report assigned (completionOf result) with
        | .error f => .error f
        | .ok after =>
          let entry : SplitRun := ⟨split, result, task.state?, after.assigner.isFinished⟩
          if maxFailures ≤ after.failures then .ok ([entry], after)
          else (after.runSplits runs).map fun (entries, p) => (entry :: entries, p)

/-- Reads all splits: every one of them completes once at most, and few fail. -/
def run (p : Pipeline) : Outcome (List SplitRun × Pipeline) :=
  p.runSplits (p.assigner.pending.length + 1 + maxFailures)

end Pipeline
end Changefeed
