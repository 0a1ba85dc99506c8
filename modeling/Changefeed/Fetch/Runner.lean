import Changefeed.Checkpoint.Basic
import Changefeed.Fetch.Task

/-!
# Runs

A run delivers one split into a sink.  Each attempt works on a fresh task.  After every batch of an
incremental split the sink is flushed and a checkpoint is saved, when the position has moved on; and
what fails with a fault that the retry policy allows is tried again after a delay, from the last
checkpoint.

Time passes by the delays alone.  A run that has nothing to deliver any more and no end, or whose
delays would go beyond a given patience, is still running.
-/

namespace Changefeed

/-- The calls of a run, apart from those to the server, that can be made to fail. -/
inductive RunCall where
  | create
  | write
  | flush
  | save
  | load
deriving DecidableEq, Repr, Ord

/-- What has been delivered. -/
structure Sink where
  events : List ChangeEvent := []
  writes : Nat := 0
  flushes : Nat := 0

/-- How a run is to be made. -/
structure Runner where
  config : FetchConfig
  retry : RetryPolicy := {}
  /-- All attempts use one layout history; else each one starts with an empty one. -/
  sharesHistory : Bool := false
  /-- The time that checkpoints are stamped with. -/
  stamp : Instant
  /-- The milliseconds of delay after which a run counts as still running. -/
  patienceMs : Nat := 60000

/-- What a run has come to. -/
structure RunState where
  shared : Shared
  checkpoints : MemoryCheckpoints := {}
  /-- The checkpoints that were saved, in order. -/
  saved : List Checkpoint := []
  sink : Sink := {}
  script : Script RunCall := {}
  /-- The milliseconds of delay so far. -/
  sleptMs : Nat := 0

/-- Something in a run that may fail. -/
abbrev RunAct (α : Type) := RunState → Outcome α × RunState

namespace RunState

/-- A call that fails when the script says so, and else does what it does. -/
def call {α : Type} (c : RunCall) (act : RunState → α × RunState) : RunAct α := fun st =>
  match st.script.make c with
  | (some f, script) => (.error f, { st with script })
  | (none, script) =>
    match act { st with script } with
    | (a, st) => (.ok a, st)

/-- Delivers events. -/
def write (es : List ChangeEvent) : RunAct Unit := call .write fun st =>
  ((), { st with sink :=
    { st.sink with events := st.sink.events ++ es, writes := st.sink.writes + 1 } })

/-- Flushes what was delivered. -/
def flush : RunAct Unit := call .flush fun st =>
  ((), { st with sink := { st.sink with flushes := st.sink.flushes + 1 } })

/-- Saves a checkpoint. -/
def save (c : Checkpoint) : RunAct Unit := call .save fun st =>
  ((), { st with checkpoints := st.checkpoints.save c, saved := st.saved ++ [c] })

/-- The checkpoint of a split. -/
def load (id : SplitId) : RunAct (Option Checkpoint) := call .load fun st =>
  (st.checkpoints.load id, st)

/-- Counts a checkpoint. -/
def countCheckpoint (st : RunState) : RunState :=
  { st with shared := { st.shared with metrics := st.shared.metrics.recordCheckpoint } }

/-- Counts a retry. -/
def countRetry (st : RunState) : RunState :=
  { st with shared := { st.shared with metrics := st.shared.metrics.recordRetry } }

end RunState

/-- What an attempt comes to. -/
inductive Attempt where
  | finished (completion : Option SplitCompletion)
  | failed (f : Fault)
  /-- There is nothing to deliver any more, and no end. -/
  | idle

namespace Runner

/-- Delivers a batch, unless it is empty. -/
def deliver (es : List ChangeEvent) : RunAct Unit := fun st =>
  if es = [] then (.ok (), st) else RunState.write es st

/-- Saves a checkpoint of an incremental split at a position. -/
def checkpoint (r : Runner) (s : IncrementalSplit) (offset : Offset) : RunAct Unit := fun st =>
  match RunState.flush st with
  | (.error f, st) => (.error f, st)
  | (.ok (), st) =>
    match RunState.save ⟨s.splitId, s.tableIds, offset, r.stamp⟩ st with
    | (.error f, st) => (.error f, st)
    | (.ok (), st) => (.ok (), st.countCheckpoint)

/-- Saves a checkpoint when the position of an incremental split has moved on since the last one. -/
def checkpointIfMoved (r : Runner) (split : Split) (last offset : Offset) : RunAct Unit := fun st =>
  match split with
  | .snapshot _ => (.ok (), st)
  | .incremental s => if offset = last then (.ok (), st) else r.checkpoint s offset st

/-- Delivers and checkpoints what a session reads, up to its end; `last` is the position of the last
checkpoint.  A poll interval that goes by is an empty batch, which is looked at once: what comes
after it would be the same again. -/
def drive (r : Runner) (split : Split) (s : Session) (last : Offset) (st : RunState) :
    Attempt × Session × RunState :=
  match _h : s.nextBatch st.shared with
  | (.idle, s, shared) =>
    match r.checkpointIfMoved split last s.reader.offset { st with shared } with
    | (.error f, st) => (.failed f, s, st)
    | (.ok (), st) => (.idle, s, st)
  | (.failed f, s, shared) => (.failed f, s, { st with shared })
  | (.ended, s, shared) =>
    match RunState.flush { st with shared } with
    | (.error f, st) => (.failed f, s, st)
    | (.ok (), st) => (.finished s.reader.completion, s, st)
  | (.events es, s, shared) =>
    match deliver es { st with shared } with
    | (.error f, st) => (.failed f, s, st)
    | (.ok (), st) =>
      match r.checkpointIfMoved split last s.reader.offset st with
      | (.error f, st) => (.failed f, s, st)
      | (.ok (), st) => r.drive split s s.reader.offset st
termination_by s.toDo
decreasing_by exact Session.nextBatch_before _h

/-- Closes the task of an attempt. -/
def closeTask (t : Task) (st : RunState) : RunState :=
  { st with shared := (t.close st.shared).2 }

/-- Reads a configured task into the sink, and closes it unless it is idle.  Reading begins with a
wait for the producer, for which there has to be patience left. -/
def readTask (r : Runner) (split : Split) (t : Task) (st : RunState) : Attempt × RunState :=
  match t.read with
  | (.error f, t) => (.failed f, closeTask t st)
  | (.ok (), t) =>
    if r.patienceMs ≤ st.sleptMs then (.idle, st)
    else match t.stage with
    | .reading _ session =>
      match r.drive split session t.offset st with
      | (.idle, _, st) => (.idle, st)
      | (result, session, st) =>
        (result, closeTask { t with stage := .reading split session } st)
    | _ => (.finished none, closeTask t st)

/-- One attempt on a fresh task. -/
def attempt (r : Runner) (split : Split) (st : RunState) : Attempt × RunState :=
  match RunState.call .create (fun st => ((), st)) st with
  | (.error f, st) => (.failed f, st)
  | (.ok (), st) =>
    let shared := if r.sharesHistory then st.shared else { st.shared with history := .empty }
    match ({ config := r.config } : Task).configure split shared with
    | (.error f, t, shared) => (.failed f, closeTask t { st with shared })
    | (.ok (), t, shared) => r.readTask split t { st with shared }

/-- The split from its checkpoint on, when it is an incremental one and has a checkpoint. -/
def resume (split : Split) : RunAct Split := fun st =>
  match split with
  | .snapshot s => (.ok (.snapshot s), st)
  | .incremental s =>
    match RunState.load s.splitId st with
    | (.error f, st) => (.error f, st)
    | (.ok none, st) => (.ok (.incremental s), st)
    | (.ok (some c), st) => (.ok (.incremental (c.applyTo s)), st)

/-- What a run comes to. -/
inductive Result where
  | returned (r : Outcome (Option SplitCompletion))
  | running
  /-- The next delay would be longer than any duration. -/
  | overlong

/-- Makes attempts, at most `attempts` more of them, after `retries` retries. -/
def runFrom (r : Runner) (split : Split) (st : RunState) (retries : Nat) :
    Nat → Result × RunState
  | 0 => (.running, st)
  | attempts + 1 =>
    match r.attempt split st with
    | (.idle, st) => (.running, st)
    | (.finished completion, st) => (.returned (.ok completion), st)
    | (.failed f, st) =>
      if r.retry.retries retries f then
        match r.retry.delay retries with
        | none => (.overlong, st)
        | some delay =>
          if r.patienceMs < st.sleptMs + delay.timerMillis then (.running, st.countRetry)
          else
            match resume split
                { st.countRetry with sleptMs := st.sleptMs + delay.timerMillis } with
            | (.error f, st) => (.returned (.error f), st)
            | (.ok split, st) => r.runFrom split st (retries + 1) attempts
      else (.returned (.error f), st)

/-- Runs a split, with at most `attempts` attempts. -/
def run (r : Runner) (split : Split) (st : RunState) (attempts : Nat) : Result × RunState :=
  match resume split st with
  | (.error f, st) => (.returned (.error f), st)
  | (.ok split, st) => r.runFrom split st 0 attempts

end Runner
end Changefeed
