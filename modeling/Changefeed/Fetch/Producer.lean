import Changefeed.Dispatch
import Changefeed.Fetch.Shared
import Changefeed.Queue.Basic

/-!
# Producers

A producer reads the log or the rows of one split and makes the records of its queue.  It works in
small steps, each of which makes at most one record.

An incremental split makes one record for every record of the log up to its ending position: the
change, when it is to be sent, or else a heartbeat.  A change is not to be sent when the finished
snapshot split that covers its row has it already.

A snapshot split notes the low watermark, scans its rows, which count as read there, and notes the
high watermark.  When it is delivered exactly once, it then replays the changes of its rows between
the two and ends as of the high one; else it ends as of the low one, and streaming will catch up
from there.
-/

namespace Changefeed

/-- A snapshot split to be read. -/
structure SnapshotJob where
  split : SnapshotSplit
  schema : SchemaRecord
  exactlyOnce : Bool

namespace SnapshotJob

/-- The tables of the split. -/
def dispatcher (j : SnapshotJob) : Dispatcher := ⟨[j.split.tableId]⟩

/-- The row of a change lies in the split. -/
def holds (j : SnapshotJob) (e : ChangeEvent) : Bool :=
  e.tableId = j.split.tableId && (e.keyValue j.split.keyColumn).any j.split.keyRange.contains

end SnapshotJob

/-- An incremental split to be read. -/
structure StreamJob where
  dispatcher : Dispatcher
  ending : Option Offset
  finished : List FinishedSplit

namespace StreamJob

/-- The finished split that covers the row of a change. -/
def covering (j : StreamJob) (e : ChangeEvent) : Option FinishedSplit :=
  j.finished.find? fun f => (e.keyValue f.keyColumn).any (f.covers e.tableId)

/-- A change is sent unless the split that covers it has it already. -/
def shouldEmit (j : StreamJob) (e : ChangeEvent) : Bool :=
  match j.covering e with
  | some f => f.isPast e.position
  | none => true

/-- A position lies behind the end. -/
def isBeyond (j : StreamJob) (o : Offset) : Bool := j.ending.any o.after

/-- A position has reached the end. -/
def isAtEnd (j : StreamJob) (o : Offset) : Bool := j.ending.any o.reached

end StreamJob

/-- What a producer does next. -/
inductive Producer where
  /-- Note the low watermark and begin the scan. -/
  | start (job : SnapshotJob)
  | scan (job : SnapshotJob) (low : Offset) (rows : LogStream)
  /-- Note the high watermark. -/
  | measure (job : SnapshotJob) (low : Offset)
  | replay (job : SnapshotJob) (high : Offset) (log : LogStream)
  /-- Hand over the watermark. -/
  | mark (watermark : Offset)
  | stream (job : StreamJob) (log : LogStream)
  | done

/-- What a step of a producer made. -/
inductive Produced where
  | push (r : QueueRecord) (next : Producer)
  | quiet (next : Producer)
  /-- There is nothing to read any more, and no end. -/
  | waits
  | ends

/-- The producer after the step. -/
def Produced.next? : Produced → Option Producer
  | .push _ next | .quiet next => some next
  | .waits | .ends => none

namespace Producer

/-- A step of a scan, which takes inserted rows alone. -/
def scanStep (job : SnapshotJob) (low : Offset) (rows : LogStream) : Act Produced := fun sh =>
  match rows.next with
  | (.failed f, _) => (.error f, sh)
  | (.waits, _) => (.ok .waits, sh)
  | (.ended, _) => (.ok (.quiet (.measure job low)), sh)
  | (.record (.change c), rest) =>
    if c.kind = .insert then
      match c.decodeWith job.schema with
      | .error f => (.error f, sh)
      | .ok e => (.ok (.push (.change { e with position := low }) (.scan job low rest)), sh)
    else (.error (.malformedRecord (.notAnInsert job.split.splitId.text c.kind.name)), sh)
  | (.record _, rest) => (.ok (.quiet (.scan job low rest)), sh)

/-- Begins a scan. -/
def startStep (job : SnapshotJob) : Act Produced := fun sh =>
  match Act.ask Server.currentPosition sh with
  | (.error f, sh) => (.error f, sh)
  | (.ok low, sh) =>
    match Act.ask (Server.scan job.split) sh with
    | (.error f, sh) => (.error f, sh)
    | (.ok rows, sh) => (.ok (.quiet (.scan job low rows)), sh)

/-- Ends a scan: what is to be replayed, and the watermark. -/
def measureStep (job : SnapshotJob) (low : Offset) : Act Produced := fun sh =>
  match Act.ask Server.currentPosition sh with
  | (.error f, sh) => (.error f, sh)
  | (.ok high, sh) =>
    if !job.exactlyOnce || high = low then (.ok (.quiet (.mark low)), sh)
    else match Act.ask (Server.openStream low) sh with
      | (.error f, sh) => (.error f, sh)
      | (.ok log, sh) => (.ok (.quiet (.replay job high log)), sh)

/-- What a replay does after a record at a position. -/
def afterReplay (job : SnapshotJob) (high : Offset) (log : LogStream) (o : Offset) : Producer :=
  if o.reached high then .mark high else .replay job high log

/-- What a replay makes of a record. -/
def replayed (job : SnapshotJob) (next : Producer) : Dispatched → Produced
  | .event e => if job.holds e then .push (.change e) next else .quiet next
  | .schemaChanged _ | .heartbeat _ | .skipped => .quiet next

/-- A layout change is counted. -/
def countDispatched (m : Metrics) : Dispatched → Metrics
  | .schemaChanged _ => m.recordSchemaChange
  | .event _ | .heartbeat _ | .skipped => m

/-- A step of a replay. -/
def replayStep (job : SnapshotJob) (high : Offset) (log : LogStream) : Act Produced := fun sh =>
  match log.next with
  | (.failed f, _) => (.error f, sh)
  | (.waits, _) => (.ok .waits, sh)
  | (.ended, _) => (.ok (.quiet (.mark high)), sh)
  | (.record r, rest) =>
    if r.position.after high then (.ok (.quiet (.mark high)), sh)
    else match job.dispatcher.dispatch sh.history r with
      | .error f => (.error f, sh)
      | .ok (d, history) =>
        (.ok (replayed job (afterReplay job high rest r.position) d),
          { sh with history, metrics := countDispatched sh.metrics d })

/-- What a stream does after a record at a position. -/
def afterStream (job : StreamJob) (log : LogStream) (o : Offset) : Producer :=
  if job.isAtEnd o then .done else .stream job log

/-- What a stream makes of a record at a position. -/
def streamed (job : StreamJob) (o : Offset) : Dispatched → QueueRecord
  | .event e => if job.shouldEmit e then .change e else .heartbeat o
  | .schemaChanged _ | .heartbeat _ | .skipped => .heartbeat o

/-- A step of a stream; a log that ends is a lost connection. -/
def streamStep (job : StreamJob) (log : LogStream) : Act Produced := fun sh =>
  match log.next with
  | (.failed f, _) => (.error f, sh)
  | (.waits, _) => (.ok .waits, sh)
  | (.ended, _) => (.error .connectionClosed, sh)
  | (.record r, rest) =>
    if job.isBeyond r.position then (.ok (.quiet .done), sh)
    else match job.dispatcher.dispatch sh.history r with
      | .error f => (.error f, sh)
      | .ok (d, history) =>
        (.ok (.push (streamed job r.position d) (afterStream job rest r.position)),
          { sh with history, metrics := countDispatched sh.metrics d })

/-- One step. -/
def step : Producer → Act Produced
  | .start job => startStep job
  | .scan job low rows => scanStep job low rows
  | .measure job low => measureStep job low
  | .replay job high log => replayStep job high log
  | .mark watermark => fun sh => (.ok (.push (.watermark watermark) .done), sh)
  | .stream job log => streamStep job log
  | .done => fun sh => (.ok .ends, sh)

/-! ## Every step leaves less to do -/

/-- The phases left. -/
def phase : Producer → Nat
  | .start _ => 4
  | .scan .. => 3
  | .measure .. => 2
  | .replay .. | .stream .. => 1
  | .mark _ | .done => 0

/-- The records left in the phase. -/
def left : Producer → Nat
  | .scan _ _ rows => rows.records.length
  | .replay _ _ log | .stream _ log => log.records.length
  | .mark _ => 1
  | .start _ | .measure .. | .done => 0

/-- The first producer has less to do than the second one. -/
def Less (p q : Producer) : Prop := p.phase < q.phase ∨ p.phase = q.phase ∧ p.left < q.left

/-- A stream with a record less. -/
theorem length_next {s t : LogStream} {r : LogRecord} (h : s.next = (.record r, t)) :
    t.records.length < s.records.length := by
  simp [LogStream.next_record h]

/-- A step of a scan leaves less to do. -/
theorem scanStep_less {job : SnapshotJob} {low : Offset} {rows : LogStream} {sh sh' : Shared}
    {d : Produced} {p : Producer} (h : scanStep job low rows sh = (.ok d, sh'))
    (hd : d.next? = some p) : p.Less (.scan job low rows) := by
  unfold scanStep at h
  split at h
  · simp at h
  · simp only [Prod.mk.injEq, Except.ok.injEq] at h
    simp [← h.1, Produced.next?] at hd
  · simp only [Prod.mk.injEq, Except.ok.injEq] at h
    simp only [← h.1, Produced.next?, Option.some.injEq] at hd
    subst hd
    simp [Less, phase]
  · next hn =>
    split at h
    · split at h
      · simp at h
      · simp only [Prod.mk.injEq, Except.ok.injEq] at h
        simp only [← h.1, Produced.next?, Option.some.injEq] at hd
        subst hd
        exact .inr ⟨rfl, length_next hn⟩
    · simp at h
  · next hn =>
    simp only [Prod.mk.injEq, Except.ok.injEq] at h
    simp only [← h.1, Produced.next?, Option.some.injEq] at hd
    subst hd
    exact .inr ⟨rfl, length_next hn⟩

/-- The beginning of a scan leaves less to do. -/
theorem startStep_less {job : SnapshotJob} {sh sh' : Shared} {d : Produced} {p : Producer}
    (h : startStep job sh = (.ok d, sh')) (hd : d.next? = some p) : p.Less (.start job) := by
  unfold startStep at h
  split at h
  · simp at h
  · split at h
    · simp at h
    · simp only [Prod.mk.injEq, Except.ok.injEq] at h
      simp only [← h.1, Produced.next?, Option.some.injEq] at hd
      subst hd
      simp [Less, phase]

/-- The end of a scan leaves less to do. -/
theorem measureStep_less {job : SnapshotJob} {low : Offset} {sh sh' : Shared} {d : Produced}
    {p : Producer} (h : measureStep job low sh = (.ok d, sh')) (hd : d.next? = some p) :
    p.Less (.measure job low) := by
  unfold measureStep at h
  split at h
  · simp at h
  · split at h
    · simp only [Prod.mk.injEq, Except.ok.injEq] at h
      simp only [← h.1, Produced.next?, Option.some.injEq] at hd
      subst hd
      simp [Less, phase]
    · split at h
      · simp at h
      · simp only [Prod.mk.injEq, Except.ok.injEq] at h
        simp only [← h.1, Produced.next?, Option.some.injEq] at hd
        subst hd
        simp [Less, phase]

/-- A step of a replay leaves less to do. -/
theorem replayStep_less {job : SnapshotJob} {high : Offset} {log : LogStream} {sh sh' : Shared}
    {d : Produced} {p : Producer} (h : replayStep job high log sh = (.ok d, sh'))
    (hd : d.next? = some p) : p.Less (.replay job high log) := by
  unfold replayStep at h
  split at h
  · simp at h
  · simp only [Prod.mk.injEq, Except.ok.injEq] at h
    simp [← h.1, Produced.next?] at hd
  · simp only [Prod.mk.injEq, Except.ok.injEq] at h
    simp only [← h.1, Produced.next?, Option.some.injEq] at hd
    subst hd
    simp [Less, phase]
  · next r rest hn =>
    split at h
    · simp only [Prod.mk.injEq, Except.ok.injEq] at h
      simp only [← h.1, Produced.next?, Option.some.injEq] at hd
      subst hd
      simp [Less, phase]
    · split at h
      · simp at h
      · next disp _ _ =>
        simp only [Prod.mk.injEq, Except.ok.injEq] at h
        have hp : p = afterReplay job high rest r.position := by
          rw [← h.1] at hd
          cases disp
          case event e =>
            simp only [replayed] at hd
            split at hd <;> simpa [Produced.next?, eq_comm] using hd
          all_goals simpa [replayed, Produced.next?, eq_comm] using hd
        subst hp
        unfold afterReplay
        split
        · simp [Less, phase]
        · exact .inr ⟨rfl, length_next hn⟩

/-- A step of a stream leaves less to do. -/
theorem streamStep_less {job : StreamJob} {log : LogStream} {sh sh' : Shared} {d : Produced}
    {p : Producer} (h : streamStep job log sh = (.ok d, sh')) (hd : d.next? = some p) :
    p.Less (.stream job log) := by
  unfold streamStep at h
  split at h
  · simp at h
  · simp only [Prod.mk.injEq, Except.ok.injEq] at h
    simp [← h.1, Produced.next?] at hd
  · simp at h
  · next r rest hn =>
    split at h
    · simp only [Prod.mk.injEq, Except.ok.injEq] at h
      simp only [← h.1, Produced.next?, Option.some.injEq] at hd
      subst hd
      simp [Less, phase]
    · split at h
      · simp at h
      · simp only [Prod.mk.injEq, Except.ok.injEq] at h
        simp only [← h.1, Produced.next?, Option.some.injEq] at hd
        subst hd
        unfold afterStream
        split
        · simp [Less, phase]
        · exact .inr ⟨rfl, length_next hn⟩

/-- Every step leaves less to do. -/
theorem step_less {p next : Producer} {sh sh' : Shared} {d : Produced}
    (h : p.step sh = (.ok d, sh')) (hd : d.next? = some next) : next.Less p := by
  cases p with
  | start job => exact startStep_less h hd
  | scan job low rows => exact scanStep_less h hd
  | measure job low => exact measureStep_less h hd
  | replay job high log => exact replayStep_less h hd
  | mark w =>
    simp only [step, Prod.mk.injEq, Except.ok.injEq] at h
    simp only [← h.1, Produced.next?, Option.some.injEq] at hd
    subst hd
    exact .inr ⟨rfl, by simp [left]⟩
  | stream job log => exact streamStep_less h hd
  | done =>
    simp only [step, Prod.mk.injEq, Except.ok.injEq] at h
    simp [← h.1, Produced.next?] at hd

end Producer
end Changefeed
