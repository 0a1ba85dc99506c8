import Mathlib.Data.List.Infix
import Changefeed.Proofs.Dispatch
import Changefeed.Proofs.Fetch.Reading

/-!
# What a stream makes of the log

A stream makes one record for each record of the log, up to the first one at or past its end or the
first one that cannot be read.  The *trace* says which, for a log that is read without
interruption.  A connection that drops or fails cuts the trace short and changes nothing before the
cut.

Nothing but the history changes on the way, and that only by layout changes of captured tables; in
a log without them every record stands for itself.
-/

namespace Changefeed
namespace StreamJob

/-- The records that a stream makes of a log, and how they end; a log that is drained waits. -/
def trace (job : StreamJob) (h : SchemaHistory) : List LogRecord → List QueueRecord × Finish
  | [] => ([], .waits)
  | r :: rest =>
    if job.isBeyond r.position then ([], .ends)
    else match job.dispatcher.dispatch h r with
      | .error f => ([], .fails f)
      | .ok (d, h') =>
        if job.isAtEnd r.position then ([Producer.streamed job r.position d], .ends)
        else
          (Producer.streamed job r.position d :: (job.trace h' rest).1, (job.trace h' rest).2)

/-- How a stream ends when its log is drained. -/
def drainedFinish (endsWhenDrained : Bool) : Finish → Finish
  | .waits => if endsWhenDrained then .fails .connectionClosed else .waits
  | finish => finish

end StreamJob

/-- The output is a part of a trace that was cut short, or all of it. -/
structure Output.Follows (o : Output) (trace : List QueueRecord × Finish) : Prop where
  records : o.records <+: trace.1
  ends : o.finish = .ends → o.records = trace.1 ∧ trace.2 = .ends

lemma Output.follows_nil {finish : Finish} {source : Shared} {trace : List QueueRecord × Finish}
    (h : finish ≠ .ends) : Output.Follows ⟨[], finish, source⟩ trace :=
  ⟨List.nil_prefix, fun hends => absurd hends h⟩

lemma Output.Follows.after {o : Output} {trace : List QueueRecord × Finish} (h : o.Follows trace)
    (r : QueueRecord) : (o.after [r]).Follows (r :: trace.1, trace.2) where
  records := (List.prefix_cons_inj r).mpr h.records
  ends hends := ⟨congrArg (r :: ·) (h.ends hends).1, (h.ends hends).2⟩

lemma Finish.ofFault_ne_ends (f : Fault) : Finish.ofFault f ≠ .ends := by
  unfold Finish.ofFault
  split <;> simp

namespace Producer

variable {job : StreamJob} {log : LogStream} {sh : Shared}

/-- Reading is interrupted by the log itself alone. -/
def Uninterrupted (log : LogStream) : Prop := log.dropsAfter = none ∧ log.failsAfter = none

lemma next_uninterrupted {log : LogStream} (h : Uninterrupted log) :
    log.next = match log.records with
      | [] => (if log.endsWhenDrained then .ended else .waits, log)
      | r :: rest => (.record r, { log with records := rest }) := by
  obtain ⟨records, endsWhenDrained, dropsAfter, failsAfter⟩ := log
  obtain ⟨rfl, rfl⟩ := h
  cases records <;> rfl

lemma output_done (sh : Shared) : output .done sh = ⟨[], .ends, sh.source⟩ :=
  output_ends rfl

/-- What a stream makes when the log gives a record. -/
lemma output_stream_record {r : LogRecord} {rest : LogStream}
    (hnext : log.next = (.record r, rest)) :
    (stream job log).output sh =
      if job.isBeyond r.position then ⟨[], .ends, sh.source⟩
      else match job.dispatcher.dispatch sh.history r with
        | .error f => ⟨[], .ofFault f, sh.source⟩
        | .ok (d, h') =>
          if job.isAtEnd r.position then
            ⟨[streamed job r.position d], .ends, { sh with history := h' }.source⟩
          else ((stream job rest).output { sh with history := h' }).after
            [streamed job r.position d] := by
  by_cases hbeyond : job.isBeyond r.position
  · have hstep : (stream job log).step sh = (.ok (.quiet .done), sh) := by
      simp [step, streamStep, hnext, hbeyond]
    rw [if_pos hbeyond, output_quiet hstep, output_done]
  · rw [if_neg hbeyond]
    cases hdispatch : job.dispatcher.dispatch sh.history r with
    | error f =>
      refine output_fails ?_
      simp [step, streamStep, hnext, hbeyond, hdispatch]
    | ok result =>
      obtain ⟨d, h'⟩ := result
      have hstep : (stream job log).step sh =
          (.ok (.push (streamed job r.position d) (afterStream job rest r.position)),
            { sh with history := h', metrics := countDispatched sh.metrics d }) := by
        simp [step, streamStep, hnext, hbeyond, hdispatch]
      rw [output_push hstep, afterStream]
      dsimp only
      split
      · rw [output_done]
        rfl
      · exact congrArg _ (output_congr rfl)

/-- The output of a stream follows the trace of its log, and leaves the server alone. -/
lemma output_stream_follows (job : StreamJob) (log : LogStream) (sh : Shared) :
    ((stream job log).output sh).Follows (job.trace sh.history log.records) ∧
      ((stream job log).output sh).source.server = sh.server ∧
      ((stream job log).output sh).source.backend = sh.backend := by
  generalize hn : log.records.length = n
  induction n using Nat.strong_induction_on generalizing log sh with
  | _ n ih =>
    cases hnext : log.next with
    | mk read rest =>
      cases read with
      | record r =>
        have hlength := length_next hnext
        rw [output_stream_record hnext, LogStream.next_record hnext, StreamJob.trace]
        split
        · exact ⟨⟨List.nil_prefix, fun _ => ⟨rfl, rfl⟩⟩, rfl, rfl⟩
        · cases hdispatch : job.dispatcher.dispatch sh.history r with
          | error f => exact ⟨Output.follows_nil (Finish.ofFault_ne_ends f), rfl, rfl⟩
          | ok result =>
            obtain ⟨d, h'⟩ := result
            dsimp only
            split
            · exact ⟨⟨List.prefix_rfl, fun _ => ⟨rfl, rfl⟩⟩, rfl, rfl⟩
            · obtain ⟨hfollows, hserver, hbackend⟩ :=
                ih _ (hn ▸ hlength) rest { sh with history := h' } rfl
              exact ⟨hfollows.after _, hserver, hbackend⟩
      | ended =>
        have hstep : (stream job log).step sh = (.error .connectionClosed, sh) := by
          simp [step, streamStep, hnext]
        rw [output_fails hstep]
        exact ⟨Output.follows_nil (Finish.ofFault_ne_ends _), rfl, rfl⟩
      | waits =>
        have hstep : (stream job log).step sh = (.ok .waits, sh) := by
          simp [step, streamStep, hnext]
        rw [output_waits hstep]
        exact ⟨Output.follows_nil (by simp), rfl, rfl⟩
      | failed f =>
        have hstep : (stream job log).step sh = (.error f, sh) := by
          simp [step, streamStep, hnext]
        rw [output_fails hstep]
        exact ⟨Output.follows_nil (Finish.ofFault_ne_ends _), rfl, rfl⟩

/-- The output of a stream is the trace of a log that is not interrupted. -/
lemma output_stream_uninterrupted (job : StreamJob) {log : LogStream} (hlog : Uninterrupted log)
    (sh : Shared) :
    ((stream job log).output sh).records = (job.trace sh.history log.records).1 ∧
      ((stream job log).output sh).finish =
        StreamJob.drainedFinish log.endsWhenDrained (job.trace sh.history log.records).2 := by
  obtain ⟨records, endsWhenDrained, dropsAfter, failsAfter⟩ := log
  obtain ⟨rfl, rfl⟩ := hlog
  induction records generalizing sh with
  | nil =>
    cases endsWhenDrained with
    | true =>
      rw [output_fails rfl]
      exact ⟨rfl, rfl⟩
    | false =>
      rw [output_waits rfl]
      exact ⟨rfl, rfl⟩
  | cons r rest ih =>
    rw [output_stream_record (next_uninterrupted ⟨rfl, rfl⟩), StreamJob.trace]
    split
    · exact ⟨rfl, rfl⟩
    · cases hdispatch : job.dispatcher.dispatch sh.history r with
      | error f =>
        have hf : f ≠ .queueClosed := dispatch_ne_queueClosed hdispatch
        exact ⟨rfl, if_neg hf⟩
      | ok result =>
        obtain ⟨d, h'⟩ := result
        dsimp only
        split
        · exact ⟨rfl, rfl⟩
        · obtain ⟨hrecords, hfinish⟩ := ih { sh with history := h' }
          exact ⟨congrArg _ hrecords, hfinish⟩

end Producer
end Changefeed
