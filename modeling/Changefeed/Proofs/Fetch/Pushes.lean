import Changefeed.Proofs.Fetch.Evolution
import Changefeed.Proofs.Fetch.Interleaving

/-!
# One record for each record of the log

A stream pushes one record for each record that it reads, at the position of that one, in the order
of the log.  What it pushes for a record depends on that record and on the layouts that the records
before it have brought (`StreamJob.queued`).  A record *passes* when it is read and neither is
behind the end nor has come to it; the first record that does not pass ends the stream, with or
without a last record (`StreamJob.HaltsAt`), and so does a log that is drained or fails.

Two things come together in that.  The records and the end of a stream are those of the trace of
what its log delivers, however the delivery ends (`output_stream_drain`).  And they go through the
queue as they are: whatever the limits of the queue are and whenever batches are taken from it, what
has come out and what is buffered is a beginning of the records (`Work.Drawn`).
-/

namespace Changefeed

/-- How a stream ends that has come to the end of what its log delivers. -/
def StreamRead.finish : StreamRead → Finish
  | .ended => .ofFault .connectionClosed
  | .failed f => .ofFault f
  | .waits | .record _ => .waits

namespace StreamJob

variable {job : StreamJob} {h : SchemaHistory} {r : LogRecord} {records : List LogRecord}
  {tail : StreamRead}

/-! ## What is pushed for a record -/

/-- What a stream pushes for a record: the change of a captured table that is to be sent, and a
heartbeat for everything else. -/
def queued (job : StreamJob) (h : SchemaHistory) : LogRecord → Outcome QueueRecord
  | .change c =>
    if job.dispatcher.captures c.tableId then
      (Dispatcher.decode h c).map fun e =>
        if job.shouldEmit e then .change e else .heartbeat c.position
    else .ok (.heartbeat c.position)
  | .schemaChange r => .ok (.heartbeat r.position)
  | .heartbeat position => .ok (.heartbeat position)

/-- That is what the stream makes of the record when it is dispatched. -/
lemma queued_eq (job : StreamJob) (h : SchemaHistory) (r : LogRecord) :
    job.queued h r =
      (job.dispatcher.dispatch h r).map fun d => Producer.streamed job r.position d.1 := by
  cases r with
  | change c =>
    simp only [queued, Dispatcher.dispatch]
    split
    · cases Dispatcher.decode h c <;> rfl
    · rfl
  | schemaChange r =>
    simp only [queued, Dispatcher.dispatch]
    split <;> rfl
  | heartbeat position => rfl

/-- A record is pushed at the position of the one that it stands for. -/
lemma queued_position {q : QueueRecord} (hq : job.queued h r = .ok q) :
    q.position = r.position := by
  cases r with
  | change c =>
    rw [queued] at hq
    by_cases hcaptured : job.dispatcher.captures c.tableId = true
    · rw [if_pos hcaptured] at hq
      cases hdecode : Dispatcher.decode h c with
      | error f =>
        rw [hdecode] at hq
        cases hq
      | ok e =>
        rw [hdecode] at hq
        obtain rfl := Except.ok.inj hq
        dsimp only
        by_cases hemit : job.shouldEmit e = true
        · rw [if_pos hemit]
          exact position_of_decode hdecode
        · rw [if_neg hemit]
          rfl
    · rw [if_neg hcaptured] at hq
      obtain rfl := Except.ok.inj hq
      rfl
  | schemaChange r =>
    obtain rfl := Except.ok.inj hq
    rfl
  | heartbeat position =>
    obtain rfl := Except.ok.inj hq
    rfl

/-! ## Where a stream halts -/

/-- The stream pushes something for the record and goes on to the next one. -/
structure Passes (job : StreamJob) (h : SchemaHistory) (r : LogRecord) : Prop where
  not_beyond : job.isBeyond r.position = false
  not_atEnd : job.isAtEnd r.position = false
  queued : ∃ q, job.queued h r = .ok q

/-- The stream does not go on after this read: what it pushes last, if anything, and how it ends.
`tail` is how the log goes on where it delivers no record. -/
inductive HaltsAt (job : StreamJob) (h : SchemaHistory) (tail : StreamRead) :
    Option LogRecord → List QueueRecord → Finish → Prop
  | drained : HaltsAt job h tail none [] tail.finish
  | beyond {r : LogRecord} (hbeyond : job.isBeyond r.position = true) :
      HaltsAt job h tail (some r) [] .ends
  | unread {r : LogRecord} {f : Fault} (hbeyond : job.isBeyond r.position = false)
      (hfault : job.queued h r = .error f) : HaltsAt job h tail (some r) [] (.ofFault f)
  | atEnd {r : LogRecord} {q : QueueRecord} (hbeyond : job.isBeyond r.position = false)
      (hqueued : job.queued h r = .ok q) (hend : job.isAtEnd r.position = true) :
      HaltsAt job h tail (some r) [q] .ends

/-- The stream halts after it has pushed so many records, and ends so: all records before some place
pass, and it halts there. -/
def Halts (job : StreamJob) (h : SchemaHistory) (records : List LogRecord) (tail : StreamRead)
    (pushed : Nat) (finish : Finish) : Prop :=
  ∃ i last, (∀ n < i, ∃ r, records[n]? = some r ∧
      job.Passes (job.dispatcher.learnAll h (records.take n)) r) ∧
    job.HaltsAt (job.dispatcher.learnAll h (records.take i)) tail records[i]? last finish ∧
    pushed = i + last.length

lemma HaltsAt.not_passes {last : List QueueRecord} {finish : Finish}
    (hhalts : job.HaltsAt h tail (some r) last finish) : ¬job.Passes h r := by
  intro hpasses
  cases hhalts with
  | beyond hbeyond => simp [hpasses.not_beyond] at hbeyond
  | unread _ hfault =>
    obtain ⟨q, hq⟩ := hpasses.queued
    rw [hfault] at hq
    cases hq
  | atEnd _ _ hend => simp [hpasses.not_atEnd] at hend

lemma HaltsAt.unique {read : Option LogRecord} {last last' : List QueueRecord}
    {finish finish' : Finish} (hhalts : job.HaltsAt h tail read last finish)
    (hhalts' : job.HaltsAt h tail read last' finish') :
    last.length = last'.length ∧ finish = finish' := by
  cases hhalts <;> cases hhalts' <;> simp_all

/-- There is one place to halt at. -/
lemma Halts.unique {pushed pushed' : Nat} {finish finish' : Finish}
    (hhalts : job.Halts h records tail pushed finish)
    (hhalts' : job.Halts h records tail pushed' finish') :
    pushed = pushed' ∧ finish = finish' := by
  obtain ⟨i, last, hpasses, hat, rfl⟩ := hhalts
  obtain ⟨i', last', hpasses', hat', rfl⟩ := hhalts'
  obtain hlt | rfl | hlt := Nat.lt_trichotomy i i'
  · obtain ⟨r, hr, hpass⟩ := hpasses' i hlt
    rw [hr] at hat
    exact absurd hpass hat.not_passes
  · obtain ⟨hlength, rfl⟩ := hat.unique hat'
    exact ⟨by omega, rfl⟩
  · obtain ⟨r, hr, hpass⟩ := hpasses i' hlt
    rw [hr] at hat'
    exact absurd hpass hat'.not_passes

lemma HaltsAt.halts {last : List QueueRecord} {finish : Finish}
    (hhalts : job.HaltsAt h tail records[0]? last finish) :
    job.Halts h records tail last.length finish :=
  ⟨0, last, fun n hn => absurd hn (Nat.not_lt_zero n), hhalts, by omega⟩

lemma Halts.cons {pushed : Nat} {finish : Finish} (hpasses : job.Passes h r)
    (hhalts : job.Halts (job.dispatcher.learn h r) records tail pushed finish) :
    job.Halts h (r :: records) tail (pushed + 1) finish := by
  obtain ⟨i, last, hbefore, hat, rfl⟩ := hhalts
  refine ⟨i + 1, last, fun n hn => ?_, hat, by omega⟩
  cases n with
  | zero => exact ⟨r, rfl, hpasses⟩
  | succ n => exact hbefore n (by omega)

/-! ## The trace -/

/-- How a stream ends whose log goes on so behind the records of the trace. -/
def closing (tail : StreamRead) : Finish → Finish
  | .waits => tail.finish
  | finish => finish

/-- The trace halts where the stream does. -/
lemma trace_halts (job : StreamJob) (h : SchemaHistory) (records : List LogRecord)
    (tail : StreamRead) :
    job.Halts h records tail (job.trace h records).1.length
      (closing tail (job.trace h records).2) := by
  induction records generalizing h with
  | nil => exact HaltsAt.drained.halts
  | cons r rest ih =>
    have hqueued := job.queued_eq h r
    rw [trace]
    by_cases hbeyond : job.isBeyond r.position = true
    · rw [if_pos hbeyond]
      exact (HaltsAt.beyond hbeyond).halts
    · rw [if_neg hbeyond]
      replace hbeyond : job.isBeyond r.position = false := by simpa using hbeyond
      cases hdispatch : job.dispatcher.dispatch h r with
      | error f =>
        rw [hdispatch] at hqueued
        have hfault : Finish.ofFault f = .fails f := if_neg (dispatch_ne_queueClosed hdispatch)
        have hat : job.HaltsAt h tail (r :: rest)[0]? [] (.ofFault f) := .unread hbeyond hqueued
        rw [hfault] at hat
        exact hat.halts
      | ok result =>
        obtain ⟨d, h'⟩ := result
        rw [hdispatch] at hqueued
        dsimp only
        by_cases hend : job.isAtEnd r.position = true
        · rw [if_pos hend]
          exact (HaltsAt.atEnd hbeyond hqueued hend).halts
        · rw [if_neg hend]
          have hpasses : job.Passes h r := ⟨hbeyond, by simpa using hend, _, hqueued⟩
          rw [Dispatcher.history_of_dispatch hdispatch]
          exact (ih _).cons hpasses

/-- What stands at a place of the trace was pushed for the record at that place of the log. -/
lemma queued_of_trace {n : Nat} {q : QueueRecord} (hq : (job.trace h records).1[n]? = some q) :
    ∃ r, records[n]? = some r ∧
      job.queued (job.dispatcher.learnAll h (records.take n)) r = .ok q ∧
      job.isBeyond r.position = false ∧
      (job.isAtEnd r.position = true → n + 1 = (job.trace h records).1.length) := by
  induction records generalizing h n with
  | nil => simp [trace] at hq
  | cons r rest ih =>
    have hqueued := job.queued_eq h r
    rw [trace] at hq ⊢
    by_cases hbeyond : job.isBeyond r.position = true
    · simp [if_pos hbeyond] at hq
    · rw [if_neg hbeyond] at hq ⊢
      cases hdispatch : job.dispatcher.dispatch h r with
      | error f => simp [hdispatch] at hq
      | ok result =>
        obtain ⟨d, h'⟩ := result
        rw [hdispatch] at hqueued
        simp only [hdispatch] at hq ⊢
        by_cases hend : job.isAtEnd r.position = true
        · rw [if_pos hend] at hq ⊢
          cases n with
          | zero =>
            obtain rfl := Option.some.inj hq
            exact ⟨r, rfl, hqueued, by simpa using hbeyond, fun _ => rfl⟩
          | succ n => simp at hq
        · rw [if_neg hend] at hq ⊢
          cases n with
          | zero =>
            obtain rfl := Option.some.inj hq
            exact ⟨r, rfl, hqueued, by simpa using hbeyond, fun hatEnd => absurd hatEnd hend⟩
          | succ n =>
            rw [Dispatcher.history_of_dispatch hdispatch] at hq ⊢
            obtain ⟨r', hr', hq', hbeyond', hlast⟩ := ih hq
            refine ⟨r', hr', hq', hbeyond', fun hatEnd => ?_⟩
            rw [List.length_cons, ← hlast hatEnd]

end StreamJob

/-- The output of a stream is the trace of what its log delivers, and ends as the delivery does
where nothing ends it before. -/
lemma Producer.output_stream_drain (job : StreamJob) (log : LogStream) (sh : Shared) :
    ((stream job log).output sh).records = (job.trace sh.history log.drain.1).1 ∧
      ((stream job log).output sh).finish =
        StreamJob.closing log.drain.2 (job.trace sh.history log.drain.1).2 := by
  fun_induction LogStream.drain log generalizing sh with
  | case1 log r rest hnext ih =>
    rw [output_stream_record hnext, StreamJob.trace]
    by_cases hbeyond : job.isBeyond r.position = true
    · rw [if_pos hbeyond, if_pos hbeyond]
      exact ⟨rfl, rfl⟩
    · rw [if_neg hbeyond, if_neg hbeyond]
      cases hdispatch : job.dispatcher.dispatch sh.history r with
      | error f => exact ⟨rfl, if_neg (dispatch_ne_queueClosed hdispatch)⟩
      | ok result =>
        obtain ⟨d, h'⟩ := result
        dsimp only
        by_cases hend : job.isAtEnd r.position = true
        · rw [if_pos hend, if_pos hend]
          exact ⟨rfl, rfl⟩
        · rw [if_neg hend, if_neg hend]
          obtain ⟨hrecords, hfinish⟩ := ih { sh with history := h' }
          exact ⟨congrArg _ hrecords, hfinish⟩
  | case2 log rest hnext =>
    have hstep : (stream job log).step sh = (.error .connectionClosed, sh) := by
      simp [step, streamStep, hnext]
    rw [output_fails hstep]
    exact ⟨rfl, rfl⟩
  | case3 log rest hnext =>
    have hstep : (stream job log).step sh = (.ok .waits, sh) := by
      simp [step, streamStep, hnext]
    rw [output_waits hstep]
    exact ⟨rfl, rfl⟩
  | case4 log f rest hnext =>
    have hstep : (stream job log).step sh = (.error f, sh) := by
      simp [step, streamStep, hnext]
    rw [output_fails hstep]
    exact ⟨rfl, rfl⟩

/-! ## Through the queue -/

namespace Work

/-- What has become of work from whose queue batches are taken between its turns, and what was
taken.  The counters may change on the way. -/
inductive Drawn (w₀ : Work) (q₀ : EventQueue) (sh₀ : Shared) :
    Work → EventQueue → Shared → List QueueRecord → Prop
  | start : Drawn w₀ q₀ sh₀ w₀ q₀ sh₀ []
  | work {w : Work} {q : EventQueue} {sh : Shared} {taken : List QueueRecord}
      (h : Drawn w₀ q₀ sh₀ w q sh taken) :
      Drawn w₀ q₀ sh₀ (w.advance q sh).1 (w.advance q sh).2.1 (w.advance q sh).2.2 taken
  | take {w : Work} {q q' : EventQueue} {sh : Shared} {taken rs : List QueueRecord}
      (h : Drawn w₀ q₀ sh₀ w q sh taken) (htake : q.take = (some (.records rs), q')) :
      Drawn w₀ q₀ sh₀ w q' sh (taken ++ rs)
  | count {w : Work} {q : EventQueue} {sh : Shared} {taken : List QueueRecord}
      (h : Drawn w₀ q₀ sh₀ w q sh taken) (m : Metrics) :
      Drawn w₀ q₀ sh₀ w q { sh with metrics := m } taken

variable {w₀ w : Work} {q₀ q q' : EventQueue} {sh₀ sh : Shared} {taken : List QueueRecord}

lemma advance_output (hq : w.Attached q) (sh : Shared) :
    (w.advance q sh).1.Attached (w.advance q sh).2.1 ∧
      (w.advance q sh).1.output (w.advance q sh).2.1 (w.advance q sh).2.2 = w.output q sh := by
  obtain ⟨hsettings, -⟩ := advance_queue w q sh
  obtain ⟨hout, hlinked⟩ := advance_linked ⟨hq.opened, hq.unended⟩ sh
  refine ⟨⟨hlinked.opened, ?_, ?_, hlinked.unended⟩, hout⟩
  · rw [hsettings]
    exact hq.roomy
  · rw [hsettings]
    exact hq.sized

lemma take_output {rs : List QueueRecord} (hq : w.Attached q)
    (htake : q.take = (some (.records rs), q')) (sh : Shared) :
    w.Attached q' ∧ (w.output q' sh).after rs = w.output q sh := by
  have htaken := q.taken
  rw [htake] at htaken
  cases htaken with
  | records =>
    exact ⟨⟨hq.opened, hq.roomy, hq.sized, hq.unended⟩, Session.output_dropBatch w q sh⟩

/-- What was taken and the output together stay what the output was. -/
lemma Drawn.keeps (h : Drawn w₀ q₀ sh₀ w q sh taken) (hq : w₀.Attached q₀) :
    w.Attached q ∧ (w.output q sh).after taken = w₀.output q₀ sh₀ := by
  induction h with
  | start => exact ⟨hq, Output.after_nil _⟩
  | @work w q sh taken _ ih =>
    obtain ⟨hattached, hout⟩ := ih
    obtain ⟨hattached', hkept⟩ := advance_output hattached sh
    exact ⟨hattached', by rw [hkept, hout]⟩
  | @take w q q' sh taken rs _ htake ih =>
    obtain ⟨hattached, hout⟩ := ih
    obtain ⟨hattached', hfront⟩ := take_output hattached htake sh
    exact ⟨hattached', by rw [← Output.after_after, hfront, hout]⟩
  | @count w q sh taken _ m ih =>
    obtain ⟨hattached, hout⟩ := ih
    have hcounted : w.output q { sh with metrics := m } = w.output q sh := w.output_congr q rfl
    exact ⟨hattached, by rw [hcounted, hout]⟩

lemma buffer_prefix_output (w : Work) (q : EventQueue) (sh : Shared) :
    q.buffer <+: (w.output q sh).records := by
  cases w with
  | running p => exact List.prefix_append ..
  | blocked r p =>
    rw [output, Output.after_records, List.append_assoc]
    exact List.prefix_append ..
  | stopped => exact List.prefix_rfl

lemma Drawn.pushed_prefix (h : Drawn w₀ q₀ sh₀ w q sh taken) (hq : w₀.Attached q₀) :
    taken ++ q.buffer <+: (w₀.output q₀ sh₀).records := by
  obtain ⟨-, hout⟩ := h.keeps hq
  rw [← hout, Output.after_records]
  exact (List.prefix_append_right_inj taken).mpr (buffer_prefix_output w q sh)

lemma Drawn.pushed_all (h : Drawn w₀ q₀ sh₀ .stopped q sh taken) (hq : w₀.Attached q₀) :
    taken ++ q.buffer = (w₀.output q₀ sh₀).records ∧
      q.outcome = (w₀.output q₀ sh₀).finish := by
  obtain ⟨-, hout⟩ := h.keeps hq
  rw [← hout]
  exact ⟨rfl, rfl⟩

lemma Drawn.taken_all (h : Drawn w₀ q₀ sh₀ w q sh taken) (hq : w₀.Attached q₀)
    (hempty : (w.resume q sh).2.1.buffer = []) :
    taken = (w₀.output q₀ sh₀).records ∧
      (w.resume q sh).2.1.outcome = (w₀.output q₀ sh₀).finish := by
  obtain ⟨hattached, hout⟩ := h.keeps hq
  obtain ⟨hresumed, -, hsettled⟩ := resume_resumed w q sh hattached
  rw [← hout, ← hresumed, hsettled hempty]
  exact ⟨(List.append_nil taken).symm, rfl⟩

end Work

namespace StreamJob

/-- A stream pushes one record for each record of the log that it reads, in that order and at the
same position: a change, if that is to be sent, or a heartbeat.  None of them is behind the end, and
one that has come to the end is the last.  How many there are and how the stream ends is settled by
the first record that does not pass, or by the end of what the log delivers.  And whatever the queue
is that they are pushed to, and whenever batches are taken from it, they come out of it as they are:
a beginning of them at any time, and all of them when the stream has stopped or has nothing to push
any more. -/
theorem pushes_one_to_one (job : StreamJob) (log : LogStream) (sh : Shared) :
    let made := (Producer.stream job log).output sh
    (∀ n q, made.records[n]? = some q →
      ∃ r, log.drain.1[n]? = some r ∧
        job.queued (job.dispatcher.learnAll sh.history (log.drain.1.take n)) r = .ok q ∧
        q.position = r.position ∧ job.isBeyond r.position = false ∧
        (job.isAtEnd r.position = true → n + 1 = made.records.length)) ∧
      (∀ pushed finish, made.records.length = pushed ∧ made.finish = finish ↔
        job.Halts sh.history log.drain.1 log.drain.2 pushed finish) ∧
      ∀ q₀, Work.Attached (.running (.stream job log)) q₀ → q₀.buffer = [] →
        ∀ w q sh' taken, Work.Drawn (.running (.stream job log)) q₀ sh w q sh' taken →
          taken ++ q.buffer <+: made.records ∧
          (w = .stopped → taken ++ q.buffer = made.records ∧ q.outcome = made.finish) ∧
          ((w.resume q sh').2.1.buffer = [] →
            taken = made.records ∧ (w.resume q sh').2.1.outcome = made.finish) := by
  intro made
  obtain ⟨hrecords, hfinish⟩ := Producer.output_stream_drain job log sh
  have hhalts := job.trace_halts sh.history log.drain.1 log.drain.2
  rw [← hrecords, ← hfinish] at hhalts
  refine ⟨fun n q hq => ?_, fun pushed finish => ?_, fun q₀ hq₀ hempty w q sh' taken hdrawn => ?_⟩
  · rw [show made.records = _ from hrecords] at hq ⊢
    obtain ⟨r, hr, hqueued, hbeyond, hlast⟩ := queued_of_trace hq
    exact ⟨r, hr, hqueued, queued_position hqueued, hbeyond, hlast⟩
  · constructor
    · rintro ⟨rfl, rfl⟩
      exact hhalts
    · exact hhalts.unique
  · have hout : Work.output (.running (.stream job log)) q₀ sh = made := by
      rw [Work.output, hempty, Output.after_nil]
    refine ⟨?_, fun hstopped => ?_, fun hleft => ?_⟩
    · rw [← hout]
      exact hdrawn.pushed_prefix hq₀
    · subst hstopped
      rw [← hout]
      exact hdrawn.pushed_all hq₀
    · rw [← hout]
      exact hdrawn.taken_all hq₀ hleft

/-- A stream up to a position, at a queue for one record.  The log goes on behind the end, but the
record that comes to it is the last one. -/
theorem pushes_one_to_one_bounded :
    let job : StreamJob :=
      { dispatcher := ⟨[]⟩, ending := some (.binlog "log.1" 200), finished := [] }
    let log : LogStream :=
      { records := [.heartbeat (.binlog "log.1" 100), .heartbeat (.binlog "log.1" 200),
          .heartbeat (.binlog "log.1" 300)]
        endsWhenDrained := false }
    let sh : Shared := { server := {} }
    let made := (Producer.stream job log).output sh
    (made.records.length = 2 ∧ made.finish = .ends) ∧
      made.records = [.heartbeat (.binlog "log.1" 100), .heartbeat (.binlog "log.1" 200)] := by
  intro job log sh made
  obtain ⟨-, hhalts, hdrawn⟩ := pushes_one_to_one job log sh
  let q₀ : EventQueue := { settings := { limit := some 1 } }
  have hq₀ : Work.Attached (.running (.stream job log)) q₀ :=
    ⟨rfl, by simp [q₀], by decide, .inr ⟨rfl, rfl⟩⟩
  have hstart : Work.Drawn (.running (.stream job log)) q₀ sh _ _ _ _ := .start
  have hfull := hstart.work.work.work
  have htaken := hfull.take
    (show EventQueue.take _ = (some (.records [.heartbeat (.binlog "log.1" 100)]), _) from rfl)
  obtain ⟨-, hall, -⟩ := hdrawn q₀ hq₀ rfl _ _ _ _ htaken.work.work
  have hread : log.drain = (log.records, .waits) := by
    simp [log, LogStream.drain, LogStream.next, LogStream.deliver]
  rw [hread] at hhalts
  refine ⟨(hhalts 2 .ends).mpr ⟨1, _, fun n hn => ?_, .atEnd rfl rfl rfl, rfl⟩, (hall rfl).1.symm⟩
  obtain rfl : n = 0 := by omega
  exact ⟨_, rfl, rfl, rfl, _, rfl⟩

end StreamJob
end Changefeed
