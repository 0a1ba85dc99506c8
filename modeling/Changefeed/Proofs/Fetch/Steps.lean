import Changefeed.Proofs.Fetch.Reading
import Changefeed.Proofs.KeyedRows

/-!
# What a producer can make

A snapshot producer makes changes and then its watermark, which comes last: nothing is made behind
it.  A stream makes changes and heartbeats.  Every change has the images that its kind goes with.

So the records of a snapshot producer are changes, with the watermark behind them when they come to
an end; and where no watermark comes, there is no end.
-/

namespace Changefeed

/-- The position of a watermark. -/
def QueueRecord.mark? : QueueRecord → Option Offset
  | .watermark position => some position
  | .change _ | .heartbeat _ => none

/-- Nothing comes behind a watermark. -/
def MarkedLast (rs : List QueueRecord) : Prop := rs.Pairwise fun r _ => r.mark? = none

lemma MarkedLast.sublist {rs ss : List QueueRecord} (h : MarkedLast ss) (hsub : rs.Sublist ss) :
    MarkedLast rs :=
  List.Pairwise.sublist hsub h

lemma imaged_of_decodeWith {c : RowChange} {schema : SchemaRecord} {e : ChangeEvent}
    (h : c.decodeWith schema = .ok e) : e.Imaged :=
  ⟨(readAs_of_decodeWith h).images.1, (readAs_of_decodeWith h).images.2⟩

/-- An event that a record amounts to has the images of its kind. -/
lemma imaged_of_dispatch {d : Dispatcher} {h h' : SchemaHistory} {r : LogRecord} {e : ChangeEvent}
    (hdispatch : d.dispatch h r = .ok (.event e, h')) : e.Imaged := by
  cases r with
  | change c =>
    simp only [Dispatcher.dispatch, Dispatcher.decode] at hdispatch
    split at hdispatch
    · split at hdispatch
      · next schema _ =>
        cases hdecode : c.decodeWith schema with
        | error f => simp [hdecode, Except.map] at hdispatch
        | ok e' =>
          simp only [hdecode, Except.map, Except.ok.injEq, Prod.mk.injEq,
            Dispatched.event.injEq] at hdispatch
          exact hdispatch.1 ▸ imaged_of_decodeWith hdecode
      · simp [Except.map] at hdispatch
    · simp at hdispatch
  | schemaChange r =>
    simp only [Dispatcher.dispatch] at hdispatch
    split at hdispatch <;> simp at hdispatch
  | heartbeat position => simp [Dispatcher.dispatch] at hdispatch

namespace Producer

/-- The producer is one of a snapshot split and has not handed over its watermark. -/
def Unmarked : Producer → Prop
  | .start _ | .scan .. | .measure .. | .replay .. | .mark _ => True
  | .stream .. | .done => False

/-- What a producer can make in one step. -/
inductive Makes (p : Producer) : Produced → Prop where
  | quiet {next : Producer} (hnext : p.Unmarked → next.Unmarked) : Makes p (.quiet next)
  | change {e : ChangeEvent} {next : Producer} (he : e.Imaged)
      (hnext : p.Unmarked → next.Unmarked) : Makes p (.push (.change e) next)
  | heartbeat {position : Offset} {next : Producer} (hp : ¬p.Unmarked) :
      Makes p (.push (.heartbeat position) next)
  | mark {w : Offset} : Makes p (.push (.watermark w) .done)
  | waits : Makes p .waits
  | ends (hp : ¬p.Unmarked) : Makes p .ends

lemma unmarked_afterReplay (job : SnapshotJob) (high : Offset) (log : LogStream) (o : Offset) :
    (afterReplay job high log o).Unmarked := by
  unfold afterReplay
  split <;> trivial

/-- What a replay makes of a record. -/
lemma makes_replayed {p next : Producer} {job : SnapshotJob} {d : Dispatched}
    (hd : ∀ e, d = .event e → e.Imaged) (hnext : next.Unmarked) :
    p.Makes (replayed job next d) := by
  cases d with
  | event e =>
    simp only [replayed]
    split
    · exact .change (hd e rfl) fun _ => hnext
    · exact .quiet fun _ => hnext
  | schemaChanged _ => exact .quiet fun _ => hnext
  | heartbeat _ => exact .quiet fun _ => hnext
  | skipped => exact .quiet fun _ => hnext

/-- What a stream makes of a record. -/
lemma makes_streamed {job stream : StreamJob} {log : LogStream} {o : Offset} {d : Dispatched}
    {next : Producer} (hd : ∀ e, d = .event e → e.Imaged) :
    (Producer.stream stream log).Makes (.push (streamed job o d) next) := by
  cases d with
  | event e =>
    simp only [streamed]
    split
    · exact .change (hd e rfl) False.elim
    · exact .heartbeat id
  | schemaChanged _ => exact .heartbeat id
  | heartbeat _ => exact .heartbeat id
  | skipped => exact .heartbeat id

/-- A step makes one of the listed things. -/
lemma step_makes {p : Producer} {sh sh' : Shared} {d : Produced}
    (h : p.step sh = (.ok d, sh')) : p.Makes d := by
  cases p with
  | start job =>
    simp only [step, startStep] at h
    split at h
    · simp at h
    · split at h
      · simp at h
      · obtain rfl := Except.ok.inj (Prod.mk.inj h).1
        exact .quiet fun _ => trivial
  | scan job low rows =>
    simp only [step, scanStep] at h
    split at h
    · simp at h
    · obtain rfl := Except.ok.inj (Prod.mk.inj h).1
      exact .waits
    · obtain rfl := Except.ok.inj (Prod.mk.inj h).1
      exact .quiet fun _ => trivial
    · split at h
      · split at h
        · simp at h
        · next e hdecode =>
          obtain rfl := Except.ok.inj (Prod.mk.inj h).1
          have himaged := imaged_of_decodeWith hdecode
          exact .change ⟨himaged.hasBefore, himaged.hasAfter⟩ fun _ => trivial
      · simp at h
    · obtain rfl := Except.ok.inj (Prod.mk.inj h).1
      exact .quiet fun _ => trivial
  | measure job low =>
    simp only [step, measureStep] at h
    split at h
    · simp at h
    · split at h
      · obtain rfl := Except.ok.inj (Prod.mk.inj h).1
        exact .quiet fun _ => trivial
      · split at h
        · simp at h
        · obtain rfl := Except.ok.inj (Prod.mk.inj h).1
          exact .quiet fun _ => trivial
  | replay job high log =>
    simp only [step, replayStep] at h
    split at h
    · simp at h
    · obtain rfl := Except.ok.inj (Prod.mk.inj h).1
      exact .waits
    · obtain rfl := Except.ok.inj (Prod.mk.inj h).1
      exact .quiet fun _ => trivial
    · split at h
      · obtain rfl := Except.ok.inj (Prod.mk.inj h).1
        exact .quiet fun _ => trivial
      · split at h
        · simp at h
        · next hdispatch =>
          obtain rfl := Except.ok.inj (Prod.mk.inj h).1
          refine makes_replayed (fun e he => ?_) (unmarked_afterReplay ..)
          subst he
          exact imaged_of_dispatch hdispatch
  | mark w =>
    obtain rfl := Except.ok.inj (Prod.mk.inj h).1
    exact .mark
  | stream job log =>
    simp only [step, streamStep] at h
    split at h
    · simp at h
    · obtain rfl := Except.ok.inj (Prod.mk.inj h).1
      exact .waits
    · simp at h
    · split at h
      · obtain rfl := Except.ok.inj (Prod.mk.inj h).1
        exact .quiet False.elim
      · split at h
        · simp at h
        · next hdispatch =>
          obtain rfl := Except.ok.inj (Prod.mk.inj h).1
          refine makes_streamed fun e he => ?_
          subst he
          exact imaged_of_dispatch hdispatch
  | done =>
    obtain rfl := Except.ok.inj (Prod.mk.inj h).1
    exact .ends id

/-! ## All that a producer makes -/

/-- Nothing is made behind a watermark. -/
lemma markedLast_output (p : Producer) (sh : Shared) : MarkedLast (p.output sh).records := by
  fun_induction output p sh with
  | case1 => exact .nil
  | case2 => exact .nil
  | case3 => exact .nil
  | case4 p sh next sh' hstep ih => exact ih
  | case5 p sh r next sh' hstep ih =>
    refine List.pairwise_cons.mpr ⟨fun r' hr' => ?_, ih⟩
    cases step_makes hstep with
    | change => rfl
    | heartbeat => rfl
    | mark =>
      rw [output_ends rfl] at hr'
      cases hr'

/-- What a snapshot producer makes: changes, with the watermark behind them when that is all. -/
inductive Backfilled : Output → Prop where
  | whole (es : List ChangeEvent) {w : Offset} {source : Shared} (hes : ∀ e ∈ es, e.Imaged) :
      Backfilled ⟨es.map .change ++ [.watermark w], .ends, source⟩
  | part (es : List ChangeEvent) {finish : Finish} {source : Shared}
      (hes : ∀ e ∈ es, e.Imaged) (hfinish : finish ≠ .ends) :
      Backfilled ⟨es.map .change, finish, source⟩

lemma Backfilled.after {o : Output} (h : Backfilled o) {e : ChangeEvent} (he : e.Imaged) :
    Backfilled (o.after [.change e]) := by
  cases h with
  | whole es hes => exact .whole (e :: es) (List.forall_mem_cons.mpr ⟨he, hes⟩)
  | part es hes hfinish => exact .part (e :: es) (List.forall_mem_cons.mpr ⟨he, hes⟩) hfinish

lemma output_backfilled (p : Producer) (sh : Shared) (hp : p.Unmarked) :
    Backfilled (p.output sh) := by
  fun_induction output p sh with
  | case1 p sh f sh' hstep =>
    refine .part [] (by simp) ?_
    unfold Finish.ofFault
    split <;> simp
  | case2 p sh sh' hstep =>
    cases step_makes hstep with
    | ends hnot => exact absurd hp hnot
  | case3 p sh sh' hstep => exact .part [] (by simp) (by simp)
  | case4 p sh next sh' hstep ih =>
    cases step_makes hstep with
    | quiet hnext => exact ih (hnext hp)
  | case5 p sh r next sh' hstep ih =>
    cases step_makes hstep with
    | change he hnext => exact (ih (hnext hp)).after he
    | heartbeat hnot => exact absurd hp hnot
    | mark =>
      rw [output_ends rfl]
      exact .whole [] (by simp)

end Producer
end Changefeed
