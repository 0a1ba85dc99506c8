import Changefeed.Proofs.Queue.Interleaving

/-!
# Queues lose nothing and keep the order

Whatever calls use a queue and however their sections interleave, the polled batches put together
are a beginning of the records that were accepted.  While nobody has closed the queue, the rest of
those records is what the buffer holds.  So when a poll comes to the end or to the fault of the
producer, every accepted record has been delivered.

`Ledger.Sound` is the invariant that carries this.  Besides the two equations it knows that a fault
is only set together with the end of the producer, and that the end is only reported when nothing
is buffered.
-/

namespace Changefeed
namespace Ledger

/-- The account and the queue agree. -/
structure Sound (settings : QueueSettings) (l : Ledger) : Prop where
  settings_eq : l.queue.settings = settings
  bounded : ∀ b ∈ l.batches, b.length ≤ settings.maxBatchSize
  ordered : l.delivered <+: l.accepted
  complete : l.queue.closed = false → l.delivered ++ l.queue.buffer = l.accepted
  failed : l.queue.closed = false → l.queue.error ≠ none → l.queue.finished = true
  atEnd : l.queue.closed = false → l.ended = true →
    l.queue.buffer = [] ∧ l.queue.finished = true

variable {settings : QueueSettings} {l : Ledger}

lemma sound_start (settings : QueueSettings) (gauges : Option QueueGauges) :
    (start settings gauges).Sound settings where
  settings_eq := rfl
  bounded := fun _ hb => absurd hb List.not_mem_nil
  ordered := List.nil_prefix
  complete := fun _ => rfl
  failed := fun _ h => absurd rfl h
  atEnd := fun _ hend => absurd hend Bool.false_ne_true

/-- Where nothing is reported, an open queue has to keep its records, and a fault comes with the
end. -/
lemma Sound.of_quiet (h : l.Sound settings) {l' : Ledger}
    (hsettings : l'.queue.settings = l.queue.settings) (haccepted : l'.accepted = l.accepted)
    (hbatches : l'.batches = l.batches) (hended : l'.ended = l.ended)
    (hopen : l'.queue.closed = false → l.queue.closed = false ∧
      l'.queue.buffer = l.queue.buffer ∧ (l'.queue.error ≠ none → l'.queue.finished = true) ∧
      (l.queue.finished = true → l'.queue.finished = true)) : l'.Sound settings := by
  have hdelivered : l'.delivered = l.delivered := by rw [delivered, delivered, hbatches]
  refine ⟨hsettings.trans h.settings_eq, hbatches ▸ h.bounded, ?_, ?_, ?_, ?_⟩
  · rw [hdelivered, haccepted]
    exact h.ordered
  · intro hclosed
    obtain ⟨hold, hbuffer, -, -⟩ := hopen hclosed
    rw [hdelivered, hbuffer, haccepted]
    exact h.complete hold
  · intro hclosed
    exact (hopen hclosed).2.2.1
  · intro hclosed hend
    obtain ⟨hold, hbuffer, -, hfinished⟩ := hopen hclosed
    rw [hended] at hend
    rw [hbuffer]
    exact ⟨(h.atEnd hold hend).1, hfinished (h.atEnd hold hend).2⟩

/-- What a poll took is accounted for as delivered. -/
lemma sound_polled (h : l.Sound settings) {p : Polled} {q : EventQueue}
    (htaken : l.queue.Taken (some p) q) {l' : Ledger} (hq : l'.queue = q)
    (haccepted : l'.accepted = (l.enter (.polled p)).accepted)
    (hbatches : l'.batches = (l.enter (.polled p)).batches)
    (hended : l'.ended = (l.enter (.polled p)).ended) : l'.Sound settings := by
  cases htaken with
  | closed hclosed =>
    have hnot : l'.queue.closed ≠ false := by simp [hq, hclosed]
    refine ⟨hq ▸ h.settings_eq, hbatches ▸ h.bounded, ?_, fun hopen => absurd hopen hnot,
      fun hopen => absurd hopen hnot, fun hopen => absurd hopen hnot⟩
    rw [delivered, hbatches, haccepted]
    exact h.ordered
  | records hclosed hbuffer =>
    have hflow : l'.delivered ++ l'.queue.buffer = l'.accepted := by
      have hd : l'.delivered = l.delivered ++ l.queue.batch := by
        simp [delivered, hbatches, enter]
      rw [hd, hq, List.append_assoc, EventQueue.batch_append_buffer, haccepted]
      exact h.complete hclosed
    refine ⟨hq ▸ h.settings_eq, ?_, ⟨_, hflow⟩, fun _ => hflow, ?_, ?_⟩
    · intro b hb
      rw [hbatches] at hb
      rcases List.mem_append.mp hb with hold | hnew
      · exact h.bounded b hold
      · rw [List.mem_singleton.mp hnew, ← h.settings_eq]
        exact l.queue.length_batch_le
    · intro _ herror
      rw [hq] at herror ⊢
      exact h.failed hclosed herror
    · -- a queue that has come to its end holds no batch
      intro _ hend
      rw [hended] at hend
      exact absurd (h.atEnd hclosed hend).1 hbuffer
  | failed hclosed hbuffer herror =>
    have hfinished : l.queue.finished = true := h.failed hclosed (by simp [herror])
    have hflow : l'.delivered ++ l'.queue.buffer = l'.accepted := by
      rw [delivered, hbatches, hq, haccepted]
      exact h.complete hclosed
    refine ⟨hq ▸ h.settings_eq, ?_, ⟨_, hflow⟩, fun _ => hflow, ?_, fun _ _ => ?_⟩
    · rw [hbatches]
      exact h.bounded
    · intro _ hnone
      exact absurd (by rw [hq]) hnone
    · rw [hq]
      exact ⟨hbuffer, hfinished⟩
  | finished hclosed hbuffer herror hfinished =>
    have hflow : l'.delivered ++ l'.queue.buffer = l'.accepted := by
      rw [delivered, hbatches, hq, haccepted]
      exact h.complete hclosed
    refine ⟨hq ▸ h.settings_eq, ?_, ⟨_, hflow⟩, fun _ => hflow, fun _ _ => ?_, fun _ _ => ?_⟩
    · rw [hbatches]
      exact h.bounded
    · rw [hq]
      exact hfinished
    · rw [hq]
      exact ⟨hbuffer, hfinished⟩

/-- A record that is accepted comes last. -/
lemma sound_accepted (h : l.Sound settings) {r : QueueRecord} (hclosed : l.queue.closed = false)
    (hfinished : l.queue.finished = false) {l' : Ledger} (hq : l'.queue = l.queue.push r)
    (haccepted : l'.accepted = l.accepted ++ [r]) (hbatches : l'.batches = l.batches)
    (hended : l'.ended = l.ended) : l'.Sound settings := by
  have hflow : l'.delivered ++ l'.queue.buffer = l'.accepted := by
    rw [delivered, hbatches, hq, haccepted, EventQueue.push_buffer, ← List.append_assoc]
    exact congrArg (· ++ [r]) (h.complete hclosed)
  refine ⟨hq ▸ h.settings_eq, hbatches ▸ h.bounded, ⟨_, hflow⟩, fun _ => hflow, ?_, ?_⟩
  · intro _ herror
    rw [hq] at herror ⊢
    exact h.failed hclosed herror
  · -- nothing is accepted once the producer has finished
    intro _ hend
    rw [hended] at hend
    exact absurd (h.atEnd hclosed hend).2 (by simp [hfinished])

/-- Every move keeps the account in agreement with the queue. -/
lemma sound_step (l : Ledger) (m : Move) (h : l.Sound settings) :
    (l.step m).Sound settings := by
  by_cases hm : m = .close
  · subst hm
    have hclosed : (l.step .close).queue.closed = true := rfl
    exact h.of_quiet rfl rfl rfl rfl (by simp [hclosed])
  · obtain ⟨report, hmoved, haccepted, hbatches, hended⟩ := l.moved_step hm
    generalize l.step m = l' at *
    generalize hq : l'.queue = q at hmoved
    cases hmoved with
    | polled htaken => exact sound_polled h htaken hq haccepted hbatches hended
    | accepted hclosed hfinished hroom =>
      exact sound_accepted h hclosed hfinished hq haccepted hbatches hended
    | kept =>
      refine h.of_quiet (by rw [hq]) haccepted hbatches hended fun hclosed => ?_
      rw [hq] at hclosed ⊢
      exact ⟨hclosed, rfl, h.failed hclosed, id⟩
    | blocked =>
      refine h.of_quiet (by rw [hq]; rfl) haccepted hbatches hended fun hclosed => ?_
      rw [hq] at hclosed ⊢
      exact ⟨hclosed, rfl, h.failed hclosed, id⟩
    | finished =>
      refine h.of_quiet (by rw [hq]; rfl) haccepted hbatches hended fun hclosed => ?_
      rw [hq] at hclosed ⊢
      exact ⟨hclosed, rfl, fun _ => rfl, fun _ => rfl⟩
    | failed hclosed =>
      rw [EventQueue.fail_of_open hclosed] at hq
      refine h.of_quiet (by rw [hq]) haccepted hbatches hended fun _ => ?_
      rw [hq]
      exact ⟨hclosed, rfl, fun _ => rfl, fun _ => rfl⟩

lemma sound_run (settings : QueueSettings) (gauges : Option QueueGauges) (moves : List Move) :
    ((start settings gauges).run moves).Sound settings :=
  run_induction (fun l m h => sound_step l m h) (sound_start settings gauges) moves

/-- In every interleaving the polled batches are a beginning of the accepted records and none is too
large.  While nobody closes the queue, what is missing from them is buffered; and after a poll that
returned the end or the producer's fault nothing is missing. -/
theorem interleaved_calls_fifo (settings : QueueSettings) (gauges : Option QueueGauges)
    (moves : List Move) :
    let l := (start settings gauges).run moves
    l.delivered <+: l.accepted ∧
      (∀ b ∈ l.batches, b.length ≤ settings.maxBatchSize) ∧
      (Move.close ∉ moves → l.delivered ++ l.queue.buffer = l.accepted ∧
        (l.ended = true → l.delivered = l.accepted)) := by
  intro l
  have hsound : l.Sound settings := sound_run settings gauges moves
  refine ⟨hsound.ordered, hsound.bounded, fun hopen => ?_⟩
  have hclosed : l.queue.closed = false := run_closed hopen
  have hflow := hsound.complete hclosed
  refine ⟨hflow, fun hend => ?_⟩
  rw [(hsound.atEnd hclosed hend).1, List.append_nil] at hflow
  exact hflow

/-- A poll that waits gets the record that is pushed meanwhile, and the next one gets the end. -/
theorem interleaved_calls_fifo_waiting_poll :
    let moves : List Move :=
      [.startPoll, .startPush (.heartbeat .initial), .retry 0, .finish, .look]
    let l := (start { limit := some 1, maxBatchSize := 1 } none).run moves
    l.accepted = [.heartbeat .initial] ∧ l.delivered = [.heartbeat .initial] := by
  intro moves l
  have haccepted : l.accepted = [.heartbeat .initial] := rfl
  have hend : l.ended = true := rfl
  have hall := (interleaved_calls_fifo { limit := some 1, maxBatchSize := 1 } none moves).2.2
    (by simp [moves])
  exact ⟨haccepted, (hall.2 hend).trans haccepted⟩

end Ledger
end Changefeed
