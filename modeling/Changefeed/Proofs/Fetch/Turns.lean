import Changefeed.Proofs.Fetch.Reading

/-!
# Turns of a producer and of a reader

A producer and a reader work side by side, and neither of them waits until the other has come to a
halt.  What one does at a time is small: the producer makes one step or offers one record, and the
reader delivers what it has ready or takes what is in the queue just then.  These are the turns that
may interleave in any order.

Asking a session for its next batch is one of the orders: the producer works for as long as it can,
and then the reader takes its turn, again and again until a turn comes to something.  What holds of
all orders of turns therefore holds of it.
-/

namespace Changefeed

namespace Work

/-- Work goes on by what the producer's next step comes to. -/
lemma produce_step (p : Producer) (q : EventQueue) (sh : Shared) :
    produce p q sh =
      match p.step sh with
      | (.error f, sh) => (.stopped, failQueue q f, sh)
      | (.ok .ends, sh) => (.stopped, q.finish, sh)
      | (.ok .waits, sh) => (.running p, q, sh)
      | (.ok (.quiet next), sh) => produce next q sh
      | (.ok (.push r next), sh) =>
        match q.offer r with
        | .error _ => (.stopped, q, sh)
        | .ok none => (.blocked r next, q, sh)
        | .ok (some q) => produce next q sh := by
  rw [produce.eq_def]
  split
  case h_5 r next sh' h =>
    rcases hoffer : q.offer r with _ | _ | _ <;> simp only [h, hoffer]
  all_goals next h => simp only [h]

/-- The producer makes one step, or offers the record that it has made. -/
def advance (w : Work) (q : EventQueue) (sh : Shared) : Work × EventQueue × Shared :=
  match w with
  | .running p =>
    match p.step sh with
    | (.error f, sh) => (.stopped, failQueue q f, sh)
    | (.ok .ends, sh) => (.stopped, q.finish, sh)
    | (.ok .waits, sh) => (.running p, q, sh)
    | (.ok (.quiet next), sh) => (.running next, q, sh)
    | (.ok (.push r next), sh) => (.blocked r next, q, sh)
  | .blocked r p =>
    match q.offer r with
    | .error _ => (.stopped, q, sh)
    | .ok none => (.blocked r p, q, sh)
    | .ok (some q) => (.running p, q, sh)
  | .stopped => (.stopped, q, sh)

/-- The second comes of the first by some turns of the producer. -/
inductive Advances : Work × EventQueue × Shared → Work × EventQueue × Shared → Prop where
  | refl (x : Work × EventQueue × Shared) : Advances x x
  | head {w : Work} {q : EventQueue} {sh : Shared} {x : Work × EventQueue × Shared}
      (hrest : Advances (w.advance q sh) x) : Advances (w, q, sh) x

/-- A producer that works as long as it can takes some turns. -/
lemma produce_advances (p : Producer) (q : EventQueue) (sh : Shared) :
    Advances (.running p, q, sh) (produce p q sh) := by
  fun_induction produce p q sh with
  | case1 p q sh f sh' hstep =>
    refine .head ?_
    simp only [advance, hstep]
    exact .refl _
  | case2 p q sh sh' hstep =>
    refine .head ?_
    simp only [advance, hstep]
    exact .refl _
  | case3 p q sh sh' hstep =>
    refine .head ?_
    simp only [advance, hstep]
    exact .refl _
  | case4 p q sh next sh' hstep ih =>
    refine .head ?_
    simp only [advance, hstep]
    exact ih
  | case5 p q sh r next sh' hstep f hoffer =>
    refine .head ?_
    simp only [advance, hstep]
    refine .head ?_
    simp only [advance, hoffer]
    exact .refl _
  | case6 p q sh r next sh' hstep hoffer =>
    refine .head ?_
    simp only [advance, hstep]
    exact .refl _
  | case7 p q sh r next sh' hstep q' hoffer ih =>
    refine .head ?_
    simp only [advance, hstep]
    refine .head ?_
    simp only [advance, hoffer]
    exact ih

/-- Work that goes on as long as it can takes some turns. -/
lemma resume_advances (w : Work) (q : EventQueue) (sh : Shared) :
    Advances (w, q, sh) (w.resume q sh) := by
  cases w with
  | running p => exact produce_advances p q sh
  | stopped => exact .refl _
  | blocked r p =>
    refine .head ?_
    unfold resume advance
    dsimp only
    cases q.offer r with
    | error f => exact .refl _
    | ok o =>
      cases o with
      | none => exact .refl _
      | some q' => exact produce_advances p q' sh

end Work

namespace Session

/-- The producer takes a turn. -/
def advance (s : Session) (sh : Shared) : Session × Shared :=
  let (work, queue, sh) := s.work.advance s.queue sh
  ({ s with work, queue }, sh)

/-- What the reader makes of what it has taken: a batch, or `none` when it goes on to the next
turn. -/
def receive (s : Session) (sh : Shared) : Polled → Option Batch × Session × Shared
  | .ended => ((s.finish sh).1, (s.finish sh).2)
  | .failed f => ((s.failWith sh f).1, (s.failWith sh f).2)
  | .records rs =>
    if rs = [] then (some .idle, s, sh)
    else match s.reader.absorbAll sh.metrics rs with
      | (.error f, reader, metrics) =>
        let failed := { s with queue := s.queue.close, reader }.failWith { sh with metrics } f
        (failed.1, failed.2)
      | (.ok (e :: out), reader, metrics) =>
        let delivered := { s with reader }.deliver { sh with metrics } (e :: out)
        (delivered.1, delivered.2)
      | (.ok [], reader, metrics) =>
        if reader.pending = [] ∧ reader.mode.isPassThrough then
          (some (.events []), { s with reader }, { sh with metrics })
        else (none, { s with reader }, { sh with metrics })

/-- The reader takes a turn: it delivers what it has ready, or takes what is in the queue; when
there is nothing, the poll interval goes by. -/
def turn (s : Session) (sh : Shared) : Option Batch × Session × Shared :=
  if s.reader.pending ≠ [] then ((s.deliverPending sh).1, (s.deliverPending sh).2)
  else if s.reader.done then (some .ended, s, sh)
  else match s.queue.take with
    | (none, queue) => (some .idle, { s with queue }, sh)
    | (some p, queue) => { s with queue }.receive sh p

/-! ## Asking for a batch -/

/-- The second session can come of the first one by turns that no batch comes of. -/
inductive Leads : Session → Shared → Session → Shared → Prop where
  | refl (s : Session) (sh : Shared) : Leads s sh s sh
  | work {s s' : Session} {sh sh' : Shared}
      (hrest : Leads (s.advance sh).1 (s.advance sh).2 s' sh') : Leads s sh s' sh'
  | turn {s s₁ s' : Session} {sh sh₁ sh' : Shared} (hturn : s.turn sh = (none, s₁, sh₁))
      (hrest : Leads s₁ sh₁ s' sh') : Leads s sh s' sh'

lemma Leads.trans {s s₁ s' : Session} {sh sh₁ sh' : Shared} (h : Leads s sh s₁ sh₁)
    (h' : Leads s₁ sh₁ s' sh') : Leads s sh s' sh' := by
  induction h with
  | refl => exact h'
  | work _ ih => exact .work (ih h')
  | turn hturn _ ih => exact .turn hturn (ih h')

lemma leads_of_advances {x y : Work × EventQueue × Shared} (h : Work.Advances x y)
    (reader : Reader) : Leads ⟨x.1, x.2.1, reader⟩ x.2.2 ⟨y.1, y.2.1, reader⟩ y.2.2 := by
  induction h with
  | refl => exact .refl _ _
  | head _ ih => exact .work ih

/-- A poll takes what is in the queue after some turns of the producer. -/
lemma poll_leads (s : Session) (sh : Shared) :
    ∃ s₁ sh₁, Leads s sh s₁ sh₁ ∧ s₁.reader = s.reader ∧
      s.poll sh = (s₁.queue.take.1, { s₁ with queue := s₁.queue.take.2 }, sh₁) := by
  unfold poll
  cases htake : s.queue.take with
  | mk polled queue =>
    cases polled with
    | some p => exact ⟨s, sh, .refl s sh, rfl, by rw [htake]⟩
    | none =>
      obtain ⟨rfl, -⟩ := take_none htake
      exact ⟨_, _, leads_of_advances (Work.resume_advances s.work s.queue sh) s.reader, rfl, rfl⟩

lemma turn_of_poll {s s' : Session} {sh sh' : Shared} {p : Polled}
    (hpending : ¬s.reader.pending ≠ []) (hdone : ¬s.reader.done = true)
    (hpoll : s.poll sh = (some p, s', sh')) :
    ∃ s₁, Leads s sh s₁ sh' ∧ s₁.turn sh' = s'.receive sh' p := by
  obtain ⟨s₁, sh₁, hleads, hreader, htake⟩ := poll_leads s sh
  rw [hpoll, Prod.mk.injEq, Prod.mk.injEq] at htake
  obtain ⟨hp, rfl, rfl⟩ := htake
  have hqueue : s₁.queue.take = (some p, s₁.queue.take.2) := Prod.ext hp.symm rfl
  refine ⟨s₁, hleads, ?_⟩
  rw [turn, hreader, if_neg hpending, if_neg hdone, hqueue]

lemma turn_of_idle {s s' : Session} {sh sh' : Shared} (hpending : ¬s.reader.pending ≠ [])
    (hdone : ¬s.reader.done = true) (hpoll : s.poll sh = (none, s', sh')) :
    ∃ s₁, Leads s sh s₁ sh' ∧ s₁.turn sh' = (some .idle, s', sh') := by
  obtain ⟨s₁, sh₁, hleads, hreader, htake⟩ := poll_leads s sh
  rw [hpoll, Prod.mk.injEq, Prod.mk.injEq] at htake
  obtain ⟨hp, rfl, rfl⟩ := htake
  have hqueue : s₁.queue.take = (none, s₁.queue.take.2) := Prod.ext hp.symm rfl
  refine ⟨s₁, hleads, ?_⟩
  rw [turn, hreader, if_neg hpending, if_neg hdone, hqueue]

/-- The next batch is what comes of a turn of the reader, after some turns that no batch came of. -/
lemma nextBatch_leads (s : Session) (sh : Shared) :
    ∃ s₁ sh₁, Leads s sh s₁ sh₁ ∧ s₁.turn sh₁ = (some (s.nextBatch sh).1, (s.nextBatch sh).2) := by
  fun_induction nextBatch s sh with
  | case1 s sh hpending => exact ⟨s, sh, .refl s sh, by rw [turn, if_pos hpending]⟩
  | case2 s sh hpending hdone =>
    exact ⟨s, sh, .refl s sh, by rw [turn, if_neg hpending, if_pos hdone]⟩
  | case3 s sh hpending hdone s₁ sh₁ hpoll =>
    obtain ⟨s₀, hleads, hturn⟩ := turn_of_idle hpending hdone hpoll
    exact ⟨s₀, _, hleads, hturn⟩
  | case4 s sh hpending hdone s₁ sh₁ hpoll =>
    obtain ⟨s₀, hleads, hturn⟩ := turn_of_poll hpending hdone hpoll
    exact ⟨s₀, _, hleads, hturn⟩
  | case5 s sh hpending hdone f s₁ sh₁ hpoll =>
    obtain ⟨s₀, hleads, hturn⟩ := turn_of_poll hpending hdone hpoll
    exact ⟨s₀, _, hleads, hturn⟩
  | case6 s sh hpending hdone s₁ sh₁ hpoll =>
    obtain ⟨s₀, hleads, hturn⟩ := turn_of_poll hpending hdone hpoll
    exact ⟨s₀, _, hleads, hturn⟩
  | case7 s sh hpending hdone s₁ sh₁ rs hpoll hrs f reader m habsorb =>
    obtain ⟨s₀, hleads, hturn⟩ := turn_of_poll hpending hdone hpoll
    refine ⟨s₀, _, hleads, hturn.trans ?_⟩
    rw [receive, if_neg hrs, habsorb]
  | case8 s sh hpending hdone s₁ sh₁ rs hpoll hrs e out reader m habsorb =>
    obtain ⟨s₀, hleads, hturn⟩ := turn_of_poll hpending hdone hpoll
    refine ⟨s₀, _, hleads, hturn.trans ?_⟩
    rw [receive, if_neg hrs, habsorb]
  | case9 s sh hpending hdone s₁ sh₁ rs hpoll hrs reader m habsorb hpass =>
    obtain ⟨s₀, hleads, hturn⟩ := turn_of_poll hpending hdone hpoll
    refine ⟨s₀, _, hleads, hturn.trans ?_⟩
    rw [receive, if_neg hrs, habsorb]
    exact if_pos hpass
  | case10 s sh hpending hdone s₁ sh₁ rs hpoll hrs reader m habsorb hpass ih =>
    obtain ⟨s₀, hleads, hturn⟩ := turn_of_poll hpending hdone hpoll
    obtain ⟨s₂, sh₂, hrest, hnext⟩ := ih
    refine ⟨s₂, sh₂, hleads.trans (.turn (hturn.trans ?_) hrest), hnext⟩
    rw [receive, if_neg hrs, habsorb]
    exact if_neg hpass

lemma leads_of_nextBatch {s s' : Session} {sh sh' : Shared} {b : Batch}
    (h : s.nextBatch sh = (b, s', sh')) :
    ∃ s₁ sh₁, Leads s sh s₁ sh₁ ∧ s₁.turn sh₁ = (some b, s', sh') := by
  obtain ⟨s₁, sh₁, hleads, hturn⟩ := s.nextBatch_leads sh
  rw [h] at hturn
  exact ⟨s₁, sh₁, hleads, hturn⟩

/-! ## What a turn comes to -/

/-- What holds of a session from the time it is read on: its reader reads until it is done, and once
it is done it has nothing ready any more; it has a report when its split is completed, and has
nothing ready while it holds changes. -/
structure Sound (s : Session) : Prop where
  sized : s.queue.settings.maxBatchSize = max s.reader.maxBatchSize 1
  reading : s.reader.done = false → s.reader.lifecycle.state = .reading
  delivered : s.reader.done = true → s.reader.pending = []
  reported : s.reader.lifecycle.state = .completed ↔ s.reader.completion.isSome = true
  held : s.reader.mode.isPassThrough = false → s.reader.pending = []

/-- What comes of a turn of the reader, and what it leaves. -/
inductive Turned (s : Session) (sh : Shared) : Option Batch → Session → Shared → Prop where
  /-- Events that were ready are delivered. -/
  | ready {es rest : List ChangeEvent} (hpending : s.reader.pending = es ++ rest) (hes : es ≠ [])
      (hsize : es.length ≤ max s.reader.maxBatchSize 1) :
      Turned s sh (some (.events es)) { s with reader := { s.reader with pending := rest } }
        { sh with metrics := Reader.countBatch sh.metrics es }
  /-- The sequence was over before. -/
  | past (hpending : s.reader.pending = []) (hdone : s.reader.done = true) :
      Turned s sh (some .ended) s sh
  | idle (hpending : s.reader.pending = []) (hdone : s.reader.done = false)
      (hopen : s.queue.closed = false) : Turned s sh (some .idle) s sh
  /-- The queue was closed. -/
  | stopped (hpending : s.reader.pending = []) (hdone : s.reader.done = false)
      (hclosed : s.queue.closed = true) :
      Turned s sh (some .ended) { s with reader := s.reader.stop } sh
  | completed (hpending : s.reader.pending = []) (hdone : s.reader.done = false)
      (hopen : s.queue.closed = false) (hbuffer : s.queue.buffer = [])
      (herror : s.queue.error = none) (hfinished : s.queue.finished = true)
      (hmode : s.reader.mode.isPassThrough = true) :
      Turned s sh (some .ended)
        { s with reader :=
          { s.reader with
            done := true, lifecycle := { s.reader.lifecycle with state := .completed },
            completion := some s.reader.report } }
        { sh with metrics := sh.metrics.recordSplitCompleted }
  /-- The producer has failed. -/
  | broken {f : Fault} (hpending : s.reader.pending = []) (hdone : s.reader.done = false)
      (hopen : s.queue.closed = false) (hbuffer : s.queue.buffer = [])
      (herror : s.queue.error = some f) :
      Turned s sh (some (.failed f))
        { s with queue := { s.queue with error := none }, reader := (s.reader.fail sh.metrics).1 }
        { sh with metrics := (s.reader.fail sh.metrics).2 }
  /-- The producer has finished without a watermark. -/
  | unmarked (hpending : s.reader.pending = []) (hdone : s.reader.done = false)
      (hopen : s.queue.closed = false) (hbuffer : s.queue.buffer = [])
      (herror : s.queue.error = none) (hfinished : s.queue.finished = true)
      (hmode : s.reader.mode.isPassThrough = false) :
      Turned s sh
        (some (.failed (.invalidState (.endedWithoutWatermark s.reader.splitId.text))))
        { s with reader := (s.reader.fail sh.metrics).1 }
        { sh with metrics := (s.reader.fail sh.metrics).2 }
  /-- A record was refused. -/
  | refused {f : Fault} {reader : Reader} {m : Metrics} (hpending : s.reader.pending = [])
      (hdone : s.reader.done = false) (hopen : s.queue.closed = false)
      (habsorb : s.reader.absorbAll sh.metrics s.queue.batch = (.error f, reader, m)) :
      Turned s sh (some (.failed f))
        { s with queue := s.queue.dropBatch.close, reader := (reader.fail m).1 }
        { sh with metrics := (reader.fail m).2 }
  /-- Records were taken, and changes among them delivered. -/
  | passed {es : List ChangeEvent} {reader : Reader} {m : Metrics}
      (hpending : s.reader.pending = []) (hdone : s.reader.done = false)
      (hopen : s.queue.closed = false) (hbuffer : s.queue.buffer ≠ [])
      (habsorb : s.reader.absorbAll sh.metrics s.queue.batch = (.ok es, reader, m))
      (hes : es ≠ []) :
      Turned s sh (some (.events es)) { s with queue := s.queue.dropBatch, reader }
        { sh with metrics := Reader.countBatch m es }
  /-- Records were taken, and nothing was delivered. -/
  | taken {b : Option Batch} {reader : Reader} {m : Metrics}
      (hpending : s.reader.pending = []) (hdone : s.reader.done = false)
      (hopen : s.queue.closed = false) (hbuffer : s.queue.buffer ≠ [])
      (habsorb : s.reader.absorbAll sh.metrics s.queue.batch = (.ok [], reader, m))
      (hb : b = none ∨ b = some (.events []) ∧ reader.pending = []) :
      Turned s sh b { s with queue := s.queue.dropBatch, reader } { sh with metrics := m }

variable {s : Session}

/-- What comes of the end of the queue's records. -/
lemma finish_turned (hs : s.Sound) (sh : Shared) (hpending : s.reader.pending = [])
    (hdone : s.reader.done = false) (hopen : s.queue.closed = false) (hbuffer : s.queue.buffer = [])
    (herror : s.queue.error = none) (hfinished : s.queue.finished = true) :
    Turned s sh (some (s.finish sh).1) (s.finish sh).2.1 (s.finish sh).2.2 := by
  unfold finish Reader.complete
  rw [if_neg (by simp [hopen])]
  cases hmode : s.reader.mode.isPassThrough with
  | true =>
    have hmove : s.reader.lifecycle.move .completed =
        .ok { s.reader.lifecycle with state := .completed } := by
      simp [Lifecycle.move, hs.reading hdone, SplitState.canMoveTo]
    rw [if_pos rfl, hmove]
    exact .completed hpending hdone hopen hbuffer herror hfinished hmode
  | false =>
    rw [if_neg (by simp)]
    exact .unmarked hpending hdone hopen hbuffer herror hfinished hmode

/-- What comes of records that were taken. -/
lemma receive_turned (sh : Shared) (hpending : s.reader.pending = [])
    (hdone : s.reader.done = false) (hopen : s.queue.closed = false) (hbuffer : s.queue.buffer ≠ [])
    (hsized : 1 ≤ s.queue.settings.maxBatchSize) :
    let received := { s with queue := s.queue.dropBatch }.receive sh (.records s.queue.batch)
    Turned s sh received.1 received.2.1 received.2.2 := by
  intro received
  simp only [received, receive]
  rw [if_neg (EventQueue.batch_ne_nil hsized hbuffer)]
  rcases habsorb : s.reader.absorbAll sh.metrics s.queue.batch with ⟨_ | _ | ⟨e, out⟩, reader, m⟩
  · exact .refused hpending hdone hopen habsorb
  · dsimp only
    split
    · next hpass => exact .taken hpending hdone hopen hbuffer habsorb (.inr ⟨rfl, hpass.1⟩)
    · exact .taken hpending hdone hopen hbuffer habsorb (.inl rfl)
  · exact .passed hpending hdone hopen hbuffer habsorb (by simp)

/-- A turn of the reader comes to one of the listed things. -/
lemma turned (hs : s.Sound) (sh : Shared) :
    Turned s sh (s.turn sh).1 (s.turn sh).2.1 (s.turn sh).2.2 := by
  unfold turn
  by_cases hpending : s.reader.pending = []
  · rw [if_neg (by simp [hpending])]
    cases hdone : s.reader.done with
    | true => exact .past hpending hdone
    | false =>
      have htaken := s.queue.taken
      rw [if_neg (by simp)]
      generalize s.queue.take = take at htaken ⊢
      obtain ⟨polled, queue⟩ := take
      dsimp only at htaken ⊢
      cases htaken with
      | closed hclosed =>
        have hfinish : s.finish sh = (.ended, { s with reader := s.reader.stop }, sh) :=
          if_pos hclosed
        simp only [receive, hfinish]
        exact .stopped hpending hdone hclosed
      | records hopen hbuffer =>
        have hsized : 1 ≤ s.queue.settings.maxBatchSize := hs.sized ▸ Nat.le_max_right ..
        exact receive_turned sh hpending hdone hopen hbuffer hsized
      | failed hopen hbuffer herror => exact .broken hpending hdone hopen hbuffer herror
      | finished hopen hbuffer herror hfinished =>
        exact finish_turned hs sh hpending hdone hopen hbuffer herror hfinished
      | nothing hopen => exact .idle hpending hdone hopen
  · rw [if_pos hpending]
    refine .ready (List.take_append_drop ..).symm (fun hnil => ?_) (List.length_take_le ..)
    rcases List.take_eq_nil_iff.mp hnil with hzero | hempty
    · omega
    · exact hpending hempty

end Session
end Changefeed
