import Changefeed.Fetch.Runner
import Changefeed.Proofs.Fetch.Task
import Changefeed.Proofs.Fetch.Turns

/-!
# The courses that a run can take

The producer of a task works beside the run that reads it, so between two batches it may have done
much or little, and a poll interval may go by while it has yet to come up with a record.  A *course*
of a run takes the turns of its producers and readers in any order.  It may also be looked at before
it has come to anything, and it is still running then.

The run that lets a producer work for as long as it can takes one of these courses.  What holds of
all courses therefore holds of it, and of every run that is slower or less regular.
-/

namespace Changefeed

namespace Work

variable {w : Work} {q : EventQueue} {sh sh' : Shared}

/-- There is nothing that work can do. -/
def Halted (w : Work) (q : EventQueue) (sh : Shared) : Prop :=
  match w with
  | .running p => p.step sh = (.ok .waits, sh)
  | .blocked r _ => q.offer r = .ok none
  | .stopped => True

lemma Halted.resume (h : w.Halted q sh) : w.resume q sh = (w, q, sh) := by
  cases w with
  | running p =>
    show produce p q sh = (.running p, q, sh)
    rw [produce_step, show p.step sh = (.ok .waits, sh) from h]
  | blocked r p =>
    unfold Work.resume
    dsimp only
    rw [show q.offer r = .ok none from h]
  | stopped => rfl

lemma Halted.congr (h : w.Halted q sh) (hsource : sh.source = sh'.source) : w.Halted q sh' := by
  cases w with
  | running p =>
    obtain ⟨sh₁, hstep, -⟩ := Producer.step_congr hsource h
    obtain rfl := Producer.step_waits hstep
    exact hstep
  | blocked r p => exact h
  | stopped => trivial

lemma produce_halted (p : Producer) (q : EventQueue) (sh : Shared) :
    Halted (produce p q sh).1 (produce p q sh).2.1 (produce p q sh).2.2 := by
  fun_induction produce p q sh with
  | case1 => trivial
  | case2 => trivial
  | case3 p q sh sh' hstep =>
    obtain rfl := Producer.step_waits hstep
    exact hstep
  | case4 _ _ _ _ _ _ ih => exact ih
  | case5 => trivial
  | case6 p q sh r next sh' hstep hoffer => exact hoffer
  | case7 _ _ _ _ _ _ _ _ _ ih => exact ih

/-- Work that has gone on for as long as it can has nothing to do. -/
lemma resume_halted (w : Work) (q : EventQueue) (sh : Shared) :
    Halted (w.resume q sh).1 (w.resume q sh).2.1 (w.resume q sh).2.2 := by
  cases w with
  | running p => exact produce_halted p q sh
  | stopped => trivial
  | blocked r p =>
    cases hoffer : q.offer r with
    | error f =>
      simp only [resume, hoffer]
      trivial
    | ok o =>
      cases o with
      | none =>
        simp only [resume, hoffer]
        exact hoffer
      | some q' =>
        simp only [resume, hoffer]
        exact produce_halted p q' sh

end Work

/-- The events of a batch behind which reading goes on; a poll interval that goes by is an empty
batch. -/
def Batch.events? : Batch → Option (List ChangeEvent)
  | .events es => some es
  | .idle => some []
  | .ended | .failed _ => none

namespace Session

variable {s s' : Session} {sh sh' : Shared}

/-- There is nothing to deliver, and there will be nothing. -/
structure Halted (s : Session) (sh : Shared) : Prop where
  pending : s.reader.pending = []
  ongoing : s.reader.done = false
  untaken : s.queue.take = (none, s.queue)
  work : s.work.Halted s.queue sh

lemma Halted.nextBatch (h : s.Halted sh) : s.nextBatch sh = (.idle, s, sh) := by
  have hpoll : s.poll sh = (none, s, sh) := by
    unfold poll
    simp only [h.untaken, h.work.resume]
  rw [Session.nextBatch, if_neg (by simp [h.pending]), if_neg (by simp [h.ongoing])]
  split <;> next heq => cases hpoll.symm.trans heq <;> rfl

/-- A session that is found idle has come to where its output waits. -/
lemma Halted.output (h : s.Halted sh) (hs : s.Attached) :
    s.output sh = ⟨[], .waits, sh.source⟩ := by
  have htaken := s.queue.taken
  rw [h.untaken] at htaken
  have hwork := h.work
  cases htaken with
  | nothing hopen hbuffer herror hfinished =>
    unfold Session.output
    cases hw : s.work with
    | running p =>
      rw [hw] at hwork
      rw [Work.output, hbuffer, Producer.output_waits hwork]
      rfl
    | blocked r p =>
      rw [hw] at hwork
      have hoffered := s.queue.offered r
      rw [show s.queue.offer r = .ok none from hwork] at hoffered
      cases hoffered with
      | full _ _ hroom =>
        rw [Work.hasRoom_of_empty hs.roomy hbuffer] at hroom
        cases hroom
    | stopped => simp [Work.output, hbuffer, EventQueue.outcome, herror, hfinished]

/-- A poll gives nothing only where there will be nothing. -/
lemma halted_of_poll (hpending : s.reader.pending = []) (hdone : s.reader.done = false)
    (h : s.poll sh = (none, s', sh')) : s'.Halted sh' := by
  unfold poll at h
  split at h
  · cases h
  · next htake =>
    obtain ⟨rfl, -⟩ := take_none htake
    have hhalted := Work.resume_halted s.work s.queue sh
    generalize s.work.resume s.queue sh = resumed at h hhalted
    obtain ⟨work, queue, shared⟩ := resumed
    simp only [Prod.mk.injEq] at h
    obtain ⟨hnone, rfl, rfl⟩ := h
    have htaken : queue.take = (none, queue.take.2) := Prod.ext hnone rfl
    have hqueue := (take_none htaken).1
    rw [hqueue] at htaken ⊢
    exact ⟨hpending, hdone, htaken, hhalted⟩

/-- A session is found idle only when there will be nothing more, and else it goes on with its
queue. -/
lemma nextBatch_left (hs : s.Attached) {b : Batch} (h : s.nextBatch sh = (b, s', sh')) :
    (b = .idle → s'.Halted sh') ∧ ∀ es, b.events? = some es → s'.Attached := by
  fun_induction Session.nextBatch s sh with
  | case1 s sh hpending =>
    cases h
    exact ⟨by simp, fun _ _ => hs⟩
  | case2 s sh hpending hdone =>
    cases h
    simp [Batch.events?]
  | case3 s sh hpending hdone s₁ sh₁ hpoll =>
    cases h
    refine ⟨fun _ => halted_of_poll (by simpa using hpending) (by simpa using hdone) hpoll, ?_⟩
    cases hs.polls hpoll with
    | nothing hattached => exact fun _ _ => hattached
  | case4 s sh hpending hdone s₁ sh₁ hpoll =>
    unfold finish at h
    split at h
    · cases h
      simp [Batch.events?]
    · dsimp only at h
      split at h <;> (cases h; simp [Batch.events?])
  | case5 s sh hpending hdone f s₁ sh₁ hpoll =>
    cases h
    simp [Batch.events?]
  | case6 s sh hpending hdone s₁ sh₁ hpoll =>
    cases hs.polls hpoll with
    | records hrs => exact absurd rfl hrs
  | case7 s sh hpending hdone s₁ sh₁ rs hpoll hrs f reader m habsorb =>
    cases h
    simp [Batch.events?]
  | case8 s sh hpending hdone s₁ sh₁ rs hpoll hrs e out reader m habsorb =>
    cases h
    cases hs.polls hpoll with
    | records _ hattached => exact ⟨by simp, fun _ _ => hattached⟩
  | case9 s sh hpending hdone s₁ sh₁ rs hpoll hrs reader m habsorb hpass =>
    cases h
    cases hs.polls hpoll with
    | records _ hattached => exact ⟨by simp, fun _ _ => hattached⟩
  | case10 s sh hpending hdone s₁ sh₁ rs hpoll hrs reader m habsorb hpass ih =>
    cases hs.polls hpoll with
    | records _ hattached => exact ih hattached h

end Session

namespace Runner

open RunState

variable {r : Runner} {split : Split} {last : Offset} {st st' : RunState}

/-! ## Reading -/

/-- Reading a session from a state on may come to a result, leaving a session and a state. -/
inductive ReadCourse (r : Runner) (split : Split) :
    Session → Offset → RunState → Attempt → Session → RunState → Prop where
  /-- It has not come to anything yet. -/
  | paused (s : Session) (last : Offset) (st : RunState) : ReadCourse r split s last st .idle s st
  /-- The producer takes a turn. -/
  | work {s s' : Session} {last : Offset} {st st' : RunState} {result : Attempt}
      (hrest : ReadCourse r split (s.advance st.shared).1 last
        { st with shared := (s.advance st.shared).2 } result s' st') :
      ReadCourse r split s last st result s' st'
  /-- The reader takes a turn that no batch comes of. -/
  | silent {s s₁ s' : Session} {last : Offset} {st st' : RunState} {shared : Shared}
      {result : Attempt} (hturn : s.turn st.shared = (none, s₁, shared))
      (hrest : ReadCourse r split s₁ last { st with shared } result s' st') :
      ReadCourse r split s last st result s' st'
  /-- The batch of a turn is delivered, and the position checkpointed if it has moved. -/
  | batch {s s₁ s' : Session} {last : Offset} {st st₁ st₂ st' : RunState} {shared : Shared}
      {b : Batch} {es : List ChangeEvent} {result : Attempt}
      (hturn : s.turn st.shared = (some b, s₁, shared)) (hes : b.events? = some es)
      (hdeliver : deliver es { st with shared } = (.ok (), st₁))
      (hcheckpoint : r.checkpointIfMoved split last s₁.reader.offset st₁ = (.ok (), st₂))
      (hrest : ReadCourse r split s₁ s₁.reader.offset st₂ result s' st') :
      ReadCourse r split s last st result s' st'
  | undelivered {s s₁ : Session} {last : Offset} {st st₁ : RunState} {shared : Shared} {b : Batch}
      {es : List ChangeEvent} {f : Fault} (hturn : s.turn st.shared = (some b, s₁, shared))
      (hes : b.events? = some es) (hdeliver : deliver es { st with shared } = (.error f, st₁)) :
      ReadCourse r split s last st (.failed f) s₁ st₁
  | unsaved {s s₁ : Session} {last : Offset} {st st₁ st₂ : RunState} {shared : Shared} {b : Batch}
      {es : List ChangeEvent} {f : Fault} (hturn : s.turn st.shared = (some b, s₁, shared))
      (hes : b.events? = some es) (hdeliver : deliver es { st with shared } = (.ok (), st₁))
      (hcheckpoint : r.checkpointIfMoved split last s₁.reader.offset st₁ = (.error f, st₂)) :
      ReadCourse r split s last st (.failed f) s₁ st₂
  | ended {s s₁ : Session} {last : Offset} {st st₁ : RunState} {shared : Shared}
      (hturn : s.turn st.shared = (some .ended, s₁, shared))
      (hflush : flush { st with shared } = (.ok (), st₁)) :
      ReadCourse r split s last st (.finished s₁.reader.completion) s₁ st₁
  | unflushed {s s₁ : Session} {last : Offset} {st st₁ : RunState} {shared : Shared} {f : Fault}
      (hturn : s.turn st.shared = (some .ended, s₁, shared))
      (hflush : flush { st with shared } = (.error f, st₁)) :
      ReadCourse r split s last st (.failed f) s₁ st₁
  | failed {s s₁ : Session} {last : Offset} {st : RunState} {shared : Shared} {f : Fault}
      (hturn : s.turn st.shared = (some (.failed f), s₁, shared)) :
      ReadCourse r split s last st (.failed f) s₁ { st with shared }

/-- Turns that no batch comes of may come first. -/
lemma ReadCourse.of_leads {s s₁ s' : Session} {sh sh₁ : Shared} {result : Attempt}
    (hleads : Session.Leads s sh s₁ sh₁) (hshared : st.shared = sh)
    (h : ReadCourse r split s₁ last { st with shared := sh₁ } result s' st') :
    ReadCourse r split s last st result s' st' := by
  induction hleads generalizing st with
  | refl =>
    subst hshared
    exact h
  | work _ ih =>
    subst hshared
    exact .work (ih rfl h)
  | turn hturn _ ih =>
    subst hshared
    exact .silent hturn (ih rfl h)

/-- To drive a session is one course of reading it. -/
lemma drive_course (r : Runner) (split : Split) (s : Session) (last : Offset) (st : RunState) :
    ReadCourse r split s last st (r.drive split s last st).1 (r.drive split s last st).2.1
      (r.drive split s last st).2.2 := by
  fun_induction drive r split s last st with
  | case1 s last st s' shared hbatch f st' hcheckpoint =>
    obtain ⟨s₁, sh₁, hleads, hturn⟩ := Session.leads_of_nextBatch hbatch
    exact .of_leads hleads rfl (.unsaved hturn rfl rfl hcheckpoint)
  | case2 s last st s' shared hbatch st' hcheckpoint =>
    obtain ⟨s₁, sh₁, hleads, hturn⟩ := Session.leads_of_nextBatch hbatch
    exact .of_leads hleads rfl (.batch hturn rfl rfl hcheckpoint (.paused ..))
  | case3 s last st f s' shared hbatch =>
    obtain ⟨s₁, sh₁, hleads, hturn⟩ := Session.leads_of_nextBatch hbatch
    exact .of_leads hleads rfl (.failed hturn)
  | case4 s last st s' shared hbatch f st' hflush =>
    obtain ⟨s₁, sh₁, hleads, hturn⟩ := Session.leads_of_nextBatch hbatch
    exact .of_leads hleads rfl (.unflushed hturn hflush)
  | case5 s last st s' shared hbatch st' hflush =>
    obtain ⟨s₁, sh₁, hleads, hturn⟩ := Session.leads_of_nextBatch hbatch
    exact .of_leads hleads rfl (.ended hturn hflush)
  | case6 s last st es s' shared hbatch f st' hdeliver =>
    obtain ⟨s₁, sh₁, hleads, hturn⟩ := Session.leads_of_nextBatch hbatch
    exact .of_leads hleads rfl (.undelivered hturn rfl hdeliver)
  | case7 s last st es s' shared hbatch st₁ hdeliver f st₂ hcheckpoint =>
    obtain ⟨s₁, sh₁, hleads, hturn⟩ := Session.leads_of_nextBatch hbatch
    exact .of_leads hleads rfl (.unsaved hturn rfl hdeliver hcheckpoint)
  | case8 s last st es s' shared hbatch st₁ hdeliver st₂ hcheckpoint ih =>
    obtain ⟨s₁, sh₁, hleads, hturn⟩ := Session.leads_of_nextBatch hbatch
    exact .of_leads hleads rfl (.batch hturn rfl hdeliver hcheckpoint ih)

lemma checkpointIfMoved_self (r : Runner) (split : Split) (offset : Offset) (st : RunState) :
    r.checkpointIfMoved split offset offset st = (.ok (), st) := by
  cases split with
  | snapshot i => rfl
  | incremental i => exact if_pos rfl

lemma drive_of_halted {s : Session} (h : s.Halted st.shared) :
    r.drive split s s.reader.offset st = (.idle, s, st) := by
  rw [drive]
  split <;> next heq => cases h.nextBatch.symm.trans heq <;> simp only [checkpointIfMoved_self]

lemma shared_call {α : Type} {c : RunCall} {act : RunState → α × RunState}
    (hact : ∀ st, (act st).2.shared = st.shared) (st : RunState) :
    (call c act st).2.shared = st.shared := by
  unfold call
  split
  · rfl
  · exact hact _

/-- A checkpoint changes what is shared in the counters alone. -/
lemma source_checkpoint (r : Runner) (s : IncrementalSplit) (offset : Offset) (st : RunState) :
    (r.checkpoint s offset st).2.shared.source = st.shared.source := by
  have hflush : (flush st).2.shared = st.shared := shared_call (fun _ => rfl) st
  unfold checkpoint
  split
  · next heq =>
    rw [heq] at hflush
    exact congrArg Shared.source hflush
  · next st₁ heq =>
    have hsave : (save ⟨s.splitId, s.tableIds, offset, r.stamp⟩ st₁).2.shared = st₁.shared :=
      shared_call (fun _ => rfl) st₁
    rw [heq] at hflush
    split
    · next heq' =>
      rw [heq'] at hsave
      exact congrArg Shared.source (hsave.trans hflush)
    · next st₂ heq' =>
      rw [heq'] at hsave
      show st₂.shared.source = st.shared.source
      exact congrArg Shared.source (hsave.trans hflush)

lemma source_checkpointIfMoved {offset : Offset} {x : Outcome Unit}
    (h : r.checkpointIfMoved split last offset st = (x, st')) :
    st.shared.source = st'.shared.source := by
  have hsource : (r.checkpointIfMoved split last offset st).2.shared.source =
      st.shared.source := by
    cases split with
    | snapshot s => rfl
    | incremental s =>
      unfold checkpointIfMoved
      dsimp only
      split
      · rfl
      · exact r.source_checkpoint s offset st
  rw [h] at hsource
  exact hsource.symm

/-- A session that is driven until it is idle stays idle, and driving it again changes nothing. -/
theorem drive_again {s s' : Session} (hs : s.Attached)
    (h : r.drive split s last st = (.idle, s', st')) :
    r.drive split s' s'.reader.offset st' = (.idle, s', st') := by
  fun_induction drive r split s last st with
  | case2 s last st s₁ shared hbatch st₁ hcheckpoint =>
    cases h
    have hhalted := (Session.nextBatch_left hs hbatch).1 rfl
    refine drive_of_halted ⟨hhalted.pending, hhalted.ongoing, hhalted.untaken, ?_⟩
    exact hhalted.work.congr (source_checkpointIfMoved hcheckpoint)
  | case8 s last st es s₁ shared hbatch st₁ hdeliver st₂ hcheckpoint ih =>
    exact ih ((Session.nextBatch_left hs hbatch).2 es rfl) h
  | _ => cases h

/-! ## Attempts -/

/-- What the task of an attempt finds when its split is started. -/
def found (r : Runner) (st : RunState) : Shared :=
  { (if r.sharesHistory then st.shared else { st.shared with history := .empty }) with
    metrics := st.shared.metrics.recordSplitStarted }

lemma found_eq (h : r.sharesHistory = false) (st : RunState) : r.found st =
    { st.shared with history := .empty, metrics := st.shared.metrics.recordSplitStarted } := by
  rw [found, h, if_neg (by simp)]

lemma found_unshared (h : r.sharesHistory = false) {server : Server}
    {backend : Option LayoutBackend} (hserver : st.shared.server = server)
    (hbackend : st.shared.backend = backend) :
    ∃ m, r.found st = { server, backend, history := .empty, metrics := m } := by
  subst hserver hbackend
  exact ⟨_, found_eq h st⟩

lemma attempt_of_uncreated {f : Fault}
    (h : call .create (fun st => ((), st)) st = (.error f, st₁)) :
    r.attempt split st = (.failed f, st₁) := by
  rw [attempt, h]

/-- What becomes of a task that was created: it is refused its split, or reads it by a plan. -/
lemma attempt_of_created (h : call .create (fun st => ((), st)) st = (.ok (), st₁)) :
    r.attempt split st =
      match Plan.make r.config split (r.found st₁) with
      | (.error f, shared) =>
        (.failed f, closeTask { config := r.config, stage := .refused split }
          { st₁ with shared := { shared with metrics := Task.countRefusal shared.metrics f } })
      | (.ok plan, shared) =>
        r.readTask split
          { config := r.config, stage := .prepared split (plan.session r.config split) }
          { st₁ with shared } := by
  unfold attempt
  rw [h]
  dsimp only
  generalize hshared : (if r.sharesHistory = true then st₁.shared else
    { st₁.shared with history := .empty }) = shared
  have hfound : { shared with metrics := shared.metrics.recordSplitStarted } = r.found st₁ := by
    rw [← hshared]
    unfold found
    split <;> rfl
  rw [Task.configure_fresh, hfound]
  rcases Plan.make r.config split (r.found st₁) with ⟨_ | _, _⟩ <;> rfl

/-- A task that has a plan is driven when there is patience left. -/
lemma readTask_prepared (r : Runner) (split : Split) (plan : Plan) (st : RunState) :
    r.readTask split
        { config := r.config, stage := .prepared split (plan.session r.config split) } st =
      if r.patienceMs ≤ st.sleptMs then (.idle, st)
      else match r.drive split (plan.begun r.config split) plan.start st with
        | (.idle, _, st) => (.idle, st)
        | (result, s, st) =>
          (result, closeTask { config := r.config, stage := .reading split s } st) := by
  unfold readTask
  rw [Task.read_prepared]
  rfl

/-- An attempt may come to a result, leaving a state. -/
inductive AttemptCourse (r : Runner) (split : Split) (st : RunState) :
    Attempt → RunState → Prop where
  | uncreated {st₁ : RunState} {f : Fault}
      (hcreate : call .create (fun st => ((), st)) st = (.error f, st₁)) :
      AttemptCourse r split st (.failed f) st₁
  | refused {st₁ : RunState} {shared : Shared} {f : Fault}
      (hcreate : call .create (fun st => ((), st)) st = (.ok (), st₁))
      (hplan : Plan.make r.config split (r.found st₁) = (.error f, shared)) :
      AttemptCourse r split st (.failed f)
        (closeTask { config := r.config, stage := .refused split }
          { st₁ with shared := { shared with metrics := Task.countRefusal shared.metrics f } })
  | reading {st₁ st₂ : RunState} {plan : Plan} {shared : Shared} {s : Session}
      (hcreate : call .create (fun st => ((), st)) st = (.ok (), st₁))
      (hplan : Plan.make r.config split (r.found st₁) = (.ok plan, shared))
      (hread : ReadCourse r split (plan.begun r.config split) plan.start { st₁ with shared } .idle
        s st₂) :
      AttemptCourse r split st .idle st₂
  | read {st₁ st₂ : RunState} {plan : Plan} {shared : Shared} {s : Session} {result : Attempt}
      (hcreate : call .create (fun st => ((), st)) st = (.ok (), st₁))
      (hplan : Plan.make r.config split (r.found st₁) = (.ok plan, shared))
      (hread : ReadCourse r split (plan.begun r.config split) plan.start { st₁ with shared } result
        s st₂) (hresult : result ≠ .idle) :
      AttemptCourse r split st result
        (closeTask { config := r.config, stage := .reading split s } st₂)

/-- What an attempt comes to is one course of it. -/
lemma attempt_course (r : Runner) (split : Split) (st : RunState) :
    AttemptCourse r split st (r.attempt split st).1 (r.attempt split st).2 := by
  cases hcreate : call .create (fun st => ((), st)) st with
  | mk created st₁ =>
    cases created with
    | error f =>
      rw [attempt_of_uncreated hcreate]
      exact .uncreated hcreate
    | ok u =>
      rw [attempt_of_created hcreate]
      cases hplan : Plan.make r.config split (r.found st₁) with
      | mk planned shared =>
        cases planned with
        | error f => exact .refused hcreate hplan
        | ok plan =>
          dsimp only
          rw [readTask_prepared]
          split
          · exact .reading hcreate hplan (.paused ..)
          · have hread := r.drive_course split (plan.begun r.config split) plan.start
              { st₁ with shared }
            generalize r.drive split (plan.begun r.config split) plan.start
              { st₁ with shared } = driven at hread ⊢
            obtain ⟨result, s, st₂⟩ := driven
            cases result with
            | idle => exact .reading hcreate hplan hread
            | finished c => exact .read hcreate hplan hread (by simp)
            | failed f => exact .read hcreate hplan hread (by simp)

/-! ## Runs -/

/-- A run may come to a result from an attempt on that it makes after some retries. -/
inductive RetryCourse (r : Runner) : Split → Nat → RunState → Result → RunState → Prop where
  | running (split : Split) (retries : Nat) (st : RunState) :
      RetryCourse r split retries st .running st
  | reading {split : Split} {retries : Nat} {st st' : RunState}
      (hattempt : AttemptCourse r split st .idle st') : RetryCourse r split retries st .running st'
  | finished {split : Split} {retries : Nat} {st st' : RunState} {c : Option SplitCompletion}
      (hattempt : AttemptCourse r split st (.finished c) st') :
      RetryCourse r split retries st (.returned (.ok c)) st'
  | failed {split : Split} {retries : Nat} {st st' : RunState} {f : Fault}
      (hattempt : AttemptCourse r split st (.failed f) st')
      (hretries : r.retry.retries retries f = false) :
      RetryCourse r split retries st (.returned (.error f)) st'
  | overlong {split : Split} {retries : Nat} {st st' : RunState} {f : Fault}
      (hattempt : AttemptCourse r split st (.failed f) st')
      (hretries : r.retry.retries retries f = true) (hdelay : r.retry.delay retries = none) :
      RetryCourse r split retries st .overlong st'
  | waiting {split : Split} {retries : Nat} {st st' : RunState} {f : Fault}
      (hattempt : AttemptCourse r split st (.failed f) st')
      (hretries : r.retry.retries retries f = true) :
      RetryCourse r split retries st .running st'.countRetry
  | unresumed {split : Split} {retries : Nat} {st st₁ st' : RunState} {f f' : Fault}
      {delay : Duration} (hattempt : AttemptCourse r split st (.failed f) st₁)
      (hretries : r.retry.retries retries f = true) (hdelay : r.retry.delay retries = some delay)
      (hresume : resume split { st₁.countRetry with sleptMs := st₁.sleptMs + delay.timerMillis } =
        (.error f', st')) :
      RetryCourse r split retries st (.returned (.error f')) st'
  | again {split split' : Split} {retries : Nat} {st st₁ st₂ st' : RunState} {f : Fault}
      {delay : Duration} {result : Result} (hattempt : AttemptCourse r split st (.failed f) st₁)
      (hretries : r.retry.retries retries f = true) (hdelay : r.retry.delay retries = some delay)
      (hresume : resume split { st₁.countRetry with sleptMs := st₁.sleptMs + delay.timerMillis } =
        (.ok split', st₂))
      (hrest : RetryCourse r split' (retries + 1) st₂ result st') :
      RetryCourse r split retries st result st'

/-- A run of a split may come to a result, leaving a state. -/
inductive RunCourse (r : Runner) (split : Split) (st : RunState) : Result → RunState → Prop where
  | unresumed {st' : RunState} {f : Fault} (hresume : resume split st = (.error f, st')) :
      RunCourse r split st (.returned (.error f)) st'
  | resumed {split' : Split} {st₁ st' : RunState} {result : Result}
      (hresume : resume split st = (.ok split', st₁))
      (hrest : RetryCourse r split' 0 st₁ result st') : RunCourse r split st result st'

lemma runFrom_course (r : Runner) (split : Split) (st : RunState) (retries attempts : Nat) :
    RetryCourse r split retries st (r.runFrom split st retries attempts).1
      (r.runFrom split st retries attempts).2 := by
  induction attempts generalizing split st retries with
  | zero => exact .running split retries st
  | succ attempts ih =>
    have hattempt := r.attempt_course split st
    unfold runFrom
    generalize r.attempt split st = attempted at hattempt ⊢
    obtain ⟨result, st₁⟩ := attempted
    cases result with
    | idle => exact .reading hattempt
    | finished c => exact .finished hattempt
    | failed f =>
      dsimp only at hattempt ⊢
      split
      · next hretries =>
        split
        · next hdelay => exact .overlong hattempt hretries hdelay
        · next delay hdelay =>
          split
          · exact .waiting hattempt hretries
          · split
            · next hresume => exact .unresumed hattempt hretries hdelay hresume
            · next hresume => exact .again hattempt hretries hdelay hresume (ih _ _ _)
      · next hretries => exact .failed hattempt (by simpa using hretries)

lemma run_course (r : Runner) (split : Split) (st : RunState) (attempts : Nat) :
    RunCourse r split st (r.run split st attempts).1 (r.run split st attempts).2 := by
  unfold run
  split
  · next hresume => exact .unresumed hresume
  · next hresume => exact .resumed hresume (r.runFrom_course _ _ _ _)

end Runner
end Changefeed
