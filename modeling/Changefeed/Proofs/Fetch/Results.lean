import Changefeed.Proofs.Fetch.Attempts

/-!
# What a run reports

The report that a run returns is one of the split that it was asked to read, whatever fails on the
way: the reader of every attempt keeps to its split, and a split is resumed as itself.

Where the sink and the checkpoints do not fail, an attempt comes to what the output of its producer
comes to.  It finishes where the output ends, waits where the output waits, and fails where it
fails.
-/

namespace Changefeed

/-! ## A run reports its own split -/

/-- The reader reads a split, and what it has reported, if anything, is a report of that split. -/
structure Reader.Of (id : SplitId) (r : Reader) : Prop where
  reads : r.splitId = id
  reports : ∀ c, r.completion = some c → c.splitId = id

namespace Reader.Of

variable {id : SplitId} {r r' : Reader}

lemma congr (h : Of id r) (hlife : r'.lifecycle.splitId = r.lifecycle.splitId)
    (hcompletion : r'.completion = r.completion) : Of id r' where
  reads := hlife.trans h.reads
  reports c hc := h.reports c (hcompletion ▸ hc)

lemma absorb (h : Of id r) {record : QueueRecord} {out : List ChangeEvent}
    (habsorb : r.absorb record = .ok (out, r')) : Of id r' := by
  cases record with
  | change e =>
    simp only [Reader.absorb, absorbChange] at habsorb
    split at habsorb
    · cases habsorb
      exact h.congr rfl rfl
    · split at habsorb
      · cases habsorb
        exact h.congr rfl rfl
      · cases habsorb
  | heartbeat position =>
    cases habsorb
    exact h.congr rfl rfl
  | watermark position =>
    cases habsorb
    exact h.congr rfl rfl

lemma absorbAll (h : Of id r) (m : Metrics) (rs : List QueueRecord) :
    Of id (r.absorbAll m rs).2.1 := by
  induction rs generalizing r m with
  | nil => exact h
  | cons record rest ih =>
    rw [Reader.absorbAll]
    split
    · exact h
    · next out r₁ habsorb =>
      have hrest := ih (h.absorb habsorb) (countRecord m record)
      split
      · next heq => rwa [heq] at hrest
      · next heq => rwa [heq] at hrest

lemma fail (h : Of id r) (m : Metrics) : Of id (r.fail m).1 := by
  refine h.congr ?_ rfl
  simp only [Reader.fail, Lifecycle.moveIfAllowed]
  split <;> rfl

lemma complete (h : Of id r) (m : Metrics) : Of id (r.complete m).2.1 := by
  unfold Reader.complete
  split
  · unfold Lifecycle.move
    split
    · next f heq => exact h.congr rfl rfl
    · next l heq =>
      split at heq
      · cases heq
        exact ⟨h.reads, fun c hc => Option.some.inj hc ▸ h.reads⟩
      · cases heq
  · exact h.fail m

/-- A turn of a session leaves its reader to its split. -/
lemma turn {s : Session} (h : Of id s.reader) (sh : Shared) : Of id (s.turn sh).2.1.reader := by
  unfold Session.turn
  split
  · exact h.congr rfl rfl
  · split
    · exact h
    · split
      · exact h
      · next p queue _ =>
        cases p with
        | ended =>
          simp only [Session.receive, Session.finish]
          split
          · exact h.congr rfl rfl
          · exact h.complete sh.metrics
        | failed f => exact h.fail sh.metrics
        | records rs =>
          have habsorbed := h.absorbAll sh.metrics rs
          simp only [Session.receive]
          split
          · exact h
          · split
            · next f reader m heq =>
              rw [heq] at habsorbed
              exact habsorbed.fail m
            · next heq => rwa [heq] at habsorbed
            · next heq =>
              rw [heq] at habsorbed
              split <;> exact habsorbed

lemma turned {s s' : Session} {sh sh' : Shared} {b : Option Batch} (h : Of id s.reader)
    (hturn : s.turn sh = (b, s', sh')) : Of id s'.reader := by
  have hturned := h.turn sh
  rwa [hturn] at hturned

lemma leads {s s' : Session} {sh sh' : Shared} (h : Of id s.reader)
    (hleads : Session.Leads s sh s' sh') : Of id s'.reader := by
  induction hleads with
  | refl => exact h
  | work _ ih => exact ih h
  | turn hturn _ ih => exact ih (h.turned hturn)

/-- A session that is read to its end leaves its reader to its split. -/
lemma drain {s : Session} (h : Of id s.reader) (sh : Shared) :
    Of id (s.drain sh).2.2.1.reader := by
  have hnext : ∀ {s s' : Session} {sh sh' : Shared} {b : Batch}, Of id s.reader →
      s.nextBatch sh = (b, s', sh') → Of id s'.reader := by
    intro s s' sh sh' b h hbatch
    obtain ⟨s₁, sh₁, hleads, hturn⟩ := Session.leads_of_nextBatch hbatch
    exact (h.leads hleads).turned hturn
  fun_induction Session.drain s sh with
  | case1 s sh es s₁ sh₁ hbatch batches stop s₂ sh₂ hrest ih =>
    rw [hrest] at ih
    exact ih (hnext h hbatch)
  | case2 s sh s₁ sh₁ hbatch => exact hnext h hbatch
  | case3 s sh s₁ sh₁ hbatch => exact hnext h hbatch
  | case4 s sh f s₁ sh₁ hbatch => exact hnext h hbatch

end Reader.Of

lemma Plan.begun_of (p : Plan) (config : FetchConfig) (split : Split) :
    (p.begun config split).reader.Of split.splitId :=
  ⟨rfl, nofun⟩

namespace Runner

open RunState

variable {r : Runner} {split : Split} {st st₁ : RunState} {sh : Shared} {plan : Plan} {f : Fault}

/-- What a session reports that is read to its end is a report of its split. -/
lemma ReadCourse.reports {id : SplitId} {s s' : Session} {last : Offset} {result : Attempt}
    (h : ReadCourse r split s last st result s' st₁) (hs : s.reader.Of id) :
    ∀ c, result = .finished (some c) → c.splitId = id := by
  induction h with
  | work _ ih => exact ih hs
  | silent hturn _ ih => exact ih (hs.turned hturn)
  | batch hturn _ _ _ _ ih => exact ih (hs.turned hturn)
  | ended hturn _ =>
    intro c hc
    exact (hs.turned hturn).reports c (Attempt.finished.inj hc)
  | _ => simp

lemma AttemptCourse.reports {result : Attempt} (h : AttemptCourse r split st result st₁) :
    ∀ c, result = .finished (some c) → c.splitId = split.splitId := by
  cases h with
  | @read _ _ plan _ _ _ _ _ hread => exact hread.reports (plan.begun_of r.config split)
  | _ => simp

lemma splitId_resume {split' : Split} (h : resume split st = (.ok split', st₁)) :
    split'.splitId = split.splitId := by
  cases split with
  | snapshot s =>
    cases h
    rfl
  | incremental s =>
    unfold resume at h
    dsimp only at h
    split at h <;> cases h <;> rfl

lemma RetryCourse.reports {retries : Nat} {result : Result}
    (h : RetryCourse r split retries st result st₁) :
    ∀ c, result = .returned (.ok (some c)) → c.splitId = split.splitId := by
  induction h with
  | finished hattempt =>
    intro c hc
    cases hc
    exact hattempt.reports c rfl
  | again _ _ _ hresume _ ih =>
    intro c hc
    exact (ih c hc).trans (splitId_resume hresume)
  | _ => simp

lemma RunCourse.reports {result : Result} (h : RunCourse r split st result st₁) :
    ∀ c, result = .returned (.ok (some c)) → c.splitId = split.splitId := by
  cases h with
  | unresumed => simp
  | resumed hresume hrest =>
    intro c hc
    exact (hrest.reports c hc).trans (splitId_resume hresume)

/-- A task that has a plan is idle when there is no patience left, and else comes to what driving it
comes to. -/
lemma readTask_cases (r : Runner) (split : Split) (plan : Plan) (st : RunState) :
    let read := r.readTask split
      { config := r.config, stage := .prepared split (plan.session r.config split) } st
    let driven := r.drive split (plan.begun r.config split) plan.start st
    r.patienceMs ≤ st.sleptMs ∧ read = (.idle, st) ∨
      st.sleptMs < r.patienceMs ∧ read.1 = driven.1 ∧
        (read.2 = driven.2.2 ∨ ∃ t, read.2 = closeTask t driven.2.2) := by
  intro read driven
  have hread : read = _ := r.readTask_prepared split plan st
  split at hread
  · next h => exact .inl ⟨h, hread⟩
  · next h =>
    refine .inr ⟨Nat.lt_of_not_le h, ?_⟩
    generalize hdriven : r.drive split (plan.begun r.config split) plan.start st = outcome at hread
    obtain ⟨result, s, st'⟩ := outcome
    rw [show driven = (result, s, st') from hdriven]
    cases result with
    | idle => exact hread ▸ ⟨rfl, .inl rfl⟩
    | finished c => exact hread ▸ ⟨rfl, .inr ⟨_, rfl⟩⟩
    | failed f => exact hread ▸ ⟨rfl, .inr ⟨_, rfl⟩⟩

/-! ## What an attempt comes to -/

/-- What the output of a session comes to is what driving it comes to. -/
def resultOf (reader : Reader) (o : Output) : Attempt :=
  match o.finish with
  | .ends => .finished (some (reader.passAll o.records).report)
  | .waits => .idle
  | .fails f => .failed f

/-- Where the sink and the checkpoints do not fail, a session is driven to the end of its output. -/
lemma drive_result (r : Runner) (split : Split) (s : Session) (last : Offset) (st : RunState)
    (hs : s.Attached) (hr : s.reader.Passing) (hquiet : st.Quiet) :
    (r.drive split s last st).1 = resultOf s.reader (s.output st.shared) := by
  fun_induction drive r split s last st with
  | case1 s last st s' shared hbatch f st' hcheckpoint =>
    exact absurd hcheckpoint ((r.hands_checkpointIfMoved split _ _).ne_error (hquiet.share _) f)
  | case2 s last st s' shared hbatch st' hcheckpoint =>
    cases hs.turn hr hbatch with
    | idle hpending hreader hout =>
      rw [hout]
      rfl
  | case3 s last st f s' shared hbatch =>
    cases hs.turn hr hbatch with
    | failed hpending hcompletion hout =>
      rw [hout]
      rfl
  | case4 s last st s' shared hbatch f st' hflush =>
    exact absurd hflush (hands_flush.ne_error (hquiet.share _) f)
  | case5 s last st s' shared hbatch st' hflush =>
    cases hs.turn hr hbatch with
    | ended hpending hcompletion hout =>
      rw [hout, hcompletion]
      rfl
  | case6 s last st es s' shared hbatch f st' hdeliver =>
    exact absurd hdeliver ((hands_deliver es).ne_error (hquiet.share _) f)
  | case7 s last st es s' shared hbatch st₁ hdeliver f st₂ hcheckpoint =>
    have hquiet₁ := ((hands_deliver es).handed (hquiet.share _) hdeliver).1.quiet
    exact absurd hcheckpoint ((r.hands_checkpointIfMoved split _ _).ne_error hquiet₁ f)
  | case8 s last st es s' shared hbatch st₁ hdeliver st₂ hcheckpoint ih =>
    obtain ⟨hhanded₁, m₁, hshared₁⟩ := (hands_deliver es).handed (hquiet.share shared) hdeliver
    obtain ⟨hhanded₂, m₂, hshared₂⟩ :=
      (r.hands_checkpointIfMoved split _ _).handed hhanded₁.quiet hcheckpoint
    have hout : s'.output st₂.shared = s'.output shared := by
      rw [hshared₂, hshared₁]
      exact s'.output_metrics shared m₂
    cases hs.turn hr hbatch with
    | @ready _ rest _ _ hattached hpending hes hreader hsame hsource =>
      have hpassing : s'.reader.Passing := by
        rw [hreader]
        exact ⟨hr.mode, hr.ongoing, hr.reading⟩
      rw [ih hattached hpassing hhanded₂.quiet, hout, hsame, hreader]
      simp only [resultOf, Reader.report_passAll_pending]
    | @passed rs _ _ hattached hpending hrs hreader hrest =>
      have hpassing : s'.reader.Passing := by
        rw [hreader]
        exact hr.passAll rs
      rw [ih hattached hpassing hhanded₂.quiet, hout, ← hrest, hreader]
      simp only [resultOf, Output.after_finish, Output.after_records, Reader.passAll_append]

/-! ## What a plan comes to -/

/-- What reading in a mode comes to by the output of its producer: the events that are given out,
how it stops, and what is shared then. -/
inductive Comes (mode : ReadMode) (o : Output) : List ChangeEvent → Attempt → Shared → Prop where
  | finished {given : List ChangeEvent} {c : SplitCompletion} {sh : Shared}
      (hwhole : Session.Whole mode o given c) (hsource : sh.source = o.source) :
      Comes mode o given (.finished (some c)) sh
  | idle {given : List ChangeEvent} {mode' : ReadMode} {sh : Shared} (hwaits : o.finish = .waits)
      (htaken : mode.takeAll o.records = .ok (given, mode')) (hsource : sh.source = o.source) :
      Comes mode o given .idle sh
  | failed {given : List ChangeEvent} {mode' : ReadMode} {f : Fault} {sh : Shared}
      (hfails : o.finish = .fails f) (htaken : mode.takeAll o.records = .ok (given, mode'))
      (hsource : sh.source = o.source) : Comes mode o given (.failed f) sh
  /-- Changes are still held when the records end. -/
  | unmarked {given : List ChangeEvent} {n : Normalizer} {id : SplitId} {sh : Shared}
      (hends : o.finish = .ends) (htaken : mode.takeAll o.records = .ok (given, .normalize n))
      (hsource : sh.source = o.source) :
      Comes mode o given (.failed (.invalidState (.endedWithoutWatermark id.text))) sh
  | refused {given : List ChangeEvent} {f : Fault} {sh : Shared}
      (hrefused : mode.takeAll o.records = .error f) : Comes mode o given (.failed f) sh

section

variable {mode mode' : ReadMode} {o : Output} {size : Nat} {given out : List ChangeEvent}
  {s s' : Session} {last last' : Offset} {result : Attempt}

/-- Reading fails as its producer does, when its records are taken. -/
lemma Comes.of_fails (h : Comes mode o given result sh) (hfails : o.finish = .fails f)
    (htaken : mode.takeAll o.records = .ok (out, mode')) :
    result = .failed f ∧ given = out ∧ sh.source = o.source := by
  cases h with
  | finished hwhole => cases hfails.symm.trans hwhole.ends
  | idle hwaits => cases hfails.symm.trans hwaits
  | failed hfails' htaken' hsource =>
    cases hfails.symm.trans hfails'
    cases htaken.symm.trans htaken'
    exact ⟨rfl, rfl, hsource⟩
  | unmarked hends => cases hfails.symm.trans hends
  | refused hrefused => cases htaken.symm.trans hrefused

/-- Reading finishes where its producer ends, when its records are taken and none is held. -/
lemma Comes.of_ends (h : Comes mode o given result sh) (hends : o.finish = .ends)
    (htaken : mode.takeAll o.records = .ok (out, .passThrough)) :
    ∃ c, result = .finished (some c) ∧ given = out := by
  cases h with
  | finished hwhole =>
    cases htaken.symm.trans hwhole.events
    exact ⟨_, rfl, rfl⟩
  | idle hwaits => cases hends.symm.trans hwaits
  | failed hfails => cases hends.symm.trans hfails
  | unmarked _ htaken' => cases htaken.symm.trans htaken'
  | refused hrefused => cases htaken.symm.trans hrefused

lemma Drives.attached (h : Drives r split s last st s' last' st₁) (hs : s.Attached) :
    s'.Attached := by
  induction h with
  | refl => exact hs
  | batch hbatch _ _ _ ih => exact ih ((Session.nextBatch_left hs hbatch).2 _ rfl)

/-- A batch that fails tells what the output of the session comes to. -/
lemma Comes.of_failed {sh sh' : Shared} (hgoing : s.Going mode o size given sh)
    (hbatch : s.nextBatch sh = (.failed f, s', sh')) : Comes mode o given (.failed f) sh' := by
  obtain ⟨s₁, sh₁, hgoing₁, -, hturned⟩ := hgoing.next
  rw [hbatch] at hturned
  have hfollowing := hgoing₁.following
  have hsource := hturned.source
  cases hturned with
  | broken hpending _ _ hbuffer herror =>
    obtain ⟨hfails, hshared, htaken, -⟩ :=
      hfollowing.exhausted hpending (hfollowing.linked.output_of_error hbuffer herror sh₁)
    exact .failed hfails htaken (hsource.trans hshared.symm)
  | unmarked hpending _ _ hbuffer herror hfinished hmode =>
    obtain ⟨hends, hshared, htaken, -⟩ := hfollowing.exhausted hpending
      (hfollowing.linked.output_of_finished hbuffer herror hfinished sh₁)
    cases hheld : s₁.reader.mode with
    | passThrough => simp [hheld, ReadMode.isPassThrough] at hmode
    | normalize n => exact .unmarked hends (hheld ▸ htaken) (hsource.trans hshared.symm)
  | refused hpending hdone _ habsorb =>
    have hmarked := hfollowing.batch_markedLast hgoing₁.reads.markedLast
    obtain ⟨hrefused, -⟩ := hgoing₁.reads.sound.refuses hdone hmarked habsorb
    obtain ⟨-, taken, hout, htaken, -⟩ := hfollowing
    have hrecords : o.records =
        taken ++ (s₁.queue.batch ++ (s₁.work.output s₁.queue.dropBatch sh₁).records) := by
      rw [← hout, Session.output, ← Session.output_dropBatch]
      rfl
    refine .refused ?_
    rw [hrecords]
    exact ReadMode.takeAll_append_error htaken (ReadMode.takeAll_append_of_error hrefused _)
  | taken _ _ _ _ _ hb => rcases hb with hb | ⟨hb, -⟩ <;> cases hb

/-- Where a session stops, all that its output comes to has come of it. -/
lemma Stops.comes (h : Stops s st result s' st₁)
    (hgoing : s.Going mode o size given st.shared) (hs : s.Attached) (hquiet : st.Quiet) :
    Comes mode o given result st₁.shared := by
  cases h with
  | @idle _ shared _ hbatch hhanded hsource =>
    have hleft := Session.nextBatch_left hs hbatch
    have hwaiting := (hleft.1 rfl).output (hleft.2 [] rfl)
    obtain ⟨s₁, sh₁, hgoing₁, -, hturned⟩ := hgoing.next
    rw [hbatch] at hturned
    cases hturned with
    | idle hpending =>
      obtain ⟨hwaits, hshared, htaken, -⟩ := hgoing₁.following.exhausted hpending hwaiting
      exact .idle hwaits htaken (hsource.trans hshared.symm)
    | taken _ _ _ _ _ hb => rcases hb with hb | ⟨hb, -⟩ <;> cases hb
  | failed hbatch => exact .of_failed hgoing hbatch
  | @ended _ shared _ hbatch hflush =>
    obtain ⟨c, hcompletion, hwhole⟩ := hgoing.ended hbatch
    obtain ⟨-, m, hflushed⟩ := hands_flush.handed (hquiet.share _) hflush
    obtain ⟨s₁, sh₁, hgoing₁, -, hturned⟩ := hgoing.next
    rw [hbatch] at hturned
    have hsource : st₁.shared.source = shared.source := by
      rw [hflushed]
      rfl
    rw [hcompletion]
    refine .finished hwhole (hsource.trans (hturned.source.trans ?_))
    cases hturned with
    | completed hpending _ _ hbuffer herror hfinished =>
      have hfollowing := hgoing₁.following
      exact (hfollowing.exhausted hpending
        (hfollowing.linked.output_of_finished hbuffer herror hfinished sh₁)).2.1.symm
    | past _ hdone => cases hgoing₁.ongoing.symm.trans hdone
    | stopped _ _ hclosed => cases hgoing₁.opened.symm.trans hclosed
    | taken _ _ _ _ _ hb => rcases hb with hb | ⟨hb, -⟩ <;> cases hb

end

/-- An attempt whose split can be planned drives a session of the plan. -/
lemma attempt_of_plan {split : Split} {plan : Plan} {sh : Shared} (hquiet : st.Quiet)
    (hpatient : st.sleptMs < r.patienceMs)
    (hplan : Plan.make r.config split (r.found st) = (.ok plan, sh)) :
    ∃ st₁ : RunState, st₁.Quiet ∧ st₁.sink = st.sink ∧ st₁.sleptMs = st.sleptMs ∧ st₁.shared = sh ∧
      r.attempt split st =
        match r.drive split (plan.begun r.config split) plan.start st₁ with
        | (.idle, _, st) => (.idle, st)
        | (result, s, st) =>
          (result, closeTask { config := r.config, stage := .reading split s } st) := by
  refine ⟨{ st with script := (st.script.make .create).2, shared := sh },
    (Script.make_quiet hquiet .create).2, rfl, rfl, rfl, ?_⟩
  have hfound : r.found { st with script := (st.script.make .create).2 } = r.found st := rfl
  rw [attempt_of_created (call_quiet hquiet .create _), hfound, hplan]
  dsimp only
  rw [readTask_prepared]
  exact if_neg (Nat.not_le.mpr hpatient)

/-- Where nothing but the connection fails and there is patience, an attempt whose split can be
planned comes to what the output of the plan comes to. -/
lemma attempt_comes {split : Split} {plan : Plan} {sh : Shared} (hquiet : st.Quiet)
    (hconfig : r.config.fault? = none) (hpatient : st.sleptMs < r.patienceMs)
    (hplan : Plan.make r.config split (r.found st) = (.ok plan, sh)) :
    ∃ given s st₁, Comes plan.mode (plan.producer.output sh) given (r.attempt split st).1
        st₁.shared ∧
      st₁.Quiet ∧ st₁.sink.events = st.sink.events ++ given ∧ st₁.sleptMs = st.sleptMs ∧
      ((r.attempt split st).1 ≠ .idle → (r.attempt split st).2 =
        closeTask { config := r.config, stage := .reading split s } st₁) := by
  obtain ⟨st₀, hquiet₀, hsink₀, hslept₀, hshared₀, hattempt⟩ :=
    attempt_of_plan hquiet hpatient hplan
  obtain ⟨s₁, last₁, st₁, hdrives, hstops⟩ :=
    drive_stops r split (plan.begun r.config split) plan.start hquiet₀
  obtain ⟨given, hgoing, hhanded⟩ :=
    hdrives.going (Plan.begun_going plan r.config split st₀.shared) hquiet₀
  rw [List.nil_append] at hgoing
  have hattached := hdrives.attached (Plan.begun_attached hconfig)
  have hcomes := hstops.comes hgoing hattached hhanded.quiet
  obtain ⟨hquiet₂, -, hevents, hslept, -⟩ := hstops.counted hgoing hhanded.quiet
  rw [hhanded.events, hsink₀] at hevents
  rw [hhanded.slept, hslept₀] at hslept
  rw [hshared₀] at hcomes
  generalize r.drive split (plan.begun r.config split) plan.start st₀ = driven at *
  obtain ⟨result, s', st₂⟩ := driven
  refine ⟨given, s', st₂, ?_, hquiet₂, hevents, hslept, ?_⟩
  · rw [hattempt]
    cases result <;> exact hcomes
  · intro hresult
    rw [hattempt] at hresult ⊢
    cases result with
    | idle => exact absurd rfl hresult
    | _ => rfl

/-- An attempt fails as its producer does, when the records before are taken. -/
lemma attempt_failed {split : Split} {plan : Plan} {sh : Shared} (hquiet : st.Quiet)
    (hconfig : r.config.fault? = none) (hpatient : st.sleptMs < r.patienceMs)
    (hplan : Plan.make r.config split (r.found st) = (.ok plan, sh)) {o : Output}
    (hout : plan.producer.output sh = o) (hfails : o.finish = .fails f)
    {given : List ChangeEvent} {mode : ReadMode}
    (htaken : plan.mode.takeAll o.records = .ok (given, mode)) :
    ∃ st', r.attempt split st = (.failed f, st') ∧ st'.Quiet ∧
      st'.sink.events = st.sink.events ++ given ∧ st'.sleptMs = st.sleptMs ∧
      st'.shared.server = (Server.close o.source.server).2 ∧
      st'.shared.history = o.source.history ∧ st'.shared.backend = o.source.backend := by
  obtain ⟨given', s, st₁, hcomes, hquiet₁, hevents, hslept, hclosed⟩ :=
    attempt_comes hquiet hconfig hpatient hplan
  rw [hout] at hcomes
  obtain ⟨hresult, rfl, hsource⟩ := hcomes.of_fails hfails htaken
  refine ⟨_, Prod.ext hresult (hclosed (by simp [hresult])), hquiet₁, hevents, hslept, ?_⟩
  rw [← hsource]
  exact ⟨rfl, rfl, rfl⟩

lemma attempt_finished {split : Split} {plan : Plan} {sh : Shared} (hquiet : st.Quiet)
    (hconfig : r.config.fault? = none) (hpatient : st.sleptMs < r.patienceMs)
    (hplan : Plan.make r.config split (r.found st) = (.ok plan, sh)) {o : Output}
    (hout : plan.producer.output sh = o) (hends : o.finish = .ends) {given : List ChangeEvent}
    (htaken : plan.mode.takeAll o.records = .ok (given, .passThrough)) :
    ∃ c st', r.attempt split st = (.finished (some c), st') := by
  obtain ⟨given', s, st₁, hcomes, -⟩ := attempt_comes hquiet hconfig hpatient hplan
  rw [hout] at hcomes
  obtain ⟨c, hresult, -⟩ := hcomes.of_ends hends htaken
  exact ⟨c, _, Prod.ext hresult rfl⟩

/-- Where nothing but the connection fails and there is patience, an attempt whose split could be
planned comes to what the output of the plan comes to. -/
lemma attempt_result {split : Split} {plan : Plan} {sh : Shared} (hquiet : st.Quiet)
    (hconfig : r.config.fault? = none) (hpatient : st.sleptMs < r.patienceMs)
    (hplan : Plan.make r.config split (r.found st) = (.ok plan, sh))
    (hmode : plan.mode = .passThrough) :
    (r.attempt split st).1 =
      resultOf (plan.begun r.config split).reader (plan.producer.output sh) := by
  obtain ⟨st₁, hquiet₁, -, -, hshared₁, hattempt⟩ := attempt_of_plan hquiet hpatient hplan
  have hdriven := r.drive_result split (plan.begun r.config split) plan.start st₁
    (Plan.begun_attached hconfig) (Plan.begun_passing hmode) hquiet₁
  rw [hattempt, ← hshared₁]
  refine Eq.trans ?_ hdriven
  generalize r.drive split (plan.begun r.config split) plan.start st₁ = driven
  obtain ⟨result, s', st₂⟩ := driven
  cases result <;> rfl

end Runner
end Changefeed
