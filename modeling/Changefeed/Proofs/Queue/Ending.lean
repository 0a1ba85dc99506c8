import Changefeed.Proofs.Queue.Limits

/-!
# How a queue ends

A producer ends its queue once, by finishing it or by failing it, and either side may close it.
`Traffic.polled` lists what the polls get while parts of calls interleave, in the order in which
they get it, and `Traffic.ends_as_told` says what that list is before the end, after it, and after
the queue was closed.

A queue is over once it was ended or closed, and it stays over.  Two things follow from that alone,
whatever else is in the queue: a push is refused and leaves nothing behind, and every poll that
looks gets an answer, so that none is parked.  What the answers are depends on the buffer, which
only polls change now, and on the fault, which the first poll takes that finds the buffer empty.
-/

namespace Changefeed

/-! ## Queues that are over -/

/-- What the first poll gets that finds nothing buffered in a queue that was ended so. -/
def Polled.last : Option Fault → Polled
  | some f => .failed f
  | none => .ended

namespace EventQueue

variable {q q' : EventQueue} {report : Report} {ending : Option Fault}

/-- The queue was ended by its producer or closed. -/
def Over (q : EventQueue) : Prop := q.closed = true ∨ q.finished = true

lemma Over.offer_eq (h : q.Over) (r : QueueRecord) : q.offer r = .error .queueClosed := by
  have hor : (q.closed || q.finished) = true := by simpa [Over] using h
  rw [offer, if_pos hor]

/-- Every poll gets an answer. -/
lemma Over.take_ne (h : q.Over) : q.take.1 ≠ none := by
  have htaken := q.taken
  generalize q.take = t at htaken
  obtain ⟨p, q'⟩ := t
  intro hnone
  cases htaken with
  | closed | records | failed | finished => cases hnone
  | nothing hclosed _ _ hfinished =>
    rcases h with hover | hover
    · exact absurd hover (Bool.eq_false_iff.mp hclosed)
    · exact absurd hover (Bool.eq_false_iff.mp hfinished)

lemma Over.moved (h : q.Over) (hmoved : q.Moved report q') : q'.Over := by
  cases hmoved with
  | kept => exact h
  | blocked => exact h
  | accepted => exact h
  | polled htaken => cases htaken <;> exact h
  | finished => exact .inr rfl
  | failed hopen =>
    rw [fail_of_open hopen]
    exact .inr rfl

/-- The queue was closed, and what was buffered is gone. -/
structure Shut (q : EventQueue) : Prop where
  closed_eq : q.closed = true
  buffer_eq : q.buffer = []

/-- A queue that was closed stays so, and its polls get the end. -/
lemma Shut.moved (h : q.Shut) (hmoved : q.Moved report q') :
    q'.Shut ∧ ∀ p, report = .polled p → p = .ended := by
  have hnot : q.closed ≠ false := by simp [h.closed_eq]
  cases hmoved with
  | kept => exact ⟨h, by simp⟩
  | blocked => exact ⟨⟨h.closed_eq, h.buffer_eq⟩, by simp⟩
  | accepted hopen => exact absurd hopen hnot
  | polled htaken =>
    cases htaken with
    | closed => exact ⟨h, fun p hp => (Report.polled.inj hp).symm⟩
    | records hopen | failed hopen | finished hopen => exact absurd hopen hnot
  | finished => exact ⟨⟨h.closed_eq, h.buffer_eq⟩, by simp⟩
  | failed hopen => exact absurd hopen hnot

/-- The queue is open, and its producer has not ended it. -/
structure Running (q : EventQueue) : Prop where
  closed_eq : q.closed = false
  finished_eq : q.finished = false
  error_eq : q.error = none

/-- Polls of a queue that runs get records. -/
lemma Running.served (h : q.Running) (hmax : 1 ≤ q.settings.maxBatchSize)
    (hserved : q.Served report q') :
    q'.Running ∧ ∀ p, report = .polled p →
      ∃ b, p = .records b ∧ b ≠ [] ∧ b.length ≤ q.settings.maxBatchSize := by
  cases hserved with
  | kept => exact ⟨h, by simp⟩
  | blocked => exact ⟨⟨h.closed_eq, h.finished_eq, h.error_eq⟩, by simp⟩
  | accepted => exact ⟨⟨h.closed_eq, h.finished_eq, h.error_eq⟩, by simp⟩
  | polled htaken =>
    cases htaken with
    | closed hclosed => simp [h.closed_eq] at hclosed
    | records _ hbuffer =>
      refine ⟨⟨h.closed_eq, h.finished_eq, h.error_eq⟩, fun p hp => ?_⟩
      exact ⟨q.batch, (Report.polled.inj hp).symm, batch_ne_nil hmax hbuffer, q.length_batch_le⟩
    | failed _ _ herror => simp [h.error_eq] at herror
    | finished _ _ _ hfinished => simp [h.finished_eq] at hfinished

/-- The queue is open, and its producer has ended it so; a fault is still to be delivered. -/
structure Draining (q : EventQueue) (ending : Option Fault) : Prop where
  closed_eq : q.closed = false
  finished_eq : q.finished = true
  error_eq : q.error = ending

lemma Running.finish (h : q.Running) : q.finish.Draining none :=
  ⟨h.closed_eq, rfl, h.error_eq⟩

lemma Running.fail (h : q.Running) (f : Fault) :
    (q.fail f).Draining (some f) ∧ (q.fail f).buffer = q.buffer := by
  rw [fail_of_open h.closed_eq]
  exact ⟨⟨h.closed_eq, rfl, rfl⟩, rfl⟩

/-- What one move does to a queue that is draining, with its report. -/
inductive Drains (q : EventQueue) (ending : Option Fault) : Report → EventQueue → Prop where
  | quiet {q' : EventQueue} (h : q'.Draining ending) (hbuffer : q'.buffer = q.buffer) :
      Drains q ending .nothing q'
  | batch {b : List QueueRecord} {q' : EventQueue} (h : q'.Draining ending) (hne : b ≠ [])
      (hlength : b.length ≤ q.settings.maxBatchSize) (hbuffer : b ++ q'.buffer = q.buffer) :
      Drains q ending (.polled (.records b)) q'
  | last {q' : EventQueue} (h : q'.Draining none) (hbuffer : q.buffer = [])
      (hbuffer' : q'.buffer = []) : Drains q ending (.polled (.last ending)) q'

/-- A queue that is draining gives what is buffered, then the fault once, and then the end. -/
lemma Draining.served (h : q.Draining ending) (hmax : 1 ≤ q.settings.maxBatchSize)
    (hserved : q.Served report q') : q.Drains ending report q' := by
  cases hserved with
  | kept => exact .quiet h rfl
  | blocked => exact .quiet ⟨h.closed_eq, h.finished_eq, h.error_eq⟩ rfl
  | accepted _ hfinished => simp [h.finished_eq] at hfinished
  | polled htaken =>
    cases htaken with
    | closed hclosed => simp [h.closed_eq] at hclosed
    | records _ hbuffer =>
      exact .batch ⟨h.closed_eq, h.finished_eq, h.error_eq⟩ (batch_ne_nil hmax hbuffer)
        q.length_batch_le q.batch_append_buffer
    | failed _ hbuffer herror =>
      obtain rfl : ending = _ := h.error_eq.symm.trans herror
      exact .last ⟨h.closed_eq, h.finished_eq, rfl⟩ hbuffer hbuffer
    | finished _ hbuffer herror =>
      obtain rfl : ending = none := h.error_eq.symm.trans herror
      exact .last h hbuffer hbuffer

end EventQueue

/-! ## Pushes and polls at a queue that is over -/

namespace Exchange

variable {x : Exchange}

/-- However a record is pushed, the push is refused, and nothing is left but the news of that. -/
structure Refuses (x : Exchange) (r : QueueRecord) : Prop where
  offered : x.tryPush r = (.error .queueClosed, x)
  started : x.startPush r = x.withPush x.started (some (.error .queueClosed))
  again : ∀ number waited,
    x.attemptPush ⟨number, r⟩ waited = x.endPush number (.error .queueClosed)

lemma refuses_of_over (h : x.queue.Over) (r : QueueRecord) : x.Refuses r := by
  have htry : x.tryPush r = (.error .queueClosed, x) := by rw [tryPush, h.offer_eq r]
  refine ⟨htry, ?_, fun number waited => ?_⟩
  · rw [startPush_eq, htry]
  · rw [attemptPush, htry]

lemma tryPoll_polls (x : Exchange) : x.tryPoll.2.polls = x.polls := by
  unfold tryPoll
  rcases x.queue.take with ⟨_ | _ | _ | _, _⟩ <;> rfl

lemma tryPoll_ne_of_over (h : x.queue.Over) : x.tryPoll.1 ≠ none := by
  have hne := h.take_ne
  unfold tryPoll
  generalize x.queue.take = t at hne
  obtain ⟨_ | _ | _ | _, q⟩ := t
  · exact absurd rfl hne
  · simp
  · simp
  · simp

lemma attemptPoll_polls_of_over (h : x.queue.Over) (w : WaitingPoll) :
    (x.attemptPoll w).polls = x.polls := by
  have hne := tryPoll_ne_of_over h
  have hpolls := x.tryPoll_polls
  unfold attemptPoll
  generalize x.tryPoll = t at hne hpolls
  obtain ⟨_ | p, y⟩ := t
  · exact absurd rfl hne
  · exact hpolls

/-- No move makes a poll wait at a queue that is over. -/
lemma polls_act_subset (h : x.queue.Over) (m : Move) : (x.act m).2.polls ⊆ x.polls := by
  cases m with
  | offer r =>
    rw [act, (refuses_of_over h r).offered]
    exact List.Subset.refl _
  | look =>
    rw [act, tryPoll_polls]
    exact List.Subset.refl _
  | startPush r =>
    rw [act, (refuses_of_over h r).started]
    exact List.Subset.refl _
  | startPoll =>
    obtain ⟨poll, hexpired⟩ := expirePolls_eq
      ({ x with started := x.started + 1, poll := some ⟨x.started, none⟩ }.attemptPoll
        ⟨x.started, x.now + x.queue.settings.pollIntervalMs⟩)
    rw [act, startPoll, hexpired]
    rw [attemptPoll_polls_of_over (by exact h)]
    exact List.filter_sublist.subset
  | retry place =>
    simp only [act]
    split
    · exact List.Subset.refl _
    · next w _ =>
      cases w with
      | push w =>
        rw [resume, (refuses_of_over (by exact h) w.record).again]
        exact List.Subset.refl _
      | poll w =>
        rw [resume, attemptPoll_polls_of_over (by exact h)]
        exact List.Subset.refl _
  | expire =>
    obtain ⟨poll, hexpired⟩ := x.expirePolls_eq
    rw [act, hexpired]
    exact List.filter_sublist.subset
  | pollAnew number =>
    simp only [act]
    split
    · exact List.Subset.refl _
    · rw [renewPoll, attemptPoll_polls_of_over (by exact h)]
      exact List.filter_sublist.subset
  | withdrawPush number => exact List.Subset.refl _
  | withdrawPoll number => exact List.filter_sublist.subset
  | finish => exact List.nil_subset _
  | fail f =>
    simp only [act, fail]
    split
    · exact List.Subset.refl _
    · exact List.nil_subset _
  | close => exact List.nil_subset _
  | pass ms => exact List.Subset.refl _

end Exchange

/-! ## What polls get -/

/-- The move with which a producer ends its queue so. -/
def Move.ending : Option Fault → Move
  | some f => .fail f
  | none => .finish

/-- The part neither ends the queue for its producer nor closes it. -/
def Part.Ordinary : Part → Prop
  | .whole m => m.Ordinary
  | _ => True

/-- What a poll got, if a poll reports. -/
def Report.polls : Report → List Polled
  | .polled p => [p]
  | .nothing | .accepted _ => []

lemma Report.mem_polls {report : Report} {p : Polled} (h : p ∈ report.polls) :
    report = .polled p := by
  cases report with
  | polled p' => rw [List.mem_singleton.mp h]
  | nothing | accepted => exact absurd h List.not_mem_nil

namespace Traffic

/-- What a call learns in one part. -/
def report (t : Traffic) : Part → Report
  | .whole m => (t.exchange.act m).1
  | .lookPush number _ =>
    match t.pushing.find? (·.number = number) with
    | none => .nothing
    | some w => t.exchange.pushReport w.record
  | .lookPoll number =>
    match t.polling.find? (·.number = number) with
    | none => .nothing
    | some _ => t.exchange.pollReport
  | .askPush _ | .askPoll | .askAgain _ => .nothing

/-- What the polls get, in order.  Those that give up at their deadline get nothing and are not
listed. -/
def polled (t : Traffic) : List Part → List Polled
  | [] => []
  | part :: rest => (t.report part).polls ++ (t.step part).polled rest

/-- The queue. -/
def queue (t : Traffic) : EventQueue := t.exchange.queue

variable {t : Traffic} {part : Part} {ending : Option Fault}

lemma served_lookPush (t : Traffic) (number : Nat) (waited : Bool) :
    t.queue.Served (t.report (.lookPush number waited))
      (t.step (.lookPush number waited)).queue := by
  simp only [queue, report, step]
  cases t.pushing.find? (·.number = number) with
  | none => exact .kept
  | some w =>
    have hlooked := t.exchange.served_attemptPush (t.exchange.withdrawPush w.number) rfl w waited
    simp only [Exchange.lookPush]
    split <;> exact hlooked

lemma served_lookPoll (t : Traffic) (number : Nat) :
    t.queue.Served (t.report (.lookPoll number)) (t.step (.lookPoll number)).queue := by
  simp only [queue, report, step]
  cases t.polling.find? (·.number = number) with
  | none => exact .kept
  | some w =>
    have hlooked := t.exchange.served_attemptPoll (t.exchange.withdrawPoll w.number) rfl w
    simp only [Exchange.lookPoll]
    split <;> exact hlooked

/-- A part that neither ends nor closes the queue serves a call, or does nothing to it. -/
lemma served_step (t : Traffic) (h : part.Ordinary) :
    t.queue.Served (t.report part) (t.step part).queue := by
  cases part with
  | whole m => exact t.exchange.served_act h
  | askPush r => exact .kept
  | askPoll => exact .kept
  | askAgain place =>
    simp only [queue, report, step]
    split <;> exact .kept
  | lookPush number waited => exact t.served_lookPush number waited
  | lookPoll number => exact t.served_lookPoll number

lemma moved_step (t : Traffic) (h : part ≠ .whole .close) :
    t.queue.Moved (t.report part) (t.step part).queue := by
  by_cases hordinary : part.Ordinary
  · exact (t.served_step hordinary).moved
  · cases part with
    | whole m => exact t.exchange.moved_act fun hm => h (by rw [hm])
    | askPush | askPoll | askAgain | lookPush | lookPoll => exact absurd trivial hordinary

/-! ### While the producer is at work -/

lemma polled_of_running (h : t.queue.Running) (hmax : 1 ≤ t.queue.settings.maxBatchSize)
    {parts : List Part} (hparts : ∀ part ∈ parts, part.Ordinary) :
    (t.run parts).queue.Running ∧ ∀ p ∈ t.polled parts,
      ∃ b, p = .records b ∧ b ≠ [] ∧ b.length ≤ t.queue.settings.maxBatchSize := by
  induction parts generalizing t with
  | nil => exact ⟨h, fun p hp => absurd hp List.not_mem_nil⟩
  | cons part rest ih =>
    have hserved := t.served_step (hparts part List.mem_cons_self)
    obtain ⟨hnext, hfirst⟩ := h.served hmax hserved
    have hsettings := hserved.moved.settings_eq
    obtain ⟨hrun, hrest⟩ := ih hnext (hsettings ▸ hmax)
      fun part hpart => hparts part (List.mem_cons_of_mem _ hpart)
    refine ⟨hrun, fun p hp => ?_⟩
    rcases List.mem_append.mp hp with hp | hp
    · exact hfirst p (Report.mem_polls hp)
    · rw [← hsettings]
      exact hrest p hp

/-! ### After its end -/

lemma batches_eq_nil {batches : List (List QueueRecord)} (hne : ∀ b ∈ batches, b ≠ [])
    (hflat : batches.flatten = []) : batches = [] := by
  cases batches with
  | nil => rfl
  | cons b rest =>
    have hb : b = [] := List.flatten_eq_nil_iff.mp hflat b List.mem_cons_self
    exact absurd hb (hne b List.mem_cons_self)

/-- What polls get from a queue that its producer has ended: the buffered records in batches, and
when none is left, the news of the end and then the end again and again. -/
lemma polled_of_draining (h : t.queue.Draining ending)
    (hmax : 1 ≤ t.queue.settings.maxBatchSize) {parts : List Part}
    (hparts : ∀ part ∈ parts, part.Ordinary) :
    ∃ (batches : List (List QueueRecord)) (tail : List Polled),
      t.polled parts = batches.map .records ++ tail ∧
      (∀ b ∈ batches, b ≠ [] ∧ b.length ≤ t.queue.settings.maxBatchSize) ∧
      batches.flatten ++ (t.run parts).queue.buffer = t.queue.buffer ∧
      (tail = [] ∨ (t.run parts).queue.buffer = [] ∧
        ∃ n, tail = .last ending :: List.replicate n .ended) := by
  induction parts generalizing t ending with
  | nil => exact ⟨[], [], rfl, by simp, rfl, .inl rfl⟩
  | cons part rest ih =>
    have hserved := t.served_step (hparts part List.mem_cons_self)
    have hsettings := hserved.moved.settings_eq
    have hdrains := h.served hmax hserved
    have hrest : ∀ part ∈ rest, part.Ordinary :=
      fun part hpart => hparts part (List.mem_cons_of_mem _ hpart)
    rw [show t.run (part :: rest) = (t.step part).run rest from rfl, polled]
    generalize t.report part = report at hdrains
    cases hdrains with
    | quiet hnext hbuffer =>
      obtain ⟨batches, tail, hlist, hsizes, hflow, htail⟩ := ih hnext (hsettings ▸ hmax) hrest
      rw [hsettings] at hsizes
      exact ⟨batches, tail, hlist, hsizes, hflow.trans hbuffer, htail⟩
    | batch hnext hne hlength hbuffer =>
      obtain ⟨batches, tail, hlist, hsizes, hflow, htail⟩ := ih hnext (hsettings ▸ hmax) hrest
      rw [hsettings] at hsizes
      refine ⟨_ :: batches, tail, ?_, List.forall_mem_cons.mpr ⟨⟨hne, hlength⟩, hsizes⟩, ?_, htail⟩
      · rw [hlist]
        rfl
      · rw [List.flatten_cons, List.append_assoc, hflow, hbuffer]
    | last hnext hbuffer hbuffer' =>
      obtain ⟨batches, tail, hlist, hsizes, hflow, htail⟩ := ih hnext (hsettings ▸ hmax) hrest
      rw [hbuffer'] at hflow
      obtain ⟨hflat, hleft⟩ := List.append_eq_nil_iff.mp hflow
      obtain rfl := batches_eq_nil (fun b hb => (hsizes b hb).1) hflat
      refine ⟨[], .last ending :: tail, by rw [hlist]; rfl, by simp, ?_, .inr ⟨hleft, ?_⟩⟩
      · rw [hleft, hbuffer]
        rfl
      · rcases htail with rfl | ⟨-, n, rfl⟩
        · exact ⟨0, rfl⟩
        · exact ⟨n + 1, rfl⟩

/-! ### After closing -/

lemma shut_close (q : EventQueue) : q.close.Shut := ⟨rfl, rfl⟩

/-- A closed queue stays so whatever comes, and its polls get the end. -/
lemma polled_of_shut (h : t.queue.Shut) (parts : List Part) :
    (t.run parts).queue.Shut ∧ ∀ p ∈ t.polled parts, p = .ended := by
  induction parts generalizing t with
  | nil => exact ⟨h, fun p hp => absurd hp List.not_mem_nil⟩
  | cons part rest ih =>
    obtain ⟨hnext, hfirst⟩ :
        (t.step part).queue.Shut ∧ ∀ p, t.report part = .polled p → p = .ended := by
      by_cases hclose : part = .whole .close
      · subst hclose
        exact ⟨shut_close _, by simp [report, Exchange.act]⟩
      · exact h.moved (t.moved_step hclose)
    obtain ⟨hrun, hrest⟩ := ih hnext
    refine ⟨hrun, fun p hp => ?_⟩
    rcases List.mem_append.mp hp with hp | hp
    · exact hfirst p (Report.mem_polls hp)
    · exact hrest p hp

/-! ### Nobody is parked -/

lemma over_run (h : t.queue.Over) (parts : List Part) : (t.run parts).queue.Over :=
  kept_run (fun _ _ _ hover hmoved => hover.moved hmoved) (fun _ _ => .inl rfl) h parts

/-- Every poll that waits has asked and has not looked since. -/
def Unparked (t : Traffic) : Prop :=
  ∀ w ∈ t.exchange.polls, w.number ∈ t.polling.map (·.number)

lemma Unparked.not_parked (h : t.Unparked) (w : WaitingPoll) : ¬t.ParkedPoll w := by
  rintro ⟨hmem, hlooked⟩
  obtain ⟨v, hv, hnumber⟩ := List.mem_map.mp (h w hmem)
  exact hlooked v hv hnumber

lemma Unparked.of_subset (h : t.Unparked) {u : Traffic}
    (hpolls : u.exchange.polls ⊆ t.exchange.polls)
    (hpolling : t.polling.map (·.number) ⊆ u.polling.map (·.number)) : u.Unparked :=
  fun w hw => hpolling (h w (hpolls hw))

lemma Unparked.asks (h : t.Unparked) {u : Traffic} {v : WaitingPoll}
    (hpolls : u.exchange.polls = t.exchange.polls ++ [v])
    (hpolling : u.polling = v :: t.polling) : u.Unparked := by
  intro w hw
  rw [hpolling]
  rw [hpolls] at hw
  rcases List.mem_append.mp hw with hold | hnew
  · exact List.mem_cons_of_mem _ (h w hold)
  · rw [List.mem_singleton.mp hnew]
    exact List.mem_cons_self

/-- A poll that looks at a queue that is over does not come to wait. -/
lemma Unparked.lookPoll (h : t.Unparked) (hover : t.queue.Over) (w : WaitingPoll) :
    Unparked
      { t with
          exchange := t.exchange.lookPoll w
          polling := t.polling.filter (·.number ≠ w.number) } := by
  intro v hv
  have hpolls : (t.exchange.lookPoll w).polls ⊆ (t.exchange.withdrawPoll w.number).polls := by
    have hlooked := Exchange.attemptPoll_polls_of_over
      (x := t.exchange.withdrawPoll w.number) hover w
    unfold Exchange.lookPoll
    split
    · rw [hlooked]
      exact List.Subset.refl _
    · rw [← hlooked]
      exact List.filter_sublist.subset
  obtain ⟨hmem, hother⟩ := List.mem_filter.mp (hpolls hv)
  obtain ⟨u, hu, hnumber⟩ := List.mem_map.mp (h v hmem)
  refine List.mem_map.mpr ⟨u, List.mem_filter.mpr ⟨hu, ?_⟩, hnumber⟩
  rw [hnumber]
  exact hother

/-- No poll comes to be parked at a queue that is over. -/
lemma Unparked.step (h : t.Unparked) (hover : t.queue.Over) (part : Part) :
    (t.step part).Unparked := by
  cases part with
  | whole m =>
    exact h.of_subset (Exchange.polls_act_subset hover m) (List.Subset.refl _)
  | askPush r => exact h
  | askPoll => exact h.asks rfl rfl
  | askAgain place =>
    simp only [Traffic.step]
    split
    · exact h
    · exact h.of_subset (List.Subset.refl _) (List.Subset.refl _)
    · exact h.asks rfl rfl
  | lookPush number waited =>
    simp only [Traffic.step]
    split
    · exact h
    · next w _ =>
      refine h.of_subset ?_ (List.Subset.refl _)
      have hrefused := (Exchange.refuses_of_over
        (x := t.exchange.withdrawPush w.number) hover w.record).again w.number waited
      simp only [Exchange.lookPush, hrefused]
      split <;> exact List.Subset.refl _
  | lookPoll number =>
    simp only [Traffic.step]
    split
    · exact h
    · next w _ => exact h.lookPoll hover w

lemma Unparked.run (h : t.Unparked) (hover : t.queue.Over) (parts : List Part) :
    (t.run parts).Unparked := by
  induction parts generalizing t with
  | nil => exact h
  | cons part rest ih => exact ih (h.step hover part) (over_run hover [part])

/-! ## The end of a queue -/

lemma running_start (settings : QueueSettings) (gauges : Option QueueGauges) :
    (start settings gauges).queue.Running := ⟨rfl, rfl, rfl⟩

/-- The end of the producer drops nothing, and wakes the polls. -/
lemma draining_step (h : t.queue.Running) (ending : Option Fault) :
    let u := t.step (.whole (.ending ending))
    u.queue.Draining ending ∧ u.queue.buffer = t.queue.buffer ∧ u.Unparked := by
  intro u
  cases ending with
  | none => exact ⟨h.finish, rfl, fun w hw => absurd hw List.not_mem_nil⟩
  | some f =>
    have hfail : t.exchange.fail f = { t.exchange with queue := t.queue.fail f }.wakePolls :=
      if_neg (by simpa [queue] using h.closed_eq)
    have hu : u.exchange = { t.exchange with queue := t.queue.fail f }.wakePolls := hfail
    have hqueue : u.queue = t.queue.fail f := congrArg Exchange.queue hu
    have hpolls : u.exchange.polls = [] := congrArg Exchange.polls hu
    obtain ⟨hdraining, hbuffer⟩ := h.fail f
    rw [hqueue]
    exact ⟨hdraining, hbuffer, fun w hw => by simp [hpolls] at hw⟩

/-- However the parts of calls interleave, a queue ends as its producer ended it.  While the
producer is at work, polls that get anything get records.  After it ended the queue they get what is
buffered, in order, and when that is all gone, the fault once, if it failed, and the end from then
on.  A poll that looks gets an answer and none is parked, and every push is refused and adds
nothing.  After the queue was closed, whatever its producer does then, polls get the end only,
nothing is buffered, a fault has no effect, and every push is refused. -/
theorem ends_as_told (settings : QueueSettings) (hmax : 1 ≤ settings.maxBatchSize)
    (gauges : Option QueueGauges) :
    (∀ (ending : Option Fault) (before after : List Part),
      (∀ part ∈ before, part.Ordinary) → (∀ part ∈ after, part.Ordinary) →
      let t := (start settings gauges).run before
      let u := t.step (.whole (.ending ending))
      let v := u.run after
      (∀ p ∈ (start settings gauges).polled before,
        ∃ b, p = .records b ∧ b ≠ [] ∧ b.length ≤ settings.maxBatchSize) ∧
      (∃ (batches : List (List QueueRecord)) (tail : List Polled),
        u.polled after = batches.map .records ++ tail ∧
        (∀ b ∈ batches, b ≠ [] ∧ b.length ≤ settings.maxBatchSize) ∧
        batches.flatten ++ v.queue.buffer = t.queue.buffer ∧
        (tail = [] ∨ v.queue.buffer = [] ∧
          ∃ n, tail = .last ending :: List.replicate n .ended)) ∧
      v.exchange.tryPoll.1 ≠ none ∧ (∀ w, ¬v.ParkedPoll w) ∧ ∀ r, v.exchange.Refuses r) ∧
    ∀ before after : List Part,
      let u := ((start settings gauges).run before).step (.whole .close)
      let v := u.run after
      (∀ p ∈ u.polled after, p = .ended) ∧ v.queue.buffer = [] ∧
        v.exchange.tryPoll = (some .ended, v.exchange) ∧ (∀ w, ¬v.ParkedPoll w) ∧
        (∀ f, v.exchange.fail f = v.exchange) ∧ ∀ r, v.exchange.Refuses r := by
  refine ⟨fun ending before after hbefore hafter => ?_, fun before after => ?_⟩
  · intro t u v
    obtain ⟨hrunning, hfirst⟩ := polled_of_running (running_start settings gauges) hmax hbefore
    have hsettings : u.queue.settings = settings :=
      (run_settings t [.whole (.ending ending)]).trans (run_settings _ before)
    obtain ⟨hdraining, hbuffer, hunparked⟩ := draining_step hrunning ending
    have hover : u.queue.Over := .inr hdraining.finished_eq
    have hlast := polled_of_draining hdraining (by rw [hsettings]; exact hmax) hafter
    rw [hsettings, hbuffer] at hlast
    exact ⟨hfirst, hlast, Exchange.tryPoll_ne_of_over (over_run hover after),
      (hunparked.run hover after).not_parked, Exchange.refuses_of_over (over_run hover after)⟩
  · intro u v
    have hshut : u.queue.Shut := shut_close _
    have hover : u.queue.Over := .inl hshut.closed_eq
    have hunparked : u.Unparked := fun w hw => absurd hw List.not_mem_nil
    obtain ⟨hv, hpolled⟩ := polled_of_shut hshut after
    refine ⟨hpolled, hv.buffer_eq, ?_, (hunparked.run hover after).not_parked, fun f => ?_,
      Exchange.refuses_of_over (over_run hover after)⟩
    · have hclosed : v.exchange.queue.closed = true := hv.closed_eq
      rw [Exchange.tryPoll, EventQueue.take, if_pos hclosed]
    · exact if_pos hv.closed_eq

/-- A producer fails while its last push waits for room.  The polls get what was buffered, the fault
and the end, and the push is refused when it is woken. -/
theorem ends_as_told_failing :
    let before : List Part :=
      [.whole (.startPush (.heartbeat .initial)), .whole (.startPush (.watermark .initial))]
    let after : List Part := [.whole .look, .whole (.retry 0), .whole .look, .whole .look]
    let t := (start { limit := some 1, maxBatchSize := 1 } none).run before
    let u := t.step (.whole (.ending (some .connectionClosed)))
    let v := u.run after
    u.polled after = [.records [.heartbeat .initial], .failed .connectionClosed, .ended] ∧
      v.exchange.push = some ⟨1, some (.error .queueClosed)⟩ ∧ ∀ r, v.exchange.Refuses r := by
  intro before after t u v
  have hbefore : ∀ part ∈ before, part.Ordinary := by simp [before, Part.Ordinary, Move.Ordinary]
  have hafter : ∀ part ∈ after, part.Ordinary := by simp [after, Part.Ordinary, Move.Ordinary]
  obtain ⟨hended, -⟩ :=
    ends_as_told { limit := some 1, maxBatchSize := 1 } (by decide) none
  obtain ⟨-, -, -, -, hrefused⟩ := hended (some .connectionClosed) before after hbefore hafter
  exact ⟨rfl, rfl, hrefused⟩

end Traffic
end Changefeed
