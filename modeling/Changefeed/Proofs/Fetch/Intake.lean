import Changefeed.Proofs.Fetch.Configure
import Changefeed.Proofs.Fetch.Passing
import Changefeed.Proofs.Fetch.Task
import Changefeed.Proofs.Queue.Ending

/-!
# The position of a reader

A position that is kept for later must not be ahead of what was given out, or a reader that starts
from it again loses changes.  For an incremental split it never is: at any time the position of the
reader is the one of the last record that it took, and what it has given out are the changes among
the records that it took (`Intake.position_keeps_pace`).

The records may come from anywhere here.  An `Intake` keeps account of those that came into the
queue and of those that were taken from it, while the producer of the session works, others offer
records, end the queue or close it, and the reader takes its turns, in any order.  How the records
are cut into batches is settled by that order and by nothing else.

The producer's side and the reader meet in the queue alone, so each move is one of two kinds.  Five
things can be done to the queue from the producer's side (`EventQueue.Supplied`), and a turn of a
reader that lets changes pass comes to one of six (`Session.Passed`).
-/

namespace Changefeed

namespace EventQueue

variable {q q' : EventQueue} {added taken pushed : List QueueRecord}

/-! ## The producer's side of a queue -/

/-- What can be done to a queue without taking from it, with the records that it gets. -/
inductive Supplied (q : EventQueue) : List QueueRecord → EventQueue → Prop where
  | kept : Supplied q [] q
  | accepted {r : QueueRecord} (hclosed : q.closed = false) (hfinished : q.finished = false) :
      Supplied q [r] (q.push r)
  | finished : Supplied q [] q.finish
  | failed {f : Fault} (hclosed : q.closed = false) : Supplied q [] (q.fail f)
  | closed : Supplied q [] q.close

lemma supplied_fail (q : EventQueue) (f : Fault) : q.Supplied [] (q.fail f) := by
  by_cases hclosed : q.closed = true
  · rw [fail, if_pos hclosed]
    exact .kept
  · exact .failed (by simpa using hclosed)

lemma Supplied.settings_eq (h : q.Supplied added q') : q'.settings = q.settings := by
  cases h with
  | kept => rfl
  | accepted => rfl
  | finished => rfl
  | failed hclosed => rw [fail_of_open hclosed]
  | closed => rfl

lemma Supplied.of_over (h : q.Supplied added q') (hover : q.Over) : added = [] ∧ q'.Over := by
  cases h with
  | kept => exact ⟨rfl, hover⟩
  | accepted hclosed hfinished => simp [Over, hclosed, hfinished] at hover
  | finished => exact ⟨rfl, .inr rfl⟩
  | failed hclosed =>
    rw [fail_of_open hclosed]
    exact ⟨rfl, .inr rfl⟩
  | closed => exact ⟨rfl, .inl rfl⟩

/-- The queue has what was pushed and not taken, unless it is closed, and a fault comes with its
end. -/
structure Carries (q : EventQueue) (taken pushed : List QueueRecord) : Prop where
  ordered : taken <+: pushed
  buffered : q.closed = false → taken ++ q.buffer = pushed
  ended : q.error ≠ none → q.finished = true

lemma Carries.supplied (h : q.Carries taken pushed) (hq : q.Supplied added q') :
    q'.Carries taken (pushed ++ added) := by
  have hordered : taken <+: pushed ++ added := h.ordered.trans (List.prefix_append ..)
  cases hq with
  | kept =>
    rw [List.append_nil] at hordered ⊢
    exact h
  | accepted hclosed hfinished =>
    refine ⟨hordered, fun _ => ?_, h.ended⟩
    rw [push_buffer, ← List.append_assoc, h.buffered hclosed]
  | finished =>
    refine ⟨hordered, fun hopen => ?_, fun _ => rfl⟩
    rw [List.append_nil]
    exact h.buffered hopen
  | failed hclosed =>
    rw [List.append_nil] at hordered ⊢
    rw [fail_of_open hclosed]
    exact ⟨hordered, h.buffered, fun _ => rfl⟩
  | closed =>
    refine ⟨hordered, fun hopen => ?_, h.ended⟩
    cases hopen

lemma Carries.dropBatch (h : q.Carries taken pushed) (hopen : q.closed = false) :
    q.dropBatch.Carries (taken ++ q.batch) pushed := by
  have hleft : taken ++ q.batch ++ q.dropBatch.buffer = pushed := by
    rw [List.append_assoc, batch_append_buffer, h.buffered hopen]
  exact ⟨⟨_, hleft⟩, fun _ => hleft, h.ended⟩

lemma Carries.taken_all (h : q.Carries taken pushed) (hopen : q.closed = false)
    (hbuffer : q.buffer = []) : taken = pushed := by
  have hleft := h.buffered hopen
  rwa [hbuffer, List.append_nil] at hleft

end EventQueue

/-- The records that come into the queue when the producer takes a turn. -/
def Work.pushes (w : Work) (q : EventQueue) : List QueueRecord :=
  match w with
  | .blocked r _ =>
    match q.offer r with
    | .ok (some _) => [r]
    | .ok none | .error _ => []
  | .running _ | .stopped => []

/-- A turn of the producer does one of the listed things to the queue. -/
lemma Work.supplied_advance (w : Work) (q : EventQueue) (sh : Shared) :
    q.Supplied (w.pushes q) (w.advance q sh).2.1 := by
  cases w with
  | running p =>
    unfold pushes advance
    dsimp only
    split
    · next f sh' _ =>
      unfold failQueue
      by_cases hf : f = .queueClosed
      · rw [if_pos hf]
        exact .kept
      · rw [if_neg hf]
        exact q.supplied_fail f
    · exact .finished
    · exact .kept
    · exact .kept
    · exact .kept
  | blocked r p =>
    have hoffered := q.offered r
    unfold pushes advance
    dsimp only
    generalize q.offer r = offered at hoffered ⊢
    cases hoffered with
    | ended => exact .kept
    | full => exact .kept
    | accepted hclosed hfinished => exact .accepted hclosed hfinished
  | stopped => exact .kept

namespace Session

variable {s s' : Session} {rs : List QueueRecord} {b : Batch}

lemma Passed.carries (hp : s.Passed rs b s') {taken pushed : List QueueRecord}
    (h : s.queue.Carries taken pushed) : s'.queue.Carries (taken ++ rs) pushed := by
  cases hp with
  | records _ hopen => exact h.dropBatch hopen
  | failed =>
    rw [List.append_nil]
    exact ⟨h.ordered, h.buffered, fun herror => absurd rfl herror⟩
  | _ => rwa [List.append_nil]

end Session

/-! ## The account of a reader -/

/-- A session with an account of what went through its queue and of what its reader gave. -/
structure Intake where
  session : Session
  shared : Shared
  /-- The records that came into the queue, in order. -/
  pushed : List QueueRecord := []
  /-- The records that the reader took from it, in order. -/
  taken : List QueueRecord := []
  /-- What the reader gave, in order. -/
  batches : List Batch := []

namespace Intake

/-- What may happen. -/
inductive Move where
  /-- A record is offered to the queue, by whomever. -/
  | push (r : QueueRecord)
  | finish
  | fail (f : Fault)
  | close
  /-- The producer of the session takes a turn. -/
  | work
  /-- The reader takes a turn. -/
  | turn

/-- One move. -/
def step (t : Intake) : Move → Intake
  | .push r =>
    match t.session.queue.offer r with
    | .ok (some queue) =>
      { t with session := { t.session with queue }, pushed := t.pushed ++ [r] }
    | .ok none | .error _ => t
  | .finish => { t with session := { t.session with queue := t.session.queue.finish } }
  | .fail f => { t with session := { t.session with queue := t.session.queue.fail f } }
  | .close => { t with session := t.session.close }
  | .work =>
    let (session, shared) := t.session.advance t.shared
    { t with session, shared, pushed := t.pushed ++ t.session.work.pushes t.session.queue }
  | .turn =>
    let (b, session, shared) := t.session.turn t.shared
    { t with
      session, shared, taken := t.taken ++ t.session.takes, batches := t.batches ++ b.toList }

/-- Moves one after the other. -/
def run (t : Intake) (ms : List Move) : Intake := ms.foldl step t

lemma run_concat (t : Intake) (ms : List Move) (m : Move) :
    t.run (ms ++ [m]) = (t.run ms).step m :=
  List.foldl_append

/-- The events that some batches give. -/
def eventsIn (bs : List Batch) : List ChangeEvent := bs.flatMap fun b => Session.eventsOf (some b)

/-- The events that were given out. -/
def given (t : Intake) : List ChangeEvent := eventsIn t.batches

/-- The position of the reader. -/
def offset (t : Intake) : Offset := t.session.reader.offset

variable {t : Intake} {start : Offset} {size : Nat}

/-- A move that is not the reader's does one of the listed things to the queue, and leaves the
reader and what it took and gave alone. -/
lemma supplied_step (t : Intake) {m : Move} (hm : m ≠ .turn) :
    ∃ added work queue shared, t.session.queue.Supplied added queue ∧
      t.step m =
        { t with
          session := { t.session with work, queue }, shared, pushed := t.pushed ++ added } := by
  have hquiet : t.pushed ++ [] = t.pushed := List.append_nil _
  cases m with
  | push r =>
    have hoffered := t.session.queue.offered r
    simp only [step]
    generalize t.session.queue.offer r = offered at hoffered ⊢
    cases hoffered with
    | ended => exact ⟨[], _, _, _, .kept, by rw [hquiet]⟩
    | full => exact ⟨[], _, _, _, .kept, by rw [hquiet]⟩
    | accepted hclosed hfinished => exact ⟨[r], _, _, _, .accepted hclosed hfinished, rfl⟩
  | finish => exact ⟨[], _, _, _, .finished, by rw [hquiet]; rfl⟩
  | fail f => exact ⟨[], _, _, _, t.session.queue.supplied_fail f, by rw [hquiet]; rfl⟩
  | close => exact ⟨[], _, _, _, .closed, by rw [hquiet]; rfl⟩
  | work => exact ⟨_, _, _, _, t.session.work.supplied_advance t.session.queue t.shared, rfl⟩
  | turn => exact absurd rfl hm

/-! ## What holds at any time -/

/-- What holds when the reader has failed after some batches and before others: all that was pushed
was given out before, and there is nothing after it but the end. -/
structure Failed (t : Intake) (before after : List Batch) : Prop where
  given : eventsIn before = changesOf t.pushed
  refusing : t.session.queue.Over
  done : t.session.reader.done = true
  ended : ∀ b ∈ after, b = .ended

/-- What holds at any time, when the reader began at a position with a batch size. -/
structure Paced (start : Offset) (size : Nat) (t : Intake) : Prop where
  passes : t.session.Passes
  size_eq : t.session.reader.maxBatchSize = size
  carries : t.session.queue.Carries t.taken t.pushed
  given_eq : t.given = changesOf t.taken
  offset_eq : t.offset = (t.taken.getLast?.map QueueRecord.position).getD start
  short : ∀ b ∈ t.batches, (Session.eventsOf (some b)).length ≤ max size 1
  failed : ∀ before f after, t.batches = before ++ .failed f :: after → t.Failed before after

/-- A move on the producer's side keeps it. -/
lemma Paced.supplied (h : t.Paced start size) {added : List QueueRecord} {queue : EventQueue}
    (hq : t.session.queue.Supplied added queue) (work : Work) (shared : Shared) :
    Paced start size
      { t with
        session := { t.session with work, queue }, shared, pushed := t.pushed ++ added } where
  passes := ⟨hq.settings_eq ▸ h.passes.sized, h.passes.mode, h.passes.pending, h.passes.reading⟩
  size_eq := h.size_eq
  carries := h.carries.supplied hq
  given_eq := h.given_eq
  offset_eq := h.offset_eq
  short := h.short
  failed before f after hbatches := by
    obtain ⟨hgiven, hover, hdone, hended⟩ := h.failed before f after hbatches
    obtain ⟨rfl, hover'⟩ := hq.of_over hover
    exact ⟨by rw [List.append_nil, hgiven], hover', hdone, hended⟩

/-- A failure among batches with one more is that one, or was there before. -/
lemma concat_eq_failed {bs before after : List Batch} {b : Batch} {f : Fault}
    (h : bs ++ [b] = before ++ .failed f :: after) :
    (after = [] ∧ bs = before ∧ b = .failed f) ∨
      ∃ rest, after = rest ++ [b] ∧ bs = before ++ .failed f :: rest := by
  rcases List.eq_nil_or_concat after with rfl | ⟨rest, last, rfl⟩
  · obtain ⟨hbs, hb⟩ := List.append_inj' h rfl
    exact .inl ⟨rfl, hbs, List.singleton_inj.mp hb⟩
  · rw [List.concat_eq_append, ← List.cons_append, ← List.append_assoc] at h
    obtain ⟨hbs, hb⟩ := List.append_inj' h rfl
    refine .inr ⟨rest, ?_, hbs⟩
    rw [List.singleton_inj.mp hb, List.concat_eq_append]

/-- A reader fails when there is nothing left to take, and gives nothing but the end after it. -/
lemma Paced.failed_passed (h : t.Paced start size) {rs : List QueueRecord} {b : Batch}
    {session : Session} (hp : t.session.Passed rs b session) (shared : Shared)
    {before after : List Batch} {f : Fault}
    (hbatches : t.batches ++ [b] = before ++ .failed f :: after) :
    Failed
      { t with session, shared, taken := t.taken ++ rs, batches := t.batches ++ [b] }
      before after := by
  rcases concat_eq_failed hbatches with ⟨rfl, rfl, rfl⟩ | ⟨rest, rfl, hold⟩
  · cases hp with
    | failed hdone hopen hbuffer herror =>
      have hall := h.carries.taken_all hopen hbuffer
      have hfinished := h.carries.ended (by simp [herror])
      refine ⟨?_, .inr hfinished, rfl, fun b hb => absurd hb List.not_mem_nil⟩
      rw [← hall]
      exact h.given_eq
  · obtain ⟨hgiven, hover, hdone, hended⟩ := h.failed before f rest hold
    cases hp with
    | records hgoing => simp [hdone] at hgoing
    | idle hgoing => simp [hdone] at hgoing
    | failed hgoing => simp [hdone] at hgoing
    | completed hgoing => simp [hdone] at hgoing
    | past =>
      refine ⟨hgiven, hover, hdone, fun b hb => ?_⟩
      rcases List.mem_append.mp hb with hb | hb
      · exact hended b hb
      · exact List.mem_singleton.mp hb
    | stopped =>
      refine ⟨hgiven, hover, rfl, fun b hb => ?_⟩
      rcases List.mem_append.mp hb with hb | hb
      · exact hended b hb
      · exact List.mem_singleton.mp hb

/-- A turn of the reader keeps it. -/
lemma Paced.passed (h : t.Paced start size) {rs : List QueueRecord} {b : Batch}
    {session : Session} (hp : t.session.Passed rs b session) (shared : Shared) :
    Paced start size
      { t with session, shared, taken := t.taken ++ rs, batches := t.batches ++ [b] } := by
  obtain ⟨hpasses, hsize⟩ := h.passes.passed hp
  obtain ⟨hevents, hlength⟩ := hp.events h.passes
  refine ⟨hpasses, hsize.trans h.size_eq, hp.carries h.carries, ?_, ?_, fun b' hb' => ?_,
    fun before f after => h.failed_passed hp shared⟩
  · have hgiven : eventsIn (t.batches ++ [b]) = t.given ++ Session.eventsOf (some b) := by
      simp [eventsIn, given]
    exact hgiven.trans (by rw [h.given_eq, hevents, changesOf_append])
  · have hoffset : session.reader.offset =
        (rs.getLast?.map QueueRecord.position).getD t.offset := hp.offset
    refine hoffset.trans ?_
    rw [h.offset_eq, List.getLast?_append]
    cases rs.getLast? <;> rfl
  · rcases List.mem_append.mp hb' with hb' | hb'
    · exact h.short b' hb'
    · rw [List.mem_singleton.mp hb', ← h.size_eq]
      exact hlength

lemma Paced.step (h : t.Paced start size) (m : Move) : (t.step m).Paced start size := by
  by_cases hm : m = .turn
  · subst hm
    obtain ⟨b, session, m, hturn, hp⟩ := Session.turn_passed h.passes t.shared
    simp only [Intake.step, hturn, Option.toList_some]
    exact h.passed hp _
  · obtain ⟨added, work, queue, shared, hq, hstep⟩ := t.supplied_step hm
    rw [hstep]
    exact h.supplied hq work shared

lemma Paced.run (h : t.Paced start size) (ms : List Move) : (t.run ms).Paced start size := by
  induction ms generalizing t with
  | nil => exact h
  | cons m ms ih => exact ih (h.step m)

/-! ## Asking for a batch -/

/-- Turns that no batch comes of are moves. -/
lemma exists_run_of_leads {s s' : Session} {sh sh' : Shared} (h : Session.Leads s sh s' sh')
    {t : Intake} (hsession : t.session = s) (hshared : t.shared = sh) :
    ∃ ms, (∀ m ∈ ms, m = .work ∨ m = .turn) ∧ (t.run ms).session = s' ∧
      (t.run ms).shared = sh' ∧ (t.run ms).batches = t.batches := by
  induction h generalizing t with
  | refl s sh => exact ⟨[], by simp, hsession, hshared, rfl⟩
  | @work s s' sh sh' hrest ih =>
    subst hsession hshared
    obtain ⟨ms, hms, hrun⟩ := ih (t := t.step .work) rfl rfl
    exact ⟨.work :: ms, List.forall_mem_cons.mpr ⟨.inl rfl, hms⟩, hrun⟩
  | @turn s s₁ s' sh sh₁ sh' hturn hrest ih =>
    subst hsession hshared
    have hquiet : (t.step .turn).batches = t.batches := by simp [step, hturn]
    obtain ⟨ms, hms, hs, hsh, hbatches⟩ := ih (t := t.step .turn) (by simp [step, hturn])
      (by simp [step, hturn])
    exact ⟨.turn :: ms, List.forall_mem_cons.mpr ⟨.inr rfl, hms⟩, hs, hsh, hbatches.trans hquiet⟩

/-- To ask a reader for its next batch is one way to let the turns go on. -/
lemma exists_run_nextBatch (t : Intake) :
    let next := t.session.nextBatch t.shared
    ∃ ms, (∀ m ∈ ms, m = .work ∨ m = .turn) ∧ (t.run ms).session = next.2.1 ∧
      (t.run ms).shared = next.2.2 ∧ (t.run ms).batches = t.batches ++ [next.1] := by
  intro next
  obtain ⟨s₁, sh₁, hleads, hturn⟩ := Session.nextBatch_leads t.session t.shared
  obtain ⟨ms, hms, hs, hsh, hbatches⟩ := exists_run_of_leads hleads rfl rfl
  refine ⟨ms ++ [.turn], fun m hm => ?_, ?_⟩
  · rcases List.mem_append.mp hm with hm | hm
    · exact hms m hm
    · exact .inr (List.mem_singleton.mp hm)
  · rw [run_concat]
    simp [step, hs, hsh, hturn, hbatches, next]

/-! ## From the configuration on -/

lemma passes_of_incremental {split : IncrementalSplit} {sh sh' : Shared} {plan : Plan}
    (hplan : Plan.incremental split sh = (.ok plan, sh')) :
    plan.mode = .passThrough ∧ plan.start = split.startingOffset := by
  rw [Plan.incremental_eq] at hplan
  obtain ⟨batch, sh₁, -, hopen⟩ := Act.bind_eq_ok hplan
  obtain ⟨-, log, rfl, -⟩ := Plan.openLog_ok hopen
  exact ⟨rfl, rfl⟩

/-- The session of a task that reads an incremental split. -/
lemma begun_of_read {config : FetchConfig} {split : IncrementalSplit} {sh sh' : Shared}
    {task reading : Task} {session : Session}
    (hconfigured : ({ config } : Task).configure (.incremental split) sh = (.ok (), task, sh'))
    (hread : task.read = (.ok (), reading)) (hsession : reading.session? = some session) :
    ∃ plan : Plan, session = plan.begun config (.incremental split) ∧ plan.mode = .passThrough ∧
      plan.start = split.startingOffset := by
  rw [Task.configure_fresh] at hconfigured
  split at hconfigured
  · next plan sh₁ hplan =>
    obtain ⟨rfl, -⟩ := Prod.mk.inj (Prod.mk.inj hconfigured).2
    rw [Task.read_prepared] at hread
    obtain ⟨-, rfl⟩ := Prod.mk.inj hread
    exact ⟨plan, (Option.some.inj hsession).symm, passes_of_incremental hplan⟩
  · cases congrArg Prod.fst hconfigured

lemma paced_begun {plan : Plan} (hmode : plan.mode = .passThrough) (config : FetchConfig)
    (split : Split) (shared : Shared) :
    Paced plan.start config.maxBatchSize { session := plan.begun config split, shared } where
  passes := ⟨rfl, hmode, rfl, fun _ => rfl⟩
  size_eq := rfl
  carries := ⟨List.nil_prefix, fun _ => rfl, fun herror => absurd rfl herror⟩
  given_eq := rfl
  offset_eq := rfl
  short b hb := absurd hb List.not_mem_nil
  failed before f after hbatches := by simp at hbatches

/-- The position of a reader keeps pace with what it gives out.  Whatever records come into the
queue of an incremental split, and however the moves interleave, the reader has taken a beginning of
them; what it has given out are the changes among these, in order, and its position is the one of
the last of these, or the start of the split when it has taken none.  No batch is larger than it may
be.  When the reader fails, all changes that came into the queue were given out before, and nothing
comes after but the end.  As long as it reads, its turn takes what is next in the queue.  All this
holds between any two calls for a batch, for a call is one way in which producer and reader take
their turns. -/
theorem position_keeps_pace {config : FetchConfig} {split : IncrementalSplit} {sh sh' : Shared}
    {task reading : Task} {session : Session}
    (hconfigured : ({ config } : Task).configure (.incremental split) sh = (.ok (), task, sh'))
    (hread : task.read = (.ok (), reading)) (hsession : reading.session? = some session)
    (moves : List Move) :
    let t := run { session, shared := sh' } moves
    t.taken <+: t.pushed ∧
      (t.session.queue.closed = false → t.taken ++ t.session.queue.buffer = t.pushed) ∧
      t.given = changesOf t.taken ∧
      t.offset = (t.taken.getLast?.map QueueRecord.position).getD split.startingOffset ∧
      (∀ es, .events es ∈ t.batches → es.length ≤ max 1 config.maxBatchSize) ∧
      (∀ before f after, t.batches = before ++ .failed f :: after →
        eventsIn before = changesOf t.pushed ∧ ∀ b ∈ after, b = .ended) ∧
      (t.session.reader.done = false → t.session.queue.closed = false →
        t.session.takes = t.session.queue.batch) ∧
      let next := t.session.nextBatch t.shared
      ∃ turns, (∀ m ∈ turns, m = .work ∨ m = .turn) ∧ (t.run turns).session = next.2.1 ∧
        (t.run turns).shared = next.2.2 ∧ (t.run turns).batches = t.batches ++ [next.1] := by
  intro t
  obtain ⟨plan, rfl, hmode, hstart⟩ := begun_of_read hconfigured hread hsession
  have hpaced := (paced_begun hmode config (.incremental split) sh').run moves
  rw [hstart] at hpaced
  refine ⟨hpaced.carries.ordered, hpaced.carries.buffered, hpaced.given_eq, hpaced.offset_eq,
    fun es hes => ?_, fun before f after hbatches => ?_, Session.takes_eq hpaced.passes,
    exists_run_nextBatch _⟩
  · rw [Nat.max_comm]
    exact hpaced.short _ hes
  · have hfailed := hpaced.failed before f after hbatches
    exact ⟨hfailed.given, hfailed.ended⟩

/-- A producer that fails after a heartbeat and a change, read in batches of one record.  The record
that is offered after the failure is refused, and the position stays at the change. -/
theorem position_keeps_pace_failing :
    let config : FetchConfig := { maxBatchSize := 1, maxQueueSize := 2 }
    let split : IncrementalSplit := { splitIndex := 0, tableIds := [], startingOffset := .initial }
    let plan : Plan := ⟨.stream split.job ⟨[], false, none, none⟩, .passThrough, .initial⟩
    let shared := (({ config } : Task).configure (.incremental split) { server := {} }).2.2
    let e : ChangeEvent := .insert (.binlog "log.1" 200) ⟨"db", "t"⟩ [] 0
    let moves : List Move :=
      [.push (.heartbeat (.binlog "log.1" 100)), .push (.change e), .turn, .fail .connectionClosed,
        .push (.heartbeat (.binlog "log.1" 300)), .turn, .turn, .turn]
    let t := run { session := plan.begun config (.incremental split), shared } moves
    t.batches = [.events [], .events [e], .failed .connectionClosed, .ended] ∧
      t.pushed = t.taken ∧ t.given = [e] ∧ t.offset = .binlog "log.1" 200 := by
  intro config split plan shared e moves
  let session := plan.session config (.incremental split)
  have hconfigured : ({ config } : Task).configure (.incremental split) { server := {} } =
      (.ok (), { config, stage := .prepared (.incremental split) session }, shared) := rfl
  have hpace := position_keeps_pace hconfigured (Task.read_prepared ..) rfl moves
  have hrun : let t := run { session := plan.begun config (.incremental split), shared } moves
      t.batches = [.events [], .events [e], .failed .connectionClosed, .ended] ∧
        t.taken = [.heartbeat (.binlog "log.1" 100), .change e] ∧
        t.session.queue.closed = false ∧ t.session.queue.buffer = [] := by
    simp [moves, config, plan, Plan.begun, Plan.session, QueueSettings.forSplit, run, step,
      EventQueue.offer, EventQueue.hasRoom, EventQueue.fail, EventQueue.take, EventQueue.report,
      Session.takes, Session.turn, Session.receive, Session.deliver, Session.failWith,
      Reader.absorbAll, Reader.absorb, Reader.absorbChange, Reader.fail, ReadMode.isPassThrough]
  generalize run { session := plan.begun config (.incremental split), shared } moves = t at *
  obtain ⟨hbatches, htaken, hopen, hbuffer⟩ := hrun
  obtain ⟨-, hleft, hgiven, hoffset, -⟩ := hpace
  have hall := hleft hopen
  rw [hbuffer, List.append_nil] at hall
  rw [htaken] at hgiven hoffset
  exact ⟨hbatches, hall.symm, hgiven, hoffset⟩

end Intake
end Changefeed
