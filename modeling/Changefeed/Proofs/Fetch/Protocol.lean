import Changefeed.Proofs.Fetch.Interleaving
import Changefeed.Proofs.Fetch.Tally
import Changefeed.Proofs.Fetch.Task

/-!
# The protocol of a fetch task

A task may be configured, read and closed in any order and any number of times, and once it is read
its reader and its producer take turns in any order.  `Usage` keeps what the calls gave beside the
task.  However a task is used, it is configured once and read once, and never after it was closed;
its connection is closed once; its split moves along the allowed transitions; it is completed
exactly when there is a report, and there is one only after all events of the split have been given
out; and once the sequence of batches has ended it stays ended.

A producer that is stopped may be in the middle of a step.  What it shares with other tasks can
still change then, but its queue is closed.
-/

namespace Changefeed

/-- What a call on a task or on its reader gave. -/
inductive Returned where
  | configured (result : Outcome Unit)
  | read (result : Outcome Unit)
  | closed
  | batch (b : Batch)

namespace Returned

/-- The sequence of batches is over, or has failed. -/
def Final : Returned → Prop
  | .batch .ended | .batch (.failed _) => True
  | .batch (.events _) | .batch .idle | .configured _ | .read _ | .closed => False

/-- What a call may give after another one: nothing is configured or read twice, or after it was
closed, and nothing but the end comes after the end. -/
structure Allows (before after : Returned) : Prop where
  configured : before = .configured (.ok ()) ∨ before = .closed → after ≠ .configured (.ok ())
  read : before = .read (.ok ()) ∨ before = .closed → after ≠ .read (.ok ())
  batch : before.Final → ∀ b, after = .batch b → b = .ended

/-- The events that were given out. -/
def events : Returned → List ChangeEvent
  | .batch (.events es) => es
  | .batch .idle | .batch .ended | .batch (.failed _) | .configured _ | .read _ | .closed => []

end Returned

/-- A task in use. -/
structure Usage where
  task : Task
  shared : Shared
  /-- What the calls gave, in order. -/
  log : List Returned := []

namespace Usage

/-- What may happen to a task. -/
inductive Move where
  | configure (split : Split)
  | read
  | close
  /-- The reader takes a turn. -/
  | turn
  /-- The producer takes a turn. -/
  | work
  /-- A producer that was stopped in the middle of a step finishes it. -/
  | late (p : Producer)

/-- A call on the task gives something. -/
def give (u : Usage) (r : Returned) : Usage := { u with log := u.log ++ [r] }

/-- One move.  Turns come to nothing on a task that is not being read. -/
def step (u : Usage) : Move → Usage
  | .configure split =>
    let (result, task, shared) := u.task.configure split u.shared
    { u with task, shared }.give (.configured result)
  | .read =>
    let (result, task) := u.task.read
    { u with task }.give (.read result)
  | .close =>
    let (task, shared) := u.task.close u.shared
    { u with task, shared }.give .closed
  | .turn =>
    match u.task.stage with
    | .reading split session =>
      let (b, session, shared) := session.turn u.shared
      let u := { u with task := { u.task with stage := .reading split session }, shared }
      match b with
      | some b => u.give (.batch b)
      | none => u
    | _ => u
  | .work =>
    match u.task.stage with
    | .reading split session =>
      let (session, shared) := session.advance u.shared
      { u with task := { u.task with stage := .reading split session }, shared }
    | _ => u
  | .late p => if u.task.closed then { u with shared := (p.step u.shared).2 } else u

/-- Moves one after the other. -/
def run (u : Usage) (ms : List Move) : Usage := ms.foldl step u

/-- A fresh task. -/
def start (config : FetchConfig) (sh : Shared) : Usage := { task := { config }, shared := sh }

lemma run_append (u : Usage) (ms ns : List Move) : u.run (ms ++ ns) = (u.run ms).run ns :=
  List.foldl_append

lemma run_concat (u : Usage) (ms : List Move) (m : Move) : u.run (ms ++ [m]) = (u.run ms).step m :=
  run_append u ms [m]

/-! ## Asking for a batch -/

/-- Turns that no batch comes of are moves. -/
lemma exists_run_of_leads {s s' : Session} {sh sh' : Shared} (h : Session.Leads s sh s' sh')
    {u : Usage} {split : Split} (hstage : u.task.stage = .reading split s)
    (hshared : u.shared = sh) :
    ∃ ms, u.run ms =
      { u with task := { u.task with stage := .reading split s' }, shared := sh' } := by
  induction h generalizing u with
  | refl s sh => exact ⟨[], by rw [← hstage, ← hshared]; rfl⟩
  | @work s s' sh sh' hrest ih =>
    obtain ⟨ms, hms⟩ := ih (u := u.step .work) (by simp [step, hstage, hshared])
      (by simp [step, hstage, hshared])
    refine ⟨.work :: ms, hms.trans ?_⟩
    simp [step, hstage]
  | @turn s s₁ s' sh sh₁ sh' hturn hrest ih =>
    obtain ⟨ms, hms⟩ := ih (u := u.step .turn) (by simp [step, hstage, hshared, hturn])
      (by simp [step, hstage, hshared, hturn])
    refine ⟨.turn :: ms, hms.trans ?_⟩
    simp [step, hstage, hshared, hturn]

lemma exists_run_nextBatch {u : Usage} {split : Split} {s : Session}
    (hstage : u.task.stage = .reading split s) :
    let next := u.task.nextBatch u.shared
    ∃ ms, u.run ms = { u with task := next.2.1, shared := next.2.2 }.give (.batch next.1) := by
  intro next
  obtain ⟨s₁, sh₁, hleads, hturn⟩ := Session.nextBatch_leads s u.shared
  obtain ⟨ms, hms⟩ := exists_run_of_leads hleads hstage rfl
  refine ⟨ms ++ [.turn], ?_⟩
  rw [run_concat, hms]
  simp [step, hturn, next, Task.nextBatch, hstage]

/-! ## What a move comes to -/

/-- What a move comes to. -/
inductive Stepped (u : Usage) : Move → Usage → Prop where
  | misconfigured {split : Split} {f : Fault} :
      Stepped u (.configure split) (u.give (.configured (.error f)))
  | bound {split : Split} {plan : Plan} {sh : Shared} (hstage : u.task.stage = .fresh)
      (hopen : u.task.closed = false)
      (hplan : Plan.make u.task.config split
        { u.shared with metrics := u.shared.metrics.recordSplitStarted } = (.ok plan, sh)) :
      Stepped u (.configure split)
        ({ u with
          task := { u.task with stage := .prepared split (plan.session u.task.config split) },
          shared := sh }.give (.configured (.ok ())))
  | unbound {split : Split} {f : Fault} {sh : Shared} (hstage : u.task.stage = .fresh)
      (hplan : Plan.make u.task.config split
        { u.shared with metrics := u.shared.metrics.recordSplitStarted } = (.error f, sh)) :
      Stepped u (.configure split)
        ({ u with
          task := { u.task with stage := .refused split },
          shared := { sh with metrics := Task.countRefusal sh.metrics f } }.give
            (.configured (.error f)))
  | misread {f : Fault} : Stepped u .read (u.give (.read (.error f)))
  | begun {split : Split} {s : Session} (hstage : u.task.stage = .prepared split s)
      (hopen : u.task.closed = false) :
      Stepped u .read
        ({ u with task := { u.task with stage := .reading split { s with reader :=
          { s.reader with lifecycle := s.reader.lifecycle.moveIfAllowed .reading } } } }.give
            (.read (.ok ())))
  | closed (hopen : u.task.closed = false) :
      Stepped u .close
        ({ u with
          task := { u.task with stage := Task.closeStage u.task.stage, closed := true },
          shared := (Act.ask Server.close u.shared).2 }.give .closed)
  | reclosed (hclosed : u.task.closed = true) :
      Stepped u .close
        ({ u with task := { u.task with stage := Task.closeStage u.task.stage } }.give .closed)
  | silent {split : Split} {s s' : Session} {sh : Shared}
      (hstage : u.task.stage = .reading split s) (hturn : s.turn u.shared = (none, s', sh)) :
      Stepped u .turn
        { u with task := { u.task with stage := .reading split s' }, shared := sh }
  | answered {split : Split} {s s' : Session} {sh : Shared} {b : Batch}
      (hstage : u.task.stage = .reading split s) (hturn : s.turn u.shared = (some b, s', sh)) :
      Stepped u .turn
        ({ u with task := { u.task with stage := .reading split s' }, shared := sh }.give
          (.batch b))
  | worked {split : Split} {s : Session} (hstage : u.task.stage = .reading split s) :
      Stepped u .work
        { u with
          task := { u.task with stage := .reading split (s.advance u.shared).1 },
          shared := (s.advance u.shared).2 }
  | late {p : Producer} (hclosed : u.task.closed = true) :
      Stepped u (.late p) { u with shared := (p.step u.shared).2 }
  | nothing {m : Move} (hm : m ≠ .close) : Stepped u m u

/-- A move comes to one of the listed things. -/
lemma step_stepped (u : Usage) (m : Move) : Stepped u m (u.step m) := by
  obtain ⟨⟨config, stage, closed⟩, sh, log⟩ := u
  cases m with
  | configure split =>
    simp only [step, Task.configure]
    cases stage with
    | fresh =>
      dsimp only
      cases closed with
      | true => exact .misconfigured
      | false =>
        rw [if_neg (by simp)]
        rcases hplan : Plan.make config split
          { sh with metrics := sh.metrics.recordSplitStarted } with ⟨_ | plan, sh'⟩
        · exact .unbound rfl hplan
        · exact .bound rfl rfl hplan
    | refused split' => exact .misconfigured
    | prepared split' s => exact .misconfigured
    | reading split' s => exact .misconfigured
  | read =>
    simp only [step, Task.read]
    cases stage with
    | fresh => cases closed <;> exact .misread
    | refused split => cases closed <;> exact .misread
    | prepared split s =>
      cases closed with
      | true => exact .misread
      | false => exact .begun rfl rfl
    | reading split s => exact .misread
  | close =>
    simp only [step, Task.close]
    cases closed with
    | true => exact .reclosed rfl
    | false => exact .closed rfl
  | turn =>
    cases stage with
    | reading split s =>
      let u : Usage := ⟨⟨config, .reading split s, closed⟩, sh, log⟩
      rcases hturn : s.turn sh with ⟨_ | b, s', sh'⟩
      · simp only [step, hturn]
        exact .silent (u := u) rfl hturn
      · simp only [step, hturn]
        exact .answered (u := u) rfl hturn
    | fresh => exact .nothing nofun
    | refused split => exact .nothing nofun
    | prepared split s => exact .nothing nofun
  | work =>
    simp only [step]
    cases stage with
    | reading split s => exact .worked rfl
    | fresh => exact .nothing nofun
    | refused split => exact .nothing nofun
    | prepared split s => exact .nothing nofun
  | late p =>
    simp only [step]
    cases closed with
    | true => exact .late rfl
    | false => exact .nothing nofun

/-! ## What holds at any time -/

/-- A move configured a split: its plan, and what was shared when it was made. -/
def Bound (config : FetchConfig) (sh₀ : Shared) (ms : List Move) (split : Split) (plan : Plan)
    (sh : Shared) : Prop :=
  ∃ before after, ms = before ++ .configure split :: after ∧
    Plan.make config split
      { ((start config sh₀).run before).shared with
        metrics := ((start config sh₀).run before).shared.metrics.recordSplitStarted } =
      (.ok plan, sh)

lemma Bound.concat {config : FetchConfig} {sh₀ sh : Shared} {ms : List Move} {split : Split}
    {plan : Plan} (h : Bound config sh₀ ms split plan sh) (m : Move) :
    Bound config sh₀ (ms ++ [m]) split plan sh := by
  obtain ⟨before, after, rfl, hplan⟩ := h
  exact ⟨before, after ++ [m], by simp, hplan⟩

/-- The events that were given out. -/
def given (u : Usage) : List ChangeEvent := u.log.flatMap Returned.events

/-- What is known of a task by its stage. -/
inductive Place (config : FetchConfig) (sh₀ : Shared) (ms : List Move) (u : Usage) : Stage → Prop
  where
  | fresh (hgiven : u.given = []) : Place config sh₀ ms u .fresh
  | refused {split : Split} (hgiven : u.given = []) : Place config sh₀ ms u (.refused split)
  | prepared {split : Split} {plan : Plan} (hbound : Bound config sh₀ ms split plan u.shared)
      (hgiven : u.given = []) (hopen : u.task.closed = false) :
      Place config sh₀ ms u (.prepared split (plan.session config split))
  /-- The task was closed before it was read. -/
  | unread {split : Split} {s : Session} (hgiven : u.given = []) (hclosed : u.task.closed = true)
      (hopened : s.reader.lifecycle.state = .opened) : Place config sh₀ ms u (.prepared split s)
  | reading {split : Split} {s : Session} {plan : Plan} {sh : Shared}
      (hbound : Bound config sh₀ ms split plan sh)
      (hreads : s.Reads plan.mode (plan.producer.output sh) u.given u.shared)
      (hclosed : u.task.closed = true → s.queue.closed = true) :
      Place config sh₀ ms u (.reading split s)

/-- What was given fits the stage of the task. -/
structure Logged (u : Usage) : Prop where
  order : u.log.Pairwise Returned.Allows
  configured : .configured (.ok ()) ∈ u.log → u.task.stage ≠ .fresh
  read : .read (.ok ()) ∈ u.log → ∃ split s, u.task.stage = .reading split s
  closed : .closed ∈ u.log → u.task.closed = true
  final : ∀ r ∈ u.log, r.Final →
    ∃ split s, u.task.stage = .reading split s ∧ s.reader.done = true

/-- What holds of a task at any time. -/
structure Stands (config : FetchConfig) (sh₀ : Shared) (ms : List Move) (u : Usage) : Prop where
  config_eq : u.task.config = config
  closed_iff : u.task.closed = true ↔ Move.close ∈ ms
  closes : u.shared.server.closes = sh₀.server.closes + u.task.closed.toNat
  logged : u.Logged
  place : Place config sh₀ ms u u.task.stage

variable {config : FetchConfig} {sh₀ : Shared} {ms : List Move} {u u' : Usage} {m : Move}

/-! ### What was given -/

lemma mem_give {r a : Returned} (h : a ∈ (u.give r).log) : a ∈ u.log ∨ a = r :=
  (List.mem_append.mp h).imp_right List.mem_singleton.mp

/-- A call gives what may come after all that was given, and what the stage shows. -/
lemma Logged.give (h : u.Logged) {r : Returned} (hallows : ∀ a ∈ u.log, a.Allows r)
    (hconfigured : r = .configured (.ok ()) → u.task.stage ≠ .fresh)
    (hread : r = .read (.ok ()) → ∃ split s, u.task.stage = .reading split s)
    (hclosed : r = .closed → u.task.closed = true)
    (hfinal : r.Final → ∃ split s, u.task.stage = .reading split s ∧ s.reader.done = true) :
    (u.give r).Logged where
  order := by
    refine List.pairwise_append.mpr ⟨h.order, List.pairwise_singleton .., fun a ha b hb => ?_⟩
    obtain rfl := List.mem_singleton.mp hb
    exact hallows a ha
  configured hin := (mem_give hin).elim h.configured fun heq => hconfigured heq.symm
  read hin := (mem_give hin).elim h.read fun heq => hread heq.symm
  closed hin := (mem_give hin).elim h.closed fun heq => hclosed heq.symm
  final a ha hlast := by
    rcases mem_give ha with hold | rfl
    · exact h.final a hold hlast
    · exact hfinal hlast

lemma Logged.give_failed (h : u.Logged) {r : Returned} {f : Fault}
    (hr : r = .configured (.error f) ∨ r = .read (.error f)) : (u.give r).Logged := by
  rcases hr with rfl | rfl
  all_goals
    exact h.give (fun a _ => ⟨by simp, by simp, by simp⟩) (by simp) (by simp) (by simp)
      (by simp [Returned.Final])

/-- A task that goes on: it does not become fresh again, its reader stays and is done for good. -/
structure Goes (t t' : Task) : Prop where
  fresh : t'.stage = .fresh → t.stage = .fresh
  reading : ∀ split s, t.stage = .reading split s →
    ∃ s', t'.stage = .reading split s' ∧ (s.reader.done = true → s'.reader.done = true)
  closed : t.closed = true → t'.closed = true

lemma Logged.goes (h : u.Logged) {t : Task} (ht : Goes u.task t) (sh : Shared) :
    Logged { u with task := t, shared := sh } where
  order := h.order
  configured hin hfresh := h.configured hin (ht.fresh hfresh)
  read hin := by
    obtain ⟨split, s, hs⟩ := h.read hin
    obtain ⟨s', hs', -⟩ := ht.reading split s hs
    exact ⟨split, s', hs'⟩
  closed hin := ht.closed (h.closed hin)
  final r hr hfinal := by
    obtain ⟨split, s, hs, hdone⟩ := h.final r hr hfinal
    obtain ⟨s', hs', hkept⟩ := ht.reading split s hs
    exact ⟨split, s', hs', hkept hdone⟩

lemma goes_of_unread {t : Task} (stage : Stage) (hstage : stage ≠ .fresh)
    (hunread : ∀ split s, t.stage ≠ .reading split s) : Goes t { t with stage } :=
  ⟨fun hfresh => absurd hfresh hstage, fun split s hs => absurd hs (hunread split s), id⟩

lemma goes_of_reading {t : Task} {split : Split} {s s' : Session}
    (hstage : t.stage = .reading split s)
    (hdone : s.reader.done = true → s'.reader.done = true) :
    Goes t { t with stage := .reading split s' } where
  fresh hfresh := by cases hfresh
  reading split₁ s₁ hs := by
    rw [hstage, Stage.reading.injEq] at hs
    obtain ⟨rfl, rfl⟩ := hs
    exact ⟨s', rfl, hdone⟩
  closed := id

lemma goes_close (t : Task) (closed : Bool) (hclosed : t.closed = true → closed = true) :
    Goes t { t with stage := Task.closeStage t.stage, closed } where
  fresh hfresh := by
    cases hstage : t.stage with
    | fresh => rfl
    | refused split => simp [hstage, Task.closeStage] at hfresh
    | prepared split s => simp [hstage, Task.closeStage] at hfresh
    | reading split s => simp [hstage, Task.closeStage] at hfresh
  reading split s hs := ⟨s.close, by rw [hs]; rfl, id⟩
  closed := hclosed

/-- A reader that is done has nothing to give but the end. -/
lemma turned_of_done {s s' : Session} {sh sh' : Shared} {b : Option Batch} (hs : s.Sound)
    (hdone : s.reader.done = true) (h : Session.Turned s sh b s' sh') :
    b = some .ended ∧ s' = s := by
  have hpending := hs.delivered hdone
  cases h with
  | ready hready hes => simp [hpending, hes] at hready
  | past => exact ⟨rfl, rfl⟩
  | idle _ hgoing => simp [hdone] at hgoing
  | stopped _ hgoing => simp [hdone] at hgoing
  | completed _ hgoing => simp [hdone] at hgoing
  | broken _ hgoing => simp [hdone] at hgoing
  | unmarked _ hgoing => simp [hdone] at hgoing
  | refused _ hgoing => simp [hdone] at hgoing
  | passed _ hgoing => simp [hdone] at hgoing
  | taken _ hgoing => simp [hdone] at hgoing

/-- A reader that gives the end or a failure is done. -/
lemma done_of_final {s s' : Session} {sh sh' : Shared} {b : Batch}
    (h : Session.Turned s sh (some b) s' sh') (hb : (Returned.batch b).Final) :
    s'.reader.done = true := by
  cases h with
  | ready => cases hb
  | past _ hdone => exact hdone
  | idle => cases hb
  | stopped => rfl
  | completed => rfl
  | broken => rfl
  | unmarked => rfl
  | refused => rfl
  | passed => cases hb
  | taken _ _ _ _ _ htaken =>
    rcases htaken with hnone | ⟨hsome, -⟩
    · cases hnone
    · obtain rfl := Option.some.inj hsome
      cases hb

lemma done_turned {s s' : Session} {sh sh' : Shared} {b : Option Batch} (hs : s.Sound)
    (h : Session.Turned s sh b s' sh') (hdone : s.reader.done = true) : s'.reader.done = true :=
  (turned_of_done hs hdone h).2 ▸ hdone

/-- What was given fits the stage after a move too. -/
lemma Logged.step (h : u.Logged) (hm : Stepped u m u')
    (hsound : ∀ split s, u.task.stage = .reading split s → s.Sound) : u'.Logged := by
  cases hm with
  | misconfigured => exact h.give_failed (.inl rfl)
  | @bound split plan sh hstage hopen hplan =>
    have hgoes := h.goes (goes_of_unread (.prepared split
      (plan.session u.task.config split)) (by simp) fun _ _ hs => by simp [hstage] at hs) sh
    refine hgoes.give (fun a ha => ⟨fun hbefore => ?_, by simp, by simp⟩) (by simp) (by simp)
      (by simp) (by simp [Returned.Final])
    -- Nothing was configured before, and nothing was closed.
    rcases hbefore with rfl | rfl
    · exact absurd hstage (h.configured ha)
    · simp [h.closed ha] at hopen
  | @unbound split f sh hstage hplan =>
    have hgoes := h.goes (goes_of_unread (.refused split) (by simp)
      fun _ _ hs => by simp [hstage] at hs) { sh with metrics := Task.countRefusal sh.metrics f }
    exact hgoes.give_failed (.inl rfl)
  | misread => exact h.give_failed (.inr rfl)
  | @begun split s hstage hopen =>
    have hgoes := h.goes (goes_of_unread (.reading split { s with reader :=
      { s.reader with lifecycle := s.reader.lifecycle.moveIfAllowed .reading } }) (by simp)
      fun _ _ hs => by simp [hstage] at hs) u.shared
    refine hgoes.give (fun a ha => ⟨by simp, fun hbefore => ?_, by simp⟩) (by simp) (by simp)
      (by simp) (by simp [Returned.Final])
    rcases hbefore with rfl | rfl
    · obtain ⟨split', s', hs'⟩ := h.read ha
      simp [hstage] at hs'
    · simp [h.closed ha] at hopen
  | closed hopen =>
    have hgoes := h.goes (goes_close u.task true fun _ => rfl) (Act.ask Server.close u.shared).2
    exact hgoes.give (fun a _ => ⟨by simp, by simp, by simp⟩) (by simp) (by simp) (by simp)
      (by simp [Returned.Final])
  | reclosed hclosed =>
    have hgoes := h.goes (goes_close u.task u.task.closed id) u.shared
    exact hgoes.give (fun a _ => ⟨by simp, by simp, by simp⟩) (by simp) (by simp)
      (fun _ => hclosed) (by simp [Returned.Final])
  | @silent split s s' sh hstage hturn =>
    have hs := hsound split s hstage
    have hturned := Session.turned hs u.shared
    rw [hturn] at hturned
    exact h.goes (goes_of_reading hstage (done_turned hs hturned)) sh
  | @answered split s s' sh b hstage hturn =>
    have hs := hsound split s hstage
    have hturned := Session.turned hs u.shared
    rw [hturn] at hturned
    have hgoes := h.goes (goes_of_reading hstage (done_turned hs hturned)) sh
    refine hgoes.give (fun a ha => ⟨by simp, by simp, fun hlast b' hb' => ?_⟩) (by simp) (by simp)
      (by simp) fun hfinal => ⟨split, s', rfl, done_of_final hturned hfinal⟩
    obtain ⟨split₁, s₁, hs₁, hdone⟩ := h.final a ha hlast
    rw [hstage, Stage.reading.injEq] at hs₁
    obtain ⟨rfl, rfl⟩ := hs₁
    obtain rfl := Returned.batch.inj hb'
    exact Option.some.inj (turned_of_done hs hdone hturned).1
  | @worked split s hstage =>
    have hgoes : Goes u.task { u.task with stage := .reading split (s.advance u.shared).1 } :=
      goes_of_reading hstage id
    exact h.goes hgoes (s.advance u.shared).2
  | late hclosed => exact h.goes ⟨id, fun split s hs => ⟨s, hs, id⟩, id⟩ _
  | nothing => exact h

/-! ### Where the task stands -/

lemma given_give (u : Usage) (r : Returned) : (u.give r).given = u.given ++ r.events := by
  simp [given, give]

/-- What is known of a stage is known of it after a move that changes nothing else. -/
lemma Place.concat {stage : Stage} (h : Place config sh₀ ms u stage) (hgiven : u'.given = u.given)
    (hclosed : u'.task.closed = u.task.closed) (hshared : u'.shared = u.shared) (m : Move) :
    Place config sh₀ (ms ++ [m]) u' stage := by
  cases h with
  | fresh hnone => exact .fresh (hgiven.trans hnone)
  | refused hnone => exact .refused (hgiven.trans hnone)
  | prepared hbound hnone hopen =>
    rw [← hshared] at hbound
    exact .prepared (hbound.concat m) (hgiven.trans hnone) (hclosed.trans hopen)
  | unread hnone hshut hopened =>
    exact .unread (hgiven.trans hnone) (hclosed.trans hshut) hopened
  | reading hbound hreads hqueue =>
    rw [← hgiven, ← hshared] at hreads
    exact .reading (hbound.concat m) hreads fun hshut => hqueue (hclosed.symm.trans hshut)

lemma begun_reads (plan : Plan) (config : FetchConfig) (split : Split) (sh : Shared) :
    (plan.begun config split).Reads plan.mode (plan.producer.output sh) [] sh where
  markedLast := plan.producer.markedLast_output sh
  sound := ⟨rfl, fun _ => rfl, nofun, by simp [Plan.begun, Plan.session, Lifecycle.moveIfAllowed,
    SplitState.canMoveTo], fun _ => rfl⟩
  following _ _ := ⟨⟨rfl, .inr ⟨rfl, rfl⟩⟩, [], rfl, rfl, rfl⟩
  whole c hc := by cases hc

/-- What is known of a task once it was closed. -/
lemma Place.close (h : Place config sh₀ ms u u.task.stage) (closed : Bool)
    (hclosed : closed = true) (sh : Shared) (m : Move) :
    Place config sh₀ (ms ++ [m])
      ({ u with
        task := { u.task with stage := Task.closeStage u.task.stage, closed },
        shared := sh }.give .closed) (Task.closeStage u.task.stage) := by
  have hgiven : ({ u with
      task := { u.task with stage := Task.closeStage u.task.stage, closed },
      shared := sh }.give .closed).given = u.given := by
    rw [given_give]
    exact List.append_nil _
  generalize u.task.stage = stage at h hgiven ⊢
  cases h with
  | fresh hnone => exact .fresh (hgiven.trans hnone)
  | refused hnone => exact .refused (hgiven.trans hnone)
  | prepared hbound hnone hopen => exact .unread (hgiven.trans hnone) hclosed rfl
  | unread hnone hshut hopened => exact .unread (hgiven.trans hnone) hclosed hopened
  | reading hbound hreads hqueue =>
    have hreads' := hreads.close sh
    rw [← hgiven] at hreads'
    exact .reading (hbound.concat m) hreads' fun _ => rfl

/-- What is known of a task by its stage is known after a move too. -/
lemma Place.step (h : Place config sh₀ ms u u.task.stage) (hu : u = (start config sh₀).run ms)
    (hconfig : u.task.config = config) (hm : Stepped u m u') :
    Place config sh₀ (ms ++ [m]) u' u'.task.stage := by
  have hnothing : ∀ r : Returned, r.events = [] → (u.give r).given = u.given := fun r hr => by
    rw [given_give, hr, List.append_nil]
  cases hm with
  | misconfigured => exact h.concat (hnothing _ rfl) rfl rfl _
  | @bound split plan sh hstage hopen hplan =>
    have hbound : Bound config sh₀ (ms ++ [.configure split]) split plan sh :=
      ⟨ms, [], rfl, by rw [← hu, ← hconfig]; exact hplan⟩
    rw [hstage] at h
    cases h with
    | fresh hnone =>
      rw [hconfig]
      exact .prepared hbound ((hnothing (.configured (.ok ())) rfl).trans hnone) hopen
  | @unbound split f sh hstage hplan =>
    rw [hstage] at h
    cases h with
    | fresh hnone => exact .refused ((hnothing (.configured (.error f)) rfl).trans hnone)
  | misread => exact h.concat (hnothing _ rfl) rfl rfl _
  | @begun split s hstage hopen =>
    rw [hstage] at h
    cases h with
    | @prepared _ plan hbound hnone _ =>
      have hgiven := (hnothing (.read (.ok ())) rfl).trans hnone
      refine .reading (hbound.concat _) ?_ fun hclosed => ?_
      · have hreads := begun_reads plan config split u.shared
        rwa [← hgiven] at hreads
      · have hclosed : u.task.closed = true := hclosed
        simp [hopen] at hclosed
    | unread _ hclosed _ => simp [hopen] at hclosed
  | closed hopen => exact h.close true rfl _ _
  | reclosed hclosed => exact h.close u.task.closed hclosed u.shared _
  | @silent split s s' sh hstage hturn =>
    rw [hstage] at h
    cases h with
    | reading hbound hreads hqueue =>
      have hturned := Session.turned hreads.sound u.shared
      have hnext := hreads.turn
      rw [hturn] at hturned hnext
      rw [Session.eventsOf, List.append_nil] at hnext
      exact .reading (hbound.concat _) hnext fun hclosed => hturned.closed (hqueue hclosed)
  | @answered split s s' sh b hstage hturn =>
    rw [hstage] at h
    cases h with
    | reading hbound hreads hqueue =>
      have hturned := Session.turned hreads.sound u.shared
      have hnext := hreads.turn
      rw [hturn] at hturned hnext
      have hevents : (Returned.batch b).events = Session.eventsOf (some b) := by
        cases b <;> rfl
      refine .reading (hbound.concat _) ?_ fun hclosed => hturned.closed (hqueue hclosed)
      rw [given_give, hevents]
      exact hnext
  | @worked split s hstage =>
    rw [hstage] at h
    cases h with
    | reading hbound hreads hqueue =>
      refine .reading (hbound.concat _) hreads.advance fun hclosed => ?_
      exact (Work.advance_queue s.work s.queue u.shared).2.trans (hqueue hclosed)
  | @late p hclosed =>
    generalize hstage : u.task.stage = stage at h ⊢
    cases h with
    | fresh hnone => exact .fresh hnone
    | refused hnone => exact .refused hnone
    | prepared _ _ hopen => simp [hclosed] at hopen
    | unread hnone hshut hopened => exact .unread hnone hshut hopened
    | reading hbound hreads hqueue =>
      exact .reading (hbound.concat _) (hreads.share (hqueue hclosed) _) hqueue
  | nothing => exact h.concat rfl rfl rfl _

/-! ### Connections -/

/-- The task is closed by the first call that closes it, and its connection with it. -/
lemma closes_step (hm : Stepped u m u')
    (hsound : ∀ split s, u.task.stage = .reading split s → s.Sound)
    (hcloses : u.shared.server.closes = sh₀.server.closes + u.task.closed.toNat) :
    u'.shared.server.closes = sh₀.server.closes + u'.task.closed.toNat := by
  cases hm with
  | @bound split plan sh hstage hopen hplan =>
    have htally := (Plan.opens_make u.task.config split
      { u.shared with metrics := u.shared.metrics.recordSplitStarted }).1
    rw [hplan] at htally
    exact (congrArg Tally.closes htally).trans hcloses
  | @unbound split f sh hstage hplan =>
    have htally := (Plan.opens_make u.task.config split
      { u.shared with metrics := u.shared.metrics.recordSplitStarted }).1
    rw [hplan] at htally
    exact (congrArg Tally.closes htally).trans hcloses
  | closed hopen =>
    rw [hopen] at hcloses
    exact congrArg (· + 1) hcloses
  | @silent split s s' sh hstage hturn =>
    have hturned := Session.turned (hsound split s hstage) u.shared
    rw [hturn] at hturned
    exact (congrArg Server.closes hturned.server).trans hcloses
  | @answered split s s' sh b hstage hturn =>
    have hturned := Session.turned (hsound split s hstage) u.shared
    rw [hturn] at hturned
    exact (congrArg Server.closes hturned.server).trans hcloses
  | @worked split s hstage =>
    exact (congrArg Tally.closes (Work.tally_advance s.work s.queue u.shared)).trans hcloses
  | @late p hclosed => exact (congrArg Tally.closes (p.tally_step u.shared)).trans hcloses
  | misconfigured => exact hcloses
  | misread => exact hcloses
  | begun => exact hcloses
  | reclosed => exact hcloses
  | nothing => exact hcloses

lemma closed_step (hm : Stepped u m u') :
    u'.task.closed = true ↔ u.task.closed = true ∨ m = .close := by
  cases hm with
  | closed hopen => simp [give]
  | reclosed hclosed => simp [give, hclosed]
  | nothing hm => simp [hm]
  | _ => simp [give]

/-! ### All moves -/

lemma Stands.sound (h : Stands config sh₀ ms u) {split : Split} {s : Session}
    (hstage : u.task.stage = .reading split s) : s.Sound := by
  have hplace := h.place
  rw [hstage] at hplace
  cases hplace with
  | reading _ hreads _ => exact hreads.sound

lemma stands_run (config : FetchConfig) (sh₀ : Shared) (ms : List Move) :
    Stands config sh₀ ms ((start config sh₀).run ms) := by
  induction ms using List.reverseRecOn with
  | nil =>
    refine ⟨rfl, by simp [run, start], rfl, ⟨.nil, ?_, ?_, ?_, ?_⟩, .fresh rfl⟩
    all_goals simp [run, start]
  | append_singleton ms m ih =>
    rw [run_concat]
    have hm := step_stepped ((start config sh₀).run ms) m
    have hsound : ∀ split s, ((start config sh₀).run ms).task.stage = .reading split s → s.Sound :=
      fun split s => ih.sound
    refine ⟨?_, ?_, closes_step hm hsound ih.closes, ih.logged.step hm hsound,
      ih.place.step rfl ih.config_eq hm⟩
    · have hconfig := ih.config_eq
      generalize ((start config sh₀).run ms).step m = u' at hm ⊢
      cases hm <;> exact hconfig
    · rw [closed_step hm, ih.closed_iff, List.mem_append, List.mem_singleton, eq_comm (a := m)]

/-! ## The protocol -/

/-- A move leaves the split where it is in its life, or moves it on by an allowed transition. -/
lemma Stands.state_step (h : Stands config sh₀ ms u) (hm : Stepped u m u') :
    u'.task.state? = u.task.state? ∨ ∃ state, u'.task.state? = some state ∧
      (u.task.state?.getD .assigned).canMoveTo state = true := by
  have hplace := h.place
  have hturn : ∀ {split s s' sh b}, u.task.stage = .reading split s →
      s.turn u.shared = (b, s', sh) →
      some s'.reader.lifecycle.state = u.task.state? ∨
        (u.task.state?.getD .assigned).canMoveTo s'.reader.lifecycle.state = true := by
    intro split s s' sh b hstage hturn
    rw [hstage] at hplace
    cases hplace with
    | reading _ hreads _ =>
      have hturned := Session.turned hreads.sound u.shared
      rw [hturn] at hturned
      rw [Task.state?, hstage]
      rcases hreads.lifecycle hturned with hsame | hmoves
      · exact .inl (by rw [hsame])
      · exact .inr hmoves
  cases hm with
  | bound hstage => exact .inr ⟨.opened, rfl, by rw [Task.state?, hstage]; rfl⟩
  | unbound hstage => exact .inr ⟨.failed, rfl, by rw [Task.state?, hstage]; rfl⟩
  | @begun split s hstage hopen =>
    rw [hstage] at hplace
    cases hplace with
    | prepared => exact .inr ⟨.reading, rfl, by rw [Task.state?, hstage]; rfl⟩
    | unread _ hclosed _ => simp [hopen] at hclosed
  | closed => exact .inl (by cases hstage : u.task.stage <;> simp [Task.state?, give, hstage,
      Task.closeStage, Session.close])
  | reclosed => exact .inl (by cases hstage : u.task.stage <;> simp [Task.state?, give, hstage,
      Task.closeStage, Session.close])
  | @silent split s s' sh hstage hsilent =>
    exact (hturn hstage hsilent).imp_right fun hmoves => ⟨_, rfl, hmoves⟩
  | @answered split s s' sh b hstage hanswered =>
    exact (hturn hstage hanswered).imp_right fun hmoves => ⟨_, rfl, hmoves⟩
  | @worked split s hstage => exact .inl (by simp [Task.state?, hstage, Session.advance])
  | misconfigured => exact .inl rfl
  | misread => exact .inl rfl
  | late => exact .inl rfl
  | nothing => exact .inl rfl

/-- What the protocol of a task promises at any time. -/
structure Lawful (config : FetchConfig) (sh₀ : Shared) (ms : List Move) (u : Usage) : Prop where
  /-- At most one call configures the task and at most one reads it, none of them after it was
  closed, and nothing but the end comes after the end or a failure. -/
  order : u.log.Pairwise Returned.Allows
  closed_once : Move.close ∈ ms → u.shared.server.closes = sh₀.server.closes + 1
  unclosed : Move.close ∉ ms → u.shared.server.closes = sh₀.server.closes
  state_step : ∀ m, (u.step m).task.state? = u.task.state? ∨
    ∃ state, (u.step m).task.state? = some state ∧
      (u.task.state?.getD .assigned).canMoveTo state = true
  completed_iff : u.task.state? = some .completed ↔ u.task.completion?.isSome = true
  /-- When there is a report, the events of all records that the producer makes have been given
  out, and it makes no more. -/
  whole : ∀ c, u.task.completion? = some c → ∃ split plan sh,
    Bound config sh₀ ms split plan sh ∧
      Session.Whole plan.mode (plan.producer.output sh) u.given c

/-- However a task is used, the protocol holds. -/
theorem run_lawful (config : FetchConfig) (sh₀ : Shared) (ms : List Move) :
    Lawful config sh₀ ms ((start config sh₀).run ms) := by
  have h := stands_run config sh₀ ms
  have hplace := h.place
  refine ⟨h.logged.order, fun hin => ?_, fun hout => ?_,
    fun m => h.state_step (step_stepped _ m), ?_, fun c hc => ?_⟩
  · rw [h.closes, h.closed_iff.mpr hin]
    rfl
  · rw [h.closes, Bool.eq_false_iff.mpr fun hclosed => hout (h.closed_iff.mp hclosed)]
    rfl
  · unfold Task.state? Task.completion?
    generalize ((start config sh₀).run ms).task.stage = stage at hplace
    cases hplace with
    | fresh => simp
    | refused => simp
    | prepared => simp [Plan.session, Lifecycle.moveIfAllowed, SplitState.canMoveTo]
    | unread _ _ hopened => simp [hopened]
    | reading _ hreads _ => simpa using hreads.sound.reported
  · unfold Task.completion? at hc
    generalize ((start config sh₀).run ms).task.stage = stage at hplace hc
    cases hplace with
    | fresh => cases hc
    | refused => cases hc
    | prepared => cases hc
    | unread => cases hc
    | @reading split s plan sh hbound hreads _ => exact ⟨split, plan, sh, hbound, hreads.whole c hc⟩

end Usage
end Changefeed
