import Changefeed.Fetch.Task
import Changefeed.Proofs.Fetch.Shared
import Changefeed.Proofs.Fetch.Turns

/-!
# Connections and splits that are counted

The server notes where streams were opened and how often its connection was closed, and the counters
say how many splits were started, completed and failed.  Only few of the things that a task does
touch any of these.  Configuring a split opens a stream at the end, if at all.  A producer may open
streams.  A reader counts its split once, when it is completed or has failed.
-/

namespace Changefeed
namespace Server

/-! ## Streams and connections -/

/-- The call opens no stream and closes no connection. -/
def Leaves {α : Type} (act : ServerAct α) : Prop :=
  ∀ s : Server, (act s).2.opened = s.opened ∧ (act s).2.closes = s.closes

variable {α : Type}

lemma Leaves.of_eq {act : ServerAct α} (h : Leaves act) {s s' : Server} {r : Outcome α}
    (heq : act s = (r, s')) : s'.opened = s.opened ∧ s'.closes = s.closes := by
  have hs := h s
  rwa [heq] at hs

lemma leaves_call (c : ServerCall) {act : ServerAct α} (h : Leaves act) :
    Leaves (call c act) := by
  intro s
  unfold call
  split
  · next hmake =>
    obtain rfl := (Prod.mk.inj hmake).2
    exact ⟨rfl, rfl⟩
  · next script hmake => exact h { s with script }

lemma leaves_logFiles : Leaves logFiles := leaves_call _ fun _ => ⟨rfl, rfl⟩

lemma leaves_knownGtids : Leaves knownGtids := leaves_call _ fun _ => ⟨rfl, rfl⟩

lemma leaves_purgedGtids : Leaves purgedGtids := leaves_call _ fun _ => ⟨rfl, rfl⟩

lemma leaves_currentPosition : Leaves currentPosition := leaves_call _ fun s => by
  split <;> exact ⟨rfl, rfl⟩

lemma leaves_querySchema (tableId : TableId) : Leaves (querySchema tableId) :=
  leaves_call _ fun s => by
    dsimp only
    split <;> exact ⟨rfl, rfl⟩

lemma leaves_resetListeners : Leaves resetListeners := leaves_call _ fun _ => ⟨rfl, rfl⟩

lemma leaves_scan (split : SnapshotSplit) : Leaves (scan split) := leaves_call _ fun s => by
  split <;> exact ⟨rfl, rfl⟩

lemma leaves_checkOffset (o : Offset) : Leaves (checkOffset o) := by
  intro s
  unfold checkOffset
  cases o with
  | binlog filename position =>
    dsimp only
    split
    · exact ⟨rfl, rfl⟩
    · split
      · next heq => exact leaves_logFiles.of_eq heq
      · next heq => exact leaves_logFiles.of_eq heq
  | gtid set =>
    dsimp only
    split
    · exact ⟨rfl, rfl⟩
    · split
      · next heq => exact leaves_knownGtids.of_eq heq
      · next heq =>
        obtain ⟨hopened, hcloses⟩ := leaves_knownGtids.of_eq heq
        split
        · exact ⟨hopened, hcloses⟩
        · split
          · next heq' =>
            obtain ⟨hopened', hcloses'⟩ := leaves_purgedGtids.of_eq heq'
            exact ⟨hopened'.trans hopened, hcloses'.trans hcloses⟩
          · next heq' =>
            obtain ⟨hopened', hcloses'⟩ := leaves_purgedGtids.of_eq heq'
            exact ⟨hopened'.trans hopened, hcloses'.trans hcloses⟩

lemma leaves_ensureResumable (o : Offset) : Leaves (ensureResumable o) := by
  intro s
  unfold ensureResumable
  split
  · next heq => exact (leaves_checkOffset o).of_eq heq
  · next heq => exact (leaves_checkOffset o).of_eq heq
  · next heq => exact (leaves_checkOffset o).of_eq heq

/-- A stream that was opened is noted, and one that could not be opened is not. -/
lemma opened_openStream (o : Offset) (s : Server) :
    (openStream o s).2.opened =
        (match (openStream o s).1 with
          | .ok _ => s.opened.push o
          | .error _ => s.opened) ∧
      (openStream o s).2.closes = s.closes := by
  unfold openStream call
  split
  · next hmake =>
    obtain rfl := (Prod.mk.inj hmake).2
    exact ⟨rfl, rfl⟩
  · exact ⟨rfl, rfl⟩

end Server

/-! ## The tally -/

/-- How often the connection was closed, and how often splits were started, completed, failed and
tried again. -/
structure Tally where
  closes : Nat
  started : UInt64
  completed : UInt64
  failed : UInt64
  retries : UInt64
deriving DecidableEq, Repr

namespace Tally

/-- The tally of a number of closes and the counters. -/
def of (closes : Nat) (m : Metrics) : Tally where
  closes := closes
  started := m.splitsStarted
  completed := m.splitsCompleted
  failed := m.splitsFailed
  retries := m.retries

/-- A split was started. -/
def start (t : Tally) : Tally := { t with started := t.started + 1 }

/-- A split was completed. -/
def complete (t : Tally) : Tally := { t with completed := t.completed + 1 }

/-- A split failed. -/
def fail (t : Tally) : Tally := { t with failed := t.failed + 1 }

/-- The connection was closed. -/
def close (t : Tally) : Tally := { t with closes := t.closes + 1 }

/-- A split was tried again. -/
def retry (t : Tally) : Tally := { t with retries := t.retries + 1 }

end Tally

/-- What is counted so far. -/
def Shared.tally (sh : Shared) : Tally := .of sh.server.closes sh.metrics

/-! ## Actions that open streams -/

namespace Act

variable {α β : Type} {streams : Array Offset}

/-- The action opens streams when it succeeds and none when it fails, and it changes nothing that
is counted. -/
def Opens (streams : Array Offset) (act : Act α) : Prop := ∀ sh,
  (act sh).2.tally = sh.tally ∧
    (act sh).2.server.opened =
      match (act sh).1 with
      | .ok _ => sh.server.opened ++ streams
      | .error _ => sh.server.opened

lemma opens_none {act : Act α}
    (h : ∀ sh, (act sh).2.server = sh.server ∧ (act sh).2.metrics = sh.metrics) :
    Opens #[] act := by
  intro sh
  obtain ⟨hserver, hmetrics⟩ := h sh
  refine ⟨by simp only [Shared.tally, hserver, hmetrics], ?_⟩
  split <;> simp [hserver]

lemma opens_ask {act : ServerAct α} (h : Server.Leaves act) : Opens #[] (ask act) := by
  intro sh
  obtain ⟨hopened, hcloses⟩ := h sh.server
  refine ⟨by simp only [Shared.tally, ask, hcloses], ?_⟩
  split <;> simp [ask, hopened]

lemma opens_openStream (o : Offset) : Opens #[o] (ask (Server.openStream o)) := by
  intro sh
  obtain ⟨hopened, hcloses⟩ := Server.opened_openStream o sh.server
  refine ⟨by simp only [Shared.tally, ask, hcloses], ?_⟩
  simp only [ask, hopened]
  cases (Server.openStream o sh.server).1 with
  | ok log => exact Array.push_eq_append
  | error f => rfl

/-- What opens streams comes after what opens none. -/
lemma Opens.bind {act : Act α} {next : α → Act β} (h : Opens #[] act)
    (hnext : ∀ a, Opens streams (next a)) : Opens streams (act >>= next) := by
  intro sh
  obtain ⟨htally, hopened⟩ := h sh
  cases hact : act sh with
  | mk result sh' =>
    rw [hact] at htally hopened
    cases result with
    | error f =>
      rw [bind_of_error hact]
      exact ⟨htally, hopened⟩
    | ok a =>
      obtain ⟨htally', hopened'⟩ := hnext a sh'
      have hsame : sh'.server.opened = sh.server.opened := hopened.trans (Array.append_empty ..)
      rw [bind_of_ok hact, ← hsame]
      exact ⟨htally'.trans htally, hopened'⟩

/-- What comes of an action does not matter to the streams. -/
lemma Opens.map {act : Act α} (h : Opens streams act) (g : α → β) :
    Opens streams (act >>= fun a => pure (g a)) := by
  intro sh
  have hact := h sh
  cases heq : act sh with
  | mk result sh' =>
    rw [heq] at hact
    cases result with
    | error f =>
      rw [bind_of_error heq]
      exact hact
    | ok a =>
      rw [bind_of_ok heq]
      exact hact

end Act

/-! ## Configuring -/

namespace Plan

open Act

lemma opens_snapshot (config : FetchConfig) (s : SnapshotSplit) :
    Opens #[] (snapshot config s) := by
  refine (opens_ask (Server.leaves_querySchema _)).bind fun schema => ?_
  refine (opens_none fun _ => ⟨rfl, rfl⟩).bind fun _ => ?_
  refine (opens_none fun _ => ⟨rfl, rfl⟩).bind fun batch => ?_
  refine (opens_none fun _ => ⟨rfl, rfl⟩).bind fun _ => ?_
  refine (opens_ask (Server.leaves_ensureResumable _)).bind fun _ => ?_
  exact (opens_ask Server.leaves_resetListeners).map _

lemma opens_bindTable (s : IncrementalSplit) (b : SchemaBatch) (t : TableId) :
    Opens #[] (bindTable s b t) := by
  unfold bindTable
  split
  · exact opens_none fun _ => ⟨rfl, rfl⟩
  · refine (opens_none fun _ => ⟨rfl, rfl⟩).bind fun kept => ?_
    split
    · exact opens_none fun _ => ⟨rfl, rfl⟩
    · refine ((opens_ask (Server.leaves_querySchema _)).map _).bind fun schema => ?_
      exact (opens_none fun _ => ⟨rfl, rfl⟩).bind fun _ => opens_none fun _ => ⟨rfl, rfl⟩

lemma opens_bindTables (s : IncrementalSplit) (b : SchemaBatch) (tables : List TableId) :
    Opens #[] (bindTables s b tables) := by
  induction tables generalizing b with
  | nil => exact opens_none fun _ => ⟨rfl, rfl⟩
  | cons t tables ih => exact (opens_bindTable s b t).bind fun b => ih b

lemma opens_incremental (s : IncrementalSplit) : Opens #[s.startingOffset] (incremental s) := by
  refine (opens_bindTables s {} s.tableIds).bind fun batch => ?_
  refine (opens_none fun _ => ⟨rfl, rfl⟩).bind fun _ => ?_
  refine (opens_ask (Server.leaves_ensureResumable _)).bind fun _ => ?_
  refine (opens_none fun _ => ⟨rfl, rfl⟩).bind fun _ => ?_
  refine (opens_ask Server.leaves_resetListeners).bind fun _ => ?_
  exact (opens_openStream s.startingOffset).map _

end Plan

/-- The streams that a split that is configured has opened. -/
def Split.streams : Split → Array Offset
  | .snapshot _ => #[]
  | .incremental s => #[s.startingOffset]

lemma Plan.opens_make (config : FetchConfig) (split : Split) :
    Act.Opens split.streams (Plan.make config split) := by
  cases split with
  | snapshot s => exact Plan.opens_snapshot config s
  | incremental s => exact Plan.opens_incremental s

/-! ## Working -/

/-- A step of a producer changes nothing that is counted. -/
lemma Producer.tally_step (p : Producer) (sh : Shared) : (p.step sh).2.tally = sh.tally := by
  cases p with
  | start job =>
    have hask := Act.opens_ask Server.leaves_currentPosition sh
    simp only [step, startStep]
    split
    · next heq => rw [heq] at hask; exact hask.1
    · next low sh₁ heq =>
      rw [heq] at hask
      have hscan := Act.opens_ask (Server.leaves_scan job.split) sh₁
      split
      · next heq' => rw [heq'] at hscan; exact hscan.1.trans hask.1
      · next heq' => rw [heq'] at hscan; exact hscan.1.trans hask.1
  | scan job low rows =>
    simp only [step, scanStep]
    split
    · rfl
    · rfl
    · rfl
    · split
      · split <;> rfl
      · rfl
    · rfl
  | measure job low =>
    have hask := Act.opens_ask Server.leaves_currentPosition sh
    simp only [step, measureStep]
    split
    · next heq => rw [heq] at hask; exact hask.1
    · next high sh₁ heq =>
      rw [heq] at hask
      have hopen := Act.opens_openStream low sh₁
      split
      · exact hask.1
      · split
        · next heq' => rw [heq'] at hopen; exact hopen.1.trans hask.1
        · next heq' => rw [heq'] at hopen; exact hopen.1.trans hask.1
  | replay job high log =>
    simp only [step, replayStep]
    split
    · rfl
    · rfl
    · rfl
    · split
      · rfl
      · split
        · rfl
        · next d _ _ => cases d <;> rfl
  | mark w => rfl
  | stream job log =>
    simp only [step, streamStep]
    split
    · rfl
    · rfl
    · rfl
    · split
      · rfl
      · split
        · rfl
        · next d _ _ => cases d <;> rfl
  | done => rfl

/-- A turn of a producer changes nothing that is counted. -/
lemma Work.tally_advance (w : Work) (q : EventQueue) (sh : Shared) :
    (w.advance q sh).2.2.tally = sh.tally := by
  cases w with
  | running p =>
    have hstep := p.tally_step sh
    unfold advance
    dsimp only
    split <;> (next heq => rw [heq] at hstep; exact hstep)
  | blocked r p =>
    unfold advance
    dsimp only
    split <;> rfl
  | stopped => rfl

/-! ## Reading -/

namespace Reader

/-- Delivering a batch leaves the counters of splits alone. -/
lemma tally_countBatch (closes : Nat) (m : Metrics) (es : List ChangeEvent) :
    Tally.of closes (countBatch m es) = Tally.of closes m := by
  have hfold : Tally.of closes
      (es.foldl (fun m e => m.recordEvent e.kind e.estimatedSize) m) = Tally.of closes m := by
    induction es generalizing m with
    | nil => rfl
    | cons e es ih =>
      refine (ih (m.recordEvent e.kind e.estimatedSize)).trans ?_
      unfold Metrics.recordEvent
      cases e.kind <;> rfl
  exact hfold

/-- Taking records leaves the counters of splits alone. -/
lemma tally_absorbAll (closes : Nat) (r : Reader) (m : Metrics) (rs : List QueueRecord) :
    Tally.of closes (r.absorbAll m rs).2.2 = Tally.of closes m := by
  induction rs generalizing r m with
  | nil => rfl
  | cons record rs ih =>
    have hrecord : Tally.of closes (countRecord m record) = Tally.of closes m := by
      cases record <;> rfl
    rw [absorbAll]
    cases r.absorb record with
    | error f => rfl
    | ok taken =>
      have hrest := ih taken.2 (countRecord m record)
      dsimp only
      generalize taken.2.absorbAll (countRecord m record) rs = absorbed at hrest ⊢
      obtain ⟨result, r', m'⟩ := absorbed
      cases result <;> exact hrest.trans hrecord

end Reader

namespace Session

variable {s s' : Session} {sh sh' : Shared} {b : Option Batch}

/-- What is counted after a turn that a batch has come of, or none. -/
def countTurn (t : Tally) : Option Batch → Tally
  | some (.failed _) => t.fail
  | some .ended => t.complete
  | some (.events _) | some .idle | none => t

/-- A turn of a reader that is not done counts its split when it is the end of it. -/
lemma tally_turned (h : Turned s sh b s' sh') (hdone : s.reader.done = false)
    (hopen : s.queue.closed = false) : sh'.tally = countTurn sh.tally b := by
  have habsorb : ∀ {result r m}, s.reader.absorbAll sh.metrics s.queue.batch = (result, r, m) →
      Tally.of sh.server.closes m = sh.tally := by
    intro result r m heq
    have htally := Reader.tally_absorbAll sh.server.closes s.reader sh.metrics s.queue.batch
    rwa [heq] at htally
  cases h with
  | ready => exact Reader.tally_countBatch ..
  | past _ hover => simp [hdone] at hover
  | idle => rfl
  | stopped _ _ hclosed => simp [hopen] at hclosed
  | completed => rfl
  | broken => rfl
  | unmarked => rfl
  | refused _ _ _ heq => exact congrArg Tally.fail (habsorb heq)
  | passed _ _ _ _ heq => exact (Reader.tally_countBatch ..).trans (habsorb heq)
  | taken _ _ _ _ heq hb =>
    rcases hb with rfl | ⟨rfl, -⟩ <;> exact habsorb heq

end Session
end Changefeed
