import Changefeed.Proofs.Queue.Traffic

/-!
# What a queue counts, and what it may hold

A queue keeps three things apart that belong together: its buffer, the number of bytes in it, and
what it reports about both.  Every operation changes each of them on its own.  `EventQueue.Counted`
says that they agree and that the limits of the queue hold; it is proved for every effect that a
section of a call can have on a queue, and so it holds wherever calls interleave.

A record larger than the byte limit enters an empty queue.  Nothing joins it there, so a queue
beyond its byte limit holds that one record.

What a push does when it comes is what a push that cannot wait does in its place, except that it
waits where the other one is turned away.
-/

namespace Changefeed

namespace QueueRecord

@[simp] theorem totalSize_nil : totalSize [] = 0 := rfl

@[simp] theorem totalSize_cons (r : QueueRecord) (rs : List QueueRecord) :
    totalSize (r :: rs) = r.size + totalSize rs := rfl

@[simp] lemma totalSize_append (rs ss : List QueueRecord) :
    totalSize (rs ++ ss) = totalSize rs + totalSize ss := by
  induction rs with
  | nil => simp
  | cons r rs ih => simp [ih, Nat.add_assoc]

end QueueRecord

namespace EventQueue

variable {q : EventQueue} {r : QueueRecord}

/-! ## Room -/

lemma hasRoom_iff {size : Nat} :
    q.hasRoom size = true ↔ ∀ limit, q.settings.limit = some limit →
      q.buffer.length < limit ∧
        (q.settings.maxBytes = 0 ∨ q.buffer = [] ∨ q.bytes + size ≤ q.settings.maxBytes) := by
  unfold hasRoom
  cases q.settings.limit with
  | none => simp
  | some limit => simp [or_assoc]

lemma hasRoom_unlimited (h : q.settings.limit = none) (size : Nat) : q.hasRoom size = true :=
  hasRoom_iff.mpr fun limit hlimit => by simp [h] at hlimit

/-! ## The agreement of buffer, bytes and report -/

/-- The bytes are those of the buffered records, the limits hold, and what is reported is so. -/
structure Counted (q : EventQueue) : Prop where
  bytes_eq : q.bytes = QueueRecord.totalSize q.buffer
  length_le : ∀ limit, q.settings.limit = some limit → q.buffer.length ≤ limit
  bytes_le : ∀ limit, q.settings.limit = some limit → 0 < q.settings.maxBytes →
    q.bytes ≤ q.settings.maxBytes ∨ q.buffer.length = 1
  reported : ∀ g, q.gauges = some g → g.depth = q.buffer.length ∧ g.bytes = q.bytes

namespace Counted

/-- Where neither the buffer nor the bytes nor the report change, they still agree. -/
lemma of_same (h : q.Counted) {q' : EventQueue} (hsettings : q'.settings = q.settings)
    (hbuffer : q'.buffer = q.buffer) (hbytes : q'.bytes = q.bytes)
    (hgauges : ∀ g', q'.gauges = some g' →
      ∃ g, q.gauges = some g ∧ g'.depth = g.depth ∧ g'.bytes = g.bytes) : q'.Counted where
  bytes_eq := by rw [hbytes, hbuffer, h.bytes_eq]
  length_le := by rw [hsettings, hbuffer]; exact h.length_le
  bytes_le := by rw [hsettings, hbuffer, hbytes]; exact h.bytes_le
  reported := fun g' hg' => by
    obtain ⟨g, hg, hdepth, hsum⟩ := hgauges g' hg'
    rw [hdepth, hsum, hbuffer, hbytes]
    exact h.reported g hg

lemma of_report (q : EventQueue) (g : QueueGauges) (h : q.report.gauges = some g) :
    g.depth = q.report.buffer.length ∧ g.bytes = q.report.bytes := by
  obtain ⟨old, -, rfl⟩ := Option.map_eq_some_iff.mp h
  exact ⟨rfl, rfl⟩

/-- A record is accepted only where it has room. -/
lemma push (h : q.Counted) (hroom : q.hasRoom r.size = true) : (q.push r).Counted where
  bytes_eq := by simp [EventQueue.push, report, h.bytes_eq]
  length_le := fun limit hlimit => by
    have hless := (hasRoom_iff.mp hroom limit hlimit).1
    rw [push_buffer, List.length_append]
    exact hless
  bytes_le := fun limit hlimit hmax => by
    rcases (hasRoom_iff.mp hroom limit hlimit).2 with hnone | hempty | hfits
    · exact absurd hnone (Nat.pos_iff_ne_zero.mp hmax)
    · exact .inr (by simp [hempty])
    · exact .inl hfits
  reported := of_report _

/-- A batch takes the bytes of its records with it. -/
lemma dropBatch (h : q.Counted) : q.dropBatch.Counted := by
  have hbytes : q.bytes =
      QueueRecord.totalSize q.batch + QueueRecord.totalSize q.dropBatch.buffer := by
    rw [h.bytes_eq, ← QueueRecord.totalSize_append, batch_append_buffer]
  have hleft : q.dropBatch.bytes = QueueRecord.totalSize q.dropBatch.buffer := by
    change q.bytes - QueueRecord.totalSize q.batch = _
    omega
  have hlength : q.dropBatch.buffer.length ≤ q.buffer.length := by simp
  refine ⟨hleft, fun limit hlimit => Nat.le_trans hlength (h.length_le limit hlimit),
    fun limit hlimit hmax => ?_, of_report _⟩
  rcases h.bytes_le limit hlimit hmax with hfits | hone
  · exact .inl (by rw [dropBatch_settings]; omega)
  · -- of a single record a batch takes everything or nothing
    rcases Nat.lt_or_eq_of_le hlength with hless | hsame
    · have hempty : q.dropBatch.buffer = [] := List.length_eq_zero_iff.mp (by omega)
      exact .inl (by rw [hleft, hempty]; exact Nat.zero_le _)
    · exact .inr (hsame.trans hone)

lemma close (q : EventQueue) : q.close.Counted where
  bytes_eq := rfl
  length_le := fun _ _ => Nat.zero_le _
  bytes_le := fun _ _ _ => .inl (Nat.zero_le _)
  reported := of_report _

/-- Whatever a section of a call does to a queue, its counts stay right. -/
lemma moved (h : q.Counted) {report : Report} {q' : EventQueue} (hmoved : q.Moved report q') :
    q'.Counted := by
  cases hmoved with
  | kept => exact h
  | blocked =>
    refine h.of_same rfl rfl rfl fun g' hg' => ?_
    obtain ⟨g, hg, rfl⟩ := Option.map_eq_some_iff.mp hg'
    exact ⟨g, hg, rfl, rfl⟩
  | accepted _ _ hroom => exact h.push hroom
  | polled htaken =>
    cases htaken with
    | closed => exact h
    | records => exact h.dropBatch
    | failed => exact h.of_same rfl rfl rfl fun g hg => ⟨g, hg, rfl, rfl⟩
    | finished => exact h
  | finished => exact h.of_same rfl rfl rfl fun g hg => ⟨g, hg, rfl, rfl⟩
  | failed hopen =>
    rw [fail_of_open hopen]
    exact h.of_same rfl rfl rfl fun g hg => ⟨g, hg, rfl, rfl⟩

end Counted

lemma Moved.settings_eq {report : Report} {q' : EventQueue} (h : q.Moved report q') :
    q'.settings = q.settings := by
  cases h with
  | kept => rfl
  | blocked => rfl
  | accepted => rfl
  | polled htaken => cases htaken <;> rfl
  | finished => rfl
  | failed hopen => rw [fail_of_open hopen]

/-- A queue that reports goes on reporting, and no other one begins to. -/
lemma Moved.reports_eq {report : Report} {q' : EventQueue} (h : q.Moved report q') :
    q'.gauges.isSome = q.gauges.isSome := by
  cases h with
  | kept => rfl
  | blocked => exact Option.isSome_map
  | accepted => exact Option.isSome_map
  | polled htaken =>
    cases htaken with
    | records => exact Option.isSome_map
    | closed | failed | finished => rfl
  | finished => rfl
  | failed hopen => rw [fail_of_open hopen]

end EventQueue

/-! ## Any interleaving -/

namespace Traffic

variable {t : Traffic} {P : EventQueue → Prop}

/-- What every effect on the queue and closing it keep, every part of a call keeps. -/
lemma kept_step
    (hmoved : ∀ (q : EventQueue) (report : Report) (q' : EventQueue),
      P q → q.Moved report q' → P q')
    (hclose : ∀ q : EventQueue, P q → P q.close) (h : P t.exchange.queue) (part : Part) :
    P (t.step part).exchange.queue := by
  cases part with
  | whole m =>
    by_cases hm : m = .close
    · subst hm
      exact hclose _ h
    · exact hmoved _ _ _ h (t.exchange.moved_act hm)
  | askPush r => exact h
  | askPoll => exact h
  | askAgain place =>
    simp only [step]
    split <;> exact h
  | lookPush number waited =>
    simp only [step]
    split
    · exact h
    · next w _ =>
      have hlooked := hmoved _ _ _ h
        (t.exchange.served_attemptPush (t.exchange.withdrawPush w.number) rfl w waited).moved
      simp only [Exchange.lookPush]
      split <;> exact hlooked
  | lookPoll number =>
    simp only [step]
    split
    · exact h
    · next w _ =>
      have hlooked := hmoved _ _ _ h
        (t.exchange.served_attemptPoll (t.exchange.withdrawPoll w.number) rfl w).moved
      simp only [Exchange.lookPoll]
      split <;> exact hlooked

lemma kept_run
    (hmoved : ∀ (q : EventQueue) (report : Report) (q' : EventQueue),
      P q → q.Moved report q' → P q')
    (hclose : ∀ q : EventQueue, P q → P q.close) (h : P t.exchange.queue) (parts : List Part) :
    P (t.run parts).exchange.queue := by
  induction parts generalizing t with
  | nil => exact h
  | cons part rest ih => exact ih (kept_step hmoved hclose h part)

lemma run_settings (t : Traffic) (parts : List Part) :
    (t.run parts).exchange.queue.settings = t.exchange.queue.settings :=
  kept_run (P := fun q => q.settings = t.exchange.queue.settings)
    (fun _ _ _ h hmoved => hmoved.settings_eq.trans h) (fun _ h => h) rfl parts

lemma run_reports (t : Traffic) (parts : List Part) :
    (t.run parts).exchange.queue.gauges.isSome = t.exchange.queue.gauges.isSome :=
  kept_run (P := fun q => q.gauges.isSome = t.exchange.queue.gauges.isSome)
    (fun _ _ _ h hmoved => hmoved.reports_eq.trans h) (fun _ h => Option.isSome_map.trans h) rfl
    parts

/-- What a new queue reports, if it reports anything: it is empty. -/
def newGauges (metered : Bool) : Option QueueGauges := if metered then some {} else none

lemma counted_run (settings : QueueSettings) (metered : Bool) (parts : List Part) :
    ((start settings (newGauges metered)).run parts).exchange.queue.Counted := by
  refine kept_run (fun _ _ _ h hmoved => h.moved hmoved) (fun q _ => .close q) ?_ parts
  refine ⟨rfl, fun _ _ => Nat.zero_le _, fun _ _ _ => .inl (Nat.zero_le _), fun g hg => ?_⟩
  cases metered with
  | true => exact Option.some.inj hg ▸ ⟨rfl, rfl⟩
  | false => cases hg

end Traffic

/-! ## Pushes that wait and pushes that do not -/

namespace Exchange

variable {x : Exchange} {r : QueueRecord}

/-- The exchange in which the latest push has just begun; `result` when it has ended at once. -/
def withPush (x : Exchange) (number : Nat) (result : Option (Outcome Unit)) : Exchange :=
  { x with started := number + 1, push := some ⟨number, result⟩ }

/-- What a push comes to when it begins.  It ends as a push that cannot wait does in its place, and
waits where that one is turned away. -/
lemma startPush_eq (x : Exchange) (r : QueueRecord) :
    x.startPush r =
      match x.tryPush r with
      | (.ok true, y) => y.withPush x.started (some (.ok ()))
      | (.error f, y) => y.withPush x.started (some (.error f))
      | (.ok false, y) =>
        { y.withPush x.started none with
            queue := y.queue.reportBlocked, pushes := y.pushes ++ [x.nextPush r] } := by
  unfold startPush attemptPush tryPush
  dsimp only
  rcases x.queue.offer r with f | _ | q
  · simp [endPush, Request.complete, withPush]
  · simp [withPush, nextPush]
  · simp [endPush, Request.complete, withPush, wakePolls]

lemma startPush_ends_iff (result : Outcome Unit) :
    (x.startPush r).push = some ⟨x.started, some result⟩ ↔
      (x.tryPush r).1 = result.map fun _ => true := by
  rw [startPush_eq]
  rcases x.tryPush r with ⟨f | _ | _, y⟩ <;> rcases result with _ | _ <;>
    simp [withPush, Except.map]

lemma startPush_of_accepted (h : (x.tryPush r).1 = .ok true) :
    x.startPush r = (x.tryPush r).2.withPush x.started (some (.ok ())) := by
  rw [startPush_eq]
  generalize x.tryPush r = tried at h ⊢
  obtain ⟨result, y⟩ := tried
  obtain rfl : result = .ok true := h
  rfl

lemma tryPush_unlimited (hlimit : x.queue.settings.limit = none) (hopen : x.queue.closed = false)
    (hunfinished : x.queue.finished = false) (r : QueueRecord) : (x.tryPush r).1 = .ok true := by
  have hroom := EventQueue.hasRoom_unlimited hlimit r.size
  simp [tryPush, EventQueue.offer, hopen, hunfinished, hroom]

end Exchange

namespace Traffic

/-- In every interleaving the bytes of a queue are those of its buffer; its limits hold, up to one
record larger than the byte limit; what it reports is so; without a limit on records it accepts
whatever it is offered while it is open and unfinished; and a push goes through at once exactly when
one that cannot wait does, and leaves what that one leaves, and it is refused at once exactly when
that one is refused. -/
theorem kept_within_limits (settings : QueueSettings) (metered : Bool) (parts : List Part) :
    let x := ((start settings (newGauges metered)).run parts).exchange
    let q := x.queue
    q.bytes = QueueRecord.totalSize q.buffer ∧
      (∀ limit, settings.limit = some limit → q.buffer.length ≤ limit ∧
        (0 < settings.maxBytes → q.bytes ≤ settings.maxBytes ∨ q.buffer.length = 1)) ∧
      (settings.limit = none → q.closed = false → q.finished = false →
        ∀ r, (x.tryPush r).1 = .ok true) ∧
      (∀ r, ((x.startPush r).push = some ⟨x.started, some (.ok ())⟩ ↔
          (x.tryPush r).1 = .ok true) ∧
        (∀ f, (x.startPush r).push = some ⟨x.started, some (.error f)⟩ ↔
          (x.tryPush r).1 = .error f) ∧
        ((x.tryPush r).1 = .ok true →
          x.startPush r = (x.tryPush r).2.withPush x.started (some (.ok ())))) ∧
      (metered = true →
        ∃ g, q.gauges = some g ∧ g.depth = q.buffer.length ∧ g.bytes = q.bytes) := by
  intro x q
  have hcounted : q.Counted := counted_run settings metered parts
  have hsettings : q.settings = settings := run_settings _ parts
  refine ⟨hcounted.bytes_eq, fun limit hlimit => ⟨?_, fun hmax => ?_⟩,
    fun hlimit hopen hunfinished => ?_,
    fun r => ⟨Exchange.startPush_ends_iff (.ok ()), fun f => Exchange.startPush_ends_iff (.error f),
      Exchange.startPush_of_accepted⟩, fun hmetered => ?_⟩
  · exact hcounted.length_le limit (hsettings ▸ hlimit)
  · rw [← hsettings] at hlimit hmax ⊢
    exact hcounted.bytes_le limit hlimit hmax
  · exact Exchange.tryPush_unlimited (hsettings ▸ hlimit) hopen hunfinished
  · have hreports : q.gauges.isSome = true := by
      rw [show q.gauges.isSome = _ from run_reports _ parts, hmetered]
      rfl
    obtain ⟨g, hg⟩ := Option.isSome_iff_exists.mp hreports
    exact ⟨g, hg, hcounted.reported g hg⟩

end Traffic
end Changefeed
