import Changefeed.Proofs.Queue.Interleaving

/-!
# Nobody waits without reason

A push has reason to wait while the queue is open and has no room for its record, and a poll while
the queue is open and empty and its producer has neither finished nor failed.  `Crowded` and `Idle`
are the two reasons.  They exclude each other, for a queue that may hold a record at all has room
for any record while it is empty.

`Exchange.Alert` says that whoever waits has reason to, and every section of a call keeps it.  What
ends a reason wakes those who wait for it: accepting a record and the end of the producer wake the
polls, taking records wakes the pushes, and closing wakes both.  A call that comes to wait has
looked at the queue in the same section.

Some calls may be exempted by their numbers.  They are those that have not looked yet.
-/

namespace Changefeed

/-! ## What a call can wait for -/

namespace EventQueue

variable {q : EventQueue} {size : Nat} {r : QueueRecord}

lemma hasRoom_eq_false_iff :
    q.hasRoom size = false ↔ ∃ limit, q.settings.limit = some limit ∧
      (limit ≤ q.buffer.length ∨
        q.settings.maxBytes ≠ 0 ∧ q.buffer ≠ [] ∧ q.settings.maxBytes < q.bytes + size) := by
  unfold hasRoom
  cases q.settings.limit with
  | none => simp
  | some limit =>
    simp only [Option.some.injEq, exists_eq_left', Bool.and_eq_false_iff, Bool.or_eq_false_iff,
      decide_eq_false_iff_not, List.isEmpty_eq_false_iff, Nat.not_lt, Nat.not_le, and_assoc]

/-- A record of this size has to wait: the queue is open, not empty, and has no room for it. -/
structure Crowded (q : EventQueue) (size : Nat) : Prop where
  closed_eq : q.closed = false
  buffer_ne : q.buffer ≠ []
  hasRoom_eq : q.hasRoom size = false

/-- A poll has to wait: the queue is open and empty, and its producer has neither finished nor
failed. -/
structure Idle (q : EventQueue) : Prop where
  closed_eq : q.closed = false
  buffer_eq : q.buffer = []
  finished_eq : q.finished = false
  error_eq : q.error = none

lemma crowded_of_hasRoom (hlimit : ∀ n, q.settings.limit = some n → 1 ≤ n)
    (hclosed : q.closed = false) (hroom : q.hasRoom size = false) : q.Crowded size := by
  refine ⟨hclosed, fun hbuffer => ?_, hroom⟩
  obtain ⟨limit, hsettings, hfull | ⟨-, hne, -⟩⟩ := hasRoom_eq_false_iff.mp hroom
  · have hone := hlimit limit hsettings
    rw [hbuffer, List.length_nil] at hfull
    omega
  · exact hne hbuffer

lemma Crowded.push (h : q.Crowded size) (r : QueueRecord) : (q.push r).Crowded size := by
  refine ⟨h.closed_eq, by simp, hasRoom_eq_false_iff.mpr ?_⟩
  obtain ⟨limit, hsettings, hfull⟩ := hasRoom_eq_false_iff.mp h.hasRoom_eq
  refine ⟨limit, hsettings, ?_⟩
  have hlength : (q.push r).buffer.length = q.buffer.length + 1 := by simp
  have hbytes : (q.push r).bytes = q.bytes + r.size := rfl
  rcases hfull with hcount | ⟨hmax, -, hsize⟩
  · exact .inl (by omega)
  · exact .inr ⟨hmax, by simp, by rw [hbytes, push_settings]; omega⟩

lemma Crowded.reportBlocked (h : q.Crowded size) : q.reportBlocked.Crowded size :=
  ⟨h.closed_eq, h.buffer_ne, h.hasRoom_eq⟩

lemma Crowded.finish (h : q.Crowded size) : q.finish.Crowded size :=
  ⟨h.closed_eq, h.buffer_ne, h.hasRoom_eq⟩

lemma Crowded.fail (h : q.Crowded size) (f : Fault) : (q.fail f).Crowded size := by
  rw [fail_of_open h.closed_eq]
  exact ⟨h.closed_eq, h.buffer_ne, h.hasRoom_eq⟩

end EventQueue

namespace Exchange

/-- The polls whose deadline has come give up, and nothing else changes for those who wait. -/
lemma expirePolls_eq (x : Exchange) :
    ∃ poll, x.expirePolls =
      { x with poll, polls := x.polls.filter fun w => !decide (w.deadline ≤ x.now) } := by
  have hfold : ∀ (late : List WaitingPoll) (y : Exchange), ∃ poll,
      late.foldl (fun y w => y.endPoll w.number (.records [])) y = { y with poll } := by
    intro late
    induction late with
    | nil => exact fun y => ⟨y.poll, rfl⟩
    | cons w rest ih => exact fun y => ih (y.endPoll w.number (.records []))
  unfold expirePolls
  rw [List.partition_eq_filter_filter]
  obtain ⟨poll, hpoll⟩ := hfold (x.polls.filter fun w => w.deadline ≤ x.now)
    { x with polls := x.polls.filter fun w => !decide (w.deadline ≤ x.now) }
  exact ⟨poll, hpoll⟩

/-! ## Who waits has reason to -/

/-- Whoever waits, apart from the calls with these numbers, has reason to. -/
structure Alert (pushing polling : List Nat) (x : Exchange) : Prop where
  roomy : ∀ n, x.queue.settings.limit = some n → 1 ≤ n
  push : ∀ w ∈ x.pushes, w.number ∉ pushing → x.queue.Crowded w.record.size
  poll : ∀ w ∈ x.polls, w.number ∉ polling → x.queue.Idle

namespace Alert

variable {pushing polling : List Nat} {x y : Exchange}

lemma of_subset (h : x.Alert pushing polling) (hq : y.queue = x.queue)
    (hpushes : y.pushes ⊆ x.pushes) (hpolls : y.polls ⊆ x.polls) : y.Alert pushing polling where
  roomy := hq ▸ h.roomy
  push := fun w hw hout => hq ▸ h.push w (hpushes hw) hout
  poll := fun w hw hout => hq ▸ h.poll w (hpolls hw) hout

lemma of_same (h : x.Alert pushing polling) (hq : y.queue = x.queue)
    (hpushes : y.pushes = x.pushes) (hpolls : y.polls = x.polls) : y.Alert pushing polling :=
  h.of_subset hq (hpushes ▸ List.Subset.refl _) (hpolls ▸ List.Subset.refl _)

/-! ### One look at the queue -/

/-- A record that is accepted makes no room, and no poll waits after it. -/
lemma accepted (h : x.Alert pushing polling) (r : QueueRecord) :
    ({ x with queue := x.queue.push r }.wakePolls).Alert pushing polling where
  roomy := h.roomy
  push := fun w hw hout => (h.push w hw hout).push r
  poll := fun _ hw => absurd hw List.not_mem_nil

lemma tryPush (h : x.Alert pushing polling) (r : QueueRecord) :
    (x.tryPush r).2.Alert pushing polling := by
  have ho := x.queue.offered r
  unfold Exchange.tryPush
  generalize x.queue.offer r = o at ho
  cases ho with
  | ended => exact h
  | full => exact h
  | accepted => exact h.accepted r

/-- A push that comes to wait has found no room. -/
lemma attemptPush (h : x.Alert pushing polling) (w : WaitingPush) (waited : Bool) :
    (x.attemptPush w waited).Alert pushing polling := by
  have ho := x.queue.offered w.record
  unfold Exchange.attemptPush Exchange.tryPush
  generalize x.queue.offer w.record = o at ho
  cases ho with
  | ended => exact h.of_same rfl rfl rfl
  | accepted => exact (h.accepted w.record).of_same rfl rfl rfl
  | full hclosed _ hroom =>
    have hcrowded := EventQueue.crowded_of_hasRoom h.roomy hclosed hroom
    -- to count that a record waits makes no room
    have hcounted : ∀ size, x.queue.Crowded size →
        (if waited then x.queue else x.queue.reportBlocked).Crowded size := by
      intro size hsize
      cases waited with
      | true => exact hsize
      | false => exact hsize.reportBlocked
    refine ⟨?_, fun v hv hout => hcounted _ ?_, fun v hv hout => ?_⟩
    · cases waited <;> exact h.roomy
    · rcases List.mem_append.mp hv with hold | hnew
      · exact h.push v hold hout
      · rw [List.mem_singleton.mp hnew]
        exact hcrowded
    · exact absurd (h.poll v hv hout).buffer_eq hcrowded.buffer_ne

/-- A poll that takes something leaves nobody waiting who should not, and one that finds nothing
has reason to wait. -/
lemma tryPoll (h : x.Alert pushing polling) :
    x.tryPoll.2.Alert pushing polling ∧ (x.tryPoll.1 = none → x.tryPoll.2.queue.Idle) := by
  have ht := x.queue.taken
  unfold Exchange.tryPoll
  generalize x.queue.take = t at ht
  obtain ⟨p, q⟩ := t
  cases ht with
  | closed => exact ⟨h, by simp⟩
  | finished => exact ⟨h, by simp⟩
  | nothing hclosed hbuffer herror hfinished =>
    exact ⟨h, fun _ => ⟨hclosed, hbuffer, hfinished, herror⟩⟩
  | records _ hbuffer =>
    refine ⟨⟨h.roomy, fun _ hw => absurd hw List.not_mem_nil, fun w hw hout => ?_⟩, by simp⟩
    exact absurd (h.poll w hw hout).buffer_eq hbuffer
  | failed _ hbuffer herror =>
    refine ⟨⟨h.roomy, fun w hw hout => ?_, fun w hw hout => ?_⟩, by simp⟩
    · exact absurd hbuffer (h.push w hw hout).buffer_ne
    · rw [(h.poll w hw hout).error_eq] at herror
      cases herror

lemma attemptPoll (h : x.Alert pushing polling) (w : WaitingPoll) :
    (x.attemptPoll w).Alert pushing polling := by
  obtain ⟨hafter, hidle⟩ := h.tryPoll
  unfold Exchange.attemptPoll
  generalize x.tryPoll = t at hafter hidle
  obtain ⟨_ | p, y⟩ := t
  · refine ⟨hafter.roomy, hafter.push, fun v hv hout => ?_⟩
    exact hidle rfl
  · exact hafter.of_same rfl rfl rfl

/-! ### Giving up -/

lemma expirePolls (h : x.Alert pushing polling) : x.expirePolls.Alert pushing polling := by
  obtain ⟨poll, hexpired⟩ := x.expirePolls_eq
  rw [hexpired]
  exact h.of_subset rfl (List.Subset.refl _) List.filter_sublist.subset

lemma withdrawPush (h : x.Alert pushing polling) (number : Nat) :
    (x.withdrawPush number).Alert pushing polling :=
  h.of_subset rfl List.filter_sublist.subset (List.Subset.refl _)

lemma withdrawPoll (h : x.Alert pushing polling) (number : Nat) :
    (x.withdrawPoll number).Alert pushing polling :=
  h.of_subset rfl (List.Subset.refl _) List.filter_sublist.subset

/-! ### Ending and closing -/

lemma finish (h : x.Alert pushing polling) : x.finish.Alert pushing polling where
  roomy := h.roomy
  push := fun w hw hout => (h.push w hw hout).finish
  poll := fun _ hw => absurd hw List.not_mem_nil

lemma fail (h : x.Alert pushing polling) (f : Fault) : (x.fail f).Alert pushing polling := by
  unfold Exchange.fail
  split
  · exact h
  · next hopen =>
    have hsettings : (x.queue.fail f).settings = x.queue.settings := by
      rw [EventQueue.fail_of_open (by simpa using hopen)]
    exact ⟨hsettings ▸ h.roomy, fun w hw hout => (h.push w hw hout).fail f,
      fun _ hw => absurd hw List.not_mem_nil⟩

lemma close (h : x.Alert pushing polling) : x.close.Alert pushing polling where
  roomy := h.roomy
  push := fun _ hw => absurd hw List.not_mem_nil
  poll := fun _ hw => absurd hw List.not_mem_nil

/-! ### Any section -/

/-- Whatever a section does, who waits after it has reason to. -/
lemma act (h : x.Alert pushing polling) (m : Move) : (x.act m).2.Alert pushing polling := by
  cases m with
  | offer r => exact h.tryPush r
  | look => exact h.tryPoll.1
  | startPush r =>
    have hbegun : Alert pushing polling
        { x with started := x.started + 1, push := some ⟨x.started, none⟩ } :=
      h.of_same rfl rfl rfl
    exact hbegun.attemptPush _ false
  | startPoll =>
    have hbegun : Alert pushing polling
        { x with started := x.started + 1, poll := some ⟨x.started, none⟩ } :=
      h.of_same rfl rfl rfl
    exact (hbegun.attemptPoll _).expirePolls
  | retry place =>
    simp only [Exchange.act]
    have hrest : Alert pushing polling { x with woken := x.woken.eraseIdx place } :=
      h.of_same rfl rfl rfl
    split
    · exact h
    · next w _ =>
      cases w with
      | push w => exact hrest.attemptPush w true
      | poll w => exact hrest.attemptPoll w
  | expire => exact h.expirePolls
  | pollAnew number =>
    simp only [Exchange.act]
    split
    · exact h
    · next w _ =>
      have hrest : Alert pushing polling
          { x with polls := x.polls.filter fun v => v.number ≠ w.number } :=
        h.of_subset rfl (List.Subset.refl _) List.filter_sublist.subset
      exact hrest.attemptPoll _
  | withdrawPush number => exact h.withdrawPush number
  | withdrawPoll number => exact h.withdrawPoll number
  | finish => exact h.finish
  | fail f => exact h.fail f
  | close => exact h.close
  | pass ms => exact h.of_same rfl rfl rfl

end Alert
end Exchange
end Changefeed
