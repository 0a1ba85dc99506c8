import Changefeed.Proofs.Queue.Waking

/-!
# Calls that ask before they look

A call that may have to wait asks to be woken first and looks at the queue then.  Whatever changes
between the two wakes it, and it does not begin to wait in vain.  So a section in which a call may
come to wait has two parts, and parts of other calls may come between them.  `Part` lists the parts
beside the whole sections.  The two parts with nothing between them are the whole section
(`lookPush_enlistPush`, `lookPoll_enlistPoll`).

`Traffic` keeps, beside the exchange, the calls that have asked and have not looked since.  A call
is parked when it waits at the exchange and is none of these: it has looked, and no wake-up has come
for it.  Whoever is parked has reason to be.  This holds for any number of producers and readers,
wherever the queue is closed, and wherever a call that waits is cancelled.
-/

namespace Changefeed
namespace Exchange

variable {x : Exchange}

/-! ## Asking and looking -/

/-- A push asks to be woken. -/
def enlistPush (x : Exchange) (w : WaitingPush) : Exchange := { x with pushes := x.pushes ++ [w] }

/-- A poll asks to be woken. -/
def enlistPoll (x : Exchange) (w : WaitingPoll) : Exchange := { x with polls := x.polls ++ [w] }

/-- The push that begins next. -/
def nextPush (x : Exchange) (r : QueueRecord) : WaitingPush := ⟨x.started, r⟩

/-- The poll that begins next. -/
def nextPoll (x : Exchange) : WaitingPoll :=
  ⟨x.started, x.now + x.queue.settings.pollIntervalMs⟩

/-- A push begins and asks to be woken. -/
def askPush (x : Exchange) (r : QueueRecord) : Exchange :=
  { x with started := x.started + 1, push := some ⟨x.started, none⟩ }.enlistPush (x.nextPush r)

/-- A poll begins and asks to be woken. -/
def askPoll (x : Exchange) : Exchange :=
  { x with started := x.started + 1, poll := some ⟨x.started, none⟩ }.enlistPoll x.nextPoll

/-- Wakes the pushes with a number. -/
def wakePush (x : Exchange) (number : Nat) : Exchange :=
  { x with
      pushes := x.pushes.filter fun w => w.number ≠ number
      woken := x.woken ++ (x.pushes.filter fun w => w.number = number).map .push }

/-- Wakes the polls with a number. -/
def wakePoll (x : Exchange) (number : Nat) : Exchange :=
  { x with
      polls := x.polls.filter fun w => w.number ≠ number
      woken := x.woken ++ (x.polls.filter fun w => w.number = number).map .poll }

/-- A push that has asked looks at the queue.  If it was woken since it asked and would come to
wait, the wake-up is there already. -/
def lookPush (x : Exchange) (w : WaitingPush) (waited : Bool) : Exchange :=
  let looked := (x.withdrawPush w.number).attemptPush w waited
  if x.pushes.any (·.number = w.number) then looked else looked.wakePush w.number

/-- A poll that has asked looks at the queue.  If it was woken since it asked and would come to
wait, the wake-up is there already. -/
def lookPoll (x : Exchange) (w : WaitingPoll) : Exchange :=
  let looked := (x.withdrawPoll w.number).attemptPoll w
  if x.polls.any (·.number = w.number) then looked else looked.wakePoll w.number

/-- A push that asks and is withdrawn leaves no trace. -/
lemma withdrawPush_enlistPush {w : WaitingPush} (hpushes : ∀ v ∈ x.pushes, v.number ≠ w.number)
    (hwoken : ∀ v, .push v ∈ x.woken → v.number ≠ w.number) :
    (x.enlistPush w).withdrawPush w.number = x := by
  have hwaiting : ((x.enlistPush w).withdrawPush w.number).pushes = x.pushes := by
    have hfilter : x.pushes.filter (fun v => v.number ≠ w.number) = x.pushes :=
      List.filter_eq_self.mpr (by simpa using hpushes)
    simp only [withdrawPush, enlistPush, List.filter_append, hfilter]
    simp
  have hkept : ((x.enlistPush w).withdrawPush w.number).woken = x.woken := by
    refine List.filter_eq_self.mpr fun v hv => ?_
    cases v with
    | push v => simpa using hwoken v hv
    | poll _ => rfl
  calc
    (x.enlistPush w).withdrawPush w.number
      = { x with
            pushes := ((x.enlistPush w).withdrawPush w.number).pushes
            woken := ((x.enlistPush w).withdrawPush w.number).woken } := rfl
    _ = x := by rw [hwaiting, hkept]

/-- A poll that asks and is withdrawn leaves no trace. -/
lemma withdrawPoll_enlistPoll {w : WaitingPoll} (hpolls : ∀ v ∈ x.polls, v.number ≠ w.number)
    (hwoken : ∀ v, .poll v ∈ x.woken → v.number ≠ w.number) :
    (x.enlistPoll w).withdrawPoll w.number = x := by
  have hwaiting : ((x.enlistPoll w).withdrawPoll w.number).polls = x.polls := by
    have hfilter : x.polls.filter (fun v => v.number ≠ w.number) = x.polls :=
      List.filter_eq_self.mpr (by simpa using hpolls)
    simp only [withdrawPoll, enlistPoll, List.filter_append, hfilter]
    simp
  have hkept : ((x.enlistPoll w).withdrawPoll w.number).woken = x.woken := by
    refine List.filter_eq_self.mpr fun v hv => ?_
    cases v with
    | poll v => simpa using hwoken v hv
    | push _ => rfl
  calc
    (x.enlistPoll w).withdrawPoll w.number
      = { x with
            polls := ((x.enlistPoll w).withdrawPoll w.number).polls
            woken := ((x.enlistPoll w).withdrawPoll w.number).woken } := rfl
    _ = x := by rw [hwaiting, hkept]

/-- A push that looks right after it asked does what it does in one section. -/
theorem lookPush_enlistPush {w : WaitingPush} (hpushes : ∀ v ∈ x.pushes, v.number ≠ w.number)
    (hwoken : ∀ v, .push v ∈ x.woken → v.number ≠ w.number) (waited : Bool) :
    (x.enlistPush w).lookPush w waited = x.attemptPush w waited := by
  have hasked : (x.enlistPush w).pushes.any (·.number = w.number) = true := by simp [enlistPush]
  simp only [lookPush, hasked, if_true, withdrawPush_enlistPush hpushes hwoken]

/-- A poll that looks right after it asked does what it does in one section. -/
theorem lookPoll_enlistPoll {w : WaitingPoll} (hpolls : ∀ v ∈ x.polls, v.number ≠ w.number)
    (hwoken : ∀ v, .poll v ∈ x.woken → v.number ≠ w.number) :
    (x.enlistPoll w).lookPoll w = x.attemptPoll w := by
  have hasked : (x.enlistPoll w).polls.any (·.number = w.number) = true := by simp [enlistPoll]
  simp only [lookPoll, hasked, if_true, withdrawPoll_enlistPoll hpolls hwoken]

/-! ### What asking and looking keep -/

namespace Alert

variable {pushing polling : List Nat}

lemma enlistPush (h : x.Alert pushing polling) (w : WaitingPush) :
    (x.enlistPush w).Alert (w.number :: pushing) polling where
  roomy := h.roomy
  push := fun v hv hout => by
    rcases List.mem_append.mp hv with hold | hnew
    · exact h.push v hold fun hin => hout (List.mem_cons_of_mem _ hin)
    · exact absurd (List.mem_singleton.mp hnew ▸ List.mem_cons_self) hout
  poll := h.poll

lemma enlistPoll (h : x.Alert pushing polling) (w : WaitingPoll) :
    (x.enlistPoll w).Alert pushing (w.number :: polling) where
  roomy := h.roomy
  push := h.push
  poll := fun v hv hout => by
    rcases List.mem_append.mp hv with hold | hnew
    · exact h.poll v hold fun hin => hout (List.mem_cons_of_mem _ hin)
    · exact absurd (List.mem_singleton.mp hnew ▸ List.mem_cons_self) hout

lemma askPush (h : x.Alert pushing polling) (r : QueueRecord) :
    (x.askPush r).Alert ((x.nextPush r).number :: pushing) polling := by
  have hbegun : Alert pushing polling
      { x with started := x.started + 1, push := some ⟨x.started, none⟩ } := h.of_same rfl rfl rfl
  exact hbegun.enlistPush (x.nextPush r)

lemma askPoll (h : x.Alert pushing polling) :
    x.askPoll.Alert pushing (x.nextPoll.number :: polling) := by
  have hbegun : Alert pushing polling
      { x with started := x.started + 1, poll := some ⟨x.started, none⟩ } := h.of_same rfl rfl rfl
  exact hbegun.enlistPoll x.nextPoll

/-- A push that has looked is not exempted any more. -/
lemma lookPush (h : x.Alert pushing polling) (w : WaitingPush) (waited : Bool) :
    (x.lookPush w waited).Alert (pushing.filter (· ≠ w.number)) polling := by
  have hothers : (x.withdrawPush w.number).Alert (pushing.filter (· ≠ w.number)) polling := by
    refine ⟨h.roomy, fun v hv hout => ?_, h.poll⟩
    obtain ⟨hmem, hother⟩ := List.mem_filter.mp hv
    exact h.push v hmem fun hin => hout (List.mem_filter.mpr ⟨hin, hother⟩)
  have hlooked := hothers.attemptPush w waited
  unfold Exchange.lookPush
  split
  · exact hlooked
  · exact hlooked.of_subset rfl List.filter_sublist.subset (List.Subset.refl _)

/-- A poll that has looked is not exempted any more. -/
lemma lookPoll (h : x.Alert pushing polling) (w : WaitingPoll) :
    (x.lookPoll w).Alert pushing (polling.filter (· ≠ w.number)) := by
  have hothers : (x.withdrawPoll w.number).Alert pushing (polling.filter (· ≠ w.number)) := by
    refine ⟨h.roomy, h.push, fun v hv hout => ?_⟩
    obtain ⟨hmem, hother⟩ := List.mem_filter.mp hv
    exact h.poll v hmem fun hin => hout (List.mem_filter.mpr ⟨hin, hother⟩)
  have hlooked := hothers.attemptPoll w
  unfold Exchange.lookPoll
  split
  · exact hlooked
  · exact hlooked.of_subset rfl (List.Subset.refl _) List.filter_sublist.subset

end Alert
end Exchange

/-- A section of a call, or one of the two parts of a section in which a call may come to wait. -/
inductive Part where
  | whole (m : Move)
  | askPush (r : QueueRecord)
  | askPoll
  /-- The call at this place of those that were woken asks again. -/
  | askAgain (place : Nat)
  /-- The push with this number looks; `waited` when it has waited before. -/
  | lookPush (number : Nat) (waited : Bool)
  /-- The poll with this number looks. -/
  | lookPoll (number : Nat)

/-- An exchange with the calls that have asked to be woken and have not looked since. -/
structure Traffic where
  exchange : Exchange
  /-- The pushes among them. -/
  pushing : List WaitingPush := []
  /-- The polls among them. -/
  polling : List WaitingPoll := []

namespace Traffic

/-- A new queue. -/
def start (settings : QueueSettings) (gauges : Option QueueGauges) : Traffic :=
  { exchange := { queue := { settings, gauges } } }

/-- What one part leaves.  Only a call that has asked can look. -/
def step (t : Traffic) : Part → Traffic
  | .whole m => { t with exchange := (t.exchange.act m).2 }
  | .askPush r =>
    { t with exchange := t.exchange.askPush r, pushing := t.exchange.nextPush r :: t.pushing }
  | .askPoll =>
    { t with exchange := t.exchange.askPoll, polling := t.exchange.nextPoll :: t.polling }
  | .askAgain place =>
    let rest := { t.exchange with woken := t.exchange.woken.eraseIdx place }
    match t.exchange.woken[place]? with
    | none => t
    | some (.push w) => { t with exchange := rest.enlistPush w, pushing := w :: t.pushing }
    | some (.poll w) => { t with exchange := rest.enlistPoll w, polling := w :: t.polling }
  | .lookPush number waited =>
    match t.pushing.find? (·.number = number) with
    | none => t
    | some w =>
      { t with
          exchange := t.exchange.lookPush w waited
          pushing := t.pushing.filter (·.number ≠ w.number) }
  | .lookPoll number =>
    match t.polling.find? (·.number = number) with
    | none => t
    | some w =>
      { t with
          exchange := t.exchange.lookPoll w
          polling := t.polling.filter (·.number ≠ w.number) }

/-- What parts leave. -/
def run (t : Traffic) (parts : List Part) : Traffic := parts.foldl step t

/-- The push waits with no wake-up pending. -/
def ParkedPush (t : Traffic) (w : WaitingPush) : Prop :=
  w ∈ t.exchange.pushes ∧ ∀ v ∈ t.pushing, v.number ≠ w.number

/-- The poll waits with no wake-up pending. -/
def ParkedPoll (t : Traffic) (w : WaitingPoll) : Prop :=
  w ∈ t.exchange.polls ∧ ∀ v ∈ t.polling, v.number ≠ w.number

/-- Whoever waits has reason to, or has not looked yet. -/
def Alert (t : Traffic) : Prop :=
  t.exchange.Alert (t.pushing.map (·.number)) (t.polling.map (·.number))

variable {t : Traffic}

lemma alert_start {settings : QueueSettings} (hlimit : ∀ n, settings.limit = some n → 1 ≤ n)
    (gauges : Option QueueGauges) : (start settings gauges).Alert where
  roomy := hlimit
  push := fun _ hw => absurd hw List.not_mem_nil
  poll := fun _ hw => absurd hw List.not_mem_nil

/-- Whatever part comes next, whoever waits after it has reason to or has not looked yet. -/
lemma Alert.step (h : t.Alert) (part : Part) : (t.step part).Alert := by
  unfold Traffic.Alert at h
  cases part with
  | whole m => exact h.act m
  | askPush r => exact h.askPush r
  | askPoll => exact h.askPoll
  | askAgain place =>
    have hrest : Exchange.Alert (t.pushing.map (·.number)) (t.polling.map (·.number))
        { t.exchange with woken := t.exchange.woken.eraseIdx place } := h.of_same rfl rfl rfl
    simp only [Traffic.step]
    split
    · exact h
    · next w _ => exact hrest.enlistPush w
    · next w _ => exact hrest.enlistPoll w
  | lookPush number waited =>
    simp only [Traffic.step]
    split
    · exact h
    · next w _ =>
      have hlooked := h.lookPush w waited
      rw [List.filter_map] at hlooked
      exact hlooked
  | lookPoll number =>
    simp only [Traffic.step]
    split
    · exact h
    · next w _ =>
      have hlooked := h.lookPoll w
      rw [List.filter_map] at hlooked
      exact hlooked

lemma Alert.run (h : t.Alert) (parts : List Part) : (t.run parts).Alert := by
  induction parts generalizing t with
  | nil => exact h
  | cons part rest ih => exact ih (h.step part)

lemma Alert.crowded (h : t.Alert) {w : WaitingPush} (hw : t.ParkedPush w) :
    t.exchange.queue.Crowded w.record.size := by
  refine h.push w hw.1 fun hin => ?_
  obtain ⟨v, hv, hnumber⟩ := List.mem_map.mp hin
  exact hw.2 v hv hnumber

lemma Alert.idle (h : t.Alert) {w : WaitingPoll} (hw : t.ParkedPoll w) :
    t.exchange.queue.Idle := by
  refine h.poll w hw.1 fun hin => ?_
  obtain ⟨v, hv, hnumber⟩ := List.mem_map.mp hin
  exact hw.2 v hv hnumber

/-- In every interleaving a push is parked only while the queue is open, not empty and without room
for its record, and a poll only while the queue is open, empty and unfinished and holds no fault of
its producer.  So a push and a poll are never parked at once. -/
theorem parked_for_cause (settings : QueueSettings)
    (hlimit : ∀ n, settings.limit = some n → 1 ≤ n) (gauges : Option QueueGauges)
    (parts : List Part) :
    let t := (start settings gauges).run parts
    (∀ w, t.ParkedPush w → t.exchange.queue.Crowded w.record.size) ∧
      (∀ w, t.ParkedPoll w → t.exchange.queue.Idle) ∧
      ¬((∃ w, t.ParkedPush w) ∧ ∃ w, t.ParkedPoll w) := by
  intro t
  have halert : t.Alert := (alert_start hlimit gauges).run parts
  refine ⟨fun w hw => halert.crowded hw, fun w hw => halert.idle hw, ?_⟩
  rintro ⟨⟨v, hv⟩, w, hw⟩
  exact (halert.crowded hv).buffer_ne (halert.idle hw).buffer_eq

/-- A push that finds the room that was made since it asked is not parked.  The next one is, at a
full queue, and then no poll is. -/
theorem parked_for_cause_full :
    let parts : List Part :=
      [.whole (.startPush (.heartbeat .initial)), .askPush (.heartbeat .initial),
        .whole .startPoll, .lookPush 1 false, .askPush (.watermark .initial), .lookPush 3 false]
    let t := (start { limit := some 1 } none).run parts
    t.ParkedPush ⟨3, .watermark .initial⟩ ∧
      t.exchange.queue.Crowded (QueueRecord.watermark .initial).size ∧
      ¬∃ w, t.ParkedPoll w := by
  intro parts t
  have hparked : t.ParkedPush ⟨3, .watermark .initial⟩ := by
    refine ⟨?_, ?_⟩
    · show _ ∈ [(⟨3, .watermark .initial⟩ : WaitingPush)]
      exact List.mem_singleton_self _
    · exact fun v hv => absurd hv List.not_mem_nil
  obtain ⟨hpush, -, hnever⟩ :=
    parked_for_cause { limit := some 1 } (by simp) none parts
  exact ⟨hparked, hpush _ hparked, fun hpoll => hnever ⟨⟨_, hparked⟩, hpoll⟩⟩

end Traffic
end Changefeed
