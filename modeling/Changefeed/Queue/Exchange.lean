import Changefeed.Queue.Basic

/-!
# Waiting at a queue

A push that finds no room and a poll that finds nothing wait until they are woken.  Taking records
and closing wake the pushes; accepting a record, finishing, failing and closing wake the polls.
Those that were woken try again one after the other, in the order in which they came to wait, and
wait again if they have no luck.  A poll that waits also gives up at its deadline, with no records.

Any number of pushes and polls may wait.  The result of the latest one of each kind can be asked
for; earlier ones go on, but nobody learns what came of them.

Time is counted in milliseconds and moves only when it is told to.
-/

namespace Changefeed

/-- A push that waits for room. -/
structure WaitingPush where
  number : Nat
  record : QueueRecord

/-- A poll that waits for records. -/
structure WaitingPoll where
  number : Nat
  deadline : Nat

/-- Something that was woken and has not tried again yet. -/
inductive Woken where
  | push (w : WaitingPush)
  | poll (w : WaitingPoll)

/-- The latest push or poll: its number, and its result once there is one. -/
structure Request (ρ : Type) where
  number : Nat
  result : Option ρ := none

/-- What a request has come to, when it is asked for its result. -/
inductive Joined (ρ : Type) where
  /-- There is no request whose result was not asked for before. -/
  | absent
  | pending
  | done (result : ρ)

/-- A queue with what waits at it. -/
structure Exchange where
  queue : EventQueue
  /-- Milliseconds since the start. -/
  now : Nat := 0
  /-- The pushes that wait, in the order in which they came to wait. -/
  pushes : List WaitingPush := []
  /-- The polls that wait, in the order in which they came to wait. -/
  polls : List WaitingPoll := []
  /-- What was woken, in order. -/
  woken : List Woken := []
  /-- The number of pushes and polls started so far. -/
  started : Nat := 0
  push : Option (Request (Outcome Unit)) := none
  poll : Option (Request Polled) := none

namespace Request

variable {ρ : Type}

/-- The request with a result, when it is its own. -/
def complete (q : Request ρ) (number : Nat) (result : ρ) : Request ρ :=
  if q.number = number then { q with result := some result } else q

/-- The result of a request, and the request if it is to be asked again. -/
def join : Option (Request ρ) → Joined ρ × Option (Request ρ)
  | none => (.absent, none)
  | some q =>
    match q.result with
    | none => (.pending, some q)
    | some result => (.done result, none)

end Request

namespace Exchange

/-! ## Waking -/

/-- Wakes the pushes. -/
def wakePushes (x : Exchange) : Exchange :=
  { x with pushes := [], woken := x.woken ++ x.pushes.map .push }

/-- Wakes the polls. -/
def wakePolls (x : Exchange) : Exchange :=
  { x with polls := [], woken := x.woken ++ x.polls.map .poll }

/-! ## What does not wait -/

/-- Offers a record: whether it was accepted. -/
def tryPush (x : Exchange) (r : QueueRecord) : Outcome Bool × Exchange :=
  match x.queue.offer r with
  | .error f => (.error f, x)
  | .ok none => (.ok false, x)
  | .ok (some q) => (.ok true, { x with queue := q }.wakePolls)

/-- Takes what there is. -/
def tryPoll (x : Exchange) : Option Polled × Exchange :=
  match x.queue.take with
  | (some (.records rs), q) => (some (.records rs), { x with queue := q }.wakePushes)
  | (taken, q) => (taken, { x with queue := q })

/-- The producer finishes. -/
def finish (x : Exchange) : Exchange := { x with queue := x.queue.finish }.wakePolls

/-- The producer fails; nobody is woken at a closed queue. -/
def fail (x : Exchange) (f : Fault) : Exchange :=
  if x.queue.closed then x else { x with queue := x.queue.fail f }.wakePolls

/-- Either side closes the queue. -/
def close (x : Exchange) : Exchange := { x with queue := x.queue.close }.wakePolls.wakePushes

/-! ## What waits -/

/-- A push ends. -/
def endPush (x : Exchange) (number : Nat) (result : Outcome Unit) : Exchange :=
  { x with push := x.push.map fun q => q.complete number result }

/-- A poll ends. -/
def endPoll (x : Exchange) (number : Nat) (result : Polled) : Exchange :=
  { x with poll := x.poll.map fun q => q.complete number result }

/-- A push ends or waits; `waited` when it has waited before. -/
def attemptPush (x : Exchange) (w : WaitingPush) (waited : Bool) : Exchange :=
  match x.tryPush w.record with
  | (.error f, x) => x.endPush w.number (.error f)
  | (.ok true, x) => x.endPush w.number (.ok ())
  | (.ok false, x) =>
    { x with
        queue := if waited then x.queue else x.queue.reportBlocked
        pushes := x.pushes ++ [w] }

/-- A poll ends or waits. -/
def attemptPoll (x : Exchange) (w : WaitingPoll) : Exchange :=
  match x.tryPoll with
  | (some p, x) => x.endPoll w.number p
  | (none, x) => { x with polls := x.polls ++ [w] }

/-- Something that was woken tries again. -/
def resume (x : Exchange) : Woken → Exchange
  | .push w => x.attemptPush w true
  | .poll w => x.attemptPoll w

/-- The polls whose deadline has come give up. -/
def expirePolls (x : Exchange) : Exchange :=
  let (late, waiting) := x.polls.partition fun w => w.deadline ≤ x.now
  late.foldl (fun x w => x.endPoll w.number (.records [])) { x with polls := waiting }

/-- Starts a push. -/
def startPush (x : Exchange) (r : QueueRecord) : Exchange :=
  { x with started := x.started + 1, push := some ⟨x.started, none⟩ }.attemptPush ⟨x.started, r⟩ false

/-- Starts a poll. -/
def startPoll (x : Exchange) : Exchange :=
  ({ x with started := x.started + 1, poll := some ⟨x.started, none⟩ }.attemptPoll
    ⟨x.started, x.now + x.queue.settings.pollIntervalMs⟩).expirePolls

/-- Withdraws a push that waits. -/
def withdrawPush (x : Exchange) (number : Nat) : Exchange :=
  { x with
      pushes := x.pushes.filter fun w => w.number ≠ number
      woken := x.woken.filter fun
        | .push w => w.number ≠ number
        | .poll _ => true }

/-- Withdraws a poll that waits. -/
def withdrawPoll (x : Exchange) (number : Nat) : Exchange :=
  { x with
      polls := x.polls.filter fun w => w.number ≠ number
      woken := x.woken.filter fun
        | .push _ => true
        | .poll w => w.number ≠ number }

/-! ## Going on as far as possible -/

/-- The number of pushes and polls that have not ended. -/
def unfinished (x : Exchange) : Nat := x.pushes.length + x.polls.length + x.woken.length

/-- Waking pushes ends none. -/
theorem unfinished_wakePushes (x : Exchange) : x.wakePushes.unfinished = x.unfinished := by
  simp only [unfinished, wakePushes, List.length_append, List.length_map, List.length_nil]
  omega

/-- Waking polls ends none. -/
theorem unfinished_wakePolls (x : Exchange) : x.wakePolls.unfinished = x.unfinished := by
  simp only [unfinished, wakePolls, List.length_append, List.length_map, List.length_nil]
  omega

/-- A push that tries again has ended, or it waits and nobody was woken. -/
theorem attemptPush_unfinished (x : Exchange) (w : WaitingPush) (waited : Bool) :
    (x.attemptPush w waited).unfinished = x.unfinished ∨
      (x.attemptPush w waited).unfinished = x.unfinished + 1 ∧
        (x.attemptPush w waited).woken = x.woken := by
  unfold attemptPush tryPush
  split
  · next h =>
    split at h <;> simp only [Prod.mk.injEq, reduceCtorEq, false_and] at h
    rw [← h.2]
    exact .inl rfl
  · next h =>
    split at h <;> simp only [Prod.mk.injEq, reduceCtorEq, Except.ok.injEq, false_and] at h
    next q _ =>
      rw [← h.2]
      exact .inl (unfinished_wakePolls { x with queue := q })
  · next h =>
    split at h <;> simp only [Prod.mk.injEq, reduceCtorEq, Except.ok.injEq, false_and] at h
    rw [← h.2]
    refine .inr ⟨?_, rfl⟩
    simp only [unfinished, List.length_append, List.length_cons, List.length_nil]
    omega

/-- A poll that tries again has ended, or it waits and nobody was woken. -/
theorem attemptPoll_unfinished (x : Exchange) (w : WaitingPoll) :
    (x.attemptPoll w).unfinished = x.unfinished ∨
      (x.attemptPoll w).unfinished = x.unfinished + 1 ∧ (x.attemptPoll w).woken = x.woken := by
  unfold attemptPoll tryPoll
  split
  · next h =>
    split at h
    · next q _ =>
      simp only [Prod.mk.injEq, Option.some.injEq] at h
      rw [← h.2]
      exact .inl (unfinished_wakePushes { x with queue := q })
    · simp only [Prod.mk.injEq] at h
      rw [← h.2]
      exact .inl rfl
  · next h =>
    split at h
    · simp at h
    · simp only [Prod.mk.injEq] at h
      rw [← h.2]
      refine .inr ⟨?_, rfl⟩
      simp only [unfinished, List.length_append, List.length_cons, List.length_nil]
      omega

/-- Something that tries again has ended, or it waits and nobody was woken. -/
theorem resume_unfinished (x : Exchange) (w : Woken) :
    (x.resume w).unfinished = x.unfinished ∨
      (x.resume w).unfinished = x.unfinished + 1 ∧ (x.resume w).woken = x.woken := by
  cases w with
  | push w => exact attemptPush_unfinished x w true
  | poll w => exact attemptPoll_unfinished x w

/-- Everything that was woken tries again. -/
def resumeAll (x : Exchange) : Exchange :=
  match _h : x.woken with
  | [] => x
  | w :: rest => ({ x with woken := rest }.resume w).resumeAll
termination_by (x.unfinished, x.woken.length)
decreasing_by
  have hx : x.unfinished = { x with woken := rest }.unfinished + 1 := by
    simp only [unfinished, _h, List.length_cons]
    omega
  rcases resume_unfinished { x with woken := rest } w with h | ⟨h, hw⟩
  · exact .left _ _ (by omega)
  · rw [h, ← hx]
    refine .right _ ?_
    rw [hw, _h]
    exact Nat.lt_succ_self _

/-- Lets what waits go on as far as it can. -/
def settle (x : Exchange) : Exchange := x.resumeAll.expirePolls

/-- Lets time pass. -/
def wait (x : Exchange) (ms : Nat) : Exchange := { x with now := x.now + ms }.settle

/-! ## What waits for a time -/

/-- How long a push is given before it is withdrawn. -/
def pushPatience : Nat := 1

/-- How long a poll for at least one record is given. -/
def pollPatience : Nat := 1000

/-- Pushes a record, waiting for a millisecond at most: whether it was accepted. -/
def pushPatiently (x : Exchange) (r : QueueRecord) : Outcome Bool × Exchange :=
  match x.tryPush r with
  | (.ok false, x) => (.ok false, { x with queue := x.queue.reportBlocked }.wait pushPatience)
  | (result, x) => (result, x.settle)

/-- Polls, waiting for the poll interval. -/
def pollPatiently (x : Exchange) : Polled × Exchange :=
  match x.tryPoll with
  | (some p, x) => (p, x.settle)
  | (none, x) => (.records [], x.wait x.queue.settings.pollIntervalMs)

/-- Polls for at least one record, waiting for a second; `none` when that was too short. -/
def pollNonEmpty (x : Exchange) : Option Polled × Exchange :=
  match x.tryPoll with
  | (some p, x) => (some p, x.settle)
  | (none, x) => (none, x.wait pollPatience)

/-! ## Results -/

/-- Asks for the result of the latest push. -/
def joinPush (x : Exchange) : Joined (Outcome Unit) × Exchange :=
  let (result, push) := Request.join x.push
  (result, { x with push })

/-- Asks for the result of the latest poll. -/
def joinPoll (x : Exchange) : Joined Polled × Exchange :=
  let (result, poll) := Request.join x.poll
  (result, { x with poll })

end Exchange
end Changefeed
