import Changefeed.Proofs.Fetch.Delivery

/-!
# Retries that are accounted for

A run that returns has closed each task that it created, and closed it before it created the next
one.  The policy bounds the number of tasks, and what it does not allow to be tried again is
returned at once.  The counters tell the same story: they start a split for every task, complete at
most the last one, fail the others, and count a retry between any two of them.

All of it follows from what one attempt counts, and from the chain of failed attempts that a run
makes before its last one.
-/

namespace Changefeed

namespace RetryPolicy

lemma lt_of_retries {p : RetryPolicy} {retries : Nat} {f : Fault}
    (h : p.retries retries f = true) (hlimit : 0 ≤ p.maxRetries) :
    (retries : Int) < p.maxRetries := by
  unfold RetryPolicy.retries at h
  split at h
  · have hshould : p.shouldRetry retries = true := (Bool.and_eq_true_iff.mp h).2
    rw [shouldRetry, if_pos hlimit] at hshould
    exact of_decide_eq_true hshould
  · cases h

/-- The policy may answer a fault by a retry: it is transient and falls into a bucket of the policy.
-/
def Allows (p : RetryPolicy) (f : Fault) : Prop :=
  f.faultClass = .transient ∧ ∃ b ∈ p.buckets, f.retryBucket? = some b

/-- Only faults that the policy allows are tried again. -/
lemma allows_of_retries {p : RetryPolicy} {retries : Nat} {f : Fault}
    (h : p.retries retries f = true) : p.Allows f := by
  unfold RetryPolicy.retries at h
  split at h
  · next b hbucket =>
    have htransient : f.isRetriable = true := by
      rw [← Fault.retryBucket?_isSome, hbucket]
      rfl
    have hmem : p.allows b = true := (Bool.and_eq_true_iff.mp h).1
    exact ⟨of_decide_eq_true htransient, b, List.contains_iff_mem.mp hmem, hbucket⟩
  · cases h

end RetryPolicy

/-! ## Failed attempts -/

/-- The tally when some attempts have failed, each of which is tried again. -/
def Tally.retried (t : Tally) (retries : Nat) : Tally where
  closes := t.closes + retries
  started := t.started + .ofNat retries
  completed := t.completed
  failed := t.failed + .ofNat retries
  retries := t.retries + .ofNat retries

lemma Tally.retried_succ (t : Tally) (retries : Nat) :
    t.retried (retries + 1) = (t.retried retries).start.fail.close.retry := by
  simp [retried, start, fail, close, retry, UInt64.ofNat_add, UInt64.add_assoc, Nat.add_assoc]

namespace Runner

open RunState

variable {r : Runner} {split split' : Split} {st st' : RunState} {retries : Nat}

/-- An attempt is begun after one task for each retry, all of which were closed. -/
lemma Tries.counted (h : Tries r split st retries split' st') (hquiet : st.Quiet) :
    st'.created = st.created + retries ∧
      st'.shared.tally = st.shared.tally.retried retries := by
  induction h with
  | first hresume =>
    obtain ⟨hhanded, -⟩ := (hands_resume _).handed hquiet hresume
    exact ⟨hhanded.created, by simp [hhanded.tally, Tally.retried]⟩
  | @again retries split₁ split₂ st₁ st₂ st₃ f delay htries hfailed _ _ _ hresume ih =>
    obtain ⟨hcreated, htally⟩ := ih
    have hquiet₁ := htries.quiet hquiet
    obtain ⟨hquiet₂, hcreated₂, htally₂⟩ :=
      (attempted_of_eq hquiet₁ hfailed).counted hquiet₁ (by simp)
    have hslept : Quiet { st₂.countRetry with sleptMs := st₂.sleptMs + delay.timerMillis } :=
      hquiet₂
    obtain ⟨hhanded, -⟩ := (hands_resume _).handed hslept hresume
    refine ⟨hhanded.created.trans (hcreated₂.trans ?_), hhanded.tally.trans ?_⟩
    · rw [hcreated, Nat.add_assoc]
    · rw [Tally.retried_succ, ← htally]
      exact congrArg Tally.retry htally₂

lemma Tries.retries_le (h : Tries r split st retries split' st')
    (hlimit : 0 ≤ r.retry.maxRetries) : (retries : Int) ≤ r.retry.maxRetries := by
  cases h with
  | first => exact hlimit
  | again _ _ hretries => exact RetryPolicy.lt_of_retries hretries hlimit

/-- A run that may make no more attempts than it has made is still running. -/
lemma Tries.running (h : Tries r split st retries split' st') {attempts : Nat}
    (hle : attempts ≤ retries) : (r.run split st attempts).1 = .running := by
  induction h with
  | first hresume =>
    obtain rfl : attempts = 0 := by omega
    rw [(Tries.first hresume).run_eq 0]
    rfl
  | @again retries split₁ split₂ st₁ st₂ st₃ f delay htries hfailed hretries hdelay hpatient hresume
      ih =>
    by_cases hlast : attempts ≤ retries
    · exact ih hlast
    · obtain rfl : attempts = retries + 1 + 0 := by omega
      rw [(Tries.again htries hfailed hretries hdelay hpatient hresume).run_eq 0]
      rfl

/-! ## Runs -/

/-- What a run that returned has done: the number of its tasks, and what goes with it. -/
structure Accounted (r : Runner) (split : Split) (st : RunState)
    (result : Outcome (Option SplitCompletion)) (st' : RunState) (tasks : Nat) : Prop where
  created : st'.created = st.created + tasks
  /-- Every task has been closed, once. -/
  closed : st'.shared.server.closes = st.shared.server.closes + tasks
  /-- When a task is about to be created, all before it have been closed. -/
  closed_before : ∀ retries split₁ st₁, Tries r split st retries split₁ st₁ →
    st₁.created = st.created + retries ∧
      st₁.shared.server.closes = st.shared.server.closes + retries
  bounded : 0 ≤ r.retry.maxRetries → (tasks : Int) ≤ r.retry.maxRetries + 1
  /-- A fault that the policy does not allow is returned with no task after it. -/
  selective : ∀ retries split₁ st₁ f st₂, Tries r split st retries split₁ st₁ →
    r.attempt split₁ st₁ = (.failed f, st₂) → ¬ r.retry.Allows f →
      result = .error f ∧ st' = st₂ ∧ tasks = retries + 1
  retries : st'.shared.metrics.retries = .ofNat (tasks - 1)
  started : st'.shared.metrics.splitsStarted = .ofNat tasks
  balanced : st'.shared.metrics.splitsStarted =
    st'.shared.metrics.splitsCompleted + st'.shared.metrics.splitsFailed
  completed_iff : st'.shared.metrics.splitsCompleted = 1 ↔ ∃ c, result = .ok (some c)

/-- What the last attempt of a run has counted. -/
lemma Ends.counted {result : Outcome (Option SplitCompletion)}
    (h : Ends r retries split st result st') (hquiet : st.Quiet) :
    st'.created = st.created + 1 ∧
      ((∃ c, result = .ok (some c)) ∧ st'.shared.tally = st.shared.tally.start.complete.close ∨
        (∃ f, result = .error f) ∧ st'.shared.tally = st.shared.tally.start.fail.close) := by
  cases h with
  | finished hattempt =>
    have hattempted := attempted_of_eq hquiet hattempt
    obtain ⟨-, hcreated, htally⟩ := hattempted.counted hquiet (by simp)
    obtain ⟨c, rfl⟩ := Option.isSome_iff_exists.mp (hattempted.completed hquiet)
    exact ⟨hcreated, .inl ⟨⟨c, rfl⟩, htally⟩⟩
  | @failed f _ hattempt hretries =>
    obtain ⟨-, hcreated, htally⟩ := (attempted_of_eq hquiet hattempt).counted hquiet (by simp)
    exact ⟨hcreated, .inr ⟨⟨f, rfl⟩, htally⟩⟩

/-- A fault that the policy does not allow is what the run returns. -/
lemma Tries.returns {attempts : Nat} {result : Outcome (Option SplitCompletion)}
    (h : Tries r split st retries split' st')
    (hrun : r.run split st attempts = (.returned result, st₁)) {f : Fault} {st₂ : RunState}
    (hattempt : r.attempt split' st' = (.failed f, st₂)) (hf : ¬ r.retry.Allows f) :
    result = .error f ∧ st₁ = st₂ := by
  have hlt : retries < attempts := by
    by_contra hle
    have hrunning := h.running (Nat.le_of_not_lt hle)
    rw [hrun] at hrunning
    cases hrunning
  obtain ⟨more, rfl⟩ : ∃ more, attempts = retries + (more + 1) :=
    ⟨attempts - retries - 1, by omega⟩
  have hno : ¬ r.retry.retries retries f = true := fun hretries =>
    hf (RetryPolicy.allows_of_retries hretries)
  rw [h.run_eq, runFrom, hattempt] at hrun
  dsimp only at hrun
  rw [if_neg hno] at hrun
  cases hrun
  exact ⟨rfl, rfl⟩

/-- Where only the connection can fail, a run that returns is accounted for. -/
theorem run_accounted {attempts : Nat} {result : Outcome (Option SplitCompletion)}
    (hquiet : st.Quiet) (hzero : st.shared.metrics = {})
    (hrun : r.run split st attempts = (.returned result, st')) :
    ∃ tasks, Accounted r split st result st' tasks := by
  obtain ⟨retries, split₁, st₁, htries, -, hends⟩ := run_ends hquiet hrun
  obtain ⟨hcreated₁, htally₁⟩ := htries.counted hquiet
  obtain ⟨hcreated, hcounted⟩ := hends.counted (htries.quiet hquiet)
  have hstart : st.shared.tally = ⟨st.shared.server.closes, 0, 0, 0, 0⟩ := by
    rw [Shared.tally, hzero]
    rfl
  have hcreated' : st'.created = st.created + (retries + 1) := by
    rw [hcreated, hcreated₁, Nat.add_assoc]
  rw [htally₁, hstart] at hcounted
  obtain ⟨hcloses, hretries, hstarted, hbalanced, hcompleted⟩ :
      st'.shared.tally.closes = st.shared.server.closes + (retries + 1) ∧
      st'.shared.tally.retries = .ofNat retries ∧ st'.shared.tally.started = .ofNat (retries + 1) ∧
      st'.shared.tally.started = st'.shared.tally.completed + st'.shared.tally.failed ∧
      (st'.shared.tally.completed = 1 ↔ ∃ c, result = .ok (some c)) := by
    rcases hcounted with ⟨hresult, htally⟩ | ⟨⟨f, rfl⟩, htally⟩
    · simp [htally, hresult, Tally.retried, Tally.start, Tally.complete, Tally.close,
        UInt64.ofNat_add, Nat.add_assoc, UInt64.add_comm]
    · simp [htally, Tally.retried, Tally.start, Tally.fail, Tally.close, UInt64.ofNat_add,
        Nat.add_assoc]
  exact ⟨retries + 1,
    { created := hcreated'
      closed := hcloses
      closed_before := fun k split₂ st₂ h =>
        ⟨(h.counted hquiet).1, congrArg Tally.closes (h.counted hquiet).2⟩
      bounded := fun hlimit => Int.add_le_add_right (htries.retries_le hlimit) 1
      selective := fun k split₂ st₂ f st₃ h hattempt hf => by
        obtain ⟨rfl, rfl⟩ := h.returns hrun hattempt hf
        have hquiet₂ := h.quiet hquiet
        have hcreated₃ :=
          ((attempted_of_eq hquiet₂ hattempt).counted hquiet₂ (by simp)).2.1
        rw [(h.counted hquiet).1] at hcreated₃
        exact ⟨rfl, rfl, by omega⟩
      retries := hretries
      started := hstarted
      balanced := hbalanced
      completed_iff := hcompleted }⟩

/-- The orders take two tasks, for their first stream drops and is tried again.  Where the server
does not have their table, that is returned with the first task. -/
theorem run_accounted_orders :
    let split := Split.incremental ordersSplit
    let st : RunState := { shared := { server := ordersServer } }
    let unknown : RunState := { shared := { server := {} } }
    let f : Fault := .schema (.noSuchTable "shop.orders")
    (∃ c st', ordersRunner.run split st 4 = (.returned (.ok (some c)), st') ∧
        Accounted ordersRunner split st (.ok (some c)) st' 2) ∧
      ∃ st', ordersRunner.run split unknown 4 = (.returned (.error f), st') ∧
        Accounted ordersRunner split unknown (.error f) st' 1 := by
  intro split st unknown f
  have hquiet : st.Quiet := rfl
  have hquiet' : unknown.Quiet := rfl
  constructor
  · obtain ⟨c, st₁, st₂, htries, hfinished⟩ := tries_orders
    have hran : ordersRunner.run split st 4 = (.returned (.ok (some c)), st₂) :=
      htries.returned hfinished 2
    obtain ⟨tasks, haccounted⟩ := run_accounted hquiet rfl hran
    have hcreated₁ : st₁.created = 0 + 1 := (htries.counted hquiet).1
    have hcreated₂ : st₂.created = st₁.created + 1 :=
      ((attempted_of_eq (htries.quiet hquiet) hfinished).counted (htries.quiet hquiet)
        (by simp)).2.1
    have hcreated : st₂.created = 0 + tasks := haccounted.created
    obtain rfl : tasks = 2 := by omega
    exact ⟨c, st₂, hran, haccounted⟩
  · let ran := ordersRunner.run split unknown 4
    have hran : ran = (.returned (.error f), ran.2) := rfl
    obtain ⟨tasks, haccounted⟩ := run_accounted hquiet' rfl hran
    have hcreated : 1 = 0 + tasks := haccounted.created
    obtain rfl : tasks = 1 := by omega
    exact ⟨ran.2, hran, haccounted⟩

end Runner
end Changefeed
