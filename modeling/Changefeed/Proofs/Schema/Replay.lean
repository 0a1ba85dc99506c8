import Mathlib.Logic.Relation
import Changefeed.Proofs.Fetch.Restart

/-!
# A log replayed over a history

A fetch that is tried again goes through the log from an earlier place, over a history that already
holds the layouts of later ones.  Two things make that harmless.  A layout that the history holds is
not added a second time, so a record that was dispatched before teaches nothing.  And the layouts of
later places do not matter to an earlier row.  So however the log is replayed, the history is the
one behind the records that were dispatched, each of them once.
-/

namespace Changefeed

namespace Dispatcher

variable {d : Dispatcher} {h : SchemaHistory} {first : SchemaRecord} {t : TableId}

/-- A history with one layout for each table of a split, at positions that the log has reached. -/
structure Seeded (d : Dispatcher) (h : SchemaHistory) (first : TableId → SchemaRecord)
    (log : List LogRecord) : Prop where
  ordered : Ordered log
  records : ∀ t, d.captures t = true → h.records t = [first t]
  tables : ∀ t, d.captures t = true → (first t).tableId = t
  normal : ∀ t, d.captures t = true → (first t).position.Normal
  reached : ∀ t, d.captures t = true → ∀ r ∈ log, r.position.reached (first t).position = true

namespace Seeded

variable {first : TableId → SchemaRecord} {log : List LogRecord}

lemma sublist (hs : Seeded d h first log) {part : List LogRecord} (hpart : part.Sublist log) :
    Seeded d h first part where
  ordered := hs.ordered.sublist hpart
  records := hs.records
  tables := hs.tables
  normal := hs.normal
  reached t ht r hr := hs.reached t ht r (hpart.subset hr)

lemma records_learnAll (hs : Seeded d h first log) (ht : d.captures t = true) :
    (d.learnAll h log).records t =
      first t :: (layoutChanges t log).dropWhile (first t).sameLayoutAt :=
  Dispatcher.records_learnAll ht (hs.records t ht) (hs.normal t ht) (hs.reached t ht) hs.ordered

/-- A record of the log teaches the history behind it nothing more. -/
lemma learn_learnAll (hs : Seeded d h first log) {r : LogRecord} (hr : r ∈ log) :
    d.learn (d.learnAll h log) r = d.learnAll h log := by
  cases r with
  | change c => rfl
  | heartbeat position => rfl
  | schemaChange r =>
    rw [learn]
    split
    · next hcaptured =>
      refine SchemaHistory.append_of_held (by simp) (hs.records_learnAll hcaptured) ?_
      apply SchemaRecord.addTo_of_mem
      have hmem := mem_layoutChanges.mpr ⟨hr, rfl⟩
      rw [← List.takeWhile_append_dropWhile (p := (first r.tableId).sameLayoutAt)
        (l := layoutChanges r.tableId log)] at hmem
      rcases List.mem_append.mp hmem with hsame | hkept
      · exact .inr ⟨first r.tableId, .head _, List.mem_takeWhile_imp hsame⟩
      · exact .inl (.tail _ hkept)
    · rfl

end Seeded

/-! ## Replays -/

/-- The history after a record was dispatched: it stays as it is when the record cannot be read. -/
def historyAfter (d : Dispatcher) (h : SchemaHistory) (r : LogRecord) : SchemaHistory :=
  match d.dispatch h r with
  | .ok (_, h') => h'
  | .error _ => h

/-- A record that cannot be read teaches nothing. -/
lemma historyAfter_eq_learn (d : Dispatcher) (h : SchemaHistory) (r : LogRecord) :
    d.historyAfter h r = d.learn h r := by
  rw [historyAfter]
  cases hdispatch : d.dispatch h r with
  | ok result => exact history_of_dispatch hdispatch
  | error f =>
    cases r with
    | change c => rfl
    | heartbeat position => cases hdispatch
    | schemaChange r =>
      rw [dispatch] at hdispatch
      split at hdispatch <;> cases hdispatch

/-- How many records of a log have been dispatched, each of them at least once, and the history. -/
structure Replay where
  dispatched : Nat
  history : SchemaHistory

/-- Dispatching one of the records that were dispatched before, or the one behind them. -/
inductive Replay.Step (d : Dispatcher) (log : List LogRecord) : Replay → Replay → Prop
  | dispatch {s : Replay} {i : Nat} {r : LogRecord} (hi : i ≤ s.dispatched)
      (hr : log[i]? = some r) :
      Step d log s ⟨max s.dispatched (i + 1), d.historyAfter s.history r⟩

variable {first : TableId → SchemaRecord} {log : List LogRecord} {s s' : Replay}

/-- The history is the one behind the records that were dispatched. -/
def Replay.Learnt (d : Dispatcher) (h : SchemaHistory) (log : List LogRecord) (s : Replay) : Prop :=
  s.history = d.learnAll h (log.take s.dispatched)

lemma Seeded.historyAfter_eq (hs : Seeded d h first log) (hl : s.Learnt d h log) {i : Nat}
    {r : LogRecord} (hi : i < s.dispatched) (hr : log[i]? = some r) :
    d.historyAfter s.history r = s.history := by
  have hmem : r ∈ log.take s.dispatched :=
    List.mem_of_getElem? ((List.getElem?_take_of_lt hi).trans hr)
  rw [historyAfter_eq_learn, hl]
  exact (hs.sublist (List.take_sublist ..)).learn_learnAll hmem

/-- Every step keeps the history behind the records that were dispatched. -/
lemma Seeded.learnt_step (hs : Seeded d h first log) (hl : s.Learnt d h log)
    (hstep : Replay.Step d log s s') : s'.Learnt d h log := by
  obtain ⟨hi, hr⟩ := hstep
  next i r =>
  rcases Nat.lt_or_eq_of_le hi with hagain | hnext
  · have hmax : max s.dispatched (i + 1) = s.dispatched := Nat.max_eq_left hagain
    rw [hs.historyAfter_eq hl hagain hr, hmax]
    exact hl
  · have hmax : max s.dispatched (i + 1) = s.dispatched + 1 := by omega
    have htake : log.take (s.dispatched + 1) = log.take s.dispatched ++ [r] := by
      rw [List.take_add_one, ← hnext, hr]
      rfl
    rw [hmax, historyAfter_eq_learn, Replay.Learnt, htake, learnAll_append, ← hl]
    rfl

/-- A log that is replayed from its first record on, in any order that never goes past the record
behind those that were dispatched, over a history that begins with one layout for each table: every
row is read with the last layout change of its table before it in the log, or the first layout,
whatever the history has learnt by then, and a record that was dispatched before leaves the history
as it is. -/
theorem dispatch_replayed (hs : Seeded d h first log)
    (hrun : Relation.ReflTransGen (Replay.Step d log) ⟨0, h⟩ s) :
    (∀ i c, i ≤ s.dispatched → log[i]? = some (.change c) → d.captures c.tableId = true →
      d.dispatch s.history (.change c) =
        (c.decodeWith (layoutBehind (first c.tableId) (log.take i) c.tableId)).map
          fun e => (.event e, s.history)) ∧
      ∀ i r, i < s.dispatched → log[i]? = some r → d.historyAfter s.history r = s.history := by
  have hl : s.Learnt d h log := by
    induction hrun with
    | refl => rfl
    | tail _ hstep ih => exact hs.learnt_step ih hstep
  refine ⟨fun i c hi hc hcaptured => ?_, fun i r => hs.historyAfter_eq hl⟩
  obtain ⟨hlt, hget⟩ := List.getElem?_eq_some_iff.mp hc
  have hrest : log.drop i = .change c :: log.drop (i + 1) := by
    rw [List.drop_eq_getElem_cons hlt, hget]
  have hsplit : log = log.take i ++ .change c :: log.drop (i + 1) := by
    rw [← hrest, List.take_append_drop]
  obtain ⟨j, hj⟩ := Nat.exists_eq_add_of_le hi
  have htake : log.take s.dispatched = log.take i ++ (log.drop i).take j := by
    rw [hj, List.take_add]
  have hlearnt : ((log.drop i).take j).Sublist (.change c :: log.drop (i + 1)) :=
    hrest ▸ List.take_sublist ..
  have hpart := hsplit ▸ hs
  have hread := decode_learnAll hcaptured (hs.records _ hcaptured) (hs.tables _ hcaptured)
    (hs.normal _ hcaptured) (hpart.reached _ hcaptured) hpart.ordered hlearnt
  rw [dispatch, if_pos hcaptured, ← hread, ← htake, ← hl]

/-- An order from before the notes. -/
def plainOrder : RowChange :=
  .insert (.binlog "log.1" 100) ⟨"shop", "orders"⟩ [.number (.int 1), .number (.int 10)]

/-- The layout that the history begins with once more, an order, the notes and an order with one. -/
def notedLog : List LogRecord :=
  [.schemaChange Checkpoint.plainOrders, .change plainOrder,
    .schemaChange Checkpoint.notedOrders, .change (Checkpoint.notedOrder 160 2)]

lemma seeded_notedLog :
    Seeded ⟨[⟨"shop", "orders"⟩]⟩ (SchemaHistory.empty.append Checkpoint.plainOrders)
      (fun _ => Checkpoint.plainOrders) notedLog where
  ordered := by
    refine ⟨fun r hr => ?_, by decide⟩
    simp only [notedLog, List.mem_cons, List.not_mem_nil, or_false] at hr
    rcases hr with rfl | rfl | rfl | rfl <;> trivial
  records t ht := by
    obtain rfl : t = ⟨"shop", "orders"⟩ := by simpa [captures] using ht
    exact SchemaHistory.records_append_only (.inl rfl)
  tables t ht := by
    obtain rfl : t = ⟨"shop", "orders"⟩ := by simpa [captures] using ht
    rfl
  normal _ _ := trivial
  reached _ _ := by decide

/-- An order from before the notes is read without one when the log is replayed behind them. -/
theorem dispatch_replayed_notes :
    let d : Dispatcher := ⟨[⟨"shop", "orders"⟩]⟩
    ∃ s, Relation.ReflTransGen (Replay.Step d notedLog)
        ⟨0, SchemaHistory.empty.append Checkpoint.plainOrders⟩ s ∧
      s.history.records ⟨"shop", "orders"⟩ = [Checkpoint.plainOrders, Checkpoint.notedOrders] ∧
      d.dispatch s.history (.change plainOrder) =
        (plainOrder.decodeWith Checkpoint.plainOrders).map fun e => (.event e, s.history) := by
  intro d
  let h₀ := SchemaHistory.empty.append Checkpoint.plainOrders
  have hthird : Relation.ReflTransGen (Replay.Step d notedLog) ⟨0, h₀⟩ ⟨3, _⟩ :=
    .tail (.tail (.tail .refl (.dispatch (i := 0) (by decide) rfl))
      (.dispatch (i := 1) (by decide) rfl)) (.dispatch (i := 2) (by decide) rfl)
  refine ⟨_, hthird, by decide +kernel, ?_⟩
  exact (dispatch_replayed seeded_notedLog hthird).1 1 plainOrder (by decide) rfl (by decide)

end Dispatcher
end Changefeed
