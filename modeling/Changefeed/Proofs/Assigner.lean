import Changefeed.Assigner
import Changefeed.Proofs.Offset
import Changefeed.Proofs.Schema.History

/-!
# What has been handed out

Every snapshot split waits, is being read or is finished, and it is only one of the three: handing
one out and taking a report move a split from one place to the next.  The incremental split comes
when nothing waits and nothing is being read, so all of them are finished then.

It starts at the earliest of their watermarks, which every other one has reached, and comes with a
layout that holds from there on.
-/

namespace Changefeed

lemma SnapshotSplit.scope_ne (s : SnapshotSplit) :
    s.splitId.scope ≠ SplitId.incrementalScope := by
  intro h
  have hpoint : '.' ∈ s.tableId.text.toList := by
    simp [TableId.text, TableId.chars]
  rw [show s.tableId.text = SplitId.incrementalScope from h] at hpoint
  revert hpoint
  decide

namespace SplitAssigner

variable {a a' : SplitAssigner} {splits done : List SnapshotSplit} {s : SnapshotSplit}

/-! ## Each split in one place -/

/-- All splits are accounted for, those that are finished among them. -/
structure Accounts (a : SplitAssigner) (splits done : List SnapshotSplit) : Prop where
  places : (a.pending ++ (a.inFlight.values ++ done)).Perm splits
  named : ∀ e ∈ a.inFlight, e.1 = e.2.splitId

lemma accounts_ofSplits (splits : List SnapshotSplit) : (ofSplits splits).Accounts splits [] where
  places := by simp [ofSplits, SortedMap.values]
  named := by simp [ofSplits]

/-- What is handed out is the first split that waits, or the incremental one when there is no
other. -/
lemma next_cases {h : SchemaHistory} {split : Split} (hnext : a.next h = (some split, a')) :
    (∃ s rest, a.pending = s :: rest ∧ split = .snapshot s ∧
        a' = { a with pending := rest, inFlight := a.inFlight.insert s.splitId s }) ∨
      (a.pending = [] ∧ a.inFlight = [] ∧ split = .incremental (a.incremental h) ∧
        a' = { a with incrementalAssigned := true }) := by
  unfold next at hnext
  split at hnext
  · next s rest hpending =>
    obtain ⟨hsplit, rfl⟩ := Prod.mk.inj hnext
    exact .inl ⟨s, rest, hpending, (Option.some.inj hsplit).symm, rfl⟩
  · next hpending =>
    split at hnext
    · cases hnext
    · next hready =>
      obtain ⟨hsplit, rfl⟩ := Prod.mk.inj hnext
      have hflight : a.inFlight = [] := by
        simp only [snapshotsDone, hpending, Bool.or_eq_true, not_or] at hready
        simpa using hready.2
      exact .inr ⟨hpending, hflight, (Option.some.inj hsplit).symm, rfl⟩

lemma next_incremental {h : SchemaHistory} {i : IncrementalSplit}
    (hnext : a.next h = (some (.incremental i), a')) :
    a.pending = [] ∧ a.inFlight = [] ∧ i = a.incremental h := by
  rcases next_cases hnext with ⟨s, rest, -, hsplit, -⟩ | ⟨hpending, hflight, hsplit, -⟩
  · cases hsplit
  · exact ⟨hpending, hflight, Split.incremental.inj hsplit⟩

lemma next_none {h : SchemaHistory} (hnext : a.next h = (none, a')) : a' = a := by
  unfold next at hnext
  split at hnext
  · cases hnext
  · split at hnext
    · exact (Prod.mk.inj hnext).2.symm
    · cases hnext

lemma next_incremental_iff {h : SchemaHistory} :
    (∃ i a', a.next h = (some (.incremental i), a')) ↔
      a.snapshotsDone = true ∧ a.incrementalAssigned = false := by
  unfold next
  cases hpending : a.pending with
  | cons s rest => simp [snapshotsDone, hpending]
  | nil =>
    cases hdone : a.snapshotsDone <;> cases hassigned : a.incrementalAssigned <;> simp

/-- A split that waits is not being read. -/
lemma Accounts.not_in_flight (h : a.Accounts splits done)
    (hids : (splits.map SnapshotSplit.splitId).Nodup) (hs : s ∈ a.pending) :
    a.inFlight.find? s.splitId = none := by
  cases hfind : a.inFlight.find? s.splitId with
  | none => rfl
  | some s' =>
    have hmem : (s.splitId, s') ∈ a.inFlight :=
      (SortedMap.perm_erase hfind).mem_iff.mpr (.head _)
    have hvalue : s' ∈ a.inFlight.values := List.mem_map_of_mem hmem
    have hid : s.splitId = s'.splitId := h.named _ hmem
    have hnodup := ((h.places.map SnapshotSplit.splitId).nodup_iff).mpr hids
    rw [List.map_append, List.nodup_append] at hnodup
    have hother : s'.splitId ∈ (a.inFlight.values ++ done).map SnapshotSplit.splitId :=
      List.mem_map_of_mem (List.mem_append_left _ hvalue)
    exact absurd hid (hnodup.2.2 _ (List.mem_map_of_mem hs) _ hother)

/-- Handing out a split leaves every split accounted for. -/
lemma Accounts.next (h : a.Accounts splits done)
    (hids : (splits.map SnapshotSplit.splitId).Nodup) {history : SchemaHistory} {split : Split}
    (hnext : a.next history = (some split, a')) : a'.Accounts splits done := by
  rcases next_cases hnext with ⟨s, rest, hpending, -, rfl⟩ | ⟨-, -, -, rfl⟩
  · have hnew := h.not_in_flight hids (s := s) (hpending ▸ .head _)
    have hinsert := SortedMap.perm_insert hnew s
    refine ⟨?_, fun e he => ?_⟩
    · have hvalues :
          (SortedMap.insert a.inFlight s.splitId s).values.Perm (s :: a.inFlight.values) :=
        hinsert.map Prod.snd
      have hplaces := h.places
      rw [hpending] at hplaces
      exact ((hvalues.append_right done).append_left rest).trans
        (List.perm_middle.trans hplaces)
    · rcases List.mem_cons.mp (hinsert.mem_iff.mp he) with rfl | he
      · rfl
      · exact h.named e he
  · exact ⟨h.places, h.named⟩

lemma complete_ok (hs : a.inFlight.find? s.splitId = some s) (w : Offset) :
    a.complete ⟨s.splitId, some w⟩ =
      .ok { a with
        inFlight := a.inFlight.erase s.splitId, finished := a.finished ++ [.ofSplit s w] } := by
  unfold complete
  rw [if_neg s.scope_ne]
  dsimp only
  rw [hs]
  rfl

lemma complete_of_not_found {id : SplitId} (hscope : id.scope ≠ SplitId.incrementalScope)
    (hid : a.inFlight.find? id = none) (w : Offset) :
    a.complete ⟨id, some w⟩ = .error (.invalidState (.unassignedCompletion id.text)) := by
  unfold complete
  rw [if_neg hscope]
  dsimp only
  rw [hid]

/-- Taking a report leaves every split accounted for. -/
lemma Accounts.complete (h : a.Accounts splits done) (hs : a.inFlight.find? s.splitId = some s)
    (finished : List FinishedSplit) :
    ({ a with inFlight := a.inFlight.erase s.splitId, finished } : SplitAssigner).Accounts splits
      (done ++ [s]) where
  places := by
    have hvalues : a.inFlight.values.Perm (s :: (a.inFlight.erase s.splitId).values) :=
      (SortedMap.perm_erase hs).map Prod.snd
    refine List.Perm.trans (List.Perm.append_left a.pending ?_) h.places
    refine List.Perm.trans ?_ (hvalues.append_right done).symm
    rw [← List.append_assoc]
    exact List.perm_append_singleton s _
  named e he := h.named e ((SortedMap.erase_sublist ..).subset he)

/-- Whatever position it names, the report of a split that is being read finishes the split. -/
lemma Accounts.of_complete (h : a.Accounts splits done) (hs : a.inFlight.find? s.splitId = some s)
    {c : SplitCompletion} (hid : c.splitId = s.splitId) (hcomplete : a.complete c = .ok a') :
    a'.Accounts splits (done ++ [s]) := by
  unfold SplitAssigner.complete at hcomplete
  rw [hid, if_neg s.scope_ne, hs] at hcomplete
  obtain rfl := Except.ok.inj hcomplete
  exact h.complete hs _

lemma Accounts.fail (h : a.Accounts splits done) (hs : a.inFlight.find? s.splitId = some s) :
    (a.fail (.snapshot s)).Accounts splits done where
  places := by
    have hvalues : a.inFlight.values.Perm (s :: (a.inFlight.erase s.splitId).values) :=
      (SortedMap.perm_erase hs).map Prod.snd
    refine List.Perm.trans ?_ h.places
    rw [SplitAssigner.fail, List.append_assoc, List.singleton_append]
    exact ((hvalues.append_right done).append_left a.pending).symm
  named e he := h.named e ((SortedMap.erase_sublist ..).subset he)

lemma Accounts.all_done (h : a.Accounts splits done) (hpending : a.pending = [])
    (hflight : a.inFlight = []) : done.Perm splits := by
  have hplaces := h.places
  rwa [hpending, hflight] at hplaces

/-! ## The start of the incremental split -/

/-- The earliest of some positions is one of them, and all of them have reached it. -/
lemma earliest_reached {timeline : Offset → Prop} (hnormal : ∀ o, timeline o → o.Normal)
    (hcomparable : ∀ o o', timeline o → timeline o' → o.Comparable o') {sofar : Offset}
    {os : List Offset} (hall : ∀ o ∈ sofar :: os, timeline o) :
    earliest sofar os ∈ sofar :: os ∧
      ∀ o ∈ sofar :: os, o.reached (earliest sofar os) = true := by
  induction os generalizing sofar with
  | nil =>
    refine ⟨.head _, fun o ho => ?_⟩
    rw [List.mem_singleton.mp ho]
    exact Offset.reached_iff.mpr (.inl rfl)
  | cons o os ih =>
    have ho : timeline o := hall o (by simp)
    have hsofar : timeline sofar := hall sofar (by simp)
    rw [earliest]
    generalize hkept : (if o.before sofar then o else sofar) = kept
    have hone : kept = o ∧ sofar.reached kept = true ∨ kept = sofar ∧ o.reached kept = true := by
      rw [← hkept]
      split
      · next hbefore =>
        have hafter := (Offset.after_iff_before (hnormal o ho) (hnormal sofar hsofar)).mpr hbefore
        exact .inl ⟨rfl, Offset.reached_iff.mpr (.inr hafter)⟩
      · next hnot =>
        refine .inr ⟨rfl, Offset.reached_iff.mpr ?_⟩
        exact (hcomparable o sofar ho hsofar).cases.resolve_left hnot
    have hlisted : timeline kept := by rcases hone with ⟨rfl, -⟩ | ⟨rfl, -⟩ <;> assumption
    have hrest : ∀ x ∈ kept :: os, timeline x := by
      intro x hx
      rcases List.mem_cons.mp hx with rfl | hx
      · exact hlisted
      · exact hall x (by simp [hx])
    obtain ⟨hmem, hreached⟩ := ih hrest
    have hearliest := hnormal _ (hrest _ hmem)
    have hthrough : ∀ x, timeline x → x.reached kept = true →
        x.reached (earliest kept os) = true := fun x hx hxk =>
      Offset.reached_trans (hnormal x hx) (hnormal kept hlisted) hearliest hxk
        (hreached kept (.head _))
    refine ⟨?_, fun x hx => ?_⟩
    · rcases List.mem_cons.mp hmem with heq | hmem
      · rw [heq]
        rcases hone with ⟨rfl, -⟩ | ⟨rfl, -⟩ <;> simp
      · simp [hmem]
    · rcases List.mem_cons.mp hx with rfl | hx
      · rcases hone with ⟨-, hx⟩ | ⟨rfl, -⟩
        · exact hthrough _ hsofar hx
        · exact hreached _ (.head _)
      · rcases List.mem_cons.mp hx with rfl | hx
        · rcases hone with ⟨rfl, -⟩ | ⟨-, hx⟩
          · exact hreached _ (.head _)
          · exact hthrough _ ho hx
        · exact hreached x (.tail _ hx)

/-- The earliest of some positions is one of them, and none of them is strictly before it, also
where some of them are not comparable. -/
lemma earliest_minimal {sofar : Offset} {os : List Offset}
    (hnormal : ∀ o ∈ sofar :: os, o.Normal) :
    earliest sofar os ∈ sofar :: os ∧
      (earliest sofar os = sofar ∨ (earliest sofar os).before sofar = true) ∧
      ∀ o ∈ sofar :: os, o.before (earliest sofar os) = false := by
  induction os generalizing sofar with
  | nil =>
    refine ⟨.head _, .inl rfl, fun o ho => ?_⟩
    rw [List.mem_singleton.mp ho]
    exact Offset.not_before_self _
  | cons o os ih =>
    have hsofar : sofar.Normal := hnormal sofar (by simp)
    have ho : o.Normal := hnormal o (by simp)
    rw [earliest]
    by_cases hbefore : o.before sofar = true
    · rw [if_pos hbefore]
      obtain ⟨hmem, hle, hleast⟩ := ih fun x hx => hnormal x (.tail _ hx)
      have hearliest : (earliest o os).Normal := hnormal _ (.tail _ hmem)
      have hlt : (earliest o os).before sofar = true := by
        rcases hle with heq | hlt
        · rw [heq]
          exact hbefore
        · exact Offset.before_trans hearliest ho hsofar hlt hbefore
      refine ⟨.tail _ hmem, .inr hlt, fun x hx => ?_⟩
      rcases List.mem_cons.mp hx with rfl | hx
      · by_contra hloop
        have hself := Offset.before_trans hsofar hearliest hsofar (by simpa using hloop) hlt
        simp at hself
      · exact hleast x hx
    · rw [if_neg hbefore]
      have hrest : ∀ x ∈ sofar :: os, x.Normal := by
        intro x hx
        rcases List.mem_cons.mp hx with rfl | hx
        · exact hsofar
        · exact hnormal x (.tail _ (.tail _ hx))
      obtain ⟨hmem, hle, hleast⟩ := ih hrest
      have hlisted : earliest sofar os ∈ sofar :: o :: os := by
        rcases List.mem_cons.mp hmem with heq | hmem
        · rw [heq]
          exact .head _
        · exact .tail _ (.tail _ hmem)
      have hearliest : (earliest sofar os).Normal := hnormal _ hlisted
      refine ⟨hlisted, hle, fun x hx => ?_⟩
      rcases List.mem_cons.mp hx with rfl | hx
      · exact hleast x (.head _)
      rcases List.mem_cons.mp hx with rfl | hx
      · -- what is dropped is not before what is kept, and that is not before the earliest one
        by_contra hless
        have hless : x.before (earliest sofar os) = true := by simpa using hless
        rcases hle with heq | hlt
        · exact hbefore (heq ▸ hless)
        · exact hbefore (Offset.before_trans ho hearliest hsofar hless hlt)
      · exact hleast x (.tail _ hx)

lemma start_eq_earliest (hne : a.finished ≠ []) :
    ∃ first rest, a.finished.map FinishedSplit.watermark = first :: rest ∧
      a.start = earliest first rest := by
  obtain ⟨first, rest, hfinished⟩ := List.exists_cons_of_ne_nil hne
  refine ⟨first.watermark, rest.map FinishedSplit.watermark, ?_, ?_⟩
  · rw [hfinished]
    rfl
  · rw [start, hfinished]
    rfl

/-- The start is one of the watermarks, and all of them have reached it. -/
lemma start_reached {timeline : Offset → Prop} (hnormal : ∀ o, timeline o → o.Normal)
    (hcomparable : ∀ o o', timeline o → timeline o' → o.Comparable o')
    (hall : ∀ f ∈ a.finished, timeline f.watermark) (hne : a.finished ≠ []) :
    (∃ f ∈ a.finished, f.watermark = a.start) ∧
      ∀ f ∈ a.finished, f.watermark.reached a.start = true := by
  obtain ⟨first, rest, hmarks, hstart⟩ := start_eq_earliest hne
  have hlisted : ∀ o ∈ first :: rest, timeline o := by
    intro o ho
    rw [← hmarks] at ho
    obtain ⟨f, hf, rfl⟩ := List.mem_map.mp ho
    exact hall f hf
  obtain ⟨hmem, hreached⟩ := earliest_reached hnormal hcomparable hlisted
  rw [← hstart, ← hmarks] at hmem
  refine ⟨List.mem_map.mp hmem, fun f hf => ?_⟩
  rw [hstart]
  exact hreached _ (hmarks ▸ List.mem_map_of_mem hf)

/-- The start is one of the watermarks, and none of them is strictly before it. -/
lemma start_minimal (hnormal : ∀ f ∈ a.finished, f.watermark.Normal) (hne : a.finished ≠ []) :
    (∃ f ∈ a.finished, f.watermark = a.start) ∧
      ∀ f ∈ a.finished, f.watermark.before a.start = false := by
  obtain ⟨first, rest, hmarks, hstart⟩ := start_eq_earliest hne
  have hlisted : ∀ o ∈ first :: rest, o.Normal := by
    intro o ho
    rw [← hmarks] at ho
    obtain ⟨f, hf, rfl⟩ := List.mem_map.mp ho
    exact hnormal f hf
  obtain ⟨hmem, -, hleast⟩ := earliest_minimal hlisted
  rw [← hstart, ← hmarks] at hmem
  refine ⟨List.mem_map.mp hmem, fun f hf => ?_⟩
  rw [hstart]
  exact hleast _ (hmarks ▸ List.mem_map_of_mem hf)

/-! ## Its layouts -/

/-- The layout of a table counted from a position on, where it does not hold there already. -/
def layoutFrom (layout : SchemaRecord) (start : Offset) : SchemaRecord :=
  if start.reached layout.position then layout else { layout with position := start }

@[simp] lemma layoutFrom_tableId (layout : SchemaRecord) (start : Offset) :
    (layoutFrom layout start).tableId = layout.tableId := by
  unfold layoutFrom
  split <;> rfl

@[simp] lemma layoutFrom_columns (layout : SchemaRecord) (start : Offset) :
    (layoutFrom layout start).columns = layout.columns := by
  unfold layoutFrom
  split <;> rfl

lemma layoutAt_only {h : SchemaHistory} {layout : SchemaRecord}
    (hh : h.records layout.tableId = [layout]) (start : Offset) :
    layoutAt h layout.tableId start = some (layoutFrom layout start) := by
  unfold layoutAt layoutFrom SchemaHistory.schemaAt? SchemaHistory.earliest
  rw [hh]
  cases hreached : start.reached layout.position with
  | true => simp [hreached]
  | false => simp [hreached]

lemma incremental_only {h : SchemaHistory} {layout : SchemaRecord}
    (htables : a.tables = [layout.tableId]) (hh : h.records layout.tableId = [layout]) :
    a.incremental h =
      { splitIndex := a.incrementalIndex
        tableIds := [layout.tableId]
        startingOffset := a.start
        historyRefs := [(layout.tableId, (layoutFrom layout a.start).toBlob)]
        finishedSplits := a.finished } := by
  simp [incremental, htables, layoutAt_only hh, SortedMap.insert]

end SplitAssigner
end Changefeed
