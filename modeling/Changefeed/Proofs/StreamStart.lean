import Changefeed.Proofs.Handouts

/-!
# Where the incremental split starts

Callers may ask for splits and report on them in any order, a split may fail and be handed out
again, and what is reported need not make sense: a split may be reported failed that waits or was
completed, and a report may name a split that nobody reads.  `Course` keeps, beside the assigner,
the watermarks that it took, which is the account that its callers have of the finished splits.

Whatever the assigner waits for, reads or has finished is one of its splits, so the splits that it
knows as finished follow from that account (`Course.Keeps`).  The incremental split is made of them.
Which of the watermarks it starts at is settled by their order alone where they are comparable, and
no watermark is before it in any case.
-/

namespace Changefeed
namespace SplitAssigner

variable {splits : List SnapshotSplit} {a a' : SplitAssigner} {c : SplitCompletion}

/-- A report that is taken is one of an incremental split, which changes nothing, or one of a
snapshot split that is being read. -/
lemma complete_cases (h : a.complete c = .ok a') :
    (c.splitId.scope = SplitId.incrementalScope ∧ a' = a) ∨
      c.splitId.scope ≠ SplitId.incrementalScope ∧
        ∃ s, a.inFlight.find? c.splitId = some s ∧
          a' = { a with
            inFlight := a.inFlight.erase c.splitId
            finished := a.finished ++ (c.finalOffset.map (FinishedSplit.ofSplit s)).toList } := by
  unfold complete at h
  by_cases hscope : c.splitId.scope = SplitId.incrementalScope
  · rw [if_pos hscope] at h
    exact .inl ⟨hscope, (Except.ok.inj h).symm⟩
  · rw [if_neg hscope] at h
    refine .inr ⟨hscope, ?_⟩
    cases hfind : a.inFlight.find? c.splitId with
    | none =>
      rw [hfind] at h
      cases h
    | some s =>
      rw [hfind] at h
      exact ⟨s, rfl, (Except.ok.inj h).symm⟩

/-! ## Courses -/

/-- What an assigner is asked and told. -/
inductive Step where
  | next (h : SchemaHistory)
  | complete (c : SplitCompletion)
  | fail (split : Split)

/-- An assigner with the watermarks that it took from reports, in order. -/
structure Course where
  assigner : SplitAssigner
  marks : List (SplitId × Offset) := []

namespace Course

/-- The watermark of a report, if it is one of a snapshot split and has one. -/
def markOf (c : SplitCompletion) : List (SplitId × Offset) :=
  if c.splitId.scope = SplitId.incrementalScope then []
  else (c.finalOffset.map (c.splitId, ·)).toList

/-- What a step leaves. -/
def after (x : Course) : Step → Course
  | .next h => { x with assigner := (x.assigner.next h).2 }
  | .complete c =>
    match x.assigner.complete c with
    | .ok a => { assigner := a, marks := x.marks ++ markOf c }
    | .error _ => x
  | .fail split => { x with assigner := x.assigner.fail split }

/-- A snapshot split that is reported failed is one of the splits. -/
def Allows (splits : List SnapshotSplit) : Step → Prop
  | .fail (.snapshot s) => s ∈ splits
  | .fail (.incremental _) | .next _ | .complete _ => True

/-- What steps have made of an assigner of some snapshot splits. -/
inductive Of (splits : List SnapshotSplit) : Course → Prop
  | start (index : UInt32) :
      Of splits { assigner := { ofSplits splits with incrementalIndex := index } }
  | step {x : Course} {s : Step} : Of splits x → Allows splits s → Of splits (x.after s)

/-- The finished split that a watermark belongs to. -/
def finishedOf? (splits : List SnapshotSplit) (m : SplitId × Offset) : Option FinishedSplit :=
  (splits.find? (·.splitId = m.1)).map (FinishedSplit.ofSplit · m.2)

lemma finishedOf?_eq (hids : (splits.map SnapshotSplit.splitId).Nodup) {s : SnapshotSplit}
    (hs : s ∈ splits) (w : Offset) : finishedOf? splits (s.splitId, w) = some (.ofSplit s w) := by
  have hfind : splits.find? (·.splitId = s.splitId) = some s := by
    cases hfound : splits.find? (·.splitId = s.splitId) with
    | none => exact absurd (List.find?_eq_none.mp hfound s hs) (by simp)
    | some s' =>
      have hid : s'.splitId = s.splitId := by simpa using List.find?_some hfound
      rw [List.inj_on_of_nodup_map hids (List.mem_of_find?_eq_some hfound) hs hid]
  rw [finishedOf?, hfind]
  rfl

/-- The assigner has to do with its splits only, and the splits that it knows as finished are those
whose watermarks it took. -/
structure Keeps (splits : List SnapshotSplit) (x : Course) : Prop where
  waiting : ∀ s ∈ x.assigner.pending, s ∈ splits
  reading : ∀ e ∈ x.assigner.inFlight, e.2 ∈ splits ∧ e.1 = e.2.splitId
  finished : x.assigner.finished = x.marks.filterMap (finishedOf? splits)
  tables : x.assigner.tables = SortedMap.keySet (splits.map SnapshotSplit.tableId)

variable {x : Course}

lemma keeps_start (splits : List SnapshotSplit) (index : UInt32) :
    Keeps splits { assigner := { ofSplits splits with incrementalIndex := index } } where
  waiting := fun _ hs => hs
  reading := fun _ he => absurd he List.not_mem_nil
  finished := rfl
  tables := rfl

/-- Handing out a split finishes none. -/
lemma Keeps.next (hx : x.Keeps splits) (h : SchemaHistory) :
    (x.after (.next h)).Keeps splits := by
  rw [after]
  rcases hnext : x.assigner.next h with ⟨_ | split, a⟩
  · rw [next_none hnext]
    exact hx
  · dsimp only
    rcases next_cases hnext with ⟨s, rest, hpending, -, rfl⟩ | ⟨-, -, -, rfl⟩
    · refine ⟨fun s' hs' => hx.waiting s' ?_, fun e he => ?_, hx.finished, hx.tables⟩
      · rw [hpending]
        exact .tail _ hs'
      · rcases SortedMap.mem_insert he with rfl | hold
        · exact ⟨hx.waiting s (by rw [hpending]; exact .head _), rfl⟩
        · exact hx.reading e hold
    · exact ⟨hx.waiting, hx.reading, hx.finished, hx.tables⟩

/-- Taking a report finishes the split that it names, at the watermark that it has. -/
lemma Keeps.complete (hx : x.Keeps splits) (hids : (splits.map SnapshotSplit.splitId).Nodup)
    (c : SplitCompletion) : (x.after (.complete c)).Keeps splits := by
  rw [after]
  cases hcomplete : x.assigner.complete c with
  | error f => exact hx
  | ok a =>
    rcases complete_cases hcomplete with ⟨hscope, rfl⟩ | ⟨hscope, s, hfind, rfl⟩
    · refine ⟨hx.waiting, hx.reading, ?_, hx.tables⟩
      rw [markOf, if_pos hscope, List.append_nil]
      exact hx.finished
    · obtain ⟨hs, hid⟩ := hx.reading (c.splitId, s)
        ((SortedMap.perm_erase hfind).mem_iff.mpr (.head _))
      refine ⟨hx.waiting, fun e he => hx.reading e ?_, ?_, hx.tables⟩
      · exact (SortedMap.erase_sublist ..).subset he
      · have hmark : (markOf c).filterMap (finishedOf? splits) =
            (c.finalOffset.map (FinishedSplit.ofSplit s)).toList := by
          rw [markOf, if_neg hscope, show c.splitId = s.splitId from hid]
          cases c.finalOffset with
          | none => rfl
          | some w => simp [finishedOf?_eq hids hs w]
        rw [List.filterMap_append, hmark, ← hx.finished]

/-- A split that fails is one of the splits, and none is finished by that. -/
lemma Keeps.fail (hx : x.Keeps splits) {split : Split} (hallowed : Allows splits (.fail split)) :
    (x.after (.fail split)).Keeps splits := by
  cases split with
  | incremental i => exact ⟨hx.waiting, hx.reading, hx.finished, hx.tables⟩
  | snapshot s =>
    refine ⟨fun s' hs' => ?_, fun e he => hx.reading e ?_, hx.finished, hx.tables⟩
    · rcases List.mem_append.mp hs' with hold | hnew
      · exact hx.waiting s' hold
      · rw [List.mem_singleton.mp hnew]
        exact hallowed
    · exact (SortedMap.erase_sublist ..).subset he

lemma Of.keeps (hx : Of splits x) (hids : (splits.map SnapshotSplit.splitId).Nodup) :
    x.Keeps splits := by
  induction hx with
  | start index => exact keeps_start splits index
  | @step x s _ hallowed ih =>
    cases s with
    | next h => exact ih.next h
    | complete c => exact ih.complete hids c
    | fail split => exact ih.fail hallowed

/-- When each split was completed once with its watermark, in whatever order, the finished splits
are the splits with their watermarks. -/
lemma Keeps.finished_perm (hx : x.Keeps splits)
    (hids : (splits.map SnapshotSplit.splitId).Nodup) {mark : SnapshotSplit → Offset}
    (hmarks : x.marks.Perm (splits.map fun s => (s.splitId, mark s))) :
    x.assigner.finished.Perm (splits.map fun s => .ofSplit s (mark s)) := by
  have hentries : (splits.map fun s => (s.splitId, mark s)).filterMap (finishedOf? splits) =
      splits.map fun s => .ofSplit s (mark s) := by
    rw [List.filterMap_map, ← List.filterMap_eq_map]
    refine List.filterMap_congr fun s hs => ?_
    exact finishedOf?_eq hids hs (mark s)
  rw [hx.finished, ← hentries]
  exact hmarks.filterMap _

/-! ## The start -/

section Start

variable {mark : SnapshotSplit → Offset} (hnormal : ∀ s ∈ splits, (mark s).Normal)
  (hfinished : x.assigner.finished.Perm (splits.map fun s => .ofSplit s (mark s)))
  (hne : splits ≠ [])

include hfinished in
lemma mem_finished_iff (f : FinishedSplit) :
    f ∈ x.assigner.finished ↔ ∃ s ∈ splits, .ofSplit s (mark s) = f := by
  rw [hfinished.mem_iff, List.mem_map]

include hfinished hne in
lemma finished_ne_nil : x.assigner.finished ≠ [] := by
  intro hnil
  rw [hnil] at hfinished
  exact hne (List.map_eq_nil_iff.mp hfinished.nil_eq.symm)

include hnormal hfinished hne in
/-- The start is the watermark of a split, and that of no split is before it. -/
lemma start_least :
    (∃ s ∈ splits, mark s = x.assigner.start) ∧
      ∀ s ∈ splits, (mark s).before x.assigner.start = false := by
  have hlisted : ∀ f ∈ x.assigner.finished, f.watermark.Normal := by
    intro f hf
    obtain ⟨s, hs, rfl⟩ := (mem_finished_iff hfinished f).mp hf
    exact hnormal s hs
  obtain ⟨⟨f, hf, hstart⟩, hleast⟩ := start_minimal hlisted (finished_ne_nil hfinished hne)
  obtain ⟨s, hs, rfl⟩ := (mem_finished_iff hfinished f).mp hf
  refine ⟨⟨s, hs, hstart⟩, fun s' hs' => ?_⟩
  exact hleast _ ((mem_finished_iff hfinished _).mpr ⟨s', hs', rfl⟩)

include hnormal hfinished hne in
/-- Where the watermarks are comparable, the start is the one that all of them have reached. -/
lemma start_eq_iff
    (hcomparable : ∀ s ∈ splits, ∀ s' ∈ splits, (mark s).Comparable (mark s')) (o : Offset) :
    x.assigner.start = o ↔
      (∃ s ∈ splits, mark s = o) ∧ ∀ s ∈ splits, (mark s).reached o = true := by
  obtain ⟨⟨s, hs, hstart⟩, -⟩ := start_least hnormal hfinished hne
  have hreached : ∀ s ∈ splits, (mark s).reached x.assigner.start = true := by
    have hnormal' : ∀ o, (∃ s ∈ splits, mark s = o) → o.Normal := by
      rintro o ⟨s, hs, rfl⟩
      exact hnormal s hs
    have hcomparable' : ∀ o o', (∃ s ∈ splits, mark s = o) → (∃ s ∈ splits, mark s = o') →
        o.Comparable o' := by
      rintro o o' ⟨s, hs, rfl⟩ ⟨s', hs', rfl⟩
      exact hcomparable s hs s' hs'
    have hmarks : ∀ f ∈ x.assigner.finished, ∃ s ∈ splits, mark s = f.watermark := by
      intro f hf
      obtain ⟨s, hs, rfl⟩ := (mem_finished_iff hfinished f).mp hf
      exact ⟨s, hs, rfl⟩
    obtain ⟨-, hall⟩ :=
      start_reached hnormal' hcomparable' hmarks (finished_ne_nil hfinished hne)
    intro s hs
    exact hall _ ((mem_finished_iff hfinished _).mpr ⟨s, hs, rfl⟩)
  constructor
  · rintro rfl
    exact ⟨⟨s, hs, hstart⟩, hreached⟩
  · rintro ⟨⟨s', hs', rfl⟩, hall⟩
    -- each of the two has reached the other
    rw [← hstart]
    refine Offset.reached_antisymm (hnormal s hs) (hnormal s' hs') (hall s hs) ?_
    rw [hstart]
    exact hreached s' hs'

end Start

/-- Whatever was handed out, failed and was reported before, in whatever order: when each snapshot
split was completed once with its watermark and none waits or is being read, the incremental split
is handed out.  It carries each snapshot split once, with the watermark it was completed at, and the
distinct tables of the splits in order.  Its start is one of the watermarks, and no watermark is
strictly before it.  Where the watermarks are comparable it is the one that all of them have
reached, whatever the order was in which they were reported. -/
theorem starts_at_earliest (hids : (splits.map SnapshotSplit.splitId).Nodup)
    (hx : Of splits x) {mark : SnapshotSplit → Offset} (hnormal : ∀ s ∈ splits, (mark s).Normal)
    (hmarks : x.marks.Perm (splits.map fun s => (s.splitId, mark s)))
    (hdone : x.assigner.snapshotsDone = true) (hfree : x.assigner.incrementalAssigned = false)
    (h : SchemaHistory) :
    ∃ i a, x.assigner.next h = (some (.incremental i), a) ∧
      i.finishedSplits.Perm
        (splits.map fun s => ⟨s.tableId, s.keyColumn, s.keyRange, mark s⟩) ∧
      (i.tableIds.Pairwise fun t u => compare t u = .lt) ∧
      (∀ t, t ∈ i.tableIds ↔ ∃ s ∈ splits, s.tableId = t) ∧
      (splits ≠ [] →
        (∃ s ∈ splits, mark s = i.startingOffset) ∧
        (∀ s ∈ splits, (mark s).before i.startingOffset = false) ∧
        ((∀ s ∈ splits, ∀ s' ∈ splits, (mark s).Comparable (mark s')) →
          ∀ o, i.startingOffset = o ↔
            (∃ s ∈ splits, mark s = o) ∧ ∀ s ∈ splits, (mark s).reached o = true)) := by
  have hkeeps := hx.keeps hids
  have hfinished := hkeeps.finished_perm hids hmarks
  obtain ⟨i, a, hnext⟩ := next_incremental_iff.mpr ⟨hdone, hfree⟩
  obtain ⟨-, -, rfl⟩ := next_incremental hnext
  refine ⟨_, a, hnext, hfinished, ?_, fun t => ?_, fun hne => ?_⟩
  · rw [incremental, hkeeps.tables]
    exact SortedMap.pairwise_keySet _
  · rw [incremental, hkeeps.tables, SortedMap.mem_keySet_iff, List.mem_map]
  · obtain ⟨hmark, hleast⟩ := start_least hnormal hfinished hne
    exact ⟨hmark, hleast, start_eq_iff hnormal hfinished hne⟩

/-- The lower orders fail twice, the second time while they wait for the next reader, and are
finished at the later position, but first. -/
theorem starts_at_earliest_orders :
    ∃ x, Of [Handouts.lowOrders, Handouts.highOrders] x ∧
      x.marks = [(Handouts.lowOrders.splitId, .binlog "log.1" 300),
        (Handouts.highOrders.splitId, .binlog "log.1" 200)] ∧
      ∃ i a, x.assigner.next .empty = (some (.incremental i), a) ∧
        i.startingOffset = .binlog "log.1" 200 := by
  let mark (s : SnapshotSplit) : Offset :=
    if s.splitIndex = 0 then .binlog "log.1" 300 else .binlog "log.1" 200
  let splits := [Handouts.lowOrders, Handouts.highOrders]
  have hlow : Handouts.lowOrders ∈ splits := .head _
  have hfailed : Of splits _ :=
    .step (s := .fail (.snapshot Handouts.lowOrders))
      (.step (s := .fail (.snapshot Handouts.lowOrders))
        (.step (s := .next .empty) (.start 0) trivial) hlow) hlow
  have hread : Of splits _ :=
    .step (s := .next .empty)
      (.step (s := .next .empty) (.step (s := .next .empty) hfailed trivial) trivial) trivial
  have hdone : Of splits _ :=
    .step (s := .complete ⟨Handouts.highOrders.splitId, some (.binlog "log.1" 200)⟩)
      (.step (s := .complete ⟨Handouts.lowOrders.splitId, some (.binlog "log.1" 300)⟩)
        hread trivial) trivial
  have hnormal : ∀ s ∈ splits, (mark s).Normal := by
    intro s _
    simp only [mark]
    split <;> trivial
  have hcomparable : ∀ s ∈ splits, ∀ s' ∈ splits, (mark s).Comparable (mark s') := by
    intro s _ s' _
    simp only [mark, Offset.Comparable]
    split <;> split <;> rw [Offset.compare?_binlog] <;> rfl
  obtain ⟨i, a, hnext, -, -, -, hstart⟩ :=
    starts_at_earliest (by decide) hdone hnormal (.refl _) rfl rfl .empty
  obtain ⟨-, -, hiff⟩ := hstart (by simp [splits])
  refine ⟨_, hdone, rfl, i, a, hnext, (hiff hcomparable _).mpr ⟨⟨_, .tail _ (.head _), rfl⟩, ?_⟩⟩
  decide

end Course
end SplitAssigner
end Changefeed
