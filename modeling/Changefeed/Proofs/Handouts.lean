import Mathlib.Data.List.Nodup
import Mathlib.Data.List.Perm.Subperm
import Changefeed.Proofs.Assigner

/-!
# Calls of an assigner in any order

An assigner is asked for splits and is told, in any order, that splits were completed or failed.
Beside it stands what its callers know: which snapshot splits they were given and have not reported
on, which ones were reported completed, and whether they were given an incremental split that was
not reported failed.  Both agree at every point.

Failing a split is the one call that could do damage, as it puts a split back whether it was handed
out or not.  Callers report on splits that they were given, so the split that goes back is one that
is being read, and it leaves the place it came from.
-/

namespace Changefeed
namespace SplitAssigner

/-! ## Calls -/

/-- What an assigner is asked and told. -/
inductive Call where
  | next (h : SchemaHistory)
  | complete (id : SplitId) (watermark : Offset)
  | fail (split : Split)

/-- An assigner, and what its callers know. -/
structure Handouts where
  assigner : SplitAssigner
  /-- Snapshot splits that were handed out and not reported on since. -/
  out : List SnapshotSplit := []
  /-- Snapshot splits that were reported completed, with their watermarks. -/
  done : List (SnapshotSplit × Offset) := []
  /-- An incremental split was handed out and not reported failed since. -/
  streaming : Bool := false

namespace Handouts

/-- What a call leaves. -/
def after (x : Handouts) : Call → Handouts
  | .next h =>
    match x.assigner.next h with
    | (some (.snapshot s), a) => { x with assigner := a, out := x.out ++ [s] }
    | (some (.incremental _), a) => { x with assigner := a, streaming := true }
    | (none, a) => { x with assigner := a }
  | .complete id watermark =>
    match x.assigner.complete ⟨id, some watermark⟩ with
    | .ok a =>
      { x with
        assigner := a
        out := x.out.filter (·.splitId ≠ id)
        done := x.done ++ (x.out.filter (·.splitId = id)).map (·, watermark) }
    | .error _ => x
  | .fail (.snapshot s) =>
    { x with
      assigner := x.assigner.fail (.snapshot s)
      out := x.out.filter (·.splitId ≠ s.splitId) }
  | .fail (.incremental i) =>
    { x with assigner := x.assigner.fail (.incremental i), streaming := false }

/-- A snapshot split is reported failed by those who were given it. -/
def Allows (x : Handouts) : Call → Prop
  | .fail (.snapshot s) => s ∈ x.out
  | .fail (.incremental _) | .next _ | .complete .. => True

/-- What calls have made of an assigner of some snapshot splits. -/
inductive Reached (splits : List SnapshotSplit) : Handouts → Prop
  | start (index : UInt32) :
      Reached splits { assigner := { ofSplits splits with incrementalIndex := index } }
  | call {x : Handouts} {c : Call} : Reached splits x → x.Allows c → Reached splits (x.after c)

/-- The snapshot splits that were completed. -/
def completed (x : Handouts) : List SnapshotSplit := x.done.map Prod.fst

/-! ## What calls keep -/

/-- The assigner accounts for all splits, in the way its callers know them. -/
structure Agrees (x : Handouts) (splits : List SnapshotSplit) : Prop where
  accounts : x.assigner.Accounts splits x.completed
  ascending : SortedMap.Ascending x.assigner.inFlight
  out : x.assigner.inFlight.values.Perm x.out
  finished : x.assigner.finished = x.done.map fun (s, w) => .ofSplit s w
  streaming : x.assigner.incrementalAssigned = x.streaming

variable {x : Handouts} {splits : List SnapshotSplit} {s : SnapshotSplit} {id : SplitId}

lemma agrees_start (splits : List SnapshotSplit) (index : UInt32) :
    Agrees { assigner := { ofSplits splits with incrementalIndex := index } } splits where
  accounts := ⟨(accounts_ofSplits splits).places, (accounts_ofSplits splits).named⟩
  ascending := SortedMap.ascending_nil
  out := .refl _
  finished := rfl
  streaming := rfl

namespace Agrees

lemma find?_eq_some_iff (hx : x.Agrees splits) :
    x.assigner.inFlight.find? id = some s ↔ s ∈ x.out ∧ s.splitId = id := by
  rw [SortedMap.find?_eq_some_iff hx.ascending, ← hx.out.mem_iff]
  constructor
  · intro hmem
    exact ⟨List.mem_map_of_mem hmem, (hx.accounts.named _ hmem).symm⟩
  · rintro ⟨hs, rfl⟩
    obtain ⟨⟨id, s'⟩, hmem, rfl⟩ := List.mem_map.mp hs
    have hid : id = s'.splitId := hx.accounts.named _ hmem
    exact hid ▸ hmem

lemma find?_eq_none_iff (hx : x.Agrees splits) :
    x.assigner.inFlight.find? id = none ↔ ∀ s ∈ x.out, s.splitId ≠ id := by
  rw [Option.eq_none_iff_forall_ne_some]
  simp only [ne_eq, hx.find?_eq_some_iff, not_and]

/-- Of the splits that were handed out, one has a given identity, and the others are those that are
being read when it has been taken back. -/
lemma out_of_mem (hx : x.Agrees splits) (hids : (splits.map SnapshotSplit.splitId).Nodup)
    (hs : s ∈ x.out) :
    x.out.filter (·.splitId = s.splitId) = [s] ∧
      (x.assigner.inFlight.erase s.splitId).values.Perm
        (x.out.filter (·.splitId ≠ s.splitId)) := by
  generalize hrest : (x.assigner.inFlight.erase s.splitId).values = rest
  have hfind := hx.find?_eq_some_iff.mpr ⟨hs, rfl⟩
  have hvalues : x.assigner.inFlight.values.Perm (s :: rest) :=
    hrest ▸ (SortedMap.perm_erase hfind).map Prod.snd
  have hout : x.out.Perm (s :: rest) := hx.out.symm.trans hvalues
  have hnodup := (hx.accounts.places.map SnapshotSplit.splitId).nodup_iff.mpr hids
  rw [List.map_append, List.map_append, List.nodup_append, List.nodup_append] at hnodup
  have hother : ∀ r ∈ rest, r.splitId ≠ s.splitId := by
    have hcons := (hvalues.map SnapshotSplit.splitId).nodup_iff.mp hnodup.2.1.1
    intro r hr heq
    exact (List.nodup_cons.mp hcons).1 (heq ▸ List.mem_map_of_mem hr)
  constructor
  · have hone : (s :: rest).filter (·.splitId = s.splitId) = [s] := by
      simpa using hother
    rw [← List.perm_singleton, ← hone]
    exact hout.filter _
  · have hall : (s :: rest).filter (·.splitId ≠ s.splitId) = rest := by
      simpa using hother
    have hfilter := (hout.filter (·.splitId ≠ s.splitId)).symm
    rwa [hall] at hfilter

/-- Asking for a split leaves the assigner as its callers know it. -/
lemma next (hx : x.Agrees splits) (hids : (splits.map SnapshotSplit.splitId).Nodup)
    (h : SchemaHistory) : (x.after (.next h)).Agrees splits := by
  rcases hnext : x.assigner.next h with ⟨_ | split, a⟩
  · have hafter : x.after (.next h) = x := by
      rw [Handouts.after, hnext, next_none hnext]
    rw [hafter]
    exact hx
  · have haccounts := hx.accounts.next hids hnext
    rcases next_cases hnext with ⟨s, rest, hpending, rfl, rfl⟩ | ⟨-, -, rfl, rfl⟩
    · have hafter : x.after (.next h) =
          { x with
            assigner := { x.assigner with
              pending := rest, inFlight := x.assigner.inFlight.insert s.splitId s }
            out := x.out ++ [s] } := by
        rw [Handouts.after, hnext]
      rw [hafter]
      have hnew := hx.accounts.not_in_flight hids (s := s) (hpending ▸ .head _)
      have hvalues : (x.assigner.inFlight.insert s.splitId s).values.Perm
          (s :: x.assigner.inFlight.values) := (SortedMap.perm_insert hnew s).map Prod.snd
      exact
        { accounts := haccounts
          ascending := SortedMap.ascending_insert hx.ascending s.splitId s
          out := hvalues.trans ((hx.out.cons s).trans (List.perm_append_singleton s _).symm)
          finished := hx.finished
          streaming := hx.streaming }
    · have hafter : x.after (.next h) =
          { x with
            assigner := { x.assigner with incrementalAssigned := true }, streaming := true } := by
        rw [Handouts.after, hnext]
      rw [hafter]
      exact { hx with accounts := haccounts, streaming := rfl }

/-- Reporting a split completed leaves the assigner as its callers know it. -/
lemma complete (hx : x.Agrees splits) (hids : (splits.map SnapshotSplit.splitId).Nodup)
    (id : SplitId) (w : Offset) : (x.after (.complete id w)).Agrees splits := by
  by_cases hs : ∃ s ∈ x.out, s.splitId = id
  · obtain ⟨s, hs, rfl⟩ := hs
    have hfind := hx.find?_eq_some_iff.mpr ⟨hs, rfl⟩
    obtain ⟨hone, hothers⟩ := hx.out_of_mem hids hs
    have hafter : x.after (.complete s.splitId w) =
        { x with
          assigner := { x.assigner with
            inFlight := x.assigner.inFlight.erase s.splitId
            finished := x.assigner.finished ++ [.ofSplit s w] }
          out := x.out.filter (·.splitId ≠ s.splitId)
          done := x.done ++ [(s, w)] } := by
      rw [Handouts.after, complete_ok hfind, hone]
      rfl
    rw [hafter]
    have haccounts := hx.accounts.complete hfind (x.assigner.finished ++ [.ofSplit s w])
    exact
      { accounts := by simpa [completed] using haccounts
        ascending := SortedMap.ascending_erase hx.ascending s.splitId
        out := hothers
        finished := by simp [hx.finished]
        streaming := hx.streaming }
  · have hafter : x.after (.complete id w) = x := by
      have hnone : ∀ s ∈ x.out, s.splitId ≠ id := fun s hmem hid => hs ⟨s, hmem, hid⟩
      by_cases hscope : id.scope = SplitId.incrementalScope
      · have hkept : x.out.filter (·.splitId ≠ id) = x.out := by simpa using hnone
        have hgone : x.out.filter (·.splitId = id) = [] := by simpa using hnone
        rw [Handouts.after, SplitAssigner.complete, if_pos hscope, hkept, hgone]
        simp
      · rw [Handouts.after, complete_of_not_found hscope (hx.find?_eq_none_iff.mpr hnone)]
    rw [hafter]
    exact hx

/-- Reporting a split failed leaves the assigner as its callers know it. -/
lemma fail (hx : x.Agrees splits) (hids : (splits.map SnapshotSplit.splitId).Nodup)
    {split : Split} (hallowed : x.Allows (.fail split)) :
    (x.after (.fail split)).Agrees splits := by
  cases split with
  | incremental i =>
    exact
      { accounts := ⟨hx.accounts.places, hx.accounts.named⟩
        ascending := hx.ascending
        out := hx.out
        finished := hx.finished
        streaming := rfl }
  | snapshot s =>
    have hs : s ∈ x.out := hallowed
    have hfind := hx.find?_eq_some_iff.mpr ⟨hs, rfl⟩
    exact
      { accounts := hx.accounts.fail hfind
        ascending := SortedMap.ascending_erase hx.ascending s.splitId
        out := (hx.out_of_mem hids hs).2
        finished := hx.finished
        streaming := hx.streaming }

/-- All splits were completed when none waits and none is being read. -/
lemma snapshotsDone_iff (hx : x.Agrees splits)
    (hids : (splits.map SnapshotSplit.splitId).Nodup) :
    x.assigner.snapshotsDone = true ↔ ∀ s ∈ splits, s ∈ x.completed := by
  rw [snapshotsDone, Bool.and_eq_true, List.isEmpty_iff, List.isEmpty_iff]
  constructor
  · rintro ⟨hpending, hflight⟩ s hs
    exact (hx.accounts.all_done hpending hflight).mem_iff.mpr hs
  · intro hall
    have hle : splits.length ≤ x.completed.length :=
      (List.subperm_of_subset (List.Nodup.of_map _ hids) hall).length_le
    have hlength := hx.accounts.places.length_eq
    rw [List.length_append, List.length_append] at hlength
    have hflight : x.assigner.inFlight.values.length = 0 := by omega
    rw [SortedMap.values, List.length_map, List.length_eq_zero_iff] at hflight
    exact ⟨List.length_eq_zero_iff.mp (by omega), hflight⟩

end Agrees

lemma Reached.agrees (hx : Reached splits x) (hids : (splits.map SnapshotSplit.splitId).Nodup) :
    x.Agrees splits := by
  induction hx with
  | start index => exact agrees_start splits index
  | @call x c _ hallowed ih =>
    cases c with
    | next h => exact ih.next hids h
    | complete id w => exact ih.complete hids id w
    | fail split => exact ih.fail hids hallowed

/-- An assigner of snapshot splits with distinct identities, after calls in any order.  Each split
waits, is being read or was completed, and is in one of these places once; those being read are
those that were handed out and not reported on.  The report of one that is not being read is refused
and changes nothing.  An incremental split is handed out exactly when all snapshot splits were
completed and none was handed out that has not failed, and the assigner is finished exactly when one
was. -/
theorem each_split_in_one_place (hids : (splits.map SnapshotSplit.splitId).Nodup)
    (hx : Reached splits x) :
    (x.assigner.pending ++ (x.assigner.inFlight.values ++ x.completed)).Perm splits ∧
      x.assigner.inFlight.values.Perm x.out ∧
      x.assigner.finished = x.done.map (fun (s, w) => .ofSplit s w) ∧
      (∀ (id : SplitId) (w : Offset), id.scope ≠ SplitId.incrementalScope →
        (∀ s ∈ x.assigner.inFlight.values, s.splitId ≠ id) →
          x.assigner.complete ⟨id, some w⟩ =
              .error (.invalidState (.unassignedCompletion id.text)) ∧
            x.after (.complete id w) = x) ∧
      (∀ h, (∃ i a, x.assigner.next h = (some (.incremental i), a)) ↔
        (∀ s ∈ splits, s ∈ x.completed) ∧ x.streaming = false) ∧
      (x.assigner.isFinished = true ↔
        (∀ s ∈ splits, s ∈ x.completed) ∧ x.streaming = true) := by
  have hagrees := hx.agrees hids
  have hdone := hagrees.snapshotsDone_iff hids
  refine ⟨hagrees.accounts.places, hagrees.out, hagrees.finished, ?_, fun h => ?_, ?_⟩
  · intro id w hscope hnone
    have hnot : ∀ s ∈ x.out, s.splitId ≠ id := fun s hs =>
      hnone s (hagrees.out.mem_iff.mpr hs)
    have hrefused := complete_of_not_found hscope (hagrees.find?_eq_none_iff.mpr hnot) w
    exact ⟨hrefused, by rw [after, hrefused]⟩
  · rw [next_incremental_iff, hdone, hagrees.streaming]
  · rw [isFinished, Bool.and_eq_true, hdone, hagrees.streaming, and_comm]

/-- The orders below a key. -/
def lowOrders : SnapshotSplit :=
  ⟨⟨"shop", "orders"⟩, "id", ⟨none, some (.number (.int 10))⟩, 0⟩

/-- The other orders. -/
def highOrders : SnapshotSplit :=
  ⟨⟨"shop", "orders"⟩, "id", ⟨some (.number (.int 10)), none⟩, 1⟩

/-- The first of two splits fails and is read behind the second one; then both are completed, and an
incremental split is handed out. -/
theorem each_split_in_one_place_orders :
    ∃ x, ([lowOrders, highOrders].map SnapshotSplit.splitId).Nodup ∧
      Reached [lowOrders, highOrders] x ∧
      x.done = [(highOrders, .binlog "log.1" 200), (lowOrders, .binlog "log.1" 300)] ∧
      x.assigner.isFinished = true := by
  have hids : ([lowOrders, highOrders].map SnapshotSplit.splitId).Nodup := by decide
  have hfailed : Reached [lowOrders, highOrders] _ :=
    .call (c := .fail (.snapshot lowOrders)) (.call (c := .next .empty) (.start 0) trivial)
      (List.mem_singleton_self lowOrders)
  have hread : Reached [lowOrders, highOrders] _ :=
    .call (c := .next .empty) (.call (c := .next .empty) hfailed trivial) trivial
  have hdone : Reached [lowOrders, highOrders] _ :=
    .call (c := .complete lowOrders.splitId (.binlog "log.1" 300))
      (.call (c := .complete highOrders.splitId (.binlog "log.1" 200)) hread trivial) trivial
  have hstreaming := hdone.call (c := .next .empty) trivial
  refine ⟨_, hids, hstreaming, rfl, ?_⟩
  obtain ⟨-, -, -, -, -, hfinished⟩ := each_split_in_one_place hids hstreaming
  refine hfinished.mpr ⟨fun s hs => ?_, rfl⟩
  rcases List.mem_cons.mp hs with rfl | hs
  · exact .tail _ (.head _)
  · rw [List.mem_singleton.mp hs]
    exact .head _

end Handouts
end SplitAssigner
end Changefeed
