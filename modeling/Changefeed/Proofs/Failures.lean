import Mathlib.Data.List.Induction
import Changefeed.Proofs.StreamStart

/-!
# Splits that are reported failed

A split that is reported failed is put behind those that wait, whether it is being read or not.  A
split that is being read leaves the place it had, so it is in one place as before.  Any other one is
in two places from then on: a split whose failure is reported once more waits twice, and one whose
completion was accepted waits to be read again, after which its range is finished at two watermarks.

`Progress` keeps the splits whose completion was accepted beside the assigner.  Throughout a run no
split waits twice and none waits that was completed exactly when every failure that is reported in
the run is one of a split that is being read at that point.
-/

namespace Changefeed
namespace SplitAssigner

/-- An assigner, and the snapshot splits whose completion it accepted. -/
structure Progress where
  assigner : SplitAssigner
  done : List SnapshotSplit := []

namespace Progress

/-- What a step leaves. -/
def after (x : Progress) : Step → Progress
  | .next h => { x with assigner := (x.assigner.next h).2 }
  | .complete c =>
    match x.assigner.complete c with
    | .ok a => { assigner := a, done := x.done ++ (x.assigner.inFlight.find? c.splitId).toList }
    | .error _ => x
  | .fail split => { x with assigner := x.assigner.fail split }

/-- What steps leave, one after the other. -/
def afterAll (x : Progress) (steps : List Step) : Progress := steps.foldl after x

/-- The split is being read. -/
def Reads (x : Progress) (s : SnapshotSplit) : Prop :=
  x.assigner.inFlight.find? s.splitId = some s

/-- No split waits twice, and none waits whose completion was accepted. -/
structure Orderly (x : Progress) : Prop where
  once : (x.assigner.pending.map SnapshotSplit.splitId).Nodup
  undone : ∀ s ∈ x.assigner.pending, s.splitId ∉ x.done.map SnapshotSplit.splitId

variable {x : Progress} {splits : List SnapshotSplit} {s : SnapshotSplit} {steps : List Step}

lemma afterAll_concat (x : Progress) (steps : List Step) (step : Step) :
    x.afterAll (steps ++ [step]) = (x.afterAll steps).after step := by
  rw [afterAll, List.foldl_append]
  rfl

/-! ## Any reports -/

/-- A step keeps the splits that are being read in the order of their identities. -/
lemma ascending_after (hx : SortedMap.Ascending x.assigner.inFlight) (step : Step) :
    SortedMap.Ascending (x.after step).assigner.inFlight := by
  cases step with
  | next h =>
    rw [after]
    rcases hnext : x.assigner.next h with ⟨_ | split, a⟩
    · rw [next_none hnext]
      exact hx
    · rcases next_cases hnext with ⟨s, rest, -, -, rfl⟩ | ⟨-, -, -, rfl⟩
      · exact SortedMap.ascending_insert hx s.splitId s
      · exact hx
  | complete c =>
    rw [after]
    cases hcomplete : x.assigner.complete c with
    | error f => exact hx
    | ok a =>
      rcases complete_cases hcomplete with ⟨-, rfl⟩ | ⟨-, s, -, rfl⟩
      · exact hx
      · exact SortedMap.ascending_erase hx c.splitId
  | fail split =>
    cases split with
    | incremental i => exact hx
    | snapshot s => exact SortedMap.ascending_erase hx s.splitId

lemma ascending_afterAll (hx : SortedMap.Ascending x.assigner.inFlight) (steps : List Step) :
    SortedMap.Ascending (x.afterAll steps).assigner.inFlight := by
  induction steps generalizing x with
  | nil => exact hx
  | cons step steps ih => exact ih (ascending_after hx step)

lemma fail_of_not_found {a : SplitAssigner} (hnone : a.inFlight.find? s.splitId = none) :
    a.fail (.snapshot s) = { a with pending := a.pending ++ [s] } := by
  rw [SplitAssigner.fail, SortedMap.erase_of_find?_eq_none hnone]

lemma fail_fail {a : SplitAssigner} (ha : SortedMap.Ascending a.inFlight) (s : SnapshotSplit) :
    (a.fail (.snapshot s)).fail (.snapshot s) =
      { a.fail (.snapshot s) with pending := (a.fail (.snapshot s)).pending ++ [s] } := by
  refine fail_of_not_found ?_
  rw [SplitAssigner.fail, SortedMap.find?_erase ha, if_pos rfl]

/-! ## Reports in turn -/

/-- Every split is accounted for. -/
structure InTurn (splits : List SnapshotSplit) (x : Progress) : Prop where
  accounts : x.assigner.Accounts splits x.done
  ascending : SortedMap.Ascending x.assigner.inFlight

namespace InTurn

lemma find?_incremental (hx : x.InTurn splits) {id : SplitId}
    (hscope : id.scope = SplitId.incrementalScope) : x.assigner.inFlight.find? id = none := by
  cases hfind : x.assigner.inFlight.find? id with
  | none => rfl
  | some s =>
    have hid : id = s.splitId :=
      hx.accounts.named _ ((SortedMap.find?_eq_some_iff hx.ascending).mp hfind)
    exact absurd (hid ▸ hscope) s.scope_ne

/-- Every step but the report of a failure out of turn leaves every split accounted for. -/
lemma after (hx : x.InTurn splits) (hids : (splits.map SnapshotSplit.splitId).Nodup) {step : Step}
    (hstep : ∀ s, step = .fail (.snapshot s) → x.Reads s) : (x.after step).InTurn splits := by
  refine ⟨?_, ascending_after hx.ascending step⟩
  cases step with
  | next h =>
    rw [Progress.after]
    rcases hnext : x.assigner.next h with ⟨_ | split, a⟩
    · rw [next_none hnext]
      exact hx.accounts
    · exact hx.accounts.next hids hnext
  | complete c =>
    rw [Progress.after]
    cases hcomplete : x.assigner.complete c with
    | error f => exact hx.accounts
    | ok a =>
      rcases complete_cases hcomplete with ⟨hscope, rfl⟩ | ⟨-, s, hfind, rfl⟩
      · rw [hx.find?_incremental hscope]
        simpa using hx.accounts
      · have hid : c.splitId = s.splitId :=
          hx.accounts.named _ ((SortedMap.find?_eq_some_iff hx.ascending).mp hfind)
        rw [hid] at hfind ⊢
        rw [hfind]
        exact hx.accounts.complete hfind _
  | fail split =>
    cases split with
    | incremental i => exact ⟨hx.accounts.places, hx.accounts.named⟩
    | snapshot s => exact hx.accounts.fail (hstep s rfl)

lemma orderly (hx : x.InTurn splits) (hids : (splits.map SnapshotSplit.splitId).Nodup) :
    x.Orderly := by
  have hnodup := (hx.accounts.places.map SnapshotSplit.splitId).nodup_iff.mpr hids
  rw [List.map_append, List.map_append, List.nodup_append] at hnodup
  obtain ⟨honce, -, hapart⟩ := hnodup
  refine ⟨honce, fun s hs hdone => ?_⟩
  exact hapart _ (List.mem_map_of_mem hs) _ (List.mem_append_right _ hdone) rfl

/-- A split that is not being read waits or was completed, so it is in two places once its failure
is reported. -/
lemma reads_of_orderly_fail (hx : x.InTurn splits) (hs : s ∈ splits)
    (horderly : (x.after (.fail (.snapshot s))).Orderly) : x.Reads s := by
  have hwaits : s ∈ (x.after (.fail (.snapshot s))).assigner.pending :=
    List.mem_append_right _ (.head _)
  rcases List.mem_append.mp (hx.accounts.places.mem_iff.mpr hs) with hpending | hrest
  · have honce : ((x.assigner.pending ++ [s]).map SnapshotSplit.splitId).Nodup := horderly.once
    rw [List.map_append, List.nodup_append] at honce
    exact absurd rfl (honce.2.2 _ (List.mem_map_of_mem hpending) _ (.head _))
  · rcases List.mem_append.mp hrest with hread | hdone
    · obtain ⟨⟨id, s'⟩, hentry, rfl⟩ := List.mem_map.mp hread
      have hid : id = s'.splitId := hx.accounts.named _ hentry
      exact (SortedMap.find?_eq_some_iff hx.ascending).mpr (hid ▸ hentry)
    · exact absurd (List.mem_map_of_mem hdone) (horderly.undone s hwaits)

lemma afterAll (hx : x.InTurn splits) (hids : (splits.map SnapshotSplit.splitId).Nodup)
    (hturn : ∀ earlier s, earlier ++ [.fail (.snapshot s)] <+: steps →
      (x.afterAll earlier).Reads s) : (x.afterAll steps).InTurn splits := by
  induction steps using List.reverseRecOn with
  | nil => exact hx
  | append_singleton steps step ih =>
    rw [afterAll_concat]
    refine (ih fun earlier s h => hturn earlier s (h.trans (List.prefix_append ..))).after hids ?_
    rintro s rfl
    exact hturn steps s (List.prefix_refl _)

end InTurn

/-- An assigner of snapshot splits with distinct identities that hands them out, and is told in any
order and any number of times that some of them were completed or failed.  Throughout the run no
split waits twice and none waits whose completion was accepted exactly when each failure that was
reported was one of a split that was being read at that point.  In any case a report of a split that
is not being read puts it behind those that wait and changes nothing else, so that a failure that is
reported twice in a row leaves the split waiting twice. -/
theorem orderly_iff_failures_in_turn {a : SplitAssigner} (hfresh : a.inFlight = [])
    (hids : (a.pending.map SnapshotSplit.splitId).Nodup)
    (hown : ∀ s, .fail (.snapshot s) ∈ steps → s ∈ a.pending) :
    ((∀ earlier, earlier <+: steps → (afterAll ⟨a, []⟩ earlier).Orderly) ↔
      ∀ earlier s, earlier ++ [.fail (.snapshot s)] <+: steps →
        (afterAll ⟨a, []⟩ earlier).Reads s) ∧
    ∀ s, let b := (afterAll ⟨a, []⟩ steps).assigner
      (b.inFlight.find? s.splitId = none →
        b.fail (.snapshot s) = { b with pending := b.pending ++ [s] }) ∧
      (b.fail (.snapshot s)).fail (.snapshot s) =
        { b.fail (.snapshot s) with pending := (b.fail (.snapshot s)).pending ++ [s] } := by
  have hascending : SortedMap.Ascending a.inFlight := hfresh ▸ SortedMap.ascending_nil
  have hstart : InTurn a.pending ⟨a, []⟩ := by
    refine ⟨⟨?_, fun e he => ?_⟩, hascending⟩
    · rw [hfresh]
      exact .of_eq (List.append_nil _)
    · rw [hfresh] at he
      exact absurd he List.not_mem_nil
  refine ⟨⟨fun horderly => ?_, fun hturn earlier hearlier => ?_⟩, fun s => ⟨fail_of_not_found, ?_⟩⟩
  · -- up to the first failure out of turn every split is accounted for
    induction steps using List.reverseRecOn with
    | nil => exact fun earlier s h => absurd h.length_le (by simp)
    | append_singleton steps step ih =>
      have hsteps := ih (fun s hs => hown s (List.mem_append_left _ hs)) fun earlier h =>
        horderly earlier (h.trans (List.prefix_append ..))
      intro earlier s hlast
      rcases List.prefix_concat_iff.mp hlast with heq | hbefore
      · obtain ⟨rfl, hstep⟩ := List.append_inj' heq rfl
        obtain rfl := List.singleton_inj.mp hstep
        have hthere := hstart.afterAll hids hsteps
        refine hthere.reads_of_orderly_fail (hown s (List.mem_append_right _ (.head _))) ?_
        rw [← afterAll_concat]
        exact horderly _ (List.prefix_refl _)
      · exact hsteps earlier s hbefore
  · have hprefix := hstart.afterAll hids fun before s h => hturn before s (h.trans hearlier)
    exact hprefix.orderly hids
  · exact fail_fail (ascending_afterAll hascending steps) s

/-- Twice reported failed, the lower orders wait twice. -/
theorem orderly_iff_failures_in_turn_twice :
    let a := ofSplits [Handouts.lowOrders, Handouts.highOrders]
    let steps : List Step := [.next .empty, .fail (.snapshot Handouts.lowOrders),
      .fail (.snapshot Handouts.lowOrders)]
    a.inFlight = [] ∧ (a.pending.map SnapshotSplit.splitId).Nodup ∧
      (∀ s, .fail (.snapshot s) ∈ steps → s ∈ a.pending) ∧
      ¬ ∀ earlier, earlier <+: steps → (afterAll ⟨a, []⟩ earlier).Orderly := by
  intro a steps
  have hids : (a.pending.map SnapshotSplit.splitId).Nodup := by decide
  have hown : ∀ s, .fail (.snapshot s) ∈ steps → s ∈ a.pending := by
    intro s hs
    have hlow : s = Handouts.lowOrders := by simpa [steps] using hs
    exact hlow ▸ .head _
  refine ⟨rfl, hids, hown, fun horderly => ?_⟩
  have hturn := (orderly_iff_failures_in_turn rfl hids hown).1.mp horderly
  have hreads := hturn [.next .empty, .fail (.snapshot Handouts.lowOrders)] Handouts.lowOrders
    (List.prefix_refl _)
  exact absurd hreads nofun

end Progress
end SplitAssigner
end Changefeed
