import Mathlib.Data.List.Basic
import Changefeed.Proofs.Gtid.Built

/-!
# Completed sets

A restored set is completed by the server's transactions up to its highest one of each source.  It
keeps its sources and its highest transactions by that: whatever comes in lies below a transaction
that is there already, so nothing more would come in a second time.  And as all of it is known to
the server, the completed set goes beyond what the server knows exactly when the restored set does.
-/

namespace Changefeed
namespace GtidSet

variable {s server restored : GtidSet} {source : String} {txn top : UInt64}
  {f : String → List Interval → List Interval} {is known : List Interval}

/-! ## Sources -/

/-- A set knows the sources that it has a highest transaction of. -/
lemma Normal.mem_sourceIds_iff (h : Normal s) :
    sourceName source ∈ s.sourceIds ↔ ∃ top, s.Highest source top := by
  constructor
  · intro hmem
    obtain ⟨e, he, hname⟩ := List.mem_map.mp hmem
    obtain ⟨i, hi⟩ := List.exists_mem_of_ne_nil e.2 (h.nonempty e he)
    have hfirst : s.contains source i.first = true :=
      h.contains_iff_entry.mpr ⟨e, he, hname.symm, (h.coalesced e he).holds_first hi⟩
    obtain ⟨top, hhighest, -⟩ := h.reaches_of_contains hfirst
    exact ⟨top, hhighest⟩
  · rintro ⟨top, hmem, -⟩
    obtain ⟨e, he, hname, -⟩ := h.contains_iff_entry.mp hmem
    exact List.mem_map.mpr ⟨e, he, hname.symm⟩

lemma sourceIds_rework (hf : ∀ e ∈ s.sources, f e.1 e.2 ≠ []) :
    (s.rework f).sourceIds = s.sourceIds := by
  have hentries : (s.rework f).sources = s.sources.map fun e => (e.1, f e.1 e.2) := by
    rw [rework, ← List.filterMap_eq_map]
    exact List.filterMap_congr fun e he => entry_of_ne_nil e.1 (hf e he)
  rw [sourceIds, SortedMap.keys, hentries, List.map_map]
  rfl

lemma complete_ne_nil (hne : is ≠ []) : complete known is ≠ [] := by
  unfold complete
  split
  · next hlast => exact absurd (List.getLast?_eq_none_iff.mp hlast) hne
  · exact hne
  · exact Interval.normalize_ne_nil (by simp [hne])

lemma sourceIds_fixRestored (hrestored : Normal restored) :
    (fixRestored server restored).sourceIds = restored.sourceIds := by
  rw [fixRestored_eq_rework]
  exact sourceIds_rework fun e he => complete_ne_nil (hrestored.nonempty e he)

/-! ## Highest transactions -/

lemma reaches_of_contains_fixRestored (hserver : Normal server) (hrestored : Normal restored)
    (hmem : (fixRestored server restored).contains source txn = true) :
    restored.Reaches source txn := by
  rcases (contains_fixRestored hserver hrestored).mp hmem with hmem | ⟨-, hreach⟩
  · exact hrestored.reaches_of_contains hmem
  · exact hreach

/-- A completed set has the highest transactions of the restored one. -/
lemma highest_fixRestored (hserver : Normal server) (hrestored : Normal restored) :
    (fixRestored server restored).Highest source top ↔ restored.Highest source top := by
  have hkept : ∀ u, restored.contains source u = true →
      (fixRestored server restored).contains source u = true := fun u hu =>
    (contains_fixRestored hserver hrestored).mpr (.inl hu)
  constructor
  · rintro ⟨hmem, hmost⟩
    obtain ⟨u, hhighest, hle⟩ := reaches_of_contains_fixRestored hserver hrestored hmem
    obtain rfl : u = top := UInt64.le_antisymm (hmost u (hkept u hhighest.1)) hle
    exact hhighest
  · rintro ⟨hmem, hmost⟩
    refine ⟨hkept top hmem, fun u hu => ?_⟩
    obtain ⟨v, hhighest, hle⟩ := reaches_of_contains_fixRestored hserver hrestored hu
    exact UInt64.le_trans hle (hmost v hhighest.1)

lemma reaches_fixRestored (hserver : Normal server) (hrestored : Normal restored) :
    (fixRestored server restored).Reaches source txn ↔ restored.Reaches source txn :=
  exists_congr fun _ => and_congr_left fun _ => highest_fixRestored hserver hrestored

/-! ## Completing -/

/-- Completing goes beyond what the server knows exactly when the restored set does. -/
lemma fixRestored_contained_iff (hserver : Normal server) (hrestored : Normal restored) :
    (fixRestored server restored).isContainedWithin server = true ↔
      restored.isContainedWithin server = true := by
  rw [Normal.isContainedWithin_iff (hserver.fixRestored hrestored) hserver,
    Normal.isContainedWithin_iff hrestored hserver]
  simp only [contains_fixRestored hserver hrestored]
  constructor
  · intro h source txn hmem
    exact h source txn (.inl hmem)
  · rintro h source txn (hmem | ⟨hmem, -⟩)
    · exact h source txn hmem
    · exact hmem

lemma fixRestored_fixRestored (hserver : Normal server) (hrestored : Normal restored) :
    fixRestored server (fixRestored server restored) = fixRestored server restored := by
  have hcompleted := hserver.fixRestored hrestored
  refine (hserver.fixRestored hcompleted).ext hcompleted fun source txn => ?_
  rw [contains_fixRestored hserver hcompleted, reaches_fixRestored hserver hrestored]
  constructor
  · rintro (hmem | hnew)
    · exact hmem
    · exact (contains_fixRestored hserver hrestored).mpr (.inr hnew)
  · exact .inl

/-- A completed set has the members of the restored set, and those of the server that are of one of
its sources and not above its highest transaction of that source.  It has the same sources with the
same highest transactions, is contained in what the server knows exactly when the restored set is,
and is complete. -/
theorem fixRestored_by_members (hserver : Normal server) (hrestored : Normal restored) :
    (∀ source txn, (fixRestored server restored).contains source txn = true ↔
      restored.contains source txn = true ∨
        sourceName source ∈ restored.sourceIds ∧ server.contains source txn = true ∧
          ∃ top, restored.Highest source top ∧ txn ≤ top) ∧
    (fixRestored server restored).sourceIds = restored.sourceIds ∧
    (∀ source top, (fixRestored server restored).Highest source top ↔
      restored.Highest source top) ∧
    ((fixRestored server restored).isContainedWithin server = true ↔
      restored.isContainedWithin server = true) ∧
    fixRestored server (fixRestored server restored) = fixRestored server restored := by
  refine ⟨fun source txn => ?_, sourceIds_fixRestored hrestored,
    fun source top => highest_fixRestored hserver hrestored,
    fixRestored_contained_iff hserver hrestored, fixRestored_fixRestored hserver hrestored⟩
  rw [contains_fixRestored hserver hrestored, hrestored.mem_sourceIds_iff]
  exact or_congr_right (and_iff_right_of_imp fun ⟨_, top, hhighest, _⟩ => ⟨top, hhighest⟩).symm

/-- A set that straddles two of the server's intervals, beside a source that only the server knows
and one that only the set knows. -/
theorem fixRestored_by_members_straddling :
    ∃ server restored completed, GtidSet.parse "s:1-3:5-9,t:1-4" = .ok server ∧
      GtidSet.parse "S:2:7,u:3" = .ok restored ∧ GtidSet.parse "s:1-3:5-7,u:3" = .ok completed ∧
      fixRestored server restored = completed ∧
      completed.contains "S" 5 = true ∧ ¬ completed.contains "S" 8 = true ∧
      completed.sourceIds = restored.sourceIds ∧ fixRestored server completed = completed := by
  let server : GtidSet := ⟨[("s", [⟨1, 3⟩, ⟨5, 9⟩]), ("t", [⟨1, 4⟩])]⟩
  let restored : GtidSet := ⟨[("s", [⟨2, 2⟩, ⟨7, 7⟩]), ("u", [⟨3, 3⟩])]⟩
  let completed : GtidSet := ⟨[("s", [⟨1, 3⟩, ⟨5, 7⟩]), ("u", [⟨3, 3⟩])]⟩
  have hserver : GtidSet.parse "s:1-3:5-9,t:1-4" = .ok server := by decide +kernel
  have hrestored : GtidSet.parse "S:2:7,u:3" = .ok restored := by decide +kernel
  have hfixed : fixRestored server restored = completed := by decide +kernel
  have hheld : restored.intervals "S" = [⟨2, 2⟩, ⟨7, 7⟩] := by decide +kernel
  have htop : restored.Highest "S" 7 := by
    refine ⟨by decide +kernel, fun u hu => ?_⟩
    rw [contains_iff, hheld] at hu
    simp only [Interval.holds_cons, Interval.not_holds_nil, or_false, Interval.contains_iff] at hu
    rw [UInt64.le_iff_toNat_le]
    rcases hu with ⟨-, hu⟩ | ⟨-, hu⟩
    · exact Nat.le_trans hu (by decide)
    · exact hu
  obtain ⟨hmembers, hsources, -, -, hagain⟩ :=
    fixRestored_by_members (.parse hserver) (.parse hrestored)
  rw [hfixed] at hmembers hsources hagain
  refine ⟨server, restored, completed, hserver, hrestored, by decide +kernel, hfixed,
    (hmembers "S" 5).mpr (.inr ⟨by decide +kernel, by decide +kernel, 7, htop, by decide⟩),
    by decide +kernel, hsources, hagain⟩

end GtidSet
end Changefeed
