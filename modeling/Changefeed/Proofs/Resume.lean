import Changefeed.Proofs.Gtid.Completed
import Changefeed.Resume

/-!
# When a transaction set can be served

The check completes the requested set, compares sets and subtracts twice.  Its verdict depends on
members only: the server must know all that was requested, and it must have purged nothing it knows
beyond what the requested set has come as far as.

What the requested set has come as far as is more than what it has.  A set with a gap, a transaction
that it lacks below its highest one of the same source, can therefore be served although the server
has purged that transaction.  For sets without such a gap, counting what is left from the requested
set and counting it from the completed one give the same verdict.
-/

namespace Changefeed
namespace Resume

open GtidSet (Built Normal Reaches)

variable {requested known purged : GtidSet}

/-- What is outstanding after completing is what the server knows beyond the requested set. -/
lemma contains_outstanding (hr : Normal requested) (hk : Normal known) {source : String}
    {txn : UInt64} :
    (known.subtract (GtidSet.fixRestored known requested)).contains source txn = true ↔
      known.contains source txn = true ∧ ¬ requested.Reaches source txn := by
  rw [GtidSet.contains_subtract hk, GtidSet.contains_fixRestored hk hr]
  constructor
  · rintro ⟨hknown, hnot⟩
    exact ⟨hknown, fun hreach => hnot (.inr ⟨hknown, hreach⟩)⟩
  · rintro ⟨hknown, hnot⟩
    refine ⟨hknown, ?_⟩
    rintro (hmem | ⟨-, hreach⟩)
    · exact hnot (hr.reaches_of_contains hmem)
    · exact hnot hreach

/-- A set with members can be served when it is contained in what the server knows and subtracting
what was purged takes nothing away from what is outstanding. -/
lemma checkGtidSet_eq_none_iff (hr : Normal requested) (hk : Normal known)
    (hne : requested.isEmpty = false) :
    checkGtidSet requested known purged = none ↔
      requested.isContainedWithin known = true ∧
        (known.subtract (GtidSet.fixRestored known requested)).subtract purged =
          known.subtract (GtidSet.fixRestored known requested) := by
  unfold checkGtidSet
  rw [if_neg (by simp [hne])]
  split
  · next hempty =>
    -- the requested set has a member, which a server without transactions does not know
    have hnot : ¬ requested.isContainedWithin known = true := fun hsub => by
      obtain ⟨source, txn, hmem⟩ := hr.exists_member hne
      exact GtidSet.not_contains_of_isEmpty hempty
        ((Normal.isContainedWithin_iff hr hk).mp hsub source txn hmem)
    simp [hnot]
  · simp only [GtidSet.fixRestored_contained_iff hk hr]
    split
    · next hsub =>
      simp only [hsub, true_and]
      split
      · next heq => simp [← heq]
      · next hneq => simp [Ne.symm hneq]
    · next hsub => simp [hsub]

/-! ## The verdict by members -/

/-- A set can be served exactly when it is empty, or the server knows all of it and has purged
nothing that it knows beyond what the set has come as far as. -/
theorem servable_iff (hr : Built requested) (hk : Built known) (hp : Built purged) :
    checkGtidSet requested known purged = none ↔
      requested.isEmpty = true ∨
        (∀ source txn, requested.contains source txn = true →
          known.contains source txn = true) ∧
        ∀ source txn, known.contains source txn = true → purged.contains source txn = true →
          ∃ top, requested.Highest source top ∧ txn ≤ top := by
  cases hempty : requested.isEmpty with
  | true => simp [checkGtidSet, hempty]
  | false =>
    have hout := hk.normal.subtract (hk.normal.fixRestored hr.normal)
    rw [checkGtidSet_eq_none_iff hr.normal hk.normal hempty,
      Normal.isContainedWithin_iff hr.normal hk.normal,
      GtidSet.subtract_eq_self_iff hout hp.normal]
    simp only [contains_outstanding hr.normal hk.normal, Bool.false_eq_true, false_or]
    refine and_congr_right fun _ => ?_
    constructor
    · intro h source txn hknown hpurged
      by_contra hnot
      exact h source txn ⟨hknown, hnot⟩ hpurged
    · rintro h source txn ⟨hknown, hnot⟩ hpurged
      exact hnot (h source txn hknown hpurged)

/-- A set that lacks three transactions below its highest one. -/
def gapped : GtidSet := ⟨[("s", [⟨1, 3⟩, ⟨7, 10⟩])]⟩

/-- A set without a gap. -/
def whole : GtidSet := ⟨[("s", [⟨1, 10⟩])]⟩

/-- The transactions that `gapped` lacks. -/
def gap : GtidSet := ⟨[("s", [⟨4, 6⟩])]⟩

lemma parse_gapped : GtidSet.parse "s:1-3:7-10" = .ok gapped := by decide +kernel

lemma parse_whole : GtidSet.parse "s:1-10" = .ok whole := by decide +kernel

lemma parse_gap : GtidSet.parse "s:4-6" = .ok gap := by decide +kernel

/-- A set with a gap can be served although the gap was purged. -/
theorem servable_iff_gapped :
    Built gapped ∧ Built whole ∧ Built gap ∧ checkGtidSet gapped whole gap = none ∧
      ∀ source txn, whole.contains source txn = true → gap.contains source txn = true →
        ∃ top, gapped.Highest source top ∧ txn ≤ top := by
  have hcheck : checkGtidSet gapped whole gap = none := by decide +kernel
  have hiff := servable_iff (.parse parse_gapped) (.parse parse_whole) (.parse parse_gap)
  have hempty : ¬ gapped.isEmpty = true := by decide
  exact ⟨.parse parse_gapped, .parse parse_whole, .parse parse_gap, hcheck,
    ((hiff.mp hcheck).resolve_left hempty).2⟩

/-! ## What is left, counted from the requested set -/

/-- Counting what is left from the requested set itself would refuse it: all that the server knows
beyond it has been purged. -/
theorem purged_gap_is_served :
    ∃ requested known purged, GtidSet.parse "s:1-3:7-10" = .ok requested ∧
      GtidSet.parse "s:1-10" = .ok known ∧ GtidSet.parse "s:4-6" = .ok purged ∧
      requested.isEmpty = false ∧ requested.isContainedWithin known = true ∧
      checkGtidSet requested known purged = none ∧
      (known.subtract requested).subtract purged ≠ known.subtract requested := by
  refine ⟨gapped, whole, gap, parse_gapped, parse_whole, parse_gap, by decide, by decide +kernel,
    by decide +kernel, ?_⟩
  have hleft : (whole.subtract gapped).subtract gap = .empty := by decide +kernel
  have houtstanding : whole.subtract gapped = gap := by decide +kernel
  rw [hleft, houtstanding]
  decide

/-- A set with members that the server knows can be served exactly when purging has taken nothing
away from what is left after completing it.  It is refused when something was purged that it has not
come as far as, and counting what is left from the set itself gives the same verdict when nothing
was purged in its gaps. -/
theorem served_iff_nothing_purged (hr : Built requested) (hk : Built known) (hp : Built purged)
    (hne : requested.isEmpty = false) (hsub : requested.isContainedWithin known = true) :
    (checkGtidSet requested known purged = none ↔
      (known.subtract (GtidSet.fixRestored known requested)).subtract purged =
        known.subtract (GtidSet.fixRestored known requested)) ∧
    (∀ source txn, known.contains source txn = true → ¬ requested.Reaches source txn →
      purged.contains source txn = true → checkGtidSet requested known purged ≠ none) ∧
    ((∀ source txn, (known.subtract requested).contains source txn = true →
        purged.contains source txn = true → ¬ requested.Reaches source txn) →
      (checkGtidSet requested known purged = none ↔
        (known.subtract requested).subtract purged = known.subtract requested)) := by
  have hcheck : checkGtidSet requested known purged = none ↔
      (known.subtract (GtidSet.fixRestored known requested)).subtract purged =
        known.subtract (GtidSet.fixRestored known requested) := by
    rw [checkGtidSet_eq_none_iff hr.normal hk.normal hne]
    exact and_iff_right hsub
  have hmembers : checkGtidSet requested known purged = none ↔
      ∀ source txn, known.contains source txn = true → ¬ requested.Reaches source txn →
        ¬ purged.contains source txn = true := by
    rw [hcheck, GtidSet.subtract_eq_self_iff
      (hk.normal.subtract (hk.normal.fixRestored hr.normal)) hp.normal]
    simp only [contains_outstanding hr.normal hk.normal, and_imp]
  refine ⟨hcheck, fun source txn hknown hreach hpurged hnone => ?_, fun hgaps => ?_⟩
  · exact hmembers.mp hnone source txn hknown hreach hpurged
  · rw [hmembers, GtidSet.subtract_eq_self_iff (hk.normal.subtract hr.normal) hp.normal]
    constructor
    · intro h source txn hleft hpurged
      have hknown := ((GtidSet.contains_subtract hk.normal).mp hleft).1
      exact h source txn hknown (hgaps source txn hleft hpurged) hpurged
    · intro h source txn hknown hreach
      refine h source txn ((GtidSet.contains_subtract hk.normal).mpr ⟨hknown, fun hmem => ?_⟩)
      exact hreach (hr.normal.reaches_of_contains hmem)

/-- The completed set is all that the server knows, so nothing is left that could be missing. -/
theorem served_iff_nothing_purged_gapped :
    gapped.isEmpty = false ∧ gapped.isContainedWithin whole = true ∧
      checkGtidSet gapped whole gap = none ∧
      (whole.subtract (GtidSet.fixRestored whole gapped)).subtract gap =
        whole.subtract (GtidSet.fixRestored whole gapped) := by
  have hne : gapped.isEmpty = false := by decide
  have hsub : gapped.isContainedWithin whole = true := by decide +kernel
  have hcheck : checkGtidSet gapped whole gap = none := by decide +kernel
  have hlaw := served_iff_nothing_purged (.parse parse_gapped) (.parse parse_whole)
    (.parse parse_gap) hne hsub
  exact ⟨hne, hsub, hcheck, hlaw.1.mp hcheck⟩

end Resume
end Changefeed
