import Changefeed.Gtid.Set
import Changefeed.Proofs.Gtid.Interval
import Changefeed.Proofs.SortedMap

/-!
# Sets of transactions in normal form

A set in normal form keeps its sources in lower case and in order, each with a coalesced list that
is not empty.  Such a set is determined by its members, and inclusion of sets, which is decided
interval by interval, is inclusion of members.  Inclusion is therefore a partial order.
-/

namespace Changefeed
namespace GtidSet

/-- The form that every operation on sets leaves behind. -/
structure Normal (s : GtidSet) : Prop where
  ascending : SortedMap.Ascending s.sources
  lowerCase : ∀ e ∈ s.sources, sourceName e.1 = e.1
  nonempty : ∀ e ∈ s.sources, e.2 ≠ []
  coalesced : ∀ e ∈ s.sources, Interval.Coalesced e.2

/-- The empty set is in normal form. -/
lemma normal_empty : Normal empty :=
  ⟨SortedMap.ascending_nil, by simp [empty], by simp [empty], by simp [empty]⟩

lemma toLower_toLower (c : Char) : c.toLower.toLower = c.toLower := by
  apply Char.ext
  unfold Char.toLower
  grind

@[simp] lemma sourceName_sourceName (source : String) :
    sourceName (sourceName source) = sourceName source := by
  have hchar : Char.toLower ∘ Char.toLower = Char.toLower := funext toLower_toLower
  rw [sourceName, sourceName, String.map_map, hchar]

/-! ## Members -/

lemma contains_iff {s : GtidSet} {source : String} {t : UInt64} :
    s.contains source t = true ↔ Interval.Holds (s.intervals source) t := by
  simp [contains, Interval.Holds]

lemma intervals_sourceName (s : GtidSet) (source : String) :
    s.intervals (sourceName source) = s.intervals source := by
  rw [intervals, sourceName_sourceName, intervals]

namespace Normal

variable {s t : GtidSet}

lemma intervals_of_mem (h : Normal s) {e : String × List Interval} (he : e ∈ s.sources) :
    s.intervals e.1 = e.2 := by
  have hfind : s.sources.find? e.1 = some e.2 := (SortedMap.find?_eq_some_iff h.ascending).mpr he
  rw [intervals, intervalsOf, h.lowerCase e he, hfind, Option.getD_some]

lemma coalesced_intervals (h : Normal s) (source : String) :
    Interval.Coalesced (s.intervals source) := by
  unfold intervals intervalsOf
  cases hfind : s.sources.find? (sourceName source) with
  | none => exact ⟨by simp, .nil⟩
  | some is => exact h.coalesced _ ((SortedMap.find?_eq_some_iff h.ascending).mp hfind)

/-- A list of intervals is kept under every name that has a transaction, and under no other. -/
lemma find?_eq (h : Normal s) (name : String) :
    s.sources.find? name =
      if sourceName name = name ∧ s.intervals name ≠ [] then some (s.intervals name) else none := by
  cases hfind : s.sources.find? name with
  | none =>
    split
    · next hname =>
      refine absurd ?_ hname.2
      rw [intervals, intervalsOf, hname.1, hfind, Option.getD_none]
    · rfl
  | some is =>
    have hmem := (SortedMap.find?_eq_some_iff h.ascending).mp hfind
    have hints : s.intervals name = is := h.intervals_of_mem hmem
    rw [hints, if_pos ⟨h.lowerCase _ hmem, h.nonempty _ hmem⟩]

/-- Sets with the same members are the same. -/
lemma ext (hs : Normal s) (ht : Normal t)
    (h : ∀ source txn, s.contains source txn = true ↔ t.contains source txn = true) : s = t := by
  have hints : ∀ source, s.intervals source = t.intervals source := fun source =>
    (hs.coalesced_intervals source).ext (ht.coalesced_intervals source) fun txn => by
      rw [← contains_iff, ← contains_iff, h]
  have hsources : s.sources = t.sources :=
    SortedMap.ext_find? hs.ascending ht.ascending fun name => by
      rw [hs.find?_eq, ht.find?_eq, hints]
  cases s
  cases t
  rw [GtidSet.mk.injEq]
  exact hsources

/-! ## Inclusion -/

/-- One set is contained in another one when its members are. -/
lemma isContainedWithin_iff (hs : Normal s) (ht : Normal t) :
    s.isContainedWithin t = true ↔
      ∀ source txn, s.contains source txn = true → t.contains source txn = true := by
  simp only [isContainedWithin, List.all_eq_true, List.any_eq_true]
  constructor
  · intro h source txn hmem
    rw [contains_iff, intervals, intervalsOf] at hmem
    cases hfind : s.sources.find? (sourceName source) with
    | none =>
      rw [hfind] at hmem
      obtain ⟨i, hi, -⟩ := hmem
      exact absurd hi List.not_mem_nil
    | some is =>
      rw [hfind] at hmem
      obtain ⟨i, hi, hit⟩ := hmem
      have hentry := (SortedMap.find?_eq_some_iff hs.ascending).mp hfind
      obtain ⟨j, hj, hcov⟩ := h _ hentry i hi
      rw [intervals_sourceName] at hj
      rw [Interval.covers_iff] at hcov
      rw [Interval.contains_iff] at hit
      exact contains_iff.mpr ⟨j, hj, Interval.contains_iff.mpr ⟨by omega, by omega⟩⟩
  · intro h e he i hi
    refine (ht.coalesced_intervals e.1).exists_covers ((hs.coalesced e he).proper i hi) ?_
    intro txn htxn
    refine contains_iff.mp (h e.1 txn (contains_iff.mpr ?_))
    rw [hs.intervals_of_mem he]
    exact ⟨i, hi, htxn⟩

lemma isContainedWithin_trans {u : GtidSet} (hs : Normal s) (ht : Normal t) (hu : Normal u)
    (hst : s.isContainedWithin t = true) (htu : t.isContainedWithin u = true) :
    s.isContainedWithin u = true := by
  rw [isContainedWithin_iff hs ht] at hst
  rw [isContainedWithin_iff ht hu] at htu
  rw [isContainedWithin_iff hs hu]
  exact fun source txn h => htu source txn (hst source txn h)

lemma isContainedWithin_antisymm (hs : Normal s) (ht : Normal t)
    (hst : s.isContainedWithin t = true) (hts : t.isContainedWithin s = true) : s = t := by
  rw [isContainedWithin_iff hs ht] at hst
  rw [isContainedWithin_iff ht hs] at hts
  exact hs.ext ht fun source txn => ⟨hst source txn, hts source txn⟩

end Normal
end GtidSet
end Changefeed
