import Mathlib.Data.List.Pairwise
import Changefeed.Gtid.Interval

/-!
# Coalesced lists of intervals

A coalesced list is determined by the transactions it holds.  Both facts behind this rest on the
gap between two consecutive intervals: an interval whose transactions are all held lies inside one
interval of the list, because it cannot cross a gap; and the first interval of a list is the
longest one that begins with the least transaction held.
-/

namespace Changefeed
namespace Interval

/-- The second interval begins above the first one and leaves a number out. -/
def Apart (i j : Interval) : Prop := i.last.toNat + 1 < j.first.toNat

/-- No interval is empty, and they ascend with a number left out between any two. -/
structure Coalesced (is : List Interval) : Prop where
  proper : ∀ i ∈ is, i.first ≤ i.last
  apart : is.Pairwise Apart

/-- The transaction is in one of the intervals. -/
def Holds (is : List Interval) (t : UInt64) : Prop := ∃ i ∈ is, i.contains t = true

lemma contains_iff {i : Interval} {t : UInt64} :
    i.contains t = true ↔ i.first.toNat ≤ t.toNat ∧ t.toNat ≤ i.last.toNat := by
  simp [contains, UInt64.le_iff_toNat_le]

lemma covers_iff {i j : Interval} :
    i.covers j = true ↔ i.first.toNat ≤ j.first.toNat ∧ j.last.toNat ≤ i.last.toNat := by
  simp [covers, UInt64.le_iff_toNat_le]

namespace Coalesced

variable {is js : List Interval} {i j : Interval}

lemma tail (h : Coalesced (i :: is)) : Coalesced is :=
  ⟨fun j hj => h.proper j (.tail _ hj), h.apart.of_cons⟩

lemma first_le_last (h : Coalesced is) (hi : i ∈ is) : i.first.toNat ≤ i.last.toNat :=
  UInt64.le_iff_toNat_le.mp (h.proper i hi)

lemma holds_first (h : Coalesced is) (hi : i ∈ is) : Holds is i.first :=
  ⟨i, hi, contains_iff.mpr ⟨Nat.le_refl _, h.first_le_last hi⟩⟩

lemma eq_or_apart (h : Coalesced is) (hi : i ∈ is) (hj : j ∈ is) :
    i = j ∨ Apart i j ∨ Apart j i := by
  by_cases hij : i = j
  · exact .inl hij
  · have hpair : is.Pairwise fun i j => Apart i j ∨ Apart j i := h.apart.imp .inl
    have : Std.Symm fun i j : Interval => Apart i j ∨ Apart j i := ⟨fun _ _ => Or.symm⟩
    exact .inr (hpair.forall hi hj hij)

/-- The number after an interval is in none of them. -/
lemma not_holds_next (h : Coalesced is) (hi : i ∈ is) {t : UInt64}
    (ht : t.toNat = i.last.toNat + 1) : ¬ Holds is t := by
  rintro ⟨j, hj, hjt⟩
  have hproper := h.first_le_last hi
  rw [contains_iff] at hjt
  rcases h.eq_or_apart hi hj with rfl | hap | hap
  · omega
  · unfold Apart at hap
    omega
  · unfold Apart at hap
    omega

/-- An interval whose transactions are all held lies inside one of the intervals. -/
lemma exists_covers (h : Coalesced is) (hj : j.first ≤ j.last)
    (hall : ∀ t, j.contains t = true → Holds is t) : ∃ i ∈ is, i.covers j = true := by
  have hj' : j.first.toNat ≤ j.last.toNat := UInt64.le_iff_toNat_le.mp hj
  obtain ⟨i, hi, hfirst⟩ := hall j.first (contains_iff.mpr ⟨Nat.le_refl _, hj'⟩)
  rw [contains_iff] at hfirst
  refine ⟨i, hi, covers_iff.mpr ⟨hfirst.1, ?_⟩⟩
  by_contra hlast
  have hbound := j.last.toNat_lt
  have hnext : (i.last + 1).toNat = i.last.toNat + 1 := by
    simp only [UInt64.toNat_add, UInt64.toNat_one]
    omega
  exact h.not_holds_next hi hnext (hall _ (contains_iff.mpr ⟨by omega, by omega⟩))

lemma first_le_of_holds (h : Coalesced (i :: is)) {t : UInt64} (ht : Holds (i :: is) t) :
    i.first.toNat ≤ t.toNat := by
  obtain ⟨j, hj, hjt⟩ := ht
  rw [contains_iff] at hjt
  have hproper := h.first_le_last (.head _)
  rcases List.mem_cons.mp hj with rfl | hj
  · exact hjt.1
  · have hap : Apart i j := (List.pairwise_cons.mp h.apart).1 j hj
    unfold Apart at hap
    omega

/-- The transactions of the tail are those above the first interval. -/
lemma holds_tail_iff (h : Coalesced (i :: is)) {t : UInt64} :
    Holds is t ↔ Holds (i :: is) t ∧ i.last.toNat < t.toNat := by
  constructor
  · rintro ⟨j, hj, hjt⟩
    have hap : Apart i j := (List.pairwise_cons.mp h.apart).1 j hj
    have hbounds := contains_iff.mp hjt
    unfold Apart at hap
    exact ⟨⟨j, .tail _ hj, hjt⟩, by omega⟩
  · rintro ⟨⟨j, hj, hjt⟩, hlast⟩
    rcases List.mem_cons.mp hj with rfl | hj
    · have hbounds := contains_iff.mp hjt
      omega
    · exact ⟨j, hj, hjt⟩

/-- The last number of the first interval is at most that of another list's first interval, when the
first list holds nothing that the second one does not. -/
lemma last_le (hi : Coalesced (i :: is)) (hj : Coalesced (j :: js))
    (hfirst : i.first.toNat = j.first.toNat)
    (hsub : ∀ t, Holds (i :: is) t → Holds (j :: js) t) : i.last.toNat ≤ j.last.toNat := by
  have hall : ∀ t, i.contains t = true → Holds (j :: js) t := fun t ht =>
    hsub t ⟨i, .head _, ht⟩
  obtain ⟨k, hk, hcov⟩ := hj.exists_covers (hi.proper i (.head _)) hall
  rw [covers_iff] at hcov
  rcases List.mem_cons.mp hk with rfl | hk
  · exact hcov.2
  · have hap : Apart j k := (List.pairwise_cons.mp hj.apart).1 k hk
    have hproper := hj.first_le_last (.head _)
    unfold Apart at hap
    omega

/-- Coalesced lists with the same transactions are the same. -/
lemma ext {is js : List Interval} (hi : Coalesced is) (hj : Coalesced js)
    (h : ∀ t, Holds is t ↔ Holds js t) : is = js := by
  induction is generalizing js with
  | nil =>
    cases js with
    | nil => rfl
    | cons j js =>
      obtain ⟨i, hi, -⟩ := (h j.first).mpr (hj.holds_first (.head _))
      exact absurd hi (List.not_mem_nil)
  | cons i is ih =>
    cases js with
    | nil =>
      obtain ⟨j, hj, -⟩ := (h i.first).mp (hi.holds_first (.head _))
      exact absurd hj (List.not_mem_nil)
    | cons j js =>
      have hfirst : i.first.toNat = j.first.toNat :=
        Nat.le_antisymm (hi.first_le_of_holds ((h _).mpr (hj.holds_first (.head _))))
          (hj.first_le_of_holds ((h _).mp (hi.holds_first (.head _))))
      have hlast : i.last.toNat = j.last.toNat :=
        Nat.le_antisymm (last_le hi hj hfirst fun t => (h t).mp)
          (last_le hj hi hfirst.symm fun t => (h t).mpr)
      have hij : i = j := by
        cases i
        cases j
        simp only [Interval.mk.injEq]
        exact ⟨UInt64.toNat_inj.mp hfirst, UInt64.toNat_inj.mp hlast⟩
      subst hij
      have htail : ∀ t, Holds is t ↔ Holds js t := fun t => by
        rw [hi.holds_tail_iff, hj.holds_tail_iff, h t]
      rw [ih hi.tail hj.tail htail]

end Coalesced
end Interval
end Changefeed
