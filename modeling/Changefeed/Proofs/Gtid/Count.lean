import Mathlib.Data.Set.Card
import Changefeed.Proofs.Gtid.Algebra

/-!
# Counting transactions

The members of a set are counted under the names that their sources are kept under, so that a
source that can be written in several ways counts once.  In normal form no two intervals share a
transaction, and a list of all members without repetition is as long as the intervals are together.

`transactionCount` adds up words and stops at the greatest one, twice: in the number of transactions
of an interval, which is one too great for a word when the interval is the whole range, and in the
running sum.  Every summand is at least zero, so a sum that has stopped stays where it is, and
stopping on the way comes to the same as stopping at the end.
-/

namespace Changefeed

/-! ## Intervals -/

namespace Interval

variable {i : Interval} {is : List Interval} {t : UInt64}

/-- The number of transactions in the interval. -/
def size (i : Interval) : Nat := i.last.toNat + 1 - i.first.toNat

/-- The transactions of the interval, ascending. -/
def numbers (i : Interval) : List UInt64 := (List.range' i.first.toNat i.size).map UInt64.ofNat

@[simp] lemma length_numbers (i : Interval) : i.numbers.length = i.size := by simp [numbers]

lemma toNat_ofNat_of_mem_range' {n : Nat} (h : n ∈ List.range' i.first.toNat i.size) :
    (UInt64.ofNat n).toNat = n := by
  have hlast := i.last.toNat_lt
  rw [List.mem_range'_1, size] at h
  rw [UInt64.toNat_ofNat']
  exact Nat.mod_eq_of_lt (by omega)

lemma mem_numbers : t ∈ i.numbers ↔ i.contains t = true := by
  rw [numbers, List.mem_map, contains_iff]
  constructor
  · rintro ⟨n, hn, rfl⟩
    rw [toNat_ofNat_of_mem_range' hn]
    rw [List.mem_range'_1, size] at hn
    omega
  · intro h
    refine ⟨t.toNat, ?_, UInt64.ofNat_toNat⟩
    rw [List.mem_range'_1, size]
    omega

lemma nodup_numbers (i : Interval) : i.numbers.Nodup := by
  refine List.Nodup.map_on (fun m hm n hn heq => ?_) List.nodup_range'
  rw [← toNat_ofNat_of_mem_range' hm, heq, toNat_ofNat_of_mem_range' hn]

lemma Coalesced.nodup_numbers (h : Coalesced is) : (is.flatMap numbers).Nodup := by
  refine List.nodup_flatMap.mpr ⟨fun i _ => i.nodup_numbers, h.apart.imp fun {i j} hap t hi hj => ?_⟩
  rw [mem_numbers, contains_iff] at hi hj
  unfold Apart at hap
  omega

end Interval

/-! ## Members -/

namespace GtidSet

open Changefeed.Interval (maxTxn)

variable {s : GtidSet}

/-- The transactions of the set, each with the name that its source is kept under. -/
def members (s : GtidSet) : Set (String × UInt64) :=
  {m | sourceName m.1 = m.1 ∧ s.contains m.1 m.2 = true}

/-- The members, source by source and interval by interval. -/
def listMembers (s : GtidSet) : List (String × UInt64) :=
  s.sources.flatMap fun e => (e.2.flatMap Interval.numbers).map (Prod.mk e.1)

lemma Normal.mem_listMembers (h : Normal s) {m : String × UInt64} :
    m ∈ s.listMembers ↔ m ∈ s.members := by
  obtain ⟨source, t⟩ := m
  simp only [listMembers, members, List.mem_flatMap, List.mem_map, Prod.mk.injEq, Set.mem_ofPred_eq]
  constructor
  · rintro ⟨e, he, t, ⟨i, hi, ht⟩, rfl, rfl⟩
    refine ⟨h.lowerCase e he, contains_iff.mpr ?_⟩
    rw [h.intervals_of_mem he]
    exact ⟨i, hi, Interval.mem_numbers.mp ht⟩
  · rintro ⟨hname, hmem⟩
    obtain ⟨i, hi, ht⟩ := contains_iff.mp hmem
    have hfind : s.sources.find? source = some (s.intervals source) := by
      rw [h.find?_eq, if_pos ⟨hname, List.ne_nil_of_mem hi⟩]
    exact ⟨_, (SortedMap.find?_eq_some_iff h.ascending).mp hfind, t,
      ⟨i, hi, Interval.mem_numbers.mpr ht⟩, rfl, rfl⟩

lemma Normal.nodup_listMembers (h : Normal s) : s.listMembers.Nodup := by
  have hkeys : s.sources.Pairwise fun e f => e.1 ≠ f.1 :=
    List.pairwise_map.mp h.ascending.nodup_keys
  refine List.nodup_flatMap.mpr ⟨fun e he => ?_, hkeys.imp fun {e f} hne m he hf => ?_⟩
  · exact (h.coalesced e he).nodup_numbers.map (Prod.mk_right_injective e.1)
  · obtain ⟨_, -, rfl⟩ := List.mem_map.mp he
    obtain ⟨_, -, heq⟩ := List.mem_map.mp hf
    exact hne (Prod.mk.inj heq).1.symm

lemma length_listMembers (s : GtidSet) :
    s.listMembers.length = (s.sources.values.flatten.map Interval.size).sum := by
  rw [listMembers, SortedMap.values]
  induction s.sources with
  | nil => rfl
  | cons e rest ih =>
    rw [List.flatMap_cons, List.length_append, ih, List.map_cons, List.flatten_cons,
      List.map_append, List.sum_append, List.length_map, List.length_flatMap]
    simp only [Interval.length_numbers]

/-! ## The count -/

/-- Adding words stops at the greatest one. -/
lemma toNat_addCapped (a b : UInt64) :
    (addCapped a b).toNat = min maxTxn.toNat (a.toNat + b.toNat) := by
  have ha := a.toNat_lt
  have hb := b.toNat_lt
  have hmax : maxTxn.toNat = 0xFFFFFFFFFFFFFFFF := rfl
  unfold addCapped
  split
  · next hlt =>
    rw [UInt64.lt_iff_toNat_lt, UInt64.toNat_add] at hlt
    omega
  · next hge =>
    rw [UInt64.lt_iff_toNat_lt, UInt64.toNat_add] at hge
    rw [UInt64.toNat_add]
    omega

/-- The summand of an interval. -/
def summand (i : Interval) : UInt64 := addCapped (i.last - i.first) 1

lemma toNat_last_sub_first {i : Interval} (hi : i.first ≤ i.last) :
    (i.last - i.first).toNat + 1 = i.size := by
  rw [UInt64.toNat_sub_of_le _ _ hi, Interval.size]
  rw [UInt64.le_iff_toNat_le] at hi
  omega

/-- The running sum is the number of transactions so far, up to the greatest word. -/
lemma toNat_foldl_summand {is : List Interval} (his : ∀ i ∈ is, i.first ≤ i.last) (a : UInt64) :
    ((is.map summand).foldl addCapped a).toNat =
      min maxTxn.toNat (a.toNat + (is.map Interval.size).sum) := by
  induction is generalizing a with
  | nil =>
    have ha := a.toNat_lt
    have hmax : maxTxn.toNat = 0xFFFFFFFFFFFFFFFF := rfl
    simp only [List.map_nil, List.foldl_nil, List.sum_nil]
    omega
  | cons i rest ih =>
    have hsize := toNat_last_sub_first (his i (.head _))
    have hone : (1 : UInt64).toNat = 1 := rfl
    rw [List.map_cons, List.foldl_cons, ih (fun j hj => his j (.tail _ hj)), toNat_addCapped,
      summand, toNat_addCapped, hone, hsize, List.map_cons, List.sum_cons]
    omega

lemma Normal.first_le_last (h : Normal s) :
    ∀ i ∈ s.sources.values.flatten, i.first ≤ i.last := by
  intro i hi
  obtain ⟨is, his, hi⟩ := List.mem_flatten.mp hi
  obtain ⟨e, he, rfl⟩ := List.mem_map.mp his
  exact (h.coalesced e he).proper i hi

/-- The count of a set in normal form is the number of its members or, where there are more, the
greatest word.  On the way no subtraction wraps, and every running sum is the number of transactions
in the intervals looked at so far, up to the greatest word. -/
theorem transactionCount_eq_ncard (h : Normal s) :
    s.members.Finite ∧
    s.transactionCount.toNat = min maxTxn.toNat s.members.ncard ∧
    (∀ i ∈ s.sources.values.flatten, (i.last - i.first).toNat + 1 = i.size) ∧
    ∀ is, is <+: s.sources.values.flatten →
      ((is.map summand).foldl addCapped 0).toNat =
        min maxTxn.toNat (is.map Interval.size).sum := by
  have hmembers : s.members = (s.listMembers.toFinset : Set (String × UInt64)) := by
    ext m
    rw [List.coe_toFinset, Set.mem_ofPred_eq, h.mem_listMembers]
  have hcard : s.members.ncard = (s.sources.values.flatten.map Interval.size).sum := by
    rw [hmembers, Set.ncard_coe_finset, List.toFinset_card_of_nodup h.nodup_listMembers,
      length_listMembers]
  have hrunning : ∀ is, is <+: s.sources.values.flatten →
      ((is.map summand).foldl addCapped 0).toNat =
        min maxTxn.toNat (is.map Interval.size).sum := fun is his => by
    rw [toNat_foldl_summand fun i hi => h.first_le_last i (his.subset hi)]
    simp
  refine ⟨hmembers ▸ Finset.finite_toSet _, ?_, fun i hi => ?_, hrunning⟩
  · rw [hcard, ← hrunning _ (List.prefix_refl _)]
    rfl
  · exact toNat_last_sub_first (h.first_le_last i hi)

/-- All transactions of one source and some of another one are more than a word can count. -/
theorem transactionCount_eq_ncard_whole :
    let s := ((empty.add "A" ⟨0, maxTxn⟩).add "b" ⟨7, 7⟩).add "B" ⟨1, 3⟩
    Normal s ∧ s.transactionCount = maxTxn ∧ s.members.Finite ∧
      s.transactionCount.toNat = min maxTxn.toNat s.members.ncard := by
  intro s
  have hnormal : Normal s :=
    ((normal_empty.add "A" (by decide)).add "b" (by decide)).add "B" (by decide)
  obtain ⟨hfinite, hcount, -⟩ := transactionCount_eq_ncard hnormal
  exact ⟨hnormal, by decide +kernel, hfinite, hcount⟩

end GtidSet
end Changefeed
