import Changefeed.Proofs.Gtid.Interval

/-!
# Operations on lists of intervals

Each operation is described twice: by the transactions that its result holds, and by the form of its
result.  Joining brings any list into coalesced form, because a sorted list is worked off from its
first interval on and the interval under work has everything before it behind it.  Cutting pieces
out never joins anything, so it keeps the form: what is left of an interval lies inside it, and the
gaps to the other intervals stay.

Numbers end at the greatest one, which has no successor.  Two intervals therefore touch when the
second one begins at most one above the last number of the first one, read as natural numbers.
-/

namespace Changefeed
namespace Interval

variable {i j r : Interval} {is js rs : List Interval} {t : UInt64}

/-! ## Holding -/

@[simp] lemma not_holds_nil : ¬ Holds [] t := by simp [Holds]

@[simp] lemma holds_cons : Holds (i :: is) t ↔ i.contains t = true ∨ Holds is t := by
  simp [Holds]

lemma holds_append : Holds (is ++ js) t ↔ Holds is t ∨ Holds js t := by
  simp [Holds, or_and_right, exists_or]

lemma holds_flatMap {f : Interval → List Interval} :
    Holds (is.flatMap f) t ↔ ∃ i ∈ is, Holds (f i) t := by
  simp only [Holds, List.mem_flatMap]
  constructor
  · rintro ⟨p, ⟨i, hi, hp⟩, ht⟩
    exact ⟨i, hi, p, hp, ht⟩
  · rintro ⟨i, hi, p, hp, ht⟩
    exact ⟨p, ⟨i, hi, hp⟩, ht⟩

lemma contains_first (h : i.first ≤ i.last) : i.contains i.first = true :=
  contains_iff.mpr ⟨Nat.le_refl _, UInt64.le_iff_toNat_le.mp h⟩

lemma contains_last (h : i.first ≤ i.last) : i.contains i.last = true :=
  contains_iff.mpr ⟨UInt64.le_iff_toNat_le.mp h, Nat.le_refl _⟩

/-- An interval whose ends are in order can be made from them. -/
lemma make_of_le (h : i.first ≤ i.last) : make i.first i.last = .ok i :=
  if_neg (UInt64.not_lt.mpr h)

lemma first_le_last_of_make {first last : UInt64} (h : make first last = .ok i) :
    i.first ≤ i.last := by
  unfold make at h
  split at h
  · cases h
  · next hends =>
    obtain rfl := Except.ok.inj h
    exact UInt64.not_lt.mp hends

namespace Coalesced

lemma nil : Coalesced [] := ⟨by simp, .nil⟩

lemma singleton (h : i.first ≤ i.last) : Coalesced [i] :=
  ⟨by simpa using h, List.pairwise_singleton ..⟩

/-- When each interval is replaced by a coalesced list of transactions inside it, the gaps between
the intervals stay. -/
lemma flatMap {f : Interval → List Interval} (h : Coalesced is)
    (hf : ∀ i ∈ is, Coalesced (f i)) (hin : ∀ i ∈ is, ∀ t, Holds (f i) t → i.contains t = true) :
    Coalesced (is.flatMap f) := by
  refine ⟨?_, List.pairwise_flatMap.mpr ⟨fun i hi => (hf i hi).apart, ?_⟩⟩
  · intro p hp
    obtain ⟨i, hi, hp⟩ := List.mem_flatMap.mp hp
    exact (hf i hi).proper p hp
  · refine h.apart.imp_of_mem fun {i j} hi hj hij p hp q hq => ?_
    have hlast := contains_iff.mp (hin i hi _ ⟨p, hp, contains_last ((hf i hi).proper p hp)⟩)
    have hfirst := contains_iff.mp (hin j hj _ ⟨q, hq, contains_first ((hf j hj).proper q hq)⟩)
    unfold Apart at hij ⊢
    omega

/-- The last interval ends with the highest transaction. -/
lemma last_of_getLast? (h : Coalesced is) (hlast : is.getLast? = some i) :
    Holds is i.last ∧ ∀ t, Holds is t → t ≤ i.last := by
  obtain ⟨js, rfl⟩ := List.getLast?_eq_some_iff.mp hlast
  have hi : i ∈ js ++ [i] := by simp
  refine ⟨⟨i, hi, contains_last (h.proper i hi)⟩, ?_⟩
  rintro t ⟨j, hj, ht⟩
  have hproper := h.first_le_last hi
  rw [contains_iff] at ht
  rw [UInt64.le_iff_toNat_le]
  rcases List.mem_append.mp hj with hj | hj
  · have hap : Apart j i := (List.pairwise_append.mp h.apart).2.2 j hj i (by simp)
    unfold Apart at hap
    omega
  · obtain rfl := List.mem_singleton.mp hj
    exact ht.2

end Coalesced

/-! ## Sorting -/

lemma first_le_of_compare_ne_gt (h : compare i j ≠ .gt) : i.first.toNat ≤ j.first.toNat := by
  by_contra hlt
  have hgt : compare i.first j.first = .gt :=
    Std.OrientedCmp.gt_iff_lt.mpr
      (compareOfLessAndEq_eq_lt.mpr (UInt64.lt_iff_toNat_lt.mpr (by omega)))
  refine h ?_
  show (compare i.first j.first).then (compare i.last j.last) = .gt
  rw [hgt]
  rfl

lemma first_le_of_compare_gt (h : compare i j = .gt) : j.first.toNat ≤ i.first.toNat := by
  by_contra hlt
  have hl : compare i.first j.first = .lt :=
    compareOfLessAndEq_eq_lt.mpr (UInt64.lt_iff_toNat_lt.mpr (by omega))
  change (compare i.first j.first).then (compare i.last j.last) = .gt at h
  rw [hl] at h
  cases h

/-- The intervals begin one after the other. -/
def Ascending (is : List Interval) : Prop :=
  is.Pairwise fun i j => i.first.toNat ≤ j.first.toNat

lemma mem_insertSorted : j ∈ insertSorted i is ↔ j = i ∨ j ∈ is := by
  induction is with
  | nil => simp [insertSorted]
  | cons k rest ih =>
    unfold insertSorted
    split
    · simp only [List.mem_cons, ih]
      exact or_left_comm
    · simp

lemma ascending_insertSorted (h : Ascending is) : Ascending (insertSorted i is) := by
  induction is with
  | nil => exact List.pairwise_singleton ..
  | cons k rest ih =>
    obtain ⟨hk, hrest⟩ := List.pairwise_cons.mp h
    unfold insertSorted
    split
    · next hgt =>
      refine List.pairwise_cons.mpr ⟨fun j hj => ?_, ih hrest⟩
      rcases mem_insertSorted.mp hj with rfl | hj
      · exact first_le_of_compare_gt hgt
      · exact hk j hj
    · next hngt =>
      have hik := first_le_of_compare_ne_gt hngt
      refine List.pairwise_cons.mpr ⟨fun j hj => ?_, h⟩
      rcases List.mem_cons.mp hj with rfl | hj
      · exact hik
      · exact Nat.le_trans hik (hk j hj)

@[simp] lemma mem_sort : j ∈ sort is ↔ j ∈ is := by
  induction is with
  | nil => rfl
  | cons i rest ih =>
    change j ∈ insertSorted i (sort rest) ↔ _
    rw [mem_insertSorted, ih, List.mem_cons]

lemma ascending_sort (is : List Interval) : Ascending (sort is) := by
  induction is with
  | nil => exact .nil
  | cons i rest ih => exact ascending_insertSorted ih

/-! ## Joining -/

/-- The next number is one more, but for the greatest number, which nothing exceeds. -/
lemma le_succ_iff {a b : UInt64} : a ≤ succ b ↔ a.toNat ≤ b.toNat + 1 := by
  have ha := a.toNat_lt
  unfold succ
  rw [UInt64.le_iff_toNat_le]
  split
  · next hb =>
    rw [hb]
    simp only [maxTxn, UInt64.reduceToNat]
    omega
  · next hb =>
    have hb' : b.toNat ≠ 0xFFFFFFFFFFFFFFFF := fun h => hb (UInt64.toNat_inj.mp h)
    have hlt := b.toNat_lt
    rw [UInt64.toNat_add, UInt64.toNat_one]
    omega

lemma touches_iff (hj : j.first ≤ j.last) (hij : i.first.toNat ≤ j.first.toNat) :
    i.touches j = true ↔ j.first.toNat ≤ i.last.toNat + 1 := by
  rw [UInt64.le_iff_toNat_le] at hj
  simp only [touches, Bool.and_eq_true, decide_eq_true_eq, le_succ_iff]
  omega

lemma toNat_max (a b : UInt64) : (max a b).toNat = max a.toNat b.toNat := by
  simp only [Max.max, UInt64.le_iff_toNat_le]
  split <;> rfl

lemma contains_join (hij : i.first.toNat ≤ j.first.toNat)
    (htouch : j.first.toNat ≤ i.last.toNat + 1) :
    (Interval.mk i.first (max i.last j.last)).contains t = true ↔
      i.contains t = true ∨ j.contains t = true := by
  simp only [contains_iff, toNat_max]
  omega

/-- Joining holds what was held before. -/
lemma holds_coalesceFrom (his : ∀ j ∈ is, j.first ≤ j.last) (hasc : Ascending (i :: is)) :
    Holds (coalesceFrom i is) t ↔ Holds (i :: is) t := by
  induction is generalizing i with
  | nil => rfl
  | cons j rest ih =>
    obtain ⟨hi, hrest⟩ := List.pairwise_cons.mp hasc
    have hij := hi j (.head _)
    have hrest' : ∀ k ∈ rest, k.first ≤ k.last := fun k hk => his k (.tail _ hk)
    unfold coalesceFrom
    split
    · next htouch =>
      rw [touches_iff (his j (.head _)) hij] at htouch
      have hjoined : Ascending (⟨i.first, max i.last j.last⟩ :: rest) :=
        List.pairwise_cons.mpr ⟨fun k hk => hi k (.tail _ hk), hrest.of_cons⟩
      rw [ih hrest' hjoined, holds_cons, contains_join hij htouch, holds_cons, holds_cons, or_assoc]
    · rw [holds_cons, ih hrest' hrest, holds_cons, holds_cons, holds_cons]

/-- Joining gives a coalesced list. -/
lemma coalesced_coalesceFrom (hi : i.first ≤ i.last) (his : ∀ j ∈ is, j.first ≤ j.last)
    (hasc : Ascending (i :: is)) : Coalesced (coalesceFrom i is) := by
  induction is generalizing i with
  | nil => exact .singleton hi
  | cons j rest ih =>
    obtain ⟨hfirst, hrest⟩ := List.pairwise_cons.mp hasc
    have hij := hfirst j (.head _)
    have hj := his j (.head _)
    have hrest' : ∀ k ∈ rest, k.first ≤ k.last := fun k hk => his k (.tail _ hk)
    unfold coalesceFrom
    split
    · have hsorted : Ascending (⟨i.first, max i.last j.last⟩ :: rest) :=
        List.pairwise_cons.mpr ⟨fun k hk => hfirst k (.tail _ hk), hrest.of_cons⟩
      refine ih ?_ hrest' hsorted
      rw [UInt64.le_iff_toNat_le] at hi ⊢
      simp only [toNat_max]
      omega
    · next htouch =>
      rw [touches_iff hj hij] at htouch
      have hrec := ih hj hrest' hrest
      refine ⟨?_, List.pairwise_cons.mpr ⟨fun k hk => ?_, hrec.apart⟩⟩
      · intro k hk
        rcases List.mem_cons.mp hk with rfl | hk
        · exact hi
        · exact hrec.proper k hk
      · -- the rest holds nothing below the first interval that does not touch
        have hheld : Holds (j :: rest) k.first :=
          (holds_coalesceFrom hrest' hrest).mp (hrec.holds_first hk)
        obtain ⟨l, hl, hkl⟩ := hheld
        rw [contains_iff] at hkl
        have hjl : j.first.toNat ≤ l.first.toNat := by
          rcases List.mem_cons.mp hl with rfl | hl
          · exact Nat.le_refl _
          · exact (List.pairwise_cons.mp hrest).1 l hl
        unfold Apart
        omega

@[simp] lemma holds_sort : Holds (sort is) t ↔ Holds is t := by
  simp only [Holds, mem_sort]

lemma holds_normalize (his : ∀ i ∈ is, i.first ≤ i.last) :
    Holds (normalize is) t ↔ Holds is t := by
  refine Iff.trans ?_ holds_sort
  have hasc := ascending_sort is
  have hproper : ∀ i ∈ sort is, i.first ≤ i.last := fun i hi => his i (mem_sort.mp hi)
  unfold normalize
  generalize sort is = sorted at *
  cases sorted with
  | nil => rfl
  | cons i rest => exact holds_coalesceFrom (fun j hj => hproper j (.tail _ hj)) hasc

lemma coalesced_normalize (his : ∀ i ∈ is, i.first ≤ i.last) : Coalesced (normalize is) := by
  have hasc := ascending_sort is
  have hproper : ∀ i ∈ sort is, i.first ≤ i.last := fun i hi => his i (mem_sort.mp hi)
  unfold normalize
  generalize sort is = sorted at *
  cases sorted with
  | nil => exact .nil
  | cons i rest =>
    exact coalesced_coalesceFrom (hproper i (.head _)) (fun j hj => hproper j (.tail _ hj)) hasc

lemma coalesceFrom_ne_nil (i : Interval) (is : List Interval) : coalesceFrom i is ≠ [] := by
  induction is generalizing i with
  | nil => simp [coalesceFrom]
  | cons j rest ih =>
    unfold coalesceFrom
    split
    · exact ih _
    · simp

lemma normalize_ne_nil (hne : is ≠ []) : normalize is ≠ [] := by
  obtain ⟨i, hi⟩ := List.exists_mem_of_ne_nil is hne
  have hmem : i ∈ sort is := mem_sort.mpr hi
  unfold normalize
  cases hsorted : sort is with
  | nil => simp [hsorted] at hmem
  | cons j rest => exact coalesceFrom_ne_nil j rest

/-! ## Cutting out -/

lemma toNat_pred {a b : UInt64} (h : a < b) : (b - 1).toNat = b.toNat - 1 := by
  rw [UInt64.lt_iff_toNat_lt] at h
  exact UInt64.toNat_sub_of_le _ _ (UInt64.le_iff_toNat_le.mpr (by simp; omega))

lemma toNat_next {a b : UInt64} (h : a < b) : (a + 1).toNat = a.toNat + 1 := by
  rw [UInt64.lt_iff_toNat_lt] at h
  have hb := b.toNat_lt
  rw [UInt64.toNat_add, UInt64.toNat_one]
  omega

/-- What is left of `i` below `r`, when the two overlap. -/
def below (i r : Interval) : List Interval :=
  if i.first < r.first then [⟨i.first, r.first - 1⟩] else []

/-- What is left of `i` above `r`, when the two overlap. -/
def above (i r : Interval) : List Interval :=
  if r.last < i.last then [⟨r.last + 1, i.last⟩] else []

lemma remove_eq (i r : Interval) :
    i.remove r = if r.last < i.first || i.last < r.first then [i] else below i r ++ above i r :=
  rfl

lemma holds_below :
    Holds (below i r) t ↔ i.first.toNat ≤ t.toNat ∧ t.toNat < r.first.toNat := by
  unfold below
  split
  · next h =>
    have hpred := toNat_pred h
    rw [UInt64.lt_iff_toNat_lt] at h
    simp only [holds_cons, not_holds_nil, or_false, contains_iff]
    omega
  · next h =>
    rw [UInt64.lt_iff_toNat_lt] at h
    simp only [not_holds_nil, false_iff]
    omega

lemma holds_above :
    Holds (above i r) t ↔ r.last.toNat < t.toNat ∧ t.toNat ≤ i.last.toNat := by
  unfold above
  split
  · next h =>
    have hnext := toNat_next h
    simp only [holds_cons, not_holds_nil, or_false, contains_iff]
    omega
  · next h =>
    rw [UInt64.lt_iff_toNat_lt] at h
    simp only [not_holds_nil, false_iff]
    omega

lemma coalesced_below (i r : Interval) : Coalesced (below i r) := by
  unfold below
  split
  · next h =>
    have hpred := toNat_pred h
    rw [UInt64.lt_iff_toNat_lt] at h
    refine .singleton (UInt64.le_iff_toNat_le.mpr ?_)
    show i.first.toNat ≤ (r.first - 1).toNat
    omega
  · exact .nil

lemma coalesced_above (i r : Interval) : Coalesced (above i r) := by
  unfold above
  split
  · next h =>
    have hnext := toNat_next h
    rw [UInt64.lt_iff_toNat_lt] at h
    refine .singleton (UInt64.le_iff_toNat_le.mpr ?_)
    show (r.last + 1).toNat ≤ i.last.toNat
    omega
  · exact .nil

/-- What is left of an interval are its transactions that the other one does not have. -/
lemma holds_remove :
    Holds (i.remove r) t ↔ i.contains t = true ∧ ¬ r.contains t = true := by
  rw [remove_eq]
  split
  · next hout =>
    simp only [Bool.or_eq_true, decide_eq_true_eq, UInt64.lt_iff_toNat_lt] at hout
    simp only [holds_cons, not_holds_nil, or_false, contains_iff]
    omega
  · next hover =>
    simp only [Bool.or_eq_true, decide_eq_true_eq, UInt64.lt_iff_toNat_lt] at hover
    rw [holds_append, holds_below, holds_above, contains_iff, contains_iff]
    omega

/-- What is left of an interval comes in pieces with the other one between them. -/
lemma coalesced_remove (hi : i.first ≤ i.last) (hr : r.first ≤ r.last) :
    Coalesced (i.remove r) := by
  rw [remove_eq]
  split
  · exact .singleton hi
  · have hbelow := coalesced_below i r
    have habove := coalesced_above i r
    refine ⟨fun p hp => ?_, List.pairwise_append.mpr ⟨hbelow.apart, habove.apart, ?_⟩⟩
    · exact (List.mem_append.mp hp).elim (hbelow.proper p) (habove.proper p)
    · intro p hp q hq
      have hlast := holds_below.mp ⟨p, hp, contains_last (hbelow.proper p hp)⟩
      have hfirst := holds_above.mp (habove.holds_first hq)
      rw [UInt64.le_iff_toNat_le] at hr
      unfold Apart
      omega

lemma holds_removeEach :
    Holds (is.flatMap (remove · r)) t ↔ Holds is t ∧ ¬ r.contains t = true := by
  simp only [holds_flatMap, holds_remove]
  constructor
  · rintro ⟨i, hi, hit, hrt⟩
    exact ⟨⟨i, hi, hit⟩, hrt⟩
  · rintro ⟨⟨i, hi, hit⟩, hrt⟩
    exact ⟨i, hi, hit, hrt⟩

/-- The list with intervals cut out one after the other. -/
def cut (is rs : List Interval) : List Interval :=
  rs.foldl (fun pieces r => pieces.flatMap (remove · r)) is

lemma removeAll_eq_cut (i : Interval) (rs : List Interval) : i.removeAll rs = cut [i] rs := rfl

lemma holds_cut : Holds (cut is rs) t ↔ Holds is t ∧ ¬ Holds rs t := by
  induction rs generalizing is with
  | nil => simp [cut]
  | cons r rest ih =>
    have hfirst : cut is (r :: rest) = cut (is.flatMap (remove · r)) rest := rfl
    rw [hfirst, ih, holds_removeEach, holds_cons, not_or, and_assoc]

lemma coalesced_cut (his : Coalesced is) (hrs : ∀ r ∈ rs, r.first ≤ r.last) :
    Coalesced (cut is rs) := by
  induction rs generalizing is with
  | nil => exact his
  | cons r rest ih =>
    have hr := hrs r (.head _)
    have hone : Coalesced (is.flatMap (remove · r)) :=
      his.flatMap (fun i hi => coalesced_remove (his.proper i hi) hr)
        fun i _ t ht => (holds_remove.mp ht).1
    exact ih hone fun q hq => hrs q (.tail _ hq)

lemma holds_removeAll : Holds (i.removeAll rs) t ↔ i.contains t = true ∧ ¬ Holds rs t := by
  rw [removeAll_eq_cut, holds_cut, holds_cons]
  simp

lemma coalesced_removeAll (hi : i.first ≤ i.last) (hrs : ∀ r ∈ rs, r.first ≤ r.last) :
    Coalesced (i.removeAll rs) :=
  coalesced_cut (.singleton hi) hrs

end Interval
end Changefeed
