import Mathlib.Data.Int.ConditionallyCompleteOrder
import Mathlib.Data.Int.Interval
import Mathlib.Order.ConditionallyCompleteLattice.Basic
import Changefeed.Planner
import Changefeed.Proofs.Key

/-!
# Chunks of keys

The bounds between chunks ascend, and each chunk ends where the next one begins.  The first is open
below and the last one above, so every key lies in exactly one of them.  A bound lies at most one
chunk above the bound before it or the least key, and the last one so close below the greatest key
that the rest is no more than a chunk.  This holds up to the greatest integer of 63 bits, where the
first step stops short and no further one is taken.
-/

namespace Changefeed
namespace ChunkSize

/-! ## Bounds -/

lemma mem_boundsFrom (c : ChunkSize) {bound top b : Int} (h : b ∈ c.boundsFrom bound top) :
    bound ≤ b ∧ b ≤ top := by
  fun_induction boundsFrom c bound top with
  | case1 bound hbound ih =>
    rcases List.mem_cons.mp h with rfl | hrest
    · exact ⟨Int.le_refl b, hbound⟩
    · have hnext := ih hrest
      have hpos := c.positive
      omega
  | case2 bound hbound => cases h

lemma pairwise_boundsFrom (c : ChunkSize) (bound top : Int) :
    (c.boundsFrom bound top).Pairwise (· < ·) := by
  fun_induction boundsFrom c bound top with
  | case1 bound hbound ih =>
    refine List.pairwise_cons.mpr ⟨fun b hb => ?_, ih⟩
    have hnext := c.mem_boundsFrom hb
    have hpos := c.positive
    omega
  | case2 bound hbound => exact List.Pairwise.nil

/-! ## Ranges -/

lemma rangesFrom_eq_zipWith (low : Option Int) (bounds : List Int) :
    rangesFrom (low.map boundKey) bounds =
      List.zipWith KeyRange.ofInts (low :: bounds.map some) (bounds.map some ++ [none]) := by
  induction bounds generalizing low with
  | nil => rfl
  | cons b rest ih =>
    have hrest := ih (some b)
    rw [Option.map_some] at hrest
    rw [rangesFrom, hrest]
    rfl

lemma contains_between_iff {low high : Option Int} {k : Int} (hlow : ∀ n ∈ low, n ≤ maxKey)
    (hhigh : ∀ n ∈ high, n ≤ maxKey) (hk : k ≤ maxKey) :
    (KeyRange.ofInts low high).contains (.number (.int k)) = true ↔
      (∀ n ∈ low, n ≤ k) ∧ ∀ n ∈ high, k < n := by
  have hfits : ∀ {n : Int}, n ≤ maxKey → n < 0x8000000000000000 := Int.lt_add_one_of_le
  exact KeyRange.contains_ofInts_iff (fun n hn => hfits (hlow n hn))
    (fun n hn => hfits (hhigh n hn)) (hfits hk)

/-- Of the ranges between ascending bounds, exactly one holds a key that is not below the low end,
and none holds a key below it. -/
lemma countP_rangesFrom (low : Option Int) {bounds : List Int} {k : Int} (hk : k ≤ maxKey)
    (hlow : ∀ n ∈ low, n ≤ maxKey ∧ ∀ b ∈ bounds, n < b) (hbounds : ∀ b ∈ bounds, b ≤ maxKey)
    (hascend : bounds.Pairwise (· < ·)) :
    (rangesFrom (low.map boundKey) bounds).countP (·.contains (.number (.int k))) =
      if ∀ n ∈ low, n ≤ k then 1 else 0 := by
  induction bounds generalizing low with
  | nil =>
    have hlast : (KeyRange.ofInts low none).contains (.number (.int k)) = true ↔
        ∀ n ∈ low, n ≤ k := by
      rw [contains_between_iff (fun n hn => (hlow n hn).1) (by simp) hk]
      simp
    rw [rangesFrom, List.countP_singleton]
    exact if_congr hlast rfl rfl
  | cons b rest ih =>
    obtain ⟨hfirst, hrest⟩ := List.pairwise_cons.mp hascend
    have hb : b ≤ maxKey := hbounds b List.mem_cons_self
    have hhead : (KeyRange.ofInts low (some b)).contains (.number (.int k)) = true ↔
        (∀ n ∈ low, n ≤ k) ∧ k < b := by
      rw [contains_between_iff (fun n hn => (hlow n hn).1) (by simpa using hb) hk]
      simp
    have htail := ih (some b) (by simpa using ⟨hb, hfirst⟩)
      (fun b' hb' => hbounds b' (List.mem_cons_of_mem b hb')) hrest
    rw [rangesFrom, List.countP_cons]
    refine (congrArg₂ (· + ·) htail (if_congr hhead rfl rfl)).trans ?_
    simp only [Option.mem_some_iff, forall_eq']
    by_cases hbelow : k < b
    · rw [if_neg (Int.not_le.mpr hbelow), Nat.zero_add]
      exact if_congr (and_iff_left hbelow) rfl rfl
    · -- A key from the bound on is not below the low end either.
      have hfrom : ∀ n ∈ low, n ≤ k := by
        intro n hn
        have hcut := (hlow n hn).2 b List.mem_cons_self
        omega
      rw [if_pos (Int.not_lt.mp hbelow), if_neg (fun h => hbelow h.2), if_pos hfrom]

/-! ## Sizes -/

section Sizes

variable {least top : Int}

/-- A range holds no more of the keys from `least` to `top` than lie between its ends, an open end
standing at the end of those keys. -/
lemma card_between_le (low high : Option Int) {n : Nat} (hlow : ∀ b ∈ low, b ≤ maxKey)
    (hhigh : ∀ b ∈ high, b ≤ maxKey) (htop : top ≤ maxKey)
    (hlength : high.getD (top + 1) ≤ low.getD least + n) :
    ((Finset.Icc least top).filter fun k =>
      (KeyRange.ofInts low high).contains (.number (.int k)) = true).card ≤ n := by
  have hwithin : ((Finset.Icc least top).filter fun k =>
      (KeyRange.ofInts low high).contains (.number (.int k)) = true) ⊆
        Finset.Ico (low.getD least) (high.getD (top + 1)) := by
    intro k hk
    obtain ⟨hkeys, hheld⟩ := Finset.mem_filter.mp hk
    obtain ⟨hleast, hle⟩ := Finset.mem_Icc.mp hkeys
    obtain ⟨hfrom, hto⟩ := (contains_between_iff hlow hhigh (hle.trans htop)).mp hheld
    refine Finset.mem_Ico.mpr ⟨?_, ?_⟩
    · cases low with
      | none => exact hleast
      | some b => exact hfrom b rfl
    · cases high with
      | none => exact Int.lt_add_one_of_le hle
      | some b => exact hto b rfl
  calc _ ≤ (Finset.Ico (low.getD least) (high.getD (top + 1))).card := Finset.card_le_card hwithin
    _ = (high.getD (top + 1) - low.getD least).toNat := Int.card_Ico _ _
    _ ≤ n := by omega

/-- Where the next bound is at most one chunk above the low end, no range holds more keys than a
chunk has. -/
lemma card_rangesFrom_le (c : ChunkSize) (low : Option Int) {bound : Int} {r : KeyRange}
    (hr : r ∈ rangesFrom (low.map boundKey) (c.boundsFrom bound top))
    (hlow : ∀ b ∈ low, b ≤ maxKey) (htop : top ≤ maxKey)
    (hbound : bound ≤ low.getD least + c.keys) :
    ((Finset.Icc least top).filter fun k =>
      r.contains (.number (.int k)) = true).card ≤ c.keys := by
  fun_induction boundsFrom c bound top generalizing low with
  | case1 bound hle ih =>
    have hmax : ∀ b ∈ some bound, b ≤ maxKey := by
      intro b hb
      rw [← Option.some.inj hb]
      exact hle.trans htop
    rcases List.mem_cons.mp hr with rfl | hrest
    · exact card_between_le low (some bound) hlow hmax htop hbound
    · exact ih (some bound) hrest hmax (Int.le_refl _)
  | case2 bound hlt =>
    rw [List.mem_singleton.mp hr]
    refine card_between_le low none hlow (by simp) htop ?_
    rw [Option.getD_none]
    omega

end Sizes

/-! ## The plan -/

lemma mem_bounds (c : ChunkSize) {least greatest b : Int} (h : b ∈ c.bounds least greatest)
    (hgreatest : greatest ≤ maxKey) : least ≤ b ∧ b ≤ greatest := by
  by_cases hempty : greatest < least
  · rw [bounds, if_pos hempty] at h
    cases h
  · rw [bounds, if_neg hempty] at h
    have hb := c.mem_boundsFrom h
    omega

lemma pairwise_bounds (c : ChunkSize) (least greatest : Int) :
    (c.bounds least greatest).Pairwise (· < ·) := by
  by_cases hempty : greatest < least
  · rw [bounds, if_pos hempty]
    exact List.Pairwise.nil
  · rw [bounds, if_neg hempty]
    exact c.pairwise_boundsFrom _ _

variable (c : ChunkSize) (tableId : TableId) (keyColumn : String) (least greatest : Int)

lemma map_keyRange_plan :
    (c.plan tableId keyColumn least greatest).map (·.keyRange) = c.ranges least greatest := by
  apply List.ext_getElem
  · simp [plan]
  · intro i hleft hright
    simp [plan]

lemma map_splitIndex_plan (h : (c.plan tableId keyColumn least greatest).length ≤ 2 ^ 32) :
    (c.plan tableId keyColumn least greatest).map (·.splitIndex.toNat) =
      List.range (c.plan tableId keyColumn least greatest).length := by
  apply List.ext_getElem
  · simp
  · intro i hleft hright
    have hi : i < 2 ^ 32 := (List.length_range ▸ hright).trans_le h
    simpa [plan] using Nat.mod_eq_of_lt hi

lemma countP_plan {k : Int} (hgreatest : greatest ≤ maxKey) (hk : k ≤ maxKey) :
    (c.plan tableId keyColumn least greatest).countP
      (·.keyRange.contains (.number (.int k))) = 1 := by
  have hbounds : ∀ b ∈ c.bounds least greatest, b ≤ maxKey := by
    intro b hb
    exact (c.mem_bounds hb hgreatest).2.trans hgreatest
  have hcount := countP_rangesFrom none hk (by simp) hbounds (c.pairwise_bounds least greatest)
  calc _ = ((c.plan tableId keyColumn least greatest).map (·.keyRange)).countP
        (·.contains (.number (.int k))) := List.countP_map.symm
    _ = (c.ranges least greatest).countP (·.contains (.number (.int k))) := by
        rw [map_keyRange_plan]
    _ = 1 := hcount.trans (if_pos (by simp))

lemma card_plan_le {s : SnapshotSplit} (hs : s ∈ c.plan tableId keyColumn least greatest)
    (hkeys : least ≤ greatest) (hgreatest : greatest ≤ maxKey) :
    ((Finset.Icc least greatest).filter fun k =>
      s.keyRange.contains (.number (.int k)) = true).card ≤ c.keys := by
  have hr : s.keyRange ∈ c.ranges least greatest := by
    rw [← c.map_keyRange_plan tableId keyColumn]
    exact List.mem_map_of_mem hs
  rw [ranges, bounds, if_neg (Int.not_lt.mpr hkeys)] at hr
  exact c.card_rangesFrom_le none hr (by simp) hgreatest (Int.min_le_left ..)

/-- The splits of a plan have consecutive ranges in ascending order, the first one open below and
the last one above.  Every integer key of 63 bits and a sign is in exactly one of them, none holds
more of the keys from the least to the greatest than a chunk has, and they are numbered from zero
as far as 32 bits go. -/
theorem plan_partitions_keys (hgreatest : greatest ≤ maxKey) :
    (∃ bounds : List Int, bounds.Pairwise (· < ·) ∧ (∀ b ∈ bounds, least ≤ b ∧ b ≤ greatest) ∧
      (c.plan tableId keyColumn least greatest).map (·.keyRange) =
        List.zipWith KeyRange.ofInts (none :: bounds.map some) (bounds.map some ++ [none])) ∧
    (∀ s ∈ c.plan tableId keyColumn least greatest,
      s.tableId = tableId ∧ s.keyColumn = keyColumn) ∧
    (∀ k ≤ maxKey, (c.plan tableId keyColumn least greatest).countP
      (·.keyRange.contains (.number (.int k))) = 1) ∧
    (least ≤ greatest → ∀ s ∈ c.plan tableId keyColumn least greatest,
      ((Finset.Icc least greatest).filter fun k =>
        s.keyRange.contains (.number (.int k)) = true).card ≤ c.keys) ∧
    ((c.plan tableId keyColumn least greatest).length ≤ 2 ^ 32 →
      (c.plan tableId keyColumn least greatest).map (·.splitIndex.toNat) =
        List.range (c.plan tableId keyColumn least greatest).length) := by
  refine ⟨⟨c.bounds least greatest, c.pairwise_bounds least greatest,
      fun b hb => c.mem_bounds hb hgreatest, ?_⟩, ?_,
    fun k hk => c.countP_plan tableId keyColumn least greatest hgreatest hk,
    fun hkeys s hs => c.card_plan_le tableId keyColumn least greatest hs hkeys hgreatest,
    c.map_splitIndex_plan tableId keyColumn least greatest⟩
  · rw [map_keyRange_plan]
    exact rangesFrom_eq_zipWith none _
  · intro s hs
    obtain ⟨i, hi, rfl⟩ := List.mem_mapIdx.mp hs
    exact ⟨rfl, rfl⟩

/-- Up to the greatest key, the first step of seven keys stops at that key, and the second split
holds it alone. -/
theorem plan_partitions_keys_at_max :
    ((⟨7, by decide⟩ : ChunkSize).plan ⟨"shop", "orders"⟩ "id" (maxKey - 2) maxKey).map
        (·.keyRange) = [.ofInts none (some maxKey), .ofInts (some maxKey) none] ∧
      ((⟨7, by decide⟩ : ChunkSize).plan ⟨"shop", "orders"⟩ "id" (maxKey - 2) maxKey).countP
        (·.keyRange.contains (.number (.int maxKey))) = 1 ∧
      ((⟨7, by decide⟩ : ChunkSize).plan ⟨"shop", "orders"⟩ "id" (maxKey - 2) maxKey).map
        (·.splitIndex.toNat) = [0, 1] := by
  have hbounds : (⟨7, by decide⟩ : ChunkSize).bounds (maxKey - 2) maxKey = [maxKey] := by
    rw [bounds, if_neg (by decide), show min (maxKey - 2 + (7 : Nat)) maxKey = maxKey by decide,
      boundsFrom, if_pos (Int.le_refl maxKey), boundsFrom, if_neg (by decide)]
  have hranges := map_keyRange_plan ⟨7, by decide⟩ ⟨"shop", "orders"⟩ "id" (maxKey - 2) maxKey
  rw [ranges, hbounds] at hranges
  have hlength : ((⟨7, by decide⟩ : ChunkSize).plan ⟨"shop", "orders"⟩ "id" (maxKey - 2)
      maxKey).length = 2 := by
    rw [← List.length_map, hranges]
    rfl
  obtain ⟨-, -, hcount, -, hindex⟩ := plan_partitions_keys ⟨7, by decide⟩ ⟨"shop", "orders"⟩ "id"
    (maxKey - 2) maxKey (Int.le_refl maxKey)
  refine ⟨hranges, hcount maxKey (Int.le_refl maxKey), ?_⟩
  rw [hindex (by omega), hlength]
  rfl

end ChunkSize
end Changefeed
