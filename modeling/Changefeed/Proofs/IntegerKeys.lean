import Changefeed.Proofs.Decimal.Integers
import Changefeed.Proofs.Key

/-!
# Integer keys

Integers of 63 bits and a sign compare as they are.  As soon as one of two integer keys is greater,
both are compared as doubles, which have 53 digits only.  Rounding keeps the order, so two integers
never compare the wrong way round; but different ones that are nearest to the same double count as
equal.  The main result says of every pair of integers, and of every range between integers, where
this makes a difference: a range leaves out the keys below its high end that are blurred with it,
and takes in the keys below its low end that are blurred with that.  Two adjacent ranges never share
a key.  They both miss one where it is blurred with the high end of the upper range and is not told
to be below the cut.
-/

namespace Changefeed
namespace Key

/-- The integer is one that a number can be. -/
def Fits (n : Int) : Prop := Json.Number.minInt ≤ n ∧ n ≤ Json.Number.maxInt

/-- Two integers, not both of 63 bits and a sign, that are nearest to the same double. -/
def Blurred (a b : Int) : Prop :=
  (0x8000000000000000 ≤ a ∨ 0x8000000000000000 ≤ b) ∧ Decimal.nearest a = Decimal.nearest b

instance (n : Int) : Decidable (Fits n) := inferInstanceAs (Decidable (_ ∧ _))

instance (a b : Int) : Decidable (Blurred a b) := inferInstanceAs (Decidable (_ ∧ _))

variable {a b : Int}

lemma Blurred.symm (h : Blurred a b) : Blurred b a := ⟨h.1.symm, h.2.symm⟩

lemma Fits.log2_lt (h : Fits a) : a.natAbs.log2 < 1023 := by
  obtain ⟨hleast, hgreatest⟩ := h
  simp only [Json.Number.minInt, Json.Number.maxInt] at hleast hgreatest
  by_cases hzero : a.natAbs = 0
  · rw [hzero]
    decide
  · have hlog : a.natAbs.log2 < 64 := (Nat.log2_lt hzero).mpr (by omega)
    omega

/-- Integers are compared as they are, unless they are blurred: then they count as equal. -/
lemma compare?_integers (ha : Fits a) (hb : Fits b) :
    compare? (.number (.int a)) (.number (.int b)) =
      some (if Blurred a b then .eq else compare a b) := by
  by_cases hsmall : a < 0x8000000000000000 ∧ b < 0x8000000000000000
  · have hclear : ¬ Blurred a b := by
      rintro ⟨hgreat, -⟩
      omega
    rw [compare?_int hsmall.1 hsmall.2, if_neg hclear]
  · have hgreat : 0x8000000000000000 ≤ a ∨ 0x8000000000000000 ≤ b := by omega
    have hfloats : compare? (.number (.int a)) (.number (.int b)) =
        some (compare (Decimal.nearest a) (Decimal.nearest b)) := by
      rw [← Decimal.compareFloats_ofInt ha.log2_lt hb.log2_lt]
      simp only [compare?, compareNumbers, Json.Number.toInt63?]
      by_cases hasmall : a < 0x8000000000000000
      · rw [if_pos hasmall, if_neg (by omega)]
        rfl
      · rw [if_neg hasmall]
        rfl
    rw [hfloats]
    by_cases hsame : Decimal.nearest a = Decimal.nearest b
    · rw [if_pos ⟨hgreat, hsame⟩, Int.compare_eq_eq.mpr hsame]
    · rw [if_neg fun h => hsame h.2]
      -- rounding keeps the order, so where it keeps the two apart it keeps them in order
      rcases Int.lt_trichotomy a b with hlt | rfl | hgt
      · have hle := Decimal.nearest_le_nearest (Int.le_of_lt hlt)
        rw [Int.compare_eq_lt.mpr hlt, Int.compare_eq_lt.mpr (by omega)]
      · exact absurd rfl hsame
      · have hle := Decimal.nearest_le_nearest (Int.le_of_lt hgt)
        rw [Int.compare_eq_gt.mpr hgt, Int.compare_eq_gt.mpr (by omega)]

lemma compare?_integers_eq_iff (ha : Fits a) (hb : Fits b) :
    compare? (.number (.int a)) (.number (.int b)) = some (compare a b) ↔
      a = b ∨ ¬ Blurred a b := by
  rw [compare?_integers ha hb, Option.some_inj]
  by_cases hblurred : Blurred a b
  · rw [if_pos hblurred, eq_comm, Int.compare_eq_eq]
    simp [hblurred]
  · simp [hblurred]

end Key

namespace KeyRange

open Key (Fits Blurred)

variable {low high : Option Int} {cut k : Int}

lemma aboveLow_integers_iff (hlow : ∀ n ∈ low, Fits n) (hk : Fits k) :
    (ofInts low high).aboveLow (.number (.int k)) = true ↔ ∀ n ∈ low, n ≤ k ∨ Blurred k n := by
  cases low with
  | none => simp [ofInts, aboveLow]
  | some n =>
    simp only [ofInts, aboveLow, Option.map_some, Key.compare?_integers hk (hlow n rfl),
      Option.some.injEq, Bool.or_eq_true, decide_eq_true_eq, Option.mem_some_iff, forall_eq']
    by_cases hblurred : Blurred k n
    · simp [hblurred]
    · simp only [hblurred, if_false, or_false, Int.compare_eq_gt, Int.compare_eq_eq]
      omega

lemma belowHigh_integers_iff (hhigh : ∀ n ∈ high, Fits n) (hk : Fits k) :
    (ofInts low high).belowHigh (.number (.int k)) = true ↔ ∀ n ∈ high, k < n ∧ ¬ Blurred k n := by
  cases high with
  | none => simp [ofInts, belowHigh]
  | some n =>
    simp only [ofInts, belowHigh, Option.map_some, Key.compare?_integers hk (hhigh n rfl),
      Option.some.injEq, decide_eq_true_eq, Option.mem_some_iff, forall_eq']
    by_cases hblurred : Blurred k n
    · simp [hblurred]
    · simp [hblurred, Int.compare_eq_lt]

lemma contains_integers_iff (hlow : ∀ n ∈ low, Fits n) (hhigh : ∀ n ∈ high, Fits n)
    (hk : Fits k) :
    (ofInts low high).contains (.number (.int k)) = true ↔
      (∀ n ∈ low, n ≤ k ∨ Blurred k n) ∧ ∀ n ∈ high, k < n ∧ ¬ Blurred k n := by
  rw [contains, Bool.and_eq_true, aboveLow_integers_iff hlow hk, belowHigh_integers_iff hhigh hk]

/-- A key between the outer ends of two adjacent ranges is missed by both when it is blurred with
the high end and not told to be below the cut. -/
lemma missed_integers_iff (hlow : ∀ n ∈ low, Fits n) (hhigh : ∀ n ∈ high, Fits n)
    (hcut : Fits cut) (hk : Fits k) (hfrom : ∀ n ∈ low, n ≤ k) (hto : ∀ n ∈ high, k < n) :
    ((ofInts low (some cut)).contains (.number (.int k)) = false ∧
        (ofInts (some cut) high).contains (.number (.int k)) = false) ↔
      (cut ≤ k ∨ Blurred k cut) ∧ ∃ n ∈ high, Blurred k n := by
  have hcut' : ∀ n ∈ some cut, Fits n := by simpa using hcut
  have hlower : (ofInts low (some cut)).contains (.number (.int k)) = true ↔
      ¬ (cut ≤ k ∨ Blurred k cut) := by
    rw [contains_integers_iff hlow hcut' hk, not_or, Int.not_le]
    simp only [Option.mem_some_iff, forall_eq']
    exact and_iff_right fun n hn => .inl (hfrom n hn)
  have hupper : (ofInts (some cut) high).contains (.number (.int k)) = true ↔
      (cut ≤ k ∨ Blurred k cut) ∧ ¬ ∃ n ∈ high, Blurred k n := by
    rw [contains_integers_iff hcut' hhigh hk]
    simp only [Option.mem_some_iff, forall_eq', not_exists, not_and]
    exact and_congr_right fun _ => forall₂_congr fun n hn => and_iff_right (hto n hn)
  rw [← Bool.not_eq_true, ← Bool.not_eq_true, hlower, hupper, Classical.not_not, not_and,
    Classical.not_not]
  exact and_congr_right fun h => imp_iff_right h

/-- Two integer keys compare as integers unless they are different and blurred; those count as
equal.  A range between integers holds the keys from its low end to below its high end, but for
those that are blurred with an end.  Two adjacent ranges never share a key, and both miss a key
between their outer ends when it is blurred with the high end and not told to be below the cut. -/
theorem integer_keys_exact_iff (ha : Fits a) (hb : Fits b) (hlow : ∀ n ∈ low, Fits n)
    (hhigh : ∀ n ∈ high, Fits n) (hcut : Fits cut) (hk : Fits k) :
    (Key.compare? (.number (.int a)) (.number (.int b)) = some (compare a b) ↔
      a = b ∨ ¬ Blurred a b) ∧
    (Blurred a b → Key.compare? (.number (.int a)) (.number (.int b)) = some .eq) ∧
    ((ofInts low high).contains (.number (.int k)) = true ↔
      (∀ n ∈ low, n ≤ k ∨ Blurred k n) ∧ ∀ n ∈ high, k < n ∧ ¬ Blurred k n) ∧
    ¬ ((ofInts low (some cut)).contains (.number (.int k)) = true ∧
        (ofInts (some cut) high).contains (.number (.int k)) = true) ∧
    ((∀ n ∈ low, n ≤ k) → (∀ n ∈ high, k < n) →
      (((ofInts low (some cut)).contains (.number (.int k)) = false ∧
          (ofInts (some cut) high).contains (.number (.int k)) = false) ↔
        (cut ≤ k ∨ Blurred k cut) ∧ ∃ n ∈ high, Blurred k n)) := by
  refine ⟨Key.compare?_integers_eq_iff ha hb, fun hblurred => ?_,
    contains_integers_iff hlow hhigh hk, ?_, missed_integers_iff hlow hhigh hcut hk⟩
  · rw [Key.compare?_integers ha hb, if_pos hblurred]
  · rintro ⟨hlower, hupper⟩
    have hnot : (ofInts (some cut) high).contains (.number (.int k)) = false :=
      not_contains_of_below hlower
    rw [hnot] at hupper
    cases hupper

/-- The key `2 ^ 63` counts as equal to `2 ^ 63 + 1`, and neither the range from zero to a hundred
nor the one from there to `2 ^ 63 + 1` holds it. -/
theorem integer_keys_exact_iff_unsigned :
    Key.compare? (.number (.int 0x8000000000000001)) (.number (.int 0x8000000000000000)) =
        some .eq ∧
      (ofInts (some 0) (some 100)).contains (.number (.int 0x8000000000000000)) = false ∧
      (ofInts (some 100) (some 0x8000000000000001)).contains (.number (.int 0x8000000000000000)) =
        false := by
  have hkey : Fits 0x8000000000000000 := by decide
  have hend : Fits 0x8000000000000001 := by decide
  have hblurred : Blurred 0x8000000000000000 0x8000000000000001 := by decide +kernel
  have hlow : ∀ n ∈ some (0 : Int), Fits n := by decide
  have hhigh : ∀ n ∈ some (0x8000000000000001 : Int), Fits n := by decide
  have hcut : Fits 100 := by decide
  obtain ⟨-, hequal, -, -, hmissed⟩ := integer_keys_exact_iff hend hkey hlow hhigh hcut hkey
  obtain ⟨hlower, hupper⟩ := (hmissed (by decide) (by decide)).mpr
    ⟨.inl (by decide), _, rfl, hblurred⟩
  exact ⟨hequal hblurred.symm, hlower, hupper⟩

end KeyRange
end Changefeed
