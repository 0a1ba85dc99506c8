import Mathlib.Algebra.Group.Nat.Defs
import Changefeed.Decimal.Binary

/-!
# Integers as doubles

A double has 53 binary digits.  An integer with more digits becomes the nearest integer of which
only the first 53 digits are not zero, and on a tie the one with an even last digit among them.
Integers are rounded in order, so the doubles of two integers compare as the integers do unless the
two are rounded to the same one.
-/

namespace Changefeed
namespace Decimal

/-! ## Rounded quotients -/

/-- The rounded quotient by the twofold remainder: below the divisor, on a tie, or above it. -/
lemma roundDiv_eq (num den : Nat) :
    roundDiv num den =
      if 2 * (num % den) < den then num / den
      else if 2 * (num % den) = den then num / den + num / den % 2
      else num / den + 1 := by
  unfold roundDiv
  cases h : compare (2 * (num % den)) den with
  | lt => rw [if_pos (Nat.compare_eq_lt.mp h)]
  | eq =>
    have heq := Nat.compare_eq_eq.mp h
    rw [if_neg (by omega), if_pos heq]
    dsimp only
    split <;> omega
  | gt =>
    have hgt := Nat.compare_eq_gt.mp h
    rw [if_neg (by omega), if_neg (by omega)]

lemma le_roundDiv (num den : Nat) : num / den ≤ roundDiv num den := by
  rw [roundDiv_eq]
  split
  · exact Nat.le_refl _
  · split <;> omega

lemma roundDiv_le (num den : Nat) : roundDiv num den ≤ num / den + 1 := by
  rw [roundDiv_eq]
  split
  · exact Nat.le_succ _
  · split <;> omega

@[simp] lemma roundDiv_one (num : Nat) : roundDiv num 1 = num := by
  rw [roundDiv_eq, if_pos (by omega), Nat.div_one]

lemma roundDiv_mul_right (num den : Nat) {c : Nat} (hc : 0 < c) :
    roundDiv (num * c) (den * c) = roundDiv num den := by
  have htwice : 2 * (num * c % (den * c)) = 2 * (num % den) * c := by
    rw [Nat.mul_mod_mul_right, Nat.mul_assoc]
  have hlt : 2 * (num % den) * c < den * c ↔ 2 * (num % den) < den := Nat.mul_lt_mul_right hc
  have heq : 2 * (num % den) * c = den * c ↔ 2 * (num % den) = den :=
    Nat.mul_left_inj (Nat.ne_of_gt hc)
  rw [roundDiv_eq, roundDiv_eq, htwice, Nat.mul_div_mul_right _ _ hc]
  simp only [hlt, heq]

/-- Greater numbers have no smaller rounded quotients. -/
lemma roundDiv_le_roundDiv {m n : Nat} (den : Nat) (h : m ≤ n) :
    roundDiv m den ≤ roundDiv n den := by
  have hquotient : m / den ≤ n / den := Nat.div_le_div_right h
  rcases Nat.lt_or_eq_of_le hquotient with hlt | heq
  · calc roundDiv m den ≤ m / den + 1 := roundDiv_le m den
      _ ≤ n / den := hlt
      _ ≤ roundDiv n den := le_roundDiv n den
  · have hremainder : m % den ≤ n % den := by
      have hm := Nat.mod_add_div m den
      have hn := Nat.mod_add_div n den
      rw [heq] at hm
      omega
    by_cases hbelow : 2 * (m % den) < den
    · rw [roundDiv_eq m, if_pos hbelow, heq]
      exact le_roundDiv n den
    · by_cases habove : den < 2 * (n % den)
      · rw [roundDiv_eq n, if_neg (by omega), if_neg (by omega), ← heq]
        exact roundDiv_le m den
      · -- both remainders are half of the divisor
        have hm : 2 * (m % den) = den := by omega
        have hn : 2 * (n % den) = den := by omega
        apply Nat.le_of_eq
        rw [roundDiv_eq, roundDiv_eq, heq, if_neg hbelow, if_pos hm, if_neg (by omega), if_pos hn]

/-! ## Nearest integers -/

/-- The natural number that the closest double is. -/
def nearestNat (n : Nat) : Nat := roundDiv n (2 ^ (n.log2 - 52)) * 2 ^ (n.log2 - 52)

/-- The integer that the closest double is. -/
def nearest : Int → Int
  | .ofNat n => nearestNat n
  | .negSucc n => -nearestNat (n + 1)

lemma nearestNat_of_log2_le {n : Nat} (h : n.log2 ≤ 52) : nearestNat n = n := by
  rw [nearestNat, Nat.sub_eq_zero_of_le h, Nat.pow_zero, roundDiv_one, Nat.mul_one]

/-- The 53 digits that are kept. -/
lemma leading_digits {n : Nat} (h : 52 ≤ n.log2) :
    2 ^ 52 ≤ roundDiv n (2 ^ (n.log2 - 52)) ∧ roundDiv n (2 ^ (n.log2 - 52)) ≤ 2 ^ 53 := by
  have hn : n ≠ 0 := by
    rintro rfl
    simp at h
  have hpos : 0 < 2 ^ (n.log2 - 52) := Nat.two_pow_pos _
  have hlow : 2 ^ 52 ≤ n / 2 ^ (n.log2 - 52) := by
    rw [Nat.le_div_iff_mul_le hpos, ← Nat.pow_add, Nat.add_sub_cancel' h]
    exact Nat.log2_self_le hn
  have hhigh : n / 2 ^ (n.log2 - 52) < 2 ^ 53 := by
    rw [Nat.div_lt_iff_lt_mul hpos, ← Nat.pow_add]
    have hexponent : 53 + (n.log2 - 52) = n.log2 + 1 := by omega
    rw [hexponent]
    exact Nat.lt_log2_self
  exact ⟨Nat.le_trans hlow (le_roundDiv ..), Nat.le_trans (roundDiv_le ..) hhigh⟩

lemma two_pow_log2_le_nearestNat {n : Nat} (hn : n ≠ 0) : 2 ^ n.log2 ≤ nearestNat n := by
  by_cases h : n.log2 ≤ 52
  · rw [nearestNat_of_log2_le h]
    exact Nat.log2_self_le hn
  · have hsplit : 2 ^ n.log2 = 2 ^ 52 * 2 ^ (n.log2 - 52) := by
      rw [← Nat.pow_add, Nat.add_sub_cancel' (by omega)]
    rw [hsplit]
    exact Nat.mul_le_mul_right _ (leading_digits (by omega)).1

lemma nearestNat_le_two_pow (n : Nat) : nearestNat n ≤ 2 ^ (n.log2 + 1) := by
  by_cases h : n.log2 ≤ 52
  · rw [nearestNat_of_log2_le h]
    exact Nat.le_of_lt Nat.lt_log2_self
  · have hsplit : 2 ^ (n.log2 + 1) = 2 ^ 53 * 2 ^ (n.log2 - 52) := by
      rw [← Nat.pow_add]
      congr 1
      omega
    rw [hsplit]
    exact Nat.mul_le_mul_right _ (leading_digits (by omega)).2

/-- Natural numbers are rounded in order. -/
lemma nearestNat_le_nearestNat {m n : Nat} (h : m ≤ n) : nearestNat m ≤ nearestNat n := by
  have hlog : m.log2 ≤ n.log2 := by
    by_cases hm : m = 0
    · simp [hm]
    · exact (Nat.le_log2 (by omega)).mpr (Nat.le_trans (Nat.log2_self_le hm) h)
  rcases Nat.lt_or_eq_of_le hlog with hlt | heq
  · have hn : n ≠ 0 := by
      rintro rfl
      simp at hlt
    calc nearestNat m ≤ 2 ^ (m.log2 + 1) := nearestNat_le_two_pow m
      _ ≤ 2 ^ n.log2 := Nat.pow_le_pow_right (by decide) hlt
      _ ≤ nearestNat n := two_pow_log2_le_nearestNat hn
  · rw [nearestNat, nearestNat, heq]
    exact Nat.mul_le_mul_right _ (roundDiv_le_roundDiv _ h)

@[simp] lemma nearest_natCast (n : Nat) : nearest n = nearestNat n := rfl

@[simp] lemma nearest_neg_natCast (n : Nat) : nearest (-n) = -nearestNat n := by
  cases n with
  | zero => rfl
  | succ n => rfl

/-- Integers are rounded in order. -/
lemma nearest_le_nearest {a b : Int} (h : a ≤ b) : nearest a ≤ nearest b := by
  obtain ⟨m, rfl | rfl⟩ := Int.eq_nat_or_neg a
  · obtain ⟨n, rfl | rfl⟩ := Int.eq_nat_or_neg b
    · exact Int.ofNat_le.mpr (nearestNat_le_nearestNat (Int.ofNat_le.mp h))
    · obtain ⟨rfl, rfl⟩ : m = 0 ∧ n = 0 := by omega
      exact Int.le_refl _
  · obtain ⟨n, rfl | rfl⟩ := Int.eq_nat_or_neg b
    · rw [nearest_neg_natCast, nearest_natCast]
      omega
    · have hle : nearestNat n ≤ nearestNat m := nearestNat_le_nearestNat (by omega)
      rw [nearest_neg_natCast, nearest_neg_natCast]
      omega

end Decimal
end Changefeed
