import Changefeed.Key
import Changefeed.Proofs.Decimal.Nearest

/-!
# Doubles made of integers

The double that is made of an integer is, bit by bit, the nearest integer with 53 binary digits.
What a double is made of is taken apart into a mantissa of 53 digits and an exponent; numbers in
this form compare by their exponents first, and so as the integers do that they stand for.

An integer below `2 ^ 53` takes two steps to its double, one of which multiplies by one, and a
greater one takes a single step.  Both steps round a mantissa to 53 digits, by shifting the others
out one by one and remembering of them the last one and whether any other was not zero.
-/

namespace Changefeed
namespace Decimal

open Float.Model (Format UnpackedFloat)
open Float.Model.UnpackedFloat

/-! ## Shifting digits out -/

/-- What is left of a mantissa when digits are shifted out: the quotient, whether the remainder is
half of the divisor or more, and whether it is neither nothing nor that half. -/
def shifted (m k : Nat) : ExtendedMantissa where
  mantissa := m / 2 ^ k
  roundBit := decide (2 ^ k ≤ 2 * (m % 2 ^ k))
  stickyBit := decide (m % 2 ^ k ≠ 0 ∧ 2 * (m % 2 ^ k) ≠ 2 ^ k)

lemma shiftRightOne_shifted (m k : Nat) :
    (shifted m k).shiftRightOne = shifted m (k + 1) := by
  have hdouble : 2 ^ (k + 1) = 2 * 2 ^ k := by
    rw [Nat.pow_succ, Nat.mul_comm]
  have hremainder : m % 2 ^ (k + 1) = m % 2 ^ k + 2 ^ k * (m / 2 ^ k % 2) := by
    rw [Nat.pow_succ, Nat.mod_mul]
  have hlt : m % 2 ^ k < 2 ^ k := Nat.mod_lt _ (Nat.two_pow_pos k)
  have hround : m / 2 ^ k % 2 ≠ 0 ↔ 2 ^ (k + 1) ≤ 2 * (m % 2 ^ (k + 1)) := by
    rw [hremainder, hdouble]
    rcases Nat.mod_two_eq_zero_or_one (m / 2 ^ k) with h | h <;> rw [h] <;> omega
  have hsticky : 2 ^ k ≤ 2 * (m % 2 ^ k) ∨ (m % 2 ^ k ≠ 0 ∧ 2 * (m % 2 ^ k) ≠ 2 ^ k) ↔
      m % 2 ^ (k + 1) ≠ 0 ∧ 2 * (m % 2 ^ (k + 1)) ≠ 2 ^ (k + 1) := by
    rw [hremainder, hdouble]
    rcases Nat.mod_two_eq_zero_or_one (m / 2 ^ k) with h | h <;> rw [h] <;> omega
  rw [ExtendedMantissa.shiftRightOne, shifted, shifted, ExtendedMantissa.mk.injEq,
    ← Bool.decide_or]
  refine ⟨?_, ?_, decide_eq_decide.mpr hsticky⟩
  · rw [Nat.div_div_eq_div_mul, Nat.pow_succ]
  · rw [Bool.eq_iff_iff, bne_iff_ne, decide_eq_true_iff]
    exact hround

lemma shiftRight_eq (m k : Nat) : (⟨m, false, false⟩ : ExtendedMantissa) >>> k = shifted m k := by
  show Nat.repeat ExtendedMantissa.shiftRightOne k ⟨m, false, false⟩ = shifted m k
  induction k with
  | zero => simp [Nat.repeat, shifted, Nat.mod_one]
  | succ k ih => rw [Nat.repeat, ih, shiftRightOne_shifted]

/-- What was shifted out decides how the mantissa is rounded. -/
lemma roundedMantissa_shifted (m k : Nat) :
    (shifted m k).roundedMantissa = roundDiv m (2 ^ k) := by
  rw [roundDiv_eq, ExtendedMantissa.roundedMantissa, shifted]
  have hpos : 0 < 2 ^ k := Nat.two_pow_pos k
  generalize m % 2 ^ k = rest
  by_cases hround : 2 ^ k ≤ 2 * rest
  · rw [if_neg (by omega), decide_eq_true hround]
    by_cases hhalf : 2 * rest = 2 ^ k
    · rw [if_pos hhalf, decide_eq_false (by omega)]
      rfl
    · rw [if_neg hhalf, decide_eq_true (by omega)]
      rfl
  · rw [if_pos (by omega), decide_eq_false hround]
    by_cases hnone : rest = 0
    · rw [decide_eq_false (by omega)]
      rfl
    · rw [decide_eq_true (by omega)]
      rfl

/-! ## Mantissas of 53 digits -/

/-- The number that is made up of a mantissa of 53 digits and an exponent is an integer. -/
inductive Stands : UnpackedFloat → Int → Prop
  | zero (s : Sign) : Stands (.zero s) 0
  | finite (s : Sign) {m k n : Nat} (hm : 0 < m) (low : 2 ^ 52 ≤ m) (high : m < 2 ^ 53)
      (bounded : k < 1024) (value : m * 2 ^ k = n * 2 ^ 52) :
      Stands (.finite s m ((k : Int) - 52) hm) (s.apply n)

lemma log2_mul_two_pow {n : Nat} (hn : n ≠ 0) (k : Nat) : (n * 2 ^ k).log2 = n.log2 + k := by
  induction k with
  | zero => rw [Nat.pow_zero, Nat.mul_one, Nat.add_zero]
  | succ k ih =>
    have hpos : n * 2 ^ k ≠ 0 := Nat.mul_ne_zero hn (Nat.ne_of_gt (Nat.two_pow_pos k))
    rw [Nat.pow_succ, ← Nat.mul_assoc, Nat.mul_comm, Nat.log2_two_mul hpos, ih, Nat.add_assoc]

lemma log2_eq {m : Nat} (low : 2 ^ 52 ≤ m) (high : m < 2 ^ 53) : m.log2 = 52 :=
  (Nat.log2_eq_iff (by omega)).mpr ⟨low, high⟩

/-- Numbers with mantissas of 53 digits compare by their exponents first. -/
lemma compare_finite {m₁ m₂ k₁ k₂ n₁ n₂ : Nat} (low₁ : 2 ^ 52 ≤ m₁) (high₁ : m₁ < 2 ^ 53)
    (value₁ : m₁ * 2 ^ k₁ = n₁ * 2 ^ 52) (low₂ : 2 ^ 52 ≤ m₂) (high₂ : m₂ < 2 ^ 53)
    (value₂ : m₂ * 2 ^ k₂ = n₂ * 2 ^ 52) :
    (compare ((k₁ : Int) - 52) ((k₂ : Int) - 52)).then (compare m₁ m₂) =
      compare (n₁ : Int) n₂ := by
  have hless : ∀ {m m' k k' n n' : Nat}, m < 2 ^ 53 → 2 ^ 52 ≤ m' → m * 2 ^ k = n * 2 ^ 52 →
      m' * 2 ^ k' = n' * 2 ^ 52 → k < k' → n < n' := by
    intro m m' k k' n n' high low value value' hk
    have hscaled : n * 2 ^ 52 < n' * 2 ^ 52 := by
      calc n * 2 ^ 52 = m * 2 ^ k := value.symm
        _ < 2 ^ 53 * 2 ^ k := Nat.mul_lt_mul_of_pos_right high (Nat.two_pow_pos k)
        _ = 2 ^ 52 * 2 ^ (k + 1) := by rw [← Nat.pow_add, ← Nat.pow_add]; congr 1; omega
        _ ≤ m' * 2 ^ k' := Nat.mul_le_mul low (Nat.pow_le_pow_right (by decide) hk)
        _ = n' * 2 ^ 52 := value'
    exact Nat.lt_of_mul_lt_mul_right hscaled
  rcases Nat.lt_trichotomy k₁ k₂ with hk | rfl | hk
  · have hn := hless high₁ low₂ value₁ value₂ hk
    rw [Int.compare_eq_lt.mpr (by omega), Int.compare_eq_lt.mpr (Int.ofNat_lt.mpr hn)]
    rfl
  · have hlt : ∀ {m m' n n' : Nat}, m * 2 ^ k₁ = n * 2 ^ 52 → m' * 2 ^ k₁ = n' * 2 ^ 52 →
        m < m' → n < n' := by
      intro m m' n n' value value' hm
      have hscaled := Nat.mul_lt_mul_of_pos_right hm (Nat.two_pow_pos k₁)
      rw [value, value'] at hscaled
      exact Nat.lt_of_mul_lt_mul_right hscaled
    rw [Int.compare_eq_eq.mpr rfl]
    show compare m₁ m₂ = compare (n₁ : Int) n₂
    rcases Nat.lt_trichotomy m₁ m₂ with hm | rfl | hm
    · have hn := hlt value₁ value₂ hm
      rw [Nat.compare_eq_lt.mpr hm, Int.compare_eq_lt.mpr (Int.ofNat_lt.mpr hn)]
    · have hn : n₁ = n₂ := Nat.eq_of_mul_eq_mul_right (by decide) (value₁.symm.trans value₂)
      rw [Nat.compare_eq_eq.mpr rfl, hn, Int.compare_eq_eq.mpr rfl]
    · have hn := hlt value₂ value₁ hm
      rw [Nat.compare_eq_gt.mpr hm, Int.compare_eq_gt.mpr (Int.ofNat_lt.mpr hn)]
  · have hn := hless high₂ low₁ value₂ value₁ hk
    rw [Int.compare_eq_gt.mpr (by omega), Int.compare_eq_gt.mpr (Int.ofNat_lt.mpr hn)]
    rfl

lemma compare_neg (a b : Int) : compare (-a) (-b) = (compare a b).swap := by
  rw [Int.compare_swap, Int.compare_eq_ite_lt, Int.compare_eq_ite_lt]
  simp only [Int.neg_lt_neg_iff]

/-- Numbers compare as the integers do that they stand for. -/
lemma Stands.compare_eq {u v : UnpackedFloat} {a b : Int} (hu : Stands u a) (hv : Stands v b) :
    u.compare v = some (compare a b) := by
  have hpos : ∀ {m k n : Nat}, 0 < m → m * 2 ^ k = n * 2 ^ 52 → 0 < n := by
    intro m k n hm value
    have hscaled : 0 < n * 2 ^ 52 := by
      rw [← value]
      exact Nat.mul_pos hm (Nat.two_pow_pos k)
    exact Nat.pos_of_mul_pos_right hscaled
  have hlt : ∀ {a b : Int}, a < b → some Ordering.lt = some (compare a b) := fun h => by
    rw [Int.compare_eq_lt.mpr h]
  have hgt : ∀ {a b : Int}, b < a → some Ordering.gt = some (compare a b) := fun h => by
    rw [Int.compare_eq_gt.mpr h]
  cases hu with
  | zero s =>
    cases hv with
    | zero s' => rfl
    | finite s' hm' low' high' bounded' value' =>
      have hn' := hpos hm' value'
      cases s' with
      | negative => exact hgt (by simp only [Sign.apply]; omega)
      | positive => exact hlt (by simp only [Sign.apply]; omega)
  | finite s hm low high bounded value =>
    have hn := hpos hm value
    cases hv with
    | zero s' =>
      cases s with
      | negative => exact hlt (by simp only [Sign.apply]; omega)
      | positive => exact hgt (by simp only [Sign.apply]; omega)
    | finite s' hm' low' high' bounded' value' =>
      have hn' := hpos hm' value'
      have hcompare := compare_finite low high value low' high' value'
      cases s with
      | negative =>
        cases s' with
        | negative =>
          show some ((compare _ _).then (compare _ _)).swap = _
          rw [hcompare, ← compare_neg]
          rfl
        | positive => exact hlt (by simp only [Sign.apply]; omega)
      | positive =>
        cases s' with
        | negative => exact hgt (by simp only [Sign.apply]; omega)
        | positive =>
          show some ((compare _ _).then (compare _ _)) = _
          rw [hcompare]
          rfl

/-! ## Packed numbers -/

@[simp] lemma unpackSign_packComponents (s : Sign) (e : BitVec 11) (m : BitVec 52) :
    Sign.ofBitVec (unpackSign (packComponents Format.binary64 s e m)) = s := by
  show Sign.ofBitVec ((s.toBitVec ++ e ++ m).extractLsb' 63 1) = s
  rw [BitVec.extractLsb'_append_eq_of_le (by decide),
    BitVec.extractLsb'_append_eq_of_le (by decide)]
  cases s <;> rfl

lemma implicit_digit {m : Nat} (low : 2 ^ 52 ≤ m) (high : m < 2 ^ 53) :
    (1#1 ++ BitVec.ofNat 52 m).toNat = m := by
  rw [BitVec.toNat_append, ← Nat.shiftLeft_add_eq_or_of_lt (BitVec.ofNat 52 m).isLt,
    BitVec.toNat_ofNat, Nat.shiftLeft_eq]
  simp only [BitVec.toNat_ofNat]
  omega

/-- A number with 53 digits is packed without its first one. -/
lemma pack_finite (s : Sign) {m k : Nat} (hm : 0 < m) (low : 2 ^ 52 ≤ m) (high : m < 2 ^ 53)
    (bounded : k < 1024) :
    UnpackedFloat.pack Format.binary64 (.finite s m ((k : Int) - 52) hm) =
      packComponents Format.binary64 s (BitVec.ofNat 11 (k + 1023)) (BitVec.ofNat 52 m) := by
  have hexponent : ((k : Int) - 52 + ((2 ^ (11 - 1) - 1 : Nat) : Int) + ((52 : Nat) : Int)).toNat =
      k + 1023 := by omega
  have hdigits : m.log2 + 1 = 53 := by rw [log2_eq low high]
  rw [← hexponent]
  refine (if_neg ?_).trans (if_pos hdigits)
  show ¬ 2 ^ 11 ≤ ((k : Int) - 52 + ((2 ^ (11 - 1) - 1 : Nat) : Int) + ((52 : Nat) : Int)).toNat + 1
  omega

/-- Bits with an exponent that is neither the least nor the greatest one are those of a number with
53 digits. -/
lemma unpack_finite {b : BitVec Format.binary64.numBits} (hfinite : unpackExponent b ≠ -1#11)
    (hnormal : unpackExponent b ≠ 0#11) {m : Nat} (hm : 0 < m)
    (hmantissa : (1#1 ++ unpackMantissa b).toNat = m) :
    unpack Format.binary64 b =
      .finite (Sign.ofBitVec (unpackSign b)) m (((unpackExponent b).toNat : Int) - 1075) hm := by
  subst hmantissa
  exact (if_neg hfinite).trans (if_neg hnormal)

/-- A number that stands for an integer is read back from its bits. -/
lemma Stands.unpack_pack {u : UnpackedFloat} {n : Int} (h : Stands u n) :
    (Float.Model.pack u).unpack = u := by
  cases h with
  | zero s => cases s <;> rfl
  | @finite s m k n hm low high bounded value =>
    have hbits := pack_finite s hm low high bounded
    show unpack Format.binary64 (UnpackedFloat.pack Format.binary64 _) = _
    generalize UnpackedFloat.pack Format.binary64 _ = b at hbits ⊢
    have hsign : Sign.ofBitVec (unpackSign b) = s := hbits ▸ unpackSign_packComponents s _ _
    have hrest : unpackMantissa b = BitVec.ofNat 52 m := hbits ▸ unpackMantissa_packComponents
    have hmantissa : (1#1 ++ unpackMantissa b).toNat = m := hrest ▸ implicit_digit low high
    have hcut : unpackExponent b = BitVec.ofNat 11 (k + 1023) :=
      hbits ▸ unpackExponent_packComponents
    have hexponent : (unpackExponent b).toNat = k + 1023 := by
      rw [hcut]
      exact Nat.mod_eq_of_lt (by omega)
    have hfinite : unpackExponent b ≠ -1#11 := by
      intro heq
      rw [heq, show (-1#11).toNat = 2047 from rfl] at hexponent
      omega
    have hnormal : unpackExponent b ≠ 0#11 := by
      intro heq
      rw [heq, show (0#11).toNat = 0 from rfl] at hexponent
      omega
    have hplaces : ((k + 1023 : Nat) : Int) - 1075 = (k : Int) - 52 := by omega
    rw [unpack_finite hfinite hnormal hm hmantissa, hsign, hexponent, hplaces]

/-! ## Rounded numbers -/

/-- All digits behind the first 53 are shifted out. -/
lemma shiftToTargetExponent_eq {m : Nat} {e : Int} (hm : 52 ≤ m.log2)
    (hnormal : -1022 ≤ (m.log2 : Int) + e) :
    shiftToTargetExponent Format.binary64 m e .exact =
      (shifted m (m.log2 - 52), e + (m.log2 - 52 : Nat)) := by
  have htarget : Format.binary64.targetExponent (Float.Model.totalExponent m e) =
      (m.log2 : Int) + e - 52 := by
    show max ((m.log2 : Int) + 1 + e - ((1 + 52 : Nat) : Int))
      (3 - 2 ^ (11 - 1) - ((1 + 52 : Nat) : Int)) = _
    omega
  have hshift : ((m.log2 : Int) + e - 52 - e).toNat = m.log2 - 52 := by omega
  rw [shiftToTargetExponent]
  simp only [htarget, shiftToExponent, hshift]
  rw [ExtendedMantissa.ofMantissaAndAccuracy, shiftRight_eq]

/-- A rounded number stands for the integer that its rounded mantissa and its exponent make up. -/
lemma stands_roundWithAccuracy (s : Sign) {m k n : Nat} {e : Int} (hm : 52 ≤ m.log2)
    (hexponent : e + (m.log2 - 52 : Nat) = (k : Int) - 52) (hk : k < 1023)
    (value : roundDiv m (2 ^ (m.log2 - 52)) * 2 ^ k = n * 2 ^ 52) :
    Stands (roundWithAccuracy Format.binary64 s m e .exact) (s.apply n) := by
  obtain ⟨low, high⟩ := leading_digits hm
  rw [roundWithAccuracy, shiftToTargetExponent_eq hm (by omega)]
  dsimp only
  rw [roundedMantissa_shifted, hexponent]
  generalize roundDiv m (2 ^ (m.log2 - 52)) = r at low high value
  by_cases hr : r < 2 ^ 53
  · have hlog := log2_eq low hr
    have hsame : (k : Int) - 52 + (52 - 52 : Nat) = (k : Int) - 52 := by omega
    rw [shiftToTargetExponent_eq (by omega) (by omega), hlog, hsame]
    have hmantissa : (shifted r (52 - 52)).mantissa = r := Nat.div_one r
    dsimp only
    rw [dif_neg (by omega)]
    exact .finite s _ (by omega) (by omega) (by omega) (by rw [hmantissa, value])
  · -- one digit too many, but all digits behind the first one are zeros
    obtain rfl : r = 2 ^ 53 := by omega
    have hlog : (2 ^ 53).log2 = 53 := Nat.log2_two_pow
    have hnext : (k : Int) - 52 + (53 - 52 : Nat) = (k + 1 : Nat) - 52 := by omega
    rw [shiftToTargetExponent_eq (by omega) (by omega), hlog, hnext]
    have hmantissa : (shifted (2 ^ 53) (53 - 52)).mantissa = 2 ^ 52 := rfl
    dsimp only
    rw [dif_neg (by omega)]
    exact .finite s _ (by omega) (by omega) (by omega)
      (by rw [hmantissa, ← value, ← Nat.pow_add, ← Nat.pow_add]; congr 1; omega)

/-! ## Doubles -/

/-- The double that stands for an integer. -/
def Equals (x : Float) (n : Int) : Prop := Stands x.toModel.unpack n

lemma Stands.equals {u : UnpackedFloat} {n : Int} (h : Stands u n) :
    Equals ⟨Float.Model.pack u⟩ n := by
  show Stands (Float.Model.pack u).unpack n
  rw [h.unpack_pack]
  exact h

lemma Stands.neg {u : UnpackedFloat} {n : Int} (h : Stands u n) : Stands u.neg (-n) := by
  cases h with
  | zero s => exact .zero (-s)
  | finite s hm low high bounded value =>
    have hopposite : ∀ n : Nat, -s.apply n = (-s).apply n := by
      intro n
      cases s with
      | negative => exact Int.neg_neg n
      | positive => rfl
    rw [hopposite]
    exact .finite (-s) hm low high bounded value

/-- The double of a number below `2 ^ 53`, before it is multiplied by one. -/
lemma equals_toFloat {n : Nat} (hn : n ≠ 0) (hsmall : n < 2 ^ 53) :
    Equals n.toUInt64.toFloat n := by
  have hlog : n.log2 ≤ 52 := by
    have hlt := (Nat.log2_lt hn).mpr hsmall
    omega
  have hword : n.toUInt64.toNat = n := by
    rw [Nat.toUInt64, UInt64.toNat_ofNat', Nat.mod_eq_of_lt (by omega)]
  have htarget : Format.binary64.targetExponent (Float.Model.totalExponent n 0) =
      (n.log2 : Int) - 52 := by
    show max ((n.log2 : Int) + 1 + 0 - ((1 + 52 : Nat) : Int))
      (3 - 2 ^ (11 - 1) - ((1 + 52 : Nat) : Int)) = _
    omega
  have hshift : (0 - ((n.log2 : Int) - 52)).toNat = 52 - n.log2 := by omega
  have hwhole : (n * 2 ^ (52 - n.log2)).log2 = 52 := by
    rw [log2_mul_two_pow hn]
    omega
  apply Stands.equals
  show Stands (UnpackedFloat.normalize Format.binary64 (n.toUInt64.toNat : Int) 0 .positive) n
  rw [hword, UnpackedFloat.normalize, Int.compare_eq_gt.mpr (by omega)]
  show Stands (UnpackedFloat.round Format.binary64 .positive n 0) n
  rw [UnpackedFloat.round, htarget, decreaseExponent, hshift, Nat.shiftLeft_eq]
  refine stands_roundWithAccuracy .positive (k := n.log2) (by omega) (by omega) (by omega) ?_
  rw [hwhole, Nat.sub_self, Nat.pow_zero, roundDiv_one, Nat.mul_assoc, ← Nat.pow_add,
    Nat.sub_add_cancel hlog]

lemma mul_finite (s₁ s₂ : Sign) {m₁ m₂ : Nat} (e₁ e₂ : Int) (h₁ : 0 < m₁) (h₂ : 0 < m₂) :
    UnpackedFloat.mul Format.binary64 (.finite s₁ m₁ e₁ h₁) (.finite s₂ m₂ e₂ h₂) =
      roundWithAccuracy Format.binary64 (s₁ * s₂) (m₁ * m₂) (e₁ + e₂) .exact :=
  rfl

/-- To multiply a small number by one changes nothing. -/
lemma Stands.mul_one {u : UnpackedFloat} {n : Int} (h : Stands u n) (hsmall : n.natAbs < 2 ^ 53) :
    Stands (UnpackedFloat.mul Format.binary64 u (.finite .positive (2 ^ 52) (-52) (by decide)))
      n := by
  cases h with
  | zero s => exact .zero _
  | @finite s m k n hm low high bounded value =>
    have hsign : s * .positive = s := by cases s <;> rfl
    have hlog : (m * 2 ^ 52).log2 = 104 := by
      rw [log2_mul_two_pow (by omega), log2_eq low high]
    have hmagnitude : n < 2 ^ 53 := by
      cases s <;> simpa only [Sign.apply, Int.natAbs_neg, Int.natAbs_natCast] using hsmall
    have hk : k < 53 := by
      refine Nat.lt_of_not_le fun hle => ?_
      have hbig : 2 ^ 52 * 2 ^ 53 ≤ m * 2 ^ k :=
        Nat.mul_le_mul low (Nat.pow_le_pow_right (by decide) hle)
      omega
    rw [mul_finite, hsign]
    refine stands_roundWithAccuracy s (k := k) (by omega) (by omega) (by omega) ?_
    have hround : roundDiv (m * 2 ^ 52) (1 * 2 ^ 52) = m := by
      rw [roundDiv_mul_right _ _ (by decide), roundDiv_one]
    rw [Nat.one_mul] at hround
    rw [hlog, hround, value]

/-- A number of 53 digits or more is rounded in one step. -/
lemma stands_ofScientific {n : Nat} (hlog : 52 ≤ n.log2) (hbound : n.log2 < 1023) :
    Stands (UnpackedFloat.ofScientific Format.binary64 n 0) (nearestNat n) := by
  have hn : n ≠ 0 := by
    rintro rfl
    simp at hlog
  have hshifted : (n * 2 ^ 53).log2 = n.log2 + 53 := log2_mul_two_pow hn 53
  have hlarge : ¬ (0 : Int) < -(2 ^ 11 + (n.log2 : Int)) := by omega
  rw [UnpackedFloat.ofScientific, dif_neg hn, if_neg (by decide), if_neg hlarge,
    if_pos (Int.le_refl 0), mul_finite]
  show Stands (roundWithAccuracy Format.binary64 .positive (n <<< 53 * 1) (-53 + 0) .exact) _
  rw [Nat.mul_one, Nat.shiftLeft_eq]
  refine stands_roundWithAccuracy .positive (k := n.log2) (by omega) (by omega) hbound ?_
  have hplaces : n.log2 + 53 - 52 = (n.log2 - 52) + 53 := by omega
  have hkept : n.log2 = (n.log2 - 52) + 52 := by omega
  rw [hshifted, hplaces, Nat.pow_add, roundDiv_mul_right _ _ (by decide), nearestNat,
    Nat.mul_assoc, ← Nat.pow_add, ← hkept]

/-- A natural number becomes the double that is nearest to it. -/
lemma equals_ofNat {n : Nat} (hbound : n.log2 < 1023) :
    Equals (Float.ofNat n) (nearestNat n) := by
  by_cases hn : n = 0
  · subst hn
    exact .zero .positive
  · show Equals (Float.ofScientific n false 0) (nearestNat n)
    by_cases hsmall : n < 2 ^ 53
    · have hlog := (Nat.log2_lt hn).mpr hsmall
      have hexact := equals_toFloat hn hsmall
      have hone : (Float.exactlyRepresentablePowersOfTen[0]).toModel.unpack =
          .finite .positive (2 ^ 52) (-52) (by decide) := by
        show (Float.Model.pack (unpack Format.binary64 (4607182418800017408#64))).unpack = _
        have hbits : unpack Format.binary64 (4607182418800017408#64) =
            .finite .positive (2 ^ 52) (-52) (by decide) := rfl
        rw [hbits]
        rfl
      rw [nearestNat_of_log2_le (by omega), Float.ofScientific, dif_pos ⟨hsmall, by decide⟩]
      have hproduct := (hexact.mul_one (by omega)).equals
      rw [← hone] at hproduct
      exact hproduct
    · rw [Float.ofScientific, dif_neg (by omega)]
      have hlog : 53 ≤ n.log2 := (Nat.le_log2 hn).mpr (by omega)
      exact (stands_ofScientific (by omega) hbound).equals

lemma equals_ofInt {n : Int} (hbound : n.natAbs.log2 < 1023) :
    Equals (Float.ofInt n) (nearest n) := by
  cases n with
  | ofNat n => exact equals_ofNat hbound
  | negSucc n =>
    have hopposite : Equals (Float.ofNat (n + 1)) (nearestNat (n + 1)) := equals_ofNat hbound
    exact (Stands.neg hopposite).equals

lemma float_lt_iff {x y : Float} :
    x < y ↔ x.toModel.unpack.compare y.toModel.unpack = some .lt := by
  show decide ((x.toModel.unpack.compare y.toModel.unpack == some .lt) = true) = true ↔ _
  rw [decide_eq_true_iff, beq_iff_eq]

lemma float_beq_iff {x y : Float} :
    (x == y) = true ↔ x.toModel.unpack.compare y.toModel.unpack = some .eq := by
  show (x.toModel.unpack.compare y.toModel.unpack == some .eq) = true ↔ _
  rw [beq_iff_eq]

/-- Doubles that stand for integers compare as these do. -/
lemma compareFloats_eq {x y : Float} {a b : Int} (hx : Equals x a) (hy : Equals y b) :
    Key.compareFloats x y = some (compare a b) := by
  have hlt : x < y ↔ a < b := by
    rw [float_lt_iff, Stands.compare_eq hx hy, Option.some_inj, Int.compare_eq_lt]
  have heq : (x == y) = true ↔ a = b := by
    rw [float_beq_iff, Stands.compare_eq hx hy, Option.some_inj, Int.compare_eq_eq]
  have hgt : y < x ↔ b < a := by
    rw [float_lt_iff, Stands.compare_eq hy hx, Option.some_inj, Int.compare_eq_lt]
  rw [Key.compareFloats, Int.compare_eq_ite_lt]
  simp only [hlt, heq, hgt]
  by_cases hless : a < b
  · rw [if_pos hless, if_pos hless]
  · by_cases hgreater : b < a
    · rw [if_neg hless, if_neg (by omega), if_pos hgreater, if_neg hless, if_pos hgreater]
    · rw [if_neg hless, if_pos (by omega), if_neg hless, if_neg hgreater]

lemma compareFloats_ofInt {a b : Int} (ha : a.natAbs.log2 < 1023) (hb : b.natAbs.log2 < 1023) :
    Key.compareFloats (Float.ofInt a) (Float.ofInt b) = some (compare (nearest a) (nearest b)) :=
  compareFloats_eq (equals_ofInt ha) (equals_ofInt hb)

end Decimal
end Changefeed
