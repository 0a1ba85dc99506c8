import Mathlib.Algebra.Group.Nat.Defs
import Mathlib.Tactic.ByContra
import Changefeed.Config

/-!
# Backoff

Without jitter the delay before a retry is the first delay taken a number of times, cut off at the
longest delay.  The number of times doubles from one retry to the next for as long as it fits 32
bits, and is the greatest number of 32 bits from then on; so it never falls.  The product may stop
at the longest duration there is, but no longest delay exceeds that, and what is cut off there is
cut off anyway.
-/

namespace Changefeed
namespace RetryPolicy

variable {p : RetryPolicy} {n : Nat}

/-- The greatest number of 32 bits. -/
def maxFactor : Nat := 2 ^ 32 - 1

lemma factor_of_lt (h : n < 32) : factor n = 2 ^ n := if_pos h

lemma factor_of_ge (h : 32 ≤ n) : factor n = maxFactor := if_neg (Nat.not_lt.mpr h)

lemma two_pow_le_maxFactor (h : n < 32) : 2 ^ n ≤ maxFactor :=
  Nat.le_trans (Nat.pow_le_pow_right (by decide) (Nat.le_of_lt_succ h)) (by decide)

lemma maxFactor_lt_two_pow (h : 32 ≤ n) : maxFactor < 2 ^ n :=
  Nat.lt_of_lt_of_le (by decide) (Nat.pow_le_pow_right (by decide) h)

lemma factor_le_factor_succ (n : Nat) : factor n ≤ factor (n + 1) := by
  by_cases hnext : n + 1 < 32
  · rw [factor_of_lt (Nat.lt_of_succ_lt hnext), factor_of_lt hnext]
    exact Nat.pow_le_pow_right (by decide) (Nat.le_succ n)
  · rw [factor_of_ge (Nat.not_lt.mp hnext)]
    by_cases hn : n < 32
    · rw [factor_of_lt hn]
      exact two_pow_le_maxFactor hn
    · exact Nat.le_of_eq (factor_of_ge (Nat.not_lt.mp hn))

lemma nanos_plainDelay (hmax : p.maxDelay.nanos ≤ Duration.longest.nanos) (n : Nat) :
    (p.plainDelay n).nanos = min (p.retryDelay.nanos * factor n) p.maxDelay.nanos := by
  simp only [plainDelay, Duration.shorter, Duration.times]
  omega

/-- The delay is the doubled one, cut off at the longest, as long as the multiple is a power of two
or the greatest multiple is enough for the longest delay, and where there is no delay at all. -/
lemma nanos_plainDelay_eq_iff (hmax : p.maxDelay.nanos ≤ Duration.longest.nanos) (n : Nat) :
    (p.plainDelay n).nanos = min (p.retryDelay.nanos * 2 ^ n) p.maxDelay.nanos ↔
      n < 32 ∨ p.maxDelay.nanos ≤ p.retryDelay.nanos * maxFactor ∨ p.retryDelay.nanos = 0 := by
  rw [nanos_plainDelay hmax]
  by_cases hn : n < 32
  · simp [factor_of_lt hn, hn]
  · have hn' := Nat.not_lt.mp hn
    rw [factor_of_ge hn']
    constructor
    · intro heq
      by_contra hshort
      obtain ⟨-, hcut, hpos⟩ := not_or.mp hshort |>.imp_right not_or.mp
      have hless : p.retryDelay.nanos * maxFactor < p.retryDelay.nanos * 2 ^ n :=
        Nat.mul_lt_mul_of_pos_left (maxFactor_lt_two_pow hn') (Nat.pos_of_ne_zero hpos)
      omega
    · intro hshort
      have hle : p.retryDelay.nanos * maxFactor ≤ p.retryDelay.nanos * 2 ^ n :=
        Nat.mul_le_mul_left _ (Nat.le_of_lt (maxFactor_lt_two_pow hn'))
      rcases hshort.resolve_left hn with hcut | hzero
      · omega
      · simp [hzero]

lemma delay_of_no_jitter (hjitter : p.jitter ≤ 0) (n : Nat) : p.delay n = some (p.plainDelay n) :=
  if_pos hjitter

/-- Without jitter there is a delay before every retry, never above the longest delay and never
below the delay before the retry ahead of it.  It is the first delay times `2 ^ n`, cut off at the
longest delay, for `n` below 32 and wherever `2 ^ 32 - 1` times the first delay comes up to the
longest one; beyond that only no delay at all is as if doubled on. -/
theorem delay_grows_to_longest (hjitter : p.jitter ≤ 0)
    (hmax : p.maxDelay.nanos ≤ Duration.longest.nanos) (n : Nat) :
    ∃ d next, p.delay n = some d ∧ p.delay (n + 1) = some next ∧
      d.nanos ≤ p.maxDelay.nanos ∧ d.nanos ≤ next.nanos ∧
      (d.nanos = min (p.retryDelay.nanos * 2 ^ n) p.maxDelay.nanos ↔
        n < 32 ∨ p.maxDelay.nanos ≤ p.retryDelay.nanos * (2 ^ 32 - 1) ∨
          p.retryDelay.nanos = 0) := by
  refine ⟨_, _, delay_of_no_jitter hjitter n, delay_of_no_jitter hjitter (n + 1), ?_, ?_,
    nanos_plainDelay_eq_iff hmax n⟩
  · rw [nanos_plainDelay hmax]
    exact Nat.min_le_right _ _
  · rw [nanos_plainDelay hmax, nanos_plainDelay hmax]
    have hgrows : p.retryDelay.nanos * factor n ≤ p.retryDelay.nanos * factor (n + 1) :=
      Nat.mul_le_mul_left _ (factor_le_factor_succ n)
    omega

lemma retryPolicy_representable {c : FetchConfig} (h : c.maxRetryDelayMs < 2 ^ 64) :
    c.retryPolicy.jitter ≤ 0 ∧ c.retryPolicy.maxDelay.nanos ≤ Duration.longest.nanos := by
  have hzero : (0 : Float) ≤ 0 := by decide
  refine ⟨hzero, ?_⟩
  simp only [FetchConfig.retryPolicy, Duration.ofMillis, Duration.longest, Duration.millisecond,
    Duration.second]
  omega

/-- With a first delay of one millisecond and the greatest longest delay that settings can hold, the
32nd delay is `2 ^ 31` milliseconds, and the next one `2 ^ 32 - 1`. -/
theorem delay_grows_to_longest_millisecond :
    let p := FetchConfig.retryPolicy { retryDelayMs := 1, maxRetryDelayMs := 2 ^ 64 - 1 }
    p.jitter ≤ 0 ∧ p.maxDelay.nanos ≤ Duration.longest.nanos ∧
      ∃ d next, p.delay 31 = some d ∧ p.delay 32 = some next ∧
        d.nanos ≤ p.maxDelay.nanos ∧ d.nanos ≤ next.nanos ∧ d = .ofMillis (2 ^ 31) ∧
        next = .ofMillis (2 ^ 32 - 1) := by
  intro p
  obtain ⟨hjitter, hmax⟩ : p.jitter ≤ 0 ∧ p.maxDelay.nanos ≤ Duration.longest.nanos :=
    retryPolicy_representable (by decide)
  obtain ⟨d, next, hd, hnext, hle, hgrows, -⟩ := delay_grows_to_longest hjitter hmax 31
  refine ⟨hjitter, hmax, d, next, hd, hnext, hle, hgrows, ?_, ?_⟩
  · rw [delay_of_no_jitter hjitter] at hd
    exact (Option.some.inj hd).symm.trans (by decide +kernel)
  · rw [delay_of_no_jitter hjitter] at hnext
    exact (Option.some.inj hnext).symm.trans (by decide +kernel)

end RetryPolicy
end Changefeed
