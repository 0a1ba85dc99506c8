import Mathlib.Tactic.Lemma
import Changefeed.Key

/-!
# Ranges of keys

A range whose ends are integers of 63 bits and a sign holds exactly those of them that lie between
its ends, for such integers are compared as they are.  Where one range ends at the key that another
one begins with, no key of any kind is in both.
-/

namespace Changefeed

lemma Key.compare?_int {a b : Int} (ha : a < 0x8000000000000000) (hb : b < 0x8000000000000000) :
    compare? (.number (.int a)) (.number (.int b)) = some (compare a b) := by
  simp only [compare?, compareNumbers, Json.Number.toInt63?, if_pos ha, if_pos hb]

namespace KeyRange

lemma not_contains_of_below {low high : Option Json.Value} {cut key : Json.Value}
    (hkey : contains ⟨low, some cut⟩ key = true) : contains ⟨some cut, high⟩ key = false := by
  simp only [contains, belowHigh, Bool.and_eq_true, decide_eq_true_eq] at hkey
  simp [contains, aboveLow, hkey.2]

/-- The range between two integers; an end that is `none` is open. -/
def ofInts (low high : Option Int) : KeyRange :=
  ⟨low.map fun n => .number (.int n), high.map fun n => .number (.int n)⟩

variable {low high : Option Int} {k : Int}

/-- A range between two integers holds the integers from the low one to below the high one. -/
lemma contains_ofInts_iff (hlow : ∀ n ∈ low, n < 0x8000000000000000)
    (hhigh : ∀ n ∈ high, n < 0x8000000000000000) (hk : k < 0x8000000000000000) :
    (ofInts low high).contains (.number (.int k)) = true ↔
      (∀ n ∈ low, n ≤ k) ∧ ∀ n ∈ high, k < n := by
  have habove : (ofInts low high).aboveLow (.number (.int k)) = true ↔ ∀ n ∈ low, n ≤ k := by
    cases low with
    | none => simp [ofInts, aboveLow]
    | some n =>
      simp only [ofInts, aboveLow, Option.map_some, Key.compare?_int hk (hlow n rfl),
        Option.some.injEq, Bool.or_eq_true, decide_eq_true_eq, Option.mem_some_iff, forall_eq',
        Int.compare_eq_gt, Int.compare_eq_eq]
      omega
  have hbelow : (ofInts low high).belowHigh (.number (.int k)) = true ↔ ∀ n ∈ high, k < n := by
    cases high with
    | none => simp [ofInts, belowHigh]
    | some n =>
      simp only [ofInts, belowHigh, Option.map_some, Key.compare?_int hk (hhigh n rfl),
        Option.some.injEq, decide_eq_true_eq, Option.mem_some_iff, forall_eq', Int.compare_eq_lt]
  rw [contains, Bool.and_eq_true, habove, hbelow]

end KeyRange
end Changefeed
