import Changefeed.Gtid.Text
import Changefeed.Proofs.Gtid.Algebra
import Changefeed.Wire.Offset

/-!
# The sets that can be built

Sets come from the empty one and from texts, by adding intervals, uniting, subtracting and
completing.  All of these leave a set in normal form, also where intervals reach the least or the
greatest transaction number.  Equality of such sets is therefore equality of their members: the
order in which transactions came in, how they were cut into intervals and the case in which their
sources were written leave no trace.
-/

namespace Changefeed
namespace GtidSet

variable {s t : GtidSet}

/-! ## Reading -/

lemma eq_ok_of_bind {α β : Type} {x : Outcome α} {f : α → Outcome β} {b : β}
    (h : x >>= f = .ok b) : ∃ a, x = .ok a ∧ f a = .ok b := by
  cases x with
  | error e => cases h
  | ok a => exact ⟨a, rfl, h⟩

lemma first_le_last_of_readInterval {segment part : List Char} {i : Interval}
    (h : readInterval segment part = .ok i) : i.first ≤ i.last := by
  unfold readInterval at h
  split at h
  · obtain ⟨_, -, h⟩ := eq_ok_of_bind h
    obtain ⟨_, -, h⟩ := eq_ok_of_bind h
    exact Interval.first_le_last_of_make h
  · obtain ⟨_, -, h⟩ := eq_ok_of_bind h
    exact Interval.first_le_last_of_make h

namespace Normal

lemma readIntervals {segment : List Char} {source : String} {parts : List (List Char)}
    (hs : Normal s) (h : GtidSet.readIntervals segment source s parts = .ok t) : Normal t := by
  induction parts generalizing s with
  | nil =>
    obtain rfl := Except.ok.inj h
    exact hs
  | cons part rest ih =>
    obtain ⟨i, hi, h⟩ := eq_ok_of_bind h
    exact ih (hs.add source (first_le_last_of_readInterval hi)) h

/-- Reading a segment keeps a set in normal form. -/
lemma readSegment {segment : List Char} (hs : Normal s)
    (h : GtidSet.readSegment s segment = .ok t) : Normal t := by
  unfold GtidSet.readSegment at h
  split at h
  · obtain rfl := Except.ok.inj h
    exact hs
  · split at h
    · cases h
    · split at h
      · cases h
      · exact hs.readIntervals h

/-- Reading segments keeps a set in normal form. -/
lemma readSegments {segments : List (List Char)} (hs : Normal s)
    (h : GtidSet.readSegments s segments = .ok t) : Normal t := by
  induction segments generalizing s with
  | nil =>
    obtain rfl := Except.ok.inj h
    exact hs
  | cons segment rest ih =>
    unfold GtidSet.readSegments at h
    split at h
    · exact ih hs h
    · obtain ⟨u, hu, h⟩ := eq_ok_of_bind h
      exact ih (hs.readSegment hu) h

/-- What a text is read as is in normal form. -/
lemma parse {text : String} (h : GtidSet.parse text = .ok s) : Normal s :=
  normal_empty.readSegments h

end Normal

/-! ## Building -/

/-- The sets that the operations give.  Whatever interval is added, one taken out of another set
included, can be made from its ends. -/
inductive Built : GtidSet → Prop where
  | empty : Built empty
  | parse {text : String} {s : GtidSet} (h : parse text = .ok s) : Built s
  | decode {a : Json.Access} {d : Json.Doc} {s : GtidSet} (h : decode a d = some s) : Built s
  | add {s : GtidSet} (hs : Built s) (source : String) {first last : UInt64} {i : Interval}
      (hi : Interval.make first last = .ok i) : Built (s.add source i)
  | withInterval {s t : GtidSet} (hs : Built s) {source : String} {first last : UInt64}
      (ht : s.withInterval source first last = .ok t) : Built t
  | union {s t : GtidSet} (hs : Built s) (ht : Built t) : Built (s.union t)
  | subtract {s t : GtidSet} (hs : Built s) (ht : Built t) : Built (s.subtract t)
  | fixRestored {server restored : GtidSet} (hserver : Built server) (hrestored : Built restored) :
      Built (fixRestored server restored)

/-- A decoded set was read from a text. -/
lemma parse_of_decode {a : Json.Access} {d : Json.Doc} (h : decode a d = some s) :
    ∃ text, parse text = .ok s := by
  obtain ⟨text, -, hparse⟩ := Option.bind_eq_some_iff.mp h
  cases hread : parse text with
  | error e =>
    rw [hread] at hparse
    cases hparse
  | ok u =>
    rw [hread] at hparse
    obtain rfl := Option.some.inj hparse
    exact ⟨text, hread⟩

/-- Whatever is built is in normal form. -/
lemma Built.normal (h : Built s) : Normal s := by
  induction h with
  | empty => exact normal_empty
  | parse h => exact .parse h
  | decode h =>
    obtain ⟨text, hparse⟩ := parse_of_decode h
    exact .parse hparse
  | add _ source hi hs => exact hs.add source (Interval.first_le_last_of_make hi)
  | @withInterval s t _ source first last ht hs =>
    unfold GtidSet.withInterval at ht
    cases hi : Interval.make first last with
    | error e =>
      rw [hi] at ht
      cases ht
    | ok i =>
      rw [hi] at ht
      obtain rfl := Except.ok.inj ht
      exact hs.add source (Interval.first_le_last_of_make hi)
  | union _ _ hs ht => exact hs.union ht
  | subtract _ _ hs ht => exact hs.subtract ht
  | fixRestored _ _ hserver hrestored => exact hserver.fixRestored hrestored

/-- Sets that are built keep their sources in lower case, each with at least one interval, and their
intervals with their ends in order, ascending, with a number left out between any two.  Two of them
are the same exactly when they have the same members. -/
theorem built_eq_iff_contains (hs : Built s) (ht : Built t) :
    Normal s ∧ (s = t ↔ ∀ source txn, s.contains source txn = t.contains source txn) := by
  refine ⟨hs.normal, ?_⟩
  constructor
  · rintro rfl source txn
    rfl
  · intro h
    exact hs.normal.ext ht.normal fun source txn => by rw [h source txn]

/-- All transactions but those in the middle are the first and the last one. -/
theorem built_eq_iff_contains_ends :
    let whole := empty.add "A" ⟨0, Interval.maxTxn⟩
    let middle := empty.add "a" ⟨1, Interval.maxTxn - 1⟩
    let ends := (empty.add "a" ⟨Interval.maxTxn, Interval.maxTxn⟩).add "A" ⟨0, 0⟩
    Built (whole.subtract middle) ∧ Built ends ∧ Normal (whole.subtract middle) ∧
      whole.subtract middle = ends ∧
      ∀ source txn, (whole.subtract middle).contains source txn = ends.contains source txn := by
  intro whole middle ends
  have hwhole : Built whole := .add .empty "A" (Interval.make_of_le (by decide))
  have hmiddle : Built middle := .add .empty "a" (Interval.make_of_le (by decide))
  have hends : Built ends :=
    .add (.add .empty "a" (Interval.make_of_le (by decide))) "A" (Interval.make_of_le (by decide))
  -- evaluated operation by operation, as nested ones take too long
  have heq : whole.subtract middle = ends := by
    have hall : whole = ⟨[("a", [⟨0, Interval.maxTxn⟩])]⟩ := by decide +kernel
    have hcut : middle = ⟨[("a", [⟨1, Interval.maxTxn - 1⟩])]⟩ := by decide +kernel
    have hlast : empty.add "a" ⟨Interval.maxTxn, Interval.maxTxn⟩ =
        ⟨[("a", [⟨Interval.maxTxn, Interval.maxTxn⟩])]⟩ := by decide +kernel
    simp only [ends]
    rw [hall, hcut, hlast]
    decide +kernel
  have hsame := built_eq_iff_contains (hwhole.subtract hmiddle) hends
  exact ⟨hwhole.subtract hmiddle, hends, hsame.1, heq, hsame.2.mp heq⟩

end GtidSet
end Changefeed
