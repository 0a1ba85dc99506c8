import Changefeed.Proofs.Gtid.Algebra

/-!
# Sets computed within 64 bits

Transaction numbers have 64 bits, and sums and differences of such numbers wrap around.  Here the
operations on sets are written once more with every sum and every difference checked: one that would
wrap gives nothing, and then the whole operation gives nothing.  It never comes to that, so what is
known of the members of the results holds up to the least and to the greatest number.  Membership
and inclusion only compare numbers, and need no checks.

Two steps compute a number without looking at the ends of the range themselves.  A piece below an
interval that is cut out ends one number before it, and there is one because the piece begins
earlier still; a piece above it begins one number behind it, and there is one because the piece ends
later still.
-/

namespace Changefeed
namespace Interval

/-! ## Checked numbers -/

/-- The sum of two numbers, when it does not wrap. -/
def plus? (a b : UInt64) : Option UInt64 :=
  if a.toNat + b.toNat < UInt64.size then some (a + b) else none

/-- The difference of two numbers, when it does not wrap. -/
def minus? (a b : UInt64) : Option UInt64 :=
  if b.toNat ≤ a.toNat then some (a - b) else none

lemma plus?_eq_some_iff {a b c : UInt64} :
    plus? a b = some c ↔ c.toNat = a.toNat + b.toNat := by
  have hc := c.toNat_lt
  rw [plus?, Option.ite_none_right_eq_some, Option.some.injEq, ← UInt64.toNat_inj,
    UInt64.toNat_add, UInt64.size]
  omega

lemma minus?_eq_some_iff {a b c : UInt64} :
    minus? a b = some c ↔ c.toNat + b.toNat = a.toNat := by
  have ha := a.toNat_lt
  rw [minus?, Option.ite_none_right_eq_some, Option.some.injEq, ← UInt64.toNat_inj,
    UInt64.toNat_sub]
  omega

lemma plus?_one {a b : UInt64} (h : a < b) : plus? a 1 = some (a + 1) := by
  rw [plus?_eq_some_iff, toNat_next h, UInt64.toNat_one]

lemma minus?_one {a b : UInt64} (h : a < b) : minus? b 1 = some (b - 1) := by
  rw [minus?_eq_some_iff, toNat_pred h, UInt64.toNat_one]
  rw [UInt64.lt_iff_toNat_lt] at h
  omega

/-- The next number, checked; the greatest one has itself. -/
def succ? (t : UInt64) : Option UInt64 := if t = maxTxn then some t else plus? t 1

lemma succ?_eq (t : UInt64) : succ? t = some (succ t) := by
  unfold succ? succ
  split
  · rfl
  · next hne =>
    have hle : t ≤ maxTxn := by
      have ht := t.toNat_lt
      rw [UInt64.le_iff_toNat_le]
      simp only [maxTxn, UInt64.reduceToNat]
      omega
    exact plus?_one (UInt64.lt_of_le_of_ne hle hne)

/-! ## Checked lists of intervals -/

/-- Whether two intervals touch, checked. -/
def touches? (i j : Interval) : Option Bool := do
  let behindJ ← succ? j.last
  let behindI ← succ? i.last
  return i.first ≤ behindJ && j.first ≤ behindI

lemma touches?_eq (i j : Interval) : i.touches? j = some (i.touches j) := by
  rw [touches?, succ?_eq, succ?_eq]
  rfl

/-- Extends an interval by those that follow it, checked. -/
def coalesceFrom? (current : Interval) : List Interval → Option (List Interval)
  | [] => some [current]
  | j :: rest => do
    if ← current.touches? j then coalesceFrom? ⟨current.first, max current.last j.last⟩ rest
    else return current :: (← coalesceFrom? j rest)

lemma coalesceFrom?_eq (i : Interval) (is : List Interval) :
    coalesceFrom? i is = some (coalesceFrom i is) := by
  induction is generalizing i with
  | nil => rfl
  | cons j rest ih =>
    rw [coalesceFrom?, coalesceFrom, touches?_eq, Option.bind_eq_bind, Option.bind_some]
    split
    · exact ih _
    · rw [ih]
      rfl

/-- The coalesced list that holds the same numbers, checked. -/
def normalize? (is : List Interval) : Option (List Interval) :=
  match sort is with
  | [] => some []
  | i :: rest => coalesceFrom? i rest

lemma normalize?_eq (is : List Interval) : normalize? is = some (normalize is) := by
  unfold normalize? normalize
  cases sort is with
  | nil => rfl
  | cons i rest => exact coalesceFrom?_eq i rest

/-- What is left of `i` below `r`, when the two overlap, checked. -/
def below? (i r : Interval) : Option (List Interval) :=
  if i.first < r.first then (minus? r.first 1).map fun last => [⟨i.first, last⟩] else some []

lemma below?_eq (i r : Interval) : i.below? r = some (i.below r) := by
  unfold below? below
  split
  · next h => rw [minus?_one h, Option.map_some]
  · rfl

/-- What is left of `i` above `r`, when the two overlap, checked. -/
def above? (i r : Interval) : Option (List Interval) :=
  if r.last < i.last then (plus? r.last 1).map fun first => [⟨first, i.last⟩] else some []

lemma above?_eq (i r : Interval) : i.above? r = some (i.above r) := by
  unfold above? above
  split
  · next h => rw [plus?_one h, Option.map_some]
  · rfl

/-- What is left of an interval without another one, checked. -/
def remove? (i r : Interval) : Option (List Interval) :=
  if r.last < i.first || i.last < r.first then some [i]
  else do return (← i.below? r) ++ (← i.above? r)

lemma remove?_eq (i r : Interval) : i.remove? r = some (i.remove r) := by
  rw [remove?, remove_eq, below?_eq, above?_eq]
  split <;> rfl

/-- What is left of each of some intervals, one after the other, checked. -/
def flatMap? (f : Interval → Option (List Interval)) (is : List Interval) :
    Option (List Interval) :=
  (is.mapM f).map List.flatten

lemma flatMap?_some (f : Interval → List Interval) (is : List Interval) :
    flatMap? (fun i => some (f i)) is = some (is.flatMap f) := by
  have hall : is.mapM (fun i => some (f i)) = some (is.map f) := List.mapM_pure
  rw [flatMap?, hall, Option.map_some, List.flatMap_def]

/-- What is left of an interval without several others, checked. -/
def removeAll? (i : Interval) (removed : List Interval) : Option (List Interval) :=
  removed.foldlM (fun pieces r => flatMap? (·.remove? r) pieces) [i]

lemma removeAll?_eq (i : Interval) (rs : List Interval) :
    i.removeAll? rs = some (i.removeAll rs) := by
  simp only [removeAll?, remove?_eq, flatMap?_some]
  exact List.foldlM_pure

end Interval

namespace GtidSet

variable {s t : GtidSet}

/-! ## Checked sets -/

/-- The set with intervals more under a name, checked. -/
def store? (s : GtidSet) (name : String) (is : List Interval) : Option GtidSet :=
  (Interval.normalize? (s.intervalsOf name ++ is)).map fun joined => ⟨s.sources.insert name joined⟩

lemma store?_eq (s : GtidSet) (name : String) (is : List Interval) :
    s.store? name is = some (s.store name is) := by
  rw [store?, Interval.normalize?_eq]
  rfl

/-- The set with an interval more, checked. -/
def add? (s : GtidSet) (source : String) (i : Interval) : Option GtidSet :=
  s.store? (sourceName source) [i]

lemma add?_eq (s : GtidSet) (source : String) (i : Interval) :
    s.add? source i = some (s.add source i) := by
  rw [add?, store?_eq, add_eq_store]

/-- The transactions in either set, checked. -/
def union? (s t : GtidSet) : Option GtidSet :=
  t.sources.foldlM (fun acc e => acc.store? e.1 e.2) s

lemma union?_eq (s t : GtidSet) : s.union? t = some (s.union t) := by
  simp only [union?, store?_eq]
  exact List.foldlM_pure

/-- The entry of a set without the intervals of another one, checked. -/
def entryWithout? (t : GtidSet) (e : String × List Interval) :
    Option (Option (String × List Interval)) :=
  (Interval.flatMap? (·.removeAll? (t.intervals e.1)) e.2).map (entry e.1)

/-- The transactions of `s` that are not in `t`, checked. -/
def subtract? (s t : GtidSet) : Option GtidSet :=
  (s.sources.mapM t.entryWithout?).map fun entries => ⟨entries.filterMap id⟩

lemma subtract?_eq (s t : GtidSet) : s.subtract? t = some (s.subtract t) := by
  have hentry : t.entryWithout? = fun e =>
      some (entry e.1 (e.2.flatMap (·.removeAll (t.intervals e.1)))) := by
    funext e
    simp only [entryWithout?, Interval.removeAll?_eq, Interval.flatMap?_some, Option.map_some]
  have hall : s.sources.mapM t.entryWithout? = some (s.sources.map fun e =>
      entry e.1 (e.2.flatMap (·.removeAll (t.intervals e.1)))) := by
    rw [hentry]
    exact List.mapM_pure
  rw [subtract?, hall, Option.map_some, List.filterMap_map, subtract_eq_rework]
  rfl

/-! ## The operations by members -/

/-- Adding, uniting and subtracting do on members what they say, and inclusion is inclusion of
members, in whatever case the source is written.  No sum and no difference wraps on the way. -/
theorem operations_by_members (hs : Normal s) (ht : Normal t) :
    (∀ added first last, first ≤ last →
      s.add? added ⟨first, last⟩ = some (s.add added ⟨first, last⟩) ∧
      ∀ source txn, (s.add added ⟨first, last⟩).contains source txn = true ↔
        s.contains source txn = true ∨
          sourceName source = sourceName added ∧ first ≤ txn ∧ txn ≤ last) ∧
    (s.union? t = some (s.union t) ∧
      ∀ source txn, (s.union t).contains source txn = true ↔
        s.contains source txn = true ∨ t.contains source txn = true) ∧
    (s.subtract? t = some (s.subtract t) ∧
      ∀ source txn, (s.subtract t).contains source txn = true ↔
        s.contains source txn = true ∧ ¬ t.contains source txn = true) ∧
    (s.isContainedWithin t = true ↔
      ∀ source txn, s.contains source txn = true → t.contains source txn = true) := by
  refine ⟨fun added first last hends => ⟨add?_eq s added _, fun source txn => ?_⟩,
    ⟨union?_eq s t, fun _ _ => contains_union hs ht⟩,
    ⟨subtract?_eq s t, fun _ _ => contains_subtract hs⟩, Normal.isContainedWithin_iff hs ht⟩
  rw [contains_add hs hends]
  simp only [Interval.contains, Bool.and_eq_true, decide_eq_true_eq]

/-- Cutting the first and the last transaction out of all of them, and putting them back. -/
theorem operations_by_members_ends :
    let whole := empty.add "A" ⟨0, Interval.maxTxn⟩
    let ends := (empty.add "a" ⟨0, 0⟩).add "A" ⟨Interval.maxTxn, Interval.maxTxn⟩
    let middle : GtidSet := ⟨[("a", [⟨1, Interval.maxTxn - 1⟩])]⟩
    Normal whole ∧ Normal ends ∧ whole.subtract? ends = some middle ∧ Normal middle ∧
      ¬ middle.contains "A" 0 = true ∧ middle.union? ends = some whole ∧
      whole.contains "A" Interval.maxTxn = true := by
  intro whole ends middle
  have hwhole : Normal whole := normal_empty.add "A" (by decide)
  have hends : Normal ends := (normal_empty.add "a" (by decide)).add "A" (by decide)
  -- evaluated operation by operation, as nested ones take too long
  have hall : whole = ⟨[("a", [⟨0, Interval.maxTxn⟩])]⟩ := by decide +kernel
  have htwo : ends = ⟨[("a", [⟨0, 0⟩, ⟨Interval.maxTxn, Interval.maxTxn⟩])]⟩ := by
    have hfirst : empty.add "a" ⟨0, 0⟩ = ⟨[("a", [⟨0, 0⟩])]⟩ := by decide +kernel
    simp only [ends]
    rw [hfirst]
    decide +kernel
  have hcut : whole.subtract ends = middle := by
    rw [hall, htwo]
    decide +kernel
  have hback : middle.union ends = whole := by
    rw [hall, htwo]
    decide +kernel
  have hmiddle : Normal middle := hcut ▸ hwhole.subtract hends
  obtain ⟨-, -, ⟨hsub, hcutout⟩, -⟩ := operations_by_members hwhole hends
  obtain ⟨-, ⟨hunion, hput⟩, -, -⟩ := operations_by_members hmiddle hends
  rw [hcut] at hsub hcutout
  rw [hback] at hunion hput
  have hzero : ends.contains "A" 0 = true := by rw [htwo]; decide +kernel
  have hlast : ends.contains "A" Interval.maxTxn = true := by rw [htwo]; decide +kernel
  exact ⟨hwhole, hends, hsub, hmiddle, fun h => ((hcutout "A" 0).mp h).2 hzero, hunion,
    (hput "A" Interval.maxTxn).mpr (.inr hlast)⟩

end GtidSet
end Changefeed
