import Changefeed.Offset
import Changefeed.Proofs.Gtid.Set

/-!
# The order of positions

Positions whose transaction sets are in normal form are partially ordered, with the initial
position as the least one.  Places in files are ordered by name and place throughout, the initial
one included, so the four shapes of a pair can be looked at one by one; from there on only the laws
of the order are used.
-/

namespace Changefeed
namespace Offset

/-- The transaction set of the position, if it has one, is in normal form. -/
def Normal : Offset → Prop
  | .binlog .. => True
  | .gtid s => s.Normal

lemma normal_initial : Normal initial := trivial

/-! ## The four shapes of a pair -/

lemma compare_empty_ne_gt (f : String) : compare "" f ≠ .gt := by
  intro h
  have hcmp : compare f "" = .lt := Std.OrientedCmp.gt_iff_lt.mp h
  have hlt : f < "" := compareOfLessAndEq_eq_lt.mp hcmp
  exact absurd (String.lt_iff.mp hlt) (by simp)

lemma compare_zero_ne_gt (p : UInt64) : compare 0 p ≠ .gt := by
  intro h
  have hcmp : compare p 0 = .lt := Std.OrientedCmp.gt_iff_lt.mp h
  have hlt : p < 0 := compareOfLessAndEq_eq_lt.mp hcmp
  simp [UInt64.lt_iff_toNat_lt] at hlt

lemma compare_start_ne_gt (f : String) (p : UInt64) :
    (compare "" f).then (compare 0 p) ≠ .gt := by
  cases h : compare "" f with
  | lt => simp
  | eq => simpa using compare_zero_ne_gt p
  | gt => exact absurd h (compare_empty_ne_gt f)

/-- The order of places compares names and then numbers. -/
def comparePlaces (f : String) (p : UInt64) (g : String) (q : UInt64) : Ordering :=
  (compare f g).then (compare p q)

lemma comparePlaces_eq_iff {f g : String} {p q : UInt64} :
    comparePlaces f p g q = .eq ↔ f = g ∧ p = q := by
  rw [comparePlaces, Ordering.then_eq_eq, Std.LawfulEqOrd.compare_eq_iff_eq,
    Std.LawfulEqOrd.compare_eq_iff_eq]

lemma comparePlaces_swap (f g : String) (p q : UInt64) :
    comparePlaces g q f p = (comparePlaces f p g q).swap := by
  rw [comparePlaces, comparePlaces, Ordering.swap_then, ← Std.OrientedCmp.eq_swap,
    ← Std.OrientedCmp.eq_swap]

lemma comparePlaces_lt_trans {f g h : String} {p q r : UInt64}
    (hfg : comparePlaces f p g q = .lt) (hgh : comparePlaces g q h r = .lt) :
    comparePlaces f p h r = .lt := by
  unfold comparePlaces at *
  rw [Ordering.then_eq_lt] at *
  rcases hfg with hfg | ⟨hfg, hpq⟩ <;> rcases hgh with hgh | ⟨hgh, hqr⟩
  · exact .inl (Std.TransCmp.lt_trans hfg hgh)
  · exact .inl (Std.TransCmp.lt_of_lt_of_eq hfg hgh)
  · exact .inl (Std.TransCmp.lt_of_eq_of_lt hfg hgh)
  · exact .inr ⟨Std.TransCmp.eq_trans hfg hgh, Std.TransCmp.lt_trans hpq hqr⟩

/-- Two places compare by name and number, whether one of them is the initial one or not. -/
lemma compare?_binlog (f g : String) (p q : UInt64) :
    compare? (.binlog f p) (.binlog g q) = some (comparePlaces f p g q) := by
  unfold compare?
  split
  · next h =>
    obtain ⟨rfl, rfl⟩ := Offset.binlog.inj h
    rw [comparePlaces_eq_iff.mpr ⟨rfl, rfl⟩]
  · next hne =>
    have hplaces : comparePlaces f p g q ≠ .eq := fun h =>
      hne (by rw [(comparePlaces_eq_iff.mp h).1, (comparePlaces_eq_iff.mp h).2])
    split
    · next h =>
      obtain ⟨rfl, rfl⟩ : f = "" ∧ p = 0 := by simpa [isInitial, initial] using h
      cases hc : comparePlaces "" 0 g q with
      | lt => rfl
      | eq => exact absurd hc hplaces
      | gt => exact absurd hc (compare_start_ne_gt g q)
    · split
      · next h =>
        obtain ⟨rfl, rfl⟩ : g = "" ∧ q = 0 := by simpa [isInitial, initial] using h
        rw [comparePlaces_swap]
        cases hc : comparePlaces "" 0 f p with
        | lt => rfl
        | eq => exact absurd (by rw [comparePlaces_swap, hc]; rfl) hplaces
        | gt => exact absurd hc (compare_start_ne_gt f p)
      · rfl

lemma compare?_binlog_gtid (f : String) (p : UInt64) (t : GtidSet) :
    compare? (.binlog f p) (.gtid t) = if isInitial (.binlog f p) then some .lt else none := by
  simp [compare?, isInitial, initial]

lemma compare?_gtid_binlog (s : GtidSet) (g : String) (q : UInt64) :
    compare? (.gtid s) (.binlog g q) = if isInitial (.binlog g q) then some .gt else none := by
  simp [compare?, isInitial, initial]

lemma compare?_gtid (s t : GtidSet) :
    compare? (.gtid s) (.gtid t) =
      if s = t then some .eq
      else if s.isContainedWithin t then some .lt
      else if t.isContainedWithin s then some .gt
      else none := by
  simp [compare?, isInitial, initial]

/-! ## The laws of the order -/

variable {a b c : Offset}

/-- Two positions that compare equal are the same. -/
lemma compare?_eq_iff : compare? a b = some .eq ↔ a = b := by
  constructor
  · intro h
    cases a with
    | binlog f p =>
      cases b with
      | binlog g q =>
        rw [compare?_binlog, Option.some.injEq, comparePlaces_eq_iff] at h
        rw [h.1, h.2]
      | gtid t =>
        rw [compare?_binlog_gtid] at h
        split at h <;> simp at h
    | gtid s =>
      cases b with
      | binlog g q =>
        rw [compare?_gtid_binlog] at h
        split at h <;> simp at h
      | gtid t =>
        rw [compare?_gtid] at h
        split at h
        · next heq => rw [heq]
        · split at h
          · simp at h
          · split at h <;> simp at h
  · rintro rfl
    simp [compare?]

@[simp] theorem compare?_self (a : Offset) : compare? a a = some .eq := compare?_eq_iff.mpr rfl

/-- Exchanging two positions turns their order round. -/
lemma compare?_swap (ha : a.Normal) (hb : b.Normal) :
    compare? b a = (compare? a b).map Ordering.swap := by
  cases a with
  | binlog f p =>
    cases b with
    | binlog g q => rw [compare?_binlog, compare?_binlog, comparePlaces_swap, Option.map_some]
    | gtid t =>
      rw [compare?_binlog_gtid, compare?_gtid_binlog]
      split <;> rfl
  | gtid s =>
    cases b with
    | binlog g q =>
      rw [compare?_binlog_gtid, compare?_gtid_binlog]
      split <;> rfl
    | gtid t =>
      rw [compare?_gtid, compare?_gtid]
      by_cases heq : s = t
      · subst heq
        simp
      · have hanti : ¬ (s.isContainedWithin t = true ∧ t.isContainedWithin s = true) := fun h =>
          heq (GtidSet.Normal.isContainedWithin_antisymm ha hb h.1 h.2)
        rw [if_neg heq, if_neg (Ne.symm heq)]
        cases hst : s.isContainedWithin t <;> cases hts : t.isContainedWithin s
        · rfl
        · rfl
        · rfl
        · exact absurd ⟨hst, hts⟩ hanti

/-- A position comes before another one when that one comes after it. -/
lemma after_iff_before (ha : a.Normal) (hb : b.Normal) :
    b.after a = true ↔ a.before b = true := by
  simp only [after, before, decide_eq_true_eq]
  rw [compare?_swap ha hb]
  cases h : compare? a b with
  | none => simp
  | some o => cases o <;> simp

/-- Coming before is transitive. -/
lemma before_trans (ha : a.Normal) (hb : b.Normal) (hc : c.Normal)
    (hab : a.before b = true) (hbc : b.before c = true) : a.before c = true := by
  simp only [before, decide_eq_true_eq] at *
  cases b with
  | binlog g q =>
    cases a with
    | gtid s =>
      rw [compare?_gtid_binlog] at hab
      split at hab <;> simp at hab
    | binlog f p =>
      rw [compare?_binlog, Option.some.injEq] at hab
      cases c with
      | binlog h r =>
        rw [compare?_binlog, Option.some.injEq] at hbc
        rw [compare?_binlog, comparePlaces_lt_trans hab hbc]
      | gtid u =>
        rw [compare?_binlog_gtid] at hbc
        split at hbc
        · next hstart =>
          obtain ⟨rfl, rfl⟩ : g = "" ∧ q = 0 := by simpa [isInitial, initial] using hstart
          rw [comparePlaces_swap] at hab
          cases hc : comparePlaces "" 0 f p with
          | lt => simp [hc] at hab
          | eq => simp [hc] at hab
          | gt => exact absurd hc (compare_start_ne_gt f p)
        · simp at hbc
  | gtid t =>
    cases c with
    | binlog h r =>
      rw [compare?_gtid_binlog] at hbc
      split at hbc <;> simp at hbc
    | gtid u =>
      cases a with
      | binlog f p =>
        rw [compare?_binlog_gtid] at hab ⊢
        exact hab
      | gtid s =>
        rw [compare?_gtid] at hab hbc ⊢
        have hst : s ≠ t ∧ s.isContainedWithin t = true := by grind
        have htu : t ≠ u ∧ t.isContainedWithin u = true := by grind
        have hsu : s.isContainedWithin u = true :=
          GtidSet.Normal.isContainedWithin_trans ha hb hc hst.2 htu.2
        have hne : s ≠ u := by
          rintro rfl
          exact hst.1 (GtidSet.Normal.isContainedWithin_antisymm ha hb hst.2 htu.2)
        rw [if_neg hne, if_pos hsu]

@[simp] lemma not_before_self (a : Offset) : a.before a = false := by simp [before]

@[simp] lemma not_after_self (a : Offset) : a.after a = false := by simp [after]

@[simp] lemma reached_self (a : Offset) : a.reached a = true := by simp [reached]

lemma not_after_of_before (h : a.before b = true) : a.after b = false := by
  simp only [before, decide_eq_true_eq] at h
  simp [after, h]

/-- A position has reached another one when it is the same or comes after it. -/
lemma reached_iff : a.reached b = true ↔ a = b ∨ a.after b = true := by
  simp only [reached, after, Bool.or_eq_true, decide_eq_true_eq, compare?_eq_iff]
  exact or_comm

lemma not_after_of_reached (ha : a.Normal) (hb : b.Normal) (h : b.reached a = true) :
    a.after b = false := by
  rcases reached_iff.mp h with rfl | hafter
  · exact not_after_self b
  · exact not_after_of_before ((after_iff_before ha hb).mp hafter)

lemma not_reached_of_before (ha : a.Normal) (hb : b.Normal) (h : a.before b = true) :
    a.reached b = false := by
  by_contra hreached
  rw [Bool.not_eq_false] at hreached
  have hnot := not_after_of_reached hb ha hreached
  rw [(after_iff_before ha hb).mpr h] at hnot
  contradiction

/-- What comes after a position that has reached another one comes after that one too. -/
lemma before_of_reached {o : Offset} (ha : a.Normal) (hb : b.Normal) (ho : o.Normal)
    (hreached : b.reached a = true) (hbefore : b.before o = true) : a.before o = true := by
  rcases reached_iff.mp hreached with rfl | hafter
  · exact hbefore
  · exact before_trans ha hb ho ((after_iff_before ha hb).mp hafter) hbefore

lemma after_of_reached {o : Offset} (ha : a.Normal) (hb : b.Normal) (ho : o.Normal)
    (hreached : b.reached a = true) (hafter : a.after o = true) : b.after o = true := by
  rcases reached_iff.mp hreached with rfl | hba
  · exact hafter
  · have hoa := (after_iff_before ho ha).mp hafter
    have hab := (after_iff_before ha hb).mp hba
    exact (after_iff_before ho hb).mpr (before_trans ho ha hb hoa hab)

lemma reached_trans {c : Offset} (ha : a.Normal) (hb : b.Normal) (hc : c.Normal)
    (hab : a.reached b = true) (hbc : b.reached c = true) : a.reached c = true := by
  rcases reached_iff.mp hab with rfl | hafter
  · exact hbc
  · have hbefore := before_of_reached hc hb ha hbc ((after_iff_before hb ha).mp hafter)
    exact reached_iff.mpr (.inr ((after_iff_before hc ha).mpr hbefore))

/-- Two positions stand in some order. -/
def Comparable (a b : Offset) : Prop := (a.compare? b).isSome = true

/-- Of two positions that stand in some order, one that is not after the other one has been reached
by it. -/
lemma Comparable.cases (h : Comparable a b) :
    a.before b = true ∨ a = b ∨ a.after b = true := by
  obtain ⟨o, ho⟩ := Option.isSome_iff_exists.mp h
  cases o with
  | lt => exact .inl (by simp [before, ho])
  | eq => exact .inr (.inl (compare?_eq_iff.mp ho))
  | gt => exact .inr (.inr (by simp [after, ho]))

lemma compare?_initial (h : a ≠ initial) : compare? initial a = some .lt := by
  unfold compare?
  rw [if_neg (Ne.symm h), if_pos (by simp [isInitial])]

lemma reached_antisymm (ha : a.Normal) (hb : b.Normal) (hab : a.reached b = true)
    (hba : b.reached a = true) : a = b := by
  rcases reached_iff.mp hab with rfl | hafter
  · rfl
  · have hnot := not_reached_of_before hb ha ((after_iff_before hb ha).mp hafter)
    rw [hnot] at hba
    cases hba

/-- Positions are partially ordered, with the initial one as the least, and having reached a
position is the order the other way round. -/
theorem partially_ordered (ha : a.Normal) (hb : b.Normal) (hc : c.Normal) :
    (compare? a b = some .eq ↔ a = b) ∧
    compare? b a = (compare? a b).map Ordering.swap ∧
    (compare? b a = none ↔ compare? a b = none) ∧
    (compare? a b = some .lt → compare? b c = some .lt → compare? a c = some .lt) ∧
    (a ≠ initial → compare? initial a = some .lt) ∧
    a.reached a = true ∧
    (a.reached b = true → b.reached c = true → a.reached c = true) ∧
    (a.reached b = true → b.reached a = true → a = b) := by
  have hswap := compare?_swap ha hb
  have htrans : compare? a b = some .lt → compare? b c = some .lt → compare? a c = some .lt := by
    simpa [before] using before_trans ha hb hc
  refine ⟨compare?_eq_iff, hswap, ?_, htrans, compare?_initial, reached_self a,
    reached_trans ha hb hc, reached_antisymm ha hb⟩
  rw [hswap, Option.map_eq_none_iff]

/-- The initial position, a place in a file without a name, and transaction sets, which the place
does not stand to. -/
theorem partially_ordered_mixed :
    let place : Offset := .binlog "" 7
    let few : Offset := .gtid ⟨[("s", [⟨1, 3⟩])]⟩
    let more : Offset := .gtid ⟨[("s", [⟨1, 5⟩])]⟩
    initial.Normal ∧ place.Normal ∧ few.Normal ∧ more.Normal ∧
      compare? initial few = some .lt ∧ compare? few more = some .lt ∧
      compare? initial more = some .lt ∧ compare? more few = some .gt ∧
      compare? initial place = some .lt ∧
      compare? place more = none ∧ compare? more place = none := by
  intro place few more
  have hset : ∀ last : UInt64, 1 ≤ last → (Offset.gtid ⟨[("s", [⟨1, last⟩])]⟩).Normal := by
    intro last hlast
    have hlower : GtidSet.sourceName "s" = "s" := by decide +kernel
    exact ⟨List.pairwise_singleton .., by simpa using hlower, by simp,
      by simpa using ⟨by simpa using hlast, List.pairwise_singleton ..⟩⟩
  have hfew : few.Normal := hset 3 (by decide)
  have hmore : more.Normal := hset 5 (by decide)
  have hplace : place.Normal := trivial
  have hlt : compare? few more = some .lt := by decide +kernel
  have hapart : compare? place more = none := by decide +kernel
  obtain ⟨-, hswap, -, -, hleast, -⟩ := partially_ordered hfew hmore hmore
  obtain ⟨-, -, -, htrans, -⟩ := partially_ordered normal_initial hfew hmore
  obtain ⟨-, -, hnone, -, hleast', -⟩ := partially_ordered hplace hmore hmore
  have hinitial : compare? initial few = some .lt := hleast (by decide)
  exact ⟨normal_initial, hplace, hfew, hmore, hinitial, hlt, htrans hinitial hlt,
    by rw [hswap, hlt]; rfl, hleast' (by decide), hapart, hnone.mpr hapart⟩

end Offset
end Changefeed
