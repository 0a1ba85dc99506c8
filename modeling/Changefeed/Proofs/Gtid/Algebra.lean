import Changefeed.Proofs.Gtid.Operations
import Changefeed.Proofs.Gtid.Set

/-!
# The algebra of transaction sets

Every operation on sets is described by the members of its result, and keeps sets in normal form.
Adding and uniting store more intervals under a name and join them.  Subtracting and completing a
restored set rework the entries one by one under the names they have; what comes of an entry is a
function of the intervals that the two sets keep for its source.

Subtracting never joins intervals and drops an entry of which nothing is left.  Completing keeps the
entry as it is where the server does not know the source, and joins it with the server's
transactions up to its highest one elsewhere.
-/

namespace Changefeed
namespace GtidSet

open Changefeed.Interval (Coalesced Holds)

variable {s t server restored : GtidSet} {name source : String} {txn top : UInt64}
  {i : Interval} {is known : List Interval}

lemma intervals_of_name (hname : sourceName name = name) :
    s.intervals name = s.intervalsOf name := by
  rw [intervals, hname]

/-! ## Members -/

lemma Normal.exists_member (h : Normal s) (hne : s.isEmpty = false) :
    ∃ source txn, s.contains source txn = true := by
  obtain ⟨e, he⟩ := List.exists_mem_of_ne_nil s.sources (by simpa [isEmpty] using hne)
  obtain ⟨i, hi⟩ := List.exists_mem_of_ne_nil e.2 (h.nonempty e he)
  refine ⟨e.1, i.first, contains_iff.mpr ?_⟩
  rw [h.intervals_of_mem he]
  exact (h.coalesced e he).holds_first hi

lemma not_contains_of_isEmpty (h : s.isEmpty = true) : ¬ s.contains source txn = true := by
  have hsources : s.sources = [] := by simpa [isEmpty] using h
  rw [contains_iff, intervals, intervalsOf, hsources]
  exact Interval.not_holds_nil

/-- The highest transaction of a source. -/
def Highest (s : GtidSet) (source : String) (top : UInt64) : Prop :=
  s.contains source top = true ∧ ∀ u, s.contains source u = true → u ≤ top

/-- The set has come as far as a transaction: it has the source, and the transaction is not above
the highest one it has of that source. -/
def Reaches (s : GtidSet) (source : String) (txn : UInt64) : Prop :=
  ∃ top, s.Highest source top ∧ txn ≤ top

/-- A set has come as far as some member of it has. -/
lemma Normal.reaches_iff (h : Normal s) :
    s.Reaches source txn ↔ ∃ u, s.contains source u = true ∧ txn ≤ u := by
  constructor
  · rintro ⟨top, ⟨hmem, -⟩, hle⟩
    exact ⟨top, hmem, hle⟩
  · rintro ⟨u, hmem, hle⟩
    rw [contains_iff] at hmem
    cases hlast : (s.intervals source).getLast? with
    | none =>
      rw [List.getLast?_eq_none_iff.mp hlast] at hmem
      exact absurd hmem Interval.not_holds_nil
    | some i =>
      obtain ⟨hheld, hhighest⟩ := (h.coalesced_intervals source).last_of_getLast? hlast
      exact ⟨i.last, ⟨contains_iff.mpr hheld, fun v hv => hhighest v (contains_iff.mp hv)⟩,
        UInt64.le_trans hle (hhighest u hmem)⟩

lemma Normal.reaches_of_contains (h : Normal s) (hmem : s.contains source txn = true) :
    s.Reaches source txn :=
  h.reaches_iff.mpr ⟨txn, hmem, UInt64.le_refl txn⟩

/-! ## Adding and uniting -/

/-- The set with intervals more under a name. -/
def store (s : GtidSet) (name : String) (is : List Interval) : GtidSet :=
  ⟨s.sources.insert name (Interval.normalize (s.intervalsOf name ++ is))⟩

lemma add_eq_store (s : GtidSet) (source : String) (i : Interval) :
    s.add source i = s.store (sourceName source) [i] := rfl

lemma Normal.proper_append (h : Normal s) (hname : sourceName name = name)
    (his : ∀ i ∈ is, i.first ≤ i.last) : ∀ i ∈ s.intervalsOf name ++ is, i.first ≤ i.last := by
  intro i hi
  rcases List.mem_append.mp hi with hi | hi
  · rw [← intervals_of_name hname] at hi
    exact (h.coalesced_intervals name).proper i hi
  · exact his i hi

/-- Storing intervals keeps a set in normal form. -/
lemma Normal.store (h : Normal s) (hname : sourceName name = name) (hne : is ≠ [])
    (his : ∀ i ∈ is, i.first ≤ i.last) : Normal (s.store name is) := by
  have hproper := h.proper_append hname his
  refine ⟨SortedMap.ascending_insert h.ascending .., fun e he => ?_, fun e he => ?_, fun e he => ?_⟩
  · rcases SortedMap.mem_insert he with rfl | he
    · exact hname
    · exact h.lowerCase e he
  · rcases SortedMap.mem_insert he with rfl | he
    · exact Interval.normalize_ne_nil (by simp [hne])
    · exact h.nonempty e he
  · rcases SortedMap.mem_insert he with rfl | he
    · exact Interval.coalesced_normalize hproper
    · exact h.coalesced e he

/-- Stored intervals become members of the source whose name they are stored under. -/
lemma contains_store (h : Normal s) (hname : sourceName name = name)
    (his : ∀ i ∈ is, i.first ≤ i.last) :
    (s.store name is).contains source txn = true ↔
      s.contains source txn = true ∨ sourceName source = name ∧ Holds is txn := by
  rw [contains_iff, contains_iff, intervals, intervals, intervalsOf, intervalsOf, GtidSet.store,
    SortedMap.find?_insert]
  by_cases hsource : sourceName source = name
  · rw [if_pos hsource, Option.getD_some, Interval.holds_normalize (h.proper_append hname his),
      Interval.holds_append, intervalsOf, hsource]
    simp
  · simp [hsource]

/-- Adding an interval keeps a set in normal form. -/
lemma Normal.add (h : Normal s) (source : String) (hi : i.first ≤ i.last) :
    Normal (s.add source i) :=
  h.store (sourceName_sourceName source) (by simp) (by simpa using hi)

lemma contains_add {added : String} (h : Normal s) (hi : i.first ≤ i.last) :
    (s.add added i).contains source txn = true ↔
      s.contains source txn = true ∨
        sourceName source = sourceName added ∧ i.contains txn = true := by
  rw [add_eq_store, contains_store h (sourceName_sourceName added) (by simpa using hi)]
  simp

/-- The set with entries stored one after the other. -/
def storeAll (s : GtidSet) (entries : List (String × List Interval)) : GtidSet :=
  entries.foldl (fun acc e => acc.store e.1 e.2) s

lemma union_eq_storeAll (s t : GtidSet) : s.union t = s.storeAll t.sources := rfl

/-- Storing entries of a set in normal form adds their members and keeps the form. -/
lemma storeAll_entries {entries : List (String × List Interval)} (ht : Normal t)
    (hentries : ∀ e ∈ entries, e ∈ t.sources) (hs : Normal s) :
    Normal (s.storeAll entries) ∧ ∀ source txn, (s.storeAll entries).contains source txn = true ↔
      s.contains source txn = true ∨ ∃ e ∈ entries, sourceName source = e.1 ∧ Holds e.2 txn := by
  induction entries generalizing s with
  | nil => exact ⟨hs, fun source txn => by simp [storeAll]⟩
  | cons e rest ih =>
    have he := hentries e (.head _)
    have hname := ht.lowerCase e he
    have hproper := (ht.coalesced e he).proper
    obtain ⟨hform, hmembers⟩ :=
      ih (fun e' he' => hentries e' (.tail _ he')) (hs.store hname (ht.nonempty e he) hproper)
    refine ⟨hform, fun source txn => ?_⟩
    rw [storeAll, List.foldl_cons, ← storeAll, hmembers, contains_store hs hname hproper]
    simp [or_assoc]

lemma Normal.union (hs : Normal s) (ht : Normal t) : Normal (s.union t) :=
  (storeAll_entries ht (fun _ he => he) hs).1

/-- The members of a set are those of its entries. -/
lemma Normal.contains_iff_entry (h : Normal s) :
    s.contains source txn = true ↔
      ∃ e ∈ s.sources, sourceName source = e.1 ∧ Holds e.2 txn := by
  rw [contains_iff, intervals, intervalsOf]
  constructor
  · intro hheld
    cases hfind : s.sources.find? (sourceName source) with
    | none =>
      rw [hfind] at hheld
      exact absurd hheld Interval.not_holds_nil
    | some is =>
      rw [hfind] at hheld
      exact ⟨_, (SortedMap.find?_eq_some_iff h.ascending).mp hfind, rfl, hheld⟩
  · rintro ⟨⟨name, is⟩, hmem, rfl, hheld⟩
    rw [(SortedMap.find?_eq_some_iff h.ascending).mpr hmem]
    exact hheld

lemma contains_union (hs : Normal s) (ht : Normal t) :
    (s.union t).contains source txn = true ↔
      s.contains source txn = true ∨ t.contains source txn = true := by
  rw [union_eq_storeAll, (storeAll_entries ht (fun _ he => he) hs).2, ht.contains_iff_entry]

/-! ## Reworking entries -/

/-- An entry for the intervals of a source, when there are any. -/
def entry (name : String) (is : List Interval) : Option (String × List Interval) :=
  match is with
  | [] => none
  | i :: rest => some (name, i :: rest)

lemma eq_of_entry {e : String × List Interval} (h : entry name is = some e) :
    e = (name, is) ∧ is ≠ [] := by
  cases is with
  | nil => cases h
  | cons i rest => exact ⟨(Option.some.inj h).symm, by simp⟩

lemma entry_of_ne_nil (name : String) (hne : is ≠ []) : entry name is = some (name, is) := by
  cases is with
  | nil => exact absurd rfl hne
  | cons i rest => rfl

lemma getD_entry (name : String) (is : List Interval) :
    ((entry name is).map Prod.snd).getD [] = is := by
  cases is <;> rfl

/-- The set with the intervals of each source replaced. -/
def rework (s : GtidSet) (f : String → List Interval → List Interval) : GtidSet :=
  ⟨s.sources.filterMap fun e => entry e.1 (f e.1 e.2)⟩

variable {f : String → List Interval → List Interval}

lemma fst_reworked (e e' : String × List Interval) (h : entry e.1 (f e.1 e.2) = some e') :
    e'.1 = e.1 := by
  rw [(eq_of_entry h).1]

lemma intervals_rework (hs : Normal s) (hf : ∀ name, f name [] = []) (source : String) :
    (s.rework f).intervals source = f (sourceName source) (s.intervals source) := by
  have hfind := SortedMap.find?_filterMap (fst_reworked (f := f)) hs.ascending (sourceName source)
  rw [intervals, intervalsOf, rework, hfind, intervals, intervalsOf]
  cases s.sources.find? (sourceName source) with
  | none => exact (hf _).symm
  | some is => exact getD_entry ..

/-- What keeps the form of lists keeps the form of sets. -/
lemma Normal.rework (hs : Normal s) (hf : ∀ name is, Coalesced is → Coalesced (f name is)) :
    Normal (s.rework f) := by
  have hmem : ∀ e' ∈ (s.rework f).sources, ∃ e ∈ s.sources, e' = (e.1, f e.1 e.2) ∧ e'.2 ≠ [] := by
    intro e' he'
    obtain ⟨e, he, hentry⟩ := List.mem_filterMap.mp he'
    obtain ⟨rfl, hne⟩ := eq_of_entry hentry
    exact ⟨e, he, rfl, hne⟩
  refine ⟨SortedMap.ascending_filterMap fst_reworked hs.ascending, fun e' he' => ?_,
    fun e' he' => ?_, fun e' he' => ?_⟩
  · obtain ⟨e, he, rfl, -⟩ := hmem e' he'
    exact hs.lowerCase e he
  · obtain ⟨-, -, -, hne⟩ := hmem e' he'
    exact hne
  · obtain ⟨e, he, rfl, -⟩ := hmem e' he'
    exact hf _ _ (hs.coalesced e he)

/-! ## Subtracting -/

lemma subtract_eq_rework (s t : GtidSet) :
    s.subtract t =
      s.rework fun name is => is.flatMap fun i => i.removeAll (t.intervals name) := by
  unfold GtidSet.subtract rework
  congr 2
  funext ⟨name, is⟩
  dsimp only
  cases is.flatMap fun i => i.removeAll (t.intervals name) <;> rfl

/-- The members of a difference are the members of the first set that the second one lacks. -/
lemma contains_subtract (hs : Normal s) :
    (s.subtract t).contains source txn = true ↔
      s.contains source txn = true ∧ ¬ t.contains source txn = true := by
  rw [contains_iff, contains_iff, contains_iff, subtract_eq_rework,
    intervals_rework hs fun _ => rfl, intervals_sourceName, Interval.holds_flatMap]
  simp only [Interval.holds_removeAll]
  constructor
  · rintro ⟨i, hi, hit, hrest⟩
    exact ⟨⟨i, hi, hit⟩, hrest⟩
  · rintro ⟨⟨i, hi, hit⟩, hrest⟩
    exact ⟨i, hi, hit, hrest⟩

/-- Subtracting keeps sets in normal form. -/
lemma Normal.subtract (hs : Normal s) (ht : Normal t) : Normal (s.subtract t) := by
  rw [subtract_eq_rework]
  refine hs.rework fun name is his => ?_
  have hproper := (ht.coalesced_intervals name).proper
  exact his.flatMap (fun i hi => Interval.coalesced_removeAll (his.proper i hi) hproper)
    fun i _ txn htxn => (Interval.holds_removeAll.mp htxn).1

/-- Subtracting changes nothing exactly when no member is taken away. -/
lemma subtract_eq_self_iff (hs : Normal s) (ht : Normal t) :
    s.subtract t = s ↔
      ∀ source txn, s.contains source txn = true → ¬ t.contains source txn = true := by
  constructor
  · intro h source txn hmem
    rw [← h] at hmem
    exact ((contains_subtract hs).mp hmem).2
  · intro h
    refine (hs.subtract ht).ext hs fun source txn => ?_
    rw [contains_subtract hs]
    exact ⟨And.left, fun hmem => ⟨hmem, h source txn hmem⟩⟩

/-! ## Completing a restored set -/

/-- The part up to a number has its ends in order. -/
lemma proper_upTo (h : Coalesced is) : ∀ i ∈ upTo top is, i.first ≤ i.last := by
  induction is with
  | nil => simp [upTo]
  | cons j rest ih =>
    intro i hi
    unfold upTo at hi
    split at hi
    · rcases List.mem_cons.mp hi with rfl | hi
      · exact h.proper i (.head _)
      · exact ih h.tail i hi
    · split at hi
      · next hfirst =>
        obtain rfl := List.mem_singleton.mp hi
        exact hfirst
      · cases hi

/-- The part up to a number holds the transactions up to that number. -/
lemma holds_upTo (h : Coalesced is) : Holds (upTo top is) txn ↔ Holds is txn ∧ txn ≤ top := by
  rw [UInt64.le_iff_toNat_le]
  induction is with
  | nil => simp [upTo]
  | cons j rest ih =>
    have hj := h.first_le_last (.head _)
    unfold upTo
    split
    · next hlast =>
      rw [UInt64.le_iff_toNat_le] at hlast
      rw [Interval.holds_cons, ih h.tail, Interval.holds_cons, or_and_right]
      have hbound : j.contains txn = true → txn.toNat ≤ top.toNat := fun ht =>
        Nat.le_trans (Interval.contains_iff.mp ht).2 hlast
      rw [and_iff_left_of_imp hbound]
    · next hlast =>
      rw [UInt64.le_iff_toNat_le] at hlast
      -- what follows an interval that exceeds the number exceeds it as well
      have habsent : txn.toNat ≤ top.toNat → ¬ Holds rest txn := fun htop ht => by
        have habove := (h.holds_tail_iff.mp ht).2
        omega
      split
      · simp only [Interval.holds_cons, Interval.not_holds_nil, or_false, Interval.contains_iff]
        constructor
        · rintro ⟨hfirst, htop⟩
          exact ⟨.inl ⟨hfirst, by omega⟩, htop⟩
        · rintro ⟨ht | ht, htop⟩
          · exact ⟨ht.1, htop⟩
          · exact absurd ht (habsent htop)
      · next hfirst =>
        rw [UInt64.le_iff_toNat_le] at hfirst
        simp only [Interval.not_holds_nil, Interval.holds_cons, Interval.contains_iff, false_iff]
        rintro ⟨ht | ht, htop⟩
        · omega
        · exact habsent htop ht

/-- The intervals of a restored source, completed by what the server knows of it. -/
def complete (known is : List Interval) : List Interval :=
  match is.getLast?, known with
  | none, _ => []
  | some _, [] => is
  | some top, known => Interval.normalize (upTo top.last known ++ is)

lemma proper_completed (hknown : Coalesced known) (his : Coalesced is) :
    ∀ i ∈ upTo top known ++ is, i.first ≤ i.last := by
  intro i hi
  rcases List.mem_append.mp hi with hi | hi
  · exact proper_upTo hknown i hi
  · exact his.proper i hi

lemma coalesced_complete (hknown : Coalesced known) (his : Coalesced is) :
    Coalesced (complete known is) := by
  unfold complete
  split
  · exact .nil
  · exact his
  · exact Interval.coalesced_normalize (proper_completed hknown his)

/-- Completing brings in what the server knows up to some transaction that was restored. -/
lemma holds_complete (hknown : Coalesced known) (his : Coalesced is) :
    Holds (complete known is) txn ↔
      Holds is txn ∨ Holds known txn ∧ ∃ u, Holds is u ∧ txn ≤ u := by
  unfold complete
  split
  · next hlast =>
    rw [List.getLast?_eq_none_iff.mp hlast]
    simp
  · simp
  · next last hlast _ =>
    obtain ⟨hheld, hhighest⟩ := his.last_of_getLast? hlast
    have hbelow : txn ≤ last.last ↔ ∃ u, Holds is u ∧ txn ≤ u :=
      ⟨fun h => ⟨_, hheld, h⟩, fun ⟨u, hu, h⟩ => UInt64.le_trans h (hhighest u hu)⟩
    rw [Interval.holds_normalize (proper_completed hknown his), Interval.holds_append,
      holds_upTo hknown, hbelow, or_comm]

lemma fixRestored_eq_rework (server restored : GtidSet) :
    fixRestored server restored =
      restored.rework fun name is => complete (server.intervals name) is := by
  unfold GtidSet.fixRestored rework
  congr 2
  funext ⟨name, is⟩
  simp only [complete]
  cases hlast : is.getLast? with
  | none => rfl
  | some last =>
    have hne : is ≠ [] := by
      intro hnil
      simp [hnil] at hlast
    cases server.intervals name with
    | nil => exact (entry_of_ne_nil name hne).symm
    | cons i rest => exact (entry_of_ne_nil name (Interval.normalize_ne_nil (by simp [hne]))).symm

/-- Completing keeps sets in normal form. -/
lemma Normal.fixRestored (hserver : Normal server) (hrestored : Normal restored) :
    Normal (fixRestored server restored) := by
  rw [fixRestored_eq_rework]
  exact hrestored.rework fun name is his =>
    coalesced_complete (hserver.coalesced_intervals name) his

lemma contains_fixRestored (hserver : Normal server) (hrestored : Normal restored) :
    (fixRestored server restored).contains source txn = true ↔
      restored.contains source txn = true ∨
        server.contains source txn = true ∧ restored.Reaches source txn := by
  rw [hrestored.reaches_iff]
  simp only [contains_iff]
  rw [fixRestored_eq_rework, intervals_rework hrestored fun _ => rfl, intervals_sourceName,
    holds_complete (hserver.coalesced_intervals source) (hrestored.coalesced_intervals source)]

end GtidSet
end Changefeed
