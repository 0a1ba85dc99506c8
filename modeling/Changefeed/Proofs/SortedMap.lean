import Mathlib.Order.Compare
import Changefeed.Split
import Changefeed.SortedMap

/-!
# The theory of maps in key order

A map is looked up and changed along its list, so every operation has one law for the key it was
given and one for all others.  Those laws hold of any list of entries.  That the entries of a list
ascend is needed for two things only: what is found is then what the list holds, and two maps that
answer every key alike are the same list.

The keys have to be ordered lawfully.  Names of tables and identities of splits are: they compare by
their first part and then by their second one.
-/

namespace Changefeed

/-! ## Lawful keys -/

instance : Std.TransOrd TableId :=
  inferInstanceAs (Std.TransCmp
    (compareLex (compareOn TableId.database) (compareOn TableId.table)))

instance : Std.LawfulEqOrd TableId where
  eq_of_compare := by
    rintro ⟨d, t⟩ ⟨d', t'⟩ h
    obtain ⟨hd, ht⟩ := Ordering.then_eq_eq.mp h
    obtain rfl : d = d' := Std.LawfulEqOrd.eq_of_compare hd
    obtain rfl : t = t' := Std.LawfulEqOrd.eq_of_compare ht
    rfl

instance : Std.TransOrd SplitId :=
  inferInstanceAs (Std.TransCmp (compareLex (compareOn SplitId.scope) (compareOn SplitId.index)))

instance : Std.LawfulEqOrd SplitId where
  eq_of_compare := by
    rintro ⟨s, i⟩ ⟨s', i'⟩ h
    obtain ⟨hs, hi⟩ := Ordering.then_eq_eq.mp h
    obtain rfl : s = s' := Std.LawfulEqOrd.eq_of_compare hs
    obtain rfl : i = i' := Std.LawfulEqOrd.eq_of_compare hi
    rfl

namespace SortedMap

variable {κ α : Type} [Ord κ] [Std.TransOrd κ] [Std.LawfulEqOrd κ]

/-! ## What is found after a change -/

omit [Std.TransOrd κ] in
lemma compare_ne_eq {k k' : κ} (h : k ≠ k') : compare k k' ≠ .eq :=
  fun heq => h (Std.LawfulEqOrd.eq_of_compare heq)

omit [Std.TransOrd κ] in
@[simp] lemma find?_insert_self (m : SortedMap κ α) (k : κ) (v : α) :
    find? (insert m k v) k = some v := by
  induction m with
  | nil => simp [insert, find?]
  | cons e rest ih =>
    obtain ⟨k', v'⟩ := e
    cases hc : compare k k' with
    | lt => simp [insert, hc, find?]
    | eq => simp [insert, hc, find?]
    | gt => simp [insert, hc, find?, ih]

/-- Storing under one key leaves the others alone. -/
lemma find?_insert_of_ne (m : SortedMap κ α) {k k' : κ} (v : α) (h : k' ≠ k) :
    find? (insert m k v) k' = find? m k' := by
  induction m with
  | nil =>
    cases hc : compare k' k with
    | lt => simp [insert, find?, hc]
    | eq => exact absurd hc (compare_ne_eq h)
    | gt => simp [insert, find?, hc]
  | cons e rest ih =>
    obtain ⟨k₀, v₀⟩ := e
    cases hc : compare k k₀ with
    | lt =>
      simp only [insert, hc, find?]
      cases hc' : compare k' k with
      | lt => simp [Std.TransCmp.lt_trans hc' hc]
      | eq => exact absurd hc' (compare_ne_eq h)
      | gt => rfl
    | eq =>
      obtain rfl := Std.LawfulEqOrd.eq_of_compare hc
      simp only [insert, hc, find?]
      cases hc' : compare k' k with
      | lt => rfl
      | eq => exact absurd hc' (compare_ne_eq h)
      | gt => rfl
    | gt => simp only [insert, hc, find?, ih]

/-- What is found after storing. -/
lemma find?_insert [DecidableEq κ] (m : SortedMap κ α) (k k' : κ) (v : α) :
    find? (insert m k v) k' = if k' = k then some v else find? m k' := by
  split
  · next h => rw [h, find?_insert_self]
  · next h => exact find?_insert_of_ne m v h

omit [Std.TransOrd κ] in
/-- Storing what is found under a key changes nothing. -/
lemma insert_of_find? {m : SortedMap κ α} {k : κ} {v : α} (h : find? m k = some v) :
    insert m k v = m := by
  induction m with
  | nil => cases h
  | cons e rest ih =>
    obtain ⟨k', v'⟩ := e
    simp only [find?, insert] at h ⊢
    cases hc : compare k k' with
    | lt => simp [hc] at h
    | eq =>
      obtain rfl := Std.LawfulEqOrd.eq_of_compare hc
      rw [hc] at h
      rw [Option.some.inj h]
    | gt =>
      rw [hc] at h
      exact congrArg _ (ih h)

/-! ## Maps that ascend -/

/-- The keys of a map ascend, each of them once. -/
def Ascending (m : SortedMap κ α) : Prop := m.Pairwise fun a b => compare a.1 b.1 = .lt

omit [Std.TransOrd κ] [Std.LawfulEqOrd κ] in
lemma ascending_nil : Ascending ([] : SortedMap κ α) := .nil

omit [Std.TransOrd κ] [Std.LawfulEqOrd κ] in
lemma Ascending.tail {e : κ × α} {m : SortedMap κ α} (h : Ascending (e :: m)) : Ascending m :=
  h.of_cons

/-- What is found in a map is what its list holds. -/
lemma find?_eq_some_iff {m : SortedMap κ α} (hm : Ascending m) {k : κ} {v : α} :
    find? m k = some v ↔ (k, v) ∈ m := by
  induction m with
  | nil => simp [find?]
  | cons e rest ih =>
    obtain ⟨k', v'⟩ := e
    have hlater : ∀ e ∈ rest, compare k' e.1 = .lt := (List.pairwise_cons.mp hm).1
    cases hc : compare k k' with
    | lt =>
      have habsent : (k, v) ∉ rest := fun hmem =>
        absurd (Std.TransCmp.lt_trans hc (hlater _ hmem)) (by simp)
      have hne : k ≠ k' := by
        rintro rfl
        simp at hc
      simp [find?, hc, habsent, hne]
    | eq =>
      obtain rfl := Std.LawfulEqOrd.eq_of_compare hc
      have habsent : (k, v) ∉ rest := fun hmem => absurd (hlater _ hmem) (by simp)
      simp [find?, habsent, eq_comm]
    | gt =>
      have hne : k ≠ k' := by
        rintro rfl
        simp at hc
      simp [find?, hc, ih hm.tail, hne]

omit [Std.TransOrd κ] [Std.LawfulEqOrd κ] in
/-- An entry of a map after storing is the one stored or one that was there. -/
lemma mem_insert {m : SortedMap κ α} {k : κ} {v : α} {e : κ × α} (h : e ∈ insert m k v) :
    e = (k, v) ∨ e ∈ m := by
  induction m with
  | nil => simpa [insert] using h
  | cons e' rest ih =>
    obtain ⟨k', v'⟩ := e'
    cases hc : compare k k' with
    | lt => simpa [insert, hc] using h
    | eq =>
      simp only [insert, hc, List.mem_cons] at h
      exact h.imp_right (.tail _)
    | gt =>
      simp only [insert, hc, List.mem_cons] at h
      rcases h with rfl | h
      · exact .inr (.head _)
      · exact (ih h).imp_right (.tail _)

/-- Storing keeps a map ascending. -/
lemma ascending_insert {m : SortedMap κ α} (hm : Ascending m) (k : κ) (v : α) :
    Ascending (insert m k v) := by
  induction m with
  | nil => exact List.pairwise_singleton ..
  | cons e rest ih =>
    obtain ⟨k', v'⟩ := e
    have hlater : ∀ e ∈ rest, compare k' e.1 = .lt := (List.pairwise_cons.mp hm).1
    cases hc : compare k k' with
    | lt =>
      simp only [insert, hc]
      refine List.pairwise_cons.mpr ⟨fun e he => ?_, hm⟩
      rcases List.mem_cons.mp he with rfl | he
      · exact hc
      · exact Std.TransCmp.lt_trans hc (hlater e he)
    | eq =>
      obtain rfl := Std.LawfulEqOrd.eq_of_compare hc
      simp only [insert, hc]
      exact List.pairwise_cons.mpr ⟨hlater, hm.tail⟩
    | gt =>
      simp only [insert, hc]
      refine List.pairwise_cons.mpr ⟨fun e he => ?_, ih hm.tail⟩
      rcases mem_insert he with rfl | he
      · exact Std.OrientedCmp.gt_iff_lt.mp hc
      · exact hlater e he

omit [Std.TransOrd κ] [Std.LawfulEqOrd κ] in
/-- Erasing leaves a part of the list. -/
lemma erase_sublist (m : SortedMap κ α) (k : κ) : (erase m k).Sublist m := by
  induction m with
  | nil => exact .slnil
  | cons e rest ih =>
    obtain ⟨k', v'⟩ := e
    cases hc : compare k k' with
    | lt => simp [erase, hc]
    | eq => simp [erase, hc]
    | gt => simpa [erase, hc] using ih

omit [Std.TransOrd κ] [Std.LawfulEqOrd κ] in
/-- Erasing what is not found changes nothing. -/
lemma erase_of_find?_eq_none {m : SortedMap κ α} {k : κ} (h : find? m k = none) :
    erase m k = m := by
  induction m with
  | nil => rfl
  | cons e rest ih =>
    obtain ⟨k', v'⟩ := e
    simp only [find?, erase] at h ⊢
    cases hc : compare k k' with
    | lt => rfl
    | eq => simp [hc] at h
    | gt =>
      rw [hc] at h
      exact congrArg _ (ih h)

omit [Std.TransOrd κ] [Std.LawfulEqOrd κ] in
/-- Erasing keeps a map ascending. -/
lemma ascending_erase {m : SortedMap κ α} (hm : Ascending m) (k : κ) : Ascending (erase m k) :=
  List.Pairwise.sublist (erase_sublist m k) hm

omit [Std.TransOrd κ] [Std.LawfulEqOrd κ] in
lemma ascending_filterMap {β : Type} {m : SortedMap κ α} {f : κ × α → Option (κ × β)}
    (hf : ∀ e e', f e = some e' → e'.1 = e.1) (hm : Ascending m) : Ascending (m.filterMap f) := by
  refine List.Pairwise.filterMap f (fun e e' hlt b hb b' hb' => ?_) hm
  rw [hf e b hb, hf e' b' hb']
  exact hlt

/-- What is found after keeping some entries under their keys, with other values. -/
lemma find?_filterMap {β : Type} {m : SortedMap κ α} {f : κ × α → Option (κ × β)}
    (hf : ∀ e e', f e = some e' → e'.1 = e.1) (hm : Ascending m) (k : κ) :
    find? (m.filterMap f) k = (find? m k).bind fun v => (f (k, v)).map Prod.snd := by
  refine Option.ext fun w => ?_
  rw [find?_eq_some_iff (ascending_filterMap hf hm), List.mem_filterMap]
  simp only [Option.bind_eq_some_iff, Option.map_eq_some_iff, find?_eq_some_iff hm]
  constructor
  · rintro ⟨⟨k', v⟩, hmem, hfe⟩
    obtain rfl : k = k' := hf _ _ hfe
    exact ⟨v, hmem, (k, w), hfe, rfl⟩
  · rintro ⟨v, hmem, ⟨k', w'⟩, hfe, rfl⟩
    obtain rfl : k' = k := hf _ _ hfe
    exact ⟨(k', v), hmem, hfe⟩

omit [Std.TransOrd κ] [Std.LawfulEqOrd κ] in
/-- What is stored under a new key is added to what was there. -/
lemma perm_insert {m : SortedMap κ α} {k : κ} (h : find? m k = none) (v : α) :
    (insert m k v).Perm ((k, v) :: m) := by
  induction m with
  | nil => exact .refl _
  | cons e rest ih =>
    obtain ⟨k', v'⟩ := e
    simp only [find?, insert] at h ⊢
    cases hc : compare k k' with
    | lt => exact .refl _
    | eq => simp [hc] at h
    | gt =>
      rw [hc] at h
      exact ((ih h).cons (k', v')).trans (.swap ..)

omit [Std.TransOrd κ] in
/-- What is erased is all that is missing then. -/
lemma perm_erase {m : SortedMap κ α} {k : κ} {v : α} (h : find? m k = some v) :
    m.Perm ((k, v) :: erase m k) := by
  induction m with
  | nil => cases h
  | cons e rest ih =>
    obtain ⟨k', v'⟩ := e
    simp only [find?, erase] at h ⊢
    cases hc : compare k k' with
    | lt => simp [hc] at h
    | eq =>
      obtain rfl : k = k' := Std.LawfulEqOrd.eq_of_compare hc
      rw [hc] at h
      rw [Option.some.inj h]
    | gt =>
      rw [hc] at h
      exact ((ih h).cons (k', v')).trans (.swap ..)

/-- What is left of a map are the entries under other keys. -/
lemma mem_erase_iff {m : SortedMap κ α} (hm : Ascending m) (k : κ) (e : κ × α) :
    e ∈ erase m k ↔ e ∈ m ∧ e.1 ≠ k := by
  induction m with
  | nil => simp [erase]
  | cons f rest ih =>
    obtain ⟨k', v'⟩ := f
    obtain ⟨hlater, hrest⟩ := List.pairwise_cons.mp hm
    cases hc : compare k k' with
    | lt =>
      have hne : ∀ e ∈ (k', v') :: rest, e.1 ≠ k := by
        rintro e he rfl
        rcases List.mem_cons.mp he with rfl | he
        · simp at hc
        · have hloop := Std.TransCmp.lt_trans hc (hlater e he)
          simp at hloop
      simp only [erase, hc]
      exact ⟨fun he => ⟨he, hne e he⟩, fun he => he.1⟩
    | eq =>
      obtain rfl : k = k' := Std.LawfulEqOrd.eq_of_compare hc
      have hne : ∀ e ∈ rest, e.1 ≠ k := by
        rintro e he rfl
        have hself := hlater e he
        simp at hself
      simp only [erase, hc, List.mem_cons]
      constructor
      · exact fun he => ⟨.inr he, hne e he⟩
      · rintro ⟨rfl | he, hk⟩
        · exact absurd rfl hk
        · exact he
    | gt =>
      have hne : k' ≠ k := by
        rintro rfl
        simp at hc
      simp only [erase, hc, List.mem_cons, ih hrest]
      constructor
      · rintro (rfl | ⟨he, hk⟩)
        · exact ⟨.inl rfl, hne⟩
        · exact ⟨.inr he, hk⟩
      · rintro ⟨rfl | he, hk⟩
        · exact .inl rfl
        · exact .inr ⟨he, hk⟩

/-- After erasing a key nothing is found under it, and under the others what was found before. -/
lemma find?_erase [DecidableEq κ] {m : SortedMap κ α} (hm : Ascending m) (k k' : κ) :
    find? (erase m k) k' = if k' = k then none else find? m k' := by
  refine Option.ext fun v => ?_
  rw [find?_eq_some_iff (ascending_erase hm k), mem_erase_iff hm]
  split
  · next h => simp [h]
  · next h => rw [find?_eq_some_iff hm, and_iff_left h]

omit [Std.LawfulEqOrd κ] in
/-- The one key of a list, however often it stands there. -/
lemma keySet_of_forall_eq {k : κ} {ks : List κ} (hne : ks ≠ []) (h : ∀ k' ∈ ks, k' = k) :
    keySet ks = [k] := by
  have hfold : ∀ ks : List κ, (∀ k' ∈ ks, k' = k) →
      (ks.map fun k => (k, ())).foldl (fun m (k, v) => insert m k v) [(k, ())] = [(k, ())] := by
    intro ks hks
    induction ks with
    | nil => rfl
    | cons k' ks ih =>
      obtain rfl := hks k' (.head _)
      simp only [List.map_cons, List.foldl_cons, insert, Std.ReflOrd.compare_self]
      exact ih fun k' hk' => hks k' (.tail _ hk')
  cases ks with
  | nil => exact absurd rfl hne
  | cons k' ks =>
    obtain rfl := h k' (.head _)
    have hrest := hfold ks fun k' hk' => h k' (.tail _ hk')
    rw [keySet, ofEntries, List.map_cons, List.foldl_cons]
    exact congrArg keys hrest

lemma ext_find? {m n : SortedMap κ α} (hm : Ascending m) (hn : Ascending n)
    (h : ∀ k, find? m k = find? n k) : m = n := by
  have hmem : ∀ e : κ × α, e ∈ m ↔ e ∈ n := fun ⟨k, v⟩ => by
    rw [← find?_eq_some_iff hm, ← find?_eq_some_iff hn, h k]
  have hanti : ∀ a b : κ × α, a ∈ m → b ∈ n → compare a.1 b.1 = .lt → compare b.1 a.1 = .lt →
      a = b := fun a b _ _ hab hba =>
    absurd (Std.TransCmp.lt_trans hab hba) (by simp)
  have hnodup : ∀ {l : SortedMap κ α}, Ascending l → l.Nodup := fun hl =>
    hl.imp fun hlt heq => by simp [heq] at hlt
  exact ((List.perm_ext_iff_of_nodup (hnodup hm) (hnodup hn)).mpr hmem).eq_of_pairwise hanti hm hn

/-! ## Maps made of entries -/

/-- Entries under distinct keys are all found, on top of those that were there. -/
lemma find?_foldl_insert {entries : List (κ × α)} (hdistinct : (entries.map Prod.fst).Nodup)
    (m : SortedMap κ α) (k : κ) (v : α) :
    find? (entries.foldl (fun m (k, v) => insert m k v) m) k = some v ↔
      (k, v) ∈ entries ∨ k ∉ entries.map Prod.fst ∧ find? m k = some v := by
  classical
  induction entries generalizing m with
  | nil => simp
  | cons e entries ih =>
    obtain ⟨hfresh, hrest⟩ := List.nodup_cons.mp hdistinct
    rw [List.foldl_cons, ih hrest, find?_insert]
    by_cases hk : k = e.1
    · subst hk
      have hentry : (e.1, v) ∉ entries := fun h => hfresh (List.mem_map.mpr ⟨_, h, rfl⟩)
      simp [hfresh, hentry, Prod.ext_iff, eq_comm]
    · simp [hk, Prod.ext_iff]

lemma ascending_ofEntries (entries : List (κ × α)) : Ascending (ofEntries entries) := by
  have hstep : ∀ m : SortedMap κ α, Ascending m →
      Ascending (entries.foldl (fun m (k, v) => insert m k v) m) := by
    induction entries with
    | nil => exact fun m hm => hm
    | cons e entries ih => exact fun m hm => ih _ (ascending_insert hm e.1 e.2)
  exact hstep [] ascending_nil

lemma pairwise_keySet (ks : List κ) : (keySet ks).Pairwise fun k k' => compare k k' = .lt :=
  List.pairwise_map.mpr (ascending_ofEntries _)

/-- The distinct keys of a list are those that stand in it. -/
lemma mem_keySet_iff {ks : List κ} {k : κ} : k ∈ keySet ks ↔ k ∈ ks := by
  classical
  have hfold : ∀ (ks : List κ) (m : SortedMap κ Unit),
      find? ((ks.map fun k => (k, ())).foldl (fun m (k, v) => insert m k v) m) k = some () ↔
        k ∈ ks ∨ find? m k = some () := by
    intro ks
    induction ks with
    | nil => simp
    | cons k' ks ih =>
      intro m
      rw [List.map_cons, List.foldl_cons, ih, find?_insert]
      by_cases hk : k = k'
      · simp [hk]
      · simp [hk]
  have hmem : k ∈ keySet ks ↔ (k, ()) ∈ ofEntries (ks.map fun k => (k, ())) := by
    constructor
    · intro h
      obtain ⟨e, he, rfl⟩ := List.mem_map.mp h
      exact he
    · intro h
      exact List.mem_map_of_mem h
  rw [hmem, ← find?_eq_some_iff (ascending_ofEntries _), ofEntries, hfold]
  simp [find?]

omit [Std.TransOrd κ] in
lemma Ascending.nodup_keys {m : SortedMap κ α} (h : Ascending m) : (m.map Prod.fst).Nodup := by
  refine List.pairwise_map.mpr (h.imp fun {a b} hlt heq => ?_)
  rw [heq, Std.ReflOrd.compare_self] at hlt
  cases hlt

lemma ofEntries_of_perm {m : SortedMap κ α} (hm : Ascending m) {entries : List (κ × α)}
    (hperm : entries.Perm m) : ofEntries entries = m := by
  have hdistinct : (entries.map Prod.fst).Nodup :=
    (hperm.map Prod.fst).nodup_iff.mpr hm.nodup_keys
  refine ext_find? (ascending_ofEntries entries) hm fun k => ?_
  refine Option.ext fun v => ?_
  rw [ofEntries, find?_foldl_insert hdistinct, find?_eq_some_iff hm, hperm.mem_iff]
  simp [find?]

end SortedMap
end Changefeed
