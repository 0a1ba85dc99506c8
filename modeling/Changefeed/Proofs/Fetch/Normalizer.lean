import Changefeed.Fetch.Normalizer
import Changefeed.Proofs.Json.Scalars
import Changefeed.Proofs.Rows
import Changefeed.Proofs.SortedMap

/-!
# What a normalizer holds

A normalizer has one slot for each row that it has seen, with the last image of the row.  Its index
names the slot of each key, and stays in step with the slots whatever is put into them: a key that
is new gets the slot behind all others, and a known one keeps its own, also when the slot is empty.

Integers are written differently when they are different, so rows with integer keys are never taken
for one another, and the rows that are given out at the watermark are those that the changes leave
behind.
-/

namespace Changefeed
namespace Normalizer

variable {n : Normalizer} {column key : String} {image : Option ChangeEvent} {e : ChangeEvent}
  {slots : RowSlots} {entries : List (String × Option ChangeEvent)} {rows : Rows} {k : Int}

/-- The text of an integer key. -/
def intText (k : Int) : String := Json.Value.compact (.number (.int k))

lemma intText_inj {k k' : Int} (h : intText k = intText k') : k = k' :=
  Text.signedNumeral_inj (String.ofList_injective h)

lemma apply_keyed (n : Normalizer) (he : e.Keyed n.keyColumn k) :
    n.apply e = .ok { n with slots := setSlot (intText k) (imageOf e) n.slots } := by
  have hvalue := ChangeEvent.intKey?_eq_some_iff.mp he.key
  simp [apply, keyText, hvalue, intText]

/-- Takes changes one after the other. -/
def applyAll (n : Normalizer) : List ChangeEvent → Outcome Normalizer
  | [] => .ok n
  | e :: es =>
    match n.apply e with
    | .ok n => n.applyAll es
    | .error f => .error f

/-- Changes are taken when the first ones are and then the others. -/
lemma applyAll_append_ok {n' : Normalizer} {es es' : List ChangeEvent}
    (h : n.applyAll (es ++ es') = .ok n') :
    ∃ n₁, n.applyAll es = .ok n₁ ∧ n₁.applyAll es' = .ok n' := by
  induction es generalizing n with
  | nil => exact ⟨n, rfl, h⟩
  | cons e es ih =>
    rw [List.cons_append, applyAll] at h
    rw [applyAll]
    cases happly : n.apply e with
    | error f =>
      rw [happly] at h
      cases h
    | ok n₁ =>
      rw [happly] at h
      exact ih h

/-! ## Entries -/

/-- The entries with that of a key set; a new one comes last. -/
def setEntry (key : String) (image : Option ChangeEvent) :
    List (String × Option ChangeEvent) → List (String × Option ChangeEvent)
  | [] => [(key, image)]
  | (k, old) :: rest =>
    if k = key then (k, image) :: rest else (k, old) :: setEntry key image rest

lemma keys_setEntry (key : String) (image : Option ChangeEvent)
    (entries : List (String × Option ChangeEvent)) :
    (setEntry key image entries).map Prod.fst =
      if key ∈ entries.map Prod.fst then entries.map Prod.fst
      else entries.map Prod.fst ++ [key] := by
  induction entries with
  | nil => rfl
  | cons entry entries ih =>
    obtain ⟨key', old⟩ := entry
    rw [setEntry, List.map_cons]
    by_cases hkey : key' = key
    · subst hkey
      simp
    · rw [if_neg hkey, List.map_cons, ih]
      simp only [List.mem_cons, Ne.symm hkey, false_or]
      split <;> rfl

/-- The entry of a known key is exchanged at its place. -/
lemma setEntry_of_getElem? (hnodup : (entries.map Prod.fst).Nodup) {i : Nat}
    (h : (entries.map Prod.fst)[i]? = some key) (image : Option ChangeEvent) :
    setEntry key image entries = entries.set i (key, image) := by
  induction entries generalizing i with
  | nil => cases h
  | cons entry entries ih =>
    obtain ⟨key', old⟩ := entry
    obtain ⟨hnew, hrest⟩ := List.nodup_cons.mp hnodup
    rw [setEntry]
    cases i with
    | zero =>
      obtain rfl : key' = key := Option.some.inj h
      rw [if_pos rfl]
      rfl
    | succ i =>
      have hne : key' ≠ key := fun heq => hnew (heq ▸ List.mem_of_getElem? h)
      rw [if_neg hne, ih hrest h]
      rfl

lemma setEntry_of_not_mem (h : key ∉ entries.map Prod.fst) (image : Option ChangeEvent) :
    setEntry key image entries = entries ++ [(key, image)] := by
  induction entries with
  | nil => rfl
  | cons entry entries ih =>
    obtain ⟨hne, hrest⟩ := List.ne_and_not_mem_of_not_mem_cons h
    rw [setEntry, if_neg (Ne.symm hne), ih hrest]
    rfl

/-- An entry that is set has its image, and the others have what they had. -/
lemma mem_setEntry (h : (entries.map Prod.fst).Nodup) {entry : String × Option ChangeEvent} :
    entry ∈ setEntry key image entries ↔
      entry = (key, image) ∨ entry ∈ entries ∧ entry.1 ≠ key := by
  induction entries with
  | nil => simp [setEntry]
  | cons first entries ih =>
    obtain ⟨key', old⟩ := first
    obtain ⟨hnew, hrest⟩ := List.nodup_cons.mp h
    rw [setEntry]
    by_cases hkey : key' = key
    · subst hkey
      have hothers : ∀ x ∈ entries, x.1 ≠ key' := by
        intro x hx heq
        have hmem : x.1 ∈ entries.map Prod.fst := List.mem_map_of_mem hx
        exact hnew (heq ▸ hmem)
      rw [if_pos rfl, List.mem_cons, List.mem_cons]
      constructor
      · rintro (rfl | hentry)
        · exact .inl rfl
        · exact .inr ⟨.inr hentry, hothers entry hentry⟩
      · rintro (rfl | ⟨rfl | hentry, hne⟩)
        · exact .inl rfl
        · exact absurd rfl hne
        · exact .inr hentry
    · rw [if_neg hkey, List.mem_cons, List.mem_cons, ih hrest]
      constructor
      · rintro (rfl | rfl | ⟨hentry, hne⟩)
        · exact .inr ⟨.inl rfl, hkey⟩
        · exact .inl rfl
        · exact .inr ⟨.inr hentry, hne⟩
      · rintro (rfl | ⟨rfl | hentry, hne⟩)
        · exact .inr (.inl rfl)
        · exact .inl rfl
        · exact .inr (.inr ⟨hentry, hne⟩)

/-! ## Slots -/

/-- The slots hold the images of some entries, and the index names the slot of each key. -/
structure Lists (slots : RowSlots) (entries : List (String × Option ChangeEvent)) : Prop where
  images : slots.images = entries.map Prod.snd
  index : ∀ key i, slots.index.find? key = some i ↔ (entries.map Prod.fst)[i]? = some key

lemma lists_empty : Lists {} [] :=
  ⟨rfl, fun key i => by simp [SortedMap.find?]⟩

lemma Lists.nodup (h : Lists slots entries) : (entries.map Prod.fst).Nodup := by
  refine List.pairwise_iff_getElem.mpr fun i j hi hj hij heq => ?_
  have hfirst := (h.index _ i).mpr (List.getElem?_eq_getElem hi)
  have hsecond := (h.index _ j).mpr (List.getElem?_eq_getElem hj)
  rw [heq, hsecond] at hfirst
  cases hfirst
  exact Nat.lt_irrefl _ hij

lemma Lists.not_mem (h : Lists slots entries) (hnone : slots.index.find? key = none) :
    key ∉ entries.map Prod.fst := by
  intro hmem
  obtain ⟨i, hi⟩ := List.getElem?_of_mem hmem
  rw [(h.index key i).mpr hi] at hnone
  cases hnone

lemma getElem?_append_singleton_iff {keys : List String} {key' : String} {i : Nat} :
    (keys ++ [key])[i]? = some key' ↔ keys[i]? = some key' ∨ i = keys.length ∧ key' = key := by
  rw [List.getElem?_append]
  split
  · next hi => simp [Nat.ne_of_lt hi]
  · next hi =>
    have hlast : i - keys.length = 0 ↔ i = keys.length := by omega
    simp [List.getElem?_eq_none (Nat.not_lt.mp hi), List.getElem?_singleton, hlast,
      eq_comm (a := key')]

/-- Slots and index stay in step when a slot is set. -/
lemma Lists.setSlot (h : Lists slots entries) (key : String) (image : Option ChangeEvent) :
    Lists (setSlot key image slots) (setEntry key image entries) := by
  cases hfind : slots.index.find? key with
  | some i =>
    have hkey := (h.index key i).mp hfind
    have hset : Normalizer.setSlot key image slots =
        { slots with images := slots.images.set i image } := by
      rw [Normalizer.setSlot, slotOf, hfind]
    rw [hset]
    constructor
    · rw [setEntry_of_getElem? h.nodup hkey, List.map_set, ← h.images]
    · rw [keys_setEntry, if_pos (List.mem_of_getElem? hkey)]
      exact h.index
  | none =>
    have hnew := h.not_mem hfind
    have hset : Normalizer.setSlot key image slots =
        { images := slots.images ++ [image]
          index := slots.index.insert key slots.images.length } := by
      rw [Normalizer.setSlot, slotOf, hfind]
      simp
    have hlength : slots.images.length = (entries.map Prod.fst).length := by simp [h.images]
    rw [hset]
    constructor
    · rw [setEntry_of_not_mem hnew, List.map_append, ← h.images]
      rfl
    · intro key' i
      rw [keys_setEntry, if_neg hnew, SortedMap.find?_insert, getElem?_append_singleton_iff,
        hlength]
      split
      · next heq =>
        subst heq
        rw [Option.some.injEq]
        exact ⟨fun hi => .inr ⟨hi.symm, rfl⟩, fun hi =>
          hi.elim (fun hi => absurd (List.mem_of_getElem? hi) hnew) fun hi => hi.1.symm⟩
      · next hne =>
        rw [h.index]
        exact ⟨.inl, fun hi => hi.elim id fun hi => absurd hi.2 hne⟩

lemma Lists.finish (h : Lists n.slots entries) (w : Offset) :
    n.finish w = entries.filterMap fun entry => entry.2.map fun e => { e with position := w } := by
  rw [Normalizer.finish, h.images, List.filterMap_map]
  rfl

/-! ## Rows -/

/-- The image in a slot is the row of a key. -/
def Shows (column : String) (k : Int) (row : Option Json.Object) : Option ChangeEvent → Prop
  | none => row = none
  | some e => e.kind = .insert ∧ e.intKey? column = some k ∧ e.after = row ∧ row.isSome

/-- Entries hold the rows of a table. -/
structure Shown (column : String) (entries : List (String × Option ChangeEvent)) (rows : Rows) :
    Prop where
  shows : ∀ entry ∈ entries, ∃ k, entry.1 = intText k ∧ Shows column k (rows k) entry.2
  others : ∀ k, intText k ∉ entries.map Prod.fst → rows k = none

/-- The slots hold the rows of a table. -/
def Holds (column : String) (slots : RowSlots) (rows : Rows) : Prop :=
  ∃ entries, Lists slots entries ∧ Shown column entries rows

lemma holds_empty (column : String) : Holds column {} .empty :=
  ⟨[], lists_empty, by simp, fun _ _ => rfl⟩

/-- The image of a change that is kept is the row that it leaves behind. -/
lemma shows_imageOf (he : e.Keyed column k) : Shows column k e.image (imageOf e) := by
  obtain ⟨position, tableId, kind, before, after, timestampMs⟩ := e
  obtain ⟨-, hasAfter, hkey⟩ := he
  cases kind with
  | delete => rfl
  | insert =>
    obtain ⟨row, rfl⟩ := Option.isSome_iff_exists.mp hasAfter.symm
    exact ⟨rfl, hkey, rfl, rfl⟩
  | update =>
    obtain ⟨row, rfl⟩ := Option.isSome_iff_exists.mp hasAfter.symm
    exact ⟨rfl, hkey, rfl, rfl⟩

/-- Entries that hold the rows of a table hold them after a change. -/
lemma Shown.setEntry (h : Shown column entries rows) (hnodup : (entries.map Prod.fst).Nodup)
    (he : e.Keyed column k) :
    Shown column (setEntry (intText k) (imageOf e) entries) (rows.apply column e) where
  shows entry hentry := by
    rcases (mem_setEntry hnodup).mp hentry with rfl | ⟨hentry, hne⟩
    · refine ⟨k, rfl, ?_⟩
      rw [Rows.apply_at, if_pos he.key]
      exact shows_imageOf he
    · obtain ⟨k', hk', hshows⟩ := h.shows entry hentry
      refine ⟨k', hk', ?_⟩
      have hother : e.intKey? column ≠ some k' := by
        rw [he.key]
        rintro heq
        exact hne (hk' ▸ Option.some.inj heq ▸ rfl)
      rwa [Rows.apply_at, if_neg hother]
  others k' hk' := by
    rw [keys_setEntry] at hk'
    have hmem : intText k' ∉ entries.map Prod.fst ∧ k' ≠ k := by
      split at hk'
      · next hk => exact ⟨hk', fun heq => hk' (heq ▸ hk)⟩
      · rw [List.mem_append, not_or] at hk'
        exact ⟨hk'.1, fun heq => hk'.2 (heq ▸ List.mem_singleton_self _)⟩
    have hother : e.intKey? column ≠ some k' := by
      rw [he.key]
      exact fun heq => hmem.2 (Option.some.inj heq).symm
    rw [Rows.apply_at, if_neg hother, h.others k' hmem.1]

lemma Holds.setSlot (h : Holds column slots rows) (he : e.Keyed column k) :
    Holds column (setSlot (intText k) (imageOf e) slots) (rows.apply column e) := by
  obtain ⟨entries, hlists, hshown⟩ := h
  exact ⟨_, hlists.setSlot (intText k) (imageOf e), hshown.setEntry hlists.nodup he⟩

/-- Changes with integer keys are all taken, and the slots then hold the rows that they leave
behind. -/
lemma applyAll_keyed (h : Holds n.keyColumn n.slots rows) {es : List ChangeEvent}
    (hes : ∀ e ∈ es, ∃ k, e.Keyed n.keyColumn k) :
    ∃ n', n.applyAll es = .ok n' ∧ n'.keyColumn = n.keyColumn ∧
      Holds n.keyColumn n'.slots (rows.applyAll n.keyColumn es) := by
  induction es generalizing n rows with
  | nil => exact ⟨n, rfl, rfl, h⟩
  | cons e es ih =>
    obtain ⟨k, he⟩ := hes e (.head _)
    obtain ⟨n', happly, hcolumn, hholds⟩ :=
      ih (n := { n with slots := Normalizer.setSlot (intText k) (imageOf e) n.slots })
        (h.setSlot he) fun e he => hes e (.tail _ he)
    refine ⟨n', ?_, hcolumn, hholds⟩
    rw [applyAll, apply_keyed n he]
    exact happly

/-- What is given out is the row of its key. -/
lemma Holds.of_mem_finish (h : Holds n.keyColumn n.slots rows) {w : Offset}
    (he : e ∈ n.finish w) :
    ∃ k, e.intKey? n.keyColumn = some k ∧ e.image = rows k ∧ (rows k).isSome := by
  obtain ⟨entries, hlists, hshown⟩ := h
  rw [hlists.finish] at he
  obtain ⟨⟨key, image⟩, hentry, he⟩ := List.mem_filterMap.mp he
  obtain ⟨kept, rfl, rfl⟩ := Option.map_eq_some_iff.mp he
  obtain ⟨k, -, hkind, hkey, hafter, hsome⟩ := hshown.shows _ hentry
  refine ⟨k, ?_, ?_, hsome⟩
  · rw [← hkey]
    rfl
  · rw [← hafter]
    simp [ChangeEvent.image, hkind]

/-- Applying what is given out makes the rows that the slots hold. -/
lemma Holds.applyAll_finish (h : Holds n.keyColumn n.slots rows) (w : Offset) :
    Rows.empty.applyAll n.keyColumn (n.finish w) = rows := by
  funext k
  have hrow : ∀ e ∈ n.finish w, e.intKey? n.keyColumn = some k →
      e.image = rows k ∧ (rows k).isSome := by
    intro e he hkey
    obtain ⟨k', hkey', himage, hsome⟩ := h.of_mem_finish he
    obtain rfl := Option.some.inj (hkey'.symm.trans hkey)
    exact ⟨himage, hsome⟩
  cases hk : rows k with
  | none =>
    refine Rows.applyAll_untouched fun e he hkey => ?_
    have hsome := (hrow e he hkey).2
    simp [hk] at hsome
  | some row =>
    obtain ⟨entries, hlists, hshown⟩ := h
    have hmem : intText k ∈ entries.map Prod.fst := by
      by_contra hnone
      have hrow := hshown.others k hnone
      simp [hk] at hrow
    obtain ⟨⟨key, image⟩, hentry, hkey⟩ := List.mem_map.mp hmem
    obtain ⟨k', hkey', hshows⟩ := hshown.shows _ hentry
    obtain rfl : k = k' := intText_inj (hkey.symm.trans hkey')
    cases image with
    | none =>
      have hnone : rows k = none := hshows
      simp [hk] at hnone
    | some kept =>
      have hgiven : { kept with position := w } ∈ n.finish w := by
        rw [hlists.finish]
        exact List.mem_filterMap.mpr ⟨_, hentry, rfl⟩
      rw [← hk]
      exact Rows.applyAll_agree ⟨_, hgiven, hshows.2.1⟩ fun e he hkey => (hrow e he hkey).1

end Normalizer
end Changefeed
