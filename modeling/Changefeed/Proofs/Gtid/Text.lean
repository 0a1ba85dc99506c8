import Changefeed.Proofs.Gtid.Built
import Changefeed.Proofs.Text

/-!
# Reading back transaction sets

A set in normal form is read back from its text, when the names of its sources can stand in such a
text: they are not empty and hold neither white space nor the signs that part segments and
intervals.

Reading adds the intervals one by one.  What comes of it is in normal form and has the members of
the set that was written, so it is that set.
-/

namespace Changefeed

namespace Interval

variable {i : Interval} {c : Char}

/-- An interval is written with digits and dashes. -/
lemma digit_or_dash_of_mem_chars (h : c ∈ i.chars) : Text.digitValue c ≠ none ∨ c = '-' := by
  have hdigit : ∀ n, c ∈ Text.numeral n → Text.digitValue c ≠ none := fun n hc => by
    simp [Text.digitValue_of_mem_numeral hc]
  unfold chars at h
  split at h
  · exact .inl (hdigit _ h)
  · rcases List.mem_append.mp h with h | h
    · exact .inl (hdigit _ h)
    · rcases List.mem_cons.mp h with h | h
      · exact .inr h
      · exact .inl (hdigit _ h)

lemma not_mem_chars (hdigit : Text.digitValue c = none) (hdash : c ≠ '-') (i : Interval) :
    c ∉ i.chars :=
  fun h => (digit_or_dash_of_mem_chars h).elim (fun hne => hne hdigit) hdash

lemma isBlank_of_mem_chars (h : c ∈ i.chars) : Text.isBlank c = false := by
  rcases digit_or_dash_of_mem_chars h with hdigit | rfl
  · exact Text.isBlank_of_digitValue hdigit
  · decide

end Interval

namespace GtidSet

open Changefeed.Interval (Holds)

variable {s t : GtidSet} {source : String} {segment : List Char} {i : Interval}
  {is : List Interval}

/-! ## One segment -/

/-- An interval is read back. -/
lemma readInterval_chars (h : i.first ≤ i.last) : readInterval segment i.chars = .ok i := by
  have hread : ∀ n : UInt64, readTxn segment (Text.numeral n.toNat) = .ok n := fun n => by
    rw [readTxn, Text.readWord_numeral]
  have hdash : ∀ n, '-' ∉ Text.numeral n := Text.not_mem_numeral (by decide)
  by_cases hsame : i.first = i.last
  · rw [readInterval, Interval.chars, if_pos hsame, Text.cutFirst_eq_none (hdash _)]
    simp only [hread, bind, Except.bind]
    rw [← Interval.make_of_le h, ← hsame]
  · rw [readInterval, Interval.chars, if_neg hsame, Text.cutFirst_append (hdash _)]
    simp only [hread, bind, Except.bind]
    exact Interval.make_of_le h

/-- The set with intervals of a source added one by one. -/
def addAll (s : GtidSet) (source : String) (is : List Interval) : GtidSet :=
  is.foldl (fun s i => s.add source i) s

lemma readIntervals_chars (his : ∀ i ∈ is, i.first ≤ i.last) (s : GtidSet) :
    readIntervals segment source s (is.map Interval.chars) = .ok (s.addAll source is) := by
  induction is generalizing s with
  | nil => rfl
  | cons i is ih =>
    rw [List.map_cons, readIntervals, readInterval_chars (his i List.mem_cons_self)]
    exact ih (fun j hj => his j (List.mem_cons_of_mem _ hj)) (s.add source i)

/-- A name that can stand in the text of a set. -/
structure Writable (source : String) : Prop where
  ne_empty : source ≠ ""
  clear : ∀ c ∈ source.toList, c ≠ ',' ∧ c ≠ ':' ∧ Text.isBlank c = false

instance (source : String) : Decidable (Writable source) :=
  decidable_of_iff
    (source ≠ "" ∧ source.toList.all fun c => c != ',' && c != ':' && !Text.isBlank c)
    ⟨fun h => ⟨h.1, by simpa [and_assoc] using h.2⟩,
      fun h => ⟨h.ne_empty, by simpa [and_assoc] using h.clear⟩⟩

lemma mem_sourceChars {c : Char} (h : c ∈ sourceChars source is) :
    c ∈ source.toList ∨ c = ':' ∨ ∃ i ∈ is, c ∈ i.chars := by
  rcases List.mem_append.mp h with h | h
  · exact .inl h
  · obtain ⟨i, hi, hc⟩ := List.mem_flatMap.mp h
    rcases List.mem_cons.mp hc with hc | hc
    · exact .inr (.inl hc)
    · exact .inr (.inr ⟨i, hi, hc⟩)

lemma comma_not_mem_sourceChars (h : Writable source) (is : List Interval) :
    ',' ∉ sourceChars source is := by
  intro hmem
  rcases mem_sourceChars hmem with hc | hc | ⟨i, -, hc⟩
  · exact (h.clear _ hc).1 rfl
  · cases hc
  · exact Interval.not_mem_chars (by decide) (by decide) i hc

lemma isBlank_of_mem_sourceChars (h : Writable source) {c : Char}
    (hmem : c ∈ sourceChars source is) : Text.isBlank c = false := by
  rcases mem_sourceChars hmem with hc | rfl | ⟨i, -, hc⟩
  · exact (h.clear _ hc).2.2
  · decide
  · exact Interval.isBlank_of_mem_chars hc

lemma squeeze_sourceChars (h : Writable source) (is : List Interval) :
    Text.squeeze (sourceChars source is) = sourceChars source is :=
  Text.squeeze_of_not_blank fun _ hmem => isBlank_of_mem_sourceChars h hmem

/-- A segment is read as it was written. -/
lemma readSegment_sourceChars (h : Writable source) (hne : is ≠ [])
    (his : ∀ i ∈ is, i.first ≤ i.last) (s : GtidSet) :
    readSegment s (sourceChars source is) = .ok (s.addAll source is) := by
  have hsource : source.toList ≠ [] := by simpa using h.ne_empty
  have hpieces : Text.pieces ':' (sourceChars source is) =
      source.toList :: is.map Interval.chars := by
    have hcolon : ∀ part ∈ is.map Interval.chars, ':' ∉ part := by
      intro part hpart
      obtain ⟨i, -, rfl⟩ := List.mem_map.mp hpart
      exact Interval.not_mem_chars (by decide) (by decide) i
    rw [sourceChars, ← Text.pieces_flatMap (fun hc => (h.clear _ hc).2.1 rfl) hcolon,
      List.flatMap_map]
  rw [readSegment, hpieces]
  simp only [if_neg hsource, List.map_eq_nil_iff, if_neg hne, String.ofList_toList]
  exact readIntervals_chars his s

/-! ## All segments -/

/-- The set with the intervals of several sources added. -/
def addEntries (s : GtidSet) (entries : List (String × List Interval)) : GtidSet :=
  entries.foldl (fun s e => s.addAll e.1 e.2) s

/-- The segments of a set are read as they were written. -/
lemma readSegments_entries {entries : List (String × List Interval)}
    (hentries : ∀ e ∈ entries, Writable e.1 ∧ e.2 ≠ [] ∧ ∀ i ∈ e.2, i.first ≤ i.last)
    (s : GtidSet) :
    readSegments s (entries.map fun e => sourceChars e.1 e.2) = .ok (s.addEntries entries) := by
  induction entries generalizing s with
  | nil => rfl
  | cons e rest ih =>
    obtain ⟨hwritable, hne, his⟩ := hentries e List.mem_cons_self
    have hsegment : sourceChars e.1 e.2 ≠ [] := by simp [sourceChars, hwritable.ne_empty]
    rw [List.map_cons, readSegments, squeeze_sourceChars hwritable]
    split
    · next hnil => exact absurd hnil hsegment
    · rw [readSegment_sourceChars hwritable hne his]
      exact ih (fun f hf => hentries f (List.mem_cons_of_mem _ hf)) _

/-- Adding intervals one by one makes their transactions members. -/
lemma normal_addAll (hs : Normal s) (his : ∀ i ∈ is, i.first ≤ i.last) (added : String) :
    Normal (s.addAll added is) ∧ ∀ source txn, (s.addAll added is).contains source txn = true ↔
      s.contains source txn = true ∨ sourceName source = sourceName added ∧ Holds is txn := by
  induction is generalizing s with
  | nil => exact ⟨hs, fun source txn => by simp [addAll]⟩
  | cons i is ih =>
    have hi := his i List.mem_cons_self
    obtain ⟨hnormal, hmembers⟩ :=
      ih (hs.add added hi) fun j hj => his j (List.mem_cons_of_mem _ hj)
    refine ⟨hnormal, fun source txn => ?_⟩
    rw [addAll, List.foldl_cons, ← addAll, hmembers, contains_add hs hi, Interval.holds_cons,
      or_assoc, ← and_or_left]

/-- Adding the entries of a set in normal form makes its members members. -/
lemma normal_addEntries {entries : List (String × List Interval)} (ht : Normal t)
    (hentries : ∀ e ∈ entries, e ∈ t.sources) (hs : Normal s) :
    Normal (s.addEntries entries) ∧
      ∀ source txn, (s.addEntries entries).contains source txn = true ↔
        s.contains source txn = true ∨ ∃ e ∈ entries, sourceName source = e.1 ∧ Holds e.2 txn := by
  induction entries generalizing s with
  | nil => exact ⟨hs, fun source txn => by simp [addEntries]⟩
  | cons e rest ih =>
    have he := hentries e List.mem_cons_self
    obtain ⟨hadded, hmembers⟩ := normal_addAll hs (ht.coalesced e he).proper e.1
    obtain ⟨hnormal, hrest⟩ := ih (fun f hf => hentries f (List.mem_cons_of_mem _ hf)) hadded
    refine ⟨hnormal, fun source txn => ?_⟩
    rw [addEntries, List.foldl_cons, ← addEntries, hrest, hmembers, ht.lowerCase e he]
    simp [or_assoc]

/-- A set in normal form is read back from its text, when its sources can stand in one. -/
lemma parse_text (hs : Normal s) (hwritable : ∀ e ∈ s.sources, Writable e.1) :
    parse s.text = .ok s := by
  obtain ⟨hnormal, hmembers⟩ := normal_addEntries hs (fun _ he => he) normal_empty
  have hsame : empty.addEntries s.sources = s := by
    refine hnormal.ext hs fun source txn => ?_
    rw [hmembers, ← hs.contains_iff_entry, or_iff_right]
    exact not_contains_of_isEmpty rfl
  have hentries : ∀ e ∈ s.sources, Writable e.1 ∧ e.2 ≠ [] ∧ ∀ i ∈ e.2, i.first ≤ i.last :=
    fun e he => ⟨hwritable e he, hs.nonempty e he, (hs.coalesced e he).proper⟩
  have hread := readSegments_entries hentries empty
  rw [hsame] at hread
  rw [parse, text, String.toList_ofList, readChars, chars]
  by_cases hsources : s.sources = []
  · -- nothing is written for the empty set, which reads as one empty segment
    rw [hsources] at hread ⊢
    exact hread
  · rw [Text.pieces_join (by simpa using hsources)]
    · exact hread
    · intro part hpart
      obtain ⟨e, he, rfl⟩ := List.mem_map.mp hpart
      exact comma_not_mem_sourceChars (hwritable e he) e.2

end GtidSet
end Changefeed
