import Changefeed.Proofs.Gtid.Built
import Changefeed.Proofs.Text

/-!
# What a text is read as

A text falls into segments at its commas.  White space is dropped from a segment, and a segment of
which nothing is left is skipped.  What remains names a source in front of its first colon and
writes an interval behind each colon.

A text is read exactly when every segment has a source and intervals, all of which can be read.  It
is then read as the set that has the transactions which its segments list, and no others.  Reading
adds the intervals one by one to the set read so far, so this is an induction over the parts of a
text that keeps to two facts: whether a part can be read does not depend on the set, and what it
adds are the transactions that it lists.
-/

namespace Changefeed

/-- The interval that is written as a text. -/
def Interval.ofChars? (part : List Char) : Option Interval :=
  match Text.cutFirst '-' part with
  | some (first, last) =>
    (Text.readWord first).bind fun first =>
      (Text.readWord last).bind fun last => if first ≤ last then some ⟨first, last⟩ else none
  | none => (Text.readWord part).map fun n => ⟨n, n⟩

namespace GtidSet

variable {α : Type} {s t u : GtidSet} {source : String} {txn : UInt64} {i : Interval}
  {segment part cs cs' : List Char}

/-! ## Reading part by part -/

/-- A set has the transactions of another one and further ones. -/
structure Gains (s : GtidSet) (listed : String → UInt64 → Prop) (t : GtidSet) : Prop where
  normal : Normal t
  contains_iff : ∀ source txn,
    t.contains source txn = true ↔ s.contains source txn = true ∨ listed source txn

/-- The parts of a text are added to a set: whether a part can be read does not depend on the set,
and then it adds the transactions that it lists. -/
structure Adding (read : GtidSet → α → Outcome GtidSet) (readable : α → Prop)
    (lists : α → String → UInt64 → Prop) : Prop where
  ok_iff : ∀ s x, (∃ t, read s x = .ok t) ↔ readable x
  gains : ∀ {s t x}, Normal s → read s x = .ok t → Gains s (lists x) t

/-- Parts that are added one after the other can be read when each of them can, and add what any of
them lists. -/
lemma Adding.foldlM {read : GtidSet → α → Outcome GtidSet} {readable : α → Prop}
    {lists : α → String → UInt64 → Prop} (h : Adding read readable lists) :
    Adding (fun s (xs : List α) => xs.foldlM read s) (fun xs => ∀ x ∈ xs, readable x)
      (fun xs source txn => ∃ x ∈ xs, lists x source txn) where
  ok_iff s xs := by
    induction xs generalizing s with
    | nil => exact iff_of_true ⟨s, rfl⟩ (by simp)
    | cons x xs ih =>
      rw [List.forall_mem_cons, List.foldlM_cons, ← h.ok_iff s]
      constructor
      · rintro ⟨u, hu⟩
        obtain ⟨t, ht, hu⟩ := eq_ok_of_bind hu
        exact ⟨⟨t, ht⟩, (ih t).mp ⟨u, hu⟩⟩
      · rintro ⟨⟨t, ht⟩, hxs⟩
        rw [ht]
        exact (ih t).mpr hxs
  gains {s u xs} hs hu := by
    induction xs generalizing s with
    | nil =>
      obtain rfl := Except.ok.inj hu
      exact ⟨hs, by simp⟩
    | cons x xs ih =>
      rw [List.foldlM_cons] at hu
      obtain ⟨t, ht, hu⟩ := eq_ok_of_bind hu
      have hfirst := h.gains hs ht
      have hrest := ih hfirst.normal hu
      refine ⟨hrest.normal, fun source txn => ?_⟩
      rw [hrest.contains_iff, hfirst.contains_iff]
      simp [or_assoc]

/-! ## Intervals -/

/-- An interval is read as it is written, and a text that writes none is refused. -/
lemma readInterval_cases (segment part : List Char) :
    (∃ i, Interval.ofChars? part = some i ∧ readInterval segment part = .ok i) ∨
      Interval.ofChars? part = none ∧ ∃ f, readInterval segment part = .error f := by
  have htxn : ∀ cs, (∃ n, Text.readWord cs = some n ∧ readTxn segment cs = .ok n) ∨
      Text.readWord cs = none ∧ ∃ f, readTxn segment cs = .error f := by
    intro cs
    unfold readTxn
    cases Text.readWord cs with
    | none => exact .inr ⟨rfl, _, rfl⟩
    | some n => exact .inl ⟨n, rfl, rfl⟩
  unfold readInterval Interval.ofChars?
  cases Text.cutFirst '-' part with
  | none =>
    rcases htxn part with ⟨n, hn, hok⟩ | ⟨hn, f, herror⟩
    · refine .inl ⟨⟨n, n⟩, by rw [hn]; rfl, ?_⟩
      simp only [hok, bind, Except.bind]
      exact Interval.make_of_le (i := ⟨n, n⟩) (UInt64.le_refl n)
    · refine .inr ⟨by rw [hn]; rfl, f, ?_⟩
      simp only [herror, bind, Except.bind]
  | some ends =>
    rcases htxn ends.1 with ⟨first, hfirst, hok⟩ | ⟨hfirst, f, herror⟩
    · rcases htxn ends.2 with ⟨last, hlast, hok'⟩ | ⟨hlast, f, herror⟩
      · simp only [hfirst, hlast, hok, hok', bind, Except.bind, Option.bind]
        by_cases hle : first ≤ last
        · exact .inl ⟨⟨first, last⟩, if_pos hle, Interval.make_of_le (i := ⟨first, last⟩) hle⟩
        · exact .inr ⟨if_neg hle, _, if_pos (UInt64.not_le.mp hle)⟩
      · simp [hfirst, hlast, hok, herror, bind, Except.bind]
    · simp [hfirst, herror, bind, Except.bind]

/-- An interval of a segment has the transaction. -/
def PartLists (source : String) (part : List Char) (name : String) (txn : UInt64) : Prop :=
  sourceName name = sourceName source ∧
    ∃ i, Interval.ofChars? part = some i ∧ i.contains txn = true

/-- Adds an interval of a segment. -/
def addPart (segment : List Char) (source : String) (s : GtidSet) (part : List Char) :
    Outcome GtidSet :=
  readInterval segment part >>= fun i => .ok (s.add source i)

lemma readIntervals_eq_foldlM (segment : List Char) (source : String) (s : GtidSet)
    (parts : List (List Char)) :
    readIntervals segment source s parts = parts.foldlM (addPart segment source) s := by
  induction parts generalizing s with
  | nil => rfl
  | cons part parts ih =>
    rw [readIntervals, List.foldlM_cons, addPart]
    cases readInterval segment part with
    | error f => rfl
    | ok i => exact ih (s.add source i)

lemma adding_part (segment : List Char) (source : String) :
    Adding (addPart segment source) (fun part => (Interval.ofChars? part).isSome)
      (PartLists source) where
  ok_iff s part := by
    rw [addPart]
    rcases readInterval_cases segment part with ⟨i, hi, hok⟩ | ⟨hi, f, herror⟩
    · rw [hi, hok]
      exact iff_of_true ⟨_, rfl⟩ rfl
    · rw [hi, herror]
      exact iff_of_false (fun ⟨t, ht⟩ => by cases ht) (by simp)
  gains {s t part} hs ht := by
    obtain ⟨i, hok, ht⟩ := eq_ok_of_bind ht
    obtain rfl := Except.ok.inj ht
    have hproper := first_le_last_of_readInterval hok
    refine ⟨hs.add source hproper, fun name txn => ?_⟩
    rw [contains_add hs hproper, PartLists]
    rcases readInterval_cases segment part with ⟨j, hj, hok'⟩ | ⟨-, f, herror⟩
    · obtain rfl := Except.ok.inj (hok.symm.trans hok')
      simp [hj]
    · rw [herror] at hok
      cases hok

/-! ## Segments -/

/-- What stands in front of the first colon. -/
def sourceOf (segment : List Char) : List Char := (Text.pieces ':' segment).headD []

/-- What stands behind each colon. -/
def partsOf (segment : List Char) : List (List Char) := (Text.pieces ':' segment).tail

/-- The segment has a source and intervals, all of which can be read. -/
structure Readable (segment : List Char) : Prop where
  source : sourceOf segment ≠ []
  nonempty : partsOf segment ≠ []
  parts : ∀ part ∈ partsOf segment, (Interval.ofChars? part).isSome

lemma readable_iff :
    Readable segment ↔
      sourceOf segment ≠ [] ∧ partsOf segment ≠ [] ∧
        ∀ part ∈ partsOf segment, (Interval.ofChars? part).isSome :=
  ⟨fun h => ⟨h.source, h.nonempty, h.parts⟩, fun ⟨h₁, h₂, h₃⟩ => ⟨h₁, h₂, h₃⟩⟩

/-- One of the intervals of the segment has the transaction. -/
def Lists (segment : List Char) (name : String) (txn : UInt64) : Prop :=
  ∃ part ∈ partsOf segment, PartLists (String.ofList (sourceOf segment)) part name txn

lemma readSegment_eq (s : GtidSet) (segment : List Char) :
    readSegment s segment =
      if sourceOf segment = [] then
        .error (.config (.segmentWithoutSource (String.ofList segment)))
      else if partsOf segment = [] then
        .error (.config (.segmentWithoutIntervals (String.ofList segment)))
      else
        (partsOf segment).foldlM (addPart segment (String.ofList (sourceOf segment))) s := by
  rw [readSegment, sourceOf, partsOf]
  cases hpieces : Text.pieces ':' segment with
  | nil => exact absurd hpieces (Text.pieces_ne_nil ':' segment)
  | cons source parts =>
    simp only [readIntervals_eq_foldlM, List.headD_cons, List.tail_cons]
    rfl

lemma adding_segment : Adding readSegment Readable Lists where
  ok_iff s segment := by
    rw [readSegment_eq]
    split
    · next hsource => exact iff_of_false (fun ⟨t, ht⟩ => by cases ht) fun h => h.source hsource
    · next hsource =>
      split
      · next hnil => exact iff_of_false (fun ⟨t, ht⟩ => by cases ht) fun h => h.nonempty hnil
      · next hne =>
        rw [readable_iff, and_iff_right hsource, and_iff_right hne]
        exact (adding_part segment _).foldlM.ok_iff s _
  gains {s t segment} hs ht := by
    rw [readSegment_eq] at ht
    split at ht
    · cases ht
    · split at ht
      · cases ht
      · exact (adding_part segment _).foldlM.gains hs ht

/-! ## Texts -/

/-- The segments of a text without their white space, where something is left of them. -/
def segments (cs : List Char) : List (List Char) :=
  ((Text.pieces ',' cs).map Text.squeeze).filter fun segment => segment ≠ []

lemma mem_segments_iff :
    segment ∈ segments cs ↔
      (∃ piece ∈ Text.pieces ',' cs, Text.squeeze piece = segment) ∧ segment ≠ [] := by
  simp [segments]

/-- The segments of a text are added one after the other. -/
lemma readChars_eq_foldlM (cs : List Char) :
    readChars cs = (segments cs).foldlM readSegment empty := by
  rw [readChars, segments]
  generalize Text.pieces ',' cs = pieces
  generalize empty = s
  induction pieces generalizing s with
  | nil => rfl
  | cons piece pieces ih =>
    rw [readSegments, List.map_cons]
    split
    · next hnil => rw [hnil, ih, List.filter_cons_of_neg (by simp)]
    · next hne =>
      rw [List.filter_cons_of_pos (by simpa using hne), List.foldlM_cons]
      exact congrArg _ (funext ih)

lemma exists_readChars_iff :
    (∃ s, readChars cs = .ok s) ↔ ∀ segment ∈ segments cs, Readable segment := by
  rw [readChars_eq_foldlM]
  exact adding_segment.foldlM.ok_iff empty (segments cs)

lemma normal_readChars (h : readChars cs = .ok s) :
    Normal s ∧ ∀ source txn,
      s.contains source txn = true ↔ ∃ segment ∈ segments cs, Lists segment source txn := by
  rw [readChars_eq_foldlM] at h
  obtain ⟨hnormal, hcontains⟩ := adding_segment.foldlM.gains normal_empty h
  refine ⟨hnormal, fun source txn => (hcontains source txn).trans (or_iff_right ?_)⟩
  exact not_contains_of_isEmpty rfl

/-- Texts whose segments can be read alike and list the same transactions are read as the same
set. -/
lemma readChars_congr
    (hreadable : (∀ segment ∈ segments cs, Readable segment) ↔
      ∀ segment ∈ segments cs', Readable segment)
    (hlists : ∀ source txn, (∃ segment ∈ segments cs, Lists segment source txn) ↔
      ∃ segment ∈ segments cs', Lists segment source txn) :
    readChars cs = .ok s ↔ readChars cs' = .ok s := by
  have hsame : ∀ {t t'}, readChars cs = .ok t → readChars cs' = .ok t' → t = t' := by
    intro t t' ht ht'
    obtain ⟨hnormal, hcontains⟩ := normal_readChars ht
    obtain ⟨hnormal', hcontains'⟩ := normal_readChars ht'
    refine hnormal.ext hnormal' fun source txn => ?_
    rw [hcontains, hcontains', hlists]
  constructor
  · intro h
    obtain ⟨t, ht⟩ := exists_readChars_iff.mpr (hreadable.mp (exists_readChars_iff.mp ⟨s, h⟩))
    rwa [hsame h ht]
  · intro h
    obtain ⟨t, ht⟩ := exists_readChars_iff.mpr (hreadable.mpr (exists_readChars_iff.mp ⟨s, h⟩))
    rwa [← hsame ht h]

end GtidSet
end Changefeed
