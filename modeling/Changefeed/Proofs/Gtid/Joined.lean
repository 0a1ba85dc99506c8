import Changefeed.Proofs.Gtid.Reading

/-!
# Texts put together

Of a text nothing matters but which segments it has, and of a segment nothing but its source and
which intervals it has.  A text made of two others with a comma between them is therefore read when
both are, as the union of what they are read as.  The order of the segments, how often they stand
there and how the intervals of a source are spread over them leave no trace, and neither do white
space and the case of letters.  One segment that cannot be read makes the whole text unreadable.

Which fault a text is refused with does depend on the order of its segments, as reading stops at the
first one, and it names a segment in the case in which it was written.  White space does not even
change the fault.
-/

namespace Changefeed

lemma Interval.ofChars?_map_toLower (part : List Char) :
    ofChars? (part.map Char.toLower) = ofChars? part := by
  unfold ofChars?
  rw [Text.cutFirst_map fun c => Text.toLower_eq_iff (by decide)]
  cases Text.cutFirst '-' part with
  | none => simp only [Option.map_none, Text.readWord_map_toLower]
  | some ends => simp only [Option.map_some, Text.readWord_map_toLower]

namespace GtidSet

variable {s : GtidSet} {cs cs' piece segment : List Char} {name : String} {txn : UInt64}

/-! ## Commas -/

lemma segments_comma (cs cs' : List Char) :
    segments (cs ++ ',' :: cs') = segments cs ++ segments cs' := by
  rw [segments, Text.pieces_append_cons, List.map_append, List.filter_append, segments, segments]

/-- What two texts with a comma between them are read as. -/
lemma readChars_comma :
    readChars (cs ++ ',' :: cs') = .ok s ↔
      ∃ s₁ s₂, readChars cs = .ok s₁ ∧ readChars cs' = .ok s₂ ∧ s = s₁.union s₂ := by
  have hunion : ∀ {t s₁ s₂}, readChars (cs ++ ',' :: cs') = .ok t → readChars cs = .ok s₁ →
      readChars cs' = .ok s₂ → t = s₁.union s₂ := by
    intro t s₁ s₂ ht h₁ h₂
    obtain ⟨hnormal, hcontains⟩ := normal_readChars ht
    obtain ⟨hnormal₁, hcontains₁⟩ := normal_readChars h₁
    obtain ⟨hnormal₂, hcontains₂⟩ := normal_readChars h₂
    refine hnormal.ext (hnormal₁.union hnormal₂) fun source txn => ?_
    rw [contains_union hnormal₁ hnormal₂, hcontains, hcontains₁, hcontains₂, segments_comma]
    simp [or_and_right, exists_or]
  have hboth : (∃ t, readChars (cs ++ ',' :: cs') = .ok t) ↔
      (∃ s₁, readChars cs = .ok s₁) ∧ ∃ s₂, readChars cs' = .ok s₂ := by
    simp only [exists_readChars_iff, segments_comma, List.forall_mem_append]
  constructor
  · intro h
    obtain ⟨⟨s₁, h₁⟩, s₂, h₂⟩ := hboth.mp ⟨s, h⟩
    exact ⟨s₁, s₂, h₁, h₂, hunion h h₁ h₂⟩
  · rintro ⟨s₁, s₂, h₁, h₂, rfl⟩
    obtain ⟨t, ht⟩ := hboth.mpr ⟨⟨s₁, h₁⟩, s₂, h₂⟩
    rwa [← hunion ht h₁ h₂]

lemma readChars_of_pieces
    (h : ∀ piece, piece ∈ Text.pieces ',' cs ↔ piece ∈ Text.pieces ',' cs') :
    readChars cs = .ok s ↔ readChars cs' = .ok s := by
  have hsegments : ∀ segment, segment ∈ segments cs ↔ segment ∈ segments cs' := fun segment => by
    simp only [mem_segments_iff, h]
  exact readChars_congr (by simp only [hsegments]) fun source txn => by simp only [hsegments]

lemma mem_segments_piece (h : ',' ∉ piece) :
    segment ∈ segments piece ↔ Text.squeeze piece = segment ∧ segment ≠ [] := by
  rw [mem_segments_iff, Text.pieces_of_not_mem h]
  simp

/-- A text can be read exactly when each piece between its commas can. -/
lemma exists_readChars_iff_pieces :
    (∃ s, readChars cs = .ok s) ↔
      ∀ piece ∈ Text.pieces ',' cs, ∃ s, readChars piece = .ok s := by
  rw [exists_readChars_iff]
  constructor
  · intro h piece hpiece
    rw [exists_readChars_iff]
    intro segment hsegment
    rw [mem_segments_piece (Text.not_mem_of_mem_pieces hpiece)] at hsegment
    exact h segment (mem_segments_iff.mpr ⟨⟨piece, hpiece, hsegment.1⟩, hsegment.2⟩)
  · intro h segment hsegment
    obtain ⟨⟨piece, hpiece, hsqueeze⟩, hne⟩ := mem_segments_iff.mp hsegment
    refine exists_readChars_iff.mp (h piece hpiece) segment ?_
    exact (mem_segments_piece (Text.not_mem_of_mem_pieces hpiece)).mpr ⟨hsqueeze, hne⟩

/-! ## Intervals of one source -/

/-- Segments that each name the source and have one of the groups of intervals. -/
def listing (source : List Char) (groups : List (List (List Char))) : List Char :=
  Text.join ',' (groups.map fun parts => source ++ parts.flatMap (':' :: ·))

/-- The source and the intervals hold none of the signs that part them, and no group is empty. -/
structure Listable (source : List Char) (groups : List (List (List Char))) : Prop where
  source : ',' ∉ source ∧ ':' ∉ source
  parts : ∀ parts ∈ groups, parts ≠ [] ∧ ∀ part ∈ parts, ',' ∉ part ∧ ':' ∉ part

lemma cut_segment {source : List Char} {parts : List (List Char)} (hsource : ':' ∉ source)
    (hparts : ∀ part ∈ parts, ':' ∉ part) :
    sourceOf (Text.squeeze (source ++ parts.flatMap (':' :: ·))) = Text.squeeze source ∧
      partsOf (Text.squeeze (source ++ parts.flatMap (':' :: ·))) = parts.map Text.squeeze := by
  rw [sourceOf, partsOf, Text.pieces_squeeze (by decide), Text.pieces_flatMap hsource hparts]
  exact ⟨rfl, rfl⟩

section Listable

variable {source : List Char} {groups groups' : List (List (List Char))}

/-- Each group makes one segment. -/
lemma Listable.mem_segments_iff (h : Listable source groups) :
    segment ∈ segments (listing source groups) ↔
      ∃ parts ∈ groups, Text.squeeze (source ++ parts.flatMap (':' :: ·)) = segment := by
  cases hgroups : groups with
  | nil => simp [listing, segments, Text.join, Text.pieces, Text.squeeze]
  | cons first rest =>
    rw [← hgroups]
    have hcomma : ∀ piece ∈ groups.map fun parts => source ++ parts.flatMap (':' :: ·),
        ',' ∉ piece := by
      intro piece hpiece
      obtain ⟨parts, hparts, rfl⟩ := List.mem_map.mp hpiece
      have hpart := (h.parts parts hparts).2
      simp only [List.mem_append, List.mem_flatMap, List.mem_cons, not_or]
      refine ⟨h.source.1, ?_⟩
      rintro ⟨part, hmem, hc | hc⟩
      · cases hc
      · exact (hpart part hmem).1 hc
    have hne : ∀ parts ∈ groups, Text.squeeze (source ++ parts.flatMap (':' :: ·)) ≠ [] := by
      intro parts hparts hnil
      obtain ⟨hparts, hpart⟩ := h.parts parts hparts
      have hcut := (cut_segment h.source.2 fun part hmem => (hpart part hmem).2).2
      rw [hnil] at hcut
      exact hparts (List.map_eq_nil_iff.mp hcut.symm)
    rw [GtidSet.mem_segments_iff, listing, Text.pieces_join (by simp [hgroups]) hcomma]
    simp only [List.mem_map, exists_exists_and_eq_and]
    constructor
    · rintro ⟨hsegment, -⟩
      exact hsegment
    · rintro ⟨parts, hparts, rfl⟩
      exact ⟨⟨parts, hparts, rfl⟩, hne parts hparts⟩

/-- The segments of a source can be read when each of its intervals can. -/
lemma Listable.readable_iff (h : Listable source groups) :
    (∀ segment ∈ segments (listing source groups), Readable segment) ↔
      ∀ part ∈ groups.flatten, Text.squeeze source ≠ [] ∧
        (Interval.ofChars? (Text.squeeze part)).isSome := by
  have hgroup : ∀ parts ∈ groups,
      (Readable (Text.squeeze (source ++ parts.flatMap (':' :: ·))) ↔
        ∀ part ∈ parts, Text.squeeze source ≠ [] ∧
          (Interval.ofChars? (Text.squeeze part)).isSome) := by
    intro parts hparts
    obtain ⟨hne, hpart⟩ := h.parts parts hparts
    obtain ⟨hsource, hcut⟩ := cut_segment h.source.2 fun part hmem => (hpart part hmem).2
    obtain ⟨part, hmem⟩ := List.exists_mem_of_ne_nil parts hne
    rw [GtidSet.readable_iff, hsource, hcut, List.forall_mem_map]
    constructor
    · rintro ⟨hname, -, hread⟩ part hmem
      exact ⟨hname, hread part hmem⟩
    · intro hread
      exact ⟨(hread part hmem).1, by simpa using hne, fun part hmem => (hread part hmem).2⟩
  constructor
  · intro hread part hmem
    obtain ⟨parts, hparts, hmem⟩ := List.mem_flatten.mp hmem
    exact (hgroup parts hparts).mp (hread _ (h.mem_segments_iff.mpr ⟨parts, hparts, rfl⟩)) part hmem
  · intro hread segment hsegment
    obtain ⟨parts, hparts, rfl⟩ := h.mem_segments_iff.mp hsegment
    exact (hgroup parts hparts).mpr fun part hmem =>
      hread part (List.mem_flatten.mpr ⟨parts, hparts, hmem⟩)

/-- The segments of a source list what its intervals do. -/
lemma Listable.lists_iff (h : Listable source groups) :
    (∃ segment ∈ segments (listing source groups), Lists segment name txn) ↔
      ∃ part ∈ groups.flatten,
        PartLists (String.ofList (Text.squeeze source)) (Text.squeeze part) name txn := by
  have hgroup : ∀ parts ∈ groups,
      (Lists (Text.squeeze (source ++ parts.flatMap (':' :: ·))) name txn ↔
        ∃ part ∈ parts,
          PartLists (String.ofList (Text.squeeze source)) (Text.squeeze part) name txn) := by
    intro parts hparts
    obtain ⟨-, hpart⟩ := h.parts parts hparts
    obtain ⟨hsource, hcut⟩ := cut_segment h.source.2 fun part hmem => (hpart part hmem).2
    rw [Lists, hsource, hcut]
    simp only [List.mem_map, exists_exists_and_eq_and]
  constructor
  · rintro ⟨segment, hsegment, hlists⟩
    obtain ⟨parts, hparts, rfl⟩ := h.mem_segments_iff.mp hsegment
    obtain ⟨part, hmem, hlists⟩ := (hgroup parts hparts).mp hlists
    exact ⟨part, List.mem_flatten.mpr ⟨parts, hparts, hmem⟩, hlists⟩
  · rintro ⟨part, hmem, hlists⟩
    obtain ⟨parts, hparts, hmem⟩ := List.mem_flatten.mp hmem
    exact ⟨_, h.mem_segments_iff.mpr ⟨parts, hparts, rfl⟩,
      (hgroup parts hparts).mpr ⟨part, hmem, hlists⟩⟩

lemma readChars_listing (h : Listable source groups) (h' : Listable source groups')
    (hparts : ∀ part, part ∈ groups.flatten ↔ part ∈ groups'.flatten) :
    readChars (listing source groups) = .ok s ↔ readChars (listing source groups') = .ok s := by
  refine readChars_congr ?_ fun name txn => ?_
  · simp only [h.readable_iff, h'.readable_iff, hparts]
  · simp only [h.lists_iff, h'.lists_iff, hparts]

end Listable

/-! ## White space -/

lemma readChars_squeeze (cs : List Char) : readChars (Text.squeeze cs) = readChars cs := by
  have hsegments : segments (Text.squeeze cs) = segments cs := by
    have htwice : Text.squeeze ∘ Text.squeeze = Text.squeeze := funext Text.squeeze_squeeze
    rw [segments, Text.pieces_squeeze (by decide), List.map_map, htwice, segments]
  rw [readChars_eq_foldlM, hsegments, readChars_eq_foldlM]

/-! ## Letters -/

lemma sourceName_ofList (cs : List Char) :
    sourceName (String.ofList cs) = String.ofList (cs.map Char.toLower) := by
  rw [← String.toList_inj, sourceName, String.toList_map, String.toList_ofList,
    String.toList_ofList]

lemma parts_map_toLower (segment : List Char) :
    sourceOf (segment.map Char.toLower) = (sourceOf segment).map Char.toLower ∧
      partsOf (segment.map Char.toLower) = (partsOf segment).map (List.map Char.toLower) := by
  rw [sourceOf, partsOf, sourceOf, partsOf,
    Text.pieces_map fun c => Text.toLower_eq_iff (by decide)]
  cases Text.pieces ':' segment <;> exact ⟨rfl, rfl⟩

lemma readable_map_toLower : Readable (segment.map Char.toLower) ↔ Readable segment := by
  obtain ⟨hsource, hparts⟩ := parts_map_toLower segment
  rw [readable_iff, readable_iff, hsource, hparts, List.forall_mem_map]
  simp only [ne_eq, List.map_eq_nil_iff, Interval.ofChars?_map_toLower]

lemma lists_map_toLower : Lists (segment.map Char.toLower) name txn ↔ Lists segment name txn := by
  obtain ⟨hsource, hparts⟩ := parts_map_toLower segment
  rw [Lists, Lists, hsource, hparts, ← sourceName_ofList]
  simp only [List.mem_map, exists_exists_and_eq_and, PartLists, sourceName_sourceName,
    Interval.ofChars?_map_toLower]

lemma segments_map_toLower (cs : List Char) :
    segments (cs.map Char.toLower) = (segments cs).map (List.map Char.toLower) := by
  have hsqueeze : Text.squeeze ∘ List.map Char.toLower = List.map Char.toLower ∘ Text.squeeze := by
    funext s
    simp only [Function.comp_apply, Text.squeeze, List.filter_map]
    congr 1
    exact List.filter_congr fun c _ => by simp
  have hempty : ((fun segment : List Char => decide (segment ≠ [])) ∘ List.map Char.toLower) =
      fun segment => decide (segment ≠ []) := by
    funext segment
    simp
  rw [segments, Text.pieces_map fun c => Text.toLower_eq_iff (by decide), List.map_map, hsqueeze,
    ← List.map_map, List.filter_map, hempty, segments]

lemma readChars_map_toLower :
    readChars (cs.map Char.toLower) = .ok s ↔ readChars cs = .ok s := by
  refine readChars_congr ?_ fun name txn => ?_
  · simp only [segments_map_toLower, List.forall_mem_map, readable_map_toLower]
  · simp only [segments_map_toLower, List.mem_map, exists_exists_and_eq_and, lists_map_toLower]

/-! ## Whole texts -/

/-- A reader of transaction sets to which nothing matters but the segments of a text, and of a
segment nothing but its source and its intervals. -/
structure Additive (read : String → Outcome GtidSet) : Prop where
  /-- Two texts with a comma between them are read when both are, as the union. -/
  joined : ∀ {t₁ t₂ : String} {s : GtidSet},
    read (t₁ ++ "," ++ t₂) = .ok s ↔
      ∃ s₁ s₂, read t₁ = .ok s₁ ∧ read t₂ = .ok s₂ ∧ s = s₁.union s₂
  /-- Segments may stand in any order, and any number of times. -/
  arranged : ∀ {t t' : String},
    (∀ piece, piece ∈ Text.pieces ',' t.toList ↔ piece ∈ Text.pieces ',' t'.toList) →
      ∀ {s}, read t = .ok s ↔ read t' = .ok s
  /-- The intervals of a source may be spread over its segments in any way. -/
  spread : ∀ {source : List Char} {groups groups' : List (List (List Char))},
    Listable source groups → Listable source groups' →
      (∀ part, part ∈ groups.flatten ↔ part ∈ groups'.flatten) →
        ∀ {s}, read (String.ofList (listing source groups)) = .ok s ↔
          read (String.ofList (listing source groups')) = .ok s
  /-- White space may stand anywhere. -/
  spaced : ∀ {t t' : String}, Text.squeeze t.toList = Text.squeeze t'.toList → read t = read t'
  /-- Letters may be in either case. -/
  cased : ∀ {t t' : String}, t.map Char.toLower = t'.map Char.toLower →
    ∀ {s}, read t = .ok s ↔ read t' = .ok s
  /-- One segment that cannot be read makes the text unreadable. -/
  whole : ∀ {t : String}, (∃ s, read t = .ok s) ↔
    ∀ piece ∈ Text.pieces ',' t.toList, ∃ s, read (String.ofList piece) = .ok s

/-- Reading a text of a transaction set depends on nothing but its segments, and what two texts are
read as is united when they are put together. -/
theorem additive_parse : Additive parse where
  joined {t₁ t₂ s} := by
    have hcomma : (t₁ ++ "," ++ t₂).toList = t₁.toList ++ ',' :: t₂.toList := by simp
    rw [parse, hcomma]
    exact readChars_comma
  arranged {_ _} h {_} := readChars_of_pieces h
  spread {_ _ _} h h' hparts {_} := by
    rw [parse, parse, String.toList_ofList, String.toList_ofList]
    exact readChars_listing h h' hparts
  spaced {t t'} h := by rw [parse, parse, ← readChars_squeeze, h, readChars_squeeze]
  cased {t t'} h {_} := by
    have hlower : t.toList.map Char.toLower = t'.toList.map Char.toLower := by
      rw [← String.toList_map, h, String.toList_map]
    rw [parse, parse, ← readChars_map_toLower, hlower, readChars_map_toLower]
  whole {t} := by
    simp only [parse, String.toList_ofList]
    exact exists_readChars_iff_pieces

/-- Two texts with blanks, letters in both cases and an empty segment, whose intervals meet when
they are put together. -/
theorem additive_parse_tangled :
    let s₁ : GtidSet := ⟨[("a", [⟨3, 3⟩]), ("b", [⟨1, 2⟩])]⟩
    let s₂ : GtidSet := ⟨[("a", [⟨4, 4⟩]), ("b", [⟨2, 5⟩])]⟩
    parse " B:1-2 , a : 3" = .ok s₁ ∧ parse "b:2-5,,A:4" = .ok s₂ ∧
      s₁.union s₂ = ⟨[("a", [⟨3, 4⟩]), ("b", [⟨1, 5⟩])]⟩ ∧
      parse (" B:1-2 , a : 3" ++ "," ++ "b:2-5,,A:4") = .ok (s₁.union s₂) := by
  intro s₁ s₂
  have h₁ : parse " B:1-2 , a : 3" = .ok s₁ := by decide +kernel
  have h₂ : parse "b:2-5,,A:4" = .ok s₂ := by decide +kernel
  exact ⟨h₁, h₂, by decide +kernel, additive_parse.joined.mpr ⟨s₁, s₂, h₁, h₂, rfl⟩⟩

end GtidSet
end Changefeed
