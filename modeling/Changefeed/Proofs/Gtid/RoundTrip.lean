import Changefeed.Proofs.Gtid.Reading
import Changefeed.Proofs.Gtid.Text

/-!
# Which sets are read back

The text of a set gives the set back exactly when the names of its sources can stand in a text.
That they can is enough, as writing then makes the segments that reading looks for.  It is also
needed: a name that was read is what stands between white space, commas and colons, so no text is
read as a set with another name in it.

Every set that was read has only such names, and is therefore read back from its own text, in
whatever form it was written at first.
-/

namespace Changefeed
namespace GtidSet

variable {s : GtidSet} {cs segment : List Char} {source : String}

/-! ## Names -/

/-- A name that can stand in a text can do so in lower case. -/
lemma Writable.sourceName (h : Writable source) : Writable (sourceName source) where
  ne_empty hempty := by
    have hnil : source.toList.map Char.toLower = [] := by
      rw [← String.toList_map, ← GtidSet.sourceName, hempty]
      rfl
    exact h.ne_empty (by simpa using hnil)
  clear c hc := by
    rw [GtidSet.sourceName, String.toList_map] at hc
    obtain ⟨d, hd, rfl⟩ := List.mem_map.mp hc
    obtain ⟨hcomma, hcolon, hblank⟩ := h.clear d hd
    rw [ne_eq, ne_eq, Text.toLower_eq_iff (by decide), Text.toLower_eq_iff (by decide),
      Text.isBlank_toLower]
    exact ⟨hcomma, hcolon, hblank⟩

/-- What stands in front of the first colon of a segment holds neither of the signs, nor white
space. -/
lemma writable_sourceOf (hsegment : segment ∈ segments cs) (hsource : sourceOf segment ≠ []) :
    Writable (String.ofList (sourceOf segment)) where
  ne_empty hempty := by
    have hnil := congrArg String.toList hempty
    rw [String.toList_ofList] at hnil
    exact hsource hnil
  clear c hc := by
    rw [String.toList_ofList] at hc
    have hfirst : sourceOf segment ∈ Text.pieces ':' segment := by
      rw [sourceOf]
      cases hpieces : Text.pieces ':' segment with
      | nil => exact absurd hpieces (Text.pieces_ne_nil ':' segment)
      | cons source parts => exact .head parts
    obtain ⟨hc, hcolon⟩ := Text.mem_of_mem_pieces hfirst hc
    obtain ⟨⟨piece, hpiece, rfl⟩, -⟩ := mem_segments_iff.mp hsegment
    obtain ⟨hc, hblank⟩ := List.mem_filter.mp hc
    exact ⟨(Text.mem_of_mem_pieces hpiece hc).2, hcolon, by simpa using hblank⟩

/-- Every name of a set that was read can stand in a text. -/
lemma writable_of_readChars (h : readChars cs = .ok s) {e : String × List Interval}
    (he : e ∈ s.sources) : Writable e.1 := by
  obtain ⟨hnormal, hcontains⟩ := normal_readChars h
  -- the name comes from a segment that lists a transaction of it
  obtain ⟨i, hi⟩ := List.exists_mem_of_ne_nil e.2 (hnormal.nonempty e he)
  have hmem : s.contains e.1 i.first = true := by
    rw [contains_iff, hnormal.intervals_of_mem he]
    exact (hnormal.coalesced e he).holds_first hi
  obtain ⟨segment, hsegment, part, -, hname, -⟩ := (hcontains e.1 i.first).mp hmem
  have hread := exists_readChars_iff.mp ⟨s, h⟩ segment hsegment
  rw [← hnormal.lowerCase e he, hname]
  exact (writable_sourceOf hsegment hread.source).sourceName

/-! ## Reading back -/

lemma Normal.parse_text_iff (hs : Normal s) :
    GtidSet.parse s.text = .ok s ↔ ∀ e ∈ s.sources, Writable e.1 :=
  ⟨fun h _ he => writable_of_readChars h he, parse_text hs⟩

/-- A set that was read is read back from its text, and a set that was built is so exactly when the
names of its sources are not empty and hold neither white space nor commas nor colons. -/
theorem text_gives_back :
    (∀ {text : String} {s : GtidSet}, parse text = .ok s → parse s.text = .ok s) ∧
      ∀ {s : GtidSet}, Built s →
        (parse s.text = .ok s ↔ ∀ source ∈ s.sourceIds, Writable source) := by
  constructor
  · intro text s h
    exact (Normal.parse h).parse_text_iff.mpr fun e he => writable_of_readChars h he
  · intro s hs
    rw [hs.normal.parse_text_iff, sourceIds, SortedMap.keys, List.forall_mem_map]

/-- A text that is not as it would be written, a set with all transactions of one source, and a set
whose source has a comma in its name. -/
theorem text_gives_back_whole :
    let joined : GtidSet := ⟨[("a", [⟨1, 5⟩])]⟩
    let whole := (empty.add "B" ⟨0, Interval.maxTxn⟩).add "a" ⟨7, 7⟩
    let parted := empty.add "a,b" ⟨1, 1⟩
    parse " A:5:1-4,,a : +2" = .ok joined ∧ parse joined.text = .ok joined ∧
      Built whole ∧ (∀ source ∈ whole.sourceIds, Writable source) ∧ parse whole.text = .ok whole ∧
      Built parted ∧ ¬ Writable "a,b" ∧ parse parted.text ≠ .ok parted := by
  intro joined whole parted
  have hjoined : parse " A:5:1-4,,a : +2" = .ok joined := by decide +kernel
  have hwhole : Built whole :=
    .add (.add .empty "B" (Interval.make_of_le (by decide))) "a" (Interval.make_of_le (by decide))
  have hnames : ∀ source ∈ whole.sourceIds, Writable source := by decide +kernel
  have hparted : Built parted := .add .empty "a,b" (Interval.make_of_le (by decide))
  have hname : ¬ Writable "a,b" := by decide
  refine ⟨hjoined, text_gives_back.1 hjoined, hwhole, hnames,
    (text_gives_back.2 hwhole).mpr hnames, hparted, hname, fun h => ?_⟩
  exact hname ((text_gives_back.2 hparted).mp h "a,b" (by decide +kernel))

end GtidSet
end Changefeed
