import Mathlib.Data.List.Basic
import Changefeed.Offset
import Changefeed.Proofs.Gtid.RoundTrip

/-!
# Reading back positions

How a text begins tells whether it is a transaction set or a place in a file.  A place is therefore
read back from its text exactly when the name of the file does not begin with white space, which
reading drops, and the text does not begin with the mark of a transaction set.  A colon follows the
name and belongs to the mark, so the text begins with the mark not only when the name does, but also
when the name is the mark without its colon.  Other colons in the name do no harm, as the number is
looked for behind the last one.

No name that was read is of that kind, so every position that was read is read back from its text.
-/

namespace Changefeed
namespace Offset

variable {o : Offset} {s : GtidSet} {cs : List Char} {filename : String} {position : UInt64}

/-! ## How a text begins -/

/-- What follows a start is the rest of a text that begins with it. -/
lemma afterStart_eq_some_iff {start rest : List Char} :
    afterStart start cs = some rest ↔ cs = start ++ rest := by
  unfold afterStart
  split
  · next h =>
    obtain ⟨t, rfl⟩ := List.isPrefixOf_iff_prefix.mp h
    simp
  · next h =>
    simp only [reduceCtorEq, false_iff]
    rintro rfl
    exact h (List.isPrefixOf_iff_prefix.mpr (List.prefix_append start rest))

lemma afterStart_eq_none_iff {start : List Char} :
    afterStart start cs = none ↔ ¬ start <+: cs := by
  simp [afterStart, List.isPrefixOf_iff_prefix]

lemma mark_prefix_binlog_iff :
    gtidMark <+: (binlog filename position).chars ↔
      gtidMark <+: filename.toList ∨ filename = "gtid" := by
  have hmark : gtidMark = "gtid".toList ++ [':'] := rfl
  rw [chars, hmark, Text.mark_prefix_append_iff (by decide), String.toList_inj]

/-! ## Names of files -/

/-- A name that the text of a place can begin with. -/
structure Placeable (filename : String) : Prop where
  unblank : ∀ c ∈ filename.toList.head?, Text.isBlank c = false
  unmarked : ¬ gtidMark <+: filename.toList
  ne_mark : filename ≠ "gtid"

instance (filename : String) : Decidable (Placeable filename) :=
  decidable_of_iff
    ((filename.toList.head?.all fun c => !Text.isBlank c) = true ∧
      ¬ gtidMark <+: filename.toList ∧ filename ≠ "gtid")
    ⟨fun h => ⟨by simpa [Option.all_eq_true] using h.1, h.2.1, h.2.2⟩,
      fun h => ⟨by simpa [Option.all_eq_true] using h.unblank, h.unmarked, h.ne_mark⟩⟩

/-- Nothing is dropped from the text of a place when the name does not begin with white space. -/
lemma Placeable.trim_chars (h : Placeable filename) :
    Text.trim (binlog filename position).chars = (binlog filename position).chars := by
  refine Text.trim_eq_self ?_ ?_
  · rw [chars]
    cases hname : filename.toList with
    | nil => simp [show Text.isBlank ':' = false by decide]
    | cons c name =>
      have hc := h.unblank
      rw [hname] at hc
      simpa using hc
  · -- the text ends with the last digit of the number
    intro c hc
    rw [chars, List.append_cons,
      List.getLast?_append_of_ne_nil _ (Text.numeral_ne_nil position.toNat)] at hc
    have hdigit := Text.digitValue_of_mem_numeral (List.mem_of_mem_getLast? hc)
    exact Text.isBlank_of_digitValue (by simp [hdigit])

lemma Placeable.parse_text (h : Placeable filename) :
    parse (binlog filename position).text = .ok (.binlog filename position) := by
  have hmark : afterStart gtidMark (binlog filename position).chars = none :=
    afterStart_eq_none_iff.mpr fun hmark =>
      (mark_prefix_binlog_iff.mp hmark).elim h.unmarked h.ne_mark
  have hcut : Text.cutLast ':' (binlog filename position).chars =
      some (filename.toList, Text.numeral position.toNat) :=
    Text.cutLast_append (Text.not_mem_numeral (by decide) position.toNat) filename.toList
  rw [parse, text, String.toList_ofList, readChars]
  simp only [h.trim_chars, hmark, hcut, Text.readWord_numeral, String.ofList_toList]

/-! ## What was read -/

/-- A position that was read is the set behind the mark, or the place around the last colon of a
text without the mark. -/
lemma readChars_cases (h : readChars cs = .ok o) :
    (∃ rest s, Text.trim cs = gtidMark ++ rest ∧ GtidSet.readChars rest = .ok s ∧ o = .gtid s) ∨
      ∃ name place n, ¬ gtidMark <+: Text.trim cs ∧
        Text.cutLast ':' (Text.trim cs) = some (name, place) ∧ Text.readWord place = some n ∧
        o = .binlog (String.ofList name) n := by
  unfold readChars at h
  dsimp only at h
  split at h
  · next rest hrest =>
    left
    cases hread : GtidSet.readChars rest with
    | error e =>
      rw [hread] at h
      cases h
    | ok s =>
      rw [hread] at h
      exact ⟨rest, s, afterStart_eq_some_iff.mp hrest, hread, (Except.ok.inj h).symm⟩
  · next hrest =>
    right
    split at h
    · cases h
    · next name place hcut =>
      split at h
      · next n hn =>
        exact ⟨name, place, n, afterStart_eq_none_iff.mp hrest, hcut, hn,
          (Except.ok.inj h).symm⟩
      · cases h

/-- The text of a place can begin with every name that was read. -/
lemma placeable_of_readChars (h : readChars cs = .ok (.binlog filename position)) :
    Placeable filename := by
  obtain ⟨rest, s, -, -, hset⟩ | ⟨name, place, n, hmark, hcut, -, hplace⟩ := readChars_cases h
  · cases hset
  · obtain ⟨rfl, rfl⟩ := Offset.binlog.inj hplace
    have htrim := Text.append_of_cutLast hcut
    have hstart : gtidMark = "gtid".toList ++ [':'] := rfl
    rw [htrim, hstart, Text.mark_prefix_append_iff (by decide), not_or] at hmark
    constructor
    · intro c hc
      refine Text.head_trim (s := cs) ?_
      rw [String.toList_ofList] at hc
      rw [htrim, List.head?_append, Option.mem_def.mp hc]
      rfl
    · rw [String.toList_ofList]
      exact hmark.1
    · intro hname
      exact hmark.2 (by rw [← hname, String.toList_ofList])

lemma exists_readChars_of_gtid (h : readChars cs = .ok (.gtid s)) :
    ∃ rest, GtidSet.readChars rest = .ok s := by
  obtain ⟨rest, t, -, hread, hset⟩ | ⟨name, place, n, -, -, -, hplace⟩ := readChars_cases h
  · obtain rfl := Offset.gtid.inj hset
    exact ⟨rest, hread⟩
  · cases hplace

/-! ## Transaction sets -/

/-- The text of a set holds no white space when the names of its sources hold none. -/
lemma trim_gtid_chars (h : ∀ e ∈ s.sources, GtidSet.Writable e.1) :
    Text.trim (gtid s).chars = (gtid s).chars := by
  have hmark : ∀ c ∈ gtidMark, Text.isBlank c = false := by
    have hall : (gtidMark.all fun c => !Text.isBlank c) = true := by decide
    simpa [List.all_eq_true] using hall
  have hblank : ∀ c ∈ (gtid s).chars, Text.isBlank c = false := by
    intro c hc
    rcases List.mem_append.mp hc with hc | hc
    · exact hmark c hc
    · rcases Text.mem_join hc with rfl | ⟨segment, hsegment, hc⟩
      · decide
      · obtain ⟨e, he, rfl⟩ := List.mem_map.mp hsegment
        exact GtidSet.isBlank_of_mem_sourceChars (h e he) hc
  exact Text.trim_eq_self (fun c hc => hblank c (List.mem_of_mem_head? hc))
    fun c hc => hblank c (List.mem_of_mem_getLast? hc)

/-- The position of a set in normal form is read back from its text exactly when the sources of the
set can stand in one. -/
lemma parse_gtid_text_iff (hs : s.Normal) :
    parse (gtid s).text = .ok (.gtid s) ↔ ∀ e ∈ s.sources, GtidSet.Writable e.1 := by
  constructor
  · intro h e he
    obtain ⟨rest, hread⟩ := exists_readChars_of_gtid h
    exact GtidSet.writable_of_readChars hread he
  · intro h
    have hread : GtidSet.readChars s.chars = .ok s := by
      have hparse := GtidSet.parse_text hs h
      rwa [GtidSet.parse, GtidSet.text, String.toList_ofList] at hparse
    have hrest : afterStart gtidMark (gtid s).chars = some s.chars :=
      afterStart_eq_some_iff.mpr rfl
    rw [parse, text, String.toList_ofList, readChars]
    simp only [trim_gtid_chars h, hrest, hread, Except.map]

/-! ## Reading back -/

/-- A position that was read is read back from its text.  So is a place exactly when the text can
begin with the name of the file, and a set that was built exactly when the names of its sources are
not empty and hold neither white space nor commas nor colons. -/
theorem text_gives_position_back :
    (∀ {text : String} {o : Offset}, parse text = .ok o → parse o.text = .ok o) ∧
    (∀ (filename : String) (position : UInt64),
      parse (binlog filename position).text = .ok (.binlog filename position) ↔
        Placeable filename) ∧
    ∀ {s : GtidSet}, s.Built →
      (parse (gtid s).text = .ok (.gtid s) ↔
        ∀ source ∈ s.sourceIds, GtidSet.Writable source) := by
  refine ⟨?_, fun filename position => ⟨placeable_of_readChars, Placeable.parse_text⟩, ?_⟩
  · intro text o h
    cases o with
    | binlog filename position => exact (placeable_of_readChars h).parse_text
    | gtid s =>
      obtain ⟨rest, hread⟩ := exists_readChars_of_gtid h
      obtain ⟨hnormal, -⟩ := GtidSet.normal_readChars hread
      exact (parse_gtid_text_iff hnormal).mpr fun e he => GtidSet.writable_of_readChars hread he
  · intro s hs
    rw [parse_gtid_text_iff hs.normal, GtidSet.sourceIds, SortedMap.keys, List.forall_mem_map]

/-- Texts that are not as they would be written, a name with colons and the mark inside, no name, a
name behind a blank, and a set with all transactions of one source. -/
theorem text_gives_position_back_colons :
    let file : Offset := .binlog "log:000001" 7
    let joined : Offset := .gtid ⟨[("a", [⟨3, 5⟩])]⟩
    let marked : Offset := .binlog "log:gtid:" 18446744073709551615
    let whole := GtidSet.empty.add "B" ⟨0, Interval.maxTxn⟩
    parse " log:000001:+007 " = .ok file ∧ parse file.text = .ok file ∧
      parse "gtid: a:5,, a : +3-4" = .ok joined ∧ parse joined.text = .ok joined ∧
      parse marked.text = .ok marked ∧ parse (binlog "" 9).text = .ok (.binlog "" 9) ∧
      ¬ Placeable " log" ∧ parse (binlog " log" 4).text ≠ .ok (.binlog " log" 4) ∧
      whole.Built ∧ parse (gtid whole).text = .ok (.gtid whole) := by
  intro file joined marked whole
  obtain ⟨hread, hplace, hset⟩ := text_gives_position_back
  have hfile : parse " log:000001:+007 " = .ok file := by decide +kernel
  have hjoined : parse "gtid: a:5,, a : +3-4" = .ok joined := by decide +kernel
  have hblank : ¬ Placeable " log" := by decide +kernel
  have hwhole : whole.Built := .add .empty "B" (Interval.make_of_le (by decide))
  exact ⟨hfile, hread hfile, hjoined, hread hjoined,
    (hplace "log:gtid:" 18446744073709551615).mpr (by decide +kernel),
    (hplace "" 9).mpr (by decide +kernel),
    hblank, fun h => hblank ((hplace " log" 4).mp h),
    hwhole, (hset hwhole).mpr (by decide +kernel)⟩

/-- A file whose name begins neither with white space nor with the mark of a transaction set, and
whose place is taken for a set all the same. -/
theorem place_taken_for_set :
    (∀ c ∈ "gtid".toList.head?, Text.isBlank c = false) ∧ ¬ gtidMark <+: "gtid".toList ∧
      (binlog "gtid" 100).text = "gtid:100" ∧
      parse (binlog "gtid" 100).text = .error (.config (.segmentWithoutIntervals "100")) := by
  refine ⟨?_, by decide +kernel, by decide +kernel, by decide +kernel⟩
  rintro c ⟨⟩
  decide

end Offset
end Changefeed
