import Changefeed.Proofs.Json.Scalars

/-!
# Reading back documents

A document that holds no double is read back from its text, and from the bytes of its text, as it
was written, apart from integers that do not fit: those come back as whatever their literal stands
for.
-/

namespace Changefeed
namespace Json

open Text (Raw)

namespace Doc

mutual

/-- All numbers of the document are integers, and everything in it is readable. -/
def plain : Doc → Bool
  | .null => true
  | .bool _ => true
  | .number (some (.int _)) => true
  | .number _ => false
  | .string s => s.isSome
  | .array items => plainItems items
  | .object fields => plainFields fields

/-- All items are plain. -/
def plainItems : List Doc → Bool
  | [] => true
  | d :: ds => plain d && plainItems ds

/-- All fields have readable names and plain values. -/
def plainFields : List (Option String × Doc) → Bool
  | [] => true
  | (name, d) :: rest => name.isSome && (plain d && plainFields rest)

end

mutual

/-- The document with every integer as it is read. -/
def reread : Doc → Doc
  | .number (some (.int n)) => .number (Literal.value? (Literal.ofInt n))
  | .array items => .array (rereadItems items)
  | .object fields => .object (rereadFields fields)
  | d => d

/-- The items as they are read. -/
def rereadItems : List Doc → List Doc
  | [] => []
  | d :: ds => reread d :: rereadItems ds

/-- The fields as they are read. -/
def rereadFields : List (Option String × Doc) → List (Option String × Doc)
  | [] => []
  | (name, d) :: rest => (name, reread d) :: rereadFields rest

end

end Doc

/-! ## Layouts -/

/-- How a text sets the parts of a document apart. -/
structure Layout where
  /-- What stands in front of every part of a container, by the depth of the parts, and in front of
  its end. -/
  gap : Nat → List Char
  /-- What stands behind the colon of a field. -/
  colon : List Char

namespace Layout

/-- Nothing stands between the parts. -/
def compact : Layout := ⟨fun _ => [], []⟩

/-- Every part stands on a line of its own. -/
def indented : Layout := ⟨Doc.newline, [' ']⟩

/-- What stands between the parts is skipped in reading. -/
structure Blank (l : Layout) : Prop where
  gap : ∀ depth, ∀ c ∈ l.gap depth, Reader.isSeparator (some c) = true
  colon : ∀ c ∈ l.colon, Reader.isSeparator (some c) = true

@[simp] theorem gap_compact (depth : Nat) : compact.gap depth = [] := rfl

@[simp] theorem colon_compact : compact.colon = [] := rfl

@[simp] theorem gap_indented (depth : Nat) : indented.gap depth = Doc.newline depth := rfl

@[simp] theorem colon_indented : indented.colon = [' '] := rfl

lemma blank_compact : compact.Blank :=
  ⟨fun _ _ hc => absurd hc List.not_mem_nil, fun _ hc => absurd hc List.not_mem_nil⟩

lemma blank_indented : indented.Blank where
  gap := fun depth c hc => by
    rcases List.mem_cons.mp hc with rfl | hc
    · rfl
    · rw [List.eq_of_mem_replicate hc]
      rfl
  colon := fun c hc => by
    rw [List.mem_singleton.mp hc]
    rfl

end Layout

namespace Doc

variable (l : Layout)

mutual

/-- The document in a layout; `depth` is that of the document. -/
def laidChars (depth : Nat) : Doc → List Char
  | .null => nullText
  | .bool b => boolText b
  | .number n => n.elim nullText Number.text
  | .string s => s.elim nullText quoted
  | .array [] => ['[', ']']
  | .array (d :: ds) =>
    '[' :: (l.gap (depth + 1) ++ (laidChars (depth + 1) d ++ laidItems (depth + 1) ds)
      ++ (l.gap depth ++ [']']))
  | .object [] => ['\x7b', '\x7d']
  | .object ((name, d) :: rest) =>
    '\x7b' :: (l.gap (depth + 1) ++ (name.elim nullText quoted ++ ':' :: (l.colon
      ++ (laidChars (depth + 1) d ++ laidFields (depth + 1) rest)))
      ++ (l.gap depth ++ ['\x7d']))

/-- The items after the first one, each behind a comma. -/
def laidItems (depth : Nat) : List Doc → List Char
  | [] => []
  | d :: ds => ',' :: (l.gap depth ++ (laidChars depth d ++ laidItems depth ds))

/-- The fields after the first one, each behind a comma. -/
def laidFields (depth : Nat) : List (Option String × Doc) → List Char
  | [] => []
  | (name, d) :: rest =>
    ',' :: (l.gap depth ++ (name.elim nullText quoted ++ ':' :: (l.colon
      ++ (laidChars depth d ++ laidFields depth rest))))

end

mutual

/-- Without blanks a document is laid out compactly. -/
lemma laidChars_compact (depth : Nat) (d : Doc) :
    laidChars .compact depth d = compactChars d := by
  match d with
  | .null => rfl
  | .bool b => rfl
  | .number n => rfl
  | .string s => rfl
  | .array [] => rfl
  | .array (d :: ds) =>
    simp [laidChars, compactChars, compactItems, laidChars_compact (depth + 1) d,
      laidItems_compact (depth + 1) ds]
  | .object [] => rfl
  | .object ((name, d) :: rest) =>
    simp [laidChars, compactChars, compactFields, laidChars_compact (depth + 1) d,
      laidFields_compact (depth + 1) rest]

lemma laidItems_compact (depth : Nat) (ds : List Doc) :
    laidItems .compact depth ds = compactItemsTail ds := by
  match ds with
  | [] => rfl
  | d :: ds =>
    simp [laidItems, compactItemsTail, laidChars_compact depth d, laidItems_compact depth ds]

lemma laidFields_compact (depth : Nat) (fs : List (Option String × Doc)) :
    laidFields .compact depth fs = compactFieldsTail fs := by
  match fs with
  | [] => rfl
  | (name, d) :: rest =>
    simp [laidFields, compactFieldsTail, laidChars_compact depth d,
      laidFields_compact depth rest]

end

mutual

/-- With a line for each part a document is laid out indented. -/
lemma laidChars_indented (depth : Nat) (d : Doc) :
    laidChars .indented depth d = indentedChars depth d := by
  match d with
  | .null => rfl
  | .bool b => rfl
  | .number n => rfl
  | .string s => rfl
  | .array [] => rfl
  | .array (d :: ds) =>
    simp [laidChars, indentedChars, laidChars_indented (depth + 1) d,
      laidItems_indented (depth + 1) ds]
  | .object [] => rfl
  | .object ((name, d) :: rest) =>
    simp [laidChars, indentedChars, laidChars_indented (depth + 1) d,
      laidFields_indented (depth + 1) rest]

lemma laidItems_indented (depth : Nat) (ds : List Doc) :
    laidItems .indented depth ds = indentedItems depth ds := by
  match ds with
  | [] => rfl
  | d :: ds =>
    simp [laidItems, indentedItems, laidChars_indented depth d, laidItems_indented depth ds]

lemma laidFields_indented (depth : Nat) (fs : List (Option String × Doc)) :
    laidFields .indented depth fs = indentedFields depth fs := by
  match fs with
  | [] => rfl
  | (name, d) :: rest =>
    simp [laidFields, indentedFields, laidChars_indented depth d, laidFields_indented depth rest]

end

end Doc

namespace Reader

open Doc (laidChars laidItems laidFields reread rereadItems rereadFields plain plainItems
  plainFields)

/-! ## Blanks -/

lemma skipBlanks_cons {c : Option Char} {rest : Raw} (h : isSeparator c = false) :
    skipBlanks (c :: rest) = c :: rest := by
  rw [skipBlanks, List.dropWhile_cons_of_neg (by simp [h])]

section

variable {b : List Char} (hb : ∀ c ∈ b, isSeparator (some c) = true)

include hb

lemma skipBlanks_append (s : Raw) : skipBlanks (b.map some ++ s) = skipBlanks s := by
  refine List.dropWhile_append_of_pos fun c hc => ?_
  obtain ⟨d, hd, rfl⟩ := List.mem_map.mp hc
  exact hb d hd

lemma value_append (n : Nat) (s : Raw) : value n (b.map some ++ s) = value n s := by
  cases n with
  | zero => rfl
  | succ n => rw [value, value, skipBlanks_append hb]

lemma items_append (n : Nat) (s : Raw) : items n (b.map some ++ s) = items n s := by
  cases n with
  | zero => rfl
  | succ n => rw [items, items, value_append hb]

lemma fields_append (n : Nat) (s : Raw) : fields n (b.map some ++ s) = fields n s := by
  cases n with
  | zero => rfl
  | succ n => rw [fields, fields, skipBlanks_append hb]

/-- What ends a number does so behind separators, which end it as well. -/
lemma ends_append {t : Char} (ht : t ∈ terminators) (rest : Raw) :
    Ends (b.map some ++ some t :: rest) := by
  intro c hc
  cases b with
  | nil => exact ⟨t, ht, (Option.some.inj hc).symm⟩
  | cons d b =>
    obtain rfl := Option.some.inj hc
    have hd := hb d List.mem_cons_self
    simp only [isSeparator, Bool.or_eq_true, decide_eq_true_eq, Option.some.injEq] at hd
    refine ⟨d, ?_, rfl⟩
    rcases hd with ((rfl | rfl) | rfl) | rfl <;> decide

end

lemma ends_nil : Ends [] := by simp [Ends]

lemma ends_comma (rest : Raw) : Ends (some ',' :: rest) :=
  ends_append (b := []) (by simp) (by decide) rest

/-! ## Numbers and strings as values -/

/-- The characters that a number does not begin with. -/
def others : List Char := [' ', '\n', '\t', '\r', 'n', 't', 'f', '"', '[', '\x7b', ']']

/-- The text of an integer begins with a minus sign or a digit. -/
lemma text_int_head (i : Int) :
    ∃ c cs, Number.text (.int i) = c :: cs ∧ ∀ other ∈ others, c ≠ other := by
  have hothers : ∀ other ∈ others, other ≠ '-' ∧ Text.digitValue other = none := by
    simp [others, Text.digitValue]
  cases i with
  | ofNat i =>
    obtain ⟨c, cs, hcs⟩ := List.exists_cons_of_ne_nil (Text.numeral_ne_nil i)
    refine ⟨c, cs, hcs, ?_⟩
    rintro other hother rfl
    have hdigit := Text.digitValue_of_mem_numeral (hcs ▸ List.mem_cons_self)
    rw [(hothers c hother).2] at hdigit
    cases hdigit
  | negSucc i => exact ⟨'-', _, rfl, fun other hother => (hothers other hother).1.symm⟩

/-- An integer is read as a value. -/
lemma value_int (n : Nat) (i : Int) {rest : Raw} (hrest : Ends rest) :
    value (n + 1) ((Number.text (.int i)).map some ++ rest) =
      some (.number (Literal.value? (Literal.ofInt i)), rest) := by
  obtain ⟨c, cs, hcs, hother⟩ := text_int_head i
  simp only [others, List.forall_mem_cons, List.not_mem_nil, false_imp_iff, implies_true,
    and_true] at hother
  obtain ⟨hblank, hline, htab, hreturn, hn, ht, hf, hquote, hbracket, hbrace, -⟩ := hother
  rw [← number_int i hrest, hcs, List.map_cons, List.cons_append]
  have hseparator : isSeparator (some c) = false := by
    simp [isSeparator, hblank, hline, htab, hreturn]
  rw [value, skipBlanks_cons hseparator]
  split <;> first | rfl | simp_all

/-- The text of a plain document begins neither with a blank nor with a closing bracket. -/
lemma laidChars_head (l : Layout) (depth : Nat) {d : Doc} (hd : plain d = true) :
    ∃ c cs, laidChars l depth d = c :: cs ∧ isSeparator (some c) = false ∧ c ≠ ']' := by
  match d with
  | .null => exact ⟨'n', _, rfl, rfl, by decide⟩
  | .bool true => exact ⟨'t', _, rfl, rfl, by decide⟩
  | .bool false => exact ⟨'f', _, rfl, rfl, by decide⟩
  | .number (some (.int i)) =>
    obtain ⟨c, cs, hcs, hother⟩ := text_int_head i
    refine ⟨c, cs, hcs, ?_, hother _ (by decide)⟩
    have hblank := hother ' ' (by decide)
    have hline := hother '\n' (by decide)
    have htab := hother '\t' (by decide)
    have hreturn := hother '\r' (by decide)
    simp [isSeparator, hblank, hline, htab, hreturn]
  | .string (some s) => exact ⟨'"', _, rfl, rfl, by decide⟩
  | .array [] => exact ⟨'[', _, rfl, rfl, by decide⟩
  | .array (_ :: _) => exact ⟨'[', _, rfl, rfl, by decide⟩
  | .object [] => exact ⟨'\x7b', _, rfl, rfl, by decide⟩
  | .object (_ :: _) => exact ⟨'\x7b', _, rfl, rfl, by decide⟩

lemma exists_step {n k : Nat} (h : k + 1 ≤ n) : ∃ m, n = m + 1 ∧ k ≤ m :=
  ⟨n - 1, by omega, by omega⟩

lemma value_string (n : Nat) (s : String) (rest : Raw) :
    value (n + 1) ((quoted s).map some ++ rest) = some (.string (some s), rest) := by
  rw [quoted, List.map_cons, List.map_append, List.cons_append, List.append_assoc]
  simp only [value, skipBlanks_cons (show isSeparator (some '"') = false from rfl)]
  rw [List.map_singleton, List.singleton_append, string_escapes]
  rfl

/-! ## Containers -/

lemma value_items (n : Nat) {b : List Char} (hb : ∀ c ∈ b, isSeparator (some c) = true) {s : Raw}
    (hs : ∃ c t, s = some c :: t ∧ isSeparator (some c) = false ∧ c ≠ ']') :
    value (n + 1) (some '[' :: (b.map some ++ s)) =
      (items n s).map fun (ds, r) => (.array ds, r) := by
  obtain ⟨c, t, rfl, hblank, hend⟩ := hs
  simp only [value, skipBlanks_cons (show isSeparator (some '[') = false from rfl),
    skipBlanks_append hb, skipBlanks_cons hblank]
  split
  · next h => exact absurd (Option.some.inj (List.cons.inj h).1) hend
  · rfl

lemma value_fields (n : Nat) {b : List Char} (hb : ∀ c ∈ b, isSeparator (some c) = true)
    (s : Raw) :
    value (n + 1) (some '\x7b' :: (b.map some ++ some '"' :: s)) =
      (fields n (some '"' :: s)).map fun (fs, r) => (.object fs, r) := by
  simp only [value, skipBlanks_cons (show isSeparator (some '\x7b') = false from rfl),
    skipBlanks_append hb, skipBlanks_cons (show isSeparator (some '"') = false from rfl)]
  rfl

/-- The name and the colon of a field are read, and its value is what follows. -/
lemma fields_step (n : Nat) (name : String) (s : Raw) :
    fields (n + 1) ((quoted name ++ [':']).map some ++ s) = (value n s).bind fun (d, s) =>
      match skipBlanks s with
      | some ',' :: rest => (fields n rest).map fun (fs, r) => ((some name, d) :: fs, r)
      | some '\x7d' :: rest => some ([(some name, d)], rest)
      | _ => none := by
  rw [quoted]
  simp only [List.cons_append, List.append_assoc, List.map_cons, List.map_append, List.map_nil,
    List.nil_append, fields, skipBlanks_cons (show isSeparator (some '"') = false from rfl)]
  rw [string_escapes, Option.bind_some]
  have hcolon : skipBlanks (some ':' :: s) = some ':' :: s := skipBlanks_cons rfl
  rw [hcolon]
  rfl

variable {l : Layout} (hl : l.Blank)

include hl

mutual

/-- A plain document is read back from its text in any layout. -/
lemma value_laid (depth : Nat) (d : Doc) (hd : plain d = true) {n : Nat}
    (hn : 2 * (laidChars l depth d).length ≤ n) {rest : Raw} (hrest : Ends rest) :
    value n ((laidChars l depth d).map some ++ rest) = some (reread d, rest) := by
  match d with
  | .null =>
    obtain ⟨n, rfl, -⟩ := exists_step (n := n) (k := 7) hn
    rfl
  | .bool true =>
    obtain ⟨n, rfl, -⟩ := exists_step (n := n) (k := 7) hn
    rfl
  | .bool false =>
    obtain ⟨n, rfl, -⟩ := exists_step (n := n) (k := 9) hn
    rfl
  | .number (some (.int i)) =>
    obtain ⟨c, cs, hcs, -⟩ := text_int_head i
    have hlength : 1 ≤ (laidChars l depth (.number (some (.int i)))).length := by
      change 1 ≤ (Number.text (.int i)).length
      rw [hcs]
      exact Nat.le_add_left ..
    obtain ⟨n, rfl, -⟩ := exists_step (n := n) (k := 1) (by omega)
    exact value_int n i hrest
  | .string (some s) =>
    have hlength : 1 ≤ (laidChars l depth (.string (some s))).length := Nat.le_add_left ..
    obtain ⟨n, rfl, -⟩ := exists_step (n := n) (k := 1) (by omega)
    exact value_string n s rest
  | .array [] =>
    obtain ⟨n, rfl, -⟩ := exists_step (n := n) (k := 3) hn
    rfl
  | .array (d :: ds) =>
    have hplain := Bool.and_eq_true_iff.mp hd
    simp only [laidChars, List.length_cons, List.length_append] at hn
    obtain ⟨n, rfl, hn⟩ := exists_step (n := n) (k := 1 + 2 * ((laidChars l (depth + 1) d).length +
      (laidItems l (depth + 1) ds).length)) (by omega)
    have hread := items_laid (depth + 1) d ds hplain.1 hplain.2 (n := n) (by
      rw [List.length_append]
      omega) (hl.gap depth) rest
    obtain ⟨c, cs, hcs, hblank, hend⟩ := laidChars_head l (depth + 1) hplain.1
    simp only [laidChars, List.map_cons, List.map_append, List.cons_append, List.append_assoc,
      List.map_nil, List.nil_append] at hread ⊢
    rw [value_items n (hl.gap (depth + 1)) ⟨c, _, by rw [hcs]; rfl, hblank, hend⟩, hread]
    rfl
  | .object [] =>
    obtain ⟨n, rfl, -⟩ := exists_step (n := n) (k := 3) hn
    rfl
  | .object ((some name, d) :: fs) =>
    have hplain := Bool.and_eq_true_iff.mp hd
    simp only [laidChars, Option.elim_some, List.length_cons, List.length_append] at hn
    obtain ⟨n, rfl, hn⟩ := exists_step (n := n) (k := 1 + 2 * ((quoted name).length +
      (laidChars l (depth + 1) d).length + (laidFields l (depth + 1) fs).length)) (by omega)
    have hread := fields_laid (depth + 1) name d fs hplain.1 hplain.2 (n := n) (by
      simp only [List.length_append, List.length_cons, List.length_nil]
      omega) (hl.gap depth) rest
    simp only [quoted, List.cons_append, List.append_assoc, List.map_cons, List.map_append,
      List.map_nil, List.nil_append] at hread
    simp only [laidChars, Option.elim_some, quoted, List.cons_append, List.append_assoc,
      List.map_cons, List.map_append, List.map_nil, List.nil_append]
    rw [value_fields n (hl.gap (depth + 1)), hread]
    rfl
termination_by sizeOf d

/-- The items of an array are read back up to its end, which may follow blanks. -/
lemma items_laid (depth : Nat) (d : Doc) (ds : List Doc) (hd : plain d = true)
    (hds : plainItems ds = true) {n : Nat}
    (hn : 2 * (laidChars l depth d ++ laidItems l depth ds).length + 1 ≤ n) {b : List Char}
    (hb : ∀ c ∈ b, isSeparator (some c) = true) (rest : Raw) :
    items n ((laidChars l depth d ++ laidItems l depth ds).map some ++
        (b.map some ++ some ']' :: rest)) =
      some (reread d :: rereadItems ds, rest) := by
  match ds, hds, hn with
  | [], _, hn =>
    obtain ⟨n, rfl, hn⟩ := exists_step hn
    simp only [laidItems, List.append_nil] at hn ⊢
    rw [items, value_laid depth d hd (by omega) (ends_append hb (by decide) rest)]
    simp only [Option.bind_some, skipBlanks_append hb,
      skipBlanks_cons (show isSeparator (some ']') = false from rfl)]
    rfl
  | d' :: ds, hds, hn =>
    have hplain := Bool.and_eq_true_iff.mp hds
    obtain ⟨n, rfl, hn⟩ := exists_step hn
    simp only [laidItems, List.length_append, List.length_cons] at hn
    have hread := items_laid depth d' ds hplain.1 hplain.2 (n := n) (by
      rw [List.length_append]
      omega) hb rest
    simp only [laidItems, List.map_append, List.map_cons, List.append_assoc,
      List.cons_append] at hread ⊢
    rw [items, value_laid depth d hd (by omega) (ends_comma _)]
    simp only [Option.bind_some, skipBlanks_cons (show isSeparator (some ',') = false from rfl),
      items_append (hl.gap depth), hread]
    rfl
termination_by sizeOf d + sizeOf ds + 1

/-- The fields of an object are read back up to its end, which may follow blanks. -/
lemma fields_laid (depth : Nat) (name : String) (d : Doc) (fs : List (Option String × Doc))
    (hd : plain d = true) (hfs : plainFields fs = true) {n : Nat}
    (hn : 2 * ((quoted name ++ [':']).length +
      (laidChars l depth d ++ laidFields l depth fs).length) + 1 ≤ n) {b : List Char}
    (hb : ∀ c ∈ b, isSeparator (some c) = true) (rest : Raw) :
    fields n ((quoted name ++ [':']).map some ++ (l.colon.map some ++
        ((laidChars l depth d ++ laidFields l depth fs).map some ++
          (b.map some ++ some '\x7d' :: rest)))) =
      some ((some name, reread d) :: rereadFields fs, rest) := by
  match fs, hfs, hn with
  | [], _, hn =>
    obtain ⟨n, rfl, hn⟩ := exists_step hn
    simp only [laidFields, List.append_nil] at hn ⊢
    rw [fields_step, value_append hl.colon,
      value_laid depth d hd (by omega) (ends_append hb (by decide) rest)]
    simp only [Option.bind_some, skipBlanks_append hb,
      skipBlanks_cons (show isSeparator (some '\x7d') = false from rfl)]
    rfl
  | (some name', d') :: fs, hfs, hn =>
    have hplain := Bool.and_eq_true_iff.mp (Bool.and_eq_true_iff.mp hfs).2
    obtain ⟨n, rfl, hn⟩ := exists_step hn
    simp only [laidFields, Option.elim_some, List.length_append, List.length_cons] at hn
    have hread := fields_laid depth name' d' fs hplain.1 hplain.2 (n := n) (by
      simp only [List.length_append, List.length_cons, List.length_nil]
      omega) hb rest
    simp only [List.cons_append, List.append_assoc, List.map_cons, List.map_append,
      List.map_nil, List.nil_append] at hread
    simp only [laidFields, Option.elim_some]
    rw [fields_step, value_append hl.colon, List.map_append, List.append_assoc]
    simp only [List.map_cons, List.cons_append]
    rw [value_laid depth d hd (by omega) (ends_comma _)]
    simp only [Option.bind_some, skipBlanks_cons (show isSeparator (some ',') = false from rfl),
      List.append_assoc, List.cons_append, List.map_cons, List.map_append,
      fields_append (hl.gap depth), hread]
    rfl
termination_by sizeOf d + sizeOf fs + 1

end

end Reader

namespace Doc

lemma ofRaw?_laidChars {l : Layout} (hl : l.Blank) {d : Doc} (hd : d.plain = true) :
    ofRaw? ((d.laidChars l 0).map some) = some d.reread := by
  have hread : Reader.value (2 * ((d.laidChars l 0).map some).length + 2)
      ((d.laidChars l 0).map some ++ []) = some (d.reread, []) :=
    Reader.value_laid hl 0 d hd (by rw [List.length_map]; omega) Reader.ends_nil
  rw [List.append_nil] at hread
  rw [ofRaw?, hread]
  rfl

lemma parse_compact {d : Doc} (hd : d.plain = true) : parse d.compact = some d.reread := by
  rw [parse, compact, String.toList_ofList, ← laidChars_compact 0]
  exact ofRaw?_laidChars Layout.blank_compact hd

lemma parse_indented {d : Doc} (hd : d.plain = true) : parse d.indented = some d.reread := by
  rw [parse, indented, String.toList_ofList, ← laidChars_indented 0]
  exact ofRaw?_laidChars Layout.blank_indented hd

lemma ofBytes?_encode (text : String) : ofBytes? (Text.encode text.toList) = parse text := by
  rw [ofBytes?, Text.decode_encode]
  rfl

lemma ofBytes?_compact {d : Doc} (hd : d.plain = true) :
    ofBytes? (Text.encode d.compact.toList) = some d.reread := by
  rw [ofBytes?_encode, parse_compact hd]

/-! ## Documents that are built up -/

lemma plainItems_map {α : Type} {f : α → Doc} {as : List α} (h : ∀ a ∈ as, (f a).plain = true) :
    plainItems (as.map f) = true := by
  induction as with
  | nil => rfl
  | cons a as ih =>
    rw [List.map_cons, plainItems, h a List.mem_cons_self,
      ih fun a ha => h a (List.mem_cons_of_mem _ ha)]
    rfl

lemma rereadItems_eq (ds : List Doc) : rereadItems ds = ds.map reread := by
  induction ds with
  | nil => rfl
  | cons d ds ih => rw [rereadItems, ih, List.map_cons]

@[simp] theorem reread_text (s : String) : (text s).reread = text s := rfl

@[simp] theorem plain_text (s : String) : (text s).plain = true := rfl

@[simp] theorem plain_int (n : Int) : (int n).plain = true := rfl

end Doc
end Json
end Changefeed
