import Changefeed.Json.Reader
import Changefeed.Json.Writer
import Changefeed.Proofs.Text

/-!
# Reading back numbers and strings

An integer is written as a numeral, of which the reader takes every digit, and no other number
comes of it than the one that was written.  A string is written between quotes with some of its
characters escaped, and the reader gives those characters back.
-/

namespace Changefeed

namespace Json

open Text (Raw digitsOf ofDigits)

/-! ## Numbers -/

namespace Literal

lemma gather_of_fits {n : Nat} {ds : List Nat} (h : ofDigits n ds < 0x10000000000000000) :
    gather n ds = (ofDigits n ds, 0) := by
  induction ds generalizing n with
  | nil => rfl
  | cons d ds ih =>
    have hfits : n * 10 + d < 0x10000000000000000 := Nat.lt_of_le_of_lt (Text.le_ofDigits _ ds) h
    rw [gather, if_pos hfits]
    exact ih h

lemma gather_whole {n : Nat} {ds : List Nat} (h : (gather n ds).2 = 0) :
    (gather n ds).1 = ofDigits n ds := by
  induction ds generalizing n with
  | nil => rfl
  | cons d ds ih =>
    unfold gather at h ⊢
    split at h
    · next hfits => rw [if_pos hfits]; exact ih h
    · cases h

/-- An integer as a literal. -/
def ofInt (n : Int) : Literal := ⟨decide (n < 0), digitsOf n.natAbs, none, none⟩

/-- An integer that fits 64 bits is read back. -/
lemma value?_ofInt {n : Int} (hlow : Number.minInt ≤ n) (hhigh : n ≤ Number.maxInt) :
    value? (ofInt n) = some (.int n) := by
  simp only [Number.minInt, Number.maxInt] at hlow hhigh
  have hfits : ofDigits 0 (digitsOf n.natAbs) < 0x10000000000000000 := by
    rw [Text.ofDigits_digitsOf]
    omega
  simp only [value?, ofInt, gather_of_fits hfits, Text.ofDigits_digitsOf]
  by_cases hn : n < 0
  · rw [if_neg (by simp [hn]), if_pos ⟨trivial, by omega, by omega⟩]
    simp only [Option.some.injEq, Number.int.injEq]
    omega
  · rw [if_pos (by simp [hn])]
    simp only [Option.some.injEq, Number.int.injEq]
    omega

/-- A literal without fraction and exponent that is an integer is that of all its digits. -/
lemma value?_int {l : Literal} {m : Int} (hfraction : l.fraction = none)
    (hexponent : l.exponent = none) (h : l.value? = some (.int m)) :
    m = if l.negative then -(ofDigits 0 l.whole : Int) else ofDigits 0 l.whole := by
  have hdouble : ∀ x : Option Float, x.map Number.double ≠ some (.int m) := by
    intro x hx
    cases x <;> simp at hx
  have hgather : (gather 0 l.whole).2 = 0 → (gather 0 l.whole).1 = ofDigits 0 l.whole :=
    gather_whole
  unfold value? at h
  rw [hfraction, hexponent] at h
  generalize gather 0 l.whole = gathered at h hgather
  obtain ⟨significand, left⟩ := gathered
  dsimp only at h hgather
  split at h
  · next hpositive =>
    have hsign : l.negative = false := by simpa using hpositive.2
    rw [← hgather hpositive.1, hsign]
    simpa using h.symm
  · next hsign =>
    split at h
    · next hnegative =>
      have hsign : l.negative = true := by simpa [hnegative.1] using hsign
      rw [← hgather hnegative.1, hsign]
      simpa using h.symm
    · exact absurd h (hdouble _)

lemma eq_of_value?_ofInt {n m : Int} (h : value? (ofInt n) = some (.int m)) : m = n := by
  have hm := value?_int rfl rfl h
  simp only [ofInt, Text.ofDigits_digitsOf, decide_eq_true_eq] at hm
  split at hm <;> omega

end Literal

namespace Reader

/-- The characters that may follow a number. -/
def terminators : List Char := [' ', '\n', '\t', '\r', ',', ']', '\x7d']

/-- The text goes on with what ends a number. -/
def Ends (rest : Raw) : Prop := ∀ c ∈ rest.head?, ∃ t ∈ terminators, c = some t

lemma Ends.digit?_eq_none {c : Option Char} {rest : Raw} (h : Ends (c :: rest)) :
    digit? c = none := by
  have hall : ∀ t ∈ terminators, digit? (some t) = none := by
    simp only [terminators, List.forall_mem_cons, List.not_mem_nil, false_imp_iff, implies_true]
    decide
  obtain ⟨t, ht, rfl⟩ := h c rfl
  exact hall t ht

lemma Ends.fraction_exponent {rest : Raw} (h : Ends rest) :
    fraction rest = some (none, rest) ∧ exponent rest = some (none, rest) := by
  cases rest with
  | nil => exact ⟨rfl, rfl⟩
  | cons c rest =>
    obtain ⟨t, ht, rfl⟩ := h c rfl
    simp only [terminators, List.mem_cons, List.not_mem_nil, or_false] at ht
    rcases ht with rfl | rfl | rfl | rfl | rfl | rfl | rfl <;> exact ⟨rfl, rfl⟩

lemma digits_append {cs : List Char} {rest : Raw}
    (hdigits : ∀ c ∈ cs, Text.digitValue c = some (c.toNat - 48)) (hrest : Ends rest) :
    digits (cs.map some ++ rest) = (cs.map fun c => c.toNat - 48, rest) := by
  induction cs with
  | nil =>
    cases rest with
    | nil => rfl
    | cons c rest =>
      simp only [List.map_nil, List.nil_append, digits, hrest.digit?_eq_none]
  | cons c cs ih =>
    have hc : digit? (some c) = some (c.toNat - 48) := hdigits c List.mem_cons_self
    have hcs := ih fun c' hc' => hdigits c' (List.mem_cons_of_mem _ hc')
    simp only [List.map_cons, List.cons_append, digits, hc, hcs]

/-- The digits of a number are read up to its end. -/
lemma whole_numeral (n : Nat) {rest : Raw} (hrest : Ends rest) :
    whole ((Text.numeral n).map some ++ rest) = some (digitsOf n, rest) := by
  have hdigits : digits ((Text.numeral n).map some ++ rest) = (digitsOf n, rest) :=
    digits_append (fun c hc => Text.digitValue_of_mem_numeral hc) hrest
  rw [whole, hdigits]
  rcases Text.digitsOf_cases n with ⟨d, hd⟩ | ⟨d, ds, hds, hne⟩
  · rw [hd]
    cases d <;> rfl
  · rw [hds]
    cases d with
    | zero => exact absurd rfl hne
    | succ d => rfl

/-- An integer is read as its literal. -/
lemma number_int (n : Int) {rest : Raw} (hrest : Ends rest) :
    number ((Number.text (.int n)).map some ++ rest) =
      some (.number (Literal.value? (Literal.ofInt n)), rest) := by
  obtain ⟨hfraction, hexponent⟩ := hrest.fraction_exponent
  cases n with
  | ofNat n =>
    have htext : Number.text (.int (.ofNat n)) = Text.numeral n := rfl
    have hread := whole_numeral n hrest
    have hliteral : Literal.ofInt (.ofNat n) = ⟨false, digitsOf n, none, none⟩ := by
      simp [Literal.ofInt]
    rw [htext, hliteral, number]
    · simp only [hread, Option.bind_some, hfraction, hexponent, Option.map_some]
    · intro s hs
      obtain ⟨c, cs, hcs⟩ := List.exists_cons_of_ne_nil (Text.numeral_ne_nil n)
      have hc := Text.digitValue_of_mem_numeral (hcs ▸ List.mem_cons_self)
      rw [hcs, List.map_cons, List.cons_append, List.cons.injEq, Option.some.injEq] at hs
      rw [hs.1] at hc
      cases hc
  | negSucc n =>
    have htext : Number.text (.int (.negSucc n)) = '-' :: Text.numeral (n + 1) := rfl
    have hliteral : Literal.ofInt (.negSucc n) = ⟨true, digitsOf (n + 1), none, none⟩ := by
      simp [Literal.ofInt, Int.negSucc_lt_zero]
    rw [htext, List.map_cons, List.cons_append, hliteral, number]
    simp only [whole_numeral _ hrest, Option.bind_some, hfraction, hexponent, Option.map_some]

/-! ## Strings -/

/-- The piece of a string stands for the character. -/
def Piece.Stands (p : Piece) (c : Char) : Prop :=
  p = .plain c ∨ p = .unit c.toNat ∧ c.toNat < 0x20

lemma hexUnit_control {n : Nat} (h : n < 0x20) :
    hexUnit '0' '0' (hexDigit (n / 16)) (hexDigit (n % 16)) = some n := by
  have hall : ∀ n < 0x20, hexUnit '0' '0' (hexDigit (n / 16)) (hexDigit (n % 16)) = some n := by
    decide
  exact hall n h

/-- A character is read back from its escape as one piece. -/
lemma stringPieces_escape (c : Char) (rest : Raw) :
    ∃ p : Piece, p.Stands c ∧ stringPieces ((escape c).map some ++ rest) =
      (stringPieces rest).map fun (ps, r) => (p :: ps, r) := by
  unfold escape
  split
  · next h => subst h; exact ⟨.plain _, .inl rfl, rfl⟩
  split
  · next h => subst h; exact ⟨.plain _, .inl rfl, rfl⟩
  split
  · next h => subst h; exact ⟨.plain _, .inl rfl, rfl⟩
  split
  · next h => subst h; exact ⟨.plain _, .inl rfl, rfl⟩
  split
  · next h => subst h; exact ⟨.plain _, .inl rfl, rfl⟩
  split
  · next h => subst h; exact ⟨.plain _, .inl rfl, rfl⟩
  split
  · next h => subst h; exact ⟨.plain _, .inl rfl, rfl⟩
  split
  · next h =>
    refine ⟨.unit c.toNat, .inr ⟨rfl, h⟩, ?_⟩
    simp only [List.map_cons, List.map_nil, List.cons_append, List.nil_append]
    rw [stringPieces, hexUnit_control h, Option.bind_some]
  · next hquote hbackslash _ _ _ _ _ hcontrol =>
    refine ⟨.plain c, .inl rfl, ?_⟩
    simp only [List.map_cons, List.map_nil, List.cons_append, List.nil_append]
    rw [stringPieces, if_neg (not_or.mpr ⟨hbackslash, hcontrol⟩)]
    · exact hquote
    · exact fun _ _ _ _ _ _ h => hbackslash h
    · exact fun _ _ _ => hbackslash

/-- A piece that stands for a character gives that character. -/
lemma assemble_cons {p : Piece} {c : Char} (h : p.Stands c) (ps : List Piece) :
    assemble (p :: ps) = (assemble ps).map (c :: ·) := by
  rcases h with rfl | ⟨rfl, hcontrol⟩
  · rfl
  · have hc : Char.ofNat c.toNat = c := Char.ofNat_toNat c
    have hhigh : ¬ (0xD800 ≤ c.toNat ∧ c.toNat < 0xE000) := by omega
    have hlead : ¬ (0xD800 ≤ c.toNat ∧ c.toNat < 0xDC00) := by omega
    have htrail : ¬ (0xDC00 ≤ c.toNat ∧ c.toNat < 0xE000) := by omega
    cases ps with
    | nil => simp only [assemble, if_neg hhigh, hc]
    | cons q ps =>
      cases q with
      | plain d => simp only [assemble, if_neg hhigh, hc]
      | unreadable => simp only [assemble, if_neg hhigh, hc]
      | unit m => simp only [assemble, if_neg hlead, if_neg htrail, hc]

/-- The escapes of characters are read back up to the closing quote. -/
lemma stringPieces_escapes (cs : List Char) (rest : Raw) :
    ∃ ps, assemble ps = some cs ∧
      stringPieces ((cs.flatMap escape).map some ++ some '"' :: rest) = some (ps, rest) := by
  induction cs with
  | nil => exact ⟨[], rfl, rfl⟩
  | cons c cs ih =>
    obtain ⟨ps, hassemble, hread⟩ := ih
    obtain ⟨p, hp, hescape⟩ :=
      stringPieces_escape c ((cs.flatMap escape).map some ++ some '"' :: rest)
    refine ⟨p :: ps, by rw [assemble_cons hp, hassemble, Option.map_some], ?_⟩
    rw [List.flatMap_cons, List.map_append, List.append_assoc, hescape, hread, Option.map_some]

lemma string_escapes (s : String) (rest : Raw) :
    string ((s.toList.flatMap escape).map some ++ some '"' :: rest) = some (some s, rest) := by
  obtain ⟨ps, hassemble, hread⟩ := stringPieces_escapes s.toList rest
  rw [string, hread, Option.map_some]
  simp only [hassemble, Option.map_some, String.ofList_toList]

end Reader
end Json
end Changefeed
