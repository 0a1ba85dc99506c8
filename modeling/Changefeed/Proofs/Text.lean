import Mathlib.Data.Nat.Digits.Defs
import Changefeed.Text.Blank
import Changefeed.Text.Numeral
import Changefeed.Text.Pieces

/-!
# Reading back numerals and joined texts

A numeral has one digit for each power of ten, and the number it is read as is the number that was
written.  A text that was put together with a separator is cut into the same parts, when none of
them holds the separator.
-/

namespace Changefeed
namespace Text

/-! ## Numerals -/

/-- The digits of a number, the highest one first. -/
def digitsOf (n : Nat) : List Nat := (numeral n).map fun c => c.toNat - 48

/-- The number that digits stand for, after those of another one. -/
def ofDigits (n : Nat) (ds : List Nat) : Nat := ds.foldl (fun n d => n * 10 + d) n

lemma numeral_eq (n : Nat) :
    numeral n =
      if n < 10 then [Nat.digitChar n] else numeral (n / 10) ++ [Nat.digitChar (n % 10)] :=
  Nat.toDigits_eq_if (by decide)

lemma digitValue_of_mem_numeral {n : Nat} {c : Char} (h : c ∈ numeral n) :
    digitValue c = some (c.toNat - 48) := by
  have hdigit := Nat.isDigit_of_mem_toDigits (by decide) (by decide) h
  rw [digitValue, if_pos]
  simpa [Char.isDigit, Char.le_def] using hdigit

lemma numeral_ne_nil (n : Nat) : numeral n ≠ [] := Nat.toDigits_ne_nil

lemma digitsOf_eq (n : Nat) :
    digitsOf n = if n < 10 then [n] else digitsOf (n / 10) ++ [n % 10] := by
  have hvalue : ∀ d < 10, (Nat.digitChar d).toNat - 48 = d := by decide
  rw [digitsOf, numeral_eq]
  split
  · next h => rw [List.map_singleton, hvalue n h]
  · rw [List.map_append, List.map_singleton, hvalue _ (Nat.mod_lt n (by decide))]
    rfl

/-- The digits of a number stand for it. -/
lemma ofDigits_digitsOf (n : Nat) : ofDigits 0 (digitsOf n) = n := by
  induction n using Nat.strongRecOn with
  | ind n ih =>
    rw [digitsOf_eq]
    split
    · simp [ofDigits]
    · next h =>
      have htenth := ih (n / 10) (by omega)
      rw [ofDigits] at htenth ⊢
      rw [List.foldl_append, htenth]
      simp only [List.foldl_cons, List.foldl_nil]
      omega

lemma numeral_inj {n m : Nat} (h : numeral n = numeral m) : n = m := by
  have hdigits : digitsOf n = digitsOf m := by rw [digitsOf, h, digitsOf]
  rw [← ofDigits_digitsOf n, hdigits, ofDigits_digitsOf]

/-- Different integers are written differently. -/
lemma signedNumeral_inj {n m : Int} (h : signedNumeral n = signedNumeral m) : n = m := by
  have hsign : ∀ i j : Nat, numeral i ≠ '-' :: numeral (j + 1) := by
    intro i j heq
    have hdigit := digitValue_of_mem_numeral (heq ▸ List.mem_cons_self)
    cases hdigit
  cases n with
  | ofNat i =>
    cases m with
    | ofNat j => rw [numeral_inj h]
    | negSucc j => exact absurd h (hsign i j)
  | negSucc i =>
    cases m with
    | ofNat j => exact absurd h.symm (hsign j i)
    | negSucc j =>
      have hij := numeral_inj (List.cons.inj h).2
      rw [Nat.succ.inj hij]

/-- The first digit of a number is not zero, unless it is the only one. -/
lemma digitsOf_cases (n : Nat) :
    (∃ d, digitsOf n = [d]) ∨ ∃ d ds, digitsOf n = d :: ds ∧ d ≠ 0 := by
  induction n using Nat.strongRecOn with
  | ind n ih =>
    rw [digitsOf_eq]
    split
    · exact .inl ⟨n, rfl⟩
    · next h =>
      right
      rcases ih (n / 10) (by omega) with ⟨d, hd⟩ | ⟨d, ds, hds, hne⟩
      · refine ⟨d, [n % 10], by rw [hd]; rfl, ?_⟩
        have htenth := ofDigits_digitsOf (n / 10)
        rw [hd] at htenth
        simp [ofDigits] at htenth
        omega
      · exact ⟨d, ds ++ [n % 10], by rw [hds]; rfl, hne⟩

lemma le_ofDigits (n : Nat) (ds : List Nat) : n ≤ ofDigits n ds := by
  induction ds generalizing n with
  | nil => exact Nat.le_refl n
  | cons d ds ih => exact Nat.le_trans (by omega) (ih (n * 10 + d))

lemma readDigits_of_digits {cs : List Char} (h : ∀ c ∈ cs, digitValue c = some (c.toNat - 48))
    (n : Nat) : readDigits n cs = some (ofDigits n (cs.map fun c => c.toNat - 48)) := by
  induction cs generalizing n with
  | nil => rfl
  | cons c cs ih =>
    rw [readDigits, h c List.mem_cons_self, Option.bind_some,
      ih fun d hd => h d (List.mem_cons_of_mem _ hd)]
    rfl

lemma readNat_numeral (n : Nat) : readNat (numeral n) = some n := by
  have hread : readDigits 0 (numeral n) = some n := by
    rw [readDigits_of_digits fun c hc => digitValue_of_mem_numeral hc]
    exact congrArg some (ofDigits_digitsOf n)
  obtain ⟨c, cs, hcs⟩ := List.exists_cons_of_ne_nil (numeral_ne_nil n)
  rw [hcs] at hread ⊢
  exact hread

lemma not_mem_numeral {c : Char} (h : digitValue c = none) (n : Nat) : c ∉ numeral n :=
  fun hmem => by simp [digitValue_of_mem_numeral hmem] at h

lemma readWord_numeral (n : UInt64) : readWord (numeral n.toNat) = some n := by
  have hsign : ∀ rest, numeral n.toNat ≠ '+' :: rest := fun rest heq =>
    not_mem_numeral (c := '+') (by decide) n.toNat (heq ▸ List.mem_cons_self)
  have hn : n.toNat < UInt64.size := n.toNat_lt
  unfold readWord
  split
  · next rest heq => exact absurd heq (hsign rest)
  · dsimp only
    rw [readNat_numeral]
    simp [hn]

/-! ## Numerals with zeros in front -/

lemma digitValue_of_mem_padded {width n : Nat} {c : Char} (h : c ∈ padded width n) :
    digitValue c = some (c.toNat - 48) := by
  rcases List.mem_append.mp h with h | h
  · rw [List.eq_of_mem_replicate h]
    rfl
  · exact digitValue_of_mem_numeral h

lemma padded_ne_nil (width n : Nat) : padded width n ≠ [] := by
  rw [padded]
  exact List.append_ne_nil_of_right_ne_nil _ (numeral_ne_nil n)

lemma length_padded {width n : Nat} (hwidth : 0 < width) (hn : n < 10 ^ width) :
    (padded width n).length = width := by
  have hlength : (numeral n).length ≤ width := Nat.toDigits_length 10 n width hwidth hn
  rw [padded, List.length_append, List.length_replicate]
  omega

/-- Zeros in front do not matter to a reader. -/
lemma readNat_padded (width n : Nat) : readNat (padded width n) = some n := by
  have hread : readDigits 0 (padded width n) = some n := by
    rw [readDigits_of_digits fun c hc => digitValue_of_mem_padded hc, padded, List.map_append,
      List.map_replicate, ofDigits, List.foldl_append]
    have hzeros : ∀ k : Nat,
        (List.replicate k ('0'.toNat - 48)).foldl (fun n d => n * 10 + d) 0 = 0 := by
      intro k
      induction k with
      | zero => rfl
      | succ k ih => exact ih
    rw [hzeros]
    exact congrArg some (ofDigits_digitsOf n)
  obtain ⟨c, cs, hcs⟩ := List.exists_cons_of_ne_nil (padded_ne_nil width n)
  rw [hcs] at hread ⊢
  exact hread

/-! ## Parts -/

variable {sep : Char}

lemma cutFirst_append {before : List Char} (h : sep ∉ before) (rest : List Char) :
    cutFirst sep (before ++ sep :: rest) = some (before, rest) := by
  induction before with
  | nil => simp [cutFirst]
  | cons c before ih =>
    have hc : c ≠ sep := fun hc => h (hc ▸ List.mem_cons_self)
    have hbefore : sep ∉ before := fun hmem => h (List.mem_cons_of_mem _ hmem)
    rw [List.cons_append, cutFirst, if_neg hc, ih hbefore]
    rfl

lemma cutFirst_eq_none {s : List Char} (h : sep ∉ s) : cutFirst sep s = none := by
  cases hcut : cutFirst sep s with
  | none => rfl
  | some parts => exact absurd (append_of_cutFirst hcut ▸ by simp) h

lemma cutLast_eq_none {s : List Char} (h : sep ∉ s) : cutLast sep s = none := by
  cases hcut : cutLast sep s with
  | none => rfl
  | some parts => exact absurd (append_of_cutLast hcut ▸ by simp) h

lemma cutLast_append {after : List Char} (h : sep ∉ after) (before : List Char) :
    cutLast sep (before ++ sep :: after) = some (before, after) := by
  induction before with
  | nil => simp [cutLast, cutLast_eq_none h]
  | cons c before ih => rw [List.cons_append, cutLast, ih]

lemma cutLast_append_of_not_mem {added : List Char} (h : sep ∉ added) (s : List Char) :
    cutLast sep (s ++ added) =
      (cutLast sep s).map fun (before, after) => (before, after ++ added) := by
  induction s with
  | nil => exact cutLast_eq_none h
  | cons c s ih =>
    rw [List.cons_append, cutLast, ih, cutLast]
    cases cutLast sep s with
    | some parts => rfl
    | none => by_cases hc : c = sep <;> simp [hc]

lemma pieces_of_not_mem {s : List Char} (h : sep ∉ s) : pieces sep s = [s] := by
  induction s with
  | nil => rfl
  | cons c s ih =>
    have hc : c ≠ sep := fun hc => h (hc ▸ List.mem_cons_self)
    rw [pieces, if_neg hc, ih fun hmem => h (List.mem_cons_of_mem _ hmem)]

lemma pieces_append {p : List Char} (h : sep ∉ p) (rest : List Char) :
    pieces sep (p ++ sep :: rest) = p :: pieces sep rest := by
  induction p with
  | nil => simp [pieces]
  | cons c p ih =>
    have hc : c ≠ sep := fun hc => h (hc ▸ List.mem_cons_self)
    rw [List.cons_append, pieces, if_neg hc, ih fun hmem => h (List.mem_cons_of_mem _ hmem)]

lemma pieces_join {ps : List (List Char)} (hne : ps ≠ []) (h : ∀ p ∈ ps, sep ∉ p) :
    pieces sep (join sep ps) = ps := by
  induction ps with
  | nil => exact absurd rfl hne
  | cons p ps ih =>
    have hp := h p List.mem_cons_self
    cases ps with
    | nil => exact pieces_of_not_mem hp
    | cons q qs =>
      rw [join, pieces_append hp, ih (by simp) fun r hr => h r (List.mem_cons_of_mem _ hr)]

lemma pieces_flatMap {p : List Char} {ps : List (List Char)} (hp : sep ∉ p)
    (h : ∀ q ∈ ps, sep ∉ q) : pieces sep (p ++ ps.flatMap (sep :: ·)) = p :: ps := by
  induction ps generalizing p with
  | nil => rw [List.flatMap_nil, List.append_nil, pieces_of_not_mem hp]
  | cons q qs ih =>
    rw [List.flatMap_cons, List.cons_append, pieces_append hp,
      ih (h q List.mem_cons_self) fun r hr => h r (List.mem_cons_of_mem _ hr)]

/-- A joined text holds the characters of its parts and the separator. -/
lemma mem_join {ps : List (List Char)} {c : Char} (h : c ∈ join sep ps) :
    c = sep ∨ ∃ p ∈ ps, c ∈ p := by
  induction ps with
  | nil => cases h
  | cons p ps ih =>
    cases ps with
    | nil => exact .inr ⟨p, .head [], h⟩
    | cons q qs =>
      rcases List.mem_append.mp h with h | h
      · exact .inr ⟨p, .head (q :: qs), h⟩
      · rcases List.mem_cons.mp h with h | h
        · exact .inl h
        · exact (ih h).imp_right fun ⟨r, hr, hc⟩ => ⟨r, .tail p hr, hc⟩

/-- A joined text begins with a mark and the separator when its first part begins with them, or is
the mark itself. -/
lemma mark_prefix_append_iff {mark : List Char} (h : sep ∉ mark) (p rest : List Char) :
    mark ++ [sep] <+: p ++ sep :: rest ↔ mark ++ [sep] <+: p ∨ p = mark := by
  induction mark generalizing p with
  | nil =>
    cases p with
    | nil => simp
    | cons c p => simp
  | cons m mark ih =>
    have hm : m ≠ sep := fun hm => h (hm ▸ List.mem_cons_self)
    cases p with
    | nil => simp [hm]
    | cons c p =>
      have ih := ih (fun hmem => h (List.mem_cons_of_mem _ hmem)) p
      simp only [List.cons_append, List.cons_prefix_cons, ih, List.cons.injEq]
      tauto

/-- The characters of a piece are those of the text, without the separator. -/
lemma mem_of_mem_pieces {s p : List Char} {c : Char} (hp : p ∈ pieces sep s) (hc : c ∈ p) :
    c ∈ s ∧ c ≠ sep := by
  induction s generalizing p with
  | nil =>
    obtain rfl : p = [] := by simpa [pieces] using hp
    cases hc
  | cons d s ih =>
    rw [pieces] at hp
    split at hp
    · rcases List.mem_cons.mp hp with rfl | hp
      · cases hc
      · exact (ih hp hc).imp_left (.tail d)
    · next hd =>
      cases hs : pieces sep s with
      | nil => exact absurd hs (pieces_ne_nil sep s)
      | cons q qs =>
        rw [hs] at hp
        rcases List.mem_cons.mp hp with rfl | hp
        · rcases List.mem_cons.mp hc with rfl | hc
          · exact ⟨.head s, hd⟩
          · exact (ih (hs ▸ .head qs) hc).imp_left (.tail d)
        · exact (ih (hs ▸ .tail q hp) hc).imp_left (.tail d)

lemma not_mem_of_mem_pieces {s p : List Char} (h : p ∈ pieces sep s) : sep ∉ p :=
  fun hmem => (mem_of_mem_pieces h hmem).2 rfl

/-- The two sides of a separator are cut each by itself. -/
lemma pieces_append_cons (s t : List Char) :
    pieces sep (s ++ sep :: t) = pieces sep s ++ pieces sep t := by
  induction s with
  | nil => simp [pieces]
  | cons c s ih =>
    rw [List.cons_append, pieces, pieces, ih]
    split
    · rfl
    · cases hs : pieces sep s with
      | nil => exact absurd hs (pieces_ne_nil sep s)
      | cons p ps => rfl

/-- A text in which characters were dropped or exchanged is cut at the places of before, when the
separator stays and nothing turns into it. -/
lemma pieces_filterMap {f : Char → Option Char} (hsep : f sep = some sep)
    (hother : ∀ c, f c = some sep → c = sep) (s : List Char) :
    pieces sep (s.filterMap f) = (pieces sep s).map (List.filterMap f) := by
  induction s with
  | nil => rfl
  | cons c s ih =>
    by_cases hc : c = sep
    · subst hc
      rw [List.filterMap_cons_some hsep, pieces, pieces, if_pos rfl, if_pos rfl, ih]
      rfl
    · rw [pieces, if_neg hc]
      cases hs : pieces sep s with
      | nil => exact absurd hs (pieces_ne_nil sep s)
      | cons p ps =>
        rw [hs] at ih
        cases hf : f c with
        | none => simp [List.filterMap_cons_none hf, ih]
        | some d =>
          have hd : d ≠ sep := fun h => hc (hother c (hf.trans (congrArg some h)))
          rw [List.filterMap_cons_some hf, pieces, if_neg hd, ih]
          simp [List.filterMap_cons_some hf]

lemma pieces_map {f : Char → Char} (hf : ∀ c, f c = sep ↔ c = sep) (s : List Char) :
    pieces sep (s.map f) = (pieces sep s).map (List.map f) := by
  rw [← List.filterMap_eq_map]
  refine pieces_filterMap ?_ (fun c hc => (hf c).mp (Option.some.inj hc)) s
  rw [(hf sep).mpr rfl]

/-- Exchanged characters leave the place where a text is cut first. -/
lemma cutFirst_map {f : Char → Char} (hf : ∀ c, f c = sep ↔ c = sep) (s : List Char) :
    cutFirst sep (s.map f) = (cutFirst sep s).map fun parts => (parts.1.map f, parts.2.map f) := by
  induction s with
  | nil => rfl
  | cons c s ih =>
    rw [List.map_cons, cutFirst, cutFirst]
    by_cases hc : c = sep
    · rw [if_pos ((hf c).mpr hc), if_pos hc]
      rfl
    · rw [if_neg fun h => hc ((hf c).mp h), if_neg hc, ih]
      cases cutFirst sep s <;> rfl

/-! ## White space -/

lemma squeeze_of_not_blank {s : List Char} (h : ∀ c ∈ s, isBlank c = false) : squeeze s = s :=
  List.filter_eq_self.mpr fun c hc => by simp [h c hc]

lemma pieces_squeeze (h : isBlank sep = false) (s : List Char) :
    pieces sep (squeeze s) = (pieces sep s).map squeeze := by
  have hsqueeze : squeeze = List.filterMap (Option.guard fun c => !isBlank c) :=
    funext fun s => (congrFun (List.filterMap_eq_filter (p := fun c => !isBlank c)) s).symm
  rw [hsqueeze]
  exact pieces_filterMap (by simp [h]) (by simp) s

lemma isBlank_of_digitValue {c : Char} (h : digitValue c ≠ none) : isBlank c = false := by
  have hrange : '0' ≤ c ∧ c ≤ '9' := by
    by_contra hrange
    exact h (if_neg hrange)
  have hlow : 48 ≤ c.toNat := hrange.1
  have hhigh : c.toNat ≤ 57 := hrange.2
  simp [isBlank, blankRanges]
  omega

lemma trimStart_cons {c : Char} (h : isBlank c = false) (s : List Char) :
    trimStart (c :: s) = c :: s :=
  List.dropWhile_cons_of_neg (by simp [h])

lemma trim_eq_self {s : List Char} (hfirst : ∀ c ∈ s.head?, isBlank c = false)
    (hlast : ∀ c ∈ s.getLast?, isBlank c = false) : trim s = s := by
  have hstart : ∀ {t : List Char}, (∀ c ∈ t.head?, isBlank c = false) → trimStart t = t := by
    intro t ht
    cases t with
    | nil => rfl
    | cons c t => exact trimStart_cons (ht c rfl) t
  rw [trim, hstart hfirst, hstart (by simpa using hlast), List.reverse_reverse]

lemma head_trim {s : List Char} {c : Char} (h : c ∈ (trim s).head?) : isBlank c = false := by
  have hstart : trim s <+: trimStart s := by
    have hend := List.dropWhile_suffix isBlank (l := (trimStart s).reverse)
    rwa [← List.reverse_prefix, List.reverse_reverse] at hend
  obtain ⟨rest, hrest⟩ := hstart
  have hhead : (trimStart s).head? = some c := by
    rw [← hrest, List.head?_append, Option.mem_def.mp h]
    rfl
  have hnot := List.head?_dropWhile_not isBlank s
  rwa [← trimStart, hhead] at hnot

/-! ## Letters -/

/-- Putting a character into lower case leaves it, or moves a letter by 32 places. -/
lemma toLower_cases (c : Char) :
    c.toLower = c ∨ 65 ≤ c.toNat ∧ c.toNat ≤ 90 ∧ c.toLower.toNat = c.toNat + 32 := by
  unfold Char.toLower
  split
  · next h =>
    obtain ⟨hlow, hhigh⟩ : 65 ≤ c.toNat ∧ c.toNat ≤ 90 := ⟨h.1, h.2⟩
    refine .inr ⟨hlow, hhigh, ?_⟩
    show (c.val + 32).toNat = c.toNat + 32
    have hval : c.val.toNat = c.toNat := rfl
    rw [UInt32.toNat_add, hval]
    simp
    omega
  · exact .inl rfl

lemma toLower_eq_iff {c d : Char} (hd : d.toNat < 65) : c.toLower = d ↔ c = d := by
  rcases toLower_cases c with h | ⟨hlow, hhigh, h⟩
  · rw [h]
  · constructor
    · rintro rfl
      omega
    · rintro rfl
      omega

@[simp] lemma isBlank_toLower (c : Char) : isBlank c.toLower = isBlank c := by
  rcases toLower_cases c with h | ⟨hlow, hhigh, h⟩
  · rw [h]
  · have hnot : ∀ d : Char, 65 ≤ d.toNat → d.toNat ≤ 122 → isBlank d = false := by
      intro d _ _
      simp [isBlank, blankRanges]
      omega
    rw [hnot c hlow (by omega), hnot c.toLower (by omega) (by omega)]

/-- A letter is no digit in either case. -/
@[simp] theorem digitValue_toLower (c : Char) : digitValue c.toLower = digitValue c := by
  rcases toLower_cases c with h | ⟨hlow, -, h⟩
  · rw [h]
  · have hnot : ∀ d : Char, 65 ≤ d.toNat → ¬ ('0' ≤ d ∧ d ≤ '9') := by
      rintro d hd ⟨-, hnine⟩
      have hle : d.toNat ≤ 57 := hnine
      omega
    rw [digitValue, digitValue, if_neg (hnot c hlow), if_neg (hnot c.toLower (by omega))]

lemma readNat_map_toLower (cs : List Char) : readNat (cs.map Char.toLower) = readNat cs := by
  have hdigits : ∀ n, readDigits n (cs.map Char.toLower) = readDigits n cs := by
    induction cs with
    | nil => exact fun n => rfl
    | cons c cs ih => simp [readDigits, ih]
  cases cs with
  | nil => rfl
  | cons c cs => exact hdigits 0

lemma readWord_of_ne {c : Char} (hc : c ≠ '+') (cs : List Char) :
    readWord (c :: cs) =
      (readNat (c :: cs)).bind fun n =>
        if h : n < UInt64.size then some (UInt64.ofNatLT n h) else none := by
  unfold readWord
  split
  · next h => exact absurd (List.cons.inj h).1 hc
  · dsimp only
    cases readNat (c :: cs) <;> rfl

/-- The case of letters does not matter to whether a number can be read. -/
lemma readWord_map_toLower (cs : List Char) : readWord (cs.map Char.toLower) = readWord cs := by
  cases cs with
  | nil => rfl
  | cons c cs =>
    by_cases hc : c = '+'
    · subst hc
      have hplus : Char.toLower '+' = '+' := by decide
      rw [List.map_cons, hplus, readWord, readWord, readNat_map_toLower]
    · have hlower : c.toLower ≠ '+' := fun h => hc ((toLower_eq_iff (by decide)).mp h)
      rw [List.map_cons, readWord_of_ne hlower, readWord_of_ne hc, ← List.map_cons,
        readNat_map_toLower]

end Text
end Changefeed
