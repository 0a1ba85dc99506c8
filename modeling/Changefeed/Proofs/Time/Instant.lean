import Changefeed.Proofs.Text
import Changefeed.Time.Instant

/-!
# Reading back instants

An instant whose date is one of the calendar and whose time is one of a day is read back from its
text, down to the nanosecond.  Every part of the text has a fixed number of digits, or ends where
something follows that is no digit.
-/

namespace Changefeed
namespace Instant

open Text (padded isDigit isBlank trimStart)

/-- The date is one of the calendar, and the time one of a day. -/
structure Valid (t : Instant) : Prop where
  date : t.date.isValid = true
  minute : t.minute < 1440
  second : t.second ≤ 60
  nanos : t.nanos < 10 ^ 9

/-! ## Parts of a text -/

variable {width w n : Nat} {rest : List Char}

lemma padded_append_ne {c : Char} {s : List Char} (h : Text.digitValue c = none) :
    padded w n ++ rest ≠ c :: s := by
  intro heq
  obtain ⟨d, ds, hds⟩ := List.exists_cons_of_ne_nil (Text.padded_ne_nil w n)
  rw [hds] at heq
  obtain rfl := (List.cons.inj heq).1
  simp [Text.digitValue_of_mem_padded (hds ▸ List.mem_cons_self : d ∈ padded w n)] at h

lemma trimStart_padded : trimStart (padded w n ++ rest) = padded w n ++ rest := by
  obtain ⟨c, cs, hcs⟩ := List.exists_cons_of_ne_nil (Text.padded_ne_nil w n)
  have hc := Text.digitValue_of_mem_padded (hcs ▸ List.mem_cons_self : c ∈ padded w n)
  rw [hcs, List.cons_append, Text.trimStart_cons (Text.isBlank_of_digitValue (by simp [hc]))]

/-- What follows is no digit. -/
def Stops (rest : List Char) : Prop := ∀ c ∈ rest.head?, isDigit c = false

lemma stops_cons {c : Char} (h : isDigit c = false) : Stops (c :: rest) := by
  rintro _ ⟨⟩
  exact h

/-- The digits of a padded number are read up to their width, or up to what is no digit. -/
lemma digits_padded (hwidth : (padded w n).length ≤ width)
    (hrest : (padded w n).length = width ∨ Stops rest) :
    digits width (padded w n ++ rest) = some (n, (padded w n).length, rest) := by
  have hdigits : ∀ c ∈ padded w n, isDigit c = true := fun c hc => by
    rw [isDigit, Text.digitValue_of_mem_padded hc]
    rfl
  have hstop : (rest.take (width - (padded w n).length)).takeWhile isDigit = [] := by
    rcases hrest with hfull | hstops
    · rw [hfull, Nat.sub_self]
      rfl
    · cases rest with
      | nil => simp
      | cons c rest =>
        cases width - (padded w n).length with
        | zero => rfl
        | succ k => simp [hstops c rfl]
  have htaken : ((padded w n ++ rest).take width).takeWhile isDigit = padded w n := by
    rw [List.take_append, List.take_of_length_le hwidth, List.takeWhile_append_of_pos hdigits,
      hstop, List.append_nil]
  rw [digits, htaken, Text.readNat_padded, Option.map_some, List.drop_left]

lemma part_padded {low high : Nat} (hn : n < 100) (hlow : low ≤ n) (hhigh : n ≤ high) :
    part 2 low high (padded 2 n ++ rest) = some (n, rest) := by
  have hlength : (padded 2 n).length = 2 := Text.length_padded (by decide) hn
  rw [part, trimStart_padded, digits_padded (Nat.le_of_eq hlength) (.inl hlength),
    Option.bind_some]
  exact if_pos ⟨hlow, hhigh⟩

lemma separator_cons {c : Char} (h : isBlank c = false) :
    separator c (c :: rest) = some rest := by
  rw [separator, Text.trimStart_cons h]
  exact if_pos rfl

/-- A year is read up to the dash behind it. -/
lemma year_yearText (y : Int) : year (yearText y ++ '-' :: rest) = some (y, '-' :: rest) := by
  have hstops : Stops ('-' :: rest) := stops_cons rfl
  have hsigned : ∀ m : Nat, digits (padded 4 m ++ '-' :: rest).length (padded 4 m ++ '-' :: rest) =
      some (m, (padded 4 m).length, '-' :: rest) := fun m =>
    digits_padded (by rw [List.length_append]; omega) (.inr hstops)
  unfold yearText
  split
  · next hy =>
    have hlength : (padded 4 y.natAbs).length = 4 := Text.length_padded (by decide) (by omega)
    have hread : digits 4 (padded 4 y.natAbs ++ '-' :: rest) = some (y.natAbs, _, '-' :: rest) :=
      digits_padded (Nat.le_of_eq hlength) (.inl hlength)
    rw [year, trimStart_padded]
    · split
      · next s heq => exact absurd heq (padded_append_ne (by decide))
      · next s heq => exact absurd heq (padded_append_ne (by decide))
      · rw [hread, Option.map_some]
        simp only [Option.some.injEq, Prod.mk.injEq, and_true]
        omega
  · split
    · next hneg =>
      rw [List.cons_append, year, Text.trimStart_cons rfl]
      simp only [hsigned, Option.map_some, Option.some.injEq, Prod.mk.injEq, and_true]
      omega
    · next hpos =>
      rw [List.cons_append, year, Text.trimStart_cons rfl]
      simp only [hsigned, Option.map_some, Option.some.injEq, Prod.mk.injEq, and_true]
      omega

/-- The nanoseconds are read from as many digits as they need. -/
lemma nanosPart_fractionText (hn : n < 10 ^ 9) :
    nanosPart (fractionText n ++ ['Z']) = some (n, ['Z']) := by
  have hstops : Stops ['Z'] := stops_cons rfl
  have hread : ∀ w m : Nat, 0 < w → w ≤ 9 → m < 10 ^ w →
      nanosPart ('.' :: padded w m ++ ['Z']) = some (m * Nat.pow 10 (9 - w), ['Z']) := by
    intro w m hpos hw hm
    have hlength := Text.length_padded hpos hm
    rw [List.cons_append, nanosPart, digits_padded (by omega) (.inr hstops), hlength]
    rfl
  unfold fractionText
  split
  · next hzero =>
    subst hzero
    rfl
  split
  · next hmillis =>
    rw [hread 3 _ (by decide) (by decide) (by omega)]
    simp only [Option.some.injEq, Prod.mk.injEq, and_true]
    change n / 1000000 * 1000000 = n
    omega
  split
  · next hmicros =>
    rw [hread 6 _ (by decide) (by decide) (by omega)]
    simp only [Option.some.injEq, Prod.mk.injEq, and_true]
    change n / 1000 * 1000 = n
    omega
  · rw [hread 9 _ (by decide) (by decide) hn]
    simp only [Option.some.injEq, Prod.mk.injEq, and_true]
    change n * 1 = n
    omega

/-! ## The whole text -/

lemma ofLocal_utc {t : Instant} (h : t.Valid) :
    ofLocal t.date t.minute t.second t.nanos 0 = some t := by
  have hminute := h.minute
  have hlow : ¬ (t.minute : Int) - 0 < 0 := by omega
  have hhigh : ¬ 1440 ≤ (t.minute : Int) - 0 := by omega
  simp only [ofLocal, if_neg hlow, if_neg hhigh, h.date]
  rfl

/-- A text is read part by part. -/
lemma parse?_of_parts {text : String} {y : Int} {month day hour minute second nanos : Nat}
    {s₁ s₂ s₃ s₄ s₅ s₆ s₇ s₈ s₉ s₁₀ s₁₁ : List Char}
    (hyear : year text.toList = some (y, s₁)) (hfirst : separator '-' s₁ = some s₂)
    (hmonth : part 2 1 12 s₂ = some (month, s₃)) (hsecond : separator '-' s₃ = some s₄)
    (hday : part 2 1 31 s₄ = some (day, s₅)) (hdate : dateEnd s₅ = some s₆)
    (hhour : part 2 0 23 s₆ = some (hour, s₇)) (hthird : separator ':' s₇ = some s₈)
    (hminute : part 2 0 59 s₈ = some (minute, s₉)) (hfourth : separator ':' s₉ = some s₁₀)
    (hseconds : part 2 0 60 s₁₀ = some (second, s₁₁))
    (hnanos : nanosPart s₁₁ = some (nanos, ['Z'])) :
    parse? text = ofLocal ⟨y, month, day⟩ (hour * 60 + minute) second nanos 0 := by
  simp only [parse?, bind, Option.bind_some, hyear, hfirst, hmonth, hsecond, hday, hdate, hhour,
    hthird, hminute, hfourth, hseconds, hnanos]
  rfl

/-- A valid instant is read back from its text. -/
lemma parse?_text {t : Instant} (h : t.Valid) : parse? t.text = some t := by
  have hdate := h.date
  simp only [Day.isValid, Bool.and_eq_true, decide_eq_true_eq] at hdate
  obtain ⟨⟨⟨⟨-, hmonth⟩, hmonths⟩, hday⟩, hdays⟩ := hdate
  have hlast : t.date.day ≤ 31 := by
    refine Nat.le_trans hdays ?_
    unfold Day.daysIn
    split
    · split <;> omega
    · split <;> omega
  have hminute := h.minute
  have hsecond := h.second
  have htime : t.minute / 60 * 60 + t.minute % 60 = t.minute := by omega
  have hyear : year t.text.toList = some (t.date.year, '-' :: (padded 2 t.date.month
      ++ '-' :: (padded 2 t.date.day ++ 'T' :: (padded 2 (t.minute / 60)
      ++ ':' :: (padded 2 (t.minute % 60) ++ ':' :: (padded 2 t.second
      ++ (fractionText t.nanos ++ ['Z']))))))) := by
    simp only [text, String.toList_ofList, List.append_assoc, List.cons_append]
    exact year_yearText _
  rw [parse?_of_parts hyear (separator_cons rfl) (part_padded (by omega) hmonth hmonths)
    (separator_cons rfl) (part_padded (by omega) hday hlast) rfl
    (part_padded (by omega) (Nat.zero_le _) (by omega)) (separator_cons rfl)
    (part_padded (by omega) (Nat.zero_le _) (by omega)) (separator_cons rfl)
    (part_padded (by omega) (Nat.zero_le _) hsecond) (nanosPart_fractionText h.nanos), htime]
  exact ofLocal_utc h

end Instant
end Changefeed
