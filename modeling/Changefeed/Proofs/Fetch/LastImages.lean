import Changefeed.Proofs.Fetch.FinalRows
import Changefeed.Proofs.Fetch.Held

/-!
# The last image of each row

Of all changes under a key, the last one decides what is given out: nothing when it is a delete, and
otherwise its row, as an insert.  A row keeps the place at which its key was first seen, also when
it was deleted and inserted again.

A change without a key ends the reading of a split.  It leaves the reader with the rows of the
changes before it.
-/

namespace Changefeed

namespace ChangeEvent

variable {column : String} {e : ChangeEvent}

/-- The image that identifies the row has a key. -/
def HasKey (column : String) (e : ChangeEvent) : Prop :=
  ∃ value, e.keyValue column = some value ∧ value ≠ .null

/-- A key has a text. -/
lemma hasKey_iff : e.HasKey column ↔ ∃ key, e.keyText? column = some key := by
  unfold HasKey keyValue keyText?
  cases e.row with
  | none => simp
  | some row =>
    simp only [Option.bind_some, Changefeed.keyText?]
    split
    · next h => simp [h]
    · next h => simp [h]
    · next value hnull hvalue =>
      exact ⟨fun _ => ⟨value.compact, rfl⟩, fun _ => ⟨value, hvalue, hnull⟩⟩

lemma keyText?_eq_none_of_not_hasKey (h : ¬ e.HasKey column) : e.keyText? column = none := by
  rw [hasKey_iff, not_exists] at h
  exact Option.eq_none_iff_forall_ne_some.mpr h

instance (column : String) (e : ChangeEvent) : Decidable (e.HasKey column) :=
  decidable_of_iff ((e.keyText? column).isSome = true)
    (by rw [hasKey_iff, Option.isSome_iff_exists])

end ChangeEvent

namespace Normalizer

variable {column : String} {es : List ChangeEvent}

/-- Under each key, in the order in which the keys are first seen, the row of the last change, as an
insert as of a watermark, unless that change is a delete. -/
def lastImages (column : String) (es : List ChangeEvent) (w : Offset) : List ChangeEvent :=
  (keysOf column es).filterMap fun key =>
    ((es.filter (ChangeEvent.names column key)).getLast?.filter fun e => e.kind ≠ .delete).map
      fun e => { e with position := w, kind := .insert, before := none }

/-- The fault of a change without a key: a malformed record, told by its table and its position. -/
def refusal (column : String) (e : ChangeEvent) : Fault :=
  .malformedRecord (.rowWithoutKey e.tableId.text e.position.text column)

lemma finalRows_eq_lastImages (column : String) (es : List ChangeEvent) (w : Offset) :
    finalRows column es w = lastImages column es w := by
  rw [finalRows, lastImages]
  refine List.filterMap_congr fun key _ => ?_
  cases (es.filter (ChangeEvent.names column key)).getLast? with
  | none => rfl
  | some e =>
    obtain ⟨position, tableId, kind, before, after, timestampMs⟩ := e
    cases kind <;> rfl

/-- Changes with keys are all taken, and the last image of each key is given out, in the order in
which the keys are first seen.  A change without a key is refused, and a reader that comes to one
keeps the rows of the changes before it. -/
theorem last_images_in_order (hes : ∀ e ∈ es, e.HasKey column) :
    ∃ n, applyAll { keyColumn := column } es = .ok n ∧
      (∀ w, n.finish w = lastImages column es w) ∧
      ∀ e, ¬ e.HasKey column →
        n.apply e = .error (refusal column e) ∧
        ∀ (r : Reader) m rest, r.mode = .normalize { keyColumn := column } →
          r.absorbAll m (es.map .change ++ .change e :: rest) =
            (.error (refusal column e), { r with mode := .normalize n }, m) := by
  obtain ⟨n, happly, hcolumn, hfiles⟩ := applyAll_files (n := { keyColumn := column })
    (files_nil column) fun e he => ChangeEvent.hasKey_iff.mp (hes e he)
  obtain rfl : n.keyColumn = column := hcolumn
  refine ⟨n, happly, fun w => ?_, fun e he => ?_⟩
  · rw [Files.finish hfiles w, finalRows_eq_lastImages, List.nil_append]
  · have hrefused : n.apply e = .error (refusal n.keyColumn e) :=
      apply_error (ChangeEvent.keyText?_eq_none_of_not_hasKey he)
    refine ⟨hrefused, fun r m rest hmode => ?_⟩
    have habsorb : Reader.absorb { r with mode := .normalize n } (.change e) =
        .error (refusal n.keyColumn e) := by
      simp [Reader.absorb, Reader.absorbChange, hrefused]
    rw [Reader.absorbAll_held hmode m happly, Reader.absorbAll, habsorb]

/-! ## A shelf of books -/

/-- A book and its copies. -/
def book (id : Json.Value) (copies : Int) : Json.Object :=
  [("copies", .number (.int copies)), ("id", id)]

/-- A book is taken away and put back, one is updated, one that was never seen is taken away, and
one has a text for its number. -/
def bookChanges : List ChangeEvent :=
  let place (n : UInt64) : Offset := .binlog "log.1" n
  let two := Json.Value.number (.int 2)
  let one := Json.Value.number (.int 1)
  [.insert (place 10) ⟨"shop", "books"⟩ (book two 20) 1,
    .insert (place 20) ⟨"shop", "books"⟩ (book one 10) 2,
    .delete (place 30) ⟨"shop", "books"⟩ (book (.number (.int 3)) 30) 3,
    .update (place 40) ⟨"shop", "books"⟩ (book one 10) (book one 11) 4,
    .delete (place 50) ⟨"shop", "books"⟩ (book two 20) 5,
    .insert (place 60) ⟨"shop", "books"⟩ (book (.string "2") 5) 6,
    .insert (place 70) ⟨"shop", "books"⟩ (book two 22) 7]

/-- The book that was put back comes first, as it was seen first, and a book without a number is
refused. -/
theorem last_images_in_order_books :
    let w : Offset := .binlog "log.1" 90
    let nameless := ChangeEvent.insert (.binlog "log.1" 80) ⟨"shop", "books"⟩ (book .null 1) 8
    (∀ e ∈ bookChanges, e.HasKey "id") ∧ ¬ nameless.HasKey "id" ∧
      ∃ n, applyAll { keyColumn := "id" } bookChanges = .ok n ∧
        n.finish w =
          [.insert w ⟨"shop", "books"⟩ (book (.number (.int 2)) 22) 7,
            .insert w ⟨"shop", "books"⟩ (book (.number (.int 1)) 11) 4,
            .insert w ⟨"shop", "books"⟩ (book (.string "2") 5) 6] ∧
        n.apply nameless = .error (refusal "id" nameless) := by
  intro w nameless
  have hkeys : ∀ e ∈ bookChanges, e.HasKey "id" := by decide +kernel
  have hnameless : ¬ nameless.HasKey "id" := by decide +kernel
  obtain ⟨n, happly, hfinish, hrefused⟩ := last_images_in_order hkeys
  refine ⟨hkeys, hnameless, n, happly, ?_, (hrefused nameless hnameless).1⟩
  rw [hfinish]
  rfl

end Normalizer
end Changefeed
