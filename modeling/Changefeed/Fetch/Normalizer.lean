import Changefeed.Event
import Changefeed.Json.Writer
import Changefeed.SortedMap

/-!
# Final rows of a snapshot split

A snapshot split that is delivered exactly once holds all of its rows and changes until its
watermark, and then delivers the last image of each row, in the order in which the rows were first
seen.  Rows are told apart by the text of their key.

A row gets a slot when it is first seen and keeps it: a deleted row leaves its slot empty, and a row
that is inserted again fills the slot that it had.
-/

namespace Changefeed

/-- The images of the rows seen so far, and where they are. -/
structure RowSlots where
  /-- The last image of each row, in the order in which the rows were first seen; `none` when the
  row was deleted. -/
  images : List (Option ChangeEvent) := []
  /-- The number of the row's slot by the text of its key. -/
  index : SortedMap String Nat := []

/-- The rows seen so far. -/
structure Normalizer where
  keyColumn : String
  slots : RowSlots := {}

namespace Normalizer

/-- The number of a row's slot, and the slots with one for the row; a new one comes last. -/
def slotOf (key : String) (slots : RowSlots) : Nat × RowSlots :=
  match slots.index.find? key with
  | some i => (i, slots)
  | none =>
    (slots.images.length,
      { images := slots.images ++ [none]
        index := slots.index.insert key slots.images.length })

/-- The slots with that of a row filled, or left empty. -/
def setSlot (key : String) (image : Option ChangeEvent) (slots : RowSlots) : RowSlots :=
  let (i, slots) := slotOf key slots
  { slots with images := slots.images.set i image }

/-- What is kept of a change: the row after it, as an insert. -/
def imageOf (e : ChangeEvent) : Option ChangeEvent :=
  match e.kind with
  | .delete => none
  | .insert | .update => some { e with kind := .insert, before := none }

/-- The text of the row's key; a null key is none. -/
def keyText (n : Normalizer) (e : ChangeEvent) : Option String :=
  match e.keyValue n.keyColumn with
  | none | some .null => none
  | some key => some key.compact

/-- Takes a change of a row, which has to have a key. -/
def apply (n : Normalizer) (e : ChangeEvent) : Outcome Normalizer :=
  match n.keyText e with
  | none => .error (.malformedRecord (.rowWithoutKey e.tableId.text e.position.text n.keyColumn))
  | some key => .ok { n with slots := setSlot key (imageOf e) n.slots }

/-- The final rows, as of a watermark. -/
def finish (n : Normalizer) (watermark : Offset) : List ChangeEvent :=
  n.slots.images.filterMap fun image => image.map fun e => { e with position := watermark }

end Normalizer
end Changefeed
