/-!
# Maps in key order

A map is the list of its entries in ascending order of the keys, each key once.  All operations keep
that form, so the order in which entries come out is the order of the keys, and two maps with the
same entries are the same list.
-/

namespace Changefeed

/-- Entries in ascending order of their keys. -/
abbrev SortedMap (κ α : Type) := List (κ × α)

namespace SortedMap

variable {κ α : Type} [Ord κ]

/-- The value stored under `k`. -/
def find? (m : SortedMap κ α) (k : κ) : Option α :=
  match m with
  | [] => none
  | (k', v) :: rest =>
    match compare k k' with
    | .lt => none
    | .eq => some v
    | .gt => find? rest k

/-- `k` has a value. -/
def contains (m : SortedMap κ α) (k : κ) : Bool := (m.find? k).isSome

/-- The map with `v` stored under `k`, in place of any value that was there. -/
def insert (m : SortedMap κ α) (k : κ) (v : α) : SortedMap κ α :=
  match m with
  | [] => [(k, v)]
  | (k', v') :: rest =>
    match compare k k' with
    | .lt => (k, v) :: (k', v') :: rest
    | .eq => (k, v) :: rest
    | .gt => (k', v') :: insert rest k v

/-- The map without `k`. -/
def erase (m : SortedMap κ α) (k : κ) : SortedMap κ α :=
  match m with
  | [] => []
  | (k', v') :: rest =>
    match compare k k' with
    | .lt => (k', v') :: rest
    | .eq => rest
    | .gt => (k', v') :: erase rest k

/-- The keys, ascending. -/
def keys {κ α : Type} (m : SortedMap κ α) : List κ := List.map Prod.fst m

/-- The values, in the order of their keys. -/
def values {κ α : Type} (m : SortedMap κ α) : List α := List.map Prod.snd m

/-- Entries stored one after the other: of two with the same key the later one stays. -/
def ofEntries (entries : List (κ × α)) : SortedMap κ α :=
  entries.foldl (fun m (k, v) => SortedMap.insert m k v) []

/-- The distinct keys of a list, ascending. -/
def keySet (ks : List κ) : List κ :=
  SortedMap.keys (SortedMap.ofEntries (ks.map fun k => (k, ())))

end SortedMap
end Changefeed
