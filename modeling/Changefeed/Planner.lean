import Changefeed.Split

/-!
# Planning snapshot splits

A table is cut into chunks of its key, an integer of 64 bits and a sign.  The bounds between the
chunks start one chunk above the least key and lie one chunk apart up to the greatest key.  The
first split is open below and the last one above, so keys outside of the observed range are covered
too.
-/

namespace Changefeed

/-- The number of keys in a chunk, at least one. -/
structure ChunkSize where
  keys : Nat
  positive : 0 < keys

namespace ChunkSize

/-- A chunk size, which has to be positive. -/
def make (n : Int) : Outcome ChunkSize :=
  if h : 0 < n then .ok ⟨n.toNat, by omega⟩ else .error (.config .chunkSizeNotPositive)

/-- The greatest key: `2 ^ 63 - 1`. -/
def maxKey : Int := 0x7FFFFFFFFFFFFFFF

/-- The bounds from `bound` up to `top`. -/
def boundsFrom (c : ChunkSize) (bound top : Int) : List Int :=
  if bound ≤ top then bound :: c.boundsFrom (bound + c.keys) top else []
termination_by (top + 1 - bound).toNat
decreasing_by
  have := c.positive
  omega

/-- The bounds between the chunks of the keys from `least` to `greatest`. -/
def bounds (c : ChunkSize) (least greatest : Int) : List Int :=
  if greatest < least then [] else c.boundsFrom (min (least + c.keys) maxKey) greatest

/-- A bound as a key. -/
def boundKey (bound : Int) : Json.Value := .number (.int bound)

/-- The ranges between bounds, from `low` on. -/
def rangesFrom (low : Option Json.Value) : List Int → List KeyRange
  | [] => [⟨low, none⟩]
  | bound :: rest => ⟨low, some (boundKey bound)⟩ :: rangesFrom (some (boundKey bound)) rest

/-- The ranges of the chunks, in order. -/
def ranges (c : ChunkSize) (least greatest : Int) : List KeyRange :=
  rangesFrom none (c.bounds least greatest)

/-- The splits of a table whose keys go from `least` to `greatest`; numbers have 32 bits. -/
def plan (c : ChunkSize) (tableId : TableId) (keyColumn : String) (least greatest : Int) :
    List SnapshotSplit :=
  (c.ranges least greatest).mapIdx fun i keyRange =>
    { tableId, keyColumn, keyRange, splitIndex := UInt32.ofNat i }

end ChunkSize
end Changefeed
