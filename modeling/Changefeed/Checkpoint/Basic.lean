import Changefeed.Split
import Changefeed.Time.Instant

/-!
# Checkpoints

A checkpoint holds how far an incremental split has been delivered.  Applied to the split it gives a
split that goes on from there.  Checkpoints are stored under a key made of the split's scope and
number.
-/

namespace Changefeed

/-- The progress of a split. -/
structure Checkpoint where
  splitId : SplitId
  tableIds : List TableId
  offset : Offset
  createdAt : Instant
deriving DecidableEq, Repr

/-- The key that the checkpoint of a split is stored under. -/
def SplitId.checkpointKey (id : SplitId) : String :=
  id.scope ++ "_" ++ Text.decimal id.index.toNat

namespace Checkpoint

/-- The key that the checkpoint is stored under. -/
def key (c : Checkpoint) : String := c.splitId.checkpointKey

/-- The split, going on from the checkpoint. -/
def applyTo (c : Checkpoint) (split : IncrementalSplit) : IncrementalSplit :=
  { split.startingAt c.offset with tableIds := c.tableIds }

/-- A split made of the checkpoint alone; it has no end. -/
def toSplit (c : Checkpoint) : IncrementalSplit :=
  { splitIndex := c.splitId.index, tableIds := c.tableIds, startingOffset := c.offset }

end Checkpoint

/-! ## In memory -/

/-- Checkpoints kept in memory. -/
structure MemoryCheckpoints where
  entries : SortedMap SplitId Checkpoint := []

namespace MemoryCheckpoints

/-- The store with a checkpoint in place of the split's last one. -/
def save (s : MemoryCheckpoints) (c : Checkpoint) : MemoryCheckpoints :=
  ⟨s.entries.insert c.splitId c⟩

/-- The checkpoint of a split. -/
def load (s : MemoryCheckpoints) (id : SplitId) : Option Checkpoint := s.entries.find? id

/-- The store without the checkpoint of a split. -/
def delete (s : MemoryCheckpoints) (id : SplitId) : MemoryCheckpoints := ⟨s.entries.erase id⟩

/-- The splits that have a checkpoint, in order. -/
def list (s : MemoryCheckpoints) : List SplitId := s.entries.values.map Checkpoint.splitId

end MemoryCheckpoints
end Changefeed
