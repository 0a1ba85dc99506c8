import Changefeed.Checkpoint.Disk
import Changefeed.Wire.Checkpoint

/-!
# Checkpoints in files

Every checkpoint is a file of its own in one folder, named by its key.  Saving writes a temporary
file beside it, named as the file with another extension, and moves that into place, so a file is
never seen half written.  What has been saved or loaded is also kept in memory, and answered from
there.  Opening a folder loads all files in it that hold a checkpoint.  A key that could name a place
outside of the folder is refused in saving.
-/

namespace Changefeed

/-- Two points stand next to each other. -/
def hasDoublePoint : List Char → Bool
  | [] => false
  | c :: rest => (c = '.' && rest.head? = some '.') || hasDoublePoint rest

/-- A key that names a file in the folder itself. -/
def isSafeKey (key : String) : Bool :=
  !key.isEmpty && !key.toList.contains '/' && !key.toList.contains '\\'
    && !hasDoublePoint key.toList

/-- Checkpoints in the files of a folder. -/
structure CheckpointFolder where
  folder : Place
  disk : Disk
  /-- What has been saved or loaded, by key. -/
  known : SortedMap String Checkpoint := []

namespace CheckpointFolder

/-- The name of a checkpoint's file. -/
def fileName (key : String) : String := key ++ ".json"

/-- A path up to its last slash, and its last part behind it. -/
def cutName (path : List Char) : List Char × List Char :=
  match Text.cutLast '/' path with
  | some (front, name) => (front ++ ['/'], name)
  | none => ([], path)

/-- A name without its extension.  That begins at the last point; a point in front begins none. -/
def stem (name : List Char) : List Char :=
  match Text.cutLast '.' name with
  | some ([], _) => name
  | some (stem, _) => stem
  | none => name

/-- The path to a name with another extension, in place of its own if it has one. -/
def withExtension (path extension : String) : String :=
  let (front, name) := cutName path.toList
  String.ofList (front ++ stem name) ++ "." ++ extension

/-- The name of the file that is written before it is moved into place. -/
def temporaryName (key : String) : String := withExtension (fileName key) "tmp"

/-- Saves a checkpoint.  A file that cannot be moved into place leaves the temporary one behind. -/
def save (s : CheckpointFolder) (c : Checkpoint) : Outcome Unit × CheckpointFolder :=
  if isSafeKey c.key then
    match s.disk.write s.folder (temporaryName c.key) c.fileText with
    | .error f => (.error f, s)
    | .ok written =>
      match written.move s.folder (temporaryName c.key) (fileName c.key) with
      | .error f => (.error f, { s with disk := written })
      | .ok moved => (.ok (), { s with disk := moved, known := s.known.insert c.key c })
  else (.error (.config (.badCheckpointKey c.key)), s)

/-- The checkpoint of a key. -/
def loadKey (s : CheckpointFolder) (key : String) : Outcome (Option Checkpoint) × CheckpointFolder :=
  match s.known.find? key with
  | some c => (.ok (some c), s)
  | none =>
    match s.disk.read s.folder (fileName key) with
    | .error (.system .notFound) => (.ok none, s)
    | .error f => (.error f, s)
    | .ok text =>
      match Checkpoint.ofFileText? text with
      | some c => (.ok (some c), { s with known := s.known.insert key c })
      | none => (.error .json, s)

/-- The checkpoint of a split. -/
def load (s : CheckpointFolder) (id : SplitId) : Outcome (Option Checkpoint) × CheckpointFolder :=
  s.loadKey id.checkpointKey

/-- Deletes the checkpoint of a split; that there is none is no fault. -/
def delete (s : CheckpointFolder) (id : SplitId) : Outcome Unit × CheckpointFolder :=
  let forgotten := s.known.erase id.checkpointKey
  match s.disk.remove s.folder (fileName id.checkpointKey) with
  | .ok disk => (.ok (), { s with disk, known := forgotten })
  | .error (.system .notFound) => (.ok (), { s with known := forgotten })
  | .error f => (.error f, s)

/-- Inserts an identity into an ordered list. -/
def insertId (id : SplitId) : List SplitId → List SplitId
  | [] => [id]
  | other :: rest =>
    if compare other id = .lt then other :: insertId id rest else id :: other :: rest

/-- The splits of the checkpoints that are kept in memory, in order; a split occurs as often as
there are checkpoints of it. -/
def list (s : CheckpointFolder) : List SplitId :=
  (s.known.values.map Checkpoint.splitId).foldr insertId []

/-- The key of a checkpoint's file: what stands before the last point, when `json` stands behind
it. -/
def keyOfFile (name : String) : Option String :=
  match Text.cutLast '.' name.toList with
  | some (stem, extension) =>
    if stem ≠ [] ∧ extension = ['j', 's', 'o', 'n'] then some (String.ofList stem) else none
  | none => none

/-- The store opened anew: all files that hold a checkpoint are loaded. -/
def reopen (s : CheckpointFolder) : CheckpointFolder :=
  ((s.disk.names s.folder).filterMap keyOfFile).foldl (fun s key => (s.loadKey key).2)
    { s with known := [] }

end CheckpointFolder
end Changefeed
