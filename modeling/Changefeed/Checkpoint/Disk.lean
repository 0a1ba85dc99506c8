import Changefeed.Fault
import Changefeed.SortedMap
import Changefeed.Text.Pieces

/-!
# A tree of folders and files

What a disk holds, as a map from places to nodes; the root is always a folder.  A path names a
place seen from a folder: its parts are walked one after the other, each from an existing folder.
An empty part and `.` stay where they are, `..` goes up, and a path that begins with a slash starts
at the root.  Names have at most 255 bytes and paths at most 4095, and no path holds the character
zero.
-/

namespace Changefeed

/-- The names on the way from the root. -/
abbrev Place := List String

/-- What can be at a place. -/
inductive Node where
  | folder
  | file (text : String)
deriving DecidableEq, Repr

/-- A tree of folders and files. -/
structure Disk where
  nodes : SortedMap Place Node
deriving DecidableEq

namespace Disk

/-- The disk with nothing but folders on the way to a place. -/
def withFolder (place : Place) : Disk :=
  ⟨SortedMap.ofEntries ((List.range place.length).map fun n => (place.take (n + 1), .folder))⟩

/-- What is at a place. -/
def node? (d : Disk) (place : Place) : Option Node :=
  if place = [] then some .folder else d.nodes.find? place

/-- The greatest length of a name in bytes. -/
def maxNameBytes : Nat := 255

/-- The greatest length of a path in bytes. -/
def maxPathBytes : Nat := 4095

/-- Walks one part of a path. -/
def step (d : Disk) (place : Place) (part : String) : Outcome Place :=
  match d.node? place with
  | none => .error (.system .notFound)
  | some (.file _) => .error (.system .notADirectory)
  | some .folder =>
    if part = "" ∨ part = "." then .ok place
    else if part = ".." then .ok place.dropLast
    else if maxNameBytes < part.utf8ByteSize then .error (.system .invalidName)
    else .ok (place ++ [part])

/-- Walks several parts of a path. -/
def walk (d : Disk) (place : Place) : List String → Outcome Place
  | [] => .ok place
  | part :: rest =>
    match d.step place part with
    | .ok next => d.walk next rest
    | .error f => .error f

/-- The parts of a path. -/
def partsOf (path : String) : List String := (Text.pieces '/' path.toList).map String.ofList

/-- The place of a path seen from a folder. -/
def resolve (d : Disk) (folder : Place) (path : String) : Outcome Place :=
  if path.toList.contains '\x00' || maxPathBytes < path.utf8ByteSize then
    .error (.system .invalidName)
  else d.walk (if path.toList.head? = some '/' then [] else folder) (partsOf path)

/-- The text of a file. -/
def read (d : Disk) (folder : Place) (path : String) : Outcome String :=
  match d.resolve folder path with
  | .error f => .error f
  | .ok place =>
    match d.node? place with
    | none => .error (.system .notFound)
    | some .folder => .error (.system .isADirectory)
    | some (.file text) => .ok text

/-- The disk with a file of this text. -/
def write (d : Disk) (folder : Place) (path text : String) : Outcome Disk :=
  match d.resolve folder path with
  | .error f => .error f
  | .ok place =>
    if d.node? place = some .folder then .error (.system .isADirectory)
    else .ok ⟨d.nodes.insert place (.file text)⟩

/-- The disk without a file. -/
def remove (d : Disk) (folder : Place) (path : String) : Outcome Disk :=
  match d.resolve folder path with
  | .error f => .error f
  | .ok place =>
    match d.node? place with
    | none => .error (.system .notFound)
    | some .folder => .error (.system .isADirectory)
    | some (.file _) => .ok ⟨d.nodes.erase place⟩

/-- The disk with a file moved, in place of any file that was there. -/
def move (d : Disk) (folder : Place) (source target : String) : Outcome Disk :=
  match d.read folder source with
  | .error f => .error f
  | .ok text =>
    match d.write folder target text with
    | .error f => .error f
    | .ok written => written.remove folder source

/-- The path without the slashes it ends with. -/
def withoutFinalSlashes (path : String) : String :=
  String.ofList (path.toList.reverse.dropWhile (· = '/')).reverse

/-- The disk with a new folder; slashes may follow its name. -/
def makeFolder (d : Disk) (folder : Place) (path : String) : Outcome Disk :=
  match d.resolve folder (withoutFinalSlashes path) with
  | .error f => .error f
  | .ok place =>
    if (d.node? place).isSome then .error (.system .other)
    else .ok ⟨d.nodes.insert place .folder⟩

/-- The names in a folder, in order. -/
def names (d : Disk) (folder : Place) : List String :=
  d.nodes.keys.filterMap fun place =>
    if place.dropLast = folder then place.getLast? else none

end Disk
end Changefeed
