import Mathlib.Data.List.Basic
import Changefeed.Checkpoint.Disk
import Changefeed.Proofs.SortedMap
import Changefeed.Proofs.Text

/-!
# Files in one folder

Seen from a folder that exists, a path that is just a name leads to the place of that name in the
folder.  Writing, moving and removing files by their names then changes what is at those places and
nothing else on the disk.
-/

namespace Changefeed
namespace Disk

/-- The path is the name of a file: it is one part, which does not lead elsewhere, and not too
long. -/
structure IsName (name : String) : Prop where
  slash : '/' ∉ name.toList
  zero : '\x00' ∉ name.toList
  empty : name ≠ ""
  point : name ≠ "."
  points : name ≠ ".."
  bytes : name.utf8ByteSize ≤ maxNameBytes

/-- The map of places is in order. -/
def Ordered (d : Disk) : Prop := SortedMap.Ascending d.nodes

variable {d : Disk} {folder : Place} {name : String}

/-- A name leads to its place in the folder. -/
lemma resolve_name (hfolder : d.node? folder = some .folder) (hname : IsName name) :
    d.resolve folder name = .ok (folder ++ [name]) := by
  have hparts : partsOf name = [name] := by
    rw [partsOf, Text.pieces_of_not_mem hname.slash, List.map_singleton, String.ofList_toList]
  have hhead : name.toList.head? ≠ some '/' := fun hhead =>
    hname.slash (List.mem_of_mem_head? hhead)
  have hzero : name.toList.contains '\x00' = false := by simpa using hname.zero
  have hbytes : ¬ maxPathBytes < name.utf8ByteSize :=
    Nat.not_lt.mpr (Nat.le_trans hname.bytes (by decide))
  have hstep : d.step folder name = .ok (folder ++ [name]) := by
    simp only [step, hfolder, hname.empty, hname.point, hname.points, or_self, if_false,
      if_neg (Nat.not_lt.mpr hname.bytes)]
  rw [resolve, hzero, decide_eq_false hbytes, hparts, if_neg hhead]
  simp only [Bool.or_self, Bool.false_eq_true, if_false, walk, hstep]

/-! ## What is where after a change -/

/-- The disk with a node at a place. -/
def put (d : Disk) (place : Place) (node : Node) : Disk := ⟨d.nodes.insert place node⟩

/-- The disk with nothing at a place. -/
def clear (d : Disk) (place : Place) : Disk := ⟨d.nodes.erase place⟩

lemma Ordered.put (hd : d.Ordered) (place : Place) (node : Node) : (d.put place node).Ordered :=
  SortedMap.ascending_insert hd place node

lemma Ordered.clear (hd : d.Ordered) (place : Place) : (d.clear place).Ordered :=
  SortedMap.ascending_erase hd place

lemma node?_put {place : Place} (hplace : place ≠ []) (node : Node) (other : Place) :
    (d.put place node).node? other = if other = place then some node else d.node? other := by
  by_cases hroot : other = []
  · subst hroot
    simp [node?, Ne.symm hplace]
  · simp only [node?, put, if_neg hroot, SortedMap.find?_insert]

lemma node?_clear (hd : d.Ordered) {place : Place} (hplace : place ≠ []) (other : Place) :
    (d.clear place).node? other = if other = place then none else d.node? other := by
  by_cases hroot : other = []
  · subst hroot
    simp [node?, Ne.symm hplace]
  · simp only [node?, clear, if_neg hroot, SortedMap.find?_erase hd]

lemma ne_append_singleton (folder : Place) (name : String) : folder ≠ folder ++ [name] := by simp

lemma append_singleton_ne_nil (folder : Place) (name : String) : folder ++ [name] ≠ [] := by simp

/-- The names in a folder are those under which there is something. -/
lemma mem_names_iff (hd : d.Ordered) :
    name ∈ d.names folder ↔ ∃ node, d.node? (folder ++ [name]) = some node := by
  have hfind : ∀ node, d.node? (folder ++ [name]) = some node ↔
      (folder ++ [name], node) ∈ d.nodes := fun node => by
    rw [node?, if_neg (append_singleton_ne_nil folder name), SortedMap.find?_eq_some_iff hd]
  simp only [names, SortedMap.keys, List.mem_filterMap, List.mem_map, Option.ite_none_right_eq_some,
    hfind]
  constructor
  · rintro ⟨place, ⟨⟨place', node⟩, hmem, rfl⟩, hinner, hlast⟩
    have hplace : place' = folder ++ [name] := by
      rw [← hinner, List.dropLast_append_getLast? name hlast]
    exact ⟨node, hplace ▸ hmem⟩
  · rintro ⟨node, hmem⟩
    exact ⟨_, ⟨_, hmem, rfl⟩, List.dropLast_concat, List.getLast?_concat⟩

/-! ## Reading and writing by name -/

section

variable (hfolder : d.node? folder = some .folder) (hname : IsName name)

include hfolder hname

lemma read_name_none (h : d.node? (folder ++ [name]) = none) :
    d.read folder name = .error (.system .notFound) := by
  simp only [read, resolve_name hfolder hname, h]

lemma read_name {text : String} (h : d.node? (folder ++ [name]) = some (.file text)) :
    d.read folder name = .ok text := by
  simp only [read, resolve_name hfolder hname, h]

lemma write_name (h : d.node? (folder ++ [name]) ≠ some .folder) (text : String) :
    d.write folder name text = .ok (d.put (folder ++ [name]) (.file text)) := by
  simp only [write, resolve_name hfolder hname, if_neg h, put]

lemma remove_name_none (h : d.node? (folder ++ [name]) = none) :
    d.remove folder name = .error (.system .notFound) := by
  simp only [remove, resolve_name hfolder hname, h]

lemma remove_name {text : String} (h : d.node? (folder ++ [name]) = some (.file text)) :
    d.remove folder name = .ok (d.clear (folder ++ [name])) := by
  simp only [remove, resolve_name hfolder hname, h, clear]

/-- A file is moved from its name to another one that is not the name of a folder. -/
lemma move_name {target : String} (htarget : IsName target) (hne : name ≠ target) {text : String}
    (h : d.node? (folder ++ [name]) = some (.file text))
    (hfree : d.node? (folder ++ [target]) ≠ some .folder) :
    d.move folder name target =
      .ok ((d.put (folder ++ [target]) (.file text)).clear (folder ++ [name])) := by
  have hplaces : folder ++ [name] ≠ folder ++ [target] := by simpa using hne
  have hput := node?_put (d := d) (append_singleton_ne_nil folder target) (.file text)
  have hstill : (d.put (folder ++ [target]) (.file text)).node? folder = some .folder := by
    rw [hput, if_neg (ne_append_singleton folder target), hfolder]
  have hsource : (d.put (folder ++ [target]) (.file text)).node? (folder ++ [name]) =
      some (.file text) := by
    rw [hput, if_neg hplaces, h]
  simp only [move, read_name hfolder hname h, write_name hfolder htarget hfree,
    remove_name hstill hname hsource]

end

end Disk
end Changefeed
