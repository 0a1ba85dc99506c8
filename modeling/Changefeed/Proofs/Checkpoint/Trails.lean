import Mathlib.Data.List.Induction
import Changefeed.Proofs.Checkpoint.Disk

/-!
# The places that a path comes to

Walking a path asks for what is at one place after the other.  These places are its trail: two disks
that have the same at all of them read the path alike, and two disks with the same folders have the
same trail.  Where the trail ends there is a file that is read and removed, or both fail alike.  A
file on the trail of a path is never passed: it is what the path leads to, or the path fails there.
-/

namespace Changefeed

/-- What a text ends with, without separators, is what its last piece ends with. -/
lemma Text.exists_pieces_append {sep : Char} {ending : List Char} (h : sep ∉ ending)
    (s : List Char) : ∃ front stem, pieces sep (s ++ ending) = front ++ [stem ++ ending] := by
  induction s with
  | nil => exact ⟨[], [], pieces_of_not_mem h⟩
  | cons c s ih =>
    obtain ⟨front, stem, hpieces⟩ := ih
    rw [List.cons_append, pieces, hpieces]
    split
    · exact ⟨[] :: front, stem, rfl⟩
    · cases front with
      | nil => exact ⟨[], c :: stem, rfl⟩
      | cons first front => exact ⟨(c :: first) :: front, stem, rfl⟩

namespace Disk

variable {d d' : Disk} {folder place next : Place} {path part name : String} {parts : List String}

/-! ## Trees -/

instance (name : String) : Decidable (IsName name) :=
  decidable_of_iff ('/' ∉ name.toList ∧ '\x00' ∉ name.toList ∧ name ≠ "" ∧ name ≠ "." ∧
      name ≠ ".." ∧ name.utf8ByteSize ≤ maxNameBytes)
    ⟨fun ⟨hslash, hzero, hempty, hpoint, hpoints, hbytes⟩ =>
        ⟨hslash, hzero, hempty, hpoint, hpoints, hbytes⟩,
      fun h => ⟨h.slash, h.zero, h.empty, h.point, h.points, h.bytes⟩⟩

/-- What is on the disk has a name of its own in a folder. -/
structure IsTree (d : Disk) : Prop where
  ordered : d.Ordered
  entry : ∀ {place name node}, d.node? (place ++ [name]) = some node →
    d.node? place = some .folder ∧ IsName name

@[simp] lemma node?_nil (d : Disk) : d.node? [] = some .folder := rfl

lemma ne_nil_of_ne_folder (h : d.node? place ≠ some .folder) : place ≠ [] := by
  rintro rfl
  exact h (node?_nil d)

lemma isTree_iff (d : Disk) :
    d.IsTree ↔ d.Ordered ∧ ∀ e ∈ d.nodes, ∀ name ∈ e.1.getLast?,
      d.node? e.1.dropLast = some .folder ∧ IsName name := by
  constructor
  · intro hd
    refine ⟨hd.ordered, fun e he name hname => ?_⟩
    have hplace := List.dropLast_append_getLast? name hname
    have hnode : d.node? (e.1.dropLast ++ [name]) = some e.2 := by
      rw [node?, if_neg (append_singleton_ne_nil _ _), hplace]
      exact (SortedMap.find?_eq_some_iff hd.ordered).mpr he
    exact hd.entry hnode
  · rintro ⟨hordered, hentry⟩
    refine ⟨hordered, fun {place name node} hnode => ?_⟩
    rw [node?, if_neg (append_singleton_ne_nil place name),
      SortedMap.find?_eq_some_iff hordered] at hnode
    simpa [List.dropLast_concat] using hentry _ hnode name List.getLast?_concat

instance (d : Disk) : Decidable d.Ordered :=
  inferInstanceAs (Decidable (List.Pairwise _ d.nodes))

instance (d : Disk) : Decidable d.IsTree := decidable_of_iff _ d.isTree_iff.symm

namespace IsTree

lemma folder_of_prefix (hd : d.IsTree) (hplace : d.node? place = some .folder)
    (hway : next <+: place) : d.node? next = some .folder := by
  obtain ⟨rest, rfl⟩ := hway
  induction rest using List.reverseRecOn with
  | nil => simpa using hplace
  | append_singleton rest name ih =>
    rw [← List.append_assoc] at hplace
    exact ih (hd.entry hplace).1

/-- A new node in a folder, or another one in place of a file, makes a tree again. -/
lemma put (hd : d.IsTree) (hplace : d.node? place = some .folder) (hname : IsName name)
    (hfree : d.node? (place ++ [name]) ≠ some .folder) (node : Node) :
    (d.put (place ++ [name]) node).IsTree where
  ordered := hd.ordered.put _ _
  entry := by
    intro place' name' node' hnode
    have hput := node?_put (d := d) (append_singleton_ne_nil place name) node
    have hkept : ∀ {other}, d.node? other = some .folder →
        (d.put (place ++ [name]) node).node? other = some .folder := by
      intro other hother
      have hne : other ≠ place ++ [name] := by
        rintro rfl
        exact hfree hother
      rw [hput, if_neg hne, hother]
    rw [hput] at hnode
    split at hnode
    · next heq =>
      obtain ⟨rfl, hlast⟩ := List.append_inj' heq rfl
      obtain rfl := (List.cons.inj hlast).1
      exact ⟨hkept hplace, hname⟩
    · exact ⟨hkept (hd.entry hnode).1, (hd.entry hnode).2⟩

/-- Without one of its files a tree is still one. -/
lemma clear (hd : d.IsTree) (hplace : d.node? place ≠ some .folder) : (d.clear place).IsTree where
  ordered := hd.ordered.clear _
  entry := by
    intro place' name' node' hnode
    rw [node?_clear hd.ordered (ne_nil_of_ne_folder hplace)] at hnode ⊢
    split at hnode
    · cases hnode
    · obtain ⟨hfolder, hname⟩ := hd.entry hnode
      have hother : place' ≠ place := by
        rintro rfl
        exact hplace hfolder
      exact ⟨by rw [if_neg hother, hfolder], hname⟩

end IsTree

/-! ## Trails -/

/-- The places that a walk comes to, with the one it starts at. -/
def visited (d : Disk) (place : Place) : List String → List Place
  | [] => [place]
  | part :: rest =>
    place :: match d.step place part with
      | .ok next => d.visited next rest
      | .error _ => []

/-- Where a path starts that is seen from a folder. -/
def startOf (folder : Place) (path : String) : Place :=
  if path.toList.head? = some '/' then [] else folder

/-- The path holds the character zero, or is too long. -/
def isRefused (path : String) : Bool :=
  path.toList.contains '\x00' || decide (maxPathBytes < path.utf8ByteSize)

/-- The places that a path seen from a folder comes to. -/
def trail (d : Disk) (folder : Place) (path : String) : List Place :=
  if isRefused path then [] else d.visited (startOf folder path) (partsOf path)

/-- The path leads to a file, at this place. -/
def Finds (d : Disk) (folder : Place) (path : String) (place : Place) : Prop :=
  d.resolve folder path = .ok place ∧ ∃ text, d.node? place = some (.file text)

lemma resolve_eq (d : Disk) (folder : Place) (path : String) :
    d.resolve folder path =
      if isRefused path then .error (.system .invalidName)
      else d.walk (startOf folder path) (partsOf path) := rfl

/-- The part stays where it is. -/
def IsStay (part : String) : Prop := part = "" ∨ part = "."

lemma not_isStay_append (key : String) {ending : String} (h : 2 < ending.toList.length) :
    ¬ IsStay (key ++ ending) ∧ key ++ ending ≠ ".." := by
  have hne : ∀ short : String, short.toList.length ≤ 2 → key ++ ending ≠ short := by
    rintro short hshort rfl
    rw [String.toList_append, List.length_append] at hshort
    omega
  exact ⟨not_or.mpr ⟨hne _ (by decide), hne _ (by decide)⟩, hne _ (by decide)⟩

/-- A step from a folder stays there, goes up or goes to a name in it. -/
lemma step_cases (h : d.step place part = .ok next) :
    d.node? place = some .folder ∧ (IsStay part ∧ next = place ∨
      part = ".." ∧ next = place.dropLast ∨
      ¬ IsStay part ∧ part ≠ ".." ∧ part.utf8ByteSize ≤ maxNameBytes ∧ next = place ++ [part]) := by
  rw [step] at h
  split at h
  · cases h
  · cases h
  · next hfolder =>
    refine ⟨hfolder, ?_⟩
    split at h
    · next hstay => exact .inl ⟨hstay, (Except.ok.inj h).symm⟩
    · next hstay =>
      split at h
      · next hup => exact .inr (.inl ⟨hup, (Except.ok.inj h).symm⟩)
      · next hup =>
        split at h
        · cases h
        · next hbytes =>
          exact .inr (.inr ⟨hstay, hup, Nat.not_lt.mp hbytes, (Except.ok.inj h).symm⟩)

lemma step_congr (h : d'.node? place = d.node? place) (part : String) :
    d'.step place part = d.step place part := by
  rw [step, step, h]

lemma mem_visited_self (d : Disk) (place : Place) (parts : List String) :
    place ∈ d.visited place parts := by
  cases parts <;> exact List.mem_cons_self

lemma visited_cons (h : d.step place part = .ok next) (parts : List String) :
    d.visited place (part :: parts) = place :: d.visited next parts := by
  simp only [visited, h]

lemma walk_cons (h : d.step place part = .ok next) (parts : List String) :
    d.walk place (part :: parts) = d.walk next parts := by
  simp only [walk, h]

/-- A walk whose last part is a name ends at that name. -/
lemma walk_concat (hstay : ¬ IsStay part) (hup : part ≠ "..")
    (h : d.walk place (parts ++ [part]) = .ok next) : ∃ front, next = front ++ [part] := by
  induction parts generalizing place with
  | nil =>
    cases hstep : d.step place part with
    | error f => simp [walk, hstep] at h
    | ok last =>
      rw [List.nil_append, walk_cons hstep] at h
      obtain ⟨-, ⟨hstay', -⟩ | ⟨hup', -⟩ | ⟨-, -, -, hlast⟩⟩ := step_cases hstep
      · exact absurd hstay' hstay
      · exact absurd hup' hup
      · exact ⟨place, (Except.ok.inj h).symm.trans hlast⟩
  | cons first rest ih =>
    cases hstep : d.step place first with
    | error f => simp [walk, hstep] at h
    | ok middle =>
      rw [List.cons_append, walk_cons hstep] at h
      exact ih h

lemma mem_visited_of_walk (h : d.walk place parts = .ok next) : next ∈ d.visited place parts := by
  induction parts generalizing place with
  | nil => exact Except.ok.inj h ▸ mem_visited_self d place []
  | cons part rest ih =>
    cases hstep : d.step place part with
    | error f => simp [walk, hstep] at h
    | ok middle =>
      rw [walk_cons hstep] at h
      rw [visited_cons hstep]
      exact .tail _ (ih h)

lemma mem_trail_of_resolve (h : d.resolve folder path = .ok place) :
    place ∈ d.trail folder path := by
  rw [resolve_eq] at h
  rw [trail]
  split at h
  · cases h
  · next hpath =>
    rw [if_neg hpath]
    exact mem_visited_of_walk h

/-- Walks through places at which two disks have the same are the same. -/
lemma walk_congr (h : ∀ p ∈ d.visited place parts, d'.node? p = d.node? p) :
    d'.walk place parts = d.walk place parts := by
  induction parts generalizing place with
  | nil => rfl
  | cons part rest ih =>
    have hstep := step_congr (h place (mem_visited_self d place _)) part
    cases hnext : d.step place part with
    | error f => simp only [walk, hstep, hnext]
    | ok next =>
      rw [visited_cons hnext] at h
      rw [walk_cons hnext, walk_cons (hstep.trans hnext)]
      exact ih fun p hp => h p (.tail _ hp)

lemma resolve_congr (h : ∀ p ∈ d.trail folder path, d'.node? p = d.node? p) :
    d'.resolve folder path = d.resolve folder path := by
  rw [resolve_eq, resolve_eq]
  split
  · rfl
  · next hpath =>
    rw [trail, if_neg hpath] at h
    exact walk_congr h

lemma read_congr (h : ∀ p ∈ d.trail folder path, d'.node? p = d.node? p) :
    d'.read folder path = d.read folder path := by
  rw [read, read, resolve_congr h]
  cases hplace : d.resolve folder path with
  | error f => rfl
  | ok place => simp only [h place (mem_trail_of_resolve hplace)]

lemma finds_congr (h : ∀ p ∈ d.trail folder path, d'.node? p = d.node? p) :
    d'.Finds folder path place ↔ d.Finds folder path place := by
  rw [Finds, Finds, resolve_congr h]
  exact and_congr_right fun hplace => by rw [h place (mem_trail_of_resolve hplace)]

/-- The two disks have the same folders. -/
def SameFolders (d d' : Disk) : Prop :=
  ∀ place, d'.node? place = some .folder ↔ d.node? place = some .folder

/-- Two disks with the same folders let a walk come to the same places. -/
lemma SameFolders.visited (h : d.SameFolders d') (place : Place) (parts : List String) :
    d'.visited place parts = d.visited place parts := by
  induction parts generalizing place with
  | nil => rfl
  | cons part rest ih =>
    -- a step that leads on asks only whether it is made from a folder
    have hok : ∀ next, d'.step place part = .ok next ↔ d.step place part = .ok next := by
      intro next
      by_cases hplace : d.node? place = some .folder
      · rw [step_congr (((h place).mpr hplace).trans hplace.symm)]
      · exact ⟨fun hstep => absurd ((h place).mp (step_cases hstep).1) hplace,
          fun hstep => absurd (step_cases hstep).1 hplace⟩
    cases hnext : d.step place part with
    | ok next => rw [visited_cons hnext, visited_cons ((hok next).mpr hnext), ih]
    | error f =>
      cases hnext' : d'.step place part with
      | ok next => rw [(hok next).mp hnext'] at hnext; cases hnext
      | error f' => simp only [Disk.visited, hnext, hnext']

lemma SameFolders.trail (h : d.SameFolders d') (folder : Place) (path : String) :
    d'.trail folder path = d.trail folder path := by
  rw [Disk.trail, Disk.trail, h.visited]

lemma SameFolders.refl (d : Disk) : d.SameFolders d := fun _ => .rfl

lemma SameFolders.trans {d'' : Disk} (h : d.SameFolders d') (h' : d'.SameFolders d'') :
    d.SameFolders d'' := fun place => (h' place).trans (h place)

lemma sameFolders_put (hplace : d.node? place ≠ some .folder) (text : String) :
    d.SameFolders (d.put place (.file text)) := by
  intro other
  rw [node?_put (ne_nil_of_ne_folder hplace)]
  split
  · next heq => exact ⟨nofun, fun h => absurd (heq ▸ h) hplace⟩
  · rfl

lemma sameFolders_clear (hd : d.Ordered) (hplace : d.node? place ≠ some .folder) :
    d.SameFolders (d.clear place) := by
  intro other
  rw [node?_clear hd (ne_nil_of_ne_folder hplace)]
  split
  · next heq => exact ⟨nofun, fun h => absurd (heq ▸ h) hplace⟩
  · rfl

/-! ## Files at the end of a path -/

/-- A path leads to a file, which is read and which goes when it is removed, or it is neither read
nor removed, for one and the same reason. -/
lemma finds_cases (d : Disk) (folder : Place) (path : String) :
    (∃ place text, d.Finds folder path place ∧ d.read folder path = .ok text ∧
      d.remove folder path = .ok (d.clear place)) ∨
    ∃ f, (∀ place, ¬ d.Finds folder path place) ∧ d.read folder path = .error f ∧
      d.remove folder path = .error f := by
  cases hplace : d.resolve folder path with
  | error f =>
    exact .inr ⟨f, fun place h => by simp [Finds, hplace] at h, by simp only [read, hplace],
      by simp only [remove, hplace]⟩
  | ok place =>
    have hother : (∀ text, d.node? place ≠ some (.file text)) → ∀ p, ¬ d.Finds folder path p := by
      rintro hnode p ⟨hp, text, htext⟩
      rw [hplace] at hp
      exact hnode text (Except.ok.inj hp ▸ htext)
    cases hnode : d.node? place with
    | none =>
      exact .inr ⟨.system .notFound, hother (by simp [hnode]),
        by simp only [read, hplace, hnode], by simp only [remove, hplace, hnode]⟩
    | some node =>
      cases node with
      | folder =>
        exact .inr ⟨.system .isADirectory, hother (by simp [hnode]),
          by simp only [read, hplace, hnode], by simp only [remove, hplace, hnode]⟩
      | file text =>
        exact .inl ⟨place, text, ⟨hplace, text, hnode⟩, by simp only [read, hplace, hnode],
          by simp only [remove, hplace, hnode, clear]⟩

namespace Finds

lemma mem_trail (h : d.Finds folder path place) : place ∈ d.trail folder path :=
  mem_trail_of_resolve h.1

lemma ne_folder (h : d.Finds folder path place) : d.node? place ≠ some .folder := by
  obtain ⟨-, text, htext⟩ := h
  simp [htext]

lemma node?_clear (h : d.Finds folder path place) (hd : d.Ordered) (other : Place) :
    (d.clear place).node? other = if other = place then none else d.node? other :=
  Disk.node?_clear hd (ne_nil_of_ne_folder h.ne_folder) other

lemma unique (h : d.Finds folder path place) (h' : d.Finds folder path next) : place = next :=
  Except.ok.inj (h.1.symm.trans h'.1)

/-- A walk that comes to a file ends at it or fails there; without the file it ends at nothing or
finds nothing to go on from. -/
lemma walk_clear (h : d.Finds folder path place) (hd : d.Ordered) {start : Place}
    (hplace : place ∈ d.visited start parts) :
    d.walk start parts = .ok place ∧ (d.clear place).walk start parts = .ok place ∨
    d.walk start parts = .error (.system .notADirectory) ∧
      (d.clear place).walk start parts = .error (.system .notFound) := by
  have hclear := h.node?_clear hd
  obtain ⟨-, text, htext⟩ := h
  induction parts generalizing start with
  | nil =>
    rw [List.mem_singleton.mp hplace]
    exact .inl ⟨rfl, rfl⟩
  | cons part rest ih =>
    by_cases hstart : start = place
    · subst hstart
      exact .inr ⟨by simp only [walk, step, htext], by simp only [walk, step, hclear, if_true]⟩
    · -- up to the file both walks take the same steps
      have hsame : (d.clear place).node? start = d.node? start := by rw [hclear, if_neg hstart]
      have hstep := step_congr hsame part
      cases hnext : d.step start part with
      | error f =>
        rw [visited, hnext] at hplace
        exact absurd (List.mem_singleton.mp hplace).symm hstart
      | ok next =>
        rw [visited_cons hnext] at hplace
        rw [walk_cons hnext, walk_cons (hstep.trans hnext)]
        exact ih ((List.mem_cons.mp hplace).resolve_left (Ne.symm hstart))

/-- A path that comes to a file reads it or fails there; without the file nothing is found. -/
lemma read_clear (h : d.Finds folder path place) (hd : d.Ordered) {folder' : Place}
    {path' : String} (hplace : place ∈ d.trail folder' path') :
    d.read folder' path' ≠ .error (.system .notFound) ∧
      (d.clear place).read folder' path' = .error (.system .notFound) := by
  have hclear := h.node?_clear hd
  obtain ⟨-, text, htext⟩ := id h
  rw [trail] at hplace
  split at hplace
  · cases hplace
  · next hpath =>
    rw [read, read, resolve_eq, resolve_eq, if_neg hpath, if_neg hpath]
    obtain ⟨hwalk, hwalk'⟩ | ⟨hwalk, hwalk'⟩ := h.walk_clear hd hplace
    · simp [hwalk, hwalk', htext, hclear]
    · simp [hwalk, hwalk']

/-- The name of a file ends as the path to it ends. -/
lemma exists_name {key ending : String} (h : d.Finds folder (key ++ ending) place)
    (hslash : '/' ∉ ending.toList) (hlong : 2 < ending.toList.length) :
    ∃ front stem, place = front ++ [stem ++ ending] := by
  obtain ⟨hplace, -⟩ := h
  obtain ⟨front, stem, hpieces⟩ := Text.exists_pieces_append hslash key.toList
  have hparts : partsOf (key ++ ending) =
      front.map String.ofList ++ [String.ofList stem ++ ending] := by
    rw [partsOf, String.toList_append, hpieces, List.map_append, List.map_singleton,
      String.ofList_append, String.ofList_toList]
  rw [resolve_eq] at hplace
  split at hplace
  · cases hplace
  · rw [hparts] at hplace
    obtain ⟨hstay, hup⟩ := not_isStay_append _ hlong
    obtain ⟨place', rfl⟩ := walk_concat hstay hup hplace
    exact ⟨place', _, rfl⟩

end Finds

/-! ## Names -/

/-- The path is one part, and leads to a name in the folder if to anything. -/
structure IsPart (name : String) : Prop where
  slash : '/' ∉ name.toList
  stay : ¬ IsStay name
  up : name ≠ ".."

namespace IsPart

lemma partsOf_eq (h : IsPart name) : partsOf name = [name] := by
  rw [partsOf, Text.pieces_of_not_mem h.slash, List.map_singleton, String.ofList_toList]

lemma startOf_eq (h : IsPart name) (folder : Place) : startOf folder name = folder :=
  if_neg fun hhead => h.slash (List.mem_of_mem_head? hhead)

/-- The places that a single part comes to. -/
lemma mem_trail (h : IsPart name) (hplace : place ∈ d.trail folder name) :
    place = folder ∨ place = folder ++ [name] := by
  rw [trail] at hplace
  split at hplace
  · cases hplace
  · rw [h.partsOf_eq, h.startOf_eq] at hplace
    cases hstep : d.step folder name with
    | error f =>
      simp only [visited, hstep] at hplace
      exact .inl (List.mem_singleton.mp hplace)
    | ok next =>
      obtain ⟨-, ⟨hstay, -⟩ | ⟨hup, -⟩ | ⟨-, -, -, rfl⟩⟩ := step_cases hstep
      · exact absurd hstay h.stay
      · exact absurd hup h.up
      · simpa [visited, hstep] using hplace

/-- A part that is no name, for a character in it or for its length, leads nowhere. -/
lemma resolve_of_not_isName (h : IsPart name) (hname : ¬ IsName name)
    (hfolder : d.node? folder = some .folder) :
    d.resolve folder name = .error (.system .invalidName) := by
  rw [resolve_eq]
  split
  · rfl
  · next hpath =>
    simp only [isRefused, Bool.or_eq_true, List.contains_eq_mem, decide_eq_true_eq,
      not_or] at hpath
    have hbytes : maxNameBytes < name.utf8ByteSize := by
      by_contra hbytes
      exact hname ⟨h.slash, hpath.1, fun heq => h.stay (.inl heq), fun heq => h.stay (.inr heq),
        h.up, Nat.not_lt.mp hbytes⟩
    have hstay : ¬ (name = "" ∨ name = ".") := h.stay
    have hstep : d.step folder name = .error (.system .invalidName) := by
      simp only [step, hfolder, if_neg hstay, if_neg h.up, if_pos hbytes]
    rw [h.partsOf_eq, h.startOf_eq, walk, hstep]

end IsPart

lemma write_part (hpart : IsPart name) (hfolder : d.node? folder = some .folder)
    (text : String) :
    d.write folder name text =
      if ¬ IsName name then .error (.system .invalidName)
      else if d.node? (folder ++ [name]) = some .folder then .error (.system .isADirectory)
      else .ok (d.put (folder ++ [name]) (.file text)) := by
  split
  · next hname => simp only [write, hpart.resolve_of_not_isName hname hfolder]
  · next hname => simp only [write, resolve_name hfolder (not_not.mp hname), put]

end Disk
end Changefeed
