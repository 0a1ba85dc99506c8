import Changefeed.Proofs.Checkpoint.Files
import Changefeed.Proofs.Checkpoint.Trails

/-!
# Stores of files on any disk

What a store of checkpoints answers, and what it leaves, on a disk with whatever files: for a load
and a delete it follows from what the path of the key reads, and for a save from what is under two
names in the folder.  A store never makes a folder and never takes one away, so a path comes to the
same places for as long as nobody else changes the disk.
-/

namespace Changefeed

open Disk (IsName IsPart IsTree SameFolders)

namespace CheckpointFolder

variable {s t : CheckpointFolder} {c : Checkpoint} {key : String} {place : Place}

/-! ## Paths of keys -/

/-- The places that the path to a split's checkpoint comes to. -/
def trail (s : CheckpointFolder) (id : SplitId) : List Place :=
  s.disk.trail s.folder (fileName id.checkpointKey)

/-- The path to a split's checkpoint leads to a file, at this place. -/
def Finds (s : CheckpointFolder) (id : SplitId) (place : Place) : Prop :=
  s.disk.Finds s.folder (fileName id.checkpointKey) place

/-- What the path of a key reads. -/
def readKey (s : CheckpointFolder) (key : String) : Outcome String :=
  s.disk.read s.folder (fileName key)

lemma isPart_append {ending : String} (hkey : '/' ∉ key.toList) (hslash : '/' ∉ ending.toList)
    (hlong : 2 < ending.toList.length) : IsPart (key ++ ending) := by
  have hname := Disk.not_isStay_append key hlong
  exact ⟨by simp [hkey, hslash], hname.1, hname.2⟩

lemma isPart_fileName (hkey : '/' ∉ key.toList) : IsPart (fileName key) :=
  isPart_append hkey (by decide) (by decide)

lemma isPart_temporaryName (hkey : '/' ∉ c.key.toList) : IsPart (temporaryName c.key) := by
  rw [Checkpoint.key, temporaryName_checkpointKey]
  exact isPart_append hkey (by decide) (by decide)

/-- The name of a file that a key makes, and the key that a file's name makes. -/
lemma keyOfFile_eq_some_iff {name : String} :
    keyOfFile name = some key ↔ name = fileName key ∧ key ≠ "" := by
  constructor
  · intro h
    rw [keyOfFile] at h
    split at h
    · next stem extension hcut =>
      obtain ⟨⟨hstem, rfl⟩, rfl⟩ : (stem ≠ [] ∧ extension = ['j', 's', 'o', 'n']) ∧
          String.ofList stem = key := by simpa using h
      refine ⟨String.toList_inj.mp ?_, by simpa using hstem⟩
      rw [toList_fileName, String.toList_ofList, Text.append_of_cutLast hcut]
    · cases h
  · rintro ⟨rfl, hkey⟩
    exact keyOfFile_fileName hkey

/-! ## What is answered, and what is left -/

/-- The checkpoint in what was read. -/
def foundIn : Outcome String → Outcome (Option Checkpoint)
  | .error (.system .notFound) => .ok none
  | .error f => .error f
  | .ok text =>
    match Checkpoint.ofFileText? text with
    | some c => .ok (some c)
    | none => .error .json

/-- That there is nothing to delete is no fault. -/
def goneFrom : Outcome String → Outcome Unit
  | .error (.system .notFound) => .ok ()
  | .error f => .error f
  | .ok _ => .ok ()

lemma foundIn_eq_none_iff {read : Outcome String} :
    foundIn read = .ok none ↔ read = .error (.system .notFound) := by
  cases read with
  | error f =>
    cases f with
    | system cause => cases cause <;> simp [foundIn]
    | _ => simp [foundIn]
  | ok text =>
    simp only [foundIn]
    cases Checkpoint.ofFileText? text <;> simp

lemma goneFrom_eq_ok_iff {fault : SystemFault} :
    goneFrom (.error (.system fault)) = .ok () ↔ fault = .notFound := by
  cases fault <;> simp [goneFrom]

/-- The checkpoint that was found, if any. -/
def held : Outcome (Option Checkpoint) → Option Checkpoint
  | .ok found => found
  | .error _ => none

/-- What is known after a checkpoint was looked for. -/
def remember (known : SortedMap String Checkpoint) (key : String) :
    Option Checkpoint → SortedMap String Checkpoint
  | some c => known.insert key c
  | none => known

/-- What is known after a checkpoint was deleted, or could not be. -/
def forget (known : SortedMap String Checkpoint) (key : String) :
    Outcome Unit → SortedMap String Checkpoint
  | .ok () => known.erase key
  | .error _ => known

lemma loadKey_of_known (h : s.known.find? key = some c) : s.loadKey key = (.ok (some c), s) := by
  simp only [loadKey, h]

lemma loadKey_of_unknown (h : s.known.find? key = none) :
    s.loadKey key = (foundIn (s.readKey key),
      { s with known := remember s.known key (held (foundIn (s.readKey key))) }) := by
  simp only [loadKey, h, readKey]
  cases s.disk.read s.folder (fileName key) with
  | error f =>
    cases f with
    | system cause => cases cause <;> rfl
    | _ => rfl
  | ok text =>
    simp only [foundIn]
    cases Checkpoint.ofFileText? text <;> rfl

lemma loadKey_fst (s : CheckpointFolder) (key : String) :
    (s.loadKey key).1 =
      match s.known.find? key with
      | some c => .ok (some c)
      | none => foundIn (s.readKey key) := by
  cases hknown : s.known.find? key with
  | some c => rw [loadKey_of_known hknown]
  | none => rw [loadKey_of_unknown hknown]

/-- A load leaves what is known in order, and adds the checkpoint of the key if it was not known and
is found. -/
lemma loadKey_snd (s : CheckpointFolder) (key : String) :
    ∃ known, (s.loadKey key).2 = { s with known } ∧
      (SortedMap.Ascending s.known → SortedMap.Ascending known) ∧
      ∀ key', known.find? key' = (s.known.find? key').or
        (if key' = key then held (foundIn (s.readKey key)) else none) := by
  cases hknown : s.known.find? key with
  | some c =>
    refine ⟨s.known, by rw [loadKey_of_known hknown], fun h => h, fun key' => ?_⟩
    split
    · next heq => rw [heq, hknown, Option.some_or]
    · rw [Option.or_none]
  | none =>
    rw [loadKey_of_unknown hknown]
    cases held (foundIn (s.readKey key)) with
    | none => exact ⟨s.known, rfl, fun h => h, fun key' => by rw [ite_self, Option.or_none]⟩
    | some c =>
      refine ⟨s.known.insert key c, rfl, fun h => SortedMap.ascending_insert h _ _, fun key' => ?_⟩
      rw [SortedMap.find?_insert]
      split
      · next heq => rw [heq, hknown, Option.none_or]
      · rw [Option.or_none]

/-- A delete takes the file that the path leads to, or finds none. -/
lemma delete_cases (s : CheckpointFolder) (id : SplitId) :
    (∃ place text, s.Finds id place ∧ s.readKey id.checkpointKey = .ok text ∧
      s.delete id = (.ok (), { s with
        disk := s.disk.clear place, known := s.known.erase id.checkpointKey })) ∨
    ∃ f, (∀ place, ¬ s.Finds id place) ∧ s.readKey id.checkpointKey = .error f ∧
      s.delete id = (goneFrom (.error f), { s with
        known := forget s.known id.checkpointKey (goneFrom (.error f)) }) := by
  rcases s.disk.finds_cases s.folder (fileName id.checkpointKey) with
    ⟨place, text, hfinds, hread, hremove⟩ | ⟨f, hnone, hread, hremove⟩
  · exact .inl ⟨place, text, hfinds, hread, by simp only [delete, hremove]⟩
  · refine .inr ⟨f, hnone, hread, ?_⟩
    simp only [delete, hremove]
    cases f with
    | system cause => cases cause <;> rfl
    | _ => rfl

lemma delete_fst (s : CheckpointFolder) (id : SplitId) :
    (s.delete id).1 = goneFrom (s.readKey id.checkpointKey) := by
  obtain ⟨place, text, -, hread, hdelete⟩ | ⟨f, -, hread, hdelete⟩ := s.delete_cases id
  · rw [hread, hdelete, goneFrom]
  · rw [hread, hdelete]

/-- What a save of an accepted key answers and leaves.  A name can be too long for a file when that
of its temporary file is not. -/
lemma save_eq (hfolder : s.disk.node? s.folder = some .folder) (hsafe : isSafeKey c.key = true) :
    s.save c =
      if ¬ IsName (temporaryName c.key) then (.error (.system .invalidName), s)
      else if s.disk.node? (s.folder ++ [temporaryName c.key]) = some .folder then
        (.error (.system .isADirectory), s)
      else if ¬ IsName (fileName c.key) then
        (.error (.system .invalidName), { s with
          disk := s.disk.put (s.folder ++ [temporaryName c.key]) (.file c.fileText) })
      else if s.disk.node? (s.folder ++ [fileName c.key]) = some .folder then
        (.error (.system .isADirectory), { s with
          disk := s.disk.put (s.folder ++ [temporaryName c.key]) (.file c.fileText) })
      else (.ok (), { s with
        disk := Filed.written s.folder s.disk c, known := s.known.insert c.key c }) := by
  have hkey := slash_not_mem_of_isSafeKey hsafe
  have hput := Disk.node?_put (d := s.disk)
    (Disk.append_singleton_ne_nil s.folder (temporaryName c.key)) (.file c.fileText)
  -- the temporary file changes neither the folder nor what is under the other name
  have hne : s.folder ++ [fileName c.key] ≠ s.folder ++ [temporaryName c.key] := fun heq =>
    temporaryName_ne_fileName c.key c.key (by simpa using heq.symm)
  have hfolder' : (s.disk.put (s.folder ++ [temporaryName c.key]) (.file c.fileText)).node?
      s.folder = some .folder := by
    rw [hput, if_neg (Disk.ne_append_singleton _ _), hfolder]
  have hwrite := Disk.write_part (isPart_temporaryName hkey) hfolder c.fileText
  rw [save, if_pos hsafe]
  by_cases htemporary : ¬ IsName (temporaryName c.key)
  · rw [if_pos htemporary] at hwrite ⊢
    simp only [hwrite]
  rw [if_neg htemporary] at hwrite ⊢
  by_cases hfree : s.disk.node? (s.folder ++ [temporaryName c.key]) = some .folder
  · rw [if_pos hfree] at hwrite ⊢
    simp only [hwrite]
  rw [if_neg hfree] at hwrite ⊢
  rw [not_not] at htemporary
  have hread := Disk.read_name hfolder' htemporary (by rw [hput, if_pos rfl])
  have hmove := Disk.write_part (isPart_fileName hkey) hfolder' c.fileText
  rw [hput, if_neg hne] at hmove
  by_cases hfile : ¬ IsName (fileName c.key)
  · rw [if_pos hfile] at hmove ⊢
    simp only [hwrite, Disk.move, hread, hmove]
  rw [if_neg hfile] at hmove ⊢
  by_cases hnode : s.disk.node? (s.folder ++ [fileName c.key]) = some .folder
  · rw [if_pos hnode] at hmove ⊢
    simp only [hwrite, Disk.move, hread, hmove]
  rw [if_neg hnode]
  simp only [hwrite, Disk.move_name hfolder' htemporary (not_not.mp hfile)
    (temporaryName_ne_fileName c.key c.key) (by rw [hput, if_pos rfl])
    (by rw [hput, if_neg hne]; exact hnode)]
  rfl

/-! ## Sound stores -/

/-- The disk is a tree with the store's folder in it. -/
structure Sound (s : CheckpointFolder) : Prop where
  tree : s.disk.IsTree
  folder : s.disk.node? s.folder = some .folder
  ascending : SortedMap.Ascending s.known

/-- The store may have become the other one: that is sound, of the same folder, and all folders are
still there and no others. -/
structure Follows (s t : CheckpointFolder) : Prop where
  sound : t.Sound
  folder : t.folder = s.folder
  folders : s.disk.SameFolders t.disk

lemma Follows.trail (h : Follows s t) (id : SplitId) : t.trail id = s.trail id := by
  rw [CheckpointFolder.trail, CheckpointFolder.trail, h.folder, h.folders.trail]

namespace Sound

lemma refl (h : s.Sound) : Follows s s := ⟨h, rfl, .refl _⟩

lemma knowing (h : s.Sound) {known : SortedMap String Checkpoint}
    (hknown : SortedMap.Ascending known) : Follows s { s with known } :=
  ⟨⟨h.tree, h.folder, hknown⟩, rfl, .refl _⟩

lemma putting (h : s.Sound) {name : String} (hname : IsName name)
    (hfree : s.disk.node? (s.folder ++ [name]) ≠ some .folder) (text : String) :
    Follows s { s with disk := s.disk.put (s.folder ++ [name]) (.file text) } :=
  have hfolders := Disk.sameFolders_put hfree text
  ⟨⟨h.tree.put h.folder hname hfree _, (hfolders _).mpr h.folder, h.ascending⟩, rfl, hfolders⟩

lemma clearing (h : s.Sound) (hplace : s.disk.node? place ≠ some .folder) :
    Follows s { s with disk := s.disk.clear place } :=
  have hfolders := Disk.sameFolders_clear h.tree.ordered hplace
  ⟨⟨h.tree.clear hplace, (hfolders _).mpr h.folder, h.ascending⟩, rfl, hfolders⟩

lemma place_of_finds (h : s.Sound) {id : SplitId} (hslash : '/' ∉ id.checkpointKey.toList)
    (hfinds : s.Finds id place) : place = s.folder ++ [fileName id.checkpointKey] := by
  refine ((isPart_fileName hslash).mem_trail hfinds.mem_trail).resolve_left ?_
  rintro rfl
  exact hfinds.ne_folder h.folder

lemma save (h : s.Sound) (c : Checkpoint) : Follows s (s.save c).2 := by
  by_cases hsafe : isSafeKey c.key = true
  · rw [save_eq h.folder hsafe]
    split
    · exact h.refl
    next htemporary =>
    split
    · exact h.refl
    next hfree =>
    have hwritten := h.putting (not_not.mp htemporary) hfree c.fileText
    split
    · exact hwritten
    next hfile =>
    split
    · exact hwritten
    next hnode =>
    have hmoved := hwritten.sound.putting (not_not.mp hfile)
      (fun heq => hnode ((hwritten.folders _).mp heq)) c.fileText
    have hgone := hmoved.sound.clearing fun heq =>
      hfree ((hwritten.folders _).mp ((hmoved.folders _).mp heq))
    exact ⟨⟨hgone.sound.tree, hgone.sound.folder, SortedMap.ascending_insert h.ascending _ _⟩, rfl,
      (hwritten.folders.trans hmoved.folders).trans hgone.folders⟩
  · rw [CheckpointFolder.save, if_neg hsafe]
    exact h.refl

lemma loadKey (h : s.Sound) (key : String) : Follows s (s.loadKey key).2 := by
  obtain ⟨known, hload, hknown, -⟩ := s.loadKey_snd key
  rw [hload]
  exact h.knowing (hknown h.ascending)

lemma delete (h : s.Sound) (id : SplitId) : Follows s (s.delete id).2 := by
  have herased := SortedMap.ascending_erase h.ascending id.checkpointKey
  obtain ⟨place, text, hfinds, -, hdelete⟩ | ⟨f, -, -, hdelete⟩ := s.delete_cases id
  · rw [hdelete]
    have hcleared := h.clearing hfinds.ne_folder
    exact ⟨⟨hcleared.sound.tree, hcleared.sound.folder, herased⟩, rfl, hcleared.folders⟩
  · rw [hdelete]
    refine h.knowing ?_
    rw [forget.eq_def]
    split
    · exact herased
    · exact h.ascending

end Sound

/-! ## Opening anew -/

/-- The keys of the files in the folder. -/
def keys (s : CheckpointFolder) : List String := (s.disk.names s.folder).filterMap keyOfFile

lemma mem_keys (h : s.Sound) :
    key ∈ s.keys ↔ key ≠ "" ∧ ∃ node, s.disk.node? (s.folder ++ [fileName key]) = some node := by
  simp only [keys, List.mem_filterMap, Disk.mem_names_iff h.tree.ordered, keyOfFile_eq_some_iff]
  constructor
  · rintro ⟨name, hnode, rfl, hkey⟩
    exact ⟨hkey, hnode⟩
  · rintro ⟨hkey, hnode⟩
    exact ⟨_, hnode, rfl, hkey⟩

/-- Loading one key after the other makes known what is found under them, beside what was known. -/
lemma loadKeys (s : CheckpointFolder) (keys : List String) :
    ∃ known, keys.foldl (fun s key => (s.loadKey key).2) s = { s with known } ∧
      (SortedMap.Ascending s.known → SortedMap.Ascending known) ∧
      ∀ key, known.find? key = (s.known.find? key).or
        (if key ∈ keys then held (foundIn (s.readKey key)) else none) := by
  induction keys generalizing s with
  | nil => exact ⟨s.known, rfl, fun h => h, fun key => by simp⟩
  | cons first keys ih =>
    obtain ⟨known, hload, hascending, hfind⟩ := s.loadKey_snd first
    obtain ⟨known', hall, hascending', hfind'⟩ := ih { s with known }
    have hread : ∀ key, CheckpointFolder.readKey { s with known } key = s.readKey key :=
      fun _ => rfl
    refine ⟨known', by rw [List.foldl_cons, hload, hall], fun h => hascending' (hascending h),
      fun key => ?_⟩
    rw [hfind', hfind, hread, Option.or_assoc]
    by_cases hkey : key = first
    · subst hkey
      rw [if_pos rfl, if_pos List.mem_cons_self]
      split
      · rw [Option.or_self]
      · rw [Option.or_none]
    · rw [if_neg hkey, Option.none_or]
      simp only [List.mem_cons, hkey, false_or]

lemma reopen_eq (s : CheckpointFolder) :
    ∃ known, s.reopen = { s with known } ∧ SortedMap.Ascending known ∧
      ∀ key, known.find? key = if key ∈ s.keys then held (foundIn (s.readKey key)) else none := by
  obtain ⟨known, hopened, hascending, hfind⟩ := loadKeys { s with known := [] } s.keys
  refine ⟨known, hopened, hascending SortedMap.ascending_nil, fun key => ?_⟩
  rw [hfind]
  exact Option.none_or

lemma Sound.reopen (h : s.Sound) : Follows s s.reopen := by
  obtain ⟨known, hopened, hascending, -⟩ := s.reopen_eq
  rw [hopened]
  exact h.knowing hascending

/-- Opened anew, a store answers what its files hold. -/
lemma load_reopen (s : CheckpointFolder) (id : SplitId) :
    (s.reopen.load id).1 = foundIn (s.readKey id.checkpointKey) := by
  obtain ⟨known, hopened, -, hfind⟩ := s.reopen_eq
  rw [hopened, load]
  have hread : CheckpointFolder.readKey { s with known } = s.readKey := rfl
  cases hknown : known.find? id.checkpointKey with
  | none => rw [loadKey_of_unknown hknown, hread]
  | some c =>
    rw [loadKey_of_known hknown]
    rw [hfind] at hknown
    split at hknown
    · cases hfound : foundIn (s.readKey id.checkpointKey) with
      | error f => simp [hfound, held] at hknown
      | ok found =>
        rw [hfound, held] at hknown
        rw [hknown]
    · cases hknown

/-! ## Stores that are asked anything -/

lemma Sound.answer (h : s.Sound) (op : StoreOp) : Follows s (s.answer op).2 := by
  cases op with
  | save c => exact h.save c
  | load id => exact h.loadKey id.checkpointKey
  | delete id => exact h.delete id
  | list => exact h.refl
  | reopen => exact h.reopen

/-- The states that a store can be in: opened on whatever is on the disk, asked anything, with the
disk changed by others in between.  The folder stays where it is. -/
inductive Reached : CheckpointFolder → Prop
  | opened {folder : Place} {disk : Disk} (hdisk : disk.IsTree)
    (hfolder : disk.node? folder = some .folder) : Reached (reopen { folder, disk })
  | answered {s : CheckpointFolder} (h : Reached s) (op : StoreOp) : Reached (s.answer op).2
  | changed {s : CheckpointFolder} (h : Reached s) {disk : Disk} (hdisk : disk.IsTree)
    (hfolder : disk.node? s.folder = some .folder) : Reached { s with disk }

lemma Reached.sound (h : s.Reached) : s.Sound := by
  induction h with
  | opened hdisk hfolder =>
    exact (Sound.reopen ⟨hdisk, hfolder, SortedMap.ascending_nil⟩).sound
  | answered _ op ih => exact (ih.answer op).sound
  | changed _ hdisk hfolder ih => exact ⟨hdisk, hfolder, ih.ascending⟩

end CheckpointFolder
end Changefeed
