import Changefeed.Checkpoint.Files
import Changefeed.Proofs.Checkpoint.Disk
import Changefeed.Proofs.Wire.RoundTrip

/-!
# Checkpoints in files against checkpoints in memory

A folder of checkpoints answers whatever it is asked as checkpoints kept in memory do, also when it
is opened anew in between.  The folder mirrors what memory holds: it has one file for every
checkpoint, named by its key and with its text, nothing else, and the same checkpoints are known
under their keys.  Keys tell splits apart, so one and the same change of memory is made by every
operation.
-/

namespace Changefeed

open Disk (IsName)

/-! ## Keys and names -/

namespace SplitId

lemma toList_checkpointKey (id : SplitId) :
    id.checkpointKey.toList = id.scope.toList ++ '_' :: Text.numeral id.index.toNat := by
  simp [checkpointKey, Text.decimal]

/-- Different splits have different keys. -/
lemma checkpointKey_inj {id other : SplitId} (h : id.checkpointKey = other.checkpointKey) :
    id = other := by
  have hcut : ∀ i : SplitId, Text.cutLast '_' i.checkpointKey.toList =
      some (i.scope.toList, Text.numeral i.index.toNat) := fun i => by
    rw [toList_checkpointKey, Text.cutLast_append (Text.not_mem_numeral (by decide) _)]
  have hparts := hcut id
  rw [h, hcut other, Option.some.injEq, Prod.mk.injEq] at hparts
  cases id
  cases other
  rw [mk.injEq]
  exact ⟨String.toList_inj.mp hparts.1.symm,
    UInt32.toNat_inj.mp (Text.numeral_inj hparts.2.symm)⟩

/-- The checkpoint of the split can be stored: its key is accepted, and can name a file. -/
structure Storable (id : SplitId) : Prop where
  safe : isSafeKey id.checkpointKey = true
  zero : '\x00' ∉ id.checkpointKey.toList
  bytes : (CheckpointFolder.fileName id.checkpointKey).utf8ByteSize ≤ Disk.maxNameBytes

end SplitId

namespace CheckpointFolder

open SplitId (checkpointKey_inj)

lemma toList_fileName (key : String) :
    (fileName key).toList = key.toList ++ ['.', 'j', 's', 'o', 'n'] := by
  simp [fileName]

lemma fileName_inj {key key' : String} (h : fileName key = fileName key') : key = key' := by
  have hlist := congrArg String.toList h
  rw [toList_fileName, toList_fileName] at hlist
  exact String.toList_inj.mp (List.append_cancel_right hlist)

lemma temporaryName_ne_fileName (key key' : String) : temporaryName key ≠ fileName key' := by
  intro h
  have hlast := congrArg (fun s => s.toList.getLast?) h
  simp [toList_fileName, temporaryName, withExtension] at hlast

lemma append_cutName (path : List Char) : (cutName path).1 ++ (cutName path).2 = path := by
  rw [cutName]
  split
  · next front name hcut => simpa using (Text.append_of_cutLast hcut).symm
  · rfl

lemma cutName_append {added : List Char} (h : '/' ∉ added) (path : List Char) :
    cutName (path ++ added) = ((cutName path).1, (cutName path).2 ++ added) := by
  rw [cutName, cutName, Text.cutLast_append_of_not_mem h]
  cases Text.cutLast '/' path <;> rfl

lemma stem_append {name extension : List Char} (hname : name ≠ []) (h : '.' ∉ extension) :
    stem (name ++ '.' :: extension) = name := by
  rw [stem, Text.cutLast_append h]
  split
  · next heq => exact absurd (Prod.mk.inj (Option.some.inj heq)).1 hname
  · next heq => exact (Prod.mk.inj (Option.some.inj heq)).1.symm
  · next heq => cases heq

lemma temporaryName_eq {key : String} (h : (cutName key.toList).2 ≠ []) :
    temporaryName key = key ++ ".tmp" := by
  have hcut : cutName (fileName key).toList = ((cutName key.toList).1,
      (cutName key.toList).2 ++ ['.', 'j', 's', 'o', 'n']) := by
    rw [toList_fileName, cutName_append (by decide)]
  have hstem : stem ((cutName key.toList).2 ++ ['.', 'j', 's', 'o', 'n']) =
      (cutName key.toList).2 := stem_append h (by decide)
  simp only [temporaryName, withExtension, hcut, hstem, append_cutName, String.ofList_toList]
  rw [String.append_assoc]
  rfl

lemma temporaryName_checkpointKey (id : SplitId) :
    temporaryName id.checkpointKey = id.checkpointKey ++ ".tmp" := by
  have hslash : '/' ∉ '_' :: Text.numeral id.index.toNat := by
    simpa using Text.not_mem_numeral (by decide) _
  refine temporaryName_eq ?_
  rw [SplitId.toList_checkpointKey, cutName_append hslash]
  simp

lemma keyOfFile_fileName {key : String} (h : key ≠ "") : keyOfFile (fileName key) = some key := by
  have hcut : Text.cutLast '.' (fileName key).toList = some (key.toList, ['j', 's', 'o', 'n']) := by
    rw [toList_fileName, Text.cutLast_append (by decide)]
  have hstem : key.toList ≠ [] := by simpa using h
  simp [keyOfFile, hcut, hstem]

lemma slash_not_mem_of_isSafeKey {key : String} (h : isSafeKey key = true) :
    '/' ∉ key.toList := by
  simp only [isSafeKey, Bool.and_eq_true, Bool.not_eq_true', List.contains_eq_mem,
    decide_eq_false_iff_not] at h
  exact h.1.1.2

lemma ne_empty_of_isSafeKey {key : String} (h : isSafeKey key = true) : key ≠ "" := by
  rintro rfl
  cases h

/-- A key that is accepted names a file, behind whatever ending. -/
lemma isName_append {key ending : String} (hsafe : isSafeKey key = true)
    (hzero : '\x00' ∉ key.toList) (hbytes : (key ++ ending).utf8ByteSize ≤ Disk.maxNameBytes)
    (hending : '/' ∉ ending.toList ∧ '\x00' ∉ ending.toList ∧ 2 < ending.toList.length) :
    IsName (key ++ ending) := by
  obtain ⟨hslash, hendingZero, hlength⟩ := hending
  have hkey := slash_not_mem_of_isSafeKey hsafe
  have hlong : ∀ name : String, name.toList.length ≤ 2 → key ++ ending ≠ name := by
    rintro name hname rfl
    rw [String.toList_append, List.length_append] at hname
    omega
  exact {
    slash := by simp [hkey, hslash]
    zero := by simp [hzero, hendingZero]
    empty := hlong _ (by decide)
    point := hlong _ (by decide)
    points := hlong _ (by decide)
    bytes := hbytes }

lemma isName_fileName {id : SplitId} (h : id.Storable) : IsName (fileName id.checkpointKey) :=
  isName_append h.safe h.zero h.bytes (by decide)

lemma isName_temporaryName {id : SplitId} (h : id.Storable) :
    IsName (temporaryName id.checkpointKey) := by
  rw [temporaryName_checkpointKey]
  refine isName_append h.safe h.zero (Nat.le_trans ?_ h.bytes) (by decide)
  rw [fileName, String.utf8ByteSize_append, String.utf8ByteSize_append]
  exact Nat.add_le_add_left (by decide) _

/-! ## The mirror -/

/-- What memory holds can be stored: every checkpoint is under its own split, and is read back. -/
structure Stored (m : MemoryCheckpoints) : Prop where
  ascending : SortedMap.Ascending m.entries
  entry : ∀ {id c}, m.load id = some c → c.splitId = id
  storable : ∀ {id c}, m.load id = some c → id.Storable ∧ c.Legible

/-- The folder exists, and has the file of every checkpoint in memory and nothing else. -/
structure Filed (folder : Place) (disk : Disk) (m : MemoryCheckpoints) : Prop where
  ordered : disk.Ordered
  exists_folder : disk.node? folder = some .folder
  file : ∀ name node, disk.node? (folder ++ [name]) = some node ↔
    ∃ c, m.load c.splitId = some c ∧ name = fileName c.key ∧ node = .file c.fileText

/-- The checkpoints in memory are known under their keys, and no others. -/
structure Known (known : SortedMap String Checkpoint) (m : MemoryCheckpoints) : Prop where
  ascending : SortedMap.Ascending known
  answer : ∀ key c, known.find? key = some c ↔ key = c.key ∧ m.load c.splitId = some c

/-- The folder holds what memory holds. -/
structure Mirrors (s : CheckpointFolder) (m : MemoryCheckpoints) : Prop where
  stored : Stored m
  filed : Filed s.folder s.disk m
  known : Known s.known m

lemma load_save (m : MemoryCheckpoints) (c : Checkpoint) (id : SplitId) :
    (m.save c).load id = if id = c.splitId then some c else m.load id :=
  SortedMap.find?_insert m.entries c.splitId id c

lemma load_delete {m : MemoryCheckpoints} (hm : Stored m) (deleted id : SplitId) :
    (m.delete deleted).load id = if id = deleted then none else m.load id :=
  SortedMap.find?_erase hm.ascending deleted id

variable {folder : Place} {disk : Disk} {m : MemoryCheckpoints}

lemma key_eq_iff {c c' : Checkpoint} : c.key = c'.key ↔ c.splitId = c'.splitId :=
  ⟨checkpointKey_inj, fun h => congrArg SplitId.checkpointKey h⟩

namespace Stored

lemma save (hm : Stored m) {c : Checkpoint} (hid : c.splitId.Storable) (hc : c.Legible) :
    Stored (m.save c) := by
  refine ⟨SortedMap.ascending_insert hm.ascending c.splitId c, fun {id c'} h => ?_,
    fun {id c'} h => ?_⟩ <;> rw [load_save] at h <;> split at h
  · next heq => rw [← Option.some.inj h, heq]
  · exact hm.entry h
  · next heq =>
    rw [← Option.some.inj h, heq]
    exact ⟨hid, hc⟩
  · exact hm.storable h

lemma delete (hm : Stored m) (id : SplitId) : Stored (m.delete id) := by
  refine ⟨SortedMap.ascending_erase hm.ascending id, fun {id' c} h => ?_, fun {id' c} h => ?_⟩ <;>
    rw [load_delete hm] at h <;> split at h
  · cases h
  · exact hm.entry h
  · cases h
  · exact hm.storable h

end Stored

namespace Filed

lemma ne_folder (h : Filed folder disk m) (name : String) :
    disk.node? (folder ++ [name]) ≠ some .folder := by
  intro hnode
  obtain ⟨c, -, -, hfile⟩ := (h.file name .folder).mp hnode
  cases hfile

lemma node_fileName (h : Filed folder disk m) (hm : Stored m) {id : SplitId} {c : Checkpoint}
    (hload : m.load id = some c) :
    disk.node? (folder ++ [fileName id.checkpointKey]) = some (.file c.fileText) := by
  obtain rfl := hm.entry hload
  exact (h.file _ _).mpr ⟨c, hload, rfl, rfl⟩

lemma node_fileName_none (h : Filed folder disk m) {id : SplitId} (hload : m.load id = none) :
    disk.node? (folder ++ [fileName id.checkpointKey]) = none := by
  cases hnode : disk.node? (folder ++ [fileName id.checkpointKey]) with
  | none => rfl
  | some node =>
    obtain ⟨c, hc, hname, -⟩ := (h.file _ _).mp hnode
    rw [checkpointKey_inj (fileName_inj hname), hc] at hload
    cases hload

lemma node_temporaryName (h : Filed folder disk m) (key : String) :
    disk.node? (folder ++ [temporaryName key]) = none := by
  cases hnode : disk.node? (folder ++ [temporaryName key]) with
  | none => rfl
  | some node =>
    obtain ⟨c, -, hname, -⟩ := (h.file _ _).mp hnode
    exact absurd hname (temporaryName_ne_fileName key c.key)

/-- The disk with a file written under its temporary name and moved to its own one. -/
def written (folder : Place) (disk : Disk) (c : Checkpoint) : Disk :=
  ((disk.put (folder ++ [temporaryName c.key]) (.file c.fileText)).put
    (folder ++ [fileName c.key]) (.file c.fileText)).clear (folder ++ [temporaryName c.key])

/-- Of what is written the file is left, and no temporary one. -/
lemma node?_written_of_ordered (hdisk : disk.Ordered) (c : Checkpoint) (place : Place) :
    (written folder disk c).node? place =
      if place = folder ++ [temporaryName c.key] then none
      else if place = folder ++ [fileName c.key] then some (.file c.fileText)
      else disk.node? place := by
  rw [written, Disk.node?_clear ((hdisk.put _ _).put _ _) (Disk.append_singleton_ne_nil _ _),
    Disk.node?_put (Disk.append_singleton_ne_nil _ _),
    Disk.node?_put (Disk.append_singleton_ne_nil _ _)]
  by_cases htemporary : place = folder ++ [temporaryName c.key]
  · rw [if_pos htemporary, if_pos htemporary]
  · rw [if_neg htemporary, if_neg htemporary, if_neg htemporary]

/-- Writing a checkpoint changes nothing but its file. -/
lemma node?_written (h : Filed folder disk m) (c : Checkpoint) (place : Place) :
    (written folder disk c).node? place =
      if place = folder ++ [fileName c.key] then some (.file c.fileText)
      else disk.node? place := by
  have hne : folder ++ [temporaryName c.key] ≠ folder ++ [fileName c.key] := fun heq =>
    temporaryName_ne_fileName c.key c.key (by simpa using heq)
  rw [node?_written_of_ordered h.ordered]
  by_cases htemporary : place = folder ++ [temporaryName c.key]
  · rw [if_pos htemporary, htemporary, if_neg hne]
    exact (h.node_temporaryName c.key).symm
  · rw [if_neg htemporary]

lemma save (h : Filed folder disk m) (c : Checkpoint) :
    Filed folder (written folder disk c) (m.save c) := by
  refine ⟨((h.ordered.put _ _).put _ _).clear _, ?_, fun name node => ?_⟩
  · rw [h.node?_written, if_neg (Disk.ne_append_singleton _ _)]
    exact h.exists_folder
  · rw [h.node?_written]
    simp only [List.append_cancel_left_eq, List.cons.injEq, and_true, load_save]
    by_cases hname : name = fileName c.key
    · rw [if_pos hname]
      constructor
      · intro hnode
        exact ⟨c, if_pos rfl, hname, (Option.some.inj hnode).symm⟩
      · rintro ⟨c', hload, hname', rfl⟩
        rw [if_pos (key_eq_iff.mp (fileName_inj (hname'.symm.trans hname)))] at hload
        rw [Option.some.inj hload]
    · rw [if_neg hname, h.file]
      refine exists_congr fun c' => and_congr_left fun ⟨hname', _⟩ => ?_
      rw [if_neg fun hid => hname (hname'.trans (congrArg fileName (key_eq_iff.mpr hid)))]

lemma delete (h : Filed folder disk m) (hm : Stored m) (id : SplitId) :
    Filed folder (disk.clear (folder ++ [fileName id.checkpointKey])) (m.delete id) := by
  have hclear := Disk.node?_clear h.ordered
    (Disk.append_singleton_ne_nil folder (fileName id.checkpointKey))
  refine ⟨h.ordered.clear _, ?_, fun name node => ?_⟩
  · rw [hclear, if_neg (Disk.ne_append_singleton _ _)]
    exact h.exists_folder
  · rw [hclear]
    simp only [List.append_cancel_left_eq, List.cons.injEq, and_true, load_delete hm]
    by_cases hname : name = fileName id.checkpointKey
    · rw [if_pos hname]
      constructor
      · nofun
      · rintro ⟨c, hload, hname', -⟩
        rw [if_pos (checkpointKey_inj (fileName_inj (hname'.symm.trans hname)))] at hload
        cases hload
    · rw [if_neg hname, h.file]
      refine exists_congr fun c => and_congr_left fun ⟨hname', _⟩ => ?_
      rw [if_neg fun hid => hname (hname'.trans (congrArg (fun i => fileName i.checkpointKey) hid))]

end Filed

namespace Known

variable {known : SortedMap String Checkpoint}

lemma save (h : Known known m) (c : Checkpoint) : Known (known.insert c.key c) (m.save c) := by
  refine ⟨SortedMap.ascending_insert h.ascending c.key c, fun key c' => ?_⟩
  rw [SortedMap.find?_insert, load_save]
  by_cases hkey : key = c.key
  · subst hkey
    rw [if_pos rfl, key_eq_iff]
    by_cases hid : c.splitId = c'.splitId
    · simp [hid]
    · simpa [hid] using fun heq : c = c' => hid (heq ▸ rfl)
  · rw [if_neg hkey, h.answer]
    refine and_congr_right fun hkey' => ?_
    rw [if_neg fun hid => hkey (hkey'.trans (key_eq_iff.mpr hid))]

lemma delete (h : Known known m) (hm : Stored m) (id : SplitId) :
    Known (known.erase id.checkpointKey) (m.delete id) := by
  refine ⟨SortedMap.ascending_erase h.ascending _, fun key c => ?_⟩
  rw [SortedMap.find?_erase h.ascending, load_delete hm]
  by_cases hkey : key = id.checkpointKey
  · subst hkey
    rw [if_pos rfl]
    constructor
    · nofun
    · rintro ⟨hkey, hload⟩
      rw [if_pos (checkpointKey_inj hkey).symm] at hload
      cases hload
  · rw [if_neg hkey, h.answer]
    refine and_congr_right fun hkey' => ?_
    rw [if_neg fun hid => hkey (hkey'.trans (congrArg SplitId.checkpointKey hid))]

lemma find?_checkpointKey (h : Known known m) (hm : Stored m) (id : SplitId) :
    known.find? id.checkpointKey = m.load id := by
  refine Option.ext fun c => ?_
  rw [h.answer]
  constructor
  · rintro ⟨hkey, hload⟩
    rwa [checkpointKey_inj hkey]
  · intro hload
    obtain rfl := hm.entry hload
    exact ⟨rfl, hload⟩

end Known

/-! ## Lists in order -/

lemma perm_insertId (id : SplitId) (ids : List SplitId) : (insertId id ids).Perm (id :: ids) := by
  induction ids with
  | nil => exact .refl _
  | cons other rest ih =>
    unfold insertId
    split
    · exact (ih.cons other).trans (.swap id other rest)
    · exact .refl _

lemma perm_sortIds (ids : List SplitId) : (ids.foldr insertId []).Perm ids := by
  induction ids with
  | nil => exact .refl _
  | cons id ids ih => exact (perm_insertId id _).trans (ih.cons id)

lemma pairwise_insertId (id : SplitId) {ids : List SplitId}
    (h : ids.Pairwise fun a b => (compare a b).isLE) :
    (insertId id ids).Pairwise fun a b => (compare a b).isLE := by
  induction ids with
  | nil => exact List.pairwise_singleton ..
  | cons other rest ih =>
    obtain ⟨hlater, hrest⟩ := List.pairwise_cons.mp h
    unfold insertId
    split
    · next hlt =>
      refine List.pairwise_cons.mpr ⟨fun b hb => ?_, ih hrest⟩
      rcases List.mem_cons.mp ((perm_insertId id rest).mem_iff.mp hb) with rfl | hb
      · rw [hlt]
        rfl
      · exact hlater b hb
    · next hge =>
      have hle : (compare id other).isLE := by
        cases hc : compare id other with
        | lt => rfl
        | eq => rfl
        | gt => exact absurd (Std.OrientedCmp.gt_iff_lt.mp hc) hge
      refine List.pairwise_cons.mpr ⟨fun b hb => ?_, h⟩
      rcases List.mem_cons.mp hb with rfl | hb
      · exact hle
      · exact Std.TransCmp.isLE_trans hle (hlater b hb)

lemma pairwise_sortIds (ids : List SplitId) :
    (ids.foldr insertId []).Pairwise fun a b => (compare a b).isLE := by
  induction ids with
  | nil => exact .nil
  | cons id ids ih => exact pairwise_insertId id ih

/-! ## Opening anew -/

/-- Some of the checkpoints of the folder are known, and nothing else is. -/
structure Recalls (folder : Place) (disk : Disk) (m : MemoryCheckpoints) (t : CheckpointFolder) :
    Prop where
  folder_eq : t.folder = folder
  disk_eq : t.disk = disk
  ascending : SortedMap.Ascending t.known
  sound : ∀ {key c}, t.known.find? key = some c → key = c.key ∧ m.load c.splitId = some c

/-- Loading a key of memory makes its checkpoint known beside those that were. -/
lemma Recalls.loadKey {t : CheckpointFolder} (ht : Recalls folder disk m t) (hm : Stored m)
    (hfiled : Filed folder disk m) {c : Checkpoint} (hc : m.load c.splitId = some c) :
    Recalls folder disk m (t.loadKey c.key).2 ∧
      ∀ key, (t.loadKey c.key).2.known.find? key =
        if key = c.key then some c else t.known.find? key := by
  cases hfind : t.known.find? c.key with
  | some c' =>
    obtain ⟨hkey, hload⟩ := ht.sound hfind
    rw [← key_eq_iff.mp hkey, hc] at hload
    have hsame : (t.loadKey c.key).2 = t := by
      rw [CheckpointFolder.loadKey, hfind]
    rw [hsame]
    refine ⟨ht, fun key => ?_⟩
    split
    · next heq => rw [heq, hfind, ← hload]
    · rfl
  | none =>
    obtain ⟨hid, hlegible⟩ := hm.storable hc
    have hread : t.disk.read t.folder (fileName c.key) = .ok c.fileText := by
      rw [ht.folder_eq, ht.disk_eq]
      exact Disk.read_name hfiled.exists_folder (isName_fileName hid) (hfiled.node_fileName hm hc)
    have hinsert : (t.loadKey c.key).2 = { t with known := t.known.insert c.key c } := by
      rw [CheckpointFolder.loadKey, hfind]
      simp only [hread, hlegible.ofFileText?]
    have hfound : ∀ key, (t.known.insert c.key c).find? key =
        if key = c.key then some c else t.known.find? key := fun key =>
      SortedMap.find?_insert t.known c.key key c
    rw [hinsert]
    refine ⟨⟨ht.folder_eq, ht.disk_eq, SortedMap.ascending_insert ht.ascending c.key c,
      fun {key c'} hkey => ?_⟩, hfound⟩
    rw [hfound] at hkey
    split at hkey
    · next heq =>
      obtain rfl := Option.some.inj hkey
      exact ⟨heq, hc⟩
    · exact ht.sound hkey

/-- Loading keys of memory makes their checkpoints known. -/
lemma Recalls.loadKeys (hm : Stored m) (hfiled : Filed folder disk m) {keys : List String}
    (hkeys : ∀ key ∈ keys, ∃ c, m.load c.splitId = some c ∧ key = c.key) {t : CheckpointFolder}
    (ht : Recalls folder disk m t) :
    Recalls folder disk m (keys.foldl (fun s key => (s.loadKey key).2) t) ∧
      ∀ c, m.load c.splitId = some c → c.key ∈ keys ∨ t.known.find? c.key = some c →
        (keys.foldl (fun s key => (s.loadKey key).2) t).known.find? c.key = some c := by
  induction keys generalizing t with
  | nil => exact ⟨ht, fun c _ hc => hc.resolve_left List.not_mem_nil⟩
  | cons key keys ih =>
    obtain ⟨c, hc, rfl⟩ := hkeys key List.mem_cons_self
    obtain ⟨hstep, hfound⟩ := ht.loadKey hm hfiled hc
    obtain ⟨hlast, hall⟩ := ih (fun key hkey => hkeys key (List.mem_cons_of_mem _ hkey)) hstep
    refine ⟨hlast, fun c' hc' hknown => hall c' hc' ?_⟩
    rw [hfound]
    by_cases hkey : c'.key = c.key
    · rw [if_pos hkey]
      rw [key_eq_iff.mp hkey, hc] at hc'
      exact .inr hc'
    · rw [if_neg hkey]
      exact hknown.imp_left fun hmem => (List.mem_cons.mp hmem).resolve_left hkey

/-- The keys of the files in the folder are those of the checkpoints in memory. -/
lemma mem_keys_iff (hm : Stored m) (hfiled : Filed folder disk m) (key : String) :
    key ∈ (disk.names folder).filterMap keyOfFile ↔
      ∃ c, m.load c.splitId = some c ∧ key = c.key := by
  have hkey : ∀ {c}, m.load c.splitId = some c → keyOfFile (fileName c.key) = some c.key :=
    fun {c} hc => keyOfFile_fileName (ne_empty_of_isSafeKey (hm.storable hc).1.safe)
  simp only [List.mem_filterMap, Disk.mem_names_iff hfiled.ordered, hfiled.file]
  constructor
  · rintro ⟨name, ⟨node, c, hc, rfl, -⟩, hname⟩
    rw [hkey hc] at hname
    exact ⟨c, hc, (Option.some.inj hname).symm⟩
  · rintro ⟨c, hc, rfl⟩
    exact ⟨_, ⟨_, c, hc, rfl, rfl⟩, hkey hc⟩

/-! ## What every operation does -/

namespace Mirrors

variable {s : CheckpointFolder}

/-- Saving succeeds, and saves what memory saves. -/
lemma save (h : Mirrors s m) {c : Checkpoint} (hid : c.splitId.Storable) (hc : c.Legible) :
    ∃ s', s.save c = (.ok (), s') ∧ Mirrors s' (m.save c) := by
  have hfolder := h.filed.exists_folder
  have hsafe : isSafeKey c.key = true := hid.safe
  have hfile : IsName (fileName c.key) := isName_fileName hid
  have htemporary : IsName (temporaryName c.key) := isName_temporaryName hid
  have hput := Disk.node?_put (d := s.disk)
    (Disk.append_singleton_ne_nil s.folder (temporaryName c.key)) (.file c.fileText)
  have hne : s.folder ++ [fileName c.key] ≠ s.folder ++ [temporaryName c.key] := fun heq =>
    temporaryName_ne_fileName c.key c.key (by simpa using heq.symm)
  have hwrite := Disk.write_name hfolder htemporary (h.filed.ne_folder _) c.fileText
  have hmove := Disk.move_name (by rw [hput, if_neg (Disk.ne_append_singleton _ _), hfolder])
    htemporary hfile (temporaryName_ne_fileName c.key c.key) (by rw [hput, if_pos rfl])
    (by rw [hput, if_neg hne]; exact h.filed.ne_folder _)
  refine ⟨{ s with disk := Filed.written s.folder s.disk c, known := s.known.insert c.key c }, ?_,
    ⟨h.stored.save hid hc, h.filed.save c, h.known.save c⟩⟩
  rw [CheckpointFolder.save, if_pos hsafe, hwrite]
  simp only [hmove]
  rfl

/-- Deleting succeeds, and deletes what memory deletes. -/
lemma delete (h : Mirrors s m) {id : SplitId} (hid : id.Storable) :
    ∃ s', s.delete id = (.ok (), s') ∧ Mirrors s' (m.delete id) := by
  have hfolder := h.filed.exists_folder
  have hfile := isName_fileName hid
  cases hload : m.load id with
  | none =>
    have hremove := Disk.remove_name_none hfolder hfile (h.filed.node_fileName_none hload)
    have hsame : ∀ other, (m.delete id).load other = m.load other := fun other => by
      rw [load_delete h.stored]
      split
      · next heq => rw [heq, hload]
      · rfl
    have hfiled : Filed s.folder s.disk (m.delete id) :=
      ⟨h.filed.ordered, hfolder, by simpa only [hsame] using h.filed.file⟩
    refine ⟨{ s with known := s.known.erase id.checkpointKey }, ?_,
      ⟨h.stored.delete id, hfiled, h.known.delete h.stored id⟩⟩
    simp only [CheckpointFolder.delete, hremove]
  | some c =>
    have hremove := Disk.remove_name hfolder hfile (h.filed.node_fileName h.stored hload)
    refine ⟨{ s with
      disk := s.disk.clear (s.folder ++ [fileName id.checkpointKey])
      known := s.known.erase id.checkpointKey }, ?_,
      ⟨h.stored.delete id, h.filed.delete h.stored id, h.known.delete h.stored id⟩⟩
    simp only [CheckpointFolder.delete, hremove]

lemma load (h : Mirrors s m) {id : SplitId} (hid : id.Storable) :
    s.load id = (.ok (m.load id), s) := by
  rw [CheckpointFolder.load, loadKey, h.known.find?_checkpointKey h.stored]
  cases hload : m.load id with
  | some c => rfl
  | none =>
    have hread := Disk.read_name_none h.filed.exists_folder (isName_fileName hid)
      (h.filed.node_fileName_none hload)
    simp only [hread]

/-- The same splits are listed. -/
lemma list_eq (h : Mirrors s m) : s.list = m.list := by
  have hentries : ∀ e ∈ m.entries, e.2.splitId = e.1 := fun e he =>
    h.stored.entry ((SortedMap.find?_eq_some_iff h.stored.ascending).mpr he)
  have hkeys : m.list = m.entries.map Prod.fst := by
    rw [MemoryCheckpoints.list, SortedMap.values, List.map_map]
    exact List.map_congr_left hentries
  have hknown : ∀ e ∈ s.known, e.1 = e.2.key ∧ m.load e.2.splitId = some e.2 := fun e he =>
    (h.known.answer e.1 e.2).mp ((SortedMap.find?_eq_some_iff h.known.ascending).mpr he)
  have hmem : ∀ id, id ∈ s.known.values.map Checkpoint.splitId ↔ id ∈ m.list := by
    intro id
    simp only [hkeys, SortedMap.values, List.map_map, List.mem_map, Function.comp_apply]
    constructor
    · rintro ⟨e, he, rfl⟩
      exact ⟨(e.2.splitId, e.2),
        (SortedMap.find?_eq_some_iff h.stored.ascending).mp (hknown e he).2, rfl⟩
    · rintro ⟨e, he, rfl⟩
      have hload : m.load e.1 = some e.2 := (SortedMap.find?_eq_some_iff h.stored.ascending).mpr he
      have hid := h.stored.entry hload
      exact ⟨(e.2.key, e.2), (SortedMap.find?_eq_some_iff h.known.ascending).mp
        ((h.known.answer _ _).mpr ⟨rfl, hid ▸ hload⟩), hid⟩
  have hnodup : (s.known.values.map Checkpoint.splitId).Nodup := by
    rw [SortedMap.values, List.map_map]
    refine List.pairwise_map.mpr ((List.pairwise_map.mp h.known.ascending.nodup_keys).imp_of_mem ?_)
    intro e f he hf hne heq
    exact hne (by rw [(hknown e he).1, (hknown f hf).1, key_eq_iff]; exact heq)
  have hlist : (m.list).Pairwise fun a b => (compare a b).isLE := by
    rw [hkeys]
    exact List.pairwise_map.mpr (h.stored.ascending.imp fun hlt => by rw [hlt]; rfl)
  have hnodupList : m.list.Nodup := hkeys ▸ h.stored.ascending.nodup_keys
  have hperm : s.list.Perm m.list :=
    (perm_sortIds _).trans ((List.perm_ext_iff_of_nodup hnodup hnodupList).mpr hmem)
  refine hperm.eq_of_pairwise (fun a b _ _ hab hba => ?_) (pairwise_sortIds _) hlist
  exact Std.LawfulEqOrd.eq_of_compare (Std.OrientedCmp.isLE_antisymm hab hba)

/-- Opening the folder anew finds what memory holds. -/
lemma reopen (h : Mirrors s m) : Mirrors s.reopen m := by
  have hstart : Recalls s.folder s.disk m { s with known := [] } :=
    ⟨rfl, rfl, SortedMap.ascending_nil, nofun⟩
  have hkeys := mem_keys_iff h.stored h.filed
  obtain ⟨hrecalls, hall⟩ := hstart.loadKeys h.stored h.filed fun key hkey => (hkeys key).mp hkey
  refine ⟨h.stored, ?_, hrecalls.ascending, fun key c => ⟨hrecalls.sound, ?_⟩⟩
  · have hfolder : s.reopen.folder = s.folder := hrecalls.folder_eq
    have hdisk : s.reopen.disk = s.disk := hrecalls.disk_eq
    rw [hfolder, hdisk]
    exact h.filed
  · rintro ⟨rfl, hc⟩
    exact hall c hc (.inl ((hkeys c.key).mpr ⟨c, hc, rfl⟩))

end Mirrors

end CheckpointFolder

/-! ## Runs -/

/-- What a store of checkpoints is asked. -/
inductive StoreOp where
  | save (c : Checkpoint)
  | load (id : SplitId)
  | delete (id : SplitId)
  | list
  /-- The store is dropped, and opened on the same folder. -/
  | reopen

/-- What a store of checkpoints answers. -/
inductive StoreAnswer where
  | done (result : Outcome Unit)
  | found (result : Outcome (Option Checkpoint))
  | listed (ids : List SplitId)
  | opened

/-- A folder's answer, and the folder then. -/
def CheckpointFolder.answer (s : CheckpointFolder) : StoreOp → StoreAnswer × CheckpointFolder
  | .save c => (.done (s.save c).1, (s.save c).2)
  | .load id => (.found (s.load id).1, (s.load id).2)
  | .delete id => (.done (s.delete id).1, (s.delete id).2)
  | .list => (.listed s.list, s)
  | .reopen => (.opened, s.reopen)

/-- Memory's answer, and memory then; it stays as it is when the other store is opened anew. -/
def MemoryCheckpoints.answer (m : MemoryCheckpoints) : StoreOp → StoreAnswer × MemoryCheckpoints
  | .save c => (.done (.ok ()), m.save c)
  | .load id => (.found (.ok (m.load id)), m)
  | .delete id => (.done (.ok ()), m.delete id)
  | .list => (.listed m.list, m)
  | .reopen => (.opened, m)

/-- The answers of a store to one operation after the other. -/
def answers {α : Type} (answer : α → StoreOp → StoreAnswer × α) (s : α) :
    List StoreOp → List StoreAnswer
  | [] => []
  | op :: ops => (answer s op).1 :: answers answer (answer s op).2 ops

/-- The operation is about a split whose key can name a file, and what it saves is read back. -/
def StoreOp.Storable : StoreOp → Prop
  | .save c => c.splitId.Storable ∧ c.Legible
  | .load id => id.Storable
  | .delete id => id.Storable
  | .list => True
  | .reopen => True

namespace CheckpointFolder

variable {s : CheckpointFolder} {m : MemoryCheckpoints}

/-- To every operation the folder gives memory's answer, and it goes on to mirror memory. -/
lemma Mirrors.answer (h : Mirrors s m) {op : StoreOp} (hop : op.Storable) :
    (s.answer op).1 = (m.answer op).1 ∧ Mirrors (s.answer op).2 (m.answer op).2 := by
  cases op with
  | save c =>
    obtain ⟨s', hsave, hs'⟩ := h.save hop.1 hop.2
    rw [CheckpointFolder.answer, hsave]
    exact ⟨rfl, hs'⟩
  | load id =>
    rw [CheckpointFolder.answer, h.load hop]
    exact ⟨rfl, h⟩
  | delete id =>
    obtain ⟨s', hdelete, hs'⟩ := h.delete hop
    rw [CheckpointFolder.answer, hdelete]
    exact ⟨rfl, hs'⟩
  | list => exact ⟨congrArg StoreAnswer.listed h.list_eq, h⟩
  | reopen => exact ⟨rfl, h.reopen⟩

lemma Mirrors.answers (h : Mirrors s m) {ops : List StoreOp} (hops : ∀ op ∈ ops, op.Storable) :
    answers CheckpointFolder.answer s ops = answers MemoryCheckpoints.answer m ops := by
  induction ops generalizing s m with
  | nil => rfl
  | cons op ops ih =>
    obtain ⟨hanswer, hnext⟩ := h.answer (hops op List.mem_cons_self)
    rw [Changefeed.answers, Changefeed.answers, hanswer,
      ih hnext fun other hother => hops other (List.mem_cons_of_mem _ hother)]

/-- An empty folder mirrors empty memory. -/
lemma mirrors_empty {folder : Place} {disk : Disk} (hordered : disk.Ordered)
    (hfolder : disk.node? folder = some .folder) (hempty : disk.names folder = []) :
    Mirrors { folder, disk } {} := by
  refine ⟨⟨SortedMap.ascending_nil, nofun, nofun⟩, ⟨hordered, hfolder, fun name node => ?_⟩,
    ⟨SortedMap.ascending_nil, fun key c => ⟨nofun, nofun⟩⟩⟩
  constructor
  · intro hnode
    have hname := (Disk.mem_names_iff hordered).mpr ⟨node, hnode⟩
    rw [hempty] at hname
    cases hname
  · rintro ⟨c, hload, -⟩
    cases hload

/-- Opened on an empty folder, wherever on whatever disk, the store of files answers every sequence
of saving, loading, deleting, listing and opening anew as memory answers it. -/
theorem answers_eq_memory {folder : Place} {disk : Disk} (hordered : disk.Ordered)
    (hfolder : disk.node? folder = some .folder) (hempty : disk.names folder = [])
    {ops : List StoreOp} (hops : ∀ op ∈ ops, op.Storable) :
    answers CheckpointFolder.answer (CheckpointFolder.reopen { folder, disk }) ops =
      answers MemoryCheckpoints.answer {} ops :=
  (mirrors_empty hordered hfolder hempty).reopen.answers hops

/-- A checkpoint of a split at a place in a file. -/
def progress (id : SplitId) (position : UInt64) : Checkpoint :=
  ⟨id, [⟨"shop", "orders"⟩], .binlog "log.000001" position, ⟨⟨2024, 2, 29⟩, 0, 0, 1⟩⟩

/-- Two splits, one of whose keys begins with the other one: the last checkpoint of the first split
and the only one of the second survive, and the second one's is gone for good when it is deleted. -/
theorem answers_eq_memory_reopened :
    let first : SplitId := ⟨"incremental", 1⟩
    let second : SplitId := ⟨"incremental_1", 2⟩
    answers CheckpointFolder.answer
        (reopen { folder := ["var", "progress"], disk := .withFolder ["var", "progress"] })
        [.save (progress second 4), .save (progress first 4), .save (progress first 9), .reopen,
          .load first, .list, .delete second, .reopen, .load second, .list] =
      [.done (.ok ()), .done (.ok ()), .done (.ok ()), .opened,
        .found (.ok (some (progress first 9))), .listed [first, second], .done (.ok ()), .opened,
        .found (.ok none), .listed [first]] := by
  intro first second
  have hfirst : first.Storable := ⟨by decide +kernel, by decide +kernel, by decide +kernel⟩
  have hsecond : second.Storable := ⟨by decide +kernel, by decide +kernel, by decide +kernel⟩
  have hlegible : ∀ id position, (progress id position).Legible := fun id position => {
    tableIds := by
      have horders : TableId.Legible ⟨"shop", "orders"⟩ :=
        TableId.legible_iff.mpr ⟨by decide, by decide, by decide⟩
      simpa [progress] using horders
    offset := trivial
    createdAt := ⟨rfl, Nat.succ_pos _, Nat.zero_le _, Nat.one_lt_pow (by decide) (by decide)⟩ }
  have hsaved : ∀ id, id.Storable → ∀ position, (StoreOp.save (progress id position)).Storable :=
    fun id hid position => ⟨hid, hlegible id position⟩
  refine (answers_eq_memory (SortedMap.ascending_ofEntries _) (by decide +kernel)
    (by decide +kernel) ?_).trans ?_
  · simp only [List.forall_mem_cons, List.not_mem_nil, false_imp_iff, implies_true, and_true]
    exact ⟨hsaved _ hsecond 4, hsaved _ hfirst 4, hsaved _ hfirst 9, trivial, hfirst, trivial,
      hsecond, trivial, hsecond, trivial⟩
  · have hbefore : compare first second = .lt := by decide
    have hafter : compare second first = .gt := by decide
    simp [answers, MemoryCheckpoints.answer, MemoryCheckpoints.save, MemoryCheckpoints.load,
      MemoryCheckpoints.delete, MemoryCheckpoints.list, SortedMap.insert, SortedMap.find?,
      SortedMap.erase, SortedMap.values, progress, hbefore, hafter]

end CheckpointFolder
end Changefeed
