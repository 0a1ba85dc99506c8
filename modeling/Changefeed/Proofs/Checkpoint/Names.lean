import Changefeed.Proofs.Checkpoint.Operations

/-!
# Names tell splits apart

The progress of a split is known under its key, kept in a file that is named by the key, and written
to a temporary file before, whose name is the file's with another extension.  The scope in a key may
be any text, with underscores, digits, points and slashes in it.  Still nothing of one split is
named as something of another one.  Behind its last underscore a key has the digits of the split's
number, so it tells where the scope ends.  They also end the last part of the path that the key
makes, so the extension is all that is replaced for the temporary file, wherever the scope has
points.

A store that is asked about other splits therefore leaves a split's progress alone.  Whatever is
saved, loaded, deleted or listed in between, the same is under the names of the split's two files,
the same is known under its key, and the same is loaded.  Two kinds of operations are left out: a
delete follows the path of its key, which can come to any file when the key has a slash, and opening
the store anew is about all splits at once.
-/

namespace Changefeed

open CheckpointFolder

namespace SplitId

variable {a b : SplitId}

lemma checkpointKey_injective : Function.Injective checkpointKey := fun _ _ => checkpointKey_inj

lemma fileName_injective : Function.Injective fun id : SplitId => fileName id.checkpointKey :=
  fun _ _ h => checkpointKey_inj (fileName_inj h)

lemma temporaryName_injective :
    Function.Injective fun id : SplitId => temporaryName id.checkpointKey := by
  intro a b h
  have hlist := congrArg String.toList h
  simp only [temporaryName_checkpointKey, String.toList_append] at hlist
  exact checkpointKey_inj (String.toList_inj.mp (List.append_cancel_right hlist))

/-- The names of a split's file and of the temporary one. -/
def fileNames (id : SplitId) : List String :=
  [fileName id.checkpointKey, temporaryName id.checkpointKey]

lemma disjoint_fileNames (h : a ≠ b) : a.fileNames.Disjoint b.fileNames := by
  have hfile := fileName_injective.ne h
  have htemporary := temporaryName_injective.ne h
  simp only [fileNames, List.disjoint_cons_left, List.disjoint_nil_left, List.mem_cons,
    List.not_mem_nil, or_false, not_or, and_true]
  exact ⟨⟨hfile, (temporaryName_ne_fileName _ _).symm⟩, temporaryName_ne_fileName _ _, htemporary⟩

end SplitId

/-- The operation is about another split, and if it deletes, the key leads to a file of its own. -/
def StoreOp.Avoids (id : SplitId) : StoreOp → Prop
  | .save c => c.splitId ≠ id
  | .load other => other ≠ id
  | .delete other => other ≠ id ∧ '/' ∉ other.checkpointKey.toList
  | .list => True
  | .reopen => False

instance (id : SplitId) : (op : StoreOp) → Decidable (op.Avoids id)
  | .save c => inferInstanceAs (Decidable (c.splitId ≠ id))
  | .load other => inferInstanceAs (Decidable (other ≠ id))
  | .delete other => inferInstanceAs (Decidable (other ≠ id ∧ _))
  | .list => inferInstanceAs (Decidable True)
  | .reopen => inferInstanceAs (Decidable False)

namespace CheckpointFolder

open SplitId (checkpointKey_injective)

variable {s t u : CheckpointFolder} {id other : SplitId} {op : StoreOp} {ops : List StoreOp}

/-- Between the two states nothing of the split has changed: what is under the names of its files,
and what is known under its key. -/
structure Untouched (id : SplitId) (s t : CheckpointFolder) : Prop where
  folder : t.folder = s.folder
  files : ∀ name ∈ id.fileNames,
    t.disk.node? (s.folder ++ [name]) = s.disk.node? (s.folder ++ [name])
  known : t.known.find? id.checkpointKey = s.known.find? id.checkpointKey

/-- The store after operations. -/
def after (s : CheckpointFolder) (ops : List StoreOp) : CheckpointFolder :=
  ops.foldl (fun s op => (s.answer op).2) s

namespace Untouched

lemma refl (id : SplitId) (s : CheckpointFolder) : Untouched id s s := ⟨rfl, fun _ _ => rfl, rfl⟩

lemma trans (h : Untouched id s t) (h' : Untouched id t u) : Untouched id s u where
  folder := h'.folder.trans h.folder
  files := fun name hname => by
    have hfiles := h'.files name hname
    rw [h.folder] at hfiles
    exact hfiles.trans (h.files name hname)
  known := h'.known.trans h.known

lemma readKey (h : Untouched id s t) (hs : s.Sound) (ht : t.Sound)
    (hslash : '/' ∉ id.checkpointKey.toList) :
    t.readKey id.checkpointKey = s.readKey id.checkpointKey := by
  rw [CheckpointFolder.readKey, CheckpointFolder.readKey, h.folder]
  refine Disk.read_congr fun place hplace => ?_
  rcases (isPart_fileName hslash).mem_trail hplace with rfl | rfl
  · rw [hs.folder, ← h.folder, ht.folder]
  · exact h.files _ (.head _)

lemma load (h : Untouched id s t) (hs : s.Sound) (ht : t.Sound)
    (hslash : '/' ∉ id.checkpointKey.toList) :
    (t.load id).1 = (s.load id).1 ∧ (t.reopen.load id).1 = (s.reopen.load id).1 := by
  have hread := h.readKey hs ht hslash
  constructor
  · rw [CheckpointFolder.load, CheckpointFolder.load, loadKey_fst, loadKey_fst, h.known, hread]
  · rw [load_reopen, load_reopen, hread]

end Untouched

namespace Sound

/-- A save changes nothing but what is under the names of its split's files and what is known under
its key, whether it succeeds or not. -/
lemma save_elsewhere (h : s.Sound) (c : Checkpoint) :
    (∀ place, (∀ name ∈ c.splitId.fileNames, place ≠ s.folder ++ [name]) →
      (s.save c).2.disk.node? place = s.disk.node? place) ∧
    ∀ key, key ≠ c.key → (s.save c).2.known.find? key = s.known.find? key := by
  by_cases hsafe : isSafeKey c.key = true
  · have hput : ∀ {place}, place ≠ s.folder ++ [temporaryName c.key] →
        (s.disk.put (s.folder ++ [temporaryName c.key]) (.file c.fileText)).node? place =
          s.disk.node? place := fun hne => by
      rw [Disk.node?_put (Disk.append_singleton_ne_nil _ _), if_neg hne]
    simp only [SplitId.fileNames, List.forall_mem_cons, List.not_mem_nil, false_imp_iff,
      implies_true, and_true]
    rw [save_eq h.folder hsafe]
    split
    · exact ⟨fun _ _ => rfl, fun _ _ => rfl⟩
    split
    · exact ⟨fun _ _ => rfl, fun _ _ => rfl⟩
    split
    · exact ⟨fun _ hplace => hput hplace.2, fun _ _ => rfl⟩
    split
    · exact ⟨fun _ hplace => hput hplace.2, fun _ _ => rfl⟩
    · refine ⟨fun place hplace => ?_, fun key hkey => ?_⟩
      · rw [Filed.node?_written_of_ordered h.tree.ordered]
        exact (if_neg hplace.2).trans (if_neg hplace.1)
      · rw [SortedMap.find?_insert, if_neg hkey]
  · rw [CheckpointFolder.save, if_neg hsafe]
    exact ⟨fun _ _ => rfl, fun _ _ => rfl⟩

lemma untouched_save (h : s.Sound) {c : Checkpoint} (hne : c.splitId ≠ id) :
    Untouched id s (s.save c).2 := by
  obtain ⟨hfiles, hknown⟩ := h.save_elsewhere c
  refine ⟨(h.save c).folder, fun name hname => hfiles _ fun name' hname' heq => ?_,
    hknown _ (checkpointKey_injective.ne hne.symm)⟩
  obtain rfl : name = name' := by simpa using heq
  exact SplitId.disjoint_fileNames hne hname' hname

lemma untouched_load (hne : other ≠ id) : Untouched id s (s.load other).2 := by
  obtain ⟨known, hload, -, hfind⟩ := s.loadKey_snd other.checkpointKey
  rw [CheckpointFolder.load, hload]
  refine ⟨rfl, fun _ _ => rfl, ?_⟩
  rw [hfind, if_neg (checkpointKey_injective.ne hne.symm), Option.or_none]

lemma untouched_delete (h : s.Sound) (hne : other ≠ id)
    (hslash : '/' ∉ other.checkpointKey.toList) : Untouched id s (s.delete other).2 := by
  have herase : (s.known.erase other.checkpointKey).find? id.checkpointKey =
      s.known.find? id.checkpointKey := by
    rw [SortedMap.find?_erase h.ascending, if_neg (checkpointKey_injective.ne hne.symm)]
  obtain ⟨place, text, hfinds, -, hdelete⟩ | ⟨f, -, -, hdelete⟩ := s.delete_cases other
  · rw [hdelete]
    refine ⟨rfl, fun name hname => ?_, herase⟩
    have hother : s.folder ++ [name] ≠ place := fun heq => by
      rw [h.place_of_finds hslash hfinds] at heq
      obtain rfl : name = fileName other.checkpointKey := by simpa using heq
      exact SplitId.disjoint_fileNames hne (.head _) hname
    rw [hfinds.node?_clear h.tree.ordered, if_neg hother]
  · rw [hdelete]
    refine ⟨rfl, fun _ _ => rfl, ?_⟩
    cases goneFrom (.error f) with
    | ok _ => exact herase
    | error _ => rfl

lemma untouched_answer (h : s.Sound) (hop : op.Avoids id) : Untouched id s (s.answer op).2 := by
  cases op with
  | save c => exact h.untouched_save hop
  | load other => exact untouched_load hop
  | delete other => exact h.untouched_delete hop.1 hop.2
  | list => exact .refl id s
  | reopen => exact hop.elim

lemma after (h : s.Sound) (ops : List StoreOp) : (s.after ops).Sound := by
  induction ops generalizing s with
  | nil => exact h
  | cons op ops ih => exact ih (h.answer op).sound

lemma untouched_after (h : s.Sound) (hops : ∀ op ∈ ops, op.Avoids id) :
    Untouched id s (s.after ops) := by
  induction ops generalizing s with
  | nil => exact .refl id s
  | cons op ops ih =>
    have hstep := h.untouched_answer (hops op (.head _))
    exact hstep.trans (ih (h.answer op).sound fun later hlater => hops later (.tail _ hlater))

end Sound

/-- Two splits have one key, one file's name or one temporary file's name only if they are the same,
and no temporary file is named as a file of any split.  So operations on other splits leave a split
untouched, and if its key is accepted, the same is loaded of it then, also by a store that is opened
anew. -/
theorem names_tell_splits_apart (a b : SplitId) :
    (a.checkpointKey = b.checkpointKey ↔ a = b) ∧
    (fileName a.checkpointKey = fileName b.checkpointKey ↔ a = b) ∧
    (temporaryName a.checkpointKey = temporaryName b.checkpointKey ↔ a = b) ∧
    temporaryName a.checkpointKey ≠ fileName b.checkpointKey ∧
    ∀ s : CheckpointFolder, s.Reached → ∀ ops : List StoreOp, (∀ op ∈ ops, op.Avoids a) →
      Untouched a s (s.after ops) ∧
        (isSafeKey a.checkpointKey = true → ((s.after ops).load a).1 = (s.load a).1 ∧
          ((s.after ops).reopen.load a).1 = (s.reopen.load a).1) := by
  refine ⟨checkpointKey_injective.eq_iff, SplitId.fileName_injective.eq_iff,
    SplitId.temporaryName_injective.eq_iff, temporaryName_ne_fileName _ _,
    fun s hs ops hops => ?_⟩
  have hafter := hs.sound.untouched_after hops
  exact ⟨hafter, fun hsafe =>
    hafter.load hs.sound (hs.sound.after ops) (slash_not_mem_of_isSafeKey hsafe)⟩

/-- A split with an underscore in its scope, one whose key has the same digits in other places, and
one whose scope is the name of the first split's file: the first split has a file, which is untouched
by what happens to the others. -/
theorem names_tell_splits_apart_underscores :
    let folder : Place := ["var", "progress"]
    let first : SplitId := ⟨"x_1", 1⟩
    let second : SplitId := ⟨"x", 11⟩
    let third : SplitId := ⟨"x_1_1.json", 1⟩
    let disk : Disk := (Disk.withFolder folder).put (folder ++ [fileName first.checkpointKey])
      (.file (progress first 4).fileText)
    let s := reopen { folder, disk }
    let t := s.after [.save (progress second 9), .save (progress third 9), .load second,
      .delete third, .list]
    first.checkpointKey ≠ second.checkpointKey ∧
      fileName first.checkpointKey ≠ fileName third.checkpointKey ∧
      temporaryName first.checkpointKey ≠ temporaryName third.checkpointKey ∧
      temporaryName third.checkpointKey ≠ fileName first.checkpointKey ∧
      s.Reached ∧ Untouched first s t ∧ s.Finds first (folder ++ [fileName first.checkpointKey]) ∧
      (t.load first).1 = (s.load first).1 ∧ (t.reopen.load first).1 = (s.reopen.load first).1 := by
  intro folder first second third disk s t
  have hs : s.Reached := .opened (by decide +kernel) (by decide +kernel)
  have hfinds : disk.Finds folder (fileName first.checkpointKey)
      (folder ++ [fileName first.checkpointKey]) :=
    ⟨by decide +kernel, (progress first 4).fileText,
      (Disk.node?_put (Disk.append_singleton_ne_nil _ _) _ _).trans (if_pos rfl)⟩
  -- opening a store leaves the folder and the disk as they are
  obtain ⟨known, hopened, -⟩ := reopen_eq { folder, disk }
  have hs' : s = { folder, disk, known } := hopened
  obtain ⟨hsecond, -⟩ := names_tell_splits_apart first second
  obtain ⟨-, hfile, htemporary, -, hafter⟩ := names_tell_splits_apart first third
  obtain ⟨-, -, -, hthird, -⟩ := names_tell_splits_apart third first
  obtain ⟨huntouched, hload⟩ := hafter s hs
    [.save (progress second 9), .save (progress third 9), .load second, .delete third, .list]
    (by decide +kernel)
  obtain ⟨hloaded, hreopened⟩ := hload (by decide +kernel)
  exact ⟨hsecond.not.mpr (by decide), hfile.not.mpr (by decide), htemporary.not.mpr (by decide),
    hthird, hs, huntouched, hs' ▸ hfinds, hloaded, hreopened⟩

end CheckpointFolder
end Changefeed
