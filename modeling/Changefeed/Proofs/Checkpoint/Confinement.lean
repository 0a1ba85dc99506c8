import Changefeed.Proofs.Checkpoint.Beside
import Changefeed.Proofs.Checkpoint.Operations

/-!
# What a refused key reaches

Saving refuses a key that could name a place outside of the folder of checkpoints.  Loading and
deleting do not look at the key: they follow the path that it makes, wherever that leads.

A load changes no file, and nothing that is answered about other splits later on.  Its answer
depends on what is beside the folder as soon as the path comes to a place there.  So does that of a
delete, and the file that the path leads to goes, wherever it is.  Later on everything about other
splits is answered as without the delete exactly when none of their paths comes to the place of that
file.

What is answered later on is compared by following two stores at once, one that has been asked about
the refused key and one that has not.  They agree at all places that the paths of the other splits
come to, and those paths come to the same places for good, because a store never makes or takes away
a folder.
-/

namespace Changefeed

open Disk (IsName Beside)

/-! ## Two stores at once -/

/-- The operation is about one of these splits, or opens the store anew. -/
def StoreOp.About (ids : SplitId → Prop) : StoreOp → Prop
  | .save c => ids c.splitId
  | .load id => ids id
  | .delete id => ids id
  | .list => False
  | .reopen => True

namespace CheckpointFolder

open SplitId (checkpointKey_inj)

variable {s s' t t' : CheckpointFolder} {id : SplitId} {ids : SplitId → Prop}

/-- Two stores of one folder that know the same about these splits, and on whose disks there is the
same wherever the paths of these splits and the temporary files lead. -/
structure Alike (ids : SplitId → Prop) (s t : CheckpointFolder) : Prop where
  left : s.Sound
  right : t.Sound
  folder : t.folder = s.folder
  trail : ∀ id, ids id → ∀ place ∈ s.trail id, t.disk.node? place = s.disk.node? place
  temporary : ∀ key, t.disk.node? (s.folder ++ [temporaryName key]) =
    s.disk.node? (s.folder ++ [temporaryName key])
  known : ∀ id, ids id → t.known.find? id.checkpointKey = s.known.find? id.checkpointKey

namespace Alike

lemma readKey (h : Alike ids s t) (hid : ids id) :
    t.readKey id.checkpointKey = s.readKey id.checkpointKey := by
  rw [CheckpointFolder.readKey, CheckpointFolder.readKey, h.folder]
  exact Disk.read_congr (h.trail id hid)

lemma finds (h : Alike ids s t) (hid : ids id) (place : Place) :
    t.Finds id place ↔ s.Finds id place := by
  rw [Finds, Finds, h.folder]
  exact Disk.finds_congr (h.trail id hid)

/-- Two stores stay alike when they change alike. -/
lemma next (h : Alike ids s t) (hs : Follows s s') (ht : Follows t t')
    (hdisk : ∀ place, t.disk.node? place = s.disk.node? place →
      t'.disk.node? place = s'.disk.node? place)
    (hknown : ∀ id, ids id → t'.known.find? id.checkpointKey = s'.known.find? id.checkpointKey) :
    Alike ids s' t' where
  left := hs.sound
  right := ht.sound
  folder := by rw [hs.folder, ht.folder, h.folder]
  trail := fun id hid place hplace => hdisk place (h.trail id hid place (hs.trail id ▸ hplace))
  temporary := fun key => by
    rw [hs.folder]
    exact hdisk _ (h.temporary key)
  known := hknown

lemma load (h : Alike ids s t) (hid : ids id) :
    (t.load id).1 = (s.load id).1 ∧ Alike ids (s.load id).2 (t.load id).2 := by
  have hs := h.left.loadKey id.checkpointKey
  have ht := h.right.loadKey id.checkpointKey
  refine ⟨?_, ?_⟩
  · rw [CheckpointFolder.load, CheckpointFolder.load, loadKey_fst, loadKey_fst, h.known id hid,
      h.readKey hid]
  · rw [CheckpointFolder.load, CheckpointFolder.load]
    obtain ⟨known, hload, -, hfind⟩ := s.loadKey_snd id.checkpointKey
    obtain ⟨known', hload', -, hfind'⟩ := t.loadKey_snd id.checkpointKey
    rw [hload] at hs ⊢
    rw [hload'] at ht ⊢
    refine h.next hs ht (fun place hplace => hplace) fun other hother => ?_
    rw [hfind', hfind, h.known other hother, h.readKey hid]

lemma delete (h : Alike ids s t) (hid : ids id) :
    (t.delete id).1 = (s.delete id).1 ∧ Alike ids (s.delete id).2 (t.delete id).2 := by
  have hs := h.left.delete id
  have ht := h.right.delete id
  have herase : ∀ other, ids other →
      (t.known.erase id.checkpointKey).find? other.checkpointKey =
        (s.known.erase id.checkpointKey).find? other.checkpointKey := fun other hother => by
    rw [SortedMap.find?_erase h.right.ascending, SortedMap.find?_erase h.left.ascending,
      h.known other hother]
  refine ⟨by rw [delete_fst, delete_fst, h.readKey hid], ?_⟩
  obtain ⟨place, text, hfinds, -, hdelete⟩ | ⟨f, hnone, hread, hdelete⟩ := s.delete_cases id
  · -- the other store finds the same file, so both lose it
    obtain ⟨place', text', hfinds', -, hdelete'⟩ | ⟨f', hnone', -, -⟩ := t.delete_cases id
    · obtain rfl : place' = place := ((h.finds hid place').mp hfinds').unique hfinds
      rw [hdelete] at hs ⊢
      rw [hdelete'] at ht ⊢
      refine h.next hs ht (fun place hplace => ?_) herase
      simp only [hfinds.node?_clear h.left.tree.ordered, hfinds'.node?_clear h.right.tree.ordered,
        hplace]
    · exact absurd ((h.finds hid place).mpr hfinds) (hnone' place)
  · obtain ⟨place', text', hfinds', -, -⟩ | ⟨f', -, hread', hdelete'⟩ := t.delete_cases id
    · exact absurd ((h.finds hid place').mp hfinds') (hnone place')
    · obtain rfl : f' = f := by
        rw [h.readKey hid, hread] at hread'
        exact (Except.error.inj hread').symm
      rw [hdelete] at hs ⊢
      rw [hdelete'] at ht ⊢
      refine h.next hs ht (fun place hplace => hplace) fun other hother => ?_
      cases goneFrom (.error f') with
      | ok _ => exact herase other hother
      | error _ => exact h.known other hother

lemma node?_fileName (h : Alike ids s t) (hid : ids id)
    (hname : IsName (fileName id.checkpointKey)) :
    t.disk.node? (s.folder ++ [fileName id.checkpointKey]) =
      s.disk.node? (s.folder ++ [fileName id.checkpointKey]) :=
  h.trail id hid _ (Disk.mem_trail_of_resolve (Disk.resolve_name h.left.folder hname))

lemma save {c : Checkpoint} (h : Alike ids s t) (hid : ids c.splitId) :
    (t.save c).1 = (s.save c).1 ∧ Alike ids (s.save c).2 (t.save c).2 := by
  have hput : ∀ (d : Disk) (name : String) (node : Node) (other : Place),
      (d.put (s.folder ++ [name]) node).node? other =
        if other = s.folder ++ [name] then some node else d.node? other :=
    fun d name => Disk.node?_put (Disk.append_singleton_ne_nil s.folder name)
  suffices hsame : (t.save c).1 = (s.save c).1 ∧
      (∀ place, t.disk.node? place = s.disk.node? place →
        (t.save c).2.disk.node? place = (s.save c).2.disk.node? place) ∧
      ∀ key, t.known.find? key = s.known.find? key →
        (t.save c).2.known.find? key = (s.save c).2.known.find? key from
    ⟨hsame.1, h.next (h.left.save c) (h.right.save c) hsame.2.1
      fun id hid => hsame.2.2 _ (h.known id hid)⟩
  by_cases hsafe : isSafeKey c.key = true
  · rw [save_eq h.left.folder hsafe, save_eq h.right.folder hsafe, h.folder, h.temporary]
    split
    · exact ⟨rfl, fun _ hplace => hplace, fun _ hkey => hkey⟩
    split
    · exact ⟨rfl, fun _ hplace => hplace, fun _ hkey => hkey⟩
    split
    · exact ⟨rfl, fun place hplace => by simp only [hput, hplace], fun _ hkey => hkey⟩
    next hfile =>
    rw [not_not] at hfile
    have hnode : t.disk.node? (s.folder ++ [fileName c.key]) =
        s.disk.node? (s.folder ++ [fileName c.key]) := h.node?_fileName hid hfile
    rw [hnode]
    split
    · exact ⟨rfl, fun place hplace => by simp only [hput, hplace], fun _ hkey => hkey⟩
    · refine ⟨rfl, fun place hplace => ?_, fun key hkey => ?_⟩
      · simp only [Filed.node?_written_of_ordered h.right.tree.ordered,
          Filed.node?_written_of_ordered h.left.tree.ordered, hplace]
      · simp only [SortedMap.find?_insert, hkey]
  · rw [CheckpointFolder.save, CheckpointFolder.save, if_neg hsafe, if_neg hsafe]
    exact ⟨rfl, fun _ hplace => hplace, fun _ hkey => hkey⟩

lemma reopen (h : Alike ids s t) : Alike ids s.reopen t.reopen := by
  have hs := h.left.reopen
  have ht := h.right.reopen
  obtain ⟨known, hopened, -, hfind⟩ := s.reopen_eq
  obtain ⟨known', hopened', -, hfind'⟩ := t.reopen_eq
  rw [hopened] at hs ⊢
  rw [hopened'] at ht ⊢
  refine h.next hs ht (fun place hplace => hplace) fun id hid => ?_
  -- a name that no file can have is in neither folder
  have hnode : (∃ node, t.disk.node? (t.folder ++ [fileName id.checkpointKey]) = some node) ↔
      ∃ node, s.disk.node? (s.folder ++ [fileName id.checkpointKey]) = some node := by
    rw [h.folder]
    by_cases hname : IsName (fileName id.checkpointKey)
    · rw [h.node?_fileName hid hname]
    · exact ⟨fun ⟨_, hnode⟩ => absurd (h.right.tree.entry hnode).2 hname,
        fun ⟨_, hnode⟩ => absurd (h.left.tree.entry hnode).2 hname⟩
  have hkeys : id.checkpointKey ∈ t.keys ↔ id.checkpointKey ∈ s.keys := by
    rw [mem_keys h.right, mem_keys h.left, hnode]
  simp only [hfind', hfind, hkeys, h.readKey hid]

lemma answer (h : Alike ids s t) {op : StoreOp} (hop : op.About ids) :
    (t.answer op).1 = (s.answer op).1 ∧ Alike ids (s.answer op).2 (t.answer op).2 := by
  cases op with
  | save c => exact (h.save hop).imp_left (congrArg StoreAnswer.done)
  | load id => exact (h.load hop).imp_left (congrArg StoreAnswer.found)
  | delete id => exact (h.delete hop).imp_left (congrArg StoreAnswer.done)
  | list => exact hop.elim
  | reopen => exact ⟨rfl, h.reopen⟩

lemma answers (h : Alike ids s t) {ops : List StoreOp} (hops : ∀ op ∈ ops, op.About ids) :
    answers CheckpointFolder.answer t ops = answers CheckpointFolder.answer s ops := by
  induction ops generalizing s t with
  | nil => rfl
  | cons op ops ih =>
    obtain ⟨hanswer, hnext⟩ := h.answer (hops op (.head _))
    rw [Changefeed.answers, Changefeed.answers, hanswer,
      ih hnext fun other hother => hops other (.tail _ hother)]

end Alike

/-! ## After a key that may be refused -/

lemma Sound.alike_load (h : s.Sound) (id : SplitId) : Alike (· ≠ id) s (s.load id).2 := by
  have ht := h.loadKey id.checkpointKey
  rw [load]
  obtain ⟨known, hload, -, hfind⟩ := s.loadKey_snd id.checkpointKey
  rw [hload] at ht ⊢
  refine ⟨h, ht.sound, rfl, fun _ _ _ _ => rfl, fun _ => rfl, fun other hother => ?_⟩
  rw [hfind, if_neg fun heq => hother (checkpointKey_inj heq), Option.or_none]

/-- A delete changes nothing for splits whose paths do not come to the file that goes. -/
lemma Sound.alike_delete (h : s.Sound) (hid : ¬ ids id)
    (hplace : ∀ place, s.Finds id place → ∀ other, ids other → place ∉ s.trail other) :
    Alike ids s (s.delete id).2 := by
  have ht := h.delete id
  have herase : ∀ other, ids other →
      (s.known.erase id.checkpointKey).find? other.checkpointKey =
        s.known.find? other.checkpointKey := fun other hother => by
    have hne : other.checkpointKey ≠ id.checkpointKey := fun heq =>
      hid (checkpointKey_inj heq ▸ hother)
    rw [SortedMap.find?_erase h.ascending, if_neg hne]
  obtain ⟨place, text, hfinds, -, hdelete⟩ | ⟨f, -, -, hdelete⟩ := s.delete_cases id
  · rw [hdelete] at ht ⊢
    have hclear := hfinds.node?_clear h.tree.ordered
    refine ⟨h, ht.sound, rfl, fun other hother p hp => ?_, fun key => ?_, herase⟩
    · have hother : p ≠ place := by
        rintro rfl
        exact hplace p hfinds other hother hp
      rw [hclear, if_neg hother]
    · -- the file is named as a checkpoint is, and no temporary file is
      obtain ⟨front, stem, rfl⟩ := hfinds.exists_name (by decide) (by decide)
      have htemporary : s.folder ++ [temporaryName key] ≠ front ++ [stem ++ ".json"] := fun heq =>
        temporaryName_ne_fileName key stem
          (List.cons.inj (List.append_inj' heq rfl).2).1
      rw [hclear, if_neg htemporary]
  · rw [hdelete] at ht ⊢
    refine ⟨h, ht.sound, rfl, fun _ _ _ _ => rfl, fun _ => rfl, fun other hother => ?_⟩
    cases goneFrom (.error f) with
    | ok _ => exact herase other hother
    | error _ => rfl

namespace Sound

/-- What a load answers is settled by the folder if the checkpoint is known or its path stays, and
not otherwise. -/
lemma load_inside_iff (h : s.Sound) (id : SplitId) :
    (∀ d, s.disk.AgreesInside s.folder d →
      (CheckpointFolder.load { s with disk := d } id).1 = (s.load id).1) ↔
      (s.known.find? id.checkpointKey).isSome ∨ ∀ place ∈ s.trail id, ¬ Beside s.folder place := by
  simp only [load, loadKey_fst]
  cases hknown : s.known.find? id.checkpointKey with
  | some c => simp
  | none =>
    simp only [Option.isSome_none, Bool.false_eq_true, false_or]
    refine Disk.read_inside_iff h.tree h.folder foundIn _ fun fault hfault heq => ?_
    have hnone := foundIn_eq_none_iff.mp (heq.trans (foundIn_eq_none_iff.mpr rfl))
    exact hfault (by simpa using hnone)

lemma delete_inside_iff (h : s.Sound) (id : SplitId) :
    (∀ d, s.disk.AgreesInside s.folder d →
      (CheckpointFolder.delete { s with disk := d } id).1 = (s.delete id).1) ↔
      ∀ place ∈ s.trail id, ¬ Beside s.folder place := by
  simp only [delete_fst]
  refine Disk.read_inside_iff h.tree h.folder goneFrom _ fun fault hfault heq => ?_
  exact hfault (goneFrom_eq_ok_iff.mp (heq.trans (goneFrom_eq_ok_iff.mpr rfl)))

/-- A delete takes nothing from outside of the folder if the file that the path leads to is in it,
and not otherwise. -/
lemma delete_outside_iff (h : s.Sound) (id : SplitId) :
    (∀ place, ¬ s.folder <+: place → (s.delete id).2.disk.node? place = s.disk.node? place) ↔
      ∀ place, s.Finds id place → s.folder <+: place := by
  obtain ⟨place, text, hfinds, -, hdelete⟩ | ⟨f, hnone, -, hdelete⟩ := s.delete_cases id
  · simp only [hdelete, hfinds.node?_clear h.tree.ordered]
    constructor
    · intro hsame place' hfinds'
      obtain rfl : place' = place := hfinds'.unique hfinds
      by_contra hout
      have hgone := hsame place' hout
      obtain ⟨-, text', htext⟩ := hfinds
      rw [if_pos rfl, htext] at hgone
      cases hgone
    · intro hin place' hout
      have hother : place' ≠ place := by
        rintro rfl
        exact hout (hin place' hfinds)
      rw [if_neg hother]
  · rw [hdelete]
    exact ⟨fun _ place hfinds => absurd hfinds (hnone place), fun _ _ _ => rfl⟩

/-- Whatever is asked later about other splits is answered as without the delete, if none of their
paths comes to the file that goes, and not otherwise: opened anew, the store answers from the
files. -/
lemma answers_delete_iff (h : s.Sound) (hid : ¬ ids id) :
    (∀ ops, (∀ op ∈ ops, op.About ids) →
      answers CheckpointFolder.answer (s.delete id).2 ops = answers CheckpointFolder.answer s ops) ↔
      ∀ place, s.Finds id place → ∀ other, ids other → place ∉ s.trail other := by
  constructor
  · -- a store that is opened anew has forgotten what it knew, and reads the other split's path
    intro hsame place hfinds other hother hplace
    have hops := hsame [.reopen, .load other] (by simp [StoreOp.About, hother])
    have hload : ((s.delete id).2.reopen.load other).1 = (s.reopen.load other).1 := by
      simpa [answers, CheckpointFolder.answer] using hops
    obtain ⟨place', text, hfinds', -, hdelete⟩ | ⟨f, hnone, -, -⟩ := s.delete_cases id
    · obtain rfl : place' = place := hfinds'.unique hfinds
      obtain ⟨hthere, hgone⟩ := hfinds.read_clear h.tree.ordered hplace
      rw [load_reopen, load_reopen, hdelete] at hload
      exact hthere (foundIn_eq_none_iff.mp (hload.symm.trans (foundIn_eq_none_iff.mpr hgone)))
    · exact hnone place hfinds
  · exact fun hplace ops hops => (h.alike_delete hid hplace).answers hops

lemma stays_of_slash (h : s.Sound) (hslash : '/' ∉ id.checkpointKey.toList) :
    (∀ place ∈ s.trail id, ¬ Beside s.folder place) ∧
      ∀ place, s.Finds id place → place = s.folder ++ [fileName id.checkpointKey] := by
  refine ⟨fun place hmem => ?_, fun place => h.place_of_finds hslash⟩
  rw [Disk.not_beside_iff]
  rcases (isPart_fileName hslash).mem_trail hmem with rfl | rfl
  · exact .inl (List.prefix_refl _)
  · exact .inl (List.prefix_append _ _)

end Sound

lemma perm_list_load {c : Checkpoint} (hknown : s.known.find? id.checkpointKey = none)
    (hload : (s.load id).1 = .ok (some c)) : (s.load id).2.list.Perm (c.splitId :: s.list) := by
  rw [load, loadKey_of_unknown hknown] at hload ⊢
  have hfound : foundIn (s.readKey id.checkpointKey) = .ok (some c) := hload
  have hinsert := (SortedMap.perm_insert hknown c).map (Checkpoint.splitId ∘ Prod.snd)
  simp only [hfound, held, remember, list, SortedMap.values, List.map_map]
  exact (perm_sortIds _).trans (hinsert.trans ((perm_sortIds _).symm.cons _))

/-! ## Keys that are refused -/

/-- Of a split whose key is refused nothing is saved.  A load changes no file, and whatever is asked
later about other splits is answered as without it, though what it loads is listed.  What a load or
a delete answers does not depend on what is outside of the folder if and only if the checkpoint is
known, for a load, or the path of the key comes to no place beside the folder; a delete changes
nothing outside of it if and only if the path leads to no file there; and whatever is asked later
about other splits is answered as without the delete if and only if none of their paths comes to the
file that goes.  A key that is refused for something else than a slash stays in the folder, and its
file is of no split whose key is accepted. -/
theorem refused_key_confined_iff (hs : s.Reached) (hkey : isSafeKey id.checkpointKey = false) :
    (∀ c : Checkpoint, c.splitId = id →
      s.save c = (.error (.config (.badCheckpointKey id.checkpointKey)), s)) ∧
    ((s.load id).2.disk = s.disk ∧
      (∀ ops, (∀ op ∈ ops, op.About (· ≠ id)) →
        answers answer (s.load id).2 ops = answers answer s ops) ∧
      ∀ c, s.known.find? id.checkpointKey = none → (s.load id).1 = .ok (some c) →
        (s.load id).2.list.Perm (c.splitId :: s.list)) ∧
    ((∀ d, s.disk.AgreesInside s.folder d →
        (load { s with disk := d } id).1 = (s.load id).1) ↔
      (s.known.find? id.checkpointKey).isSome ∨ ∀ place ∈ s.trail id, ¬ Beside s.folder place) ∧
    ((∀ d, s.disk.AgreesInside s.folder d →
        (delete { s with disk := d } id).1 = (s.delete id).1) ↔
      ∀ place ∈ s.trail id, ¬ Beside s.folder place) ∧
    ((∀ place, ¬ s.folder <+: place → (s.delete id).2.disk.node? place = s.disk.node? place) ↔
      ∀ place, s.Finds id place → s.folder <+: place) ∧
    (∀ ids : SplitId → Prop, ¬ ids id →
      ((∀ ops, (∀ op ∈ ops, op.About ids) →
        answers answer (s.delete id).2 ops = answers answer s ops) ↔
        ∀ place, s.Finds id place → ∀ other, ids other → place ∉ s.trail other)) ∧
    ('/' ∉ id.checkpointKey.toList →
      (∀ place ∈ s.trail id, ¬ Beside s.folder place) ∧
      ∀ place, s.Finds id place → s.folder <+: place ∧
        ∀ other : SplitId, isSafeKey other.checkpointKey = true → place ∉ s.trail other) := by
  have hsound := hs.sound
  refine ⟨?_, ⟨?_, ?_, ?_⟩, hsound.load_inside_iff id, hsound.delete_inside_iff id,
    hsound.delete_outside_iff id, fun ids => hsound.answers_delete_iff, fun hslash => ?_⟩
  · rintro c rfl
    have hkey' : ¬ isSafeKey c.key = true := by
      rw [Checkpoint.key, hkey]
      exact Bool.false_ne_true
    rw [save, if_neg hkey', Checkpoint.key]
  · obtain ⟨known, hload, -⟩ := s.loadKey_snd id.checkpointKey
    rw [load, hload]
  · exact fun ops hops => (hsound.alike_load id).answers hops
  · exact fun c hknown hload => perm_list_load hknown hload
  · obtain ⟨hstays, hfile⟩ := hsound.stays_of_slash hslash
    refine ⟨hstays, fun place hfinds => ?_⟩
    obtain rfl := hfile place hfinds
    refine ⟨List.prefix_append _ _, fun other hother hplace => ?_⟩
    have hslash' := slash_not_mem_of_isSafeKey hother
    rcases (isPart_fileName hslash').mem_trail hplace with heq | heq
    · exact Disk.ne_append_singleton _ _ heq.symm
    · have hname : fileName id.checkpointKey = fileName other.checkpointKey := by simpa using heq
      rw [fileName_inj hname, hother] at hkey
      cases hkey

/-- A key that climbs out of the folder into a neighbouring one, and a key that stays in it and
leads to the file of another split: the first takes the neighbour's file, the second the other
split's. -/
theorem refused_key_confined_iff_climbing :
    let folder : Place := ["var", "progress"]
    let orders : SplitId := ⟨"orders", 0⟩
    let climbing : SplitId := ⟨"../backup/orders", 0⟩
    let staying : SplitId := ⟨"./orders", 0⟩
    let disk : Disk := (((Disk.withFolder folder).put ["var", "backup"] .folder).put
      ["var", "backup", "orders_0.json"] (.file "kept")).put
      ["var", "progress", "orders_0.json"] (.file (progress orders 4).fileText)
    let s := reopen { folder, disk }
    s.Reached ∧ isSafeKey climbing.checkpointKey = false ∧
      isSafeKey staying.checkpointKey = false ∧
      (¬ ∀ d, s.disk.AgreesInside s.folder d →
        (load { s with disk := d } climbing).1 = (s.load climbing).1) ∧
      (¬ ∀ d, s.disk.AgreesInside s.folder d →
        (delete { s with disk := d } climbing).1 = (s.delete climbing).1) ∧
      (¬ ∀ place, ¬ s.folder <+: place →
        (s.delete climbing).2.disk.node? place = s.disk.node? place) ∧
      (∀ ops, (∀ op ∈ ops, op.About (· = orders)) →
        answers answer (s.delete climbing).2 ops = answers answer s ops) ∧
      ¬ ∀ ops, (∀ op ∈ ops, op.About (· = orders)) →
        answers answer (s.delete staying).2 ops = answers answer s ops := by
  intro folder orders climbing staying disk s
  have hs : s.Reached := .opened (by decide +kernel) (by decide +kernel)
  have hclimbing : isSafeKey climbing.checkpointKey = false := by decide +kernel
  have hstaying : isSafeKey staying.checkpointKey = false := by decide +kernel
  obtain ⟨known, hopened, -, hfind⟩ := reopen_eq { folder, disk }
  have hunknown : known.find? climbing.checkpointKey = none := by
    rw [hfind, if_neg (by decide +kernel)]
  have hs' : s = { folder, disk, known } := hopened
  have hbeside : ["var", "backup"] ∈ disk.trail folder (fileName climbing.checkpointKey) ∧
      Beside folder ["var", "backup"] := by decide +kernel
  have hneighbour : disk.Finds folder (fileName climbing.checkpointKey)
      ["var", "backup", "orders_0.json"] := ⟨by decide +kernel, "kept", by decide +kernel⟩
  have hown : disk.Finds folder (fileName staying.checkpointKey)
      ["var", "progress", "orders_0.json"] :=
    ⟨by decide +kernel, (progress orders 4).fileText, by decide +kernel⟩
  have htrail : disk.trail folder (fileName orders.checkpointKey) =
      [folder, ["var", "progress", "orders_0.json"]] := by decide +kernel
  obtain ⟨-, -, hload, hdelete, houtside, hlater, -⟩ := refused_key_confined_iff hs hclimbing
  obtain ⟨-, -, -, -, -, hlater', -⟩ := refused_key_confined_iff hs hstaying
  rw [hs'] at hload hdelete houtside hlater hlater' ⊢
  refine ⟨hs' ▸ hs, hclimbing, hstaying, fun h => ?_, fun h => ?_, fun h => ?_, ?_, fun h => ?_⟩
  · rcases hload.mp h with hknown | hstays
    · rw [hunknown] at hknown
      cases hknown
    · exact hstays _ hbeside.1 hbeside.2
  · exact hdelete.mp h _ hbeside.1 hbeside.2
  · have hout : ¬ folder <+: ["var", "backup", "orders_0.json"] := by decide
    exact hout (houtside.mp h _ hneighbour)
  · refine (hlater (· = orders) (by decide)).mpr fun place hplace other hother => ?_
    obtain rfl := Disk.Finds.unique hplace hneighbour
    obtain rfl : other = orders := hother
    rw [trail, htrail]
    decide
  · refine (hlater' (· = orders) (by decide)).mp h _ hown orders rfl ?_
    rw [trail, htrail]
    decide

end CheckpointFolder
end Changefeed
