import Changefeed.Proofs.Checkpoint.Trails

/-!
# Paths that leave a folder

A place is beside a folder when it is neither in it nor on the way to it.  On the way to a folder
that exists there are nothing but folders, so a path whose trail has no place beside the folder is
read as it is on every disk with the same in the folder.  On the first place beside the folder it
all depends: with nothing there the path leads to nothing, and with the wrong thing there it fails.
-/

namespace Changefeed
namespace Disk

variable {d d' : Disk} {folder place next : Place} {path part : String} {parts : List String}

/-- Neither in the folder nor on the way to it. -/
def Beside (folder place : Place) : Prop := ¬ folder <+: place ∧ ¬ place <+: folder

instance (folder place : Place) : Decidable (Beside folder place) :=
  inferInstanceAs (Decidable (_ ∧ _))

lemma not_beside_iff : ¬ Beside folder place ↔ folder <+: place ∨ place <+: folder := by
  rw [Beside, not_and_or, not_not, not_not]

lemma not_beside_dropLast (h : ¬ Beside folder place) : ¬ Beside folder place.dropLast := by
  rw [not_beside_iff] at h ⊢
  rcases h with ⟨rest, rfl⟩ | h
  · cases rest using List.reverseRecOn with
    | nil => exact .inr (by simpa using List.dropLast_prefix folder)
    | append_singleton rest name =>
      refine .inl ?_
      rw [← List.append_assoc, List.dropLast_concat]
      exact List.prefix_append folder rest
  · exact .inr ((List.dropLast_prefix place).trans h)

/-- The other disk is a tree, with the same in the folder. -/
structure AgreesInside (d : Disk) (folder : Place) (d' : Disk) : Prop where
  tree : d'.IsTree
  inside : ∀ p, folder <+: p → d'.node? p = d.node? p

lemma AgreesInside.node?_eq (h : d.AgreesInside folder d') (hd : d.IsTree)
    (hfolder : d.node? folder = some .folder) (hplace : ¬ Beside folder place) :
    d'.node? place = d.node? place := by
  rcases not_beside_iff.mp hplace with hin | hway
  · exact h.inside place hin
  · have hfolder' := (h.inside folder (List.prefix_refl _)).trans hfolder
    rw [hd.folder_of_prefix hfolder hway, h.tree.folder_of_prefix hfolder' hway]

lemma agreesInside_of_not_beside (hd' : d'.IsTree)
    (h : ∀ p, ¬ Beside folder p → d'.node? p = d.node? p) : d.AgreesInside folder d' :=
  ⟨hd', fun p hp => h p (not_beside_iff.mpr (.inl hp))⟩

/-- The disk without all that is beside a folder. -/
def inside (d : Disk) (folder : Place) : Disk :=
  ⟨d.nodes.filter fun e => ¬ Beside folder e.1⟩

lemma node?_inside (hd : d.Ordered) (folder place : Place) :
    (d.inside folder).node? place = if Beside folder place then none else d.node? place := by
  have hascending : SortedMap.Ascending (d.inside folder).nodes := List.Pairwise.filter _ hd
  by_cases hroot : place = []
  · subst hroot
    have hway : ¬ Beside folder [] := not_beside_iff.mpr (.inr List.nil_prefix)
    rw [if_neg hway, node?_nil, node?_nil]
  · rw [node?, node?, if_neg hroot, if_neg hroot]
    refine Option.ext fun node => ?_
    rw [SortedMap.find?_eq_some_iff hascending, inside, List.mem_filter]
    split
    · next hbeside => simp [hbeside]
    · next hbeside => simp [hbeside, SortedMap.find?_eq_some_iff hd]

lemma IsTree.inside (hd : d.IsTree) (folder : Place) : (d.inside folder).IsTree where
  ordered := List.Pairwise.filter _ hd.ordered
  entry := by
    intro place name node hnode
    rw [node?_inside hd.ordered] at hnode ⊢
    split at hnode
    · cases hnode
    · next hbeside =>
      have hplace : ¬ Beside folder place := by
        simpa [List.dropLast_concat] using not_beside_dropLast hbeside
      rw [if_neg hplace]
      exact hd.entry hnode

/-- The first place beside the folder that a walk comes to is a name in the folder before, on every
disk with the same in the folder and on the way to it. -/
lemma exists_walk_beside (hplace : ¬ Beside folder place) (hnext : next ∈ d.visited place parts)
    (hbeside : Beside folder next) :
    ∃ front part rest, part ∈ parts ∧ d.step front part = .ok (front ++ [part]) ∧
      ¬ Beside folder front ∧ Beside folder (front ++ [part]) ∧
      ∀ d' : Disk, (∀ p, ¬ Beside folder p → d'.node? p = d.node? p) →
        d'.walk place parts = d'.walk (front ++ [part]) rest := by
  induction parts generalizing place with
  | nil => exact absurd (List.mem_singleton.mp hnext ▸ hbeside) hplace
  | cons part rest ih =>
    cases hstep : d.step place part with
    | error f =>
      simp only [visited, hstep] at hnext
      exact absurd (List.mem_singleton.mp hnext ▸ hbeside) hplace
    | ok middle =>
      have hsame : ∀ d' : Disk, (∀ p, ¬ Beside folder p → d'.node? p = d.node? p) →
          d'.walk place (part :: rest) = d'.walk middle rest := fun d' h =>
        walk_cons ((step_congr (h place hplace) part).trans hstep) rest
      by_cases hmiddle : Beside folder middle
      · obtain ⟨-, ⟨-, rfl⟩ | ⟨-, rfl⟩ | ⟨-, -, -, rfl⟩⟩ := step_cases hstep
        · exact absurd hmiddle hplace
        · exact absurd hmiddle (not_beside_dropLast hplace)
        · exact ⟨place, part, rest, .head _, hstep, hplace, hmiddle, hsame⟩
      · rw [visited_cons hstep] at hnext
        have hlater : next ∈ d.visited middle rest :=
          (List.mem_cons.mp hnext).resolve_left fun heq => hplace (heq ▸ hbeside)
        obtain ⟨front, last, rest', hmem, hlast, hfront, hout, hwalk⟩ := ih hmiddle hlater
        exact ⟨front, last, rest', .tail _ hmem, hlast, hfront, hout, fun d' h =>
          (hsame d' h).trans (hwalk d' h)⟩

/-- What a path goes through is a name if it is not a way to stay or to go up. -/
lemma isName_of_mem_partsOf (hpath : ¬ isRefused path) (h : part ∈ partsOf path)
    (hstay : ¬ IsStay part) (hup : part ≠ "..") (hbytes : part.utf8ByteSize ≤ maxNameBytes) :
    IsName part := by
  simp only [isRefused, Bool.or_eq_true, List.contains_eq_mem, decide_eq_true_eq, not_or] at hpath
  obtain ⟨piece, hpiece, rfl⟩ := List.mem_map.mp h
  rw [IsStay, not_or] at hstay
  exact {
    slash := by simpa using Text.not_mem_of_mem_pieces hpiece
    zero := fun hzero => hpath.1 (Text.mem_of_mem_pieces hpiece (by simpa using hzero)).1
    empty := hstay.1
    point := hstay.2
    points := hup
    bytes := hbytes }

/-- A path that comes to a place beside the folder leads to nothing on one disk and fails on another
one, though both have the same in the folder. -/
lemma exists_reads_beside (hd : d.IsTree) (hplace : place ∈ d.trail folder path)
    (hbeside : Beside folder place) :
    ∃ (d₁ d₂ : Disk) (fault : SystemFault),
      d.AgreesInside folder d₁ ∧ d₁.read folder path = .error (.system .notFound) ∧
      d.AgreesInside folder d₂ ∧ d₂.read folder path = .error (.system fault) ∧
      fault ≠ .notFound := by
  rw [trail] at hplace
  split at hplace
  · cases hplace
  next hpath =>
  have hstart : ¬ Beside folder (startOf folder path) := by
    rw [not_beside_iff, startOf]
    split
    · exact .inr List.nil_prefix
    · exact .inl (List.prefix_refl _)
  obtain ⟨front, part, rest, hmem, hstep, hfront, hout, hwalk⟩ :=
    exists_walk_beside hstart hplace hbeside
  have hsame : ∀ p, ¬ Beside folder p → (d.inside folder).node? p = d.node? p := fun p hp => by
    rw [node?_inside hd.ordered, if_neg hp]
  have hnothing : (d.inside folder).node? (front ++ [part]) = none := by
    rw [node?_inside hd.ordered, if_pos hout]
  obtain ⟨hfolder, ⟨-, heq⟩ | ⟨-, heq⟩ | ⟨hstay, hup, hbytes, -⟩⟩ := step_cases hstep
  · exact absurd heq.symm (ne_append_singleton front part)
  · exact absurd (heq ▸ hout) (not_beside_dropLast hfront)
  have hname := isName_of_mem_partsOf hpath hmem hstay hup hbytes
  -- anything may be put at the place, as a name in the folder before
  have hput := node?_put (d := d.inside folder) (append_singleton_ne_nil front part)
  have htree : ∀ node, ((d.inside folder).put (front ++ [part]) node).IsTree :=
    (hd.inside folder).put ((hsame front hfront).trans hfolder) hname (by simp [hnothing])
  have hsame' : ∀ node p, ¬ Beside folder p →
      ((d.inside folder).put (front ++ [part]) node).node? p = d.node? p := by
    intro node p hp
    have hne : p ≠ front ++ [part] := by
      rintro rfl
      exact hp hout
    rw [hput, if_neg hne, hsame p hp]
  have hread : ∀ d' : Disk, (∀ p, ¬ Beside folder p → d'.node? p = d.node? p) →
      d'.resolve folder path = d'.walk (front ++ [part]) rest := fun d' h => by
    rw [resolve_eq, if_neg hpath, hwalk d' h]
  have hnone : (d.inside folder).read folder path = .error (.system .notFound) := by
    cases rest with
    | nil => simp only [read, hread _ hsame, walk, hnothing]
    | cons part' rest => simp only [read, hread _ hsame, walk, step, hnothing]
  have hinside := agreesInside_of_not_beside (hd.inside folder) hsame
  have hinside' := fun node => agreesInside_of_not_beside (htree node) (hsame' node)
  cases rest with
  | nil =>
    refine ⟨_, _, .isADirectory, hinside, hnone, hinside' .folder, ?_, by decide⟩
    simp only [read, hread _ (hsame' _), walk, hput, if_true]
  | cons part' rest =>
    refine ⟨_, _, .notADirectory, hinside, hnone, hinside' (.file ""), ?_, by decide⟩
    simp only [read, hread _ (hsame' _), walk, step, hput, if_true]

/-- What is made of what a path reads, with nothing found told from every other failure, is settled
by the folder if and only if the path comes to no place beside it. -/
lemma read_inside_iff {α : Type} (hd : d.IsTree) (hfolder : d.node? folder = some .folder)
    (g : Outcome String → α) (path : String)
    (hg : ∀ fault, fault ≠ .notFound →
      g (.error (.system fault)) ≠ g (.error (.system .notFound))) :
    (∀ d' : Disk, d.AgreesInside folder d' → g (d'.read folder path) = g (d.read folder path)) ↔
    ∀ place ∈ d.trail folder path, ¬ Beside folder place := by
  constructor
  · intro hsettled place hplace hbeside
    obtain ⟨d₁, d₂, fault, h₁, hread₁, h₂, hread₂, hfault⟩ := exists_reads_beside hd hplace hbeside
    refine hg fault hfault ?_
    rw [← hread₁, ← hread₂, hsettled d₁ h₁, hsettled d₂ h₂]
  · intro htrail d' hd'
    rw [read_congr fun p hp => hd'.node?_eq hd hfolder (htrail p hp)]

end Disk
end Changefeed
