/-!
# Cutting a text at a separator

`pieces` cuts at every occurrence of a separator and never returns the empty list: a text without
the separator is its own only piece.  `cutFirst` and `cutLast` cut once, at the first and at the
last occurrence.
-/

namespace Changefeed
namespace Text

/-- The parts between the occurrences of `sep`, in order, empty parts included. -/
def pieces (sep : Char) : List Char → List (List Char)
  | [] => [[]]
  | c :: rest =>
    if c = sep then [] :: pieces sep rest
    else match pieces sep rest with
      | [] => [[c]]
      | p :: ps => (c :: p) :: ps

/-- What stands before and after the first `sep`; `none` when there is none. -/
def cutFirst (sep : Char) : List Char → Option (List Char × List Char)
  | [] => none
  | c :: rest =>
    if c = sep then some ([], rest)
    else (cutFirst sep rest).map fun (before, after) => (c :: before, after)

/-- What stands before and after the last `sep`; `none` when there is none. -/
def cutLast (sep : Char) : List Char → Option (List Char × List Char)
  | [] => none
  | c :: rest =>
    match cutLast sep rest with
    | some (before, after) => some (c :: before, after)
    | none => if c = sep then some ([], rest) else none

/-- The parts written with `sep` between them. -/
def join (sep : Char) : List (List Char) → List Char
  | [] => []
  | [p] => p
  | p :: q :: ps => p ++ sep :: join sep (q :: ps)

theorem pieces_ne_nil (sep : Char) (s : List Char) : pieces sep s ≠ [] := by
  cases s with
  | nil => simp [pieces]
  | cons c rest =>
    unfold pieces
    split
    · simp
    · split <;> simp

/-- Cutting at the first separator loses nothing but that separator. -/
theorem append_of_cutFirst {sep : Char} {s before after : List Char}
    (h : cutFirst sep s = some (before, after)) : s = before ++ sep :: after := by
  induction s generalizing before with
  | nil => simp [cutFirst] at h
  | cons c rest ih =>
    unfold cutFirst at h
    split at h
    · next hc =>
      obtain ⟨rfl, rfl⟩ : [] = before ∧ rest = after := by simpa using h
      simp [hc]
    · cases hr : cutFirst sep rest with
      | none => simp [hr] at h
      | some p =>
        obtain ⟨b, a⟩ := p
        obtain ⟨rfl, rfl⟩ : c :: b = before ∧ a = after := by simpa [hr] using h
        simp [ih hr]

/-- What stands before the first separator holds none. -/
theorem not_mem_of_cutFirst {sep : Char} {s before after : List Char}
    (h : cutFirst sep s = some (before, after)) : sep ∉ before := by
  induction s generalizing before with
  | nil => simp [cutFirst] at h
  | cons c rest ih =>
    unfold cutFirst at h
    split at h
    · obtain ⟨rfl, -⟩ : [] = before ∧ rest = after := by simpa using h
      simp
    · next hc =>
      cases hr : cutFirst sep rest with
      | none => simp [hr] at h
      | some p =>
        obtain ⟨b, a⟩ := p
        obtain ⟨rfl, rfl⟩ : c :: b = before ∧ a = after := by simpa [hr] using h
        simpa [Ne.symm hc] using ih hr

/-- Cutting at the last separator loses nothing but that separator. -/
theorem append_of_cutLast {sep : Char} {s before after : List Char}
    (h : cutLast sep s = some (before, after)) : s = before ++ sep :: after := by
  induction s generalizing before with
  | nil => simp [cutLast] at h
  | cons c rest ih =>
    unfold cutLast at h
    split at h
    · next b a hr =>
      obtain ⟨rfl, rfl⟩ : c :: b = before ∧ a = after := by simpa using h
      simp [ih hr]
    · split at h
      · next hc =>
        obtain ⟨rfl, rfl⟩ : [] = before ∧ rest = after := by simpa using h
        simp [hc]
      · simp at h

end Text
end Changefeed
