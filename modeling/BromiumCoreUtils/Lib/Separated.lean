import Mathlib.Data.List.Basic

/-!
# Pieces with a separator after each

A writer that puts a separator after every piece, and takes the last one away at the end,
has written the pieces with one separator between each two of them.
-/

namespace Separated

variable {α : Type} {sep : α}

/-- Every piece, with a separator after it. -/
def terminated (sep : α) (pieces : List (List α)) : List α :=
  pieces.flatMap (· ++ [sep])

@[simp] theorem terminated_nil : terminated sep [] = [] := rfl

@[simp] theorem terminated_cons (piece : List α) (pieces : List (List α)) :
    terminated sep (piece :: pieces) = piece ++ sep :: terminated sep pieces := by
  simp [terminated]

@[simp] theorem terminated_append (pieces pieces' : List (List α)) :
    terminated sep (pieces ++ pieces') = terminated sep pieces ++ terminated sep pieces' :=
  List.flatMap_append

/-- The last separator is the only one that is not between two pieces. -/
theorem terminated_eq {pieces : List (List α)} (h : pieces ≠ []) :
    terminated sep pieces = [sep].intercalate pieces ++ [sep] := by
  induction pieces with
  | nil => exact absurd rfl h
  | cons piece pieces ih =>
    cases pieces with
    | nil => simp
    | cons piece' pieces =>
      rw [terminated_cons, ih (by simp), List.intercalate_cons_cons]
      simp

/-- There is no separator at an end of the piece. -/
structure Unpadded (sep : α) (piece : List α) : Prop where
  head : piece.head? ≠ some sep
  last : piece.getLast? ≠ some sep

/-- Joining puts no separator at an end. -/
theorem unpadded_intercalate {pieces : List (List α)}
    (hpieces : ∀ piece ∈ pieces, piece ≠ [] ∧ Unpadded sep piece) :
    Unpadded sep ([sep].intercalate pieces) := by
  induction pieces with
  | nil => exact ⟨by simp, by simp⟩
  | cons piece pieces ih =>
    obtain ⟨hne, hpiece⟩ := hpieces piece (by simp)
    cases pieces with
    | nil => simpa using hpiece
    | cons piece' pieces =>
      have hrest := ih fun p hp => hpieces p (List.mem_cons_of_mem _ hp)
      have hne' : [sep].intercalate (piece' :: pieces) ≠ [] := by
        obtain ⟨hpiece', -⟩ := hpieces piece' (by simp)
        cases pieces <;> simp [hpiece']
      rw [List.intercalate_cons_cons]
      constructor
      · rw [List.append_assoc, List.head?_append_of_ne_nil _ hne]
        exact hpiece.head
      · rw [List.getLast?_append_of_ne_nil _ hne']
        exact hrest.last

/-! ## The piece before the first separator -/

/-- What ends with its only separator has it. -/
theorem mem_of_append_isPrefix {piece l : List α} (h : piece ++ [sep] <+: l) : sep ∈ l :=
  h.subset (by simp)

/-- A piece without separators is the one that a text begins with, or not. -/
theorem append_isPrefix_iff {piece piece' rest : List α} (hpiece : sep ∉ piece)
    (hpiece' : sep ∉ piece') : piece ++ [sep] <+: piece' ++ sep :: rest ↔ piece = piece' := by
  constructor
  · intro h
    induction piece generalizing piece' with
    | nil =>
      cases piece' with
      | nil => rfl
      | cons a piece' =>
        have hhead : sep = a := (List.cons_prefix_cons.mp h).1
        exact absurd (by simp [hhead]) hpiece'
    | cons a piece ih =>
      cases piece' with
      | nil =>
        have hhead : a = sep := (List.cons_prefix_cons.mp h).1
        exact absurd (by simp [hhead]) hpiece
      | cons a' piece' =>
        obtain ⟨hhead, htail⟩ := List.cons_prefix_cons.mp h
        rw [hhead, ih (fun hmem => hpiece (List.mem_cons_of_mem _ hmem))
          (fun hmem => hpiece' (List.mem_cons_of_mem _ hmem)) htail]
  · rintro rfl
    exact ⟨rest, by simp⟩

end Separated
