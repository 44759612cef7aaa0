import Mathlib

/-!
# Splitting a list at separators

The pieces between the separators: the last one is still open, the others have been ended by
a separator. One more element either ends the open piece or goes to its end.
-/

namespace Orangutan.Lib

set_option autoImplicit false

variable {α : Type} (p : α → Bool)

/-- The piece after the last separator. -/
def openPiece (xs : List α) : List α := (xs.splitOnP p).getLast?.getD []

/-- The pieces that a separator has ended. -/
def endedPieces (xs : List α) : List (List α) := (xs.splitOnP p).dropLast

variable {p}

theorem splitOnP_ended_open (xs : List α) :
    xs.splitOnP p = endedPieces p xs ++ [openPiece p xs] := by
  have hne : xs.splitOnP p ≠ [] := List.splitOnP_ne_nil p xs
  rw [endedPieces, openPiece, List.getLast?_eq_some_getLast hne, Option.getD_some]
  exact (List.dropLast_append_getLast hne).symm

theorem openPiece_unique {xs last : List α} {ended : List (List α)}
    (h : xs.splitOnP p = ended ++ [last]) :
    endedPieces p xs = ended ∧ openPiece p xs = last := by
  rw [endedPieces, openPiece, h]
  simp

@[simp] theorem openPiece_nil : openPiece p ([] : List α) = [] := by simp [openPiece]

@[simp] theorem endedPieces_nil : endedPieces p ([] : List α) = [] := by simp [endedPieces]

/-- A separator ends the open piece. -/
theorem pieces_snoc_separator {a : α} (ha : p a) (xs : List α) :
    endedPieces p (xs ++ [a]) = endedPieces p xs ++ [openPiece p xs] ∧
      openPiece p (xs ++ [a]) = [] := by
  apply openPiece_unique
  rw [List.splitOnP_append_cons xs [] ha, splitOnP_ended_open xs, List.splitOnP_nil]

/-- Any other element goes to the end of the open piece. -/
theorem pieces_snoc_element {a : α} (ha : p a = false) (xs : List α) :
    endedPieces p (xs ++ [a]) = endedPieces p xs ∧
      openPiece p (xs ++ [a]) = openPiece p xs ++ [a] := by
  apply openPiece_unique
  induction xs with
  | nil => simp [List.splitOnP_cons_eq_if_modifyHead, ha]
  | cons x xs ih =>
    rw [List.cons_append, List.splitOnP_cons_eq_if_modifyHead, ih]
    cases hx : p x with
    | true =>
      have hpieces : (x :: xs).splitOnP p = ([] :: endedPieces p xs) ++ [openPiece p xs] := by
        rw [List.splitOnP_cons_eq_if_modifyHead, hx, if_pos rfl, splitOnP_ended_open xs,
          List.cons_append]
      rw [if_pos rfl, (openPiece_unique hpieces).1, (openPiece_unique hpieces).2, List.cons_append]
    | false =>
      have hpieces : (x :: xs).splitOnP p = (endedPieces p xs ++ [openPiece p xs]).modifyHead
          (List.cons x) := by
        rw [List.splitOnP_cons_eq_if_modifyHead, hx, if_neg Bool.false_ne_true,
          splitOnP_ended_open xs]
      rw [if_neg Bool.false_ne_true]
      cases hended : endedPieces p xs with
      | nil =>
        rw [hended] at hpieces
        have hwhole : (x :: xs).splitOnP p = [] ++ [x :: openPiece p xs] := by simpa using hpieces
        have hunique := openPiece_unique hwhole
        rw [hunique.1, hunique.2]
        rfl
      | cons first others =>
        rw [hended] at hpieces
        have hwhole : (x :: xs).splitOnP p = ((x :: first) :: others) ++ [openPiece p xs] := by
          simpa using hpieces
        have hunique := openPiece_unique hwhole
        rw [hunique.1, hunique.2]
        rfl

/-- No separator stands in the open piece, and it follows a separator or starts the list. -/
theorem openPiece_spec (xs : List α) :
    ∃ before, xs = before ++ openPiece p xs ∧ (∀ a ∈ openPiece p xs, p a = false) ∧
      ∀ a, before.getLast? = some a → p a = true := by
  induction xs using List.reverseRecOn with
  | nil => exact ⟨[], by simp⟩
  | append_singleton xs a ih =>
    obtain ⟨before, hsplit, hclear, hbefore⟩ := ih
    cases ha : p a with
    | true =>
      rw [(pieces_snoc_separator ha xs).2]
      exact ⟨xs ++ [a], by simp, by simp, by simp [ha]⟩
    | false =>
      rw [(pieces_snoc_element ha xs).2]
      refine ⟨before, ?_, ?_, hbefore⟩
      · rw [← List.append_assoc, ← hsplit]
      · intro b hb
        rcases List.mem_append.mp hb with hb | hb
        · exact hclear b hb
        · rw [List.mem_singleton.mp hb]
          exact ha

/-- An ended piece is a whole stretch between separators. -/
theorem endedPieces_spec {xs piece : List α} (h : piece ∈ endedPieces p xs) :
    ∃ before separator after, xs = before ++ piece ++ separator :: after ∧ p separator = true ∧
      (∀ a ∈ piece, p a = false) ∧ ∀ a, before.getLast? = some a → p a = true := by
  induction xs using List.reverseRecOn with
  | nil => simp at h
  | append_singleton xs a ih =>
    have hextend : piece ∈ endedPieces p xs → ∃ before separator after,
        xs ++ [a] = before ++ piece ++ separator :: after ∧ p separator = true ∧
          (∀ b ∈ piece, p b = false) ∧ ∀ b, before.getLast? = some b → p b = true := by
      intro hmem
      obtain ⟨before, separator, after, hsplit, hrest⟩ := ih hmem
      refine ⟨before, separator, after ++ [a], ?_, hrest⟩
      rw [hsplit]
      simp
    cases ha : p a with
    | false =>
      rw [(pieces_snoc_element ha xs).1] at h
      exact hextend h
    | true =>
      rw [(pieces_snoc_separator ha xs).1] at h
      rcases List.mem_append.mp h with h | h
      · exact hextend h
      · obtain ⟨before, hsplit, hclear, hbefore⟩ := openPiece_spec (p := p) xs
        rw [List.mem_singleton.mp h]
        refine ⟨before, a, [], ?_, ha, hclear, hbefore⟩
        rw [← hsplit]

end Orangutan.Lib
