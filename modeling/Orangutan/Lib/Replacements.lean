import Mathlib

/-!
# Leftmost replacement

A list is changed by replacing its first occurrence of a pattern and then changing what
follows that occurrence, until the pattern does not occur any more.
-/

namespace Orangutan.Lib

set_option autoImplicit false

variable {α : Type}

/-- The pattern stands at this offset. Occurrences may overlap. -/
def OccursAt (old s : List α) (k : Nat) : Prop := ∃ p q, s = p ++ old ++ q ∧ p.length = k

theorem OccursAt.length_le {old s : List α} {k : Nat} (h : OccursAt old s k) :
    k + old.length ≤ s.length := by
  obtain ⟨p, q, rfl, rfl⟩ := h
  simp only [List.length_append]
  omega

/-- `piece` is all that comes before the first occurrence. -/
def FirstAt (old piece rest : List α) : Prop := ∀ p q, piece ++ old ++ rest = p ++ old ++ q →
    piece.length ≤ p.length

/-- The second list is the first one with `n` occurrences of `old` replaced. -/
inductive Replaces (old new : List α) : List α → List α → Nat → Prop
  | done {s : List α} (h : ¬old <:+: s) : Replaces old new s s 0
  | next {piece rest t : List α} {n : Nat} (first : FirstAt old piece rest)
      (following : Replaces old new rest t n) :
      Replaces old new (piece ++ old ++ rest) (piece ++ new ++ t) (n + 1)

namespace Replaces

variable {old new s t : List α} {n : Nat}

theorem length_eq (h : Replaces old new s t n) :
    t.length + n * old.length = s.length + n * new.length := by
  induction h with
  | done _ => simp
  | next _ _ ih =>
    simp only [List.length_append, Nat.add_mul]
    omega

/-- A list can be changed in one way only. -/
theorem unique {t' : List α} {n' : Nat} (h : Replaces old new s t n)
    (h' : Replaces old new s t' n') :
    t = t' ∧ n = n' := by
  induction h generalizing t' n' with
  | done hnone =>
    cases h' with
    | done _ => exact ⟨rfl, rfl⟩
    | next _ _ => exact absurd (List.infix_append _ _ _) hnone
  | @next piece rest t n first following ih =>
    generalize hs : piece ++ old ++ rest = s at h'
    cases h' with
    | done hnone => exact absurd (hs ▸ List.infix_append _ _ _) hnone
    | @next piece' rest' t'' n'' first' following' =>
      have hle := first _ _ hs
      have hge := first' _ _ hs.symm
      have hpiece : piece = piece' := by
        have htake := congrArg (List.take piece.length) hs
        simpa [List.take_append, show piece.length = piece'.length by omega] using htake
      subst hpiece
      have hrest : rest = rest' := List.append_cancel_left hs
      subst hrest
      obtain ⟨rfl, rfl⟩ := ih following'
      exact ⟨rfl, rfl⟩

/-- One occurrence is replaced exactly if all occurrences overlap the first one. -/
theorem one_iff : Replaces old new s t 1 ↔ ∃ k, OccursAt old s k ∧
    t = s.take k ++ new ++ s.drop (k + old.length) ∧
    ∀ j, OccursAt old s j → k ≤ j ∧ j < k + old.length := by
  constructor
  · intro h
    generalize hn : 1 = n at h
    cases h with
    | done _ => omega
    | @next piece rest t n first following =>
      obtain rfl : n = 0 := by omega
      cases following with
      | done hnone =>
        refine ⟨piece.length, ⟨piece, rest, rfl, rfl⟩, ?_, ?_⟩
        · simp [List.drop_append]
        · rintro j ⟨p, q, hsplit, rfl⟩
          refine ⟨first p q hsplit, ?_⟩
          by_contra hbeyond
          have hrest : rest = (p ++ old ++ q).drop (piece ++ old).length := by
            rw [← hsplit, List.drop_left]
          have hdrop : (p ++ old ++ q).drop (piece ++ old).length = p.drop (piece ++ old).length ++
              (old ++ q) := by
            rw [List.append_assoc, List.drop_append_of_le_length
              (by rw [List.length_append]; omega)]
          rw [hdrop] at hrest
          exact hnone ⟨p.drop (piece ++ old).length, q, by rw [hrest, List.append_assoc]⟩
  · rintro ⟨k, ⟨p, q, rfl, rfl⟩, rfl, hnear⟩
    have hfirst : FirstAt old p q := fun p' q' hsplit => (hnear _ ⟨p', q', hsplit, rfl⟩).1
    have hlast : ¬old <:+: q := by
      rintro ⟨a, b, rfl⟩
      have hbound := (hnear _ ⟨p ++ old ++ a, b, by simp, rfl⟩).2
      simp only [List.length_append] at hbound
      omega
    have hone : Replaces old new (p ++ old ++ q) (p ++ new ++ q) 1 := .next hfirst (.done hlast)
    have htake : (p ++ old ++ q).take p.length = p := by simp
    have hdrop : (p ++ old ++ q).drop (p.length + old.length) = q := by
      rw [← List.length_append, List.drop_left]
    rw [htake, hdrop]
    exact hone

end Replaces

end Orangutan.Lib
