import Orangutan.Core.Str

/-!
# Whole code points

Well-formed text is taken apart one code point at a time, so what is cut at a boundary is
well formed again.
-/

namespace Orangutan.Core.Str

set_option autoImplicit false

open Orangutan.Core

theorem leadLength_le (lead : UInt8) : leadLength lead ≤ 4 := by
  unfold leadLength
  split_ifs <;> omega

/-- Text is well formed exactly if its first code point is, and what follows it. -/
theorem isValidUtf8_cons (lead : UInt8) (rest : Bytes) :
    isValidUtf8 (lead :: rest) = true ↔
      leadLength lead ≠ 0 ∧ leadLength lead ≤ (lead :: rest).length ∧
        isValidUtf8 ((lead :: rest).take (leadLength lead)) = true ∧
        isValidUtf8 ((lead :: rest).drop (leadLength lead)) = true := by
  have hle := leadLength_le lead
  have hcases : leadLength lead = 0 ∨ leadLength lead = 1 ∨ leadLength lead = 2 ∨
    leadLength lead = 3 ∨
      leadLength lead = 4 := by omega
  rcases hcases with hl | hl | hl | hl | hl
  · rw [isValidUtf8.eq_def]
    simp [hl]
  · rw [hl, isValidUtf8_one hl]
    simp [isValidUtf8_one hl, isValidUtf8]
  · rcases rest with _ | ⟨b₁, rest⟩
    · rw [isValidUtf8.eq_def]
      simp [hl]
    · rw [hl, isValidUtf8_two hl]
      simp [isValidUtf8_two hl, isValidUtf8]
  · rcases rest with _ | ⟨b₁, _ | ⟨b₂, rest⟩⟩
    · rw [isValidUtf8.eq_def]
      simp [hl]
    · rw [isValidUtf8.eq_def]
      simp [hl]
    · rw [hl, isValidUtf8_three hl]
      simp [isValidUtf8_three hl, isValidUtf8]
  · rcases rest with _ | ⟨b₁, _ | ⟨b₂, _ | ⟨b₃, rest⟩⟩⟩
    · rw [isValidUtf8.eq_def]
      simp [hl]
    · rw [isValidUtf8.eq_def]
      simp [hl]
    · rw [isValidUtf8.eq_def]
      simp [hl]
    · rw [hl, isValidUtf8_four hl]
      simp [isValidUtf8_four hl, isValidUtf8]

theorem boundary_ge (maxBytes size : Nat) (fuel : Nat) (t : Bytes) (i : Nat) :
    i ≤ boundary maxBytes size fuel t i := by
  induction fuel generalizing t i with
  | zero => exact le_rfl
  | succ fuel ih =>
    cases t with
    | nil => exact le_rfl
    | cons b rest =>
      unfold boundary
      generalize (if leadLength b = 0 then 1 else leadLength b) = step
      dsimp only
      split
      · exact le_rfl
      · split
        · exact le_rfl
        · exact le_trans (Nat.le_add_right i step) (ih (rest.drop (step - 1)) (i + step))

/-- Well-formed text up to a boundary of the walk is well formed. -/
theorem isValidUtf8_boundary (maxBytes size fuel : Nat) (t : Bytes) (i : Nat)
    (ht : isValidUtf8 t = true) :
    isValidUtf8 (t.take (boundary maxBytes size fuel t i - i)) = true := by
  induction fuel generalizing t i with
  | zero => simp [boundary, isValidUtf8]
  | succ fuel ih =>
    cases t with
    | nil => simp [isValidUtf8]
    | cons b rest =>
      obtain ⟨hlead, hfits, hfirst, hrest⟩ := (isValidUtf8_cons b rest).mp ht
      have hdrop : rest.drop (leadLength b - 1) = (b :: rest).drop (leadLength b) := by
        obtain ⟨n, hn⟩ := Nat.exists_eq_succ_of_ne_zero hlead
        rw [hn]
        simp
      unfold boundary
      simp only [hlead, if_false]
      split
      · simp [isValidUtf8]
      · split
        · simp [isValidUtf8]
        · rw [hdrop]
          have hge := boundary_ge maxBytes size fuel ((b :: rest).drop (leadLength b))
            (i + leadLength b)
          have htail := ih ((b :: rest).drop (leadLength b)) (i + leadLength b) hrest
          generalize hend : boundary maxBytes size fuel ((b :: rest).drop (leadLength b))
            (i + leadLength b) = n at *
          have hsplit : n - i = leadLength b + (n - (i + leadLength b)) := by omega
          rw [hsplit, List.take_add, isValidUtf8_append hfirst]
          exact htail

theorem isValidUtf8_truncateToCodePoint {t : Bytes} (ht : isValidUtf8 t = true) (maxBytes : Nat) :
    isValidUtf8 (truncateToCodePoint t maxBytes) = true := by
  unfold truncateToCodePoint
  split
  · exact ht
  · have hcut := isValidUtf8_boundary maxBytes t.length t.length t 0 ht
    rwa [Nat.sub_zero] at hcut

end Orangutan.Core.Str
