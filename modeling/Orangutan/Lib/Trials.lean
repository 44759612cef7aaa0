import Mathlib

/-!
# Trying candidates in turn

A list of candidates is tried from the front until a trial does not ask for another one.
Every trial is kept with its candidate.
-/

namespace Orangutan.Lib

set_option autoImplicit false

variable {α β σ : Type}

/-- The candidates that were tried with what came of them, and the state afterwards. -/
def tryEach (trial : α → σ → β × σ) (again : β → Bool) : List α → σ → List (α × β) × σ
  | [], s => ([], s)
  | a :: rest, s =>
    if again (trial a s).1 then
      ((a, (trial a s).1) :: (tryEach trial again rest (trial a s).2).1,
        (tryEach trial again rest (trial a s).2).2)
    else ([(a, (trial a s).1)], (trial a s).2)

variable (trial : α → σ → β × σ) (again : β → Bool)

/-- No candidate is left out or tried out of turn. -/
theorem tryEach_prefix (candidates : List α) (s : σ) :
    (tryEach trial again candidates s).1.map Prod.fst <+: candidates := by
  induction candidates generalizing s with
  | nil => exact List.prefix_refl _
  | cons a rest ih =>
    rw [tryEach]
    split
    · exact List.cons_prefix_cons.mpr ⟨rfl, ih _⟩
    · exact ⟨rest, rfl⟩

/-- Every trial before the last one asked for another. -/
theorem tryEach_again (candidates : List α) (s : σ) :
    ∀ t ∈ (tryEach trial again candidates s).1.dropLast, again t.2 = true := by
  induction candidates generalizing s with
  | nil => exact fun t ht => by cases ht
  | cons a rest ih =>
    rw [tryEach]
    split
    · next hagain =>
      intro t ht
      generalize hrest : tryEach trial again rest (trial a s).2 = walked at ht
      have hih := ih (trial a s).2
      rw [hrest] at hih
      rcases htried : walked.1 with _ | ⟨u, tried⟩
      · rw [htried] at ht
        cases ht
      · rw [htried] at ht hih
        rcases List.mem_cons.mp ht with rfl | ht
        · exact hagain
        · exact hih t ht
    · exact fun t ht => by cases ht

/-- When the last trial asked for another one there was none left. -/
theorem tryEach_exhausted (candidates : List α) (s : σ)
    (h : ∀ t, (tryEach trial again candidates s).1.getLast? = some t → again t.2 = true) :
    (tryEach trial again candidates s).1.map Prod.fst = candidates := by
  induction candidates generalizing s with
  | nil => rfl
  | cons a rest ih =>
    rw [tryEach] at h ⊢
    split
    · next hagain =>
      rw [if_pos hagain] at h
      refine congrArg (a :: ·) (ih _ fun t ht => h t ?_)
      dsimp only
      rw [List.getLast?_cons, ht]
      rfl
    · next hstop =>
      rw [if_neg hstop] at h
      exact absurd (h _ rfl) hstop

/-- Candidates in two lists: the second one is reached if no trial of the first stops. -/
theorem tryEach_append (candidates more : List α) (s : σ) :
    tryEach trial again (candidates ++ more) s =
      if (tryEach trial again candidates s).1.all (fun t => again t.2) then
        ((tryEach trial again candidates s).1 ++
          (tryEach trial again more (tryEach trial again candidates s).2).1,
          (tryEach trial again more (tryEach trial again candidates s).2).2)
      else tryEach trial again candidates s := by
  induction candidates generalizing s with
  | nil => rfl
  | cons a rest ih =>
    rw [List.cons_append, tryEach, tryEach, ih]
    by_cases hagain : again (trial a s).1 = true
    · rw [if_pos hagain, if_pos hagain, List.all_cons]
      by_cases hall : ((tryEach trial again rest (trial a s).2).1.all fun t => again t.2) = true
      · rw [if_pos hall, if_pos (by rw [hagain, hall]; rfl)]
        rfl
      · rw [if_neg hall, if_neg (by rw [hagain, Bool.true_and]; exact hall)]
    · rw [if_neg hagain, if_neg hagain, if_neg (by simpa using hagain)]

end Orangutan.Lib
