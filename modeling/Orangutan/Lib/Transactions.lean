import Mathlib

/-!
# Transactions

A transaction works on a copy of the state. The copy becomes the state when the last step has
succeeded, so an error leaves the state as it was.
-/

namespace Orangutan.Lib

set_option autoImplicit false

variable {σ τ α ε κ : Type}

/-- The body says what it returns and what it has made of its copy. -/
def atomically (body : σ → Except ε (α × σ)) (s : σ) : Except ε α × σ :=
  match body s with
  | .error e => (.error e, s)
  | .ok (a, s') => (.ok a, s')

section atomically

variable {body : σ → Except ε (α × σ)} {s : σ}

theorem atomically_ok {a : α} : (atomically body s).1 = .ok a ↔ ∃ s', body s = .ok (a, s') := by
  unfold atomically
  rcases body s with e | ⟨b, s'⟩
  · simp
  · simp

theorem atomically_of_ok {a : α} {s' : σ} (h : body s = .ok (a, s')) :
    atomically body s = (.ok a, s') := by
  unfold atomically
  rw [h]

theorem atomically_of_error {e : ε} (h : body s = .error e) :
    atomically body s = (.error e, s) := by
  unfold atomically
  rw [h]

theorem atomically_isOk : (atomically body s).1.isOk = (body s).isOk := by
  rcases hbody : body s with e | ⟨a, s'⟩
  · rw [atomically_of_error hbody]
    rfl
  · rw [atomically_of_ok hbody]
    rfl

/-- A transaction that fails has not happened. -/
theorem atomically_failed {e : ε} (h : (atomically body s).1 = .error e) :
    (atomically body s).2 = s := by
  rcases hbody : body s with e' | ⟨b, s'⟩
  · rw [atomically_of_error hbody]
  · rw [atomically_of_ok hbody] at h
    cases h

end atomically

/-- Calls one after the other, with what became of each. -/
def outcomes (run : κ → σ → Except ε α × σ) : List κ → σ → List (κ × Except ε α) × σ
  | [], s => ([], s)
  | call :: rest, s =>
    let done := run call s
    let later := outcomes run rest done.2
    ((call, done.1) :: later.1, later.2)

/-- The abstract effect of those calls that succeeded. -/
def effects (act : κ → τ → τ) : List (κ × Except ε α) → τ → τ
  | [], t => t
  | (call, .ok _) :: rest, t => effects act rest (act call t)
  | (_, .error _) :: rest, t => effects act rest t

/-- If every call that succeeds does what it stands for and every other call does nothing, a run
does what its successful calls stand for. -/
theorem outcomes_refine {run : κ → σ → Except ε α × σ} {act : κ → τ → τ} {R : σ → τ → Prop}
    (hok : ∀ call s t a, R s t → (run call s).1 = .ok a → R (run call s).2 (act call t))
    (herror : ∀ call s e, (run call s).1 = .error e → (run call s).2 = s)
    (calls : List κ) {s : σ} {t : τ} (h : R s t) :
    R (outcomes run calls s).2 (effects act (outcomes run calls s).1 t) := by
  induction calls generalizing s t with
  | nil => exact h
  | cons call rest ih =>
    rcases hrun : (run call s).1 with e | a
    · rw [outcomes, hrun, effects, herror call s e hrun]
      exact ih h
    · rw [outcomes, hrun, effects]
      exact ih (hok call s t a h hrun)

/-- What every successful call keeps is kept. -/
theorem outcomes_keep {run : κ → σ → Except ε α × σ} {p : κ → Except ε α → Prop} {I : σ → Prop}
    (hok : ∀ call s a, p call (.ok a) → I s → (run call s).1 = .ok a → I (run call s).2)
    (herror : ∀ call s e, (run call s).1 = .error e → (run call s).2 = s)
    (calls : List κ) {s : σ} (hp : ∀ done ∈ (outcomes run calls s).1, p done.1 done.2) (h : I s) :
    I (outcomes run calls s).2 := by
  induction calls generalizing s with
  | nil => exact h
  | cons call rest ih =>
    have hrest : ∀ done ∈ (outcomes run rest (run call s).2).1, p done.1 done.2 :=
      fun done hmem => hp done (List.mem_cons_of_mem _ hmem)
    rcases hrun : (run call s).1 with e | a
    · exact ih hrest ((herror call s e hrun).symm ▸ h)
    · have hcall : p call (.ok a) := hrun ▸ hp _ List.mem_cons_self
      exact ih hrest (hok call s a hcall h hrun)

end Orangutan.Lib
