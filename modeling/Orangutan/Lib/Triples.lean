import Mathlib

/-!
# Computations that may fail and change a state

The state survives an error. A specification says for every start what the result and the
state afterwards are; a triple adds what is known before.
-/

namespace Orangutan.Lib

set_option autoImplicit false

abbrev Fallible (σ ε α : Type) := ExceptT ε (StateM σ) α

namespace Fallible

variable {σ ε α β : Type}

def runIn (m : Fallible σ ε α) (s : σ) : Except ε α × σ := (ExceptT.run m).run s

/-- A step of its own: the result and the state afterwards are given. -/
def of (f : σ → Except ε α × σ) : Fallible σ ε α := ExceptT.mk f

/-- The clean-up runs when the body has failed, and the body's error is kept. -/
def onError (body : Fallible σ ε α) (cleanup : σ → σ) : Fallible σ ε α :=
  of fun s =>
    match runIn body s with
    | (.ok a, t) => (.ok a, t)
    | (.error e, t) => (.error e, cleanup t)

/-- The clean-up runs whatever becomes of the body. -/
def always (body : Fallible σ ε α) (cleanup : σ → σ) : Fallible σ ε α :=
  of fun s => ((runIn body s).1, cleanup (runIn body s).2)

/-- The error becomes part of the result. -/
def attempt (m : Fallible σ ε α) : Fallible σ ε (Except ε α) :=
  of fun s => (.ok (runIn m s).1, (runIn m s).2)

@[simp] theorem runIn_of (f : σ → Except ε α × σ) (s : σ) : runIn (of f) s = f s := rfl

@[simp] theorem runIn_pure (a : α) (s : σ) : runIn (pure a : Fallible σ ε α) s = (.ok a, s) := rfl

@[simp] theorem runIn_throw (e : ε) (s : σ) : runIn (throw e : Fallible σ ε α) s = (.error e, s) :=
    rfl

theorem runIn_bind (m : Fallible σ ε α) (f : α → Fallible σ ε β) (s : σ) :
    runIn (m >>= f) s =
      match runIn m s with
      | (.ok a, t) => runIn (f a) t
      | (.error e, t) => (.error e, t) := by
  rcases hrun : runIn m s with ⟨e | a, t⟩
  · have hm : (m : σ → Except ε α × σ) s = (.error e, t) := hrun
    simp only [runIn, ExceptT.run, bind, ExceptT.bind, ExceptT.mk, StateT.run, StateT.bind, hm]
    rfl
  · have hm : (m : σ → Except ε α × σ) s = (.ok a, t) := hrun
    simp only [runIn, ExceptT.run, bind, ExceptT.bind, ExceptT.mk, StateT.run, StateT.bind, hm]
    rfl

/-- A run that succeeds has succeeded in its first step. -/
theorem runIn_bind_ok {m : Fallible σ ε α} {f : α → Fallible σ ε β} {s u : σ} {b : β}
    (h : runIn (m >>= f) s = (.ok b, u)) : ∃ a t, runIn m s = (.ok a, t) ∧
      runIn (f a) t = (.ok b, u) := by
  rw [runIn_bind] at h
  rcases hrun : runIn m s with ⟨e | a, t⟩
  · rw [hrun] at h
    cases h
  · rw [hrun] at h
    exact ⟨a, t, rfl, h⟩

/-- From any start, the result and the state afterwards are as `Q` says. -/
def Spec (m : Fallible σ ε α) (Q : σ → Except ε α → σ → Prop) : Prop :=
    ∀ s, Q s (runIn m s).1 (runIn m s).2

/-- From a start in `P`, the result and the state afterwards are as `Q` says. -/
def Triple (P : σ → Prop) (m : Fallible σ ε α) (Q : Except ε α → σ → Prop) : Prop :=
  ∀ s, P s → Q (runIn m s).1 (runIn m s).2

variable {P P' : σ → Prop} {m : Fallible σ ε α} {f : α → Fallible σ ε β} {Q : Except ε α → σ → Prop}
  {R : σ → Except ε α → σ → Prop} {T : Except ε β → σ → Prop}

theorem Triple.pure {a : α} (h : ∀ s, P s → Q (.ok a) s) : Triple P (pure a : Fallible σ ε α) Q := h

theorem Triple.throw {e : ε} (h : ∀ s, P s → Q (.error e) s) :
    Triple P (throw e : Fallible σ ε α) Q := h

theorem Triple.weaken (h : Triple P m Q) (hpre : ∀ s, P' s → P s) : Triple P' m Q :=
    fun s hs => h s (hpre s hs)

theorem Triple.post {Q' : Except ε α → σ → Prop} (h : Triple P m Q)
    (hpost : ∀ r s, Q r s → Q' r s) :
    Triple P m Q' := fun s hs => hpost _ _ (h s hs)

/-- What is known is used to prove the triple. -/
theorem Triple.given {p : Prop} (h : p → Triple P m Q) (hpre : ∀ s, P s → p) : Triple P m Q :=
  fun s hs => h (hpre s hs) s hs

theorem Triple.of_spec (h : Spec m R) (hpost : ∀ s r t, P s → R s r t → Q r t) : Triple P m Q :=
  fun s hs => hpost s _ _ hs (h s)

theorem Triple.bind (h : Triple P m Q) (hok : ∀ a, Triple (Q (.ok a)) (f a) T)
    (herror : ∀ e s, Q (.error e) s → T (.error e) s) : Triple P (m >>= f) T := by
  intro s hs
  have hfirst := h s hs
  rw [runIn_bind]
  rcases hrun : runIn m s with ⟨e | a, t⟩
  · rw [hrun] at hfirst
    exact herror e t hfirst
  · rw [hrun] at hfirst
    exact hok a t hfirst

/-- A specified step comes first; what is known before it stays known of the state it started from.
-/
theorem Triple.step (h : Spec m R) (hok : ∀ a, Triple (fun t => ∃ s, P s ∧ R s (.ok a) t) (f a) T)
    (herror : ∀ e s t, P s → R s (.error e) t → T (.error e) t) : Triple P (m >>= f) T := by
  refine Triple.bind (Q := fun r t => ∃ s, P s ∧
    R s r t) (Triple.of_spec h fun s r t hs hr => ⟨s, hs, hr⟩) hok ?_
  rintro e t ⟨s, hs, hr⟩
  exact herror e s t hs hr

theorem Triple.onError {cleanup : σ → σ}
    (h : Triple P m fun r t =>
      match r with | .ok a => Q (.ok a) t | .error e => Q (.error e) (cleanup t)) :
    Triple P (onError m cleanup) Q := by
  intro s hs
  have hbody := h s hs
  rw [Fallible.onError, runIn_of]
  rcases hrun : runIn m s with ⟨e | a, t⟩
  · rw [hrun] at hbody
    exact hbody
  · rw [hrun] at hbody
    exact hbody

theorem Triple.always {cleanup : σ → σ} (h : Triple P m fun r t => Q r (cleanup t)) :
    Triple P (always m cleanup) Q := h

/-- Wherever a run ends, the state there is related to the start. -/
def Along (R : σ → σ → Prop) (m : Fallible σ ε α) : Prop := ∀ s, R s (runIn m s).2

section Along

variable {R : σ → σ → Prop} {m : Fallible σ ε α} {f : α → Fallible σ ε β}

theorem Along.pure [Std.Refl R] {a : α} : Along R (pure a : Fallible σ ε α) :=
    fun s => Std.Refl.refl s

theorem Along.throw [Std.Refl R] {e : ε} : Along R (throw e : Fallible σ ε α) :=
    fun s => Std.Refl.refl s

theorem Along.bind [IsTrans σ R] (hm : Along R m) (hf : ∀ a, Along R (f a)) :
    Along R (m >>= f) := by
  intro s
  have hfirst := hm s
  rw [runIn_bind]
  rcases hrun : runIn m s with ⟨e | a, t⟩
  · rw [hrun] at hfirst
    exact hfirst
  · rw [hrun] at hfirst
    exact IsTrans.trans s t _ hfirst (hf a t)

/-- The same of a run that is given. -/
theorem Along.run (hm : Along R m) {s t : σ} {r : Except ε α} (h : runIn m s = (r, t)) : R s t := by
  have hrel := hm s
  rw [h] at hrel
  exact hrel

theorem Along.attempt (hm : Along R m) : Along R (attempt m) := hm

end Along

end Fallible

end Orangutan.Lib
