import Mathlib.Computability.StateTransition
import Orangutan.Lib.Runs

/-!
# Machines that stop

A machine is a step function that may have no next state. It is run with a bound on the number of
steps; the bound does not matter when the machine stops.
-/

namespace Orangutan.Lib

set_option autoImplicit false

open StateTransition Relation

variable {σ : Type} {f : σ → Option σ} {a b c : σ}

/-- The state in which the machine stops, if it does so within the bound. -/
def runMachine (f : σ → Option σ) : Nat → σ → Option σ
  | 0, _ => none
  | fuel + 1, a =>
    match f a with
    | none => some a
    | some b => runMachine f fuel b

theorem mem_eval_of_runMachine {fuel : Nat} (h : runMachine f fuel a = some b) : b ∈ eval f a := by
  induction fuel generalizing a with
  | zero => cases h
  | succ fuel ih =>
    rw [runMachine] at h
    split at h
    · next hstop =>
      obtain rfl := Option.some.inj h
      exact mem_eval.mpr ⟨.refl, hstop⟩
    · next next hstep =>
      obtain ⟨hreach, hstop⟩ := mem_eval.mp (ih h)
      exact mem_eval.mpr ⟨.head hstep hreach, hstop⟩

theorem exists_runMachine (h : b ∈ eval f a) : ∃ fuel, runMachine f fuel a = some b := by
  obtain ⟨hreach, hstop⟩ := mem_eval.mp h
  clear h
  induction hreach using ReflTransGen.head_induction_on with
  | refl => exact ⟨1, by simp [runMachine, hstop]⟩
  | head hstep _ ih =>
    obtain ⟨fuel, hfuel⟩ := ih
    have hstep : f _ = some _ := hstep
    exact ⟨fuel + 1, by rw [runMachine, hstep]; exact hfuel⟩

/-- Where a machine stops lies behind every state that it comes through. -/
theorem mem_eval_of_reaches (hb : Reaches f a b) (hc : c ∈ eval f a) : c ∈ eval f b := by
  rwa [← reaches_eval hb]

theorem reaches_invariant {I : σ → Prop} (hstep : ∀ a b, I a → f a = some b → I b)
    (h : Reaches f a b) (ha : I a) :
    I b :=
  run_invariant (fun a b hI h => hstep a b hI h) h ha

/-- So many steps. -/
def steps (f : σ → Option σ) : Nat → σ → Option σ
  | 0, a => some a
  | n + 1, a => (f a).bind (steps f n)

theorem reaches_of_steps {n : Nat} (h : steps f n a = some b) : Reaches f a b := by
  induction n generalizing a with
  | zero => exact Option.some.inj h ▸ .refl
  | succ n ih =>
    obtain ⟨next, hstep, hrest⟩ := Option.bind_eq_some_iff.mp h
    exact .head hstep (ih hrest)

/-- What holds at each step up to the last state holds wherever the machine comes. -/
theorem forall_reaches {P : σ → Prop} {n : Nat} (hP : ∀ i ≤ n, ∀ b ∈ steps f i a, P b)
    (hstop : ∀ b ∈ steps f n a, f b = none) (h : Reaches f a b) : P b := by
  induction n generalizing a with
  | zero =>
    rcases h.cases_head with rfl | ⟨next, hstep, -⟩
    · exact hP 0 (Nat.le_refl 0) _ rfl
    · have hnone := hstop a rfl
      rw [show f a = some next from hstep] at hnone
      cases hnone
  | succ n ih =>
    rcases h.cases_head with rfl | ⟨next, hstep, hrest⟩
    · exact hP 0 (Nat.zero_le _) _ rfl
    · have hnext (i : Nat) : steps f (i + 1) a = steps f i next := by
        rw [steps, show f a = some next from hstep]
        rfl
      refine ih (fun i hi b hb => hP (i + 1) (Nat.succ_le_succ hi) b (hnext i ▸ hb))
        (fun b hb => hstop b (hnext n ▸ hb)) hrest

/-- A machine stops when each step takes something away. -/
theorem exists_mem_eval {I : σ → Prop} (size : σ → Nat) (hI : ∀ a b, I a → f a = some b → I b)
    (hsize : ∀ a b, I a → f a = some b → size b < size a) (ha : I a) : ∃ b, b ∈ eval f a := by
  induction hn : size a using Nat.strong_induction_on generalizing a with
  | _ n ih =>
    rcases hstep : f a with _ | next
    · exact ⟨a, mem_eval.mpr ⟨.refl, hstep⟩⟩
    · obtain ⟨b, hb⟩ := ih (size next) (hn ▸ hsize a next ha hstep) (hI a next ha hstep) rfl
      obtain ⟨hreach, hstop⟩ := mem_eval.mp hb
      exact ⟨b, mem_eval.mpr ⟨.head hstep hreach, hstop⟩⟩

/-- A machine does not stop when there is a step from each state to another of the kind. -/
theorem not_mem_eval {I : σ → Prop} (hI : ∀ a, I a → ∃ b, f a = some b ∧ I b) (ha : I a) :
    b ∉ eval f a := by
  intro hb
  obtain ⟨hreach, hstop⟩ := mem_eval.mp hb
  have hlast : I b := by
    refine reaches_invariant (fun a b ha hstep => ?_) hreach ha
    obtain ⟨next, hnext, hinv⟩ := hI a ha
    rw [hnext] at hstep
    exact Option.some.inj hstep ▸ hinv
  obtain ⟨next, hnext, -⟩ := hI b hlast
  rw [hstop] at hnext
  cases hnext

end Orangutan.Lib
