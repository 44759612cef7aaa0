import Mathlib

/-!
# Runs of a step relation

A property that every step keeps holds along a run, and a preorder that every step
respects relates the ends of a run.
-/

namespace Orangutan.Lib

set_option autoImplicit false

open Relation

variable {α β : Type}

theorem run_invariant {r : α → α → Prop} {I : α → Prop} (hstep : ∀ a b, I a → r a b → I b)
    {a b : α} (h : ReflTransGen r a b) (ha : I a) : I b := by
  induction h with
  | refl => exact ha
  | tail _ hr ih => exact hstep _ _ ih hr

/-- The steps may use an invariant of the states they start from. -/
theorem run_relates {r : α → α → Prop} {I : α → Prop} {Q : α → α → Prop}
    (hI : ∀ a b, I a → r a b → I b) (hrefl : ∀ a, Q a a)
    (htrans : ∀ a b c, Q a b → Q b c → Q a c) (hstep : ∀ a b, I a → r a b → Q a b)
    {a b : α} (h : ReflTransGen r a b) (ha : I a) : Q a b := by
  have hboth : I b ∧ Q a b := by
    induction h with
    | refl => exact ⟨ha, hrefl a⟩
    | tail _ hr ih => exact ⟨hI _ _ ih.1 hr, htrans _ _ _ ih.2 (hstep _ _ ih.1 hr)⟩
  exact hboth.2

/-- One entry is replaced by its image. -/
def Rewrites (f : α → α) (p : α → Prop) (l l' : List α) : Prop :=
  ∃ i a, l[i]? = some a ∧ p a ∧ l' = l.set i (f a)

/-- Mapping a list is a run of single replacements, at the entries that change. -/
theorem map_rewrites {f : α → α} {p : α → Prop} (l : List α) (hp : ∀ a ∈ l, f a = a ∨ p a) :
    ReflTransGen (Rewrites f p) l (l.map f) := by
  have hstart : ∀ n, n ≤ l.length →
      ReflTransGen (Rewrites f p) l ((l.take n).map f ++ l.drop n) := by
    intro n
    induction n with
    | zero => intro _; simpa using ReflTransGen.refl
    | succ n ih =>
      intro hn
      have ih := ih (by omega)
      have hlen : ((l.take n).map f).length = n := by simp; omega
      have hdrop : l.drop n = l[n] :: l.drop (n + 1) := List.drop_eq_getElem_cons (by omega)
      have hnext : (l.take (n + 1)).map f ++ l.drop (n + 1) =
          (l.take n).map f ++ f l[n] :: l.drop (n + 1) := by
        rw [List.take_succ_eq_append_getElem (by omega), List.map_append]
        simp
      rw [hnext]
      rcases hp l[n] (List.getElem_mem _) with hsame | hpn
      · rw [hsame, ← hdrop]
        exact ih
      · refine ih.tail ⟨n, l[n], ?_, hpn, ?_⟩
        · rw [List.getElem?_append_right (by omega), hlen, hdrop]
          simp
        · rw [List.set_append_right _ _ (by omega), hlen, Nat.sub_self, hdrop]
          rfl
  have h := hstart l.length (Nat.le_refl _)
  simpa using h

end Orangutan.Lib
